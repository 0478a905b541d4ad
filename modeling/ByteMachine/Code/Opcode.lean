import ByteMachine.Code.Operator

/-! The opcode table. A typed family takes three consecutive bytes, one for each type in
the order of `Ty.index`; every byte outside the table is unknown. -/
namespace ByteMachine

inductive Opcode where
  | halt
  | push (t : Ty)
  | pop (t : Ty)
  | get (t : Ty)
  | put (t : Ty)
  | getAddress (t : Ty)
  | putAddress (t : Ty)
  | getStack (t : Ty)
  | putStack (t : Ty)
  | arith (op : ArithOp) (t : Ty)
  | compare (op : CompareOp) (t : Ty)
  | bitwise (op : BitOp)
  | not
  | ret
  | jmp
  | branch (c : Condition) (t : Ty)
  | branchAddress (c : Condition) (t : Ty)
  | call
  | callAddress
deriving DecidableEq

/-- Addresses and offsets are encoded as ints. -/
inductive Operand where
  | none
  | literal (t : Ty)
  | address
  | offset
deriving DecidableEq

namespace Operand

def ty? : Operand → Option Ty
  | none => .none
  | literal t => some t
  | address | offset => some .int

def width (o : Operand) : Nat := o.ty?.elim 0 Ty.width

end Operand

namespace Opcode

def ty? : Opcode → Option Ty
  | push t | pop t | get t | put t | getAddress t | putAddress t | getStack t | putStack t
  | arith _ t | compare _ t | branch _ t | branchAddress _ t => some t
  | halt | bitwise _ | not | ret | jmp | call | callAddress => none

/-- The byte of an untyped opcode, or the first byte of its family. -/
def base : Opcode → Nat
  | halt => 0x00
  | push _ => 0x08
  | pop _ => 0x0C
  | get _ => 0x10
  | put _ => 0x18
  | getAddress _ => 0x20
  | putAddress _ => 0x28
  | getStack _ => 0x30
  | putStack _ => 0x38
  | arith .add _ => 0x40
  | arith .sub _ => 0x44
  | arith .mul _ => 0x48
  | arith .div _ => 0x4C
  | compare .equal _ => 0x60
  | compare .unequal _ => 0x64
  | compare .greater _ => 0x68
  | compare .smaller _ => 0x6C
  | bitwise .and => 0x70
  | bitwise .or => 0x71
  | not => 0x72
  | bitwise .xor => 0x73
  | ret => 0xE0
  | jmp => 0xE1
  | branch .zero _ => 0xE4
  | branchAddress .zero _ => 0xE8
  | branch .nonZero _ => 0xEC
  | branchAddress .nonZero _ => 0xF0
  | call => 0xF8
  | callAddress => 0xF9

def toByte (op : Opcode) : UInt8 := UInt8.ofNat (op.base + op.ty?.elim 0 Ty.index)

def all : List Opcode :=
  [halt] ++ Ty.all.map push ++ Ty.all.map pop ++ Ty.all.map get ++ Ty.all.map put ++
  Ty.all.map getAddress ++ Ty.all.map putAddress ++ Ty.all.map getStack ++ Ty.all.map putStack ++
  Ty.all.map (arith .add) ++ Ty.all.map (arith .sub) ++ Ty.all.map (arith .mul) ++
  Ty.all.map (arith .div) ++ Ty.all.map (compare .equal) ++ Ty.all.map (compare .unequal) ++
  Ty.all.map (compare .greater) ++ Ty.all.map (compare .smaller) ++
  [bitwise .and, bitwise .or, not, bitwise .xor, ret, jmp] ++
  Ty.all.map (branch .zero) ++ Ty.all.map (branchAddress .zero) ++
  Ty.all.map (branch .nonZero) ++ Ty.all.map (branchAddress .nonZero) ++ [call, callAddress]

theorem all_ascending : (all.map toByte).Pairwise (· < ·) := by decide +kernel

theorem mem_all (op : Opcode) : op ∈ all := by
  cases op <;> try decide
  all_goals rename_i t; cases t <;> try decide
  all_goals rename_i op; cases op <;> decide

def ofByte? (b : UInt8) : Option Opcode := all.find? (·.toByte == b)

theorem ofByte?_toByte (op : Opcode) : ofByte? op.toByte = some op := by
  cases op <;> try decide
  all_goals rename_i t; cases t <;> try decide
  all_goals rename_i op; cases op <;> decide

theorem toByte_of_ofByte? {b : UInt8} {op : Opcode} (h : ofByte? b = some op) : op.toByte = b := by
  simpa using List.find?_some h

def operand : Opcode → Operand
  | push t => .literal t
  | getAddress _ | putAddress _ | jmp | branchAddress _ _ | callAddress => .address
  | getStack _ | putStack _ => .offset
  | _ => .none

def size (op : Opcode) : Nat := 1 + op.operand.width

def stem : Opcode → String
  | halt => "end"
  | push _ => "push"
  | pop _ => "pop"
  | get _ | getAddress _ | getStack _ => "get"
  | put _ | putAddress _ | putStack _ => "put"
  | arith .add _ => "add"
  | arith .sub _ => "sub"
  | arith .mul _ => "mul"
  | arith .div _ => "div"
  | compare .equal _ => "equal"
  | compare .unequal _ => "unequal"
  | compare .greater _ => "greater"
  | compare .smaller _ => "smaller"
  | bitwise .and => "and"
  | bitwise .or => "or"
  | bitwise .xor => "xor"
  | not => "not"
  | ret => "ret"
  | jmp => "jmp"
  | branch .zero _ | branchAddress .zero _ => "jmpz"
  | branch .nonZero _ | branchAddress .nonZero _ => "jmpnz"
  | call | callAddress => "call"

/-- The last word of the mnemonic, for the forms that find their address or slot in the operand. -/
def mode : Opcode → String
  | getAddress _ | putAddress _ | branchAddress _ _ | callAddress => "-address"
  | getStack _ | putStack _ => "-stack"
  | _ => ""

def mnemonic (op : Opcode) : String :=
  op.stem ++ op.ty?.elim "" ("-" ++ ·.name) ++ op.mode

end Opcode
end ByteMachine
