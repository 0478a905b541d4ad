import ByteMachine.Code.Opcode

/-! Instructions: an opcode together with its operand, their bytes and their texts. -/
namespace ByteMachine

inductive Instruction where
  | halt
  | push (t : Ty) (v : t.Val)
  | pop (t : Ty)
  | get (t : Ty)
  | put (t : Ty)
  | getAddress (t : Ty) (address : Int64)
  | putAddress (t : Ty) (address : Int64)
  | getStack (t : Ty) (offset : Int64)
  | putStack (t : Ty) (offset : Int64)
  | arith (op : ArithOp) (t : Ty)
  | compare (op : CompareOp) (t : Ty)
  | bitwise (op : BitOp)
  | not
  | ret
  | jmp (target : Int64)
  | branch (c : Condition) (t : Ty)
  | branchAddress (c : Condition) (t : Ty) (target : Int64)
  | call
  | callAddress (target : Int64)
deriving DecidableEq

namespace Instruction

def opcode : Instruction → Opcode
  | halt => .halt
  | push t _ => .push t
  | pop t => .pop t
  | get t => .get t
  | put t => .put t
  | getAddress t _ => .getAddress t
  | putAddress t _ => .putAddress t
  | getStack t _ => .getStack t
  | putStack t _ => .putStack t
  | arith op t => .arith op t
  | compare op t => .compare op t
  | bitwise op => .bitwise op
  | not => .not
  | ret => .ret
  | jmp _ => .jmp
  | branch c t => .branch c t
  | branchAddress c t _ => .branchAddress c t
  | call => .call
  | callAddress _ => .callAddress

/-- Addresses and offsets are int values. -/
def operand? : Instruction → Option Value
  | push _ v => some ⟨v⟩
  | getAddress _ n | putAddress _ n | getStack _ n | putStack _ n | jmp n | branchAddress _ _ n
  | callAddress n => some (Value.int n)
  | _ => none

theorem operand?_ty (i : Instruction) : i.operand?.map (·.ty) = i.opcode.operand.ty? := by
  cases i <;> rfl

def size (i : Instruction) : Nat := i.opcode.size

def encode (i : Instruction) : List UInt8 :=
  i.opcode.toByte :: i.operand?.elim [] Value.encode

theorem length_encode (i : Instruction) : i.encode.length = i.size := by
  cases i <;>
    simp [encode, size, Opcode.size, Operand.width, operand?, opcode, Opcode.operand,
      Operand.ty?, Value.length_encode, Nat.add_comm]

theorem size_pos (i : Instruction) : 0 < i.size := by
  unfold size Opcode.size
  omega

def text (i : Instruction) : String :=
  i.opcode.mnemonic ++ i.operand?.elim "" (" " ++ ·.text)

end Instruction

/-- The instruction with this opcode, its operand taken from a source of values. -/
def Opcode.withOperand {ε : Type} (op : Opcode) (source : (t : Ty) → Except ε t.Val) :
    Except ε Instruction :=
  match op with
  | halt => .ok .halt
  | push t => (source t).map (.push t)
  | pop t => .ok (.pop t)
  | get t => .ok (.get t)
  | put t => .ok (.put t)
  | getAddress t => (source .int).map (.getAddress t)
  | putAddress t => (source .int).map (.putAddress t)
  | getStack t => (source .int).map (.getStack t)
  | putStack t => (source .int).map (.putStack t)
  | arith op t => .ok (.arith op t)
  | compare op t => .ok (.compare op t)
  | bitwise op => .ok (.bitwise op)
  | not => .ok .not
  | ret => .ok .ret
  | jmp => (source .int).map .jmp
  | branch c t => .ok (.branch c t)
  | branchAddress c t => (source .int).map (.branchAddress c t)
  | call => .ok .call
  | callAddress => (source .int).map .callAddress

end ByteMachine
