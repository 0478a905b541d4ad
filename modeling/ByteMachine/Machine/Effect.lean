import ByteMachine.Code.Instruction
import ByteMachine.Machine.Fault

/-! What each instruction does, written over the operations that instructions are made of. Binary
operators pop the right operand first; an address is on top of the value that it goes with. -/
namespace ByteMachine

inductive Flow where
  | next
  | jump (target : Nat)
  | halt
deriving DecidableEq

/-- The operations that instructions are made of. -/
structure Primitives (m : Type → Type) where
  push {t : Ty} : t.Val → m Unit
  pop (t : Ty) : m t.Val
  peek (t : Ty) : Int64 → m t.Val
  poke {t : Ty} : Int64 → t.Val → m Unit
  load (t : Ty) : Int64 → m t.Val
  store {t : Ty} : Int64 → t.Val → m Unit
  target : Int64 → m Nat
  /-- The address behind an instruction of some size, as a value. -/
  link (pc size : Nat) : m Int64
  fail {α : Type} : Fault → m α

namespace Primitives

variable {m : Type → Type} [Monad m] (ops : Primitives m)

def jump (address : Int64) : m Flow := return .jump (← ops.target address)

/-- The target is checked whether or not the jump is taken. -/
def jumpIf (taken : Bool) (address : Int64) : m Flow := do
  let target ← ops.target address
  return if taken then .jump target else .next

/-- Leaves the address of the next instruction on the stack. -/
def call (address : Int64) (pc size : Nat) : m Flow := do
  let target ← ops.target address
  ops.push (t := .int) (← ops.link pc size)
  return .jump target

end Primitives

def Effect.flag (b : Bool) : UInt8 := if b then 0xFF else 0x00

/-- The effect of the instruction at `pc`, over any operations. -/
def Instruction.perform [FloatUnit] {m : Type → Type} [Monad m] (ops : Primitives m) (pc : Nat) :
    Instruction → m Flow
  | halt => return .halt
  | push _ v => do
    ops.push v
    return .next
  | pop t => do
    let _ ← ops.pop t
    return .next
  | get t => do
    let address ← ops.pop .int
    let v ← ops.load t address
    ops.push v
    return .next
  | put t => do
    let address ← ops.pop .int
    let v ← ops.pop t
    ops.store address v
    return .next
  | getAddress t address => do
    let v ← ops.load t address
    ops.push v
    return .next
  | putAddress t address => do
    let v ← ops.pop t
    ops.store address v
    return .next
  | getStack t offset => do
    let v ← ops.peek t offset
    ops.push v
    return .next
  | putStack t offset => do
    let v ← ops.pop t
    ops.poke offset v
    return .next
  | arith op t => do
    let b ← ops.pop t
    let a ← ops.pop t
    match op.eval t a b with
    | none => ops.fail .divisionByZero
    | some r => ops.push r
    return .next
  | compare op t => do
    let b ← ops.pop t
    let a ← ops.pop t
    ops.push (t := .byte) (Effect.flag (op.eval t a b))
    return .next
  | bitwise op => do
    let b ← ops.pop .byte
    let a ← ops.pop .byte
    ops.push (t := .byte) (op.eval a b)
    return .next
  | not => do
    let a ← ops.pop .byte
    ops.push (t := .byte) (~~~a)
    return .next
  | ret => do ops.jump (← ops.pop .int)
  | jmp address => ops.jump address
  | branch c t => do
    let address ← ops.pop .int
    let v ← ops.pop t
    ops.jumpIf (c.holds (t.isZero v)) address
  | branchAddress c t address => do
    let v ← ops.pop t
    ops.jumpIf (c.holds (t.isZero v)) address
  | call => do ops.call (← ops.pop .int) pc Opcode.call.size
  | callAddress address => ops.call address pc Opcode.callAddress.size

abbrev Effect := EStateM Fault Store

namespace Effect

def ofStack {α : Type} (x : StackM α) : Effect α := fun s =>
  match x s with
  | .ok a s => .ok a s
  | .error e s => .error (.stack e) s

instance : MonadLift StackM Effect := ⟨ofStack⟩

def load (t : Ty) (address : Int) : Effect t.Val := fun s =>
  match s.memory.get t address with
  | .ok v => .ok v s
  | .error e => .error (.memory e) s

def store {t : Ty} (address : Int) (v : t.Val) : Effect Unit := fun s =>
  match s.memory.put address v with
  | .ok memory => .ok () { s with memory }
  | .error e => .error (.memory e) s

def target (address : Int64) : Effect Nat := fun s =>
  if 0 ≤ address.toInt ∧ address.toInt < s.memory.size then .ok address.toInt.toNat s
  else .error (.illegalAddress address.toInt) s

def primitives : Primitives Effect where
  push v := Store.push v
  pop t := Store.pop t
  peek t offset := Store.peek t offset
  poke offset v := Store.poke offset v
  load t address := Effect.load t address.toInt
  store address v := Effect.store address.toInt v
  target := Effect.target
  link pc size := return Int64.ofNat (pc + size)
  fail := throw

end Effect

/-- The effect of the instruction at `pc` on the store. -/
def Instruction.effect [FloatUnit] (pc : Nat) (i : Instruction) : Effect Flow :=
  i.perform Effect.primitives pc

end ByteMachine
