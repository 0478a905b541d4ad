import ByteMachine.Machine.Step

/-! The machine a second time, on words of 64 bits. Each sum, difference and cast is checked where
it is made, and so are the bounds of each slice and the width of what is decoded or encoded. The
instructions are the same ones, over these operations. -/
namespace ByteMachine

/-- A result or a fault. The fault `none` is a breach: a number that has left its range, bytes out
of reach, a failure where there must be none. -/
abbrev Checked := Except (Option Fault)

abbrev CheckedEffect := EStateM (Option Fault) Store

namespace Checked

/-- The number as an unsigned word. -/
def word (n : Int) : Checked Nat :=
  if 0 ≤ n ∧ n < UInt64.size then .ok n.toNat else .error none

/-- The number as a signed word. -/
def int (n : Int) : Checked Int := if signed n = n then .ok n else .error none

/-- An access that must not fail. -/
def sure {α : Type} (x : Checked α) : Checked α := x.mapError fun _ => none

def slice (m : Memory) (start width : Nat) : Checked (List UInt8) :=
  if start + width ≤ m.size then .ok (m.slice start width) else .error none

def decode (t : Ty) (bytes : List UInt8) : Checked t.Val :=
  if bytes.length = t.width then .ok (t.decode bytes) else .error none

/-- The bytes of a value, to take the place of just as many. -/
def encode {t : Ty} (v : t.Val) (place : List UInt8) : Checked (List UInt8) :=
  if place.length = t.width ∧ (t.encode v).length = t.width then .ok (t.encode v)
  else .error none

def get (m : Memory) (t : Ty) (address : Int) : Checked t.Val := do
  let start ← (m.locate address t.width).mapError fun e => some (.memory e)
  decode t (← slice m start t.width)

def put (m : Memory) {t : Ty} (address : Int) (v : t.Val) : Checked Memory := do
  let start ← (m.locate address t.width).mapError fun e => some (.memory e)
  return m.overwrite start (← encode v (← slice m start t.width))

def address (s : Stack) (slot : Nat) : Checked Int := do int (← word (s.base + slot))

def getSlot (s : Store) (t : Ty) (slot : Nat) : Checked t.Val :=
  sure do get s.memory t (← address s.stack slot)

def putSlot (s : Store) {t : Ty} (slot : Nat) (v : t.Val) : Checked Memory :=
  sure do put s.memory (← address s.stack slot) v

/-- The pointer is cast before the offset is added. -/
def slot (s : Stack) (offset : Int64) (width : Nat) : Checked Nat := do
  let _ ← int s.pointer
  (s.slot offset width).mapError fun e => some (.stack (.memory e))

/-- A checked computation within an effect. -/
def into {α β : Type} (x : Checked α) (s : Store)
    (k : α → EStateM.Result (Option Fault) Store β) : EStateM.Result (Option Fault) Store β :=
  match x with
  | .ok a => k a
  | .error e => .error e s

def push {t : Ty} (v : t.Val) : CheckedEffect Unit := fun s =>
  if s.stack.isBlocked then .error (some (.stack .blocked)) s
  else
    (word (s.stack.pointer + t.width)).into s fun top =>
      if s.stack.size < top then
        .error (some (.stack .overflow)) { s with stack.latch := .overflowed }
      else
        (putSlot s s.stack.pointer v).into s fun memory =>
          .ok () { memory, stack := { s.stack with pointer := top } }

def pop (t : Ty) : CheckedEffect t.Val := fun s =>
  if s.stack.isBlocked then .error (some (.stack .blocked)) s
  else if s.stack.pointer < t.width then
    .error (some (.stack .underflow)) { s with stack.latch := .underflowed }
  else
    (word ((s.stack.pointer : Int) - t.width)).into s fun pointer =>
      (getSlot s t pointer).into s fun v => .ok v { s with stack.pointer := pointer }

def peek (t : Ty) (offset : Int64) : CheckedEffect t.Val := fun s =>
  if s.stack.isBlocked then .error (some (.stack .blocked)) s
  else
    (slot s.stack offset t.width).into s fun slot =>
      (getSlot s t slot).into s fun v => .ok v s

def poke {t : Ty} (offset : Int64) (v : t.Val) : CheckedEffect Unit := fun s =>
  if s.stack.isBlocked then .error (some (.stack .blocked)) s
  else
    (slot s.stack offset t.width).into s fun slot =>
      (putSlot s slot v).into s fun memory => .ok () { s with memory }

def load (t : Ty) (address : Int64) : CheckedEffect t.Val := fun s =>
  (get s.memory t address.toInt).into s fun v => .ok v s

def store {t : Ty} (address : Int64) (v : t.Val) : CheckedEffect Unit := fun s =>
  (put s.memory address.toInt v).into s fun memory => .ok () { s with memory }

def target (address : Int64) : CheckedEffect Nat := fun s =>
  if 0 ≤ address.toInt ∧ address.toInt < s.memory.size then .ok address.toInt.toNat s
  else .error (some (.illegalAddress address.toInt)) s

/-- A sum and a cast. -/
def link (pc size : Nat) : CheckedEffect Int64 := fun s =>
  (word (pc + size)).into s fun next =>
    (int next).into s fun address => .ok (Int64.ofInt address) s

def primitives : Primitives CheckedEffect where
  push := push
  pop := pop
  peek := peek
  poke := poke
  load := load
  store := store
  target := target
  link := link
  fail f := throw (some f)

/-- An operand, and the check of where the reader then stands. -/
def operand (m : Memory) (position : Int) (t : Ty) : Checked t.Val := do
  let v ← get m t position
  let _ ← int (position + t.width)
  return v

def fetch (memory : Memory) (pc : Nat) : Checked Instruction :=
  if Memory.addressLimit ≤ pc then
    .error (some (.memory ⟨Memory.addressLimit - 1, 1, memory.size⟩))
  else do
    let b ← get memory .byte pc
    match Opcode.ofByte? b with
    | none => .error (some (.unknownOpcode b))
    | some op =>
      let position ← int (pc + 1)
      op.withOperand (operand memory position)

/-- The pointer that is put back must fit the window as it is. -/
def rewind (pointer : Nat) (s : Store) : Checked Store :=
  if pointer ≤ s.stack.size then .ok (s.rewind pointer) else .error none

variable [FloatUnit]

def execute (i : Instruction) (m : Machine) : Checked (Machine × Event) := do
  let steps ← word (m.steps + 1)
  let finish (store : Store) (next : Nat) (status : Status) : Machine × Event :=
    (⟨store, next, status, steps, m.maxSteps⟩, ⟨m.pc, some i, store.stack.pointer, status⟩)
  match i.perform primitives m.pc m.store with
  | .ok .next store => return finish store (← word (m.pc + i.size)) .running
  | .ok (.jump target) store => return finish store target .running
  | .ok .halt store => return finish store m.pc .halted
  | .error none _ => .error none
  | .error (some fault) store =>
    return finish (← rewind m.stack.pointer store) m.pc (.faulted (fault.located m.pc))

def stepRunning (m : Machine) : Checked (Machine × Event) :=
  match m.exhausted? with
  | some limit => return m.fail none (.stepLimitExceeded m.pc limit)
  | none =>
    match fetch m.memory m.pc with
    | .error none => .error none
    | .error (some fault) => return m.fail none (fault.located m.pc)
    | .ok i => execute i m

def step (m : Machine) : Checked (Machine × Option Event) :=
  match m.status with
  | .running => (stepRunning m).map fun (m, e) => (m, some e)
  | _ => .ok (m, none)

def after : Nat → Machine → Checked Machine
  | 0, m => .ok m
  | n + 1, m => do after n (← step m).1

end Checked
end ByteMachine
