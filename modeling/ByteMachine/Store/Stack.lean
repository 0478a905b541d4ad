import ByteMachine.Store.Memory

/-! The operand stack: a window at the top of memory with a pointer one past the top element.
Slot `i` of the window is the byte at address `base + i`.

The first push that does not fit, or pop that finds too little, latches the stack; from then on
every operation fails. An operation runs on the memory and the stack together and gives back
both, whether it succeeds or not. -/
namespace ByteMachine

inductive Latch where
  | active
  | overflowed
  | underflowed
deriving DecidableEq

structure Stack where
  base : Nat
  size : Nat
  pointer : Nat
  latch : Latch
deriving DecidableEq

inductive StackError where
  | overflow
  | underflow
  | blocked
  | memory (e : MemoryError)
deriving DecidableEq

def StackError.message : StackError → String
  | overflow => "stack overflow"
  | underflow => "stack underflow"
  | blocked => "stack blocked after earlier overflow or underflow"
  | memory e => e.message

structure Store where
  memory : Memory
  stack : Stack
deriving DecidableEq

abbrev StackM := EStateM StackError Store

/-- The signed reading of the low 64 bits. -/
def signed (n : Int) : Int := n.bmod UInt64.size

theorem signed_of_lt {n : Nat} (h : n < Memory.addressLimit) : signed n = n := by
  simp only [Memory.addressLimit] at h
  simp only [signed, Int.bmod, UInt64.size]
  omega

namespace Stack

def atTop (memorySize size : Nat) : Stack := ⟨memorySize - size, size, 0, .active⟩

def ofSizes? (memorySize size : Nat) : Option Stack :=
  if size ≤ memorySize then some (atTop memorySize size) else none

def isBlocked (s : Stack) : Bool := s.latch != .active

def address (s : Stack) (slot : Nat) : Int := signed (s.base + slot)

/-- The occupied bytes, bottom first. -/
def contents (s : Stack) (m : Memory) : List UInt8 := m.slice s.base s.pointer

/-- All bytes of the window, or none if it is not wholly inside the memory. -/
def window (s : Stack) (m : Memory) : Array UInt8 :=
  if s.base + s.size ≤ m.size then m.bytes.extract s.base (s.base + s.size) else #[]

/-- The slot at an offset from the pointer. A place beyond the signed 64-bit range lies outside
every window and is reported as the offset itself. -/
@[inline] def slot (s : Stack) (offset : Int64) (width : Nat) : Except MemoryError Nat :=
  let place := s.pointer + offset.toInt
  if signed place ≠ place then .error ⟨offset.toInt, width, s.size⟩
  else if 0 ≤ place ∧ place + width ≤ s.size then .ok place.toNat
  else .error ⟨place, width, s.size⟩

end Stack

namespace Store

def contents (s : Store) : List UInt8 := s.stack.contents s.memory

def push {t : Ty} (v : t.Val) : StackM Unit := fun s =>
  if s.stack.isBlocked then .error .blocked s
  else if s.stack.size < s.stack.pointer + t.width then
    .error .overflow { s with stack.latch := .overflowed }
  else
    match s.memory.put (s.stack.address s.stack.pointer) v with
    | .ok memory =>
      .ok () { memory, stack := { s.stack with pointer := s.stack.pointer + t.width } }
    | .error e => .error (.memory e) s

def pop (t : Ty) : StackM t.Val := fun s =>
  if s.stack.isBlocked then .error .blocked s
  else if s.stack.pointer < t.width then
    .error .underflow { s with stack.latch := .underflowed }
  else
    match s.memory.get t (s.stack.address (s.stack.pointer - t.width)) with
    | .ok v => .ok v { s with stack.pointer := s.stack.pointer - t.width }
    | .error e => .error (.memory e) s

/-- Reads in place, at an offset from the pointer. -/
def peek (t : Ty) (offset : Int64) : StackM t.Val := fun s =>
  if s.stack.isBlocked then .error .blocked s
  else
    match s.stack.slot offset t.width with
    | .error e => .error (.memory e) s
    | .ok slot =>
      match s.memory.get t (s.stack.address slot) with
      | .ok v => .ok v s
      | .error e => .error (.memory e) s

def poke {t : Ty} (offset : Int64) (v : t.Val) : StackM Unit := fun s =>
  if s.stack.isBlocked then .error .blocked s
  else
    match s.stack.slot offset t.width with
    | .error e => .error (.memory e) s
    | .ok slot =>
      match s.memory.put (s.stack.address slot) v with
      | .ok memory => .ok () { s with memory }
      | .error e => .error (.memory e) s

end Store
end ByteMachine
