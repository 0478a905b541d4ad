import ByteMachine.Code.Decode
import ByteMachine.Machine.Effect

/-! The machine and its single step. A halted or faulted machine stays as it is. A failing
instruction is undone: the stack pointer returns to where it was, the latch stays. -/
namespace ByteMachine

inductive Status where
  | running
  | halted
  | faulted (e : MachineError)
deriving DecidableEq

/-- An instruction counts as a step once it is decoded, even if it then fails. -/
structure Machine where
  store : Store
  pc : Nat
  status : Status
  steps : Nat
  maxSteps : Option Nat
deriving DecidableEq

/-- What a step did: the instruction, if there was one to execute, the stack pointer after it,
and the status it left. -/
structure Event where
  pc : Nat
  instruction? : Option Instruction
  pointer : Nat
  outcome : Status
deriving DecidableEq

def Store.rewind (s : Store) (pointer : Nat) : Store :=
  { s with stack.pointer := min pointer s.stack.size }

namespace Machine

def ofConfig (c : Config) : Except MachineError Machine :=
  match c.validate with
  | .error e => .error e
  | .ok () =>
    .ok ⟨⟨.zero c.memorySize, .atTop c.memorySize c.stackSize⟩, 0, .running, 0, c.maxSteps⟩

abbrev memory (m : Machine) : Memory := m.store.memory

abbrev stack (m : Machine) : Stack := m.store.stack

/-- The program goes to address zero; nothing else changes. -/
def load (program : List UInt8) (m : Machine) : Except MachineError Machine :=
  if m.memory.size < program.length then
    .error (.programTooLarge program.length m.memory.size)
  else .ok { m with store.memory := m.memory.overwrite 0 program }

/-- The instruction at `pc`. A `pc` beyond all addresses is reported as the last of them. -/
def fetch (memory : Memory) (pc : Nat) : Except Fault Instruction :=
  if Memory.addressLimit ≤ pc then .error (.memory ⟨Memory.addressLimit - 1, 1, memory.size⟩)
  else
    match memory.get .byte pc with
    | .error e => .error (.memory e)
    | .ok b =>
      match Opcode.ofByte? b with
      | none => .error (.unknownOpcode b)
      | some op => op.withOperand fun t => (memory.get t (pc + 1)).mapError .memory

/-- Moves the entry point. -/
def setPc (pc : Nat) (m : Machine) : Machine := { m with pc }

def fail (m : Machine) (i : Option Instruction) (e : MachineError) : Machine × Event :=
  ({ m with status := .faulted e }, ⟨m.pc, i, m.stack.pointer, .faulted e⟩)

variable [FloatUnit]

def execute (i : Instruction) : Machine → Machine × Event
  | ⟨store, pc, _, steps, maxSteps⟩ =>
    let pointer := store.stack.pointer
    let finish (store : Store) (next : Nat) (status : Status) : Machine × Event :=
      (⟨store, next, status, steps + 1, maxSteps⟩, ⟨pc, some i, store.stack.pointer, status⟩)
    match i.effect pc store with
    | .ok .next store => finish store (pc + i.size) .running
    | .ok (.jump target) store => finish store target .running
    | .ok .halt store => finish store pc .halted
    | .error fault store => finish (store.rewind pointer) pc (.faulted (fault.located pc))

/-- The step budget, once it is used up. -/
def exhausted? (m : Machine) : Option Nat := m.maxSteps.filter (· ≤ m.steps)

/-- The budget is checked before anything is fetched. -/
def stepRunning (m : Machine) : Machine × Event :=
  match m.exhausted? with
  | some limit => m.fail none (.stepLimitExceeded m.pc limit)
  | none =>
    match fetch m.memory m.pc with
    | .error fault => m.fail none (fault.located m.pc)
    | .ok i => m.execute i

def step (m : Machine) : Machine × Option Event :=
  match m.status with
  | .running => let (m, e) := m.stepRunning; (m, some e)
  | _ => (m, none)

theorem step_of_ne_running {m : Machine} (h : m.status ≠ .running) : m.step = (m, none) := by
  unfold step
  split <;> simp_all

end Machine
end ByteMachine
