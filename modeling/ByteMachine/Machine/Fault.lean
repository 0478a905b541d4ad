import ByteMachine.Store.Stack

/-! Sizes of a machine, and what can go wrong with it. -/
namespace ByteMachine

structure Config where
  /-- All memory in bytes, program and stack included. -/
  memorySize : Nat := 256
  stackSize : Nat := 64
  maxSteps : Option Nat := none
deriving DecidableEq

/-- Errors of a machine. From `memory` on they stop it at the address of an instruction. -/
inductive MachineError where
  | invalidConfiguration (memorySize stackSize : Nat)
  | programTooLarge (length capacity : Nat)
  | memory (pc : Nat) (source : MemoryError)
  | stackOverflow (pc : Nat)
  | stackUnderflow (pc : Nat)
  | blocked (pc : Nat)
  | illegalAddress (pc : Nat) (address : Int)
  | unknownOpcode (pc : Nat) (byte : UInt8)
  | divisionByZero (pc : Nat)
  | stepLimitExceeded (pc limit : Nat)
deriving DecidableEq

namespace MachineError

def message : MachineError → String
  | invalidConfiguration memorySize stackSize =>
    s!"invalid configuration: memory {memorySize} bytes, stack {stackSize} bytes"
  | programTooLarge length capacity =>
    s!"program of {length} bytes does not fit in {capacity} bytes of memory"
  | memory pc source => s!"memory error at {pc}: {source.message}"
  | stackOverflow pc => s!"stack overflow at {pc}"
  | stackUnderflow pc => s!"stack underflow at {pc}"
  | blocked pc => s!"stack blocked at {pc}"
  | illegalAddress pc address => s!"illegal address {address} at {pc}"
  | unknownOpcode pc byte => s!"unknown opcode 0x{Numeral.hex 2 byte.toNat} at {pc}"
  | divisionByZero pc => s!"division by zero at {pc}"
  | stepLimitExceeded pc limit => s!"step limit of {limit} exceeded at {pc}"

/-- Where the machine stopped. -/
def pc? : MachineError → Option Nat
  | invalidConfiguration _ _ | programTooLarge _ _ => none
  | memory pc _ | stackOverflow pc | stackUnderflow pc | blocked pc | illegalAddress pc _
  | unknownOpcode pc _ | divisionByZero pc | stepLimitExceeded pc _ => some pc

end MachineError

def Config.validate (c : Config) : Except MachineError Unit :=
  if c.stackSize ≤ c.memorySize ∧ c.memorySize < Memory.addressLimit then .ok ()
  else .error (.invalidConfiguration c.memorySize c.stackSize)

/-- A failure within one instruction. -/
inductive Fault where
  | memory (e : MemoryError)
  | stack (e : StackError)
  | illegalAddress (address : Int)
  | unknownOpcode (byte : UInt8)
  | divisionByZero
deriving DecidableEq

def Fault.located (f : Fault) (pc : Nat) : MachineError :=
  match f with
  | memory e | stack (.memory e) => .memory pc e
  | stack .overflow => .stackOverflow pc
  | stack .underflow => .stackUnderflow pc
  | stack .blocked => .blocked pc
  | illegalAddress address => .illegalAddress pc address
  | unknownOpcode byte => .unknownOpcode pc byte
  | divisionByZero => .divisionByZero pc

theorem Fault.pc?_located (f : Fault) (pc : Nat) : (f.located pc).pc? = some pc := by
  cases f with
  | stack e => cases e <;> rfl
  | _ => rfl

end ByteMachine
