import ByteMachine.Machine.Fault

/-! Arguments of the run command: a path, whatever it looks like, and then flags in any order.
A flag that wants a number takes the next argument, whatever that looks like. -/
namespace ByteMachine

/-- Decimal, or hexadecimal after `0x`, with an optional plus sign before the digits. -/
def numberArgument? (s : String) : Option Nat :=
  let (base, cs) :=
    match s.toList with
    | '0' :: 'x' :: cs => (16, cs)
    | cs => (10, cs)
  let digits :=
    match cs with
    | '+' :: cs => cs
    | cs => cs
  (Numeral.read? base digits).filter (· < UInt64.size)

inductive NumberFlag where
  | memory
  | stack
  | entry
  | maxSteps
deriving DecidableEq

namespace NumberFlag

def all : List NumberFlag := [memory, stack, entry, maxSteps]

def name : NumberFlag → String
  | memory => "--memory"
  | stack => "--stack"
  | entry => "--entry"
  | maxSteps => "--max-steps"

def ofName? (s : String) : Option NumberFlag := all.find? (·.name == s)

theorem ofName?_name (f : NumberFlag) : ofName? f.name = some f := by cases f <;> decide

end NumberFlag

structure RunOptions where
  path : String
  config : Config := {}
  entry : Nat := 0
  trace : Bool := false
  dump : Bool := false
deriving DecidableEq

def RunOptions.set (o : RunOptions) (f : NumberFlag) (n : Nat) : RunOptions :=
  match f with
  | .memory => { o with config.memorySize := n }
  | .stack => { o with config.stackSize := n }
  | .entry => { o with entry := n }
  | .maxSteps => { o with config.maxSteps := some n }

inductive ArgumentError where
  | missingPath
  | missingValue (f : NumberFlag)
  | invalidValue (f : NumberFlag) (value : String)
  | unexpected (argument : String)
deriving DecidableEq

def ArgumentError.message : ArgumentError → String
  | missingPath => "run requires an input file"
  | missingValue f => s!"{f.name} requires a value"
  | invalidValue f value => s!"invalid value '{value}' for {f.name}"
  | unexpected argument => s!"unexpected argument '{argument}'"

namespace RunOptions

/-- The last occurrence of a flag wins; the first argument that fits nothing is reported. -/
def readFlags (o : RunOptions) : List String → Except ArgumentError RunOptions
  | [] => .ok o
  | a :: rest =>
    if a = "--trace" then readFlags { o with trace := true } rest
    else if a = "--dump" then readFlags { o with dump := true } rest
    else
      match NumberFlag.ofName? a with
      | none => .error (.unexpected a)
      | some f =>
        match rest with
        | [] => .error (.missingValue f)
        | value :: rest =>
          match numberArgument? value with
          | none => .error (.invalidValue f value)
          | some n => readFlags (o.set f n) rest

def read : List String → Except ArgumentError RunOptions
  | [] => .error .missingPath
  | path :: flags => readFlags { path } flags

end RunOptions
end ByteMachine
