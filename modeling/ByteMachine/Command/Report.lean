import ByteMachine.Code.Listing
import ByteMachine.Command.Arguments
import ByteMachine.Command.Dump
import ByteMachine.Command.Files
import ByteMachine.Command.Log

/-! The command line as a function of its arguments and the files it can read. Errors before the
machine starts exit with 1, errors of the machine with 3. -/
namespace ByteMachine

structure Report where
  exit : UInt32
  stdout : String
  stderr : String
deriving DecidableEq, Inhabited

namespace Report

def lines (ls : List String) : String := String.join (ls.map (· ++ "\n"))

def runUsage : String :=
  "Usage: stackvm run <program.bin> [--memory N] [--stack N] [--entry N] [--max-steps N] [--trace] [--dump]"

def usage : String := lines [
  "Usage: stackvm <command> [args]",
  "",
  "Commands:",
  "  run <program.bin> [options]     Load at address 0 and execute",
  "  disassemble <program.bin>       Print an instruction listing",
  "",
  "Run options:",
  "  --memory N      Memory size in bytes (default 256)",
  "  --stack N       Stack size in bytes (default 64)",
  "  --entry N       Start address (default 0)",
  "  --max-steps N   Fail after N instructions",
  "  --trace         Log every instruction to stderr",
  "  --dump          Print memory and stack after the run"]

def refused (message : String) : Report := ⟨1, "", lines ["error: " ++ message]⟩

def unreadable (path reason : String) : Report := refused s!"cannot read '{path}': {reason}"

def refusedArguments (e : ArgumentError) : Report :=
  match e with
  | .missingPath => ⟨1, "", lines ["error: " ++ e.message, runUsage]⟩
  | _ => refused e.message

def stackLine (m : Machine) : String :=
  "stack:" ++ String.join (m.store.contents.map fun b => " " ++ Numeral.hex 2 b.toNat) ++ "\n"

/-- What a run that has stopped leaves behind. Log entries are shown if tracing was asked for,
and stand before the error. -/
def ofSession [LogWriter] (o : RunOptions) (s : Session) : Report :=
  let m := s.machine
  let dump := if o.dump then Dump.memory m.memory m.pc ++ Dump.stack m.stack m.memory else ""
  let log := if o.trace then LogWriter.write s.log.toList else ""
  match m.status with
  | .faulted e => ⟨3, dump, log ++ lines ["runtime error: " ++ e.message]⟩
  | _ => ⟨0, stackLine m ++ dump, log⟩

def prepare (o : RunOptions) (program : List UInt8) : Except MachineError Session :=
  match Machine.ofConfig o.config with
  | .error e => .error e
  | .ok m =>
    match m.load program with
    | .error e => .error e
    | .ok m => .ok (Session.start (m.setPc o.entry) (if o.trace then .logging else .silent))

/-- There is no report of a run that is not over within `fuel` steps. -/
def run? [FloatUnit] [LogWriter] (fuel : Nat) (files : Files) (args : List String) :
    Option Report :=
  match RunOptions.read args with
  | .error e => some (refusedArguments e)
  | .ok o =>
    match files o.path with
    | .error reason => some (unreadable o.path reason)
    | .ok program =>
      match prepare o program with
      | .error e => some (refused e.message)
      | .ok s => (s.run? fuel).map (ofSession o)

/-- Arguments after the path are ignored. -/
def disassemble (files : Files) : List String → Report
  | [] => ⟨1, "", lines ["error: disassemble requires an input file",
      "Usage: stackvm disassemble <program.bin>"]⟩
  | path :: _ =>
    match files path with
    | .error reason => unreadable path reason
    | .ok bytes =>
      match Listing.render bytes with
      | .error e => refused s!"invalid bytecode: {e.message}"
      | .ok text => ⟨0, text, ""⟩

def command? [FloatUnit] [LogWriter] (fuel : Nat) (files : Files) : List String → Option Report
  | [] => some ⟨1, "", usage⟩
  | "run" :: args => run? fuel files args
  | "disassemble" :: args => some (disassemble files args)
  | name :: _ =>
    if name = "--help" ∨ name = "-h" ∨ name = "help" then some ⟨0, "", usage⟩
    else some ⟨1, "", lines [s!"error: unknown command '{name}'", ""] ++ usage⟩

end Report
end ByteMachine
