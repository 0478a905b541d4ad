import ByteMachine.Command.Report

/-! The executable: reads the file a command names, runs it and prints the report. -/
namespace ByteMachine

/-- A run without a step budget may take any number of steps. -/
partial def Report.untilOver (fuel : Nat) (files : Files) (args : List String) : Report :=
  match Report.command? fuel files args with
  | some report => report
  | none => untilOver (2 * fuel) files args

/-- The path that a command will read, if it reads one. -/
def inputPath? : List String → Option String
  | "run" :: path :: _ | "disassemble" :: path :: _ => some path
  | _ => none

/-- The number and the text of an error, if it is one of the system's. -/
def systemError? : IO.Error → Option (UInt32 × String)
  | .alreadyExists _ code text
  | .inappropriateType _ code text
  | .interrupted _ code text
  | .invalidArgument _ code text
  | .noFileOrDirectory _ code text
  | .noSuchThing _ code text
  | .permissionDenied _ code text
  | .resourceExhausted _ code text
  | .hardwareFault code text
  | .illegalOperation code text
  | .otherError code text
  | .resourceBusy code text
  | .unsupportedOperation code text => some (code, text)
  | _ => none

/-- Some calls report the number of an error negated. -/
def reason (e : IO.Error) : String :=
  match systemError? e with
  | none => toString e
  | some (code, text) =>
    let code := min code (0 - code)
    match FileError.ofCode? code with
    | some known => known.message
    | none => s!"{text} (os error {code})"

def readFile (path : String) : IO (Except String (List UInt8)) := do
  try
    let bytes ← IO.FS.readBinFile path
    return .ok bytes.toList
  catch e => return .error (reason e)

end ByteMachine

open ByteMachine in
def main (args : List String) : IO UInt32 := do
  let file ← match inputPath? args with
    | some path => readFile path
    | none => pure (.ok [])
  let report := Report.untilOver 0x10000 (fun _ => file) args
  let stdout ← IO.getStdout
  stdout.putStr report.stdout
  stdout.flush
  IO.eprint report.stderr
  return report.exit
