import ByteMachine.Machine.Step

/-! Sessions: a machine under observation. A sink takes note of every event; the beginning and
the end of a run are logged whatever the sink is. Nothing noted reaches back into the machine. -/
namespace ByteMachine

inductive Sink where
  | silent
  | recording (events : Array Event)
  | logging

inductive LogEntry where
  | runStart (pc : Nat)
  | event (e : Event)
  | runEnd (pc steps pointer : Nat) (ok : Bool)

namespace LogEntry

def level : LogEntry → String
  | runStart _ | runEnd _ _ _ _ => "DEBUG"
  | event e =>
    match e.outcome with
    | .running => "TRACE"
    | .halted => "DEBUG"
    | .faulted _ => "WARN"

def message : LogEntry → String
  | runStart _ => "run start"
  | runEnd _ _ _ _ => "run end"
  | event e =>
    match e.outcome with
    | .running => "step"
    | .halted => "end"
    | .faulted _ => "fault"

def fields : LogEntry → List (String × String)
  | runStart pc => [("pc", toString pc)]
  | runEnd pc steps pointer ok =>
    [("pc", toString pc), ("steps", toString steps), ("sp", toString pointer),
      ("ok", if ok then "true" else "false")]
  | event e =>
    let place := [("at", toString e.pc), ("sp", toString e.pointer)]
    let instruction := ("instruction", e.instruction?.elim "<undecoded>" Instruction.text)
    match e.outcome with
    | .running => place ++ [instruction]
    | .halted => place
    | .faulted error => place ++ [instruction, ("error", error.message)]

end LogEntry

structure Session where
  machine : Machine
  sink : Sink
  log : Array LogEntry

namespace Session

def start (m : Machine) (sink : Sink) : Session := ⟨m, sink, #[]⟩

def withSink (sink : Sink) (s : Session) : Session := { s with sink }

def setPc (pc : Nat) (s : Session) : Session := { s with machine := s.machine.setPc pc }

/-- A program that does not fit leaves the session as it was. -/
def load (program : List UInt8) (s : Session) : Except MachineError Session :=
  match s.machine.load program with
  | .ok machine => .ok { s with machine }
  | .error e => .error e

def write (l : LogEntry) (s : Session) : Session := { s with log := s.log.push l }

def note (e : Event) : Session → Session
  | ⟨m, .silent, log⟩ => ⟨m, .silent, log⟩
  | ⟨m, .recording events, log⟩ => ⟨m, .recording (events.push e), log⟩
  | ⟨m, .logging, log⟩ => ⟨m, .logging, log.push (.event e)⟩

@[simp] theorem machine_note (e : Event) (s : Session) : (s.note e).machine = s.machine := by
  obtain ⟨m, sink, log⟩ := s
  cases sink <;> rfl

variable [FloatUnit]

def step : Session → Session
  | ⟨m, sink, log⟩ =>
    match m.step with
    | (m, none) => ⟨m, sink, log⟩
    | (m, some e) => note e ⟨m, sink, log⟩

/-- Steps until the machine stops, at most `n` times. -/
def advance : Nat → Session → Session
  | 0, s => s
  | n + 1, s =>
    match s.machine.status with
    | .running => advance n s.step
    | _ => s

/-- The whole run, if it is over within `fuel` steps. -/
def run? (fuel : Nat) (s : Session) : Option Session :=
  let s := advance fuel (s.write (.runStart s.machine.pc))
  let m := s.machine
  if m.status = .running then none
  else some (s.write (.runEnd m.pc m.steps m.stack.pointer (m.status == .halted)))

@[simp] theorem machine_step (s : Session) : s.step.machine = s.machine.step.1 := by
  obtain ⟨m, sink, log⟩ := s
  simp only [step]
  split <;> simp_all

theorem advance_of_ne_running (n : Nat) {s : Session} (h : s.machine.status ≠ .running) :
    s.advance n = s := by
  cases n with
  | zero => rfl
  | succ n =>
    unfold advance
    split <;> simp_all

theorem advance_add (m n : Nat) (s : Session) : s.advance (m + n) = (s.advance m).advance n := by
  induction m generalizing s with
  | zero => rw [Nat.zero_add]; rfl
  | succ m ih =>
    by_cases h : s.machine.status = .running
    · simp only [Nat.succ_add, advance, h, ih]
    · rw [advance_of_ne_running _ h, advance_of_ne_running _ h, advance_of_ne_running _ h]

theorem run?_mono {fuel more : Nat} (le : fuel ≤ more) {s after : Session}
    (h : s.run? fuel = some after) : s.run? more = some after := by
  obtain ⟨extra, rfl⟩ := Nat.exists_eq_add_of_le le
  simp only [run?] at h ⊢
  split at h
  · contradiction
  · next stopped => rw [advance_add, advance_of_ne_running extra stopped, if_neg stopped, h]

end Session

/-- Runs a program in a fresh machine from address zero. -/
def runProgram? [FloatUnit] (fuel : Nat) (program : List UInt8) (c : Config) :
    Option (Except MachineError Machine) :=
  match Machine.ofConfig c with
  | .error e => some (.error e)
  | .ok m =>
    match m.load program with
    | .error e => some (.error e)
    | .ok m =>
      ((Session.start m .silent).run? fuel).map fun s =>
        match s.machine.status with
        | .faulted e => .error e
        | _ => .ok s.machine

end ByteMachine
