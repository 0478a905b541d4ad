import ByteMachine.Proofs.Frame
import ByteMachine.Proofs.Log
import ByteMachine.Proofs.Report
import ByteMachine.Proofs.Trace

/-! The log of a traced run. Its lines stand for the steps of the machine, and there is nothing
else that tracing changes in a report. -/
namespace ByteMachine

namespace Machine

variable [FloatUnit]

/-- A run to its end with the events of its steps. Each step but the last completes an instruction
that goes on, the last one stops the machine. -/
inductive Transcript : Machine → List Event → Event → Machine → Prop
  | last {m final : Machine} {e : Event} : m.step = (final, some e) → final.status ≠ .running →
      Transcript m [] e final
  | step {m final : Machine} {i : Instruction} {steps : List Event} {last : Event} :
      m.Completes i → i ≠ .halt → Transcript m.step.1 steps last final →
      Transcript m (⟨m.pc, some i, m.step.1.stack.pointer, .running⟩ :: steps) last final

variable {c : Config} {m final : Machine} {steps : List Event} {last : Event}

theorem Sound.completes_of_running (sound : m.Sound c) {next : Machine} {e : Event}
    (step : m.step = (next, some e)) (going : next.status = .running) :
    ∃ i, m.Completes i ∧ i ≠ .halt ∧ e = ⟨m.pc, some i, next.stack.pointer, .running⟩ := by
  have running : m.status = .running := by
    apply Decidable.byContradiction
    intro stopped
    rw [step_of_ne_running stopped] at step
    cases step
  cases sound.transition_of_step step with
  | refused _ | undone _ _ => cases going
  | @done i due _ =>
    have goes : (i.flow m.store).status = .running := going
    refine ⟨i, ⟨running, due, ?_⟩, ?_, ?_⟩
    · intro e
      rw [step]
      exact Flow.status_ne_faulted _ e
    · rintro rfl
      cases goes
    · rw [goes]

theorem Sound.exists_transcript (sound : m.Sound c) (running : m.status = .running) (n : Nat)
    (stopped : (m.after n).status ≠ .running) :
    ∃ steps last, m.trace n = steps ++ [last] ∧ m.Transcript steps last (m.after n) := by
  induction n generalizing m with
  | zero => contradiction
  | succ n ih =>
    obtain ⟨next, e, step, -⟩ := sound.exists_transition running
    have next_eq : m.step.1 = next := congrArg Prod.fst step
    rw [Machine.after, next_eq] at stopped ⊢
    rw [trace, step]
    by_cases going : next.status = .running
    · obtain ⟨i, completes, goes, rfl⟩ := sound.completes_of_running step going
      obtain ⟨steps, last, trace_eq, rest⟩ := ih (sound.of_step step) going stopped
      subst next_eq
      refine ⟨_ :: steps, last, ?_, .step completes goes rest⟩
      rw [trace_eq]
      rfl
    · rw [after_of_ne_running n going, trace_of_ne_running n going]
      exact ⟨[], e, rfl, .last step going⟩

namespace Transcript

variable (t : m.Transcript steps last final)
include t

theorem outcome_eq : ∀ e ∈ steps, e.outcome = .running := by
  induction t with
  | last => exact List.forall_mem_nil _
  | step _ _ _ ih => exact List.forall_mem_cons.2 ⟨rfl, ih⟩

theorem stopped : final.status ≠ .running := by
  induction t with
  | last _ stopped => exact stopped
  | step _ _ _ ih => exact ih

theorem after_eq : m.after (steps.length + 1) = final := by
  induction t with
  | last step _ => rw [List.length_nil, Machine.after, step, Machine.after]
  | step _ _ _ ih => rw [List.length_cons, Machine.after, ih]

variable (sound : m.Sound c)
include sound

theorem transition : (m.after steps.length).Transition final last := by
  induction t with
  | last step _ => exact sound.transition_of_step step
  | step _ _ _ ih => exact ih sound.step

theorem steps_eq : final.steps = m.steps + steps.length + last.instruction?.toList.length := by
  have counted {m' final : Machine} {e : Event} (moved : m'.Transition final e) :
      final.steps = m'.steps + e.instruction?.toList.length := by
    cases moved <;> rfl
  induction t with
  | last step _ => exact counted (sound.transition_of_step step)
  | step completes _ _ ih =>
    obtain ⟨-, done⟩ := sound.of_completes completes
    rw [ih sound.step, done, List.length_cons]
    change _ + 1 + _ + _ = _
    omega

end Transcript
end Machine

theorem Opcode.stem_eq_cons (op : Opcode) : ∃ c cs, op.stem.toList = c :: cs ∧ c ≠ '<' := by
  cases op with
  | arith op _ | compare op _ | bitwise op | branch op _ | branchAddress op _ =>
    cases op <;> simp [stem]
  | _ => simp [stem]

theorem Instruction.text_ne_undecoded (i : Instruction) : i.text ≠ "<undecoded>" := by
  obtain ⟨c, cs, stem, named⟩ := i.opcode.stem_eq_cons
  intro eq
  have chars := congrArg String.toList eq
  simp only [text, Opcode.mnemonic, String.toList_append, stem, List.cons_append] at chars
  exact named (List.head_eq_of_cons_eq chars)

namespace LogEntry

variable {m m' : Machine} {e : Event} {error : MachineError}

/-- The entry is of a step that executes an instruction, by what its line shows. -/
def counts (l : LogEntry) : Bool :=
  l.message = "step" || l.message = "end" ||
    l.message = "fault" && ("instruction", "<undecoded>") ∉ l.fields

theorem counts_runStart (pc : Nat) : (runStart pc).counts = false := rfl

theorem counts_runEnd (pc steps pointer : Nat) (ok : Bool) :
    (runEnd pc steps pointer ok).counts = false := rfl

theorem undecoded_mem_fields_iff (failed : e.outcome = .faulted error) :
    ("instruction", "<undecoded>") ∈ (event e).fields ↔ e.instruction? = none := by
  cases instruction : e.instruction? with
  | none => simp [fields, failed, instruction]
  | some i => simp [fields, failed, instruction, i.text_ne_undecoded.symm]

theorem counts_event [FloatUnit] (t : m.Transition m' e) :
    (event e).counts = e.instruction?.isSome := by
  cases t with
  | refused _ => simp [counts, message, fields]
  | @undone i _ _ _ => simp [counts, message, fields, i.text_ne_undecoded.symm]
  | @done i _ _ =>
    simp only [counts, message]
    cases status : (i.flow m.store).status with
    | running | halted => simp
    | faulted e => exact absurd status (Flow.status_ne_faulted _ e)

end LogEntry

/-- What the log of a run from `m` to `final` tells, as entries and as lines. -/
structure RunLog [FloatUnit] (m : Machine) (steps : List Event) (last : Event) (final : Machine)
    (ok : Bool) (log : List LogEntry) : Prop where
  transcript : m.Transcript steps last final
  after_eq : m.after (steps.length + 1) = final
  describes : last.Describes (m.after steps.length) final
  eq : log = .runStart m.pc :: (steps ++ [last]).map .event ++
    [.runEnd final.pc final.steps final.stack.pointer ok]
  messages_eq : log.map LogEntry.message = "run start" :: List.replicate steps.length "step" ++
    [if final.status = .halted then "end" else "fault", "run end"]
  undecoded_iff : ∀ e, final.status = .faulted e →
    (("instruction", "<undecoded>") ∈ (LogEntry.event last).fields ↔
      (m.after steps.length).exhausted? ≠ none ∨
        ∃ f, Machine.fetch (m.after steps.length).memory (m.after steps.length).pc = .error f)
  steps_eq : final.steps = log.countP LogEntry.counts
  start_shows : ("pc", toString m.pc) ∈ (LogEntry.runStart m.pc).fields
  steps_show : ∀ e ∈ steps, ∃ i, e.instruction? = some i ∧
    ("instruction", i.text) ∈ (LogEntry.event e).fields
  end_shows : [("steps", toString (log.countP LogEntry.counts)), ("ok", toString ok)] ⊆
    (LogEntry.runEnd final.pc final.steps final.stack.pointer ok).fields

namespace Machine.Transcript

variable [FloatUnit] {c : Config} {m final : Machine} {steps : List Event} {last : Event}
variable (t : m.Transcript steps last final)
include t

theorem messages_steps : (steps.map LogEntry.event).map LogEntry.message =
    List.replicate steps.length "step" := by
  rw [List.map_map, List.map_eq_replicate_iff]
  intro e mem
  simp [LogEntry.message, t.outcome_eq e mem]

theorem countP_steps : (steps.map LogEntry.event).countP LogEntry.counts = steps.length := by
  rw [List.countP_map, List.countP_eq_length]
  intro e mem
  simp [LogEntry.counts, LogEntry.message, t.outcome_eq e mem]

theorem steps_show : ∀ e ∈ steps, ∃ i, e.instruction? = some i ∧
    ("instruction", i.text) ∈ (LogEntry.event e).fields := by
  induction t with
  | last => exact List.forall_mem_nil _
  | @step _ _ i _ _ _ _ _ ih =>
    refine List.forall_mem_cons.2 ⟨⟨i, rfl, ?_⟩, ih⟩
    simp [LogEntry.fields]

variable (sound : m.Sound c)
include sound

theorem message_last :
    (LogEntry.event last).message = if final.status = .halted then "end" else "fault" := by
  rw [LogEntry.message, (t.transition sound).describes.outcome_eq]
  cases status : final.status with
  | running => exact absurd status t.stopped
  | halted | faulted _ => rfl

theorem countP_last :
    [LogEntry.event last].countP LogEntry.counts = last.instruction?.toList.length := by
  rw [List.countP_singleton, LogEntry.counts_event (t.transition sound)]
  cases last.instruction? <;> rfl

theorem steps_eq_countP (fresh : m.steps = 0) (ok : Bool) :
    final.steps = List.countP LogEntry.counts (.runStart m.pc :: (steps ++ [last]).map .event ++
      [.runEnd final.pc final.steps final.stack.pointer ok]) := by
  rw [List.map_append, List.map_singleton, List.cons_append, List.countP_cons,
    List.countP_append, List.countP_append, t.countP_steps, t.countP_last sound,
    List.countP_singleton, LogEntry.counts_runStart, LogEntry.counts_runEnd]
  refine (t.steps_eq sound).trans ?_
  simp [fresh]

theorem runLog (fresh : m.steps = 0) (ok : Bool) :
    RunLog m steps last final ok (.runStart m.pc :: (steps ++ [last]).map .event ++
      [.runEnd final.pc final.steps final.stack.pointer ok]) where
  transcript := t
  after_eq := t.after_eq
  describes := (t.transition sound).describes
  eq := rfl
  messages_eq := by
    simp only [List.map_cons, List.map_append, List.map_nil, t.messages_steps, t.message_last sound]
    simp [LogEntry.message]
  undecoded_iff := by
    intro e failed
    have describes := (t.transition sound).describes
    rw [LogEntry.undecoded_mem_fields_iff (describes.outcome_eq.trans failed),
      Option.eq_none_iff_forall_ne_some]
    simp only [Ne, describes.instruction?_eq_some_iff, not_and]
    cases Machine.fetch (m.after steps.length).memory (m.after steps.length).pc <;> simp
  steps_eq := t.steps_eq_countP sound fresh ok
  start_shows := List.mem_cons_self
  steps_show := t.steps_show
  end_shows := by
    rw [← t.steps_eq_countP sound fresh ok]
    cases ok <;> simp [LogEntry.fields, toString]

end Machine.Transcript

namespace Session

/-- The session has a logging sink and these entries. -/
def Logging (s : Session) (log : List LogEntry) : Prop := s.sink = .logging ∧ s.log = log.toArray

variable {s : Session} {log : List LogEntry}

theorem Logging.write (l : LogEntry) (logging : s.Logging log) :
    (s.write l).Logging (log ++ [l]) :=
  ⟨logging.1, by rw [Session.write, logging.2, List.push_toArray]⟩

variable [FloatUnit]

theorem Logging.step (logging : s.Logging log) :
    s.step.Logging (log ++ s.machine.step.2.toList.map .event) := by
  obtain ⟨m, sink, entries⟩ := s
  obtain ⟨rfl, rfl⟩ : sink = .logging ∧ entries = log.toArray := logging
  unfold Logging Session.step
  dsimp only
  cases m.step with
  | mk after event =>
    cases event with
    | none => simp
    | some e => simp [note]

theorem Logging.advance (n : Nat) (logging : s.Logging log) :
    (s.advance n).Logging (log ++ (s.machine.trace n).map .event) := by
  have begun : s.Logging (log ++ ([] : List Event).map .event) := by
    rwa [List.map_nil, List.append_nil]
  have all := extends_advance (R := fun s events => s.Logging (log ++ events.map .event))
    (fun s events logging => by
      have next := logging.step
      rwa [List.append_assoc, ← List.map_append] at next) n begun
  rwa [List.nil_append] at all

theorem log_of_run? {m : Machine} {fuel : Nat} {t : Session}
    (run : (start m .logging).run? fuel = some t) :
    t.log.toList = .runStart m.pc :: (m.trace fuel).map .event ++
      [.runEnd t.machine.pc t.machine.steps t.machine.stack.pointer
        (t.machine.status == .halted)] := by
  have empty : (start m .logging).Logging [] := ⟨rfl, rfl⟩
  have all := (empty.write (.runStart m.pc)).advance fuel
  simp only [run?, Option.ite_none_left_eq_some, Option.some.injEq] at run
  obtain ⟨-, rfl⟩ := run
  exact congrArg Array.toList (all.write _).2

end Session

namespace Report

variable {files : Files} {args ls : List String} {o : RunOptions} {start : Machine}

theorem read_append_trace (read : RunOptions.read args = .ok o) :
    RunOptions.read (args ++ ["--trace"]) = .ok { o with trace := true } := by
  cases args with
  | nil => cases read
  | cons path flags =>
    rw [List.cons_append, RunOptions.read, RunOptions.readFlags_append read,
      RunOptions.readFlags_trace, RunOptions.readFlags]

theorem Refused.append_trace (read : RunOptions.read args = .ok o)
    (refused : Refused files args ls) : Refused files (args ++ ["--trace"]) ls := by
  have traced := read_append_trace read
  cases refused with
  | noArgument empty =>
    subst empty
    cases read
  | arguments _ failed => exact nomatch failed.symm.trans read
  | unreadable read' file =>
    obtain rfl := Except.ok.inj (read.symm.trans read')
    exact .unreadable (o := { o with trace := true }) traced file
  | configuration read' file invalid =>
    obtain rfl := Except.ok.inj (read.symm.trans read')
    exact .configuration (o := { o with trace := true }) traced file invalid
  | program read' file valid large =>
    obtain rfl := Except.ok.inj (read.symm.trans read')
    exact .program (o := { o with trace := true }) traced file valid large

theorem Starts.append_trace (starts : Starts files args o start) :
    Starts files (args ++ ["--trace"]) { o with trace := true } start := by
  have traced := read_append_trace starts.read_eq
  obtain ⟨-, file, made, loads⟩ := starts
  exact .intro (o := { o with trace := true }) traced file made loads

theorem Starts.new (starts : Starts files args o start) :
    start.Sound o.config ∧ start.status = .running ∧ start.steps = 0 ∧ start.pc = o.entry := by
  obtain ⟨-, -, made, loads⟩ := starts
  refine ⟨((Machine.sound_ofConfig made).load loads).setPc _, ?_⟩
  obtain ⟨-, rfl⟩ := Machine.ofConfig_eq_ok_iff.1 made
  obtain ⟨-, rfl⟩ := Machine.load_eq_ok_iff.1 loads
  exact ⟨rfl, rfl, rfl⟩

theorem Starts.unique {o' : RunOptions} {start' : Machine} (starts : Starts files args o start)
    (again : Starts files args o' start') : o' = o ∧ start' = start := by
  obtain ⟨read, file, made, loads⟩ := starts
  obtain ⟨read', file', made', loads'⟩ := again
  obtain rfl := Except.ok.inj (read.symm.trans read')
  obtain rfl := Except.ok.inj (file.symm.trans file')
  obtain rfl := Except.ok.inj (made.symm.trans made')
  obtain rfl := Except.ok.inj (loads.symm.trans loads')
  exact ⟨rfl, rfl⟩

theorem Starts.not_refused (starts : Starts files args o start) : ¬ Refused files args ls := by
  obtain ⟨read, file, made, loads⟩ := starts
  intro refused
  cases refused with
  | noArgument empty =>
    subst empty
    cases read
  | arguments _ failed => cases failed.symm.trans read
  | unreadable read' missing =>
    obtain rfl := Except.ok.inj (read.symm.trans read')
    cases missing.symm.trans file
  | configuration read' _ invalid =>
    obtain rfl := Except.ok.inj (read.symm.trans read')
    exact invalid (Machine.ofConfig_eq_ok_iff.1 made).1
  | program read' file' _ large =>
    obtain rfl := Except.ok.inj (read.symm.trans read')
    obtain rfl := Except.ok.inj (file.symm.trans file')
    have fits := (Machine.load_eq_ok_iff.1 loads).1
    rw [(Machine.sound_ofConfig made).memory_size] at fits
    exact Nat.not_lt.2 fits large

theorem ofSession_trace [LogWriter] {s t : Session} (same : t.machine = s.machine)
    (untraced : o.trace = false) :
    ofSession { o with trace := true } t = ⟨(ofSession o s).exit, (ofSession o s).stdout,
      LogWriter.write t.log.toList ++ (ofSession o s).stderr⟩ := by
  unfold ofSession
  dsimp only
  rw [same, untraced]
  cases s.machine.status <;> simp

section

variable [FloatUnit]

theorem Starts.runLog {t : Session} {fuel : Nat} (starts : Starts files args o start)
    (run : (Session.start start .logging).run? fuel = some t) : ∃ steps last,
    RunLog start steps last t.machine (t.machine.status == .halted) t.log.toList := by
  obtain ⟨sound, running, fresh, -⟩ := starts.new
  obtain ⟨at_t, stopped⟩ := Session.machine_run? run
  rw [at_t] at stopped
  obtain ⟨steps, last, trace, transcript⟩ := sound.exists_transcript running fuel stopped
  have log := Session.log_of_run? run
  rw [trace] at log
  rw [log, at_t]
  exact ⟨steps, last, transcript.runLog sound fresh _⟩

theorem tracing_only_logs [LogWriter] (faithful : LogWriter.Faithful) (files : Files)
    {args : List String} {o : RunOptions} (read : RunOptions.read args = .ok o)
    (untraced : "--trace" ∉ args.tail) (fuel : Nat) :
    (command? fuel files ("run" :: args) = none ↔
      command? fuel files ("run" :: (args ++ ["--trace"])) = none) ∧
    ∀ r, command? fuel files ("run" :: args) = some r → ∃ (log : List LogEntry) (ls : List String),
      command? fuel files ("run" :: (args ++ ["--trace"])) =
        some ⟨r.exit, r.stdout, lines ls ++ r.stderr⟩ ∧
      List.Forall₂ LogEntry.ShownBy log ls ∧
      (∀ reason, Refused files args reason → log = []) ∧
      ∀ start, Starts files args o start → start.pc = o.entry ∧
        ∃ steps last final, RunLog start steps last final (r.exit == 0) log ∧
          r.Tells args final := by
  simp only [command?_run]
  have quiet : o.trace = false := by
    rw [← Bool.not_eq_true, (switches_of_read read).1]
    exact untraced
  obtain ⟨reason, refused⟩ | ⟨o', start, starts⟩ := refused_or_starts files args
  · rw [run?_of_refused refused, run?_of_refused (refused.append_trace read)]
    refine ⟨iff_of_false nofun nofun, ?_⟩
    intro r run
    cases run
    exact ⟨[], [], rfl, .nil, fun _ _ => rfl, fun start starts => absurd refused starts.not_refused⟩
  · obtain rfl := Except.ok.inj (read.symm.trans starts.read_eq)
    rw [run?_of_starts starts, run?_of_starts starts.append_trace, Option.map_eq_none_iff,
      Option.map_eq_none_iff, Session.run?_eq_none_iff, Session.run?_eq_none_iff]
    refine ⟨Iff.rfl, ?_⟩
    intro r report
    obtain ⟨t, run, rfl⟩ := Option.map_eq_some_iff.1 report
    obtain ⟨u, traced, same⟩ :=
      Session.run?_of_machine_eq (t := Session.start start .logging) run rfl
    have tells := tells_ofSession read (Session.machine_run? run).2
    obtain ⟨ls, shown, written⟩ := faithful u.log.toList
    refine ⟨u.log.toList, ls, ?report, shown, fun _ refused => absurd refused starts.not_refused,
      ?log⟩
    case report =>
      rw [← written, ← ofSession_trace same quiet]
      exact Option.map_eq_some_iff.2 ⟨u, traced, rfl⟩
    case log =>
      intro start' starts'
      obtain ⟨-, rfl⟩ := starts.unique starts'
      obtain ⟨steps, last, log⟩ := starts.runLog traced
      have ok : ((ofSession o t).exit == 0) = (t.machine.status == .halted) := by
        rw [Bool.eq_iff_iff, beq_iff_eq, beq_iff_eq]
        exact tells.exit_iff.1
      rw [same] at log
      exact ⟨starts.new.2.2.2, steps, last, t.machine, ok ▸ log, tells⟩

end

/-- On a host where time stands still. -/
abbrev epoch : LogWriter := .stamped fun _ => "1970-01-01T00:00:00.000000Z "

theorem push_traced : ∃ files log ls, @LogWriter.Faithful epoch ∧
    @command? .native epoch 2 files ["run", "seven"] = some ⟨0, "stack: 07\n", ""⟩ ∧
    @command? .native epoch 2 files ["run", "seven", "--trace"] =
      some ⟨0, "stack: 07\n", lines ls ++ ""⟩ ∧
    List.Forall₂ LogEntry.ShownBy log ls ∧
    ∃ start, Starts files ["seven"] { path := "seven" } start ∧
      ∃ steps last final, RunLog start steps last final true log := by
  let files : Files := fun path =>
    if path = "seven" then .ok [0x08, 7, 0x00] else .error "none"
  have starts : Starts files ["seven"] { path := "seven" } _ :=
    .intro rfl rfl (Machine.ofConfig_eq_ok_iff.2 ⟨by decide, rfl⟩)
      (Machine.load_eq_ok_iff.2 ⟨by decide +kernel, rfl⟩)
  have faithful : @LogWriter.Faithful epoch := LogWriter.faithful_stamped fun _ => by decide
  have run : @command? .native epoch 2 files ["run", "seven"] = some ⟨0, "stack: 07\n", ""⟩ := by
    decide +kernel
  obtain ⟨log, ls, traced, shown, -, logged⟩ :=
    (@tracing_only_logs .native epoch faithful files _ _
      (show RunOptions.read ["seven"] = _ from rfl) (by decide) 2).2 _ run
  obtain ⟨-, steps, last, final, runLog, -⟩ := logged _ starts
  exact ⟨files, log, ls, faithful, run, traced, shown, _, starts, steps, last, final, runLog⟩

end Report
end ByteMachine
