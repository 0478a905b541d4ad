import ByteMachine.Command.Report
import ByteMachine.Proofs.Arguments
import ByteMachine.Proofs.Invariant

/-! What the run command reports. It is refused before there is a machine to run, for the first
reason that applies, or it tells of the machine that has stopped. -/
namespace ByteMachine

namespace Dump

theorem s_not_mem_title {text : String} (h : 's' ∉ text.toList) : 's' ∉ title text := by
  simp [title, h]

theorem s_not_mem_rows (origin mark : Nat) (bytes : Array UInt8) :
    's' ∉ rows origin mark bytes := by
  have label := Numeral.not_mem_padded (c := 's') (by decide)
  have cell := not_mem_cell (c := 's') (by decide) (by decide)
  simp [rows, row, label, cell]

theorem s_not_mem_stackTitle (latch : Latch) : 's' ∉ (stackTitle latch).toList := by
  cases latch <;> decide

/-- Both dumps, if they were asked for. -/
def shown (args : List String) (m : Machine) : String :=
  if "--dump" ∈ args.tail then memory m.memory m.pc ++ stack m.stack m.memory else ""

theorem s_not_mem_shown (args : List String) (m : Machine) : 's' ∉ (shown args m).toList := by
  unfold shown
  split
  · have memory_title : 's' ∉ title "Memory" := s_not_mem_title (by decide)
    have stack_title := s_not_mem_title (s_not_mem_stackTitle m.stack.latch)
    simp [memory, stack, memory_title, stack_title, s_not_mem_rows]
  · exact List.not_mem_nil

theorem shown_eq_empty_iff (args : List String) (m : Machine) :
    shown args m = "" ↔ "--dump" ∉ args.tail := by
  unfold shown
  split
  · next given => simp [memory, title, given]
  · next absent => exact iff_of_true rfl absent

end Dump

namespace Report

/-- Why there is nothing to run, in the order in which it is found out, and the lines that say so. -/
inductive Refused (files : Files) (args : List String) : List String → Prop
  | noArgument : args = [] → Refused files args ["error: run requires an input file", runUsage]
  | arguments {e : ArgumentError} : args ≠ [] → RunOptions.read args = .error e →
      Refused files args ["error: " ++ e.message]
  | unreadable {o : RunOptions} {reason : String} : RunOptions.read args = .ok o →
      files o.path = .error reason →
      Refused files args ["error: " ++ s!"cannot read '{o.path}': {reason}"]
  | configuration {o : RunOptions} {program : List UInt8} : RunOptions.read args = .ok o →
      files o.path = .ok program →
      ¬ (o.config.stackSize ≤ o.config.memorySize ∧ o.config.memorySize < Memory.addressLimit) →
      Refused files args ["error: " ++
        (MachineError.invalidConfiguration o.config.memorySize o.config.stackSize).message]
  | program {o : RunOptions} {program : List UInt8} : RunOptions.read args = .ok o →
      files o.path = .ok program →
      o.config.stackSize ≤ o.config.memorySize ∧ o.config.memorySize < Memory.addressLimit →
      o.config.memorySize < program.length →
      Refused files args ["error: " ++
        (MachineError.programTooLarge program.length o.config.memorySize).message]

/-- The machine that is run: new, with the program loaded, at the entry point. -/
inductive Starts (files : Files) (args : List String) : RunOptions → Machine → Prop
  | intro {o : RunOptions} {program : List UInt8} {fresh loaded : Machine} :
      RunOptions.read args = .ok o → files o.path = .ok program →
      Machine.ofConfig o.config = .ok fresh → fresh.load program = .ok loaded →
      Starts files args o (loaded.setPc o.entry)

/-- The report of a machine that has stopped. Before the error there is only what was logged. -/
inductive Tells (args : List String) (final : Machine) : Report → Prop
  | halted {log : String} : final.status = .halted → ("--trace" ∉ args.tail → log = "") →
      Tells args final ⟨0, "stack:" ++
        String.join (final.store.contents.map fun b => " " ++ Numeral.hex 2 b.toNat) ++ "\n" ++
        Dump.shown args final, log⟩
  | faulted {e : MachineError} {log : String} : final.status = .faulted e →
      ("--trace" ∉ args.tail → log = "") →
      Tells args final ⟨3, Dump.shown args final, log ++ ("runtime error: " ++ e.message ++ "\n")⟩

/-- The report says what the answer of the library function is. -/
inductive Agrees (args : List String) : Report → Except MachineError Machine → Prop
  | ok {r : Report} {final : Machine} : r.exit = 0 → r.Tells args final →
      Agrees args r (.ok final)
  | refused {e : MachineError} : Agrees args ⟨1, "", lines ["error: " ++ e.message]⟩ (.error e)
  | failed {r : Report} {e : MachineError} {final : Machine} : r.exit = 3 →
      final.status = .faulted e → r.Tells args final → Agrees args r (.error e)

variable {files : Files} {args ls : List String} {o : RunOptions} {start final : Machine}

@[simp] theorem lines_singleton (l : String) : lines [l] = l ++ "\n" := by
  simp [lines, String.join]

/-- Whether entries are logged. -/
def sink (o : RunOptions) : Sink := if o.trace then .logging else .silent

theorem refused_or_starts (files : Files) (args : List String) :
    (∃ ls, Refused files args ls) ∨ ∃ o start, Starts files args o start := by
  by_cases empty : args = []
  · exact .inl ⟨_, .noArgument empty⟩
  cases read : RunOptions.read args with
  | error e => exact .inl ⟨_, .arguments empty read⟩
  | ok o =>
    cases file : files o.path with
    | error reason => exact .inl ⟨_, .unreadable read file⟩
    | ok program =>
      by_cases valid : o.config.stackSize ≤ o.config.memorySize ∧
          o.config.memorySize < Memory.addressLimit
      · by_cases large : o.config.memorySize < program.length
        · exact .inl ⟨_, .program read file valid large⟩
        · have made := Machine.ofConfig_eq_ok_iff.2 ⟨valid, rfl⟩
          have fits := (Memory.size_zero o.config.memorySize).symm ▸ Nat.le_of_not_lt large
          exact .inr ⟨o, _, .intro read file made (Machine.load_eq_ok_iff.2 ⟨fits, rfl⟩)⟩
      · exact .inl ⟨_, .configuration read file valid⟩

theorem Starts.read_eq (starts : Starts files args o start) : RunOptions.read args = .ok o := by
  cases starts
  assumption

theorem switches_of_read (read : RunOptions.read args = .ok o) :
    (o.trace = true ↔ "--trace" ∈ args.tail) ∧ (o.dump = true ↔ "--dump" ∈ args.tail) := by
  cases args with
  | nil => cases read
  | cons path flags => simpa using RunOptions.switches_of_readFlags read

theorem Tells.exit_iff {r : Report} (tells : r.Tells args final) :
    (r.exit = 0 ↔ final.status = .halted) ∧ (r.exit = 3 ↔ ∃ e, final.status = .faulted e) := by
  cases tells with
  | halted status _ => simp [status]
  | faulted status _ => simp [status]

theorem Tells.exit_ne_one {r : Report} (tells : r.Tells args final) : r.exit ≠ 1 := by
  cases tells <;> exact nofun

theorem Tells.not_stack_line {r : Report} (tells : r.Tells args final) (failed : r.exit = 3) :
    ¬ "stack:".toList <:+: r.stdout.toList := by
  cases tells with
  | halted _ _ => cases failed
  | faulted _ _ => exact fun line => Dump.s_not_mem_shown args final (line.subset (by decide))

theorem setPc_zero_of_load {c : Config} {fresh loaded : Machine} {program : List UInt8}
    (made : Machine.ofConfig c = .ok fresh) (loads : fresh.load program = .ok loaded) :
    loaded.setPc 0 = loaded := by
  obtain ⟨-, rfl⟩ := Machine.ofConfig_eq_ok_iff.1 made
  obtain ⟨-, rfl⟩ := Machine.load_eq_ok_iff.1 loads
  rfl

theorem Tells.agrees {r : Report} (tells : r.Tells args final) :
    Agrees args r (match final.status with
      | .faulted e => .error e
      | _ => .ok final) := by
  cases tells with
  | halted status logged =>
    rw [status]
    exact .ok rfl (.halted status logged)
  | faulted status logged =>
    rw [status]
    exact .failed rfl status (.faulted status logged)

theorem tells_ofSession [LogWriter] {t : Session} (read : RunOptions.read args = .ok o)
    (stopped : t.machine.status ≠ .running) : (ofSession o t).Tells args t.machine := by
  obtain ⟨trace, dump⟩ := switches_of_read read
  have shown : (if o.dump = true then Dump.memory t.machine.memory t.machine.pc ++
      Dump.stack t.machine.stack t.machine.memory else "") = Dump.shown args t.machine := by
    simp only [dump, Dump.shown]
  have unlogged (log : String) (absent : "--trace" ∉ args.tail) :
      (if o.trace = true then log else "") = "" := if_neg fun on => absent (trace.1 on)
  unfold ofSession
  dsimp only
  rw [shown]
  cases status : t.machine.status with
  | running => contradiction
  | halted => exact .halted status (unlogged _)
  | faulted e =>
    simp only [lines_singleton]
    exact .faulted status (unlogged _)

section

variable [FloatUnit] [LogWriter]

@[simp] theorem command?_run (fuel : Nat) (files : Files) (args : List String) :
    command? fuel files ("run" :: args) = run? fuel files args := rfl

theorem run?_of_refused (refused : Refused files args ls) (fuel : Nat) :
    run? fuel files args = some ⟨1, "", lines ls⟩ := by
  unfold run?
  cases refused with
  | noArgument empty =>
    subst empty
    rfl
  | @arguments e given read =>
    have named : e ≠ .missingPath := by
      cases args with
      | nil => contradiction
      | cons path flags => exact RunOptions.ne_missingPath_of_readFlags read
    rw [read]
    cases e with
    | missingPath => contradiction
    | _ => rfl
  | unreadable read file => simp only [read, file, unreadable, refused]
  | configuration read file invalid =>
    simp only [read, file, prepare, Machine.ofConfig, Config.validate, if_neg invalid, refused]
  | @program o program read file valid large =>
    obtain ⟨fresh, made⟩ : ∃ m, Machine.ofConfig o.config = .ok m :=
      ⟨_, Machine.ofConfig_eq_ok_iff.2 ⟨valid, rfl⟩⟩
    have size := (Machine.sound_ofConfig made).memory_size
    have full : fresh.load program =
        .error (.programTooLarge program.length o.config.memorySize) := by
      rw [Machine.load, size, if_pos large]
    simp only [read, file, prepare, made, full, refused]

theorem run?_of_starts (starts : Starts files args o start) (fuel : Nat) :
    run? fuel files args = ((Session.start start (sink o)).run? fuel).map (ofSession o) := by
  obtain ⟨read, file, made, loads⟩ := starts
  simp only [run?, read, file, prepare, made, loads]
  rfl

theorem ends_of_run? {fuel : Nat} {r : Report} (starts : Starts files args o start)
    (run : run? fuel files args = some r) : ∃ final, start.Ends final ∧ r.Tells args final := by
  rw [run?_of_starts starts, Option.map_eq_some_iff] at run
  obtain ⟨t, run, rfl⟩ := run
  exact ⟨t.machine, Session.ends_iff.2 ⟨fuel, t, run, rfl⟩,
    tells_ofSession starts.read_eq (Session.machine_run? run).2⟩

theorem exit_eq_one_iff {fuel : Nat} {r : Report} (run : run? fuel files args = some r) :
    r.exit = 1 ↔ ∃ ls, Refused files args ls := by
  constructor
  · intro failed
    obtain refused | ⟨o, start, starts⟩ := refused_or_starts files args
    · exact refused
    · obtain ⟨final, -, tells⟩ := ends_of_run? starts run
      exact absurd failed tells.exit_ne_one
  · intro refused
    obtain ⟨ls, refused⟩ := refused
    rw [run?_of_refused refused] at run
    cases run
    rfl

theorem agrees_runProgram? {program : List UInt8} (read : RunOptions.read args = .ok o)
    (file : files o.path = .ok program) (entry : o.entry = 0) (fuel : Nat) :
    Option.Rel (Agrees args) (run? fuel files args) (runProgram? fuel program o.config) := by
  unfold runProgram?
  cases made : Machine.ofConfig o.config with
  | error e =>
    simp only [run?, read, file, prepare, made]
    exact .some .refused
  | ok fresh =>
    dsimp only
    cases loads : fresh.load program with
    | error e =>
      simp only [run?, read, file, prepare, made, loads]
      exact .some .refused
    | ok loaded =>
      have starts := Starts.intro read file made loads
      rw [entry, setPc_zero_of_load made loads] at starts
      rw [run?_of_starts starts]
      dsimp only
      -- The two sessions have the same machine and differ in their sinks.
      cases run : (Session.start loaded (sink o)).run? fuel with
      | none =>
        have going := Session.run?_eq_none_iff.1 run
        have quiet : (Session.start loaded .silent).run? fuel = none :=
          Session.run?_eq_none_iff.2 going
        rw [quiet]
        exact .none
      | some t =>
        obtain ⟨v, quiet, same⟩ :=
          Session.run?_of_machine_eq (t := Session.start loaded .silent) run rfl
        have agrees := (tells_ofSession read (Session.machine_run? run).2).agrees
        rw [← same] at agrees
        rw [quiet]
        exact .some agrees

theorem run_reports (files : Files) (args : List String) :
    ((∃ ls, Refused files args ls) ∨ ∃ o start, Starts files args o start) ∧
    (∀ ls, Refused files args ls → ∀ fuel,
      command? fuel files ("run" :: args) = some ⟨1, "", lines ls⟩) ∧
    (∀ o start, Starts files args o start →
      (∀ final, start.Ends final → ∃ fuel r, command? fuel files ("run" :: args) = some r) ∧
      ∀ fuel r, command? fuel files ("run" :: args) = some r →
        ∃ final, start.Ends final ∧ r.Tells args final ∧
          (r.exit = 0 ↔ final.status = .halted) ∧
          (r.exit = 3 ↔ ∃ e, final.status = .faulted e) ∧
          (r.exit = 3 → ¬ "stack:".toList <:+: r.stdout.toList) ∧
          (Dump.shown args final = "" ↔ "--dump" ∉ args.tail)) ∧
    (∀ fuel r, command? fuel files ("run" :: args) = some r →
      (r.exit = 1 ↔ ∃ ls, Refused files args ls)) ∧
    ∀ o program, RunOptions.read args = .ok o → files o.path = .ok program → o.entry = 0 →
      ∀ fuel, Option.Rel (Agrees args) (command? fuel files ("run" :: args))
        (runProgram? fuel program o.config) := by
  simp only [command?_run]
  refine ⟨refused_or_starts files args, fun ls refused => run?_of_refused refused, ?started,
    fun fuel r run => exit_eq_one_iff run, fun o program => agrees_runProgram?⟩
  case started =>
    intro o start starts
    constructor
    · intro final ends
      obtain ⟨fuel, t, run, -⟩ := Session.ends_iff (s := Session.start start (sink o)) |>.1 ends
      refine ⟨fuel, ofSession o t, ?_⟩
      rw [run?_of_starts starts, run, Option.map_some]
    · intro fuel r run
      obtain ⟨final, ends, tells⟩ := ends_of_run? starts run
      exact ⟨final, ends, tells, tells.exit_iff.1, tells.exit_iff.2, tells.not_stack_line,
        Dump.shown_eq_empty_iff args final⟩

end

theorem division_by_zero_reported : ∃ files start r,
    Starts files ["zero"] { path := "zero" } start ∧
    command? 3 files ["run", "zero"] = some r ∧ r.exit = 3 ∧
    (∃ final, start.Ends final ∧ r.Tells ["zero"] final) ∧
    r.stderr = "runtime error: division by zero at 4\n" ∧
    Refused files ["one"] ["error: cannot read 'one': none"] ∧
    command? 0 files ["run", "one"] = some ⟨1, "", "error: cannot read 'one': none\n"⟩ := by
  let files : Files := fun path =>
    if path = "zero" then .ok [0x08, 1, 0x08, 0, 0x4C] else .error "none"
  have starts : Starts files ["zero"] { path := "zero" } _ :=
    .intro rfl rfl (Machine.ofConfig_eq_ok_iff.2 ⟨by decide, rfl⟩)
      (Machine.load_eq_ok_iff.2 ⟨by decide +kernel, rfl⟩)
  have run : command? 3 files ["run", "zero"] =
      some ⟨3, "", "runtime error: division by zero at 4\n"⟩ := by decide +kernel
  have refused : Refused files ["one"] _ := .unreadable rfl rfl
  obtain ⟨final, ends, tells, -⟩ := (run_reports files ["zero"]).2.2.1 _ _ starts |>.2 3 _ run
  exact ⟨files, _, _, starts, run, rfl, ⟨final, ends, tells⟩, rfl, refused,
    (run_reports files ["one"]).2.1 _ refused 0⟩

end Report
end ByteMachine
