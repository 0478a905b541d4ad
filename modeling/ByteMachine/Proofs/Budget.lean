import ByteMachine.Proofs.Finality

/-! A step budget cuts a run short and changes nothing else. Up to the last step that it allows,
the machine does what it does without a budget; then it stops, whatever its next step would have
been. -/
namespace ByteMachine

namespace Machine

/-- The same machine under a budget. -/
def limited (n : Nat) (m : Machine) : Machine := { m with maxSteps := some n }

variable {c : Config} {m m' : Machine} {n : Nat} {event : Event}

theorem exhausted?_of_none (free : m.maxSteps = none) : m.exhausted? = none := by
  simp [exhausted?, free]

theorem exhausted?_limited_of_lt (within : m.steps < n) : (m.limited n).exhausted? = none := by
  simp [exhausted?, limited, Nat.not_le.2 within]

theorem due_of_none (free : m.maxSteps = none) :
    m.due = (fetch m.memory m.pc).mapError (·.located m.pc) := by
  unfold due
  rw [exhausted?_of_none free]

variable [FloatUnit]

theorem execute_limited (n : Nat) (i : Instruction) (m : Machine) :
    (m.limited n).execute i = ((m.execute i).1.limited n, (m.execute i).2) := by
  obtain ⟨store, pc, status, steps, maxSteps⟩ := m
  simp only [limited, execute]
  cases i.effect pc store with
  | ok flow after => cases flow <;> rfl
  | error fault after => rfl

theorem stepRunning_limited (free : m.maxSteps = none) (within : m.steps < n) :
    (m.limited n).stepRunning = (m.stepRunning.1.limited n, m.stepRunning.2) := by
  have same : fetch (m.limited n).memory (m.limited n).pc = fetch m.memory m.pc := rfl
  unfold stepRunning
  rw [exhausted?_of_none free, exhausted?_limited_of_lt within, same]
  cases fetch m.memory m.pc with
  | error fault => rfl
  | ok i => exact execute_limited n i m

theorem step_limited (free : m.maxSteps = none) (within : m.steps < n) :
    (m.limited n).step = (m.step.1.limited n, m.step.2) := by
  by_cases running : m.status = .running
  · have still : (m.limited n).status = .running := running
    rw [step_of_running running, step_of_running still, stepRunning_limited free within]
  · have still : (m.limited n).status ≠ .running := running
    rw [step_of_ne_running running, step_of_ne_running still]

theorem step_of_exhausted (running : m.status = .running) (spent : m.exhausted? = some n) :
    m.step.1 = m.refused (.stepLimitExceeded m.pc n) := by
  rw [step_of_running running]
  unfold stepRunning
  rw [spent]
  rfl

theorem Transition.steps_of_fetch {i : Instruction} (t : m.Transition m' event)
    (free : m.maxSteps = none) (fetched : fetch m.memory m.pc = .ok i) :
    m'.steps = m.steps + 1 := by
  cases t with
  | refused due =>
    rw [due_of_none free, fetched] at due
    cases due
  | undone _ _ | done _ _ => rfl

theorem Transition.refused_of_fetch {f : Fault} (t : m.Transition m' event)
    (free : m.maxSteps = none) (failed : fetch m.memory m.pc = .error f) :
    m' = m.refused (f.located m.pc) := by
  cases t with
  | refused due =>
    rw [due_of_none free, failed] at due
    cases due
    rfl
  | undone due _ | done due _ =>
    rw [due_of_none free, failed] at due
    cases due

theorem Transition.steps_of_running (t : m.Transition m' event) (running : m'.status = .running) :
    m'.steps = m.steps + 1 := by
  cases t with
  | refused _ | undone _ _ => cases running
  | done _ _ => rfl

namespace Sound

variable (sound : m.Sound c)
include sound

omit [FloatUnit] in
theorem limited (n : Nat) : (m.limited n).Sound { c with maxSteps := some n } :=
  { sound with maxSteps_eq := rfl }

theorem steps_after {k : Nat} (running : (m.after k).status = .running) :
    (m.after k).steps = m.steps + k := by
  induction k with
  | zero => rfl
  | succ k ih =>
    rw [after_succ] at running ⊢
    by_cases before : (m.after k).status = .running
    · have live := (sound.after k).live before
      rw [step_of_running before] at running ⊢
      rw [(Machine.transition live).steps_of_running running, ih before, Nat.add_assoc]
    · rw [step_of_ne_running before] at running
      exact absurd running before

theorem withinBudget_after (k : Nat) (within : m.WithinBudget) : (m.after k).WithinBudget := by
  induction k with
  | zero => exact within
  | succ k ih =>
    rw [after_succ]
    exact (sound.after k).keeps_step (fun _ t => t.withinBudget) ih

theorem stops_within (budget : m.maxSteps = some n) (le : m.steps ≤ n) :
    (m.after (n - m.steps + 1)).status ≠ .running := by
  intro running
  have counted := sound.steps_after running
  have kept : (m.after (n - m.steps + 1)).maxSteps = some n := by
    rw [(sound.after _).maxSteps_eq, ← sound.maxSteps_eq, budget]
  have within : m.WithinBudget := by
    intro limit eq
    rw [budget] at eq
    exact Option.some.inj eq ▸ le
  have := sound.withinBudget_after _ within n kept
  omega

end Sound
end Machine

namespace Session

def limited (n : Nat) (s : Session) : Session := { s with machine := s.machine.limited n }

theorem note_limited (n : Nat) (e : Event) (s : Session) :
    (s.limited n).note e = (s.note e).limited n := by
  obtain ⟨m, sink, log⟩ := s
  cases sink <;> rfl

/-- What is to be seen of a session besides its log. -/
def outcome (s : Session) : Machine × Sink := (s.machine, s.sink)

/-- A budget of `n` steps in all, given to a session whose machine runs without one. The run may
end in a step that executes an instruction, which counts, or in one that can fetch none. -/
structure Truncated [FloatUnit] (s : Session) (n : Nat) : Prop where
  along : ∀ k, (s.advance k).machine.status = .running → s.machine.steps + k ≤ n →
    (s.limited n).advance k = (s.advance k).limited n
  next : ∀ k, (s.advance k).machine.status = .running → s.machine.steps + k < n →
    ((s.limited n).advance k).step = (s.advance k).step.limited n
  spent : ∀ k, (s.advance k).machine.status = .running → s.machine.steps + k = n →
    ((s.limited n).advance k).step.machine = { (s.advance k).machine.limited n with
      status := .faulted (.stepLimitExceeded (s.advance k).machine.pc n) }
  ends : ∃ t, (s.limited n).run? (n - s.machine.steps + 1) = some t
  executed : ∀ k i, (s.advance k).machine.status = .running →
    Machine.fetch (s.advance k).machine.memory (s.advance k).machine.pc = .ok i →
    (s.advance (k + 1)).machine.status ≠ .running →
    ((s.advance (k + 1)).machine.steps ≤ n →
      ∃ t, s.run? (k + 1) = some t ∧ (s.limited n).run? (k + 1) = some (t.limited n)) ∧
    (n < (s.advance (k + 1)).machine.steps →
      ∃ t, (s.limited n).run? (n - s.machine.steps + 1) = some t ∧
        t.machine.status = .faulted (.stepLimitExceeded t.machine.pc n))
  unfetched : ∀ k f, (s.advance k).machine.status = .running →
    Machine.fetch (s.advance k).machine.memory (s.advance k).machine.pc = .error f →
    ((s.advance (k + 1)).machine.steps < n →
      ∃ t, s.run? (k + 1) = some t ∧ (s.limited n).run? (k + 1) = some (t.limited n)) ∧
    (n ≤ (s.advance (k + 1)).machine.steps →
      ∃ t, (s.limited n).run? (n - s.machine.steps + 1) = some t ∧
        t.machine.status = .faulted (.stepLimitExceeded t.machine.pc n))

variable {c : Config} {s t : Session} {n j k fuel : Nat}

section

variable [FloatUnit]

theorem advance_succ (k : Nat) (s : Session) : s.advance (k + 1) = (s.advance k).step := by
  rw [advance_add]
  by_cases running : (s.advance k).machine.status = .running
  · simp only [advance, running]
  · rw [advance_of_ne_running 1 running, step_of_ne_running running]

theorem running_of_le (le : j ≤ k) (running : (s.advance k).machine.status = .running) :
    (s.advance j).machine.status = .running := by
  obtain ⟨more, rfl⟩ := Nat.exists_eq_add_of_le le
  apply Decidable.byContradiction
  intro stopped
  rw [advance_add, advance_of_ne_running more stopped] at running
  exact stopped running

theorem step_limited (free : s.machine.maxSteps = none) (within : s.machine.steps < n) :
    (s.limited n).step = s.step.limited n := by
  obtain ⟨m, sink, log⟩ := s
  have same := Machine.step_limited free within
  simp only [limited, step] at same ⊢
  rw [same]
  cases m.step with
  | mk after event =>
    cases event with
    | none => rfl
    | some e => exact note_limited n e ⟨after, sink, log⟩

theorem run?_eq_some (ends : (s.write (.runStart s.machine.pc)).advance fuel = t)
    (stopped : t.machine.status ≠ .running) : s.run? fuel = some (t.write (.runEnd t.machine.pc
      t.machine.steps t.machine.stack.pointer (t.machine.status == .halted))) := by
  subst ends
  exact if_neg stopped

section Unlimited

variable (sound : s.machine.Sound c) (unlimited : c.maxSteps = none)
include sound

theorem sound_advance (k : Nat) : (s.advance k).machine.Sound c := by
  rw [machine_advance]
  exact sound.after k

theorem steps_advance (running : (s.advance k).machine.status = .running) :
    (s.advance k).machine.steps = s.machine.steps + k := by
  rw [machine_advance] at running ⊢
  exact sound.steps_after running

include unlimited

theorem maxSteps_advance (k : Nat) : (s.advance k).machine.maxSteps = none :=
  (sound_advance sound k).maxSteps_eq.trans unlimited

theorem advance_limited (running : (s.advance k).machine.status = .running)
    (le : s.machine.steps + k ≤ n) : (s.limited n).advance k = (s.advance k).limited n := by
  induction k with
  | zero => rfl
  | succ k ih =>
    have before := running_of_le (Nat.le_succ k) running
    have free := maxSteps_advance sound unlimited k
    have within : (s.advance k).machine.steps < n := by
      rw [steps_advance sound before]
      omega
    rw [advance_succ, ih before (by omega), step_limited free within, ← advance_succ]

theorem next_limited (running : (s.advance k).machine.status = .running)
    (lt : s.machine.steps + k < n) :
    (s.limited n).advance (k + 1) = (s.advance (k + 1)).limited n := by
  have free := maxSteps_advance sound unlimited k
  rw [advance_succ, advance_succ, advance_limited sound unlimited running (Nat.le_of_lt lt),
    step_limited free (by rwa [steps_advance sound running])]

theorem step_spent (running : (s.advance k).machine.status = .running)
    (eq : s.machine.steps + k = n) :
    ((s.limited n).advance k).step.machine = { (s.advance k).machine.limited n with
      status := .faulted (.stepLimitExceeded (s.advance k).machine.pc n) } := by
  have same := advance_limited sound unlimited running (Nat.le_of_eq eq)
  have spent : ((s.advance k).machine.limited n).exhausted? = some n := by
    apply Machine.exhausted?_eq_some_iff.2
    refine ⟨rfl, ?_⟩
    have counted := steps_advance sound running
    change n ≤ (s.advance k).machine.steps
    omega
  rw [same, machine_step]
  exact Machine.step_of_exhausted running spent

theorem steps_of_fetch {i : Instruction} (running : (s.advance k).machine.status = .running)
    (fetched : Machine.fetch (s.advance k).machine.memory (s.advance k).machine.pc = .ok i) :
    (s.advance (k + 1)).machine.steps = s.machine.steps + k + 1 := by
  have moved := Machine.transition ((sound_advance sound k).live running)
  rw [advance_succ, machine_step, Machine.step_of_running running, ← steps_advance sound running]
  exact moved.steps_of_fetch (maxSteps_advance sound unlimited k) fetched

theorem stopped_of_fetch {f : Fault} (running : (s.advance k).machine.status = .running)
    (failed : Machine.fetch (s.advance k).machine.memory (s.advance k).machine.pc = .error f) :
    (s.advance (k + 1)).machine.status ≠ .running ∧
      (s.advance (k + 1)).machine.steps = s.machine.steps + k := by
  have moved := Machine.transition ((sound_advance sound k).live running)
  rw [advance_succ, machine_step, Machine.step_of_running running, ← steps_advance sound running,
    moved.refused_of_fetch (maxSteps_advance sound unlimited k) failed]
  exact ⟨nofun, rfl⟩

/-- Whatever the run would have come to after `k` steps, a smaller budget ends it before. -/
theorem run?_cut (running : (s.advance k).machine.status = .running) (le : s.machine.steps ≤ n)
    (short : n ≤ s.machine.steps + k) : ∃ t,
      (s.limited n).run? (n - s.machine.steps + 1) = some t ∧
        t.machine.status = .faulted (.stepLimitExceeded t.machine.pc n) := by
  have before : (s.advance (n - s.machine.steps)).machine.status = .running :=
    running_of_le (by omega) running
  have spent := step_spent sound unlimited before (Nat.add_sub_of_le le)
  rw [← advance_succ] at spent
  have stopped : ((s.limited n).advance (n - s.machine.steps + 1)).machine.status ≠ .running := by
    simp [spent]
  obtain ⟨t, runs, same⟩ := exists_run? stopped
  refine ⟨t, runs, ?_⟩
  rw [same, spent]
  rfl

theorem run?_limited (running : (s.advance k).machine.status = .running)
    (stopped : (s.advance (k + 1)).machine.status ≠ .running) (lt : s.machine.steps + k < n) :
    ∃ t, s.run? (k + 1) = some t ∧ (s.limited n).run? (k + 1) = some (t.limited n) := by
  -- The two runs begin with the same entry in their logs, which no machine depends on.
  let begun := s.write (.runStart s.machine.pc)
  have same (j : Nat) : (begun.advance j).machine = (s.advance j).machine := by
    rw [machine_advance, machine_advance, machine_write]
  have ends : (begun.limited n).advance (k + 1) = (begun.advance (k + 1)).limited n := by
    apply next_limited (s := begun) sound unlimited ?_ lt
    rw [same, running]
  have finished : (begun.advance (k + 1)).machine.status ≠ .running := by rwa [same]
  exact ⟨_, run?_eq_some rfl finished,
    run?_eq_some (t := (begun.advance (k + 1)).limited n) ends finished⟩

end Unlimited

theorem outcome_step (h : s.outcome = t.outcome) : s.step.outcome = t.step.outcome := by
  obtain ⟨m, sink, log⟩ := s
  obtain ⟨m', sink', log'⟩ := t
  cases h
  simp only [step]
  cases m.step with
  | mk after event =>
    cases event with
    | none => rfl
    | some e => cases sink <;> rfl

theorem outcome_advance (h : s.outcome = t.outcome) (k : Nat) :
    (s.advance k).outcome = (t.advance k).outcome := by
  induction k with
  | zero => exact h
  | succ k ih =>
    rw [advance_succ, advance_succ]
    exact outcome_step ih

theorem map_outcome_run? (fuel : Nat) (s : Session) : (s.run? fuel).map outcome =
    if (s.advance fuel).machine.status = .running then none
    else some (s.advance fuel).outcome := by
  have same : ((s.write (.runStart s.machine.pc)).advance fuel).outcome =
      (s.advance fuel).outcome :=
    outcome_advance (s := s.write (.runStart s.machine.pc)) (t := s) rfl fuel
  have machine := congrArg Prod.fst same
  simp only [outcome] at machine
  unfold run?
  simp only [machine]
  split
  · rfl
  · exact congrArg some same

theorem run?_advance (j fuel : Nat) (s : Session) :
    ((s.advance j).run? fuel).map outcome = (s.run? (j + fuel)).map outcome := by
  rw [map_outcome_run?, map_outcome_run?, advance_add]

theorem budget_truncates (reached : Reachable c s) (unlimited : c.maxSteps = none)
    (le : s.machine.steps ≤ n) :
    s.Truncated n ∧ ∀ j fuel,
      ((s.advance j).run? fuel).map outcome = (s.run? (j + fuel)).map outcome ∧
      (((s.limited n).advance j).run? fuel).map outcome =
        ((s.limited n).run? (j + fuel)).map outcome := by
  have sound := reached.sound
  refine ⟨?_, fun j fuel => ⟨run?_advance j fuel s, run?_advance j fuel (s.limited n)⟩⟩
  exact {
    along := fun k running le => advance_limited sound unlimited running le
    next := by
      intro k running lt
      have next := next_limited sound unlimited running lt
      rwa [advance_succ, advance_succ] at next
    spent := fun k running eq => step_spent sound unlimited running eq
    ends := by
      have stopped :
          ((s.limited n).advance (n - s.machine.steps + 1)).machine.status ≠ .running := by
        rw [machine_advance]
        exact (sound.limited n).stops_within rfl le
      obtain ⟨t, runs, -⟩ := exists_run? stopped
      exact ⟨t, runs⟩
    executed := by
      intro k i running fetched stopped
      have counted := steps_of_fetch sound unlimited running fetched
      constructor
      · intro enough
        exact run?_limited sound unlimited running stopped (by omega)
      · intro short
        exact run?_cut sound unlimited running le (by omega)
    unfetched := by
      intro k f running failed
      obtain ⟨stopped, counted⟩ := stopped_of_fetch sound unlimited running failed
      constructor
      · intro enough
        exact run?_limited sound unlimited running stopped (by omega)
      · intro short
        exact run?_cut sound unlimited running le (by omega) }

end

/-- The limit is met before the `halt` that the fourth step would come to. -/
theorem addition_truncated : ∃ s, Reachable ⟨64, 16, none⟩ s ∧ s.machine.status = .running ∧
    s.machine.steps ≤ 3 ∧ (∃ t, (s.limited 3).run? 4 = some t) ∧
    ((s.limited 3).advance 3).step.machine.status = .faulted (.stepLimitExceeded 5 3) ∧
    s.Truncated 3 := by
  have reached : Reachable ⟨64, 16, none⟩ _ :=
    Reachable.loaded [0x08, 1, 0x08, 2, 0x40, 0x00] (.recording #[]) rfl rfl
  have truncated := (budget_truncates (n := 3) reached rfl (by decide)).1
  refine ⟨_, reached, rfl, by decide, truncated.ends, ?_, truncated⟩
  rw [truncated.spent 3 (by decide +kernel) rfl]
  decide +kernel

end Session
end ByteMachine
