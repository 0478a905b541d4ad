import ByteMachine.Machine.Session

/-! Calls on a session in any order, and the sessions that they lead to. The answer of a step
or of a run is the status that it leaves. -/
namespace ByteMachine

/-- What a step executed, with its place. -/
def Event.executed? (e : Event) : Option (Nat × Instruction) := e.instruction?.map (e.pc, ·)

namespace Machine

variable [FloatUnit]

/-- The machine after some steps. -/
def after : Nat → Machine → Machine
  | 0, m => m
  | n + 1, m => after n m.step.1

/-- What some steps execute, in their order. -/
def executed : Nat → Machine → List (Nat × Instruction)
  | 0, _ => []
  | n + 1, m => (m.step.2.bind Event.executed?).toList ++ executed n m.step.1

theorem after_of_ne_running (n : Nat) {m : Machine} (h : m.status ≠ .running) :
    m.after n = m := by
  induction n with
  | zero => rfl
  | succ n ih => rw [after, step_of_ne_running h, ih]

theorem executed_of_ne_running (n : Nat) {m : Machine} (h : m.status ≠ .running) :
    m.executed n = [] := by
  induction n with
  | zero => rfl
  | succ n ih =>
    rw [executed, step_of_ne_running h, ih]
    rfl

theorem after_succ (n : Nat) (m : Machine) : m.after (n + 1) = (m.after n).step.1 := by
  induction n generalizing m with
  | zero => rfl
  | succ n ih => rw [after, ih, ← after]

theorem after_add (j k : Nat) (m : Machine) : m.after (j + k) = (m.after j).after k := by
  induction j generalizing m with
  | zero => rw [Nat.zero_add, after]
  | succ j ih => rw [Nat.succ_add, after, ih, ← after]

theorem keeps_after {P : Machine → Prop} (step : ∀ m : Machine, P m → P m.step.1) (n : Nat)
    {m : Machine} (h : P m) : P (m.after n) := by
  induction n with
  | zero => exact h
  | succ n ih =>
    rw [after_succ]
    exact step _ ih

/-- The machine stops as `final`, after some number of steps. -/
def Ends (m final : Machine) : Prop := ∃ n, m.after n = final ∧ final.status ≠ .running

theorem Ends.unique {m final other : Machine} (h : m.Ends final) (k : m.Ends other) :
    final = other := by
  obtain ⟨i, rfl, stopped⟩ := h
  obtain ⟨j, rfl, still⟩ := k
  rw [← after_of_ne_running j stopped, ← after_of_ne_running i still, ← after_add, ← after_add,
    Nat.add_comm]

end Machine

inductive Call where
  | load (program : List UInt8)
  | setPc (pc : Nat)
  | withSink (sink : Sink)
  | step
  | run (fuel : Nat)

namespace Session

@[simp] theorem machine_write (l : LogEntry) (s : Session) : (s.write l).machine = s.machine := rfl

variable [FloatUnit]

/-- A program that does not fit changes nothing. There is no session after a run that is not
over within its fuel. -/
def call? (k : Call) (s : Session) : Option Session :=
  match k with
  | .load program =>
    match s.load program with
    | .ok loaded => some loaded
    | .error _ => some s
  | .setPc pc => some (s.setPc pc)
  | .withSink sink => some (s.withSink sink)
  | .step => some s.step
  | .run fuel => s.run? fuel

inductive Leads (s : Session) : Session → Prop
  | refl : Leads s s
  | call {t u : Session} (k : Call) : Leads s t → t.call? k = some u → Leads s u

/-- The sessions that a new machine of a configuration can be in, whatever its first sink. -/
inductive Reachable (c : Config) : Session → Prop
  | start {m : Machine} (sink : Sink) :
      Machine.ofConfig c = .ok m → Reachable c (Session.start m sink)
  | call {s t : Session} (k : Call) : Reachable c s → s.call? k = some t → Reachable c t

theorem Reachable.loaded {c : Config} {m loaded : Machine} (program : List UInt8) (sink : Sink)
    (fresh : Machine.ofConfig c = .ok m) (loads : m.load program = .ok loaded) :
    Reachable c (Session.start loaded sink) := by
  refine .call (.load program) (.start sink fresh) ?_
  simp only [call?, Session.load, Session.start, loads]

theorem Reachable.advance {c : Config} {s : Session} (reached : Reachable c s) (n : Nat) :
    Reachable c (s.advance n) := by
  induction n generalizing s with
  | zero => exact reached
  | succ n ih =>
    unfold Session.advance
    split
    · exact ih (.call .step reached rfl)
    · exact reached

/-- A sink and a log never change what the machine does. -/
theorem machine_advance (n : Nat) (s : Session) : (s.advance n).machine = s.machine.after n := by
  induction n generalizing s with
  | zero => rfl
  | succ n ih =>
    by_cases h : s.machine.status = .running
    · simp only [advance, h, ih, machine_step, Machine.after]
    · rw [advance_of_ne_running _ h, Machine.after_of_ne_running _ h]

theorem machine_run? {fuel : Nat} {s t : Session} (h : s.run? fuel = some t) :
    t.machine = s.machine.after fuel ∧ t.machine.status ≠ .running := by
  simp only [run?, Option.ite_none_left_eq_some, Option.some.injEq] at h
  obtain ⟨stopped, rfl⟩ := h
  exact ⟨machine_advance fuel _, stopped⟩

theorem exists_run? {fuel : Nat} {s : Session}
    (stopped : (s.advance fuel).machine.status ≠ .running) :
    ∃ t, s.run? fuel = some t ∧ t.machine = (s.advance fuel).machine := by
  have same : ((s.write (.runStart s.machine.pc)).advance fuel).machine =
      (s.advance fuel).machine := by
    rw [machine_advance, machine_advance, machine_write]
  rw [← same] at stopped
  exact ⟨_, if_neg stopped, same⟩

theorem run?_eq_none_iff {fuel : Nat} {s : Session} :
    s.run? fuel = none ↔ (s.machine.after fuel).status = .running := by
  have same := machine_advance fuel (s.write (.runStart s.machine.pc))
  rw [machine_write] at same
  simp [run?, same]

theorem run?_of_machine_eq {fuel : Nat} {s t after : Session} (run : s.run? fuel = some after)
    (same : t.machine = s.machine) : ∃ u, t.run? fuel = some u ∧ u.machine = after.machine := by
  obtain ⟨at_after, stopped⟩ := machine_run? run
  rw [at_after, ← same, ← machine_advance] at stopped ⊢
  exact exists_run? stopped

theorem ends_iff {s : Session} {final : Machine} :
    s.machine.Ends final ↔ ∃ fuel t, s.run? fuel = some t ∧ t.machine = final := by
  constructor
  · intro ends
    obtain ⟨n, rfl, stopped⟩ := ends
    rw [← machine_advance] at stopped ⊢
    exact ⟨n, exists_run? stopped⟩
  · intro runs
    obtain ⟨fuel, t, run, rfl⟩ := runs
    obtain ⟨same, stopped⟩ := machine_run? run
    exact ⟨fuel, same.symm, stopped⟩

theorem keeps_call {P : Machine → Prop}
    (load : ∀ {m loaded : Machine} {program : List UInt8},
      m.load program = .ok loaded → P m → P loaded)
    (setPc : ∀ (m : Machine) (pc : Nat), P m → P (m.setPc pc))
    (step : ∀ m : Machine, P m → P m.step.1)
    {s t : Session} {k : Call} (h : s.call? k = some t) (hs : P s.machine) : P t.machine := by
  cases k with
  | load program =>
    simp only [call?, Session.load] at h
    cases hl : s.machine.load program with
    | error e =>
      simp only [hl, Option.some.injEq] at h
      exact h ▸ hs
    | ok loaded =>
      simp only [hl, Option.some.injEq] at h
      subst h
      exact load hl hs
  | setPc pc =>
    cases h
    exact setPc s.machine pc hs
  | withSink sink =>
    cases h
    exact hs
  | step =>
    cases h
    rw [machine_step]
    exact step s.machine hs
  | run fuel =>
    rw [(machine_run? h).1]
    exact Machine.keeps_after step fuel hs

end Session
end ByteMachine
