import ByteMachine.Proofs.Invariant

/-! A failing step takes back everything but the latch and the count of steps, and no call gets a
stopped machine going again. -/
namespace ByteMachine

/-- What a step that fails with `e` makes of a machine. A step counts if it executes something. -/
structure Machine.FailsAs (m : Machine) (e : MachineError) (failed : Machine) : Prop where
  pc?_eq : e.pc? = some m.pc
  active : m.stack.latch = .active
  rest : failed = { m with
    store.stack.latch := e.latch, status := .faulted e, steps := failed.steps }
  counted : ∀ i, m.due = .ok i → failed.steps = m.steps + 1
  uncounted : ∀ reason, m.due = .error reason → reason = e ∧ failed.steps = m.steps
  refused : (∃ limit, e = .stepLimitExceeded m.pc limit) ∨ (∃ b, e = .unknownOpcode m.pc b) →
    failed.steps = m.steps

/-- What holds in `t` of a session that had stopped in `s`. -/
structure Session.Final [FloatUnit] (s t : Session) : Prop where
  status_eq : t.machine.status = s.machine.status
  stack_eq : t.machine.stack = s.machine.stack
  steps_eq : t.machine.steps = s.machine.steps
  step_eq : t.step = t
  run?_eq : ∀ fuel, t.run? fuel = some ((t.write (.runStart t.machine.pc)).write
    (.runEnd t.machine.pc t.machine.steps t.machine.stack.pointer (t.machine.status == .halted)))

namespace Machine

variable {m failed : Machine} {e : MachineError}

theorem located_of_fault {i : Instruction} {f : Fault} (h : i.fault? m.store = some f) :
    ¬ ((∃ limit, f.located m.pc = .stepLimitExceeded m.pc limit) ∨
      ∃ b, f.located m.pc = .unknownOpcode m.pc b) := by
  rintro (⟨limit, eq⟩ | ⟨b, eq⟩)
  · exact f.located_ne_stepLimitExceeded _ _ limit eq
  · obtain ⟨-, rfl⟩ | ⟨-, h | ⟨-, -, rfl⟩⟩ := Instruction.fault?_eq_some_iff.1 h
    · cases eq
    · obtain ⟨e, rfl | rfl⟩ | rfl | ⟨address, rfl⟩ := Instruction.check?_eq_some h
      all_goals cases eq
    · cases eq

theorem Transition.failsAs [FloatUnit] {event : Event} (active : m.stack.latch = .active)
    (t : m.Transition failed event) (h : failed.status = .faulted e) : m.FailsAs e failed := by
  cases t with
  | refused due =>
    cases h
    exact {
      pc?_eq := pc?_of_due due
      active
      rest := by rw [latch_of_due due, ← active]; rfl
      counted := fun i executed => nomatch due.symm.trans executed
      uncounted := fun reason h => ⟨Except.error.inj (h.symm.trans due), rfl⟩
      refused := fun _ => rfl }
  | @undone i f due fault =>
    cases h
    exact {
      pc?_eq := f.pc?_located m.pc
      active
      rest := by rw [Fault.latch_located]; rfl
      counted := fun _ _ => rfl
      uncounted := fun reason h => nomatch due.symm.trans h
      refused := fun h => absurd h (located_of_fault fault) }
  | done due clear => exact absurd h (Flow.status_ne_faulted _ e)

end Machine

namespace Session

variable {s t : Session}

section

variable [FloatUnit]

theorem step_of_ne_running (h : s.machine.status ≠ .running) : s.step = s := by
  obtain ⟨m, sink, log⟩ := s
  simp only [step, Machine.step_of_ne_running h]

theorem Leads.stopped (stopped : s.machine.status ≠ .running) (h : s.Leads t) :
    t.machine.status = s.machine.status ∧ t.machine.stack = s.machine.stack ∧
      t.machine.steps = s.machine.steps := by
  induction h with
  | refl => exact ⟨rfl, rfl, rfl⟩
  | call k _ h ih =>
    refine keeps_call (P := fun m => m.status = s.machine.status ∧ m.stack = s.machine.stack ∧
      m.steps = s.machine.steps) ?_ ?_ ?_ h ih
    · intro m loaded program loads same
      obtain ⟨-, rfl⟩ := Machine.load_eq_ok_iff.1 loads
      exact same
    · intro m pc same
      exact same
    · intro m same
      rw [Machine.step_of_ne_running (same.1 ▸ stopped)]
      exact same

theorem Leads.final (stopped : s.machine.status ≠ .running) (h : s.Leads t) : s.Final t := by
  obtain ⟨status_eq, stack_eq, steps_eq⟩ := h.stopped stopped
  have still : t.machine.status ≠ .running := status_eq ▸ stopped
  refine ⟨status_eq, stack_eq, steps_eq, step_of_ne_running still, ?_⟩
  intro fuel
  have stays := advance_of_ne_running (s := t.write (.runStart t.machine.pc)) fuel still
  unfold run?
  rw [stays]
  exact if_neg still

theorem failed_step_atomic_final {c : Config} {s : Session} (reached : Reachable c s)
    (running : s.machine.status = .running) :
    (∀ e, s.step.machine.status = .faulted e → s.machine.FailsAs e s.step.machine) ∧
      (s.step.machine.status ≠ .running → ∀ t, s.step.Leads t → s.step.Final t) := by
  constructor
  · intro e failed
    have live := reached.sound.live running
    rw [machine_step, Machine.step_of_running running] at failed ⊢
    exact (Machine.transition live).failsAs live.active failed
  · intro stopped t leads
    exact leads.final stopped

end

theorem division_by_zero_atomic_final : ∃ s, Reachable ⟨64, 16, none⟩ s ∧
    s.machine.status = .running ∧ s.step.machine.status = .faulted (.divisionByZero 4) ∧
    s.machine.FailsAs (.divisionByZero 4) s.step.machine ∧
    ∀ t, s.step.Leads t → s.step.Final t := by
  have reached : Reachable ⟨64, 16, none⟩ _ :=
    (Reachable.loaded [0x08, 1, 0x08, 0, 0x4C] (.recording #[]) rfl rfl).advance 2
  refine ⟨_, reached, ?running, ?failed,
    (failed_step_atomic_final reached ?running).1 _ ?failed,
    (failed_step_atomic_final reached ?running).2 ?stopped⟩
  case running => decide +kernel
  case failed => decide +kernel
  case stopped => decide +kernel

end Session
end ByteMachine
