import ByteMachine.Proofs.Decoding
import ByteMachine.Proofs.Outcome
import ByteMachine.Proofs.Reach

/-! What a step can come to. A step of a running machine is refused before anything is executed,
or undone, or done. -/
namespace ByteMachine

/-- The latch that goes with a status. -/
def MachineError.latch : MachineError → Latch
  | stackOverflow _ => .overflowed
  | stackUnderflow _ => .underflowed
  | _ => .active

def Status.latch : Status → Latch
  | running | halted => .active
  | faulted e => e.latch

@[simp] theorem Fault.latch_located (f : Fault) (pc : Nat) : (f.located pc).latch = f.latch := by
  cases f with
  | stack e => cases e <;> rfl
  | _ => rfl

theorem Fault.located_ne_stepLimitExceeded (f : Fault) (pc q limit : Nat) :
    f.located pc ≠ .stepLimitExceeded q limit := by
  cases f with
  | stack e => cases e <;> exact nofun
  | _ => exact nofun

def Flow.status : Flow → Status
  | halt => .halted
  | next | jump _ => .running

theorem Flow.status_ne_faulted (flow : Flow) (e : MachineError) : flow.status ≠ .faulted e := by
  cases flow <;> exact nofun

theorem Instruction.flow_status (i : Instruction) (s : Store) :
    (i.flow s).status = if i = .halt then .halted else .running := by
  cases i with
  | branch c t | branchAddress c t _ =>
    simp only [flow]
    split <;> rfl
  | _ => rfl

/-- Where the machine is after an instruction of some size. -/
def Flow.pc (flow : Flow) (pc size : Nat) : Nat :=
  match flow with
  | next => pc + size
  | jump target => target
  | halt => pc

namespace Machine

/-- The instruction that the next step executes, or the error of a step that executes none. -/
def due (m : Machine) : Except MachineError Instruction :=
  match m.exhausted? with
  | some limit => .error (.stepLimitExceeded m.pc limit)
  | none => (fetch m.memory m.pc).mapError (·.located m.pc)

theorem exhausted?_eq_some_iff {m : Machine} {limit : Nat} :
    m.exhausted? = some limit ↔ m.maxSteps = some limit ∧ limit ≤ m.steps := by
  unfold exhausted?
  rw [Option.filter_eq_some_iff, decide_eq_true_iff]

theorem due_eq_ok_iff {m : Machine} {i : Instruction} :
    m.due = .ok i ↔ m.exhausted? = none ∧ fetch m.memory m.pc = .ok i := by
  unfold due
  cases m.exhausted? with
  | some limit => simp
  | none =>
    rw [and_iff_right rfl]
    cases fetch m.memory m.pc with
    | error f => exact iff_of_false (nomatch ·) (nomatch ·)
    | ok j =>
      change Except.ok j = Except.ok i ↔ _
      rw [Except.ok.injEq, Except.ok.injEq]

theorem fetch_eq_error {memory : Memory} {pc : Nat} {f : Fault} (h : fetch memory pc = .error f) :
    (∃ e, f = .memory e) ∨ ∃ b, f = .unknownOpcode b := by
  unfold fetch at h
  split at h
  · cases h
    exact .inl ⟨_, rfl⟩
  · split at h
    · cases h
      exact .inl ⟨_, rfl⟩
    · split at h
      · cases h
        exact .inr ⟨_, rfl⟩
      · obtain ⟨t, eq⟩ := Opcode.withOperand_eq_error h
        cases got : memory.get t (pc + 1) with
        | error e =>
          rw [got] at eq
          cases eq
          exact .inl ⟨_, rfl⟩
        | ok v =>
          rw [got] at eq
          cases eq

theorem due_eq_error {m : Machine} {e : MachineError} (h : m.due = .error e) :
    (∃ limit, m.exhausted? = some limit ∧ e = .stepLimitExceeded m.pc limit) ∨
    m.exhausted? = none ∧ ∃ f, fetch m.memory m.pc = .error f ∧ e = f.located m.pc := by
  unfold due at h
  cases budget : m.exhausted? with
  | some limit =>
    rw [budget] at h
    exact .inl ⟨limit, rfl, (Except.error.inj h).symm⟩
  | none =>
    rw [budget] at h
    cases fetched : fetch m.memory m.pc with
    | error f =>
      rw [fetched] at h
      exact .inr ⟨rfl, f, rfl, (Except.error.inj h).symm⟩
    | ok i =>
      rw [fetched] at h
      cases h

theorem latch_of_due {m : Machine} {e : MachineError} (h : m.due = .error e) :
    e.latch = .active := by
  obtain ⟨limit, -, rfl⟩ | ⟨-, f, fetched, rfl⟩ := due_eq_error h
  · rfl
  · rw [Fault.latch_located]
    obtain ⟨e, rfl⟩ | ⟨b, rfl⟩ := fetch_eq_error fetched <;> rfl

theorem pc?_of_due {m : Machine} {e : MachineError} (h : m.due = .error e) : e.pc? = some m.pc := by
  obtain ⟨limit, -, rfl⟩ | ⟨-, f, -, rfl⟩ := due_eq_error h
  · rfl
  · exact f.pc?_located m.pc

/-- The machine after a step that executes nothing. -/
def refused (m : Machine) (e : MachineError) : Machine := { m with status := .faulted e }

/-- The machine after a step whose instruction fails. -/
def undone (m : Machine) (f : Fault) : Machine :=
  { m with
    store.stack.latch := f.latch
    status := .faulted (f.located m.pc)
    steps := m.steps + 1 }

variable [FloatUnit]

/-- The machine after a step whose instruction succeeds. -/
def done (m : Machine) (i : Instruction) : Machine :=
  { m with
    store := i.after m.pc m.store
    pc := (i.flow m.store).pc m.pc i.size
    status := (i.flow m.store).status
    steps := m.steps + 1 }

inductive Transition (m : Machine) : Machine → Event → Prop where
  | refused {e : MachineError} : m.due = .error e →
      Transition m (m.refused e) ⟨m.pc, none, m.stack.pointer, .faulted e⟩
  | undone {i : Instruction} {f : Fault} : m.due = .ok i → i.fault? m.store = some f →
      Transition m (m.undone f) ⟨m.pc, some i, m.stack.pointer, .faulted (f.located m.pc)⟩
  | done {i : Instruction} : m.due = .ok i → i.fault? m.store = none →
      Transition m (m.done i)
        ⟨m.pc, some i, (m.done i).stack.pointer, (i.flow m.store).status⟩

theorem Transition.faulted_iff {m after : Machine} {i : Instruction} {event : Event}
    {e : MachineError} (due : m.due = .ok i) (t : m.Transition after event) :
    after.status = .faulted e ↔ ∃ f, i.fault? m.store = some f ∧ e = f.located m.pc := by
  cases t with
  | refused refusal => exact nomatch due.symm.trans refusal
  | undone due' fault =>
    obtain rfl := Except.ok.inj (due.symm.trans due')
    change Status.faulted _ = .faulted e ↔ _
    simp [fault, eq_comm]
  | done due' clear =>
    obtain rfl := Except.ok.inj (due.symm.trans due')
    refine iff_of_false (Flow.status_ne_faulted _ e) ?_
    simp [clear]

theorem Transition.steps_eq {m after : Machine} {event : Event} (t : m.Transition after event) :
    after.steps = event.executed?.toList.length + m.steps := by
  cases t with
  | refused _ => exact (Nat.zero_add _).symm
  | undone _ _ | done _ _ => exact Nat.add_comm _ _

theorem step_of_running {m : Machine} (running : m.status = .running) :
    m.step = (m.stepRunning.1, some m.stepRunning.2) := by
  unfold step
  rw [running]

theorem execute_of_ok {m : Machine} {i : Instruction} {flow : Flow} {store : Store}
    (h : i.effect m.pc m.store = .ok flow store) :
    m.execute i = (⟨store, flow.pc m.pc i.size, flow.status, m.steps + 1, m.maxSteps⟩,
      ⟨m.pc, some i, store.stack.pointer, flow.status⟩) := by
  obtain ⟨before, pc, status, steps, maxSteps⟩ := m
  simp only [execute, h]
  cases flow <;> rfl

theorem execute_of_error {m : Machine} (live : m.store.Live) {i : Instruction} {f : Fault}
    {pointer : Nat} (h : i.effect m.pc m.store =
      .error f ⟨m.memory, { m.stack with pointer, latch := f.latch }⟩) :
    m.execute i =
      (m.undone f, ⟨m.pc, some i, m.stack.pointer, .faulted (f.located m.pc)⟩) := by
  obtain ⟨before, pc, status, steps, maxSteps⟩ := m
  simp only [execute, h, Store.rewind, Nat.min_eq_left live.pointer_le, undone]

theorem transition {m : Machine} (live : m.store.Live) :
    m.Transition m.stepRunning.1 m.stepRunning.2 := by
  cases due : m.due with
  | error e =>
    have eq : m.stepRunning = m.fail none e := by
      unfold stepRunning
      obtain ⟨limit, budget, rfl⟩ | ⟨budget, f, fetched, rfl⟩ := due_eq_error due
      · rw [budget]
      · rw [budget, fetched]
    rw [eq]
    exact .refused due
  | ok i =>
    obtain ⟨budget, fetched⟩ := due_eq_ok_iff.1 due
    have eq : m.stepRunning = m.execute i := by
      unfold stepRunning
      rw [budget, fetched]
    rw [eq]
    have meets := i.effect_meets live m.pc
    cases fault : i.fault? m.store with
    | some f =>
      rw [fault] at meets
      obtain ⟨pointer, eq⟩ := meets
      rw [execute_of_error live eq]
      exact .undone due fault
    | none =>
      rw [fault] at meets
      rw [execute_of_ok meets]
      exact .done due fault

end Machine
end ByteMachine
