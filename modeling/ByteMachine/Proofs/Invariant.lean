import ByteMachine.Proofs.Transition

/-! The invariant of all reachable machines: the window ends where the memory of the configured
size does, the pointer is inside, the latch is the one that goes with the status, and the steps
stay within the budget. A machine whose stack has latched has stopped, so that nothing is ever
blocked. -/
namespace ByteMachine

theorem Config.validate_eq_ok_iff {c : Config} :
    c.validate = .ok () ↔ c.stackSize ≤ c.memorySize ∧ c.memorySize < Memory.addressLimit := by
  unfold validate
  split
  · next valid => exact iff_of_true rfl valid
  · next invalid => exact iff_of_false (nomatch ·) invalid

namespace Machine

structure Sound (c : Config) (m : Machine) : Prop where
  addressable : c.memorySize < Memory.addressLimit
  memory_size : m.memory.size = c.memorySize
  stack_size : m.stack.size = c.stackSize
  base_add_size : m.stack.base + m.stack.size = c.memorySize
  pointer_le : m.stack.pointer ≤ m.stack.size
  latch_eq : m.stack.latch = m.status.latch
  maxSteps_eq : m.maxSteps = c.maxSteps

variable {c : Config} {m : Machine}

theorem ofConfig_eq_ok_iff : ofConfig c = .ok m ↔
    (c.stackSize ≤ c.memorySize ∧ c.memorySize < Memory.addressLimit) ∧
      m = ⟨⟨.zero c.memorySize, .atTop c.memorySize c.stackSize⟩, 0, .running, 0, c.maxSteps⟩ := by
  rw [← Config.validate_eq_ok_iff]
  unfold ofConfig
  cases c.validate with
  | error e => simp
  | ok u => simp [eq_comm]

theorem load_eq_ok_iff {program : List UInt8} {loaded : Machine} :
    m.load program = .ok loaded ↔ program.length ≤ m.memory.size ∧
      loaded = { m with store.memory := m.memory.overwrite 0 program } := by
  unfold load
  split
  · next large => exact iff_of_false (nomatch ·) fun h => Nat.not_le.2 large h.1
  · next fits =>
    rw [Except.ok.injEq, and_iff_right (Nat.le_of_not_lt fits)]
    exact eq_comm

theorem sound_ofConfig (h : ofConfig c = .ok m) : m.Sound c := by
  obtain ⟨⟨fits, addressable⟩, rfl⟩ := ofConfig_eq_ok_iff.1 h
  exact {
    addressable
    memory_size := Memory.size_zero _
    stack_size := rfl
    base_add_size := Nat.sub_add_cancel fits
    pointer_le := Nat.zero_le _
    latch_eq := rfl
    maxSteps_eq := rfl }

namespace Sound

theorem live (sound : m.Sound c) (running : m.status = .running) : m.store.Live where
  base_add_size := sound.base_add_size.trans sound.memory_size.symm
  pointer_le := sound.pointer_le
  addressable := sound.memory_size.symm ▸ sound.addressable
  active := by
    rw [sound.latch_eq, running]
    rfl

theorem setPc (sound : m.Sound c) (pc : Nat) : (m.setPc pc).Sound c := { sound with }

theorem load {program : List UInt8} {loaded : Machine} (sound : m.Sound c)
    (h : m.load program = .ok loaded) : loaded.Sound c := by
  obtain ⟨-, rfl⟩ := load_eq_ok_iff.1 h
  exact { sound with memory_size := (Memory.size_overwrite ..).trans sound.memory_size }

variable [FloatUnit]

theorem transition {m' : Machine} {e : Event} (sound : m.Sound c) (running : m.status = .running)
    (t : m.Transition m' e) : m'.Sound c := by
  cases t with
  | refused due =>
    have latch : m.stack.latch = .active := (sound.live running).active
    exact { sound with latch_eq := latch.trans (latch_of_due due).symm }
  | undone _ _ => exact { sound with latch_eq := (Fault.latch_located ..).symm }
  | @done i _ clear =>
    obtain ⟨-, -, fits⟩ := Instruction.fault?_eq_none_iff.1 clear
    refine { sound with memory_size := ?_, pointer_le := fits, latch_eq := ?_ }
    · exact (Memory.size_overwrite ..).trans sound.memory_size
    · refine (sound.live running).active.trans ?_
      change Latch.active = (i.flow m.store).status.latch
      cases i.flow m.store <;> rfl

theorem exists_transition (sound : m.Sound c) (running : m.status = .running) :
    ∃ m' event, m.step = (m', some event) ∧ m.Transition m' event :=
  ⟨_, _, step_of_running running, Machine.transition (sound.live running)⟩

theorem step_eq_done {i : Instruction} (sound : m.Sound c) (running : m.status = .running)
    (due : m.due = .ok i) (clear : i.fault? m.store = none) : m.step.1 = m.done i := by
  obtain ⟨m', event, moved, t⟩ := sound.exists_transition running
  rw [moved]
  cases t with
  | refused refusal => exact nomatch due.symm.trans refusal
  | undone due' fault =>
    obtain rfl := Except.ok.inj (due.symm.trans due')
    exact nomatch clear.symm.trans fault
  | done due' _ =>
    obtain rfl := Except.ok.inj (due.symm.trans due')
    rfl

theorem step_eq_undone {i : Instruction} {f : Fault} (sound : m.Sound c)
    (running : m.status = .running) (due : m.due = .ok i) (fault : i.fault? m.store = some f) :
    m.step.1 = m.undone f := by
  obtain ⟨m', event, moved, t⟩ := sound.exists_transition running
  rw [moved]
  cases t with
  | refused refusal => exact nomatch due.symm.trans refusal
  | undone due' fault' =>
    obtain rfl := Except.ok.inj (due.symm.trans due')
    obtain rfl := Option.some.inj (fault.symm.trans fault')
    rfl
  | done due' clear =>
    obtain rfl := Except.ok.inj (due.symm.trans due')
    exact nomatch clear.symm.trans fault

theorem keeps_step {P : Machine → Prop} (sound : m.Sound c)
    (moves : ∀ {m' : Machine} {e : Event},
      m.status = .running → m.Transition m' e → P m → P m') (h : P m) : P m.step.1 := by
  by_cases running : m.status = .running
  · rw [step_of_running running]
    exact moves running (Machine.transition (sound.live running)) h
  · rw [step_of_ne_running running]
    exact h

theorem step (sound : m.Sound c) : m.step.1.Sound c :=
  sound.keeps_step (fun running t sound => sound.transition running t) sound

theorem after (sound : m.Sound c) (n : Nat) : (m.after n).Sound c :=
  keeps_after (fun _ sound => sound.step) n sound

theorem length_executed (sound : m.Sound c) (n : Nat) :
    (m.executed n).length + m.steps = (m.after n).steps := by
  induction n generalizing m with
  | zero => exact Nat.zero_add _
  | succ n ih =>
    have more := ih sound.step
    by_cases running : m.status = .running
    · have counted := (Machine.transition (sound.live running)).steps_eq
      have step := step_of_running running
      simp only [step] at more
      simp only [executed, Machine.after, step, Option.bind_some, List.length_append]
      omega
    · rw [executed_of_ne_running _ running, after_of_ne_running _ running]
      exact Nat.zero_add _

end Sound
end Machine

namespace Session

variable [FloatUnit] {c : Config} {s : Session}

theorem Reachable.sound (reached : Reachable c s) : s.machine.Sound c := by
  induction reached with
  | start sink h => exact Machine.sound_ofConfig h
  | call k _ h ih =>
    exact keeps_call (fun loads sound => sound.load loads) (fun _ pc sound => sound.setPc pc)
      (fun _ sound => sound.step) h ih

theorem Reachable.keeps {P : Machine → Prop}
    (fresh : ∀ {m : Machine}, Machine.ofConfig c = .ok m → P m)
    (load : ∀ {m loaded : Machine} {program : List UInt8}, m.load program = .ok loaded →
      P m → P loaded)
    (setPc : ∀ (m : Machine) (pc : Nat), P m → P (m.setPc pc))
    (step : ∀ {m m' : Machine} {e : Event}, m.Transition m' e → P m → P m')
    (reached : Reachable c s) : P s.machine := by
  induction reached with
  | start sink h => exact fresh h
  | call k before h ih =>
    have both := keeps_call (P := fun m => m.Sound c ∧ P m)
      (fun loads both => ⟨both.1.load loads, load loads both.2⟩)
      (fun m pc both => ⟨both.1.setPc pc, setPc m pc both.2⟩)
      (fun m both => ⟨both.1.step, both.1.keeps_step (fun _ t => step t) both.2⟩)
      h ⟨before.sound, ih⟩
    exact both.2

end Session

namespace Machine

variable [FloatUnit] {c : Config} {m m' : Machine} {event : Event}

/-- No more steps counted than the machine itself allows. -/
def WithinBudget (m : Machine) : Prop := ∀ limit, m.maxSteps = some limit → m.steps ≤ limit

theorem Transition.withinBudget (t : m.Transition m' event) (h : m.WithinBudget) :
    m'.WithinBudget := by
  intro limit budget
  cases t with
  | refused _ => exact h limit budget
  | undone due _ | done due _ =>
    have unspent := (due_eq_ok_iff.1 due).1
    apply Nat.lt_of_not_le
    intro spent
    rw [exhausted?_eq_some_iff (m := m) |>.2 ⟨budget, spent⟩] at unspent
    cases unspent

theorem Transition.ne_blocked (t : m.Transition m' event) (pc : Nat) :
    m'.status ≠ .faulted (.blocked pc) := by
  intro blocked
  cases t with
  | refused due =>
    cases blocked
    obtain ⟨limit, -, eq⟩ | ⟨-, f, fetched, eq⟩ := due_eq_error due
    · cases eq
    · obtain ⟨e, rfl⟩ | ⟨b, rfl⟩ := fetch_eq_error fetched <;> cases eq
  | @undone i f due fault =>
    replace blocked : f.located m.pc = .blocked pc := Status.faulted.inj blocked
    obtain ⟨-, rfl⟩ | ⟨-, check | ⟨-, -, rfl⟩⟩ := Instruction.fault?_eq_some_iff.1 fault
    · cases blocked
    · obtain ⟨e, rfl | rfl⟩ | rfl | ⟨address, rfl⟩ := Instruction.check?_eq_some check
      all_goals cases blocked
    · cases blocked
  | done due clear => exact Flow.status_ne_faulted _ _ blocked

/-- All that is to be relied on in a machine of a configuration. -/
structure Invariant (c : Config) (m : Machine) : Prop extends m.Sound c where
  steps_le : ∀ limit, c.maxSteps = some limit → m.steps ≤ limit
  contents_eq : m.store.contents = (m.memory.bytes.toList.drop m.stack.base).take m.stack.pointer
  length_contents : m.store.contents.length = m.stack.pointer
  overflowed_iff : m.stack.latch = .overflowed ↔ ∃ pc, m.status = .faulted (.stackOverflow pc)
  underflowed_iff : m.stack.latch = .underflowed ↔ ∃ pc, m.status = .faulted (.stackUnderflow pc)
  unblocked : ∀ pc, m.status ≠ .faulted (.blocked pc)

end Machine

theorem Status.latch_eq_overflowed_iff {status : Status} :
    status.latch = .overflowed ↔ ∃ pc, status = .faulted (.stackOverflow pc) := by
  cases status with
  | faulted e => cases e <;> simp [latch, MachineError.latch]
  | _ => simp [latch]

theorem Status.latch_eq_underflowed_iff {status : Status} :
    status.latch = .underflowed ↔ ∃ pc, status = .faulted (.stackUnderflow pc) := by
  cases status with
  | faulted e => cases e <;> simp [latch, MachineError.latch]
  | _ => simp [latch]

namespace Session

variable {c : Config} {s : Session}

section

variable [FloatUnit]

theorem Reachable.withinBudget (reached : Reachable c s) : s.machine.WithinBudget := by
  apply reached.keeps (P := Machine.WithinBudget)
  case fresh =>
    intro m made limit _
    obtain ⟨-, rfl⟩ := Machine.ofConfig_eq_ok_iff.1 made
    exact Nat.zero_le limit
  case load =>
    intro m loaded program loads within
    obtain ⟨-, rfl⟩ := Machine.load_eq_ok_iff.1 loads
    exact within
  case setPc => exact fun _ _ within => within
  case step => exact fun t within => t.withinBudget within

theorem Reachable.ne_blocked (reached : Reachable c s) :
    ∀ pc, s.machine.status ≠ .faulted (.blocked pc) := by
  apply reached.keeps (P := fun m => ∀ pc, m.status ≠ .faulted (.blocked pc))
  case fresh =>
    intro m made pc
    obtain ⟨-, rfl⟩ := Machine.ofConfig_eq_ok_iff.1 made
    simp
  case load =>
    intro m loaded program loads free
    obtain ⟨-, rfl⟩ := Machine.load_eq_ok_iff.1 loads
    exact free
  case setPc => exact fun _ _ free => free
  case step => exact fun t _ => t.ne_blocked

theorem Reachable.invariant (reached : Reachable c s) : s.machine.Invariant c := by
  have sound := reached.sound
  have inside : s.machine.stack.base + s.machine.stack.pointer ≤ s.machine.memory.size := by
    have := sound.base_add_size
    have := sound.memory_size
    have := sound.pointer_le
    omega
  exact {
    toSound := sound
    steps_le := fun limit budget => reached.withinBudget limit (sound.maxSteps_eq.trans budget)
    contents_eq := Memory.slice_eq_take_drop _ _ _
    length_contents := Memory.length_slice inside
    overflowed_iff := by rw [sound.latch_eq, Status.latch_eq_overflowed_iff]
    underflowed_iff := by rw [sound.latch_eq, Status.latch_eq_underflowed_iff]
    unblocked := reached.ne_blocked }

theorem machine_invariant (c : Config) :
    ((∃ m, Machine.ofConfig c = .ok m) ↔
      c.stackSize ≤ c.memorySize ∧ c.memorySize < Memory.addressLimit) ∧
    ∀ s, Reachable c s → s.machine.Invariant c ∧
      (∀ pc, s.step.machine.status ≠ .faulted (.blocked pc)) ∧
      ∀ fuel t pc, s.run? fuel = some t → t.machine.status ≠ .faulted (.blocked pc) := by
  constructor
  · constructor
    · intro made
      obtain ⟨m, made⟩ := made
      exact (Machine.ofConfig_eq_ok_iff.1 made).1
    · intro valid
      exact ⟨_, Machine.ofConfig_eq_ok_iff.2 ⟨valid, rfl⟩⟩
  · intro s reached
    refine ⟨reached.invariant, ?_, ?_⟩
    · exact (Reachable.call .step reached rfl).ne_blocked
    · intro fuel t pc runs
      exact (Reachable.call (.run fuel) reached runs).ne_blocked pc

end

/-- A stack with room for one byte, after the second of two. -/
theorem overflowed_invariant : ∃ s, Reachable ⟨64, 1, some 2⟩ s ∧
    s.machine.status = .faulted (.stackOverflow 2) ∧ s.machine.Invariant ⟨64, 1, some 2⟩ ∧
    s.machine.stack.latch = .overflowed ∧ s.machine.steps ≤ 2 ∧
    ∀ pc, s.step.machine.status ≠ .faulted (.blocked pc) := by
  have reached : Reachable ⟨64, 1, some 2⟩ _ :=
    (Reachable.loaded [0x08, 1, 0x08, 2] .silent rfl rfl).advance 2
  have invariant := (machine_invariant ⟨64, 1, some 2⟩).2 _ reached
  refine ⟨_, reached, ?overflow, invariant.1, invariant.1.overflowed_iff.2 ⟨2, ?overflow⟩,
    invariant.1.steps_le 2 rfl, invariant.2.1⟩
  case overflow => decide +kernel

end Session
end ByteMachine
