import ByteMachine.Proofs.Invariant

/-! Exactly when an instruction fails and with what error, and what it does to the stack pointer
otherwise. -/
namespace ByteMachine

/-- Only an instruction that takes nothing can run out of room. -/
theorem Instruction.pushes_le_pops (i : Instruction) (h : i.pops ≠ 0) : i.pushes ≤ i.pops := by
  cases i with
  | pop t | putAddress t _ | putStack t _ | branchAddress _ t _ | put t | branch _ t =>
    exact Nat.zero_le _
  | get t => exact t.width_le
  | arith _ t => exact Nat.le_mul_of_pos_left _ (by decide)
  | compare _ t => exact Nat.le_trans t.width_pos (Nat.le_mul_of_pos_left _ (by decide))
  | bitwise _ => exact Nat.le_succ 1
  | not | ret | call => decide
  | halt | push _ _ | getAddress _ _ | getStack _ _ | jmp _ | callAddress _ => exact absurd rfl h

/-- How a machine whose next instruction is `i` comes out of the step. The operands are looked
for first, then the check is made, and then a result that is not just put in their place needs
room. -/
structure Instruction.Outcome (i : Instruction) (m after : Machine) : Prop where
  faulted_iff : ∀ e, after.status = .faulted e ↔
    m.stack.pointer < i.pops ∧ e = .stackUnderflow m.pc ∨
    i.pops ≤ m.stack.pointer ∧ (∃ f, i.check? m.store = some f ∧ e = f.located m.pc) ∨
    i.pops = 0 ∧ i.check? m.store = none ∧ m.stack.size < m.stack.pointer + i.pushes ∧
      e = .stackOverflow m.pc
  underflow_iff : after.status = .faulted (.stackUnderflow m.pc) ↔ m.stack.pointer < i.pops
  overflow_iff : after.status = .faulted (.stackOverflow m.pc) ↔
    i.pops = 0 ∧ i.check? m.store = none ∧ m.stack.size < m.stack.pointer + i.pushes
  of_faulted : ∀ e, after.status = .faulted e → after.stack.pointer = m.stack.pointer
  otherwise : (∀ e, after.status ≠ .faulted e) →
    after.status = (if i = .halt then .halted else .running) ∧ i.pops ≤ m.stack.pointer ∧
      after.stack.pointer = m.stack.pointer - i.pops + i.pushes

namespace Machine

variable {c : Config} {m after : Machine} {i : Instruction} {event : Event}

theorem Sound.overflow_iff (sound : m.Sound c) :
    i.pops ≤ m.stack.pointer ∧ m.stack.size < m.stack.pointer - i.pops + i.pushes ↔
      i.pops = 0 ∧ m.stack.size < m.stack.pointer + i.pushes := by
  have inside := sound.pointer_le
  by_cases none : i.pops = 0
  · rw [none]
    simp
  · have smaller := i.pushes_le_pops none
    omega

theorem check?_ne_latching {f : Fault} (h : i.check? m.store = some f) :
    f.located m.pc ≠ .stackUnderflow m.pc ∧ f.located m.pc ≠ .stackOverflow m.pc := by
  obtain ⟨e, rfl | rfl⟩ | rfl | ⟨address, rfl⟩ := Instruction.check?_eq_some h
  all_goals exact ⟨nofun, nofun⟩

variable [FloatUnit]

theorem Transition.faulted_cases (sound : m.Sound c) (due : m.due = .ok i)
    (t : m.Transition after event) (e : MachineError) : after.status = .faulted e ↔
      m.stack.pointer < i.pops ∧ e = .stackUnderflow m.pc ∨
      i.pops ≤ m.stack.pointer ∧ (∃ f, i.check? m.store = some f ∧ e = f.located m.pc) ∨
      i.pops = 0 ∧ i.check? m.store = none ∧ m.stack.size < m.stack.pointer + i.pushes ∧
        e = .stackOverflow m.pc := by
  rw [t.faulted_iff due]
  have room := sound.overflow_iff (i := i)
  constructor
  · rintro ⟨f, fault, rfl⟩
    obtain ⟨short, rfl⟩ | ⟨enough, check | ⟨check, full, rfl⟩⟩ :=
      Instruction.fault?_eq_some_iff.1 fault
    · exact .inl ⟨short, rfl⟩
    · exact .inr (.inl ⟨enough, f, check, rfl⟩)
    · obtain ⟨nothing, full⟩ := room.1 ⟨enough, full⟩
      exact .inr (.inr ⟨nothing, check, full, rfl⟩)
  · rintro (⟨short, rfl⟩ | ⟨enough, f, check, rfl⟩ | ⟨nothing, check, full, rfl⟩)
    · exact ⟨.stack .underflow, Instruction.fault?_eq_some_iff.2 (.inl ⟨short, rfl⟩), rfl⟩
    · exact ⟨f, Instruction.fault?_eq_some_iff.2 (.inr ⟨enough, .inl check⟩), rfl⟩
    · obtain ⟨enough, full⟩ := room.2 ⟨nothing, full⟩
      exact ⟨.stack .overflow,
        Instruction.fault?_eq_some_iff.2 (.inr ⟨enough, .inr ⟨check, full, rfl⟩⟩), rfl⟩

theorem Transition.outcome (sound : m.Sound c) (due : m.due = .ok i)
    (t : m.Transition after event) : i.Outcome m after where
  faulted_iff := t.faulted_cases sound due
  underflow_iff := by
    rw [t.faulted_cases sound due]
    constructor
    · rintro (⟨short, -⟩ | ⟨-, f, check, eq⟩ | ⟨-, -, -, eq⟩)
      · exact short
      · exact absurd eq.symm (check?_ne_latching check).1
      · cases eq
    · intro short
      exact .inl ⟨short, rfl⟩
  overflow_iff := by
    rw [t.faulted_cases sound due]
    constructor
    · rintro (⟨-, eq⟩ | ⟨-, f, check, eq⟩ | ⟨nothing, check, full, -⟩)
      · cases eq
      · exact absurd eq.symm (check?_ne_latching check).2
      · exact ⟨nothing, check, full⟩
    · rintro ⟨nothing, check, full⟩
      exact .inr (.inr ⟨nothing, check, full, rfl⟩)
  of_faulted := by
    intro e faulted
    cases t with
    | refused _ | undone _ _ => rfl
    | done _ _ => exact absurd faulted (Flow.status_ne_faulted _ e)
  otherwise := by
    intro clear
    cases t with
    | refused _ | undone _ _ => exact absurd rfl (clear _)
    | done due' ok =>
      obtain rfl := Except.ok.inj (due.symm.trans due')
      exact ⟨i.flow_status m.store, (Instruction.fault?_eq_none_iff.1 ok).1, rfl⟩

end Machine

namespace Session

theorem step_outcome [FloatUnit] {c : Config} {s : Session} {i : Instruction}
    (reached : Reachable c s) (running : s.machine.status = .running)
    (budget : s.machine.exhausted? = none)
    (fetched : Machine.fetch s.machine.memory s.machine.pc = .ok i) :
    i.Outcome s.machine s.step.machine := by
  have sound := reached.sound
  have due : s.machine.due = .ok i := Machine.due_eq_ok_iff.2 ⟨budget, fetched⟩
  rw [machine_step, Machine.step_of_running running]
  exact (Machine.transition (sound.live running)).outcome sound due

/-- Of the eight bytes at address 57, one lies beyond a memory of 64. -/
theorem get_across_end_outcome : ∃ s, Reachable ⟨64, 16, none⟩ s ∧
    s.machine.status = .running ∧ s.machine.exhausted? = none ∧
    Machine.fetch s.machine.memory s.machine.pc = .ok (.get .int) ∧
    (Instruction.get .int).Outcome s.machine s.step.machine ∧
    s.step.machine.status = .faulted (.memory 9 ⟨57, 8, 64⟩) := by
  have reached : Reachable ⟨64, 16, none⟩ _ :=
    (Reachable.loaded [0x09, 57, 0, 0, 0, 0, 0, 0, 0, 0x11] .silent rfl rfl).advance 1
  refine ⟨_, reached, ?running, ?budget, ?fetched,
    step_outcome reached ?running ?budget ?fetched, ?failed⟩
  case running => decide +kernel
  case budget => decide +kernel
  case fetched => rfl
  case failed => decide +kernel

end Session
end ByteMachine
