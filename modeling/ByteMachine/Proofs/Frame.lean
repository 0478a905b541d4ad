import ByteMachine.Proofs.Invariant

/-! Which bytes an instruction may write, and that it leaves all others alone. Program, data and
stack share one memory; what keeps them apart is that only `put` writes outside the window, and
that nothing but a store reaches below the operands of its own instruction. -/
namespace ByteMachine

instance decidableEqExcept {ε α : Type} [DecidableEq ε] [DecidableEq α] :
    DecidableEq (Except ε α)
  | .ok a, .ok b => decidable_of_iff (a = b) (by rw [Except.ok.injEq])
  | .error e, .error f => decidable_of_iff (e = f) (by rw [Except.error.injEq])
  | .ok _, .error _ => isFalse fun h => by cases h
  | .error _, .ok _ => isFalse fun h => by cases h

namespace Instruction

/-- Whether the instruction stores at an address of the whole memory. -/
def isPut : Instruction → Bool
  | put _ | putAddress _ _ => true
  | _ => false

/-- Whether the instruction stores a value instead of pushing one. -/
def isStore : Instruction → Bool
  | put _ | putAddress _ _ | putStack _ _ => true
  | _ => false

/-- The first address that is written: the one given, the slot given once the value is popped, or
the slot of the lowest operand. -/
def writeStart (i : Instruction) (s : Store) : Int :=
  match i with
  | put _ => (s.operand .int 8).toInt
  | putAddress _ address => address.toInt
  | putStack t offset => s.stack.base + s.stack.pointer - t.width + offset.toInt
  | _ => s.stack.base + s.stack.pointer - i.pops

/-- How many bytes are written. -/
def writeLength : Instruction → Nat
  | put t | putAddress t _ | putStack t _ => t.width
  | i => i.pushes

def Writes (i : Instruction) (s : Store) (address : Nat) : Prop :=
  i.writeStart s ≤ address ∧ address < i.writeStart s + i.writeLength

variable {i : Instruction} {s : Store}

theorem place_eq_writeStart (clear : i.fault? s = none) : (i.place s : Int) = i.writeStart s := by
  obtain ⟨enough, check, -⟩ := fault?_eq_none_iff.1 clear
  cases i with
  | put t =>
    have inside := Store.outside?_eq_none_iff.1 check
    exact Int.toNat_of_nonneg inside.1
  | putAddress t address =>
    have inside := Store.outside?_eq_none_iff.1 check
    exact Int.toNat_of_nonneg inside.1
  | putStack t offset =>
    have inside := Store.outsideWindow?_eq_none_iff.1 check
    simp only [Store.pointer_drop, pops] at inside enough
    simp only [place, writeStart]
    omega
  | _ =>
    simp only [place, writeStart]
    omega

theorem length_data [FloatUnit] (pc : Nat) (clear : i.fault? s = none) :
    (i.data pc s).length = i.writeLength := by
  obtain ⟨-, check, -⟩ := fault?_eq_none_iff.1 clear
  cases i with
  | push t _ | get t | put t | getAddress t _ | putAddress t _ | getStack t _ | putStack t _ =>
    exact Ty.length_encode _
  | arith op t =>
    cases result : op.eval t (s.operand t (2 * t.width)) (s.operand t t.width) with
    | none =>
      rw [check?, if_pos (ArithOp.eval_eq_none_iff.1 result)] at check
      cases check
    | some r =>
      simp only [data, result]
      exact Ty.length_encode r
  | call | callAddress _ => exact Ty.length_encode (t := .int) _
  | _ => rfl

theorem window_of_not_isPut (live : s.Live) (clear : i.fault? s = none) (h : i.isPut = false) :
    s.stack.base ≤ i.writeStart s ∧ i.writeStart s + i.writeLength ≤ s.memory.size := by
  obtain ⟨enough, check, fits⟩ := fault?_eq_none_iff.1 clear
  have window := live.base_add_size
  cases i with
  | put _ | putAddress _ _ => cases h
  | putStack t offset =>
    have inside := Store.outsideWindow?_eq_none_iff.1 check
    simp only [Store.pointer_drop, Store.size_drop, pops] at inside enough
    simp only [writeStart, writeLength]
    omega
  | _ =>
    simp only [writeStart, writeLength]
    omega

theorem le_of_writes {slot : Nat} (h : i.isStore = false)
    (writes : i.Writes s (s.stack.base + slot)) : s.stack.pointer ≤ slot + i.pops := by
  have above := writes.1
  cases i with
  | put _ | putAddress _ _ | putStack _ _ => cases h
  | _ =>
    simp only [writeStart] at above
    omega

end Instruction

namespace Machine

variable [FloatUnit]

/-- The next step executes the instruction, and it does not fail. -/
structure Completes (m : Machine) (i : Instruction) : Prop where
  running : m.status = .running
  due : m.due = .ok i
  unfailed : ∀ e, m.step.1.status ≠ .faulted e

instance (status : Status) : Decidable (∀ e, status ≠ .faulted e) :=
  match status with
  | .running => isTrue (Flow.status_ne_faulted .next)
  | .halted => isTrue (Flow.status_ne_faulted .halt)
  | .faulted e => isFalse fun unfailed => unfailed e rfl

instance (m : Machine) (i : Instruction) : Decidable (m.Completes i) :=
  decidable_of_iff
    (m.status = .running ∧ m.due = .ok i ∧ ∀ e, m.step.1.status ≠ .faulted e)
    ⟨fun h => ⟨h.1, h.2.1, h.2.2⟩, fun h => ⟨h.running, h.due, h.unfailed⟩⟩

variable {c : Config} {m m' : Machine} {i : Instruction} {event : Event} {address slot n : Nat}

theorem Completes.unique {j : Instruction} (first : m.Completes i) (second : m.Completes j) :
    i = j := Except.ok.inj (first.due.symm.trans second.due)

theorem getElem?_done (clear : i.fault? m.store = none) (outside : ¬ i.Writes m.store address) :
    (m.done i).memory.bytes[address]? = m.memory.bytes[address]? := by
  have place := Instruction.place_eq_writeStart clear
  have length := Instruction.length_data m.pc clear
  change (m.memory.overwrite _ _).bytes[address]? = _
  rw [Memory.getElem?_overwrite, if_neg]
  intro inside
  apply outside
  constructor <;> omega

namespace Sound

variable (sound : m.Sound c)
include sound

theorem step_cases : (∃ i, m.Completes i ∧ i.fault? m.store = none ∧ m.step.1 = m.done i) ∨
    m.step.1.memory = m.memory ∧ m.step.1.stack.pointer = m.stack.pointer ∧
      m.step.1.pc = m.pc := by
  by_cases running : m.status = .running
  · obtain ⟨m', event, moved, t⟩ := sound.exists_transition running
    cases t with
    | refused _ | undone _ _ =>
      rw [moved]
      exact .inr ⟨rfl, rfl, rfl⟩
    | @done i due clear =>
      refine .inl ⟨i, ⟨running, due, ?_⟩, clear, congrArg Prod.fst moved⟩
      intro e
      rw [moved]
      exact Flow.status_ne_faulted _ e
  · rw [step_of_ne_running running]
    exact .inr ⟨rfl, rfl, rfl⟩

theorem of_completes (h : m.Completes i) : i.fault? m.store = none ∧ m.step.1 = m.done i := by
  have unfailed := h.unfailed
  obtain ⟨m', event, moved, t⟩ := sound.exists_transition h.running
  rw [moved] at unfailed ⊢
  cases t with
  | refused _ | undone _ _ => exact absurd rfl (unfailed _)
  | done due clear =>
    obtain rfl := Except.ok.inj (h.due.symm.trans due)
    exact ⟨clear, rfl⟩

omit [FloatUnit] in
theorem base_eq : m.stack.base = c.memorySize - c.stackSize := by
  have := sound.base_add_size
  have := sound.stack_size
  omega

theorem getElem?_after
    (outside : ∀ k < n, ∀ i, (m.after k).Completes i → ¬ i.Writes (m.after k).store address) :
    (m.after n).memory.bytes[address]? = m.memory.bytes[address]? := by
  induction n with
  | zero => rfl
  | succ n ih =>
    have before := ih fun k lt => outside k (Nat.lt_succ_of_lt lt)
    rw [after_succ, ← before]
    obtain ⟨i, completes, clear, eq⟩ | ⟨same, -⟩ := (sound.after n).step_cases
    · rw [eq]
      exact getElem?_done clear (outside n (Nat.lt_succ_self n) i completes)
    · rw [same]

theorem lt_pointer_after (occupied : slot < m.stack.pointer)
    (above : ∀ k < n, ∀ i, (m.after k).Completes i → slot + i.pops < (m.after k).stack.pointer) :
    slot < (m.after n).stack.pointer := by
  induction n with
  | zero => exact occupied
  | succ n ih =>
    have before := ih fun k lt => above k (Nat.lt_succ_of_lt lt)
    rw [after_succ]
    obtain ⟨i, completes, -, eq⟩ | ⟨-, same, -⟩ := (sound.after n).step_cases
    · have enough := above n (Nat.lt_succ_self n) i completes
      rw [eq]
      change slot < (m.after n).stack.pointer - i.pops + i.pushes
      omega
    · rw [same]
      exact before

end Sound
end Machine

namespace Session

variable {c : Config} {s : Session}

theorem write_frame [FloatUnit] (reached : Reachable c s) :
    (∀ i, s.machine.Completes i →
      (∀ address, ¬ i.Writes s.machine.store address →
        s.step.machine.memory.bytes[address]? = s.machine.memory.bytes[address]?) ∧
      (i.isPut = false → s.machine.stack.base ≤ i.writeStart s.machine.store ∧
        i.writeStart s.machine.store + i.writeLength ≤ s.machine.memory.size)) ∧
    (∀ n address, address < s.machine.stack.base →
      (s.advance n).machine.memory.bytes[address]? ≠ s.machine.memory.bytes[address]? →
      ∃ k < n, ∃ i, (s.advance k).machine.Completes i ∧ i.isPut ∧
        i.Writes (s.advance k).machine.store address) ∧
    ∀ n slot, slot < s.machine.stack.pointer →
      (∀ k < n, ∀ i, (s.advance k).machine.Completes i →
        slot + i.pops < (s.advance k).machine.stack.pointer ∧
        (i.isStore → ¬ i.Writes (s.advance k).machine.store (s.machine.stack.base + slot))) →
      slot < (s.advance n).machine.stack.pointer ∧
        (s.advance n).machine.memory.bytes[s.machine.stack.base + slot]? =
          s.machine.memory.bytes[s.machine.stack.base + slot]? := by
  have sound := reached.sound
  simp only [machine_advance, machine_step]
  refine ⟨?step, ?below, ?occupied⟩
  case step =>
    intro i completes
    obtain ⟨clear, eq⟩ := sound.of_completes completes
    constructor
    · intro address outside
      rw [eq]
      exact Machine.getElem?_done clear outside
    · exact Instruction.window_of_not_isPut (sound.live completes.running) clear
  case below =>
    intro n address below changed
    apply Classical.byContradiction
    intro unwritten
    apply changed
    apply sound.getElem?_after
    intro k lt i completes writes
    cases isPut : i.isPut with
    | true => exact unwritten ⟨k, lt, i, completes, isPut, writes⟩
    | false =>
      -- The write stays in the window of that step, which has the same base as this one's.
      have clear := ((sound.after k).of_completes completes).1
      have live := (sound.after k).live completes.running
      have window := (Instruction.window_of_not_isPut live clear isPut).1
      rw [(sound.after k).base_eq, ← sound.base_eq] at window
      have reaches := writes.1
      omega
  case occupied =>
    intro n slot occupied kept
    constructor
    · exact sound.lt_pointer_after occupied fun k lt i completes => (kept k lt i completes).1
    · apply sound.getElem?_after
      intro k lt i completes writes
      obtain ⟨above, apart⟩ := kept k lt i completes
      cases isStore : i.isStore with
      | true => exact apart isStore writes
      | false =>
        rw [sound.base_eq, ← (sound.after k).base_eq] at writes
        exact absurd (Instruction.le_of_writes isStore writes) (Nat.not_le.2 above)

/-- A byte on the stack, over a push and the store of what is pushed at address 32. -/
theorem store_beside_stack : ∃ s, Reachable ⟨64, 16, none⟩ s ∧
    0 < s.machine.stack.pointer ∧
    (s.advance 2).machine.memory.bytes[s.machine.stack.base + 0]? = some 7 ∧
    (s.advance 2).machine.memory.bytes[32]? = some 5 ∧
    ∃ k < 2, ∃ i, (s.advance k).machine.Completes i ∧ i.isPut ∧
      i.Writes (s.advance k).machine.store 32 := by
  have reached : Reachable ⟨64, 16, none⟩ _ :=
    (Reachable.loaded [0x08, 7, 0x08, 5, 0x28, 32, 0, 0, 0, 0, 0, 0, 0, 0x00] .silent rfl
      rfl).advance 1
  obtain ⟨-, below, occupied⟩ := write_frame reached
  refine ⟨_, reached, by decide +kernel, ?stack, by decide +kernel, ?put⟩
  case put => exact below 2 32 (by decide +kernel) (by decide +kernel)
  case stack =>
    refine (occupied 2 0 (by decide +kernel) ?_).2.trans (by decide +kernel)
    intro k lt i completes
    have due := congrArg Except.toOption completes.due
    obtain rfl | rfl : k = 0 ∨ k = 1 := by omega
    · obtain rfl : i = .push .byte 5 := Option.some.inj (due.symm.trans (by decide +kernel))
      exact ⟨by decide +kernel, nofun⟩
    · obtain rfl : i = .putAddress .byte 32 := Option.some.inj (due.symm.trans (by decide +kernel))
      exact ⟨by decide +kernel, fun _ writes => absurd writes.2 (by decide +kernel)⟩

end Session
end ByteMachine
