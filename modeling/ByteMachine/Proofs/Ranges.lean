import ByteMachine.Proofs.Checked
import ByteMachine.Proofs.Fetch

/-! No check of the checked machine ever fails: on what a configuration can lead to, it does what
the machine does. -/
namespace ByteMachine

namespace Checked

theorem word_eq_ok_iff {n : Int} {k : Nat} : word n = .ok k ↔ n = k ∧ k < UInt64.size := by
  unfold word
  split
  · rw [Except.ok.injEq]
    omega
  · exact iff_of_false nofun (by omega)

theorem word_eq {n : Int} {k : Nat} (eq : n = k) (lt : k < UInt64.size) : word n = .ok k :=
  word_eq_ok_iff.2 ⟨eq, lt⟩

theorem int_eq {n : Int} {k : Nat} (eq : n = k) (lt : k < Memory.addressLimit) :
    int n = .ok (k : Int) := by
  subst eq
  exact if_pos (signed_of_lt lt)

theorem bind_ok {α β : Type} (a : α) (k : α → Checked β) : (Except.ok a >>= k) = k a := rfl

theorem mapError_ok {ε : Type} {α : Type} (f : ε → Option Fault) (a : α) :
    (Except.ok a).mapError f = (.ok a : Checked α) := rfl

theorem into_ok {α β : Type} (a : α) (s : Store)
    (k : α → EStateM.Result (Option Fault) Store β) : into (.ok a) s k = k a := rfl

theorem get_eq (m : Memory) (t : Ty) (address : Int) :
    get m t address = (m.get t address).mapError fun e => some (.memory e) := by
  unfold get Memory.get
  cases located : m.locate address t.width with
  | error e => rfl
  | ok start =>
    have inside := (Memory.locate_eq_ok_iff.1 located).2
    have read : slice m start t.width = .ok (m.slice start t.width) := if_pos inside
    have wide : decode t (m.slice start t.width) = .ok (t.decode (m.slice start t.width)) :=
      if_pos (Memory.length_slice inside)
    change (slice m start t.width >>= decode t) = _
    rw [read, bind_ok, wide]
    rfl

theorem put_eq (m : Memory) {t : Ty} (address : Int) (v : t.Val) :
    put m address v = (m.put address v).mapError fun e => some (.memory e) := by
  unfold put Memory.put Memory.writeBytes
  rw [Ty.length_encode]
  cases located : m.locate address t.width with
  | error e => rfl
  | ok start =>
    have inside := (Memory.locate_eq_ok_iff.1 located).2
    have read : slice m start t.width = .ok (m.slice start t.width) := if_pos inside
    have wide : encode v (m.slice start t.width) = .ok (t.encode v) :=
      if_pos ⟨Memory.length_slice inside, Ty.length_encode v⟩
    change (slice m start t.width >>= fun place =>
      encode v place >>= fun bytes => .ok (m.overwrite start bytes)) = _
    rw [read, bind_ok, wide]
    rfl

section Live

variable {s : Store} (live : s.Live) {n width : Nat}
include live

theorem address_eq (le : n ≤ s.stack.size) :
    address s.stack n = .ok ((s.stack.base + n : Nat) : Int) := by
  have := live.base_add_size
  have := live.addressable
  have fits : s.stack.base + n < Memory.addressLimit := by omega
  unfold address
  rw [word_eq (Int.natCast_add _ _).symm (Nat.lt_trans fits (by decide)), bind_ok]
  exact int_eq rfl fits

theorem getSlot_eq {t : Ty} (le : n + t.width ≤ s.stack.size) :
    getSlot s t n = .ok (s.valueAt t (s.stack.base + n)) := by
  have := live.base_add_size
  unfold getSlot
  rw [address_eq live (by omega), bind_ok, get_eq, Memory.get_of_le (by omega)]
  rfl

theorem putSlot_eq {t : Ty} (v : t.Val) (le : n + t.width ≤ s.stack.size) :
    putSlot s n v = .ok (s.memory.overwrite (s.stack.base + n) (t.encode v)) := by
  have := live.base_add_size
  unfold putSlot
  rw [address_eq live (by omega), bind_ok, put_eq, Memory.put_of_le v (by omega)]
  rfl

theorem slot_eq (offset : Int64) : slot s.stack offset width =
    (s.stack.slot offset width).mapError fun e => some (.stack (.memory e)) := by
  have := live.base_add_size
  have := live.pointer_le
  have := live.addressable
  unfold slot
  rw [int_eq rfl (by omega), bind_ok]

theorem slot_of_inside {offset : Int64} (inside : s.outsideWindow? offset width = none) :
    slot s.stack offset width = .ok (s.stack.pointer + offset.toInt).toNat := by
  rw [slot_eq live, Store.slot_of_inside live inside]
  rfl

theorem slot_of_error {offset : Int64} {e : MemoryError}
    (missed : s.stack.slot offset width = .error e) :
    slot s.stack offset width = .error (some (.stack (.memory e))) := by
  rw [slot_eq live, missed]
  rfl

end Live

/-- On a live store the two effects come to the same, and one that succeeds leaves a live store. -/
def Agrees {α : Type} (x : CheckedEffect α) (y : Effect α) : Prop :=
  ∀ s : Store, s.Live → (∃ a t, y s = .ok a t ∧ x s = .ok a t ∧ t.Live) ∨
    ∃ f t, y s = .error f t ∧ x s = .error (some f) t

namespace Agrees

variable {α β : Type}

theorem pure (a : α) : Agrees (pure a) (pure a) := fun s live => .inl ⟨a, s, rfl, rfl, live⟩

theorem fail (f : Fault) : Agrees (α := α) (primitives.fail f) (Effect.primitives.fail f) :=
  fun s _ => .inr ⟨f, s, rfl, rfl⟩

theorem bind {x : CheckedEffect α} {y : Effect α} {k : α → CheckedEffect β} {l : α → Effect β}
    (first : Agrees x y) (next : ∀ a, Agrees (k a) (l a)) : Agrees (x >>= k) (y >>= l) := by
  intro s live
  change (∃ b t, EStateM.bind y l s = .ok b t ∧ EStateM.bind x k s = .ok b t ∧ t.Live) ∨
    ∃ f t, EStateM.bind y l s = .error f t ∧ EStateM.bind x k s = .error (some f) t
  obtain ⟨a, t, y_eq, x_eq, live⟩ | ⟨f, t, y_eq, x_eq⟩ := first s live
  · rw [EStateM.bind, EStateM.bind, y_eq, x_eq]
    exact next a t live
  · rw [EStateM.bind, EStateM.bind, y_eq, x_eq]
    exact .inr ⟨f, t, rfl, rfl⟩

theorem push {t : Ty} (v : t.Val) : Agrees (primitives.push v) (Effect.primitives.push v) := by
  intro s live
  have window := live.base_add_size
  have inside := live.pointer_le
  have addressable := live.addressable
  have narrow := t.width_le
  simp only [Memory.addressLimit] at addressable
  have top : word (s.stack.pointer + t.width) = .ok (s.stack.pointer + t.width) :=
    word_eq (Int.natCast_add _ _).symm (by simp only [UInt64.size]; omega)
  by_cases full : s.stack.size < s.stack.pointer + t.width
  · refine .inr ⟨.stack .overflow, { s with stack.latch := .overflowed },
      Effect.ofStack_of_error ?_, ?_⟩
    · rw [Store.push, live.isBlocked, if_neg Bool.false_ne_true, if_pos full]
    · change Checked.push v s = _
      rw [Checked.push, live.isBlocked, if_neg Bool.false_ne_true, top, into_ok, if_pos full]
  · have fits := Nat.le_of_not_lt full
    refine .inl ⟨(), _, Effect.ofStack_of_ok ?_, ?_, live.pushed v fits⟩
    · rw [Store.push, live.isBlocked, if_neg Bool.false_ne_true, if_neg full,
        live.address inside, Memory.put_of_le v (by omega)]
    · change Checked.push v s = _
      rw [Checked.push, live.isBlocked, if_neg Bool.false_ne_true, top, into_ok, if_neg full,
        putSlot_eq live v fits, into_ok]

theorem pop (t : Ty) : Agrees (primitives.pop t) (Effect.primitives.pop t) := by
  intro s live
  have window := live.base_add_size
  have inside := live.pointer_le
  have addressable := live.addressable
  simp only [Memory.addressLimit] at addressable
  by_cases short : s.stack.pointer < t.width
  · refine .inr ⟨.stack .underflow, { s with stack.latch := .underflowed },
      Effect.ofStack_of_error ?_, ?_⟩
    · rw [Store.pop, live.isBlocked, if_neg Bool.false_ne_true, if_pos short]
    · change Checked.pop t s = _
      rw [Checked.pop, live.isBlocked, if_neg Bool.false_ne_true, if_pos short]
  · have lower : word ((s.stack.pointer : Int) - t.width) = .ok (s.stack.pointer - t.width) :=
      word_eq (by omega) (by simp only [UInt64.size]; omega)
    refine .inl ⟨s.operand t t.width, s.drop t.width, Effect.ofStack_of_ok ?_, ?_,
      live.drop t.width⟩
    · rw [Store.pop, live.isBlocked, if_neg Bool.false_ne_true, if_neg short,
        live.address (by omega), Memory.get_of_le (by omega)]
      rfl
    · change Checked.pop t s = _
      rw [Checked.pop, live.isBlocked, if_neg Bool.false_ne_true, if_neg short, lower, into_ok,
        getSlot_eq live (by omega), into_ok]
      rfl

theorem peek (t : Ty) (offset : Int64) :
    Agrees (primitives.peek t offset) (Effect.primitives.peek t offset) := by
  intro s live
  have met := Store.peek_meets live t offset
  cases outside : s.outsideWindow? offset t.width with
  | some f =>
    obtain ⟨e, rfl, missed⟩ := Store.slot_of_outside outside
    refine .inr ⟨.stack (.memory e), s, Effect.ofStack_of_error ?_, ?_⟩
    · rw [Store.peek, live.isBlocked, if_neg Bool.false_ne_true, missed]
    · change Checked.peek t offset s = _
      rw [Checked.peek, live.isBlocked, if_neg Bool.false_ne_true,
        slot_of_error live missed]
      rfl
  | none =>
    rw [outside] at met
    obtain ⟨nonneg, fits⟩ := Store.outsideWindow?_eq_none_iff.1 outside
    refine .inl ⟨_, s, met, ?_, live⟩
    change Checked.peek t offset s = _
    rw [Checked.peek, live.isBlocked, if_neg Bool.false_ne_true,
      slot_of_inside live outside, into_ok, getSlot_eq live (by omega), into_ok]

theorem poke {t : Ty} (offset : Int64) (v : t.Val) :
    Agrees (primitives.poke offset v) (Effect.primitives.poke offset v) := by
  intro s live
  have met := Store.poke_meets live offset v
  cases outside : s.outsideWindow? offset t.width with
  | some f =>
    obtain ⟨e, rfl, missed⟩ := Store.slot_of_outside outside
    refine .inr ⟨.stack (.memory e), s, Effect.ofStack_of_error ?_, ?_⟩
    · rw [Store.poke, live.isBlocked, if_neg Bool.false_ne_true, missed]
    · change Checked.poke offset v s = _
      rw [Checked.poke, live.isBlocked, if_neg Bool.false_ne_true,
        slot_of_error live missed]
      rfl
  | none =>
    rw [outside] at met
    obtain ⟨nonneg, fits⟩ := Store.outsideWindow?_eq_none_iff.1 outside
    refine .inl ⟨(), _, met, ?_, live.overwrite _ _⟩
    change Checked.poke offset v s = _
    rw [Checked.poke, live.isBlocked, if_neg Bool.false_ne_true,
      slot_of_inside live outside, into_ok, putSlot_eq live v (by omega), into_ok]

theorem load (t : Ty) (address : Int64) :
    Agrees (primitives.load t address) (Effect.primitives.load t address) := by
  intro s live
  change (∃ v u, Effect.load t address.toInt s = .ok v u ∧ Checked.load t address s = .ok v u ∧
    u.Live) ∨ ∃ f u, Effect.load t address.toInt s = .error f u ∧
      Checked.load t address s = .error (some f) u
  rw [Effect.load, Checked.load, get_eq]
  cases s.memory.get t address.toInt with
  | ok v => exact .inl ⟨v, s, rfl, rfl, live⟩
  | error e => exact .inr ⟨.memory e, s, rfl, rfl⟩

theorem store {t : Ty} (address : Int64) (v : t.Val) :
    Agrees (primitives.store address v) (Effect.primitives.store address v) := by
  intro s live
  change (∃ a u, Effect.store address.toInt v s = .ok a u ∧
    Checked.store address v s = .ok a u ∧ u.Live) ∨
    ∃ f u, Effect.store address.toInt v s = .error f u ∧
      Checked.store address v s = .error (some f) u
  rw [Effect.store, Checked.store, put_eq]
  by_cases inside : 0 ≤ address.toInt ∧ address.toInt + t.width ≤ s.memory.size
  · obtain ⟨start, eq⟩ := Int.eq_ofNat_of_zero_le inside.1
    rw [eq] at inside ⊢
    rw [Memory.put_of_le v (Int.ofNat_le.1 inside.2)]
    exact .inl ⟨(), _, rfl, rfl, live.overwrite start (t.encode v)⟩
  · rw [Memory.put_of_not v inside]
    exact .inr ⟨_, s, rfl, rfl⟩

theorem target (address : Int64) :
    Agrees (primitives.target address) (Effect.primitives.target address) := by
  intro s live
  by_cases inside : 0 ≤ address.toInt ∧ address.toInt < s.memory.size
  · exact .inl ⟨address.toInt.toNat, s, if_pos inside, if_pos inside, live⟩
  · exact .inr ⟨.illegalAddress address.toInt, s, if_neg inside, if_neg inside⟩

theorem link {pc size : Nat} (fits : pc + size < Memory.addressLimit) :
    Agrees (primitives.link pc size) (Effect.primitives.link pc size) := by
  intro s live
  refine .inl ⟨Int64.ofNat (pc + size), s, rfl, ?_, live⟩
  dsimp only [primitives]
  rw [Checked.link, word_eq (Int.natCast_add _ _).symm (Nat.lt_trans fits (by decide)), into_ok,
    int_eq rfl fits, into_ok, Int64.ofInt_eq_ofNat]

theorem perform [FloatUnit] {pc : Nat} {i : Instruction}
    (fits : pc + i.size < Memory.addressLimit) :
    Agrees (i.perform primitives pc) (i.effect pc) := by
  cases i with
  | halt => exact pure _
  | push t v => exact (push v).bind fun _ => pure _
  | pop t => exact (pop t).bind fun _ => pure _
  | get t =>
    refine (pop .int).bind fun address => ?_
    exact (load t address).bind fun v => (push v).bind fun _ => pure _
  | put t =>
    refine (pop .int).bind fun address => (pop t).bind fun v => ?_
    exact (store address v).bind fun _ => pure _
  | getAddress t address => exact (load t address).bind fun v => (push v).bind fun _ => pure _
  | putAddress t address => exact (pop t).bind fun v => (store address v).bind fun _ => pure _
  | getStack t offset => exact (peek t offset).bind fun v => (push v).bind fun _ => pure _
  | putStack t offset => exact (pop t).bind fun v => (poke offset v).bind fun _ => pure _
  | arith op t =>
    refine (pop t).bind fun b => (pop t).bind fun a => ?_
    cases op.eval t a b with
    | none => exact (fail _).bind fun _ => pure _
    | some r => exact (push r).bind fun _ => pure _
  | compare op t =>
    refine (pop t).bind fun b => (pop t).bind fun a => ?_
    exact (push (t := .byte) _).bind fun _ => pure _
  | bitwise op =>
    refine (pop .byte).bind fun b => (pop .byte).bind fun a => ?_
    exact (push (t := .byte) _).bind fun _ => pure _
  | not => exact (pop .byte).bind fun a => (push (t := .byte) _).bind fun _ => pure _
  | ret => exact (pop .int).bind fun address => (target address).bind fun _ => pure _
  | jmp address => exact (target address).bind fun _ => pure _
  | branch c t =>
    refine (pop .int).bind fun address => (pop t).bind fun v => ?_
    exact (target address).bind fun _ => pure _
  | branchAddress c t address =>
    exact (pop t).bind fun v => (target address).bind fun _ => pure _
  | call =>
    refine (pop .int).bind fun address => (target address).bind fun _ => ?_
    exact (link fits).bind fun next => (push (t := .int) next).bind fun _ => pure _
  | callAddress address =>
    refine (target address).bind fun _ => ?_
    exact (link fits).bind fun next => (push (t := .int) next).bind fun _ => pure _

end Agrees
end Checked

namespace Machine

variable [FloatUnit]

theorem steps_execute (i : Instruction) (m : Machine) :
    (m.execute i).1.steps = m.steps + 1 := by
  obtain ⟨store, pc, status, steps, maxSteps⟩ := m
  simp only [execute]
  cases i.effect pc store with
  | ok flow after => cases flow <;> rfl
  | error fault after => rfl

theorem size_of_error {s t : Store} (live : s.Live) {i : Instruction} {pc : Nat} {f : Fault}
    (h : i.effect pc s = .error f t) : t.stack.size = s.stack.size := by
  obtain ⟨-, pointer, rfl⟩ := (i.effect_meets live pc).of_error h
  rfl

end Machine

namespace Checked

theorem operand_eq {m : Memory} (addressable : m.size < Memory.addressLimit) (position : Nat)
    (t : Ty) : operand m position t =
      ((m.get t (position : Int)).mapError .memory).mapError some := by
  unfold operand
  rw [get_eq]
  cases got : m.get t (position : Int) with
  | error e => rfl
  | ok v =>
    have inside := Memory.le_of_get got
    rw [mapError_ok, bind_ok, int_eq (Int.natCast_add _ _).symm (by omega), bind_ok]
    rfl

theorem fetch_eq {m : Memory} (addressable : m.size < Memory.addressLimit) (pc : Nat) :
    fetch m pc = (Machine.fetch m pc).mapError some := by
  unfold fetch Machine.fetch
  by_cases far : Memory.addressLimit ≤ pc
  · rw [if_pos far, if_pos far]
    rfl
  · rw [if_neg far, if_neg far, get_eq]
    cases got : m.get .byte (pc : Int) with
    | error e => rfl
    | ok b =>
      have inside : pc + 1 ≤ m.size := Memory.le_of_get got
      rw [mapError_ok, bind_ok]
      dsimp only
      cases Opcode.ofByte? b with
      | none => rfl
      | some op =>
        dsimp only
        rw [int_eq (n := pc + 1) (k := pc + 1) rfl (by omega), bind_ok, ← op.withOperand_mapError]
        exact congrArg op.withOperand (funext (operand_eq addressable (pc + 1)))

variable [FloatUnit]

theorem execute_eq {m : Machine} (live : m.store.Live) {i : Instruction}
    (fits : m.pc + i.size < Memory.addressLimit) (counted : m.steps + 1 < UInt64.size) :
    execute i m = .ok (m.execute i) := by
  have steps : word (m.steps + 1) = .ok (m.steps + 1) := word_eq rfl counted
  have next : word (m.pc + i.size) = .ok (m.pc + i.size) :=
    word_eq (Int.natCast_add _ _).symm (Nat.lt_trans fits (by decide))
  have agree := Agrees.perform fits m.store live
  unfold execute
  rw [steps, bind_ok]
  obtain ⟨flow, t, eq, checked, -⟩ | ⟨f, t, eq, checked⟩ := agree
  · rw [checked, Machine.execute_of_ok eq]
    cases flow with
    | next =>
      dsimp only
      rw [next]
      rfl
    | jump target => rfl
    | halt => rfl
  · have back : rewind m.stack.pointer t = .ok (t.rewind m.stack.pointer) := by
      apply if_pos
      rw [Machine.size_of_error live eq]
      exact live.pointer_le
    rw [checked]
    dsimp only
    rw [back]
    obtain ⟨store, pc, status, steps, maxSteps⟩ := m
    simp only [Machine.execute, eq]
    rfl

theorem stepRunning_eq {m : Machine} (live : m.store.Live)
    (counted : m.stepRunning.1.steps < UInt64.size) : stepRunning m = .ok m.stepRunning := by
  unfold Machine.stepRunning at counted
  unfold stepRunning Machine.stepRunning
  cases budget : m.exhausted? with
  | some limit => rfl
  | none =>
    rw [fetch_eq live.addressable]
    cases fetched : Machine.fetch m.memory m.pc with
    | error f => rfl
    | ok i =>
      rw [budget, fetched] at counted
      have fits := Nat.lt_of_le_of_lt (Machine.size_le_of_fetch fetched) live.addressable
      exact execute_eq live fits (Machine.steps_execute i m ▸ counted)

variable {c : Config} {m : Machine}

theorem step_eq (sound : m.Sound c) (counted : m.step.1.steps < UInt64.size) :
    step m = .ok m.step := by
  by_cases running : m.status = .running
  · rw [Machine.step_of_running running] at counted ⊢
    unfold step
    rw [running, stepRunning_eq (sound.live running) counted]
    rfl
  · rw [Machine.step_of_ne_running running]
    unfold step
    split
    · next eq => exact absurd eq running
    · rfl

theorem after_eq (sound : m.Sound c) (n : Nat) (counted : (m.after n).steps < UInt64.size) :
    after n m = .ok (m.after n) := by
  induction n generalizing m with
  | zero => rfl
  | succ n ih =>
    -- The count only grows, so that no step before the last can overflow it.
    have rest : m.step.1.steps ≤ (m.step.1.after n).steps := by
      rw [← sound.step.length_executed n]
      exact Nat.le_add_left _ _
    rw [after, step_eq sound (Nat.lt_of_le_of_lt rest counted), bind_ok]
    exact ih sound.step counted

end Checked

/-- The bounds behind the checks on a store, for the accesses to its stack. -/
structure Store.InRange (s : Store) : Prop where
  pointer_signed : signed s.stack.pointer = s.stack.pointer
  top_lt : ∀ t : Ty, s.stack.pointer + t.width < UInt64.size
  pointer_inside : s.stack.base + s.stack.pointer ≤ s.memory.size
  slot_inside : ∀ offset width n, s.stack.slot offset width = .ok n →
    s.stack.base + n + width ≤ s.memory.size
  push_ne_memory : ∀ (t : Ty) (v : t.Val) e u, push v s ≠ .error (.memory e) u
  pop_ne_memory : ∀ t e u, pop t s ≠ .error (.memory e) u

/-- The bounds behind the checks on a step. -/
structure Machine.InRange [FloatUnit] (m : Machine) : Prop where
  store : m.store.InRange
  next_le : ∀ i, fetch m.memory m.pc = .ok i → m.pc + i.size ≤ m.memory.size
  operand_signed : ∀ b, m.memory.get .byte m.pc = .ok b → signed (m.pc + 1) = m.pc + 1
  next_signed : ∀ i, fetch m.memory m.pc = .ok i → signed (m.pc + i.size) = m.pc + i.size
  link_eq : ∀ i, fetch m.memory m.pc = .ok i →
    (Int64.ofNat (m.pc + i.size)).toInt = m.pc + i.size
  rewind_eq : ∀ (i : Instruction) f t, i.effect m.pc m.store = .error f t →
    (t.rewind m.stack.pointer).stack.pointer = m.stack.pointer

namespace Store

variable {s : Store}

theorem Live.inRange (live : s.Live) : s.InRange := by
  have window := live.base_add_size
  have inside := live.pointer_le
  have addressable := live.addressable
  refine ⟨signed_of_lt (by omega), ?top, by omega, ?slot, ?push, ?pop⟩
  case top =>
    intro t
    have narrow := t.width_le
    simp only [Memory.addressLimit] at addressable
    simp only [UInt64.size]
    omega
  case slot =>
    intro offset width n found
    cases outside : s.outsideWindow? offset width with
    | some f =>
      obtain ⟨e, -, missed⟩ := slot_of_outside outside
      cases found.symm.trans missed
    | none =>
      cases found.symm.trans (slot_of_inside live outside)
      have bounds := outsideWindow?_eq_none_iff.1 outside
      omega
  case push =>
    intro t v e u failed
    have full := ((push_meets live v).of_error (Effect.ofStack_of_error failed)).1
    cases (lacksRoom?_eq_some_iff.1 full).2
  case pop =>
    intro t e u failed
    have short := ((pop_meets live t).of_error (Effect.ofStack_of_error failed)).1
    cases (lacks?_eq_some_iff.1 short).2

end Store

theorem Machine.inRange [FloatUnit] {m : Machine} (live : m.store.Live) : m.InRange := by
  have fits {i : Instruction} (fetched : fetch m.memory m.pc = .ok i) :
      m.pc + i.size < Memory.addressLimit :=
    Nat.lt_of_le_of_lt (size_le_of_fetch fetched) live.addressable
  refine ⟨live.inRange, fun _ => size_le_of_fetch, ?operand, ?next, ?link, ?rewind⟩
  case operand =>
    intro b got
    have inside : m.pc + 1 ≤ m.memory.size := Memory.le_of_get got
    exact signed_of_lt (n := m.pc + 1) (Nat.lt_of_le_of_lt inside live.addressable)
  case next => exact fun i fetched => signed_of_lt (n := m.pc + i.size) (fits fetched)
  case link => exact fun i fetched => Int64.toInt_ofNat_of_lt (fits fetched)
  case rewind =>
    intro i f t failed
    change min m.stack.pointer t.stack.size = m.stack.pointer
    rw [size_of_error live failed]
    exact Nat.min_eq_left live.pointer_le

namespace Session

theorem step_in_range [FloatUnit] {c : Config} {s : Session} (reached : Reachable c s) :
    (s.machine.status = .running → s.machine.InRange) ∧
    (s.step.machine.steps < UInt64.size → Checked.step s.machine = .ok s.machine.step) ∧
    ∀ n, (s.advance n).machine.steps < UInt64.size →
      Checked.after n s.machine = .ok (s.advance n).machine := by
  have sound := reached.sound
  refine ⟨fun running => Machine.inRange (sound.live running), ?_, ?_⟩
  · rw [machine_step]
    exact Checked.step_eq sound
  · intro n
    rw [machine_advance]
    exact Checked.after_eq sound n

/-- A call whose own bytes are the last ones of the memory, entered there. -/
theorem last_call_in_range : ∃ s, Reachable ⟨26, 8, none⟩ s ∧ s.machine.status = .running ∧
    (Machine.fetch s.machine.memory s.machine.pc).toOption = some (.callAddress 0) ∧
    s.step.machine.steps < UInt64.size ∧ s.machine.InRange ∧
    Checked.step s.machine = .ok s.machine.step ∧
    s.step.machine.store.contents = Ty.int.encode 26 := by
  have reached : Reachable ⟨26, 8, none⟩ _ :=
    .call (.setPc 17) (Reachable.loaded
      (List.replicate 17 0 ++ [0xF9, 0, 0, 0, 0, 0, 0, 0, 0]) .silent rfl rfl) rfl
  obtain ⟨bounds, step, -⟩ := step_in_range reached
  refine ⟨_, reached, rfl, ?fetched, ?counted, bounds rfl, step ?counted, ?pushed⟩
  case fetched => decide +kernel
  case counted => decide +kernel
  case pushed => decide +kernel

end Session
end ByteMachine
