import ByteMachine.Store.Stack

/-! Calls on a stack in any order, over a memory of any size and content. The first push that does
not fit or pop that finds too little sets the latch, and nothing sets it again. Whatever fails
leaves the memory and the pointer alone. -/
namespace ByteMachine

inductive Operation where
  | push (v : Value)
  | pop (t : Ty)
  | peek (t : Ty) (offset : Int64)
  | poke (offset : Int64) (v : Value)
deriving DecidableEq

/-- A read answers with its value. -/
abbrev Answer := Except StackError (Option Value)

namespace Operation

def answer {α : Type} (f : α → Option Value) : EStateM.Result StackError Store α → Answer × Store
  | .ok a s => (.ok (f a), s)
  | .error e s => (.error e, s)

/-- The answer, and the store that is left. -/
def perform : Operation → Store → Answer × Store
  | push v, s => answer (fun _ => none) (Store.push v.val s)
  | pop t, s => answer (fun v => some (@Value.mk t v)) (Store.pop t s)
  | peek t offset, s => answer (fun v => some (@Value.mk t v)) (Store.peek t offset s)
  | poke offset v, s => answer (fun _ => none) (Store.poke offset v.val s)

/-- The latch that the operation sets on an active stack, if any. -/
def latch? : Operation → Stack → Option Latch
  | push v, s => if s.size < s.pointer + v.ty.width then some .overflowed else none
  | pop t, s => if s.pointer < t.width then some .underflowed else none
  | peek _ _, _ | poke _ _, _ => none

/-- The stack pointer after the operation, if it succeeds. -/
def pointer : Operation → Nat → Nat
  | push v, p => p + v.ty.width
  | pop t, p => p - t.width
  | peek _ _, p | poke _ _, p => p

/-- Everything that an operation can come to. -/
inductive Outcome (s : Store) : Operation → Answer × Store → Prop
  | blocked {o : Operation} : s.stack.latch ≠ .active → Outcome s o (.error .blocked, s)
  | overflow {v : Value} : s.stack.latch = .active →
      s.stack.size < s.stack.pointer + v.ty.width →
      Outcome s (push v) (.error .overflow, { s with stack.latch := .overflowed })
  | underflow {t : Ty} : s.stack.latch = .active → s.stack.pointer < t.width →
      Outcome s (pop t) (.error .underflow, { s with stack.latch := .underflowed })
  | outside {o : Operation} (e : MemoryError) : s.stack.latch = .active →
      o.latch? s.stack = none → Outcome s o (.error (.memory e), s)
  | done {o : Operation} (v? : Option Value) (memory : Memory) : s.stack.latch = .active →
      o.latch? s.stack = none →
      Outcome s o (.ok v?, ⟨memory, { s.stack with pointer := o.pointer s.stack.pointer }⟩)

variable {s : Store}

theorem perform_of_blocked (blocked : s.stack.isBlocked) (o : Operation) :
    o.perform s = (.error .blocked, s) := by
  cases o with
  | push v => rw [perform, Store.push, if_pos blocked, answer]
  | pop t => rw [perform, Store.pop, if_pos blocked, answer]
  | peek t offset => rw [perform, Store.peek, if_pos blocked, answer]
  | poke offset v => rw [perform, Store.poke, if_pos blocked, answer]

theorem outcome (o : Operation) (s : Store) : Outcome s o (o.perform s) := by
  cases blocked : s.stack.isBlocked with
  | true =>
    rw [perform_of_blocked blocked]
    exact .blocked (by simpa [Stack.isBlocked] using blocked)
  | false =>
    have active : s.stack.latch = .active := by simpa [Stack.isBlocked] using blocked
    cases o with
    | push v =>
      rw [perform, Store.push, blocked, if_neg Bool.false_ne_true]
      split
      · next full => exact .overflow active full
      · next room =>
        cases s.memory.put (s.stack.address s.stack.pointer) v.val with
        | ok memory => exact .done none memory active (if_neg room)
        | error e => exact .outside e active (if_neg room)
    | pop t =>
      rw [perform, Store.pop, blocked, if_neg Bool.false_ne_true]
      split
      · next short => exact .underflow active short
      · next enough =>
        cases s.memory.get t (s.stack.address (s.stack.pointer - t.width)) with
        | ok v => exact .done _ s.memory active (if_neg enough)
        | error e => exact .outside e active (if_neg enough)
    | peek t offset =>
      -- A variable stands for the access: evaluating the folded address would not end.
      obtain ⟨get, get_eq⟩ : ∃ get, s.memory.get t = get := ⟨_, rfl⟩
      rw [perform, Store.peek, blocked, if_neg Bool.false_ne_true, get_eq]
      cases s.stack.slot offset t.width with
      | error e => exact .outside e active rfl
      | ok slot =>
        dsimp only
        cases get (s.stack.address slot) with
        | ok v => exact .done _ s.memory active rfl
        | error e => exact .outside e active rfl
    | poke offset v =>
      obtain ⟨put, put_eq⟩ : ∃ put : Int → v.ty.Val → _, s.memory.put = put := ⟨_, rfl⟩
      rw [perform, Store.poke, blocked, if_neg Bool.false_ne_true, put_eq]
      cases s.stack.slot offset v.ty.width with
      | error e => exact .outside e active rfl
      | ok slot =>
        dsimp only
        cases put (s.stack.address slot) v.val with
        | ok memory => exact .done none memory active rfl
        | error e => exact .outside e active rfl

/-- What the latch has to do with an operation and its answer. -/
structure Governed (o : Operation) (s : Store) : Prop where
  blocked_iff : (o.perform s).1 = .error .blocked ↔ s.stack.latch ≠ .active
  overflow_iff : (o.perform s).1 = .error .overflow ↔
    s.stack.latch = .active ∧ o.latch? s.stack = some .overflowed
  underflow_iff : (o.perform s).1 = .error .underflow ↔
    s.stack.latch = .active ∧ o.latch? s.stack = some .underflowed
  latch_eq : (o.perform s).2.stack.latch =
    if s.stack.latch = .active then (o.latch? s.stack).getD .active else s.stack.latch
  of_memory : ∀ e, (o.perform s).1 = .error (.memory e) →
    s.stack.latch = .active ∧ (o.perform s).2 = s
  of_error : ∀ e, (o.perform s).1 = .error e →
    (o.perform s).2.memory = s.memory ∧ (o.perform s).2.stack.pointer = s.stack.pointer

theorem latch?_push (v : Value) (h : s.stack.size < s.stack.pointer + v.ty.width) :
    (push v).latch? s.stack = some .overflowed := if_pos h

theorem latch?_pop {t : Ty} (h : s.stack.pointer < t.width) :
    (pop t).latch? s.stack = some .underflowed := if_pos h

theorem latch?_ne_active {o : Operation} {l : Latch} (h : o.latch? s.stack = some l) :
    l ≠ .active := by
  cases o with
  | push v | pop t =>
    simp only [latch?, Option.ite_none_right_eq_some, Option.some.injEq] at h
    exact h.2 ▸ nofun
  | peek _ _ | poke _ _ => cases h

theorem governed (o : Operation) (s : Store) : o.Governed s := by
  have outcome := o.outcome s
  generalize result : o.perform s = r at outcome
  cases outcome with
  | blocked latched => constructor <;> simp [result, latched]
  | overflow active full => constructor <;> simp [result, active, latch?_push _ full]
  | underflow active short => constructor <;> simp [result, active, latch?_pop short]
  | outside e active unset => constructor <;> simp [result, active, unset]
  | done v? memory active unset => constructor <;> simp [result, active, unset]

theorem window_perform (o : Operation) (s : Store) :
    (o.perform s).2.stack.base = s.stack.base ∧ (o.perform s).2.stack.size = s.stack.size := by
  have outcome := o.outcome s
  generalize o.perform s = r at outcome
  cases outcome <;> exact ⟨rfl, rfl⟩

theorem pointer_perform_le (o : Operation) (h : s.stack.pointer ≤ s.stack.size) :
    (o.perform s).2.stack.pointer ≤ s.stack.size := by
  have outcome := o.outcome s
  generalize o.perform s = r at outcome
  cases outcome with
  | blocked _ | overflow _ _ | underflow _ _ | outside _ _ _ => exact h
  | done v? memory active unset =>
    cases o with
    | push v => simpa [latch?, pointer] using unset
    | pop t => exact Nat.le_trans (Nat.sub_le _ _) h
    | peek _ _ | poke _ _ => exact h

end Operation

namespace Store

def after (ops : List Operation) (s : Store) : Store := ops.foldl (fun s o => (o.perform s).2) s

/-- The store that operation `k` finds. -/
def before (s : Store) (ops : List Operation) (k : Nat) : Store := s.after (ops.take k)

/-- None of the first `k` operations is one to set the latch. -/
def Quiet (s : Store) (ops : List Operation) (k : Nat) : Prop :=
  ∀ j < k, (ops[j]?.bind fun o => o.latch? (s.before ops j).stack) = none

instance (s : Store) (ops : List Operation) (k : Nat) : Decidable (s.Quiet ops k) :=
  Nat.decidableBallLT k _

variable {s : Store} {ops : List Operation} {o : Operation} {j k : Nat}

theorem before_succ (due : ops[k]? = some o) :
    s.before ops (k + 1) = (o.perform (s.before ops k)).2 := by
  simp [before, after, List.take_add_one, due]

theorem before_succ_of_none (ended : ops[k]? = none) :
    s.before ops (k + 1) = s.before ops k := by
  simp [before, List.take_add_one, ended]

theorem before_of_le (s : Store) (ops : List Operation) (le : j ≤ k) :
    s.before ops k = (s.before ops j).after ((ops.take k).drop j) := by
  have split := List.take_append_drop j (ops.take k)
  rw [List.take_take, Nat.min_eq_left le] at split
  simp only [before, after, ← List.foldl_append, split]

theorem pointer_after_le (h : s.stack.pointer ≤ s.stack.size) (ops : List Operation) :
    (s.after ops).stack.size = s.stack.size ∧ (s.after ops).stack.pointer ≤ s.stack.size := by
  induction ops generalizing s with
  | nil => exact ⟨rfl, h⟩
  | cons o ops ih =>
    have le := o.pointer_perform_le h
    rw [← (o.window_perform s).2] at le ⊢
    exact ih le

theorem latch_after_of_ne (latched : s.stack.latch ≠ .active) (ops : List Operation) :
    (s.after ops).stack.latch = s.stack.latch := by
  induction ops generalizing s with
  | nil => rfl
  | cons o ops ih =>
    have same : (o.perform s).2.stack.latch = s.stack.latch := by
      rw [(o.governed s).latch_eq, if_neg latched]
    rw [← same] at latched ⊢
    exact ih latched

theorem quiet_succ : s.Quiet ops (k + 1) ↔ s.Quiet ops k ∧
    (ops[k]?.bind fun o => o.latch? (s.before ops k).stack) = none := by
  simp only [Quiet, Nat.lt_succ_iff_lt_or_eq, or_imp, forall_and, forall_eq]

theorem active_iff_quiet (active : s.stack.latch = .active) (ops : List Operation) (k : Nat) :
    (s.before ops k).stack.latch = .active ↔ s.Quiet ops k := by
  induction k with
  | zero => exact iff_of_true active nofun
  | succ k ih =>
    rw [quiet_succ, ← ih]
    cases due : ops[k]? with
    | none =>
      rw [before_succ_of_none due]
      exact (and_iff_left rfl).symm
    | some o =>
      rw [before_succ due, (o.governed _).latch_eq, Option.bind_some]
      split
      · next active =>
        rw [and_iff_right active]
        cases set : o.latch? (s.before ops k).stack with
        | none => exact iff_of_true rfl rfl
        | some l => exact iff_of_false (Operation.latch?_ne_active set) nofun
      · next latched => exact iff_of_false latched fun both => latched both.1

theorem latches_iff (active : s.stack.latch = .active) (ops : List Operation) (k : Nat)
    {l : Latch} (ne : l ≠ .active) :
    (s.before ops k).stack.latch = .active ∧ (s.before ops (k + 1)).stack.latch = l ↔
      s.Quiet ops k ∧ ∃ o, ops[k]? = some o ∧ o.latch? (s.before ops k).stack = some l := by
  rw [active_iff_quiet active]
  apply and_congr_right
  intro quiet
  have before := (active_iff_quiet active ops k).2 quiet
  cases due : ops[k]? with
  | none =>
    rw [before_succ_of_none due, before]
    simp [Ne.symm ne]
  | some o =>
    rw [before_succ due, (o.governed _).latch_eq, if_pos before]
    cases set : o.latch? (s.before ops k).stack with
    | none => simp [set, Ne.symm ne]
    | some l' => simp [set]

end Store

theorem Stack.ofSizes?_eq_some_iff {total size : Nat} {stack : Stack} :
    Stack.ofSizes? total size = some stack ↔ size ≤ total ∧ stack = .atTop total size := by
  simp [ofSizes?, eq_comm]

namespace Store

theorem latch_one_way {total size : Nat} {s : Store}
    (fresh : Stack.ofSizes? total size = some s.stack) (ops : List Operation) :
    (∀ j k, j ≤ k → (s.before ops j).stack.latch ≠ .active →
      (s.before ops k).stack.latch = (s.before ops j).stack.latch) ∧
    (∀ k, (s.before ops k).stack.latch = .active ↔ s.Quiet ops k) ∧
    (∀ k l, l ≠ .active →
      ((s.before ops k).stack.latch = .active ∧ (s.before ops (k + 1)).stack.latch = l ↔
        s.Quiet ops k ∧ ∃ o, ops[k]? = some o ∧ o.latch? (s.before ops k).stack = some l)) ∧
    (∀ k o, ops[k]? = some o →
      o.Governed (s.before ops k) ∧ s.before ops (k + 1) = (o.perform (s.before ops k)).2) ∧
    ∀ k, (s.before ops k).stack.size = size ∧ (s.before ops k).stack.pointer ≤ size := by
  obtain ⟨-, eq⟩ := Stack.ofSizes?_eq_some_iff.1 fresh
  have active : s.stack.latch = .active := by rw [eq]; rfl
  have size_eq : s.stack.size = size := by rw [eq]; rfl
  have empty : s.stack.pointer ≤ s.stack.size := by rw [eq]; exact Nat.zero_le size
  refine ⟨?once, ?active, ?set, ?governed, ?pointer⟩
  case once =>
    intro j k le latched
    rw [before_of_le _ ops le]
    exact latch_after_of_ne latched _
  case active =>
    intro k
    exact active_iff_quiet active ops k
  case set =>
    intro k l ne
    exact latches_iff active ops k ne
  case governed =>
    intro k o due
    exact ⟨o.governed _, before_succ due⟩
  case pointer =>
    intro k
    rw [← size_eq]
    exact pointer_after_le empty _

/-- A window of 12 bytes: after one int, a second one is found to lie outside and a third does not
fit. -/
theorem partial_int_latches : ∃ (s : Store) (ops : List Operation),
    Stack.ofSizes? 16 12 = some s.stack ∧
    ops = [.push (.int 5), .peek .int 0, .push (.int 6), .pop .byte] ∧
    (s.before ops 2).stack.latch = .active ∧ (s.before ops 3).stack.latch = .overflowed ∧
    ((Operation.pop .byte).perform (s.before ops 3)).1 = .error .blocked ∧
    (s.before ops 4).stack.latch = .overflowed ∧ (s.before ops 4).stack.pointer ≤ 12 := by
  obtain ⟨once, -, set, governed, pointer⟩ := latch_one_way (s := ⟨.zero 16, .atTop 16 12⟩)
    (show Stack.ofSizes? 16 12 = some (.atTop 16 12) from rfl)
    [.push (.int 5), .peek .int 0, .push (.int 6), .pop .byte]
  obtain ⟨active, overflowed⟩ := (set 2 .overflowed nofun).2
    ⟨by decide +kernel, _, rfl, by decide +kernel⟩
  refine ⟨_, _, rfl, rfl, active, overflowed, ?blocked, ?stays, (pointer 4).2⟩
  case blocked => exact (governed 3 _ rfl).1.blocked_iff.2 (by rw [overflowed]; exact nofun)
  case stays =>
    exact (once 3 4 (by decide) (by rw [overflowed]; exact nofun)).trans overflowed

end Store
end ByteMachine
