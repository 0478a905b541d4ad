import ByteMachine.Machine.Effect

/-! Stack and memory accesses on a live store: exactly when each fails, and what it leaves. The
checks of an access are functions of the store before it, so that those of a whole instruction
can be written one after the other. -/
namespace ByteMachine

/-- The latch that a fault leaves on a stack that was active. -/
def Fault.latch : Fault → Latch
  | stack .overflow => .overflowed
  | stack .underflow => .underflowed
  | _ => .active

namespace Store

/-- The window ends where the memory does, all addresses are ints, and nothing has latched. -/
structure Live (s : Store) : Prop where
  base_add_size : s.stack.base + s.stack.size = s.memory.size
  pointer_le : s.stack.pointer ≤ s.stack.size
  addressable : s.memory.size < Memory.addressLimit
  active : s.stack.latch = .active

/-- The value whose bytes begin at an address. -/
def valueAt (s : Store) (t : Ty) (start : Nat) : t.Val := t.decode (s.memory.slice start t.width)

/-- The value whose bytes begin so many bytes below the pointer. -/
def operand (s : Store) (t : Ty) (depth : Nat) : t.Val :=
  s.valueAt t (s.stack.base + (s.stack.pointer - depth))

def drop (s : Store) (n : Nat) : Store := { s with stack.pointer := s.stack.pointer - n }

def lacks? (s : Store) (n : Nat) : Option Fault :=
  if s.stack.pointer < n then some (.stack .underflow) else none

def lacksRoom? (s : Store) (n : Nat) : Option Fault :=
  if s.stack.size < s.stack.pointer + n then some (.stack .overflow) else none

def outside? (s : Store) (address : Int) (width : Nat) : Option Fault :=
  if 0 ≤ address ∧ address ≤ s.memory.size - width then none
  else some (.memory ⟨address, width, s.memory.size⟩)

/-- The report names the place, or the offset itself if the place is no int. -/
def outsideWindow? (s : Store) (offset : Int64) (width : Nat) : Option Fault :=
  let place := s.stack.pointer + offset.toInt
  if 0 ≤ place ∧ place ≤ s.stack.size - width then none
  else
    let address := if signed place = place then place else offset.toInt
    some (.stack (.memory ⟨address, width, s.stack.size⟩))

def astray? (s : Store) (address : Int64) : Option Fault :=
  if 0 ≤ address.toInt ∧ address.toInt < s.memory.size then none
  else some (.illegalAddress address.toInt)

@[simp] theorem base_drop (s : Store) (n : Nat) : (s.drop n).stack.base = s.stack.base := rfl

@[simp] theorem size_drop (s : Store) (n : Nat) : (s.drop n).stack.size = s.stack.size := rfl

@[simp] theorem pointer_drop (s : Store) (n : Nat) :
    (s.drop n).stack.pointer = s.stack.pointer - n := rfl

variable {s : Store}

theorem Live.drop (live : s.Live) (n : Nat) : (s.drop n).Live :=
  ⟨live.base_add_size, Nat.le_trans (Nat.sub_le _ _) live.pointer_le, live.addressable,
    live.active⟩

theorem Live.overwrite (live : s.Live) (start : Nat) (data : List UInt8) :
    Live { s with memory := s.memory.overwrite start data } where
  base_add_size := live.base_add_size.trans (Memory.size_overwrite ..).symm
  pointer_le := live.pointer_le
  addressable := (Memory.size_overwrite ..).symm ▸ live.addressable
  active := live.active

theorem Live.pushed (live : s.Live) {t : Ty} (v : t.Val)
    (fits : s.stack.pointer + t.width ≤ s.stack.size) :
    Live ⟨s.memory.overwrite (s.stack.base + s.stack.pointer) (t.encode v),
      { s.stack with pointer := s.stack.pointer + t.width }⟩ :=
  { live.overwrite (s.stack.base + s.stack.pointer) (t.encode v) with pointer_le := fits }

theorem Live.isBlocked (live : s.Live) : s.stack.isBlocked = false := by
  simp [Stack.isBlocked, live.active]

theorem Live.address (live : s.Live) {slot : Nat} (h : slot ≤ s.stack.size) :
    s.stack.address slot = ((s.stack.base + slot : Nat) : Int) := by
  have := live.base_add_size
  have := live.addressable
  rw [Stack.address, ← Int.natCast_add, signed_of_lt (by omega)]

theorem drop_drop (s : Store) (m n : Nat) : (s.drop m).drop n = s.drop (m + n) := by
  simp only [drop, Nat.sub_sub]

@[simp] theorem operand_drop (s : Store) (t : Ty) (n depth : Nat) :
    (s.drop n).operand t depth = s.operand t (n + depth) := by
  simp only [operand, base_drop, pointer_drop, Nat.sub_sub]
  rfl

theorem lacks?_eq_none_iff {n : Nat} : s.lacks? n = none ↔ n ≤ s.stack.pointer := by
  simp [lacks?]

theorem lacks?_of_lt {n : Nat} (h : s.stack.pointer < n) :
    s.lacks? n = some (.stack .underflow) := if_pos h

theorem lacksRoom?_eq_none_iff {n : Nat} :
    s.lacksRoom? n = none ↔ s.stack.pointer + n ≤ s.stack.size := by
  simp [lacksRoom?]

theorem lacks?_eq_some_iff {n : Nat} {f : Fault} :
    s.lacks? n = some f ↔ s.stack.pointer < n ∧ f = .stack .underflow := by
  simp [lacks?, eq_comm]

theorem lacksRoom?_eq_some_iff {n : Nat} {f : Fault} : s.lacksRoom? n = some f ↔
    s.stack.size < s.stack.pointer + n ∧ f = .stack .overflow := by
  simp [lacksRoom?, eq_comm]

theorem outside?_eq_none_iff {address : Int} {width : Nat} :
    s.outside? address width = none ↔ 0 ≤ address ∧ address + width ≤ s.memory.size := by
  rw [outside?, ite_eq_left_iff]
  simp only [reduceCtorEq, imp_false, Decidable.not_not]
  omega

theorem outside?_of_not {address : Int} {width : Nat}
    (h : ¬ (0 ≤ address ∧ address + width ≤ s.memory.size)) :
    s.outside? address width = some (.memory ⟨address, width, s.memory.size⟩) :=
  if_neg (by omega)

theorem outsideWindow?_eq_none_iff {offset : Int64} {width : Nat} :
    s.outsideWindow? offset width = none ↔
      0 ≤ s.stack.pointer + offset.toInt ∧
        s.stack.pointer + offset.toInt + width ≤ s.stack.size := by
  rw [outsideWindow?, ite_eq_left_iff]
  simp only [reduceCtorEq, imp_false, Decidable.not_not]
  omega

theorem outside?_eq_some_iff {address : Int} {width : Nat} {f : Fault} :
    s.outside? address width = some f ↔
      ¬ (0 ≤ address ∧ address ≤ s.memory.size - width) ∧
        f = .memory ⟨address, width, s.memory.size⟩ := by
  rw [outside?, Option.ite_none_left_eq_some, Option.some.injEq, eq_comm (b := f)]

theorem astray?_eq_none_iff {address : Int64} :
    s.astray? address = none ↔ 0 ≤ address.toInt ∧ address.toInt < s.memory.size := by
  rw [astray?, ite_eq_left_iff]
  simp only [reduceCtorEq, imp_false, Decidable.not_not]

theorem astray?_eq_some_iff {address : Int64} {f : Fault} :
    s.astray? address = some f ↔
      ¬ (0 ≤ address.toInt ∧ address.toInt < s.memory.size) ∧
        f = .illegalAddress address.toInt := by
  rw [astray?, Option.ite_none_left_eq_some, Option.some.injEq, eq_comm (b := f)]

theorem outsideWindow?_eq_some {offset : Int64} {width : Nat} {f : Fault}
    (h : s.outsideWindow? offset width = some f) : ∃ e, f = .stack (.memory e) := by
  simp only [outsideWindow?, Option.ite_none_left_eq_some, Option.some.injEq] at h
  exact ⟨_, h.2.symm⟩

theorem lacks?_add (s : Store) (m n : Nat) :
    (s.lacks? m).or ((s.drop m).lacks? n) = s.lacks? (m + n) := by
  by_cases short : s.stack.pointer < m
  · rw [lacks?_of_lt short, lacks?_of_lt (Nat.lt_of_lt_of_le short (Nat.le_add_right m n))]
    rfl
  · rw [lacks?_eq_none_iff.2 (Nat.le_of_not_lt short)]
    simp only [lacks?, pointer_drop, Nat.sub_lt_iff_lt_add' (Nat.le_of_not_lt short)]
    rfl

@[simp] theorem lacks?_zero (s : Store) : s.lacks? 0 = none := rfl

theorem Live.lacksRoom?_zero (live : s.Live) : s.lacksRoom? 0 = none :=
  lacksRoom?_eq_none_iff.2 live.pointer_le

end Store

namespace Effect

variable {α β : Type} {x : Effect α} {s t u : Store} {f? g? : Option Fault} {a : α} {b : β}

theorem bind_of_ok {k : α → Effect β} (h : x s = .ok a t) : (x >>= k) s = k a t := by
  change EStateM.bind x k s = _
  rw [EStateM.bind, h]

theorem bind_of_error {k : α → Effect β} {f : Fault} (h : x s = .error f t) :
    (x >>= k) s = .error f t := by
  change EStateM.bind x k s = _
  rw [EStateM.bind, h]

/-- The effect fails with `f?` if that is some fault, and has changed no more than the pointer
and the latch; otherwise it gives `a` and leaves `t`. -/
def Meets (x : Effect α) (s : Store) (f? : Option Fault) (a : α) (t : Store) : Prop :=
  match f? with
  | some f => ∃ pointer, x s = .error f ⟨s.memory, { s.stack with pointer, latch := f.latch }⟩
  | none => x s = .ok a t

/-- Checks are made in the order of the effects, as long as the first of them only pops. -/
theorem Meets.bind {n : Nat} {k : α → Effect β} (hx : x.Meets s f? a (s.drop n))
    (hk : f? = none → (k a).Meets (s.drop n) g? b u) : (x >>= k).Meets s (f?.or g?) b u := by
  cases f? with
  | some f =>
    obtain ⟨pointer, eq⟩ := hx
    exact ⟨pointer, bind_of_error eq⟩
  | none =>
    have eq : (x >>= k) s = k a (s.drop n) := bind_of_ok hx
    cases g? with
    | some g =>
      obtain ⟨pointer, eq'⟩ := hk rfl
      exact ⟨pointer, eq.trans eq'⟩
    | none => exact eq.trans (hk rfl)

/-- A first effect of any kind, and a second one that cannot fail after it. -/
theorem Meets.seq {k : α → Effect β} (hx : x.Meets s f? a t)
    (hk : f? = none → (k a).Meets t none b u) : (x >>= k).Meets s f? b u := by
  cases f? with
  | some f =>
    obtain ⟨pointer, eq⟩ := hx
    exact ⟨pointer, bind_of_error eq⟩
  | none => exact (bind_of_ok hx).trans (hk rfl)

theorem Meets.of_error {f : Fault} (hx : x.Meets s f? a t) (h : x s = .error f u) :
    f? = some f ∧ ∃ pointer, u = ⟨s.memory, { s.stack with pointer, latch := f.latch }⟩ := by
  cases f? with
  | none => cases h.symm.trans hx
  | some g =>
    obtain ⟨pointer, eq⟩ := hx
    cases h.symm.trans eq
    exact ⟨rfl, pointer, rfl⟩

theorem ofStack_of_ok {y : StackM α} (h : y s = .ok a t) :
    (liftM y : Effect α) s = .ok a t := by
  change ofStack y s = _
  rw [ofStack, h]

theorem ofStack_of_error {y : StackM α} {e : StackError} (h : y s = .error e t) :
    (liftM y : Effect α) s = .error (.stack e) t := by
  change ofStack y s = _
  rw [ofStack, h]

/-- A fault that is no latch leaves a live store as it was. -/
theorem meets_of_error (live : s.Live) {f : Fault} (h : x s = .error f s)
    (active : f.latch = .active) : x.Meets s (some f) a t :=
  ⟨s.stack.pointer, by rw [h, active, ← live.active]⟩

end Effect

namespace Memory

theorem slice_eq_take_drop (m : Memory) (start width : Nat) :
    m.slice start width = (m.bytes.toList.drop start).take width := by
  unfold slice
  rw [Array.toList_extract, List.extract_eq_take_drop, Nat.add_sub_cancel_left]

theorem get_of_le {m : Memory} {t : Ty} {start : Nat} (h : start + t.width ≤ m.size) :
    m.get t (start : Int) = .ok (t.decode (m.slice start t.width)) := by
  rw [get, locate_eq_ok_iff.2 ⟨rfl, h⟩]

theorem get_of_not {m : Memory} {t : Ty} {address : Int}
    (h : ¬ (0 ≤ address ∧ address + t.width ≤ m.size)) :
    m.get t address = .error ⟨address, t.width, m.size⟩ := by
  rw [get, locate_eq_error_iff.2 ⟨h, rfl⟩]

theorem le_of_get {m : Memory} {t : Ty} {start : Nat} {v : t.Val}
    (h : m.get t (start : Int) = .ok v) : start + t.width ≤ m.size := by
  apply Decidable.byContradiction
  intro outside
  rw [get_of_not (by omega)] at h
  cases h

theorem put_of_le {m : Memory} {t : Ty} {start : Nat} (v : t.Val) (h : start + t.width ≤ m.size) :
    m.put (start : Int) v = .ok (m.overwrite start (t.encode v)) := by
  rw [put, writeBytes, Ty.length_encode, locate_eq_ok_iff.2 ⟨rfl, h⟩]

theorem put_of_not {m : Memory} {t : Ty} {address : Int} (v : t.Val)
    (h : ¬ (0 ≤ address ∧ address + t.width ≤ m.size)) :
    m.put address v = .error ⟨address, t.width, m.size⟩ := by
  rw [put, writeBytes, Ty.length_encode, locate_eq_error_iff.2 ⟨h, rfl⟩]

end Memory

namespace Store

open Effect

variable {s : Store} (live : s.Live)
include live

theorem pop_meets (t : Ty) :
    (liftM (pop t) : Effect t.Val).Meets s (s.lacks? t.width) (s.operand t t.width)
      (s.drop t.width) := by
  have := live.base_add_size
  have := live.pointer_le
  by_cases short : s.stack.pointer < t.width
  · rw [lacks?_of_lt short]
    refine ⟨s.stack.pointer, ofStack_of_error ?_⟩
    rw [pop, live.isBlocked, if_neg Bool.false_ne_true, if_pos short]
    rfl
  · rw [lacks?_eq_none_iff.2 (Nat.le_of_not_lt short)]
    refine ofStack_of_ok ?_
    rw [pop, live.isBlocked, if_neg Bool.false_ne_true, if_neg short,
      live.address (by omega), Memory.get_of_le (by omega)]
    rfl

theorem pop_pop_meets {β : Type} {t u : Ty} {k : t.Val → u.Val → Effect β} {g? : Option Fault}
    {b : β} {after : Store}
    (hk : s.lacks? (t.width + u.width) = none →
      (k (s.operand t t.width) (s.operand u (t.width + u.width))).Meets
        (s.drop (t.width + u.width)) g? b after) :
    (liftM (pop t) >>= fun v => liftM (pop u) >>= k v : Effect β).Meets s
      ((s.lacks? (t.width + u.width)).or g?) b after := by
  rw [← lacks?_add, Option.or_assoc]
  refine (pop_meets live t).bind fun first => ?_
  refine (pop_meets (live.drop t.width) u).bind fun second => ?_
  rw [operand_drop, drop_drop]
  exact hk (by rw [← lacks?_add, first, second]; rfl)

theorem push_meets {t : Ty} (v : t.Val) :
    (liftM (push v) : Effect Unit).Meets s (s.lacksRoom? t.width) ()
      ⟨s.memory.overwrite (s.stack.base + s.stack.pointer) (t.encode v),
        { s.stack with pointer := s.stack.pointer + t.width }⟩ := by
  have := live.base_add_size
  by_cases full : s.stack.size < s.stack.pointer + t.width
  · rw [lacksRoom?, if_pos full]
    refine ⟨s.stack.pointer, ofStack_of_error ?_⟩
    rw [push, live.isBlocked, if_neg Bool.false_ne_true, if_pos full]
    rfl
  · rw [lacksRoom?, if_neg full]
    refine ofStack_of_ok ?_
    rw [push, live.isBlocked, if_neg Bool.false_ne_true, if_neg full,
      live.address live.pointer_le, Memory.put_of_le v (by omega)]

theorem load_meets (t : Ty) (address : Int) :
    (load t address).Meets s (s.outside? address t.width) (s.valueAt t address.toNat) s := by
  by_cases inside : 0 ≤ address ∧ address + t.width ≤ s.memory.size
  · obtain ⟨start, rfl⟩ := Int.eq_ofNat_of_zero_le inside.1
    rw [outside?_eq_none_iff.2 inside]
    simp only [Meets, load, Memory.get_of_le (Int.ofNat_le.1 inside.2)]
    rfl
  · rw [outside?_of_not inside]
    exact meets_of_error live (by rw [load, Memory.get_of_not inside]) rfl

theorem store_meets {t : Ty} (address : Int) (v : t.Val) :
    (store address v).Meets s (s.outside? address t.width) ()
      { s with memory := s.memory.overwrite address.toNat (t.encode v) } := by
  by_cases inside : 0 ≤ address ∧ address + t.width ≤ s.memory.size
  · obtain ⟨start, rfl⟩ := Int.eq_ofNat_of_zero_le inside.1
    rw [outside?_eq_none_iff.2 inside]
    simp only [Meets, store, Memory.put_of_le v (Int.ofNat_le.1 inside.2)]
    rfl
  · rw [outside?_of_not inside]
    exact meets_of_error live (by rw [store, Memory.put_of_not v inside]) rfl

theorem slot_of_inside {offset : Int64} {width : Nat}
    (inside : s.outsideWindow? offset width = none) :
    s.stack.slot offset width = .ok (s.stack.pointer + offset.toInt).toNat := by
  rw [outsideWindow?_eq_none_iff] at inside
  have := live.base_add_size
  have := live.addressable
  have fits : signed (s.stack.pointer + offset.toInt) = s.stack.pointer + offset.toInt := by
    rw [← Int.toNat_of_nonneg inside.1]
    exact signed_of_lt (by omega)
  simp only [Stack.slot, ne_eq, fits, not_true_eq_false, if_false, inside, and_self, if_true]

omit live in
theorem slot_of_outside {offset : Int64} {width : Nat} {f : Fault}
    (outside : s.outsideWindow? offset width = some f) :
    ∃ e, f = .stack (.memory e) ∧ s.stack.slot offset width = .error e := by
  have place_outside : ¬ (0 ≤ s.stack.pointer + offset.toInt ∧
      s.stack.pointer + offset.toInt + width ≤ s.stack.size) := by
    rw [← outsideWindow?_eq_none_iff, outside]
    exact Option.some_ne_none f
  simp only [outsideWindow?, Option.ite_none_left_eq_some, Option.some.injEq] at outside
  refine ⟨_, outside.2.symm, ?_⟩
  by_cases fits : signed (s.stack.pointer + offset.toInt) = s.stack.pointer + offset.toInt
  · simp only [Stack.slot, ne_eq, fits, not_true_eq_false, if_false, place_outside, if_true]
  · simp only [Stack.slot, ne_eq, fits, not_false_eq_true, if_true, if_false]

theorem peek_meets (t : Ty) (offset : Int64) :
    (liftM (peek t offset) : Effect t.Val).Meets s (s.outsideWindow? offset t.width)
      (s.valueAt t (s.stack.base + (s.stack.pointer + offset.toInt).toNat)) s := by
  cases outside : s.outsideWindow? offset t.width with
  | some f =>
    obtain ⟨e, rfl, eq⟩ := slot_of_outside outside
    refine meets_of_error live (ofStack_of_error ?_) rfl
    rw [peek, live.isBlocked, if_neg Bool.false_ne_true, eq]
  | none =>
    have inside := outsideWindow?_eq_none_iff.1 outside
    have := live.base_add_size
    refine ofStack_of_ok ?_
    rw [peek, live.isBlocked, if_neg Bool.false_ne_true, slot_of_inside live outside]
    -- A variable stands for the access: evaluating the folded address would not end.
    obtain ⟨get, get_eq⟩ : ∃ get, s.memory.get t = get := ⟨_, rfl⟩
    rw [get_eq]
    dsimp only
    rw [← get_eq, live.address (by omega), Memory.get_of_le (by omega), valueAt]

theorem poke_meets {t : Ty} (offset : Int64) (v : t.Val) :
    (liftM (poke offset v) : Effect Unit).Meets s (s.outsideWindow? offset t.width) ()
      ⟨s.memory.overwrite (s.stack.base + (s.stack.pointer + offset.toInt).toNat) (t.encode v),
        s.stack⟩ := by
  cases outside : s.outsideWindow? offset t.width with
  | some f =>
    obtain ⟨e, rfl, eq⟩ := slot_of_outside outside
    refine meets_of_error live (ofStack_of_error ?_) rfl
    rw [poke, live.isBlocked, if_neg Bool.false_ne_true, eq]
  | none =>
    have inside := outsideWindow?_eq_none_iff.1 outside
    have := live.base_add_size
    refine ofStack_of_ok ?_
    rw [poke, live.isBlocked, if_neg Bool.false_ne_true, slot_of_inside live outside]
    obtain ⟨put, put_eq⟩ : ∃ put : Int → t.Val → _, s.memory.put = put := ⟨_, rfl⟩
    rw [put_eq]
    dsimp only
    rw [← put_eq, live.address (by omega), Memory.put_of_le v (by omega)]

theorem target_meets (address : Int64) :
    (target address).Meets s (s.astray? address) address.toInt.toNat s := by
  by_cases inside : 0 ≤ address.toInt ∧ address.toInt < s.memory.size
  · rw [astray?, if_pos inside]
    exact if_pos inside
  · rw [astray?, if_neg inside]
    exact meets_of_error live (if_neg inside) rfl

end Store
end ByteMachine
