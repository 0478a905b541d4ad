import ByteMachine.Proofs.Latch
import ByteMachine.Proofs.Window

/-! The window as a list of bytes that grows and shrinks at its end. What is pushed comes back in
the opposite order, whatever was written over the same memory before. -/
namespace ByteMachine

namespace Memory

variable {m : Memory} {start width : Nat} {data : List UInt8}

theorem getElem?_slice (m : Memory) (start width k : Nat) :
    (m.slice start width)[k]? = if k < width then m.bytes[start + k]? else none := by
  rw [slice_eq_take_drop, List.getElem?_take, List.getElem?_drop, Array.getElem?_toList]

theorem slice_congr {m' : Memory}
    (h : ∀ k, start ≤ k → k < start + width → m'.bytes[k]? = m.bytes[k]?) :
    m'.slice start width = m.slice start width := by
  apply List.ext_getElem?
  intro k
  rw [getElem?_slice, getElem?_slice]
  split
  · exact h _ (Nat.le_add_right _ _) (by omega)
  · rfl

theorem slice_add (m : Memory) (start a b : Nat) :
    m.slice start (a + b) = m.slice start a ++ m.slice (start + a) b := by
  simp only [slice_eq_take_drop, List.take_add, List.drop_drop]

theorem slice_overwrite (h : start + data.length ≤ m.size) :
    (m.overwrite start data).slice start data.length = data := by
  apply List.ext_getElem?
  intro k
  rw [getElem?_slice, getElem?_overwrite]
  split
  · rw [if_pos (by omega), Nat.add_sub_cancel_left]
  · rw [List.getElem?_eq_none (by omega)]

theorem slice_overwrite_of_le (m : Memory) (data : List UInt8) {place : Nat}
    (h : start + width ≤ place) :
    (m.overwrite place data).slice start width = m.slice start width := by
  apply slice_congr
  intro k _ below
  rw [getElem?_overwrite, if_neg (by omega)]

theorem writeBytes_of_le (h : start + data.length ≤ m.size) :
    m.writeBytes (start : Int) data = .ok (m.overwrite start data) := by
  rw [writeBytes, locate_eq_ok_iff.2 ⟨rfl, h⟩]

theorem size_of_writeBytes {m' : Memory} {address : Int}
    (h : m.writeBytes address data = .ok m') : m'.size = m.size := by
  unfold writeBytes at h
  split at h
  · obtain rfl := Except.ok.inj h
    exact m.size_overwrite _ _
  · cases h

end Memory

theorem Effect.Meets.eq_ok_iff {α : Type} {x : StackM α} {s t u : Store} {f? : Option Fault}
    {a b : α} (meets : (liftM x : Effect α).Meets s f? a t) :
    x s = .ok b u ↔ f? = none ∧ b = a ∧ u = t := by
  have lifted : (liftM x : Effect α) s = Effect.ofStack x s := rfl
  cases f? with
  | some f =>
    obtain ⟨pointer, eq⟩ := meets
    rw [lifted, Effect.ofStack] at eq
    constructor
    · intro ok
      rw [ok] at eq
      cases eq
    · rintro ⟨none, -⟩
      cases none
  | none =>
    have eq : (liftM x : Effect α) s = .ok a t := meets
    rw [lifted, Effect.ofStack] at eq
    cases ran : x s with
    | error e t' =>
      rw [ran] at eq
      cases eq
    | ok a' t' =>
      rw [ran] at eq
      cases eq
      simp [eq_comm]

namespace Store

/-- The window ends where the memory does, and all addresses are ints. -/
structure Framed (s : Store) : Prop where
  base_add_size : s.stack.base + s.stack.size = s.memory.size
  pointer_le : s.stack.pointer ≤ s.stack.size
  addressable : s.memory.size < Memory.addressLimit

/-- The stores that calls on the stack and direct writes to the memory lead to. -/
inductive Leads (s : Store) : Store → Prop
  | refl : Leads s s
  | operation {t : Store} (o : Operation) : Leads s t → Leads s (o.perform t).2
  | write {t : Store} {m : Memory} (address : Int) (data : List UInt8) : Leads s t →
      t.memory.writeBytes address data = .ok m → Leads s { t with memory := m }

/-- How many more bytes can be pushed: none once the stack has latched. -/
def free (s : Store) : Nat := if s.stack.isBlocked then 0 else s.stack.size - s.stack.pointer

variable {s u : Store} {t : Ty}

theorem Framed.live (framed : s.Framed) (active : s.stack.latch = .active) : s.Live :=
  ⟨framed.base_add_size, framed.pointer_le, framed.addressable, active⟩

theorem Live.framed (live : s.Live) : s.Framed :=
  ⟨live.base_add_size, live.pointer_le, live.addressable⟩

theorem Live.free (live : s.Live) : s.free = s.stack.size - s.stack.pointer := by
  rw [Store.free, live.isBlocked, if_neg Bool.false_ne_true]

theorem Framed.live_of_free_pos (framed : s.Framed) (h : 0 < s.free) : s.Live := by
  apply framed.live
  apply Decidable.byContradiction
  intro latched
  have blocked : s.stack.isBlocked := by simpa [Stack.isBlocked] using latched
  rw [Store.free, if_pos blocked] at h
  exact Nat.lt_irrefl 0 h

section Live

variable (live : s.Live)
include live

theorem push_eq_ok_iff {v : t.Val} : push v s = .ok () u ↔
    s.stack.pointer + t.width ≤ s.stack.size ∧
      u = ⟨s.memory.overwrite (s.stack.base + s.stack.pointer) (t.encode v),
        { s.stack with pointer := s.stack.pointer + t.width }⟩ := by
  rw [(push_meets live v).eq_ok_iff, lacksRoom?_eq_none_iff, eq_self, true_and]

theorem pop_eq_ok_iff {v : t.Val} : pop t s = .ok v u ↔
    t.width ≤ s.stack.pointer ∧ v = s.operand t t.width ∧ u = s.drop t.width := by
  rw [(pop_meets live t).eq_ok_iff, lacks?_eq_none_iff]

theorem peek_eq_ok_iff {offset : Int64} {v : t.Val} : peek t offset s = .ok v u ↔
    (0 ≤ s.stack.pointer + offset.toInt ∧
      s.stack.pointer + offset.toInt + t.width ≤ s.stack.size) ∧
    v = s.valueAt t (s.stack.base + (s.stack.pointer + offset.toInt).toNat) ∧ u = s := by
  rw [(peek_meets live t offset).eq_ok_iff, outsideWindow?_eq_none_iff]

theorem poke_eq_ok_iff {offset : Int64} {v : t.Val} : poke offset v s = .ok () u ↔
    (0 ≤ s.stack.pointer + offset.toInt ∧
      s.stack.pointer + offset.toInt + t.width ≤ s.stack.size) ∧
    u = ⟨s.memory.overwrite (s.stack.base + (s.stack.pointer + offset.toInt).toNat) (t.encode v),
      s.stack⟩ := by
  rw [(poke_meets live offset v).eq_ok_iff, outsideWindow?_eq_none_iff, eq_self, true_and]

end Live

end Store

namespace Operation

variable {s t : Store} {o : Operation} {v? : Option Value}

theorem answer_eq_ok_iff {α : Type} {f : α → Option Value}
    {r : EStateM.Result StackError Store α} :
    answer f r = (.ok v?, t) ↔ ∃ a, r = .ok a t ∧ f a = v? := by
  cases r with
  | ok a u =>
    constructor
    · intro h
      cases h
      exact ⟨a, rfl, rfl⟩
    · rintro ⟨a, eq, rfl⟩
      cases eq
      rfl
  | error e u => simp [answer]

theorem active_of_ok (h : o.perform s = (.ok v?, t)) : s.stack.latch = .active := by
  apply Decidable.byContradiction
  intro latched
  have blocked := (o.governed s).blocked_iff.2 latched
  rw [h] at blocked
  cases blocked

theorem memory_perform (framed : s.Framed) (o : Operation) :
    (o.perform s).2.memory = s.memory ∨ ∃ start data, s.stack.base ≤ start ∧
      start + data.length ≤ s.stack.base + s.stack.size ∧
      (o.perform s).2.memory = s.memory.overwrite start data := by
  cases result : o.perform s with
  | mk a t =>
    cases a with
    | error e =>
      have undone := (o.governed s).of_error e (by rw [result])
      rw [result] at undone
      exact .inl undone.1
    | ok v? =>
      have live := framed.live (active_of_ok result)
      cases o with
      | push v =>
        obtain ⟨_, pushed, -⟩ := answer_eq_ok_iff.1 result
        obtain ⟨fits, rfl⟩ := (Store.push_eq_ok_iff live).1 pushed
        refine .inr ⟨_, _, Nat.le_add_right _ _, ?_, rfl⟩
        rw [Ty.length_encode]
        omega
      | pop ty =>
        obtain ⟨v, popped, -⟩ := answer_eq_ok_iff.1 result
        obtain ⟨-, -, rfl⟩ := (Store.pop_eq_ok_iff live).1 popped
        exact .inl rfl
      | peek ty offset =>
        obtain ⟨v, peeked, -⟩ := answer_eq_ok_iff.1 result
        obtain ⟨-, -, rfl⟩ := (Store.peek_eq_ok_iff live).1 peeked
        exact .inl rfl
      | poke offset v =>
        obtain ⟨_, poked, -⟩ := answer_eq_ok_iff.1 result
        obtain ⟨inside, rfl⟩ := (Store.poke_eq_ok_iff live).1 poked
        refine .inr ⟨_, _, Nat.le_add_right _ _, ?_, rfl⟩
        rw [Ty.length_encode]
        omega

theorem framed_perform (framed : s.Framed) (o : Operation) : (o.perform s).2.Framed := by
  obtain ⟨base, size⟩ := o.window_perform s
  have memory_size : (o.perform s).2.memory.size = s.memory.size := by
    obtain same | ⟨start, data, -, -, written⟩ := o.memory_perform framed
    · rw [same]
    · rw [written, Memory.size_overwrite]
  constructor
  · rw [base, size, memory_size, framed.base_add_size]
  · rw [size]
    exact o.pointer_perform_le framed.pointer_le
  · rw [memory_size]
    exact framed.addressable

end Operation

namespace Store

theorem Framed.leads {s t : Store} (framed : s.Framed) (leads : s.Leads t) : t.Framed := by
  induction leads with
  | refl => exact framed
  | operation o _ ih => exact o.framed_perform ih
  | write address data _ written ih =>
    have size := Memory.size_of_writeBytes written
    exact ⟨ih.base_add_size.trans size.symm, ih.pointer_le, size.symm ▸ ih.addressable⟩

theorem framed_of_ofSizes? {s : Store} {size : Nat}
    (fresh : Stack.ofSizes? s.memory.size size = some s.stack)
    (addressable : s.memory.size < Memory.addressLimit) : s.Framed := by
  obtain ⟨fits, eq⟩ := Stack.ofSizes?_eq_some_iff.1 fresh
  refine ⟨?_, ?_, addressable⟩
  · rw [eq]
    exact Nat.sub_add_cancel fits
  · rw [eq]
    exact Nat.zero_le size

section Contents

variable {s t u : Store} {ty : Ty} {a b : List UInt8}

theorem Framed.live_of_ok (framed : s.Framed) (o : Operation) {v? : Option Value}
    (h : o.perform s = (.ok v?, t)) : s.Live := framed.live (Operation.active_of_ok h)

theorem Framed.window_le (framed : s.Framed) :
    s.stack.base + s.stack.pointer ≤ s.memory.size := by
  have := framed.base_add_size
  have := framed.pointer_le
  omega

theorem Framed.length_contents (framed : s.Framed) : s.contents.length = s.stack.pointer :=
  Memory.length_slice framed.window_le

theorem contents_drop {n : Nat} (h : n ≤ s.stack.pointer) : s.contents =
    (s.drop n).contents ++ s.memory.slice (s.stack.base + (s.stack.pointer - n)) n := by
  change s.memory.slice _ s.stack.pointer =
    s.memory.slice s.stack.base (s.stack.pointer - n) ++ _
  rw [← Memory.slice_add, Nat.sub_add_cancel h]

theorem Framed.valueAt_eq (framed : s.Framed) {v : ty.Val}
    (h : s.contents = a ++ ty.encode v ++ b) : s.valueAt ty (s.stack.base + a.length) = v := by
  have length := congrArg List.length h
  have width := Ty.length_encode v
  simp only [framed.length_contents, List.length_append] at length
  have split : s.contents = s.memory.slice s.stack.base a.length ++
      (s.memory.slice (s.stack.base + a.length) ty.width ++
        s.memory.slice (s.stack.base + a.length + ty.width) b.length) := by
    rw [← Memory.slice_add, ← Memory.slice_add]
    change s.memory.slice _ _ = _
    congr 1
    omega
  rw [h, List.append_assoc] at split
  have fits := framed.window_le
  have rest := List.append_inj_right split (Memory.length_slice (by omega)).symm
  have bytes := List.append_inj_left rest (width.trans (Memory.length_slice (by omega)).symm)
  rw [valueAt, ← bytes, Ty.decode_encode]

/-- The store `t` is `s` with some bytes pushed. -/
structure Pushed (s t : Store) (bytes : List UInt8) : Prop where
  live : t.Live
  stack_eq : t.stack = { s.stack with pointer := s.stack.pointer + bytes.length }
  contents_eq : t.contents = s.contents ++ bytes

theorem Pushed.trans (first : s.Pushed t a) (second : t.Pushed u b) : s.Pushed u (a ++ b) where
  live := second.live
  stack_eq := by simp only [second.stack_eq, first.stack_eq, List.length_append, Nat.add_assoc]
  contents_eq := by rw [second.contents_eq, first.contents_eq, List.append_assoc]

theorem pushed_of_push (live : s.Live) {v : ty.Val} (h : push v s = .ok () t) :
    s.Pushed t (ty.encode v) := by
  obtain ⟨fits, rfl⟩ := (push_eq_ok_iff live).1 h
  have window := live.base_add_size
  have width := Ty.length_encode v
  constructor
  · exact live.pushed v fits
  · rw [width]
  · change Memory.slice _ s.stack.base (s.stack.pointer + ty.width) = _
    rw [Memory.slice_add, Memory.slice_overwrite_of_le _ _ (Nat.le_refl _), ← width,
      Memory.slice_overwrite (by omega)]
    rfl

theorem pop_of_contents (live : s.Live) {v : ty.Val} (h : s.contents = a ++ ty.encode v) :
    pop ty s = .ok v (s.drop ty.width) ∧ (s.drop ty.width).contents = a := by
  have framed := live.framed
  have length := congrArg List.length h
  rw [framed.length_contents, List.length_append, Ty.length_encode] at length
  have enough : ty.width ≤ s.stack.pointer := by omega
  have there := framed.valueAt_eq (b := []) (h.trans (List.append_nil _).symm)
  constructor
  · refine (pop_eq_ok_iff live).2 ⟨enough, ?_, rfl⟩
    rw [operand, ← there]
    congr 2
    omega
  · have fits := framed.window_le
    rw [contents_drop enough] at h
    refine List.append_inj_left' h ?_
    rw [Memory.length_slice (by omega), Ty.length_encode]

theorem peek_of_contents (live : s.Live) {v : ty.Val} {offset : Int64}
    (h : s.contents = a ++ ty.encode v ++ b) (below : offset.toInt = -(ty.width + b.length : Nat)) :
    peek ty offset s = .ok v s := by
  have length := congrArg List.length h
  simp only [live.framed.length_contents, List.length_append, Ty.length_encode] at length
  have inside := live.pointer_le
  refine (peek_eq_ok_iff live).2 ⟨by omega, ?_, rfl⟩
  rw [← live.framed.valueAt_eq h]
  congr 2
  omega

end Contents

/-- Pushes values in their order. -/
def pushAll : List Value → StackM Unit
  | [] => return ()
  | v :: vs => do
    push v.val
    pushAll vs

/-- Pops one value of each type, the first type first. -/
def popAll : List Ty → StackM (List Value)
  | [] => return []
  | t :: ts => do
    let v ← pop t
    return ⟨v⟩ :: (← popAll ts)

end Store

namespace Value

def encodeAll (vs : List Value) : List UInt8 := vs.flatMap encode

def totalWidth : List Value → Nat
  | [] => 0
  | v :: vs => v.ty.width + totalWidth vs

theorem length_encodeAll (vs : List Value) : (encodeAll vs).length = totalWidth vs := by
  induction vs with
  | nil => rfl
  | cons v vs ih =>
    rw [encodeAll, List.flatMap_cons, List.length_append, length_encode, ← encodeAll, ih,
      totalWidth]

theorem totalWidth_append (vs ws : List Value) :
    totalWidth (vs ++ ws) = totalWidth vs + totalWidth ws := by
  rw [← length_encodeAll, encodeAll, List.flatMap_append, List.length_append, ← encodeAll,
    ← encodeAll, length_encodeAll, length_encodeAll]

theorem totalWidth_reverse (vs : List Value) : totalWidth vs.reverse = totalWidth vs := by
  induction vs with
  | nil => rfl
  | cons v vs ih =>
    rw [List.reverse_cons, totalWidth_append, ih, Nat.add_comm]
    rfl

theorem totalWidth_pos (v : Value) (vs : List Value) : 0 < totalWidth (v :: vs) := by
  have := v.ty.width_pos
  simp only [totalWidth]
  omega

end Value

namespace Store

open Value

variable {s t u : Store} {a : List UInt8}

theorem pushAll_cons {v : Value} {vs : List Value} (h : push v.val s = .ok () t) :
    pushAll (v :: vs) s = pushAll vs t := by
  change EStateM.bind _ _ s = _
  rw [EStateM.bind, h]

theorem popAll_cons {ty : Ty} {ts : List Ty} {v : ty.Val} {vs : List Value}
    (first : pop ty s = .ok v t) (rest : popAll ts t = .ok vs u) :
    popAll (ty :: ts) s = .ok (⟨v⟩ :: vs) u := by
  change EStateM.bind _ _ s = _
  rw [EStateM.bind, first]
  change EStateM.bind _ _ t = _
  rw [EStateM.bind, rest]
  rfl

theorem pushAll_of_le {vs : List Value} (live : s.Live)
    (fits : totalWidth vs ≤ s.stack.size - s.stack.pointer) :
    ∃ t, pushAll vs s = .ok () t ∧ s.Pushed t (encodeAll vs) := by
  induction vs generalizing s with
  | nil => exact ⟨s, rfl, live, rfl, (List.append_nil _).symm⟩
  | cons v vs ih =>
    simp only [totalWidth] at fits ih
    have inside := live.pointer_le
    have positive := v.ty.width_pos
    have pushes : push v.val s = .ok () _ := (push_eq_ok_iff live).2 ⟨by omega, rfl⟩
    have first := pushed_of_push live pushes
    obtain ⟨t, eq, rest⟩ := ih first.live (by dsimp only; omega)
    exact ⟨t, (pushAll_cons pushes).trans eq, first.trans rest⟩

theorem le_free_of_pushAll {vs : List Value} (framed : s.Framed)
    (h : pushAll vs s = .ok () t) : totalWidth vs ≤ s.free := by
  induction vs generalizing s with
  | nil => exact Nat.zero_le _
  | cons v vs ih =>
    cases pushes : push v.val s with
    | error e u =>
      change EStateM.bind _ _ s = _ at h
      rw [EStateM.bind, pushes] at h
      cases h
    | ok _ u =>
      have live := framed.live_of_ok (.push v) (Operation.answer_eq_ok_iff.2 ⟨(), pushes, rfl⟩)
      have pushed := pushed_of_push live pushes
      have rest := ih pushed.live.framed (pushAll_cons pushes ▸ h)
      obtain ⟨room, -⟩ := (push_eq_ok_iff live).1 pushes
      rw [pushed.live.free, pushed.stack_eq, Ty.length_encode] at rest
      rw [live.free]
      simp only [totalWidth] at rest ⊢
      omega

theorem pushAll_of_le_free {vs : List Value} (framed : s.Framed) (fits : totalWidth vs ≤ s.free) :
    ∃ t, pushAll vs s = .ok () t := by
  cases vs with
  | nil => exact ⟨s, rfl⟩
  | cons v vs =>
    have live := framed.live_of_free_pos (Nat.lt_of_lt_of_le (totalWidth_pos v vs) fits)
    obtain ⟨t, pushes, -⟩ := pushAll_of_le live (live.free ▸ fits)
    exact ⟨t, pushes⟩

theorem pushed_of_pushAll {vs : List Value} (live : s.Live) (h : pushAll vs s = .ok () t) :
    s.Pushed t (encodeAll vs) := by
  have fits := le_free_of_pushAll live.framed h
  obtain ⟨t', pushes, pushed⟩ := pushAll_of_le live (live.free ▸ fits)
  cases h.symm.trans pushes
  exact pushed

theorem popAll_of_contents {vs : List Value} (live : s.Live)
    (h : s.contents = a ++ encodeAll vs.reverse) :
    popAll (vs.map (·.ty)) s = .ok vs (s.drop (totalWidth vs)) ∧
      (s.drop (totalWidth vs)).contents = a := by
  induction vs generalizing s with
  | nil => exact ⟨rfl, h.trans (List.append_nil a)⟩
  | cons v vs ih =>
    have last : encodeAll (v :: vs).reverse = encodeAll vs.reverse ++ v.encode := by
      simp [encodeAll]
    rw [last, ← List.append_assoc] at h
    obtain ⟨popped, left⟩ := pop_of_contents live h
    obtain ⟨rest, emptied⟩ := ih (live.drop v.ty.width) left
    rw [drop_drop] at rest emptied
    exact ⟨popAll_cons popped rest, emptied⟩

theorem peek_of_encodeAll {v : Value} {later : List Value} (live : s.Live)
    (h : s.contents = a ++ encodeAll (v :: later)) :
    peek v.ty (Int64.ofInt (-totalWidth (v :: later))) s = .ok v.val s := by
  have length := congrArg List.length h
  rw [live.framed.length_contents, List.length_append, length_encodeAll] at length
  have inside := live.pointer_le
  have window := live.base_add_size
  have small := live.addressable
  simp only [Memory.addressLimit] at small
  apply peek_of_contents (a := a) (b := encodeAll later) live
  · rw [h, List.append_assoc]
    rfl
  · rw [length_encodeAll, Int64.toInt_ofInt_of_le (by omega) (by omega)]
    rfl

/-- What the calls on a stack do to the list of bytes that are its contents. Values that fit can all
be pushed; then each is found as far below the pointer as it and the later ones are wide, and they
are popped from the last one to the first. -/
structure LastInFirstOut (s : Store) : Prop where
  push : ∀ (v : Value) t, push v.val s = .ok () t → t.contents = s.contents ++ v.encode
  pop : ∀ ty v t, pop ty s = .ok v t →
    ∃ top, s.contents = t.contents ++ top ∧ top.length = ty.width ∧ v = ty.decode top
  peek : ∀ ty offset v t, peek ty offset s = .ok v t → t = s ∧ ∃ start : Nat,
    start = s.stack.base + s.stack.pointer + offset.toInt ∧
    v = ty.decode (s.memory.slice start ty.width) ∧ s.memory.get ty start = .ok v
  poke : ∀ offset (v : Value) t, poke offset v.val s = .ok () t →
    t.stack = s.stack ∧ t.memory.size = s.memory.size ∧ ∃ start : Nat,
      start = s.stack.base + s.stack.pointer + offset.toInt ∧
      s.stack.base ≤ start ∧ start + v.ty.width ≤ s.stack.base + s.stack.size ∧
      t.memory.slice start v.ty.width = v.encode ∧
      ∀ address, ¬ (start ≤ address ∧ address < start + v.ty.width) →
        t.memory.bytes[address]? = s.memory.bytes[address]?
  frame : ∀ (o : Operation) address,
    ¬ (s.stack.base ≤ address ∧ address < s.stack.base + s.stack.size) →
      (o.perform s).2.memory.bytes[address]? = s.memory.bytes[address]?
  fits_iff : ∀ vs, (∃ t, pushAll vs s = .ok () t) ↔ totalWidth vs ≤ s.free
  pushed : ∀ vs t, pushAll vs s = .ok () t →
    (∀ earlier v later, vs = earlier ++ v :: later →
      Store.peek v.ty (Int64.ofInt (-totalWidth (v :: later))) t = .ok v.val t) ∧
    ∃ u, popAll (vs.reverse.map (·.ty)) t = .ok vs.reverse u ∧
      u.stack = s.stack ∧ u.contents = s.contents

theorem Framed.lastInFirstOut {s : Store} (framed : s.Framed) : s.LastInFirstOut where
  push v t h := by
    have live := framed.live_of_ok (.push v) (Operation.answer_eq_ok_iff.2 ⟨(), h, rfl⟩)
    exact (pushed_of_push live h).contents_eq
  pop ty v t h := by
    have live := framed.live_of_ok (.pop ty) (Operation.answer_eq_ok_iff.2 ⟨v, h, rfl⟩)
    obtain ⟨enough, rfl, rfl⟩ := (pop_eq_ok_iff live).1 h
    have fits := framed.window_le
    exact ⟨_, contents_drop enough, Memory.length_slice (by omega), rfl⟩
  peek ty offset v t h := by
    have live := framed.live_of_ok (.peek ty offset) (Operation.answer_eq_ok_iff.2 ⟨v, h, rfl⟩)
    obtain ⟨inside, rfl, rfl⟩ := (peek_eq_ok_iff live).1 h
    have window := framed.base_add_size
    exact ⟨rfl, _, by omega, rfl, Memory.get_of_le (by omega)⟩
  poke offset v t h := by
    have live := framed.live_of_ok (.poke offset v) (Operation.answer_eq_ok_iff.2 ⟨(), h, rfl⟩)
    obtain ⟨inside, rfl⟩ := (poke_eq_ok_iff live).1 h
    have window := framed.base_add_size
    have width := Ty.length_encode v.val
    refine ⟨rfl, Memory.size_overwrite .., s.stack.base + (s.stack.pointer + offset.toInt).toNat,
      by omega, by omega, by omega, ?bytes, ?rest⟩
    case bytes =>
      rw [← width]
      exact Memory.slice_overwrite (by omega)
    case rest =>
      intro address outside
      rw [Memory.getElem?_overwrite, if_neg (by omega)]
  frame o address outside := by
    obtain same | ⟨start, data, low, high, written⟩ := o.memory_perform framed
    · rw [same]
    · rw [written, Memory.getElem?_overwrite, if_neg (by omega)]
  fits_iff vs := by
    constructor
    · intro ⟨t, pushes⟩
      exact le_free_of_pushAll framed pushes
    · exact pushAll_of_le_free framed
  pushed vs t h := by
    cases vs with
    | nil =>
      cases h
      exact ⟨fun earlier v later split => by simp at split, s, rfl, rfl, rfl⟩
    | cons v vs =>
      have fits := le_free_of_pushAll framed h
      have live := framed.live_of_free_pos (Nat.lt_of_lt_of_le (totalWidth_pos v vs) fits)
      have pushed := pushed_of_pushAll live h
      rw [← List.reverse_reverse (v :: vs)] at pushed
      obtain ⟨popped, left⟩ := popAll_of_contents pushed.live pushed.contents_eq
      rw [List.reverse_reverse] at pushed
      refine ⟨?peek, _, popped, ?stack, left⟩
      case peek =>
        intro earlier w later split
        refine peek_of_encodeAll (a := s.contents ++ encodeAll earlier) pushed.live ?_
        rw [pushed.contents_eq, split]
        simp [encodeAll]
      case stack =>
        simp only [drop, pushed.stack_eq, length_encodeAll, totalWidth_reverse, Nat.add_sub_cancel]

/-- The bound is no condition on a program: no memory is allocated that its ints cannot address. -/
theorem window_refines_list {size : Nat} {fresh s : Store}
    (made : Stack.ofSizes? fresh.memory.size size = some fresh.stack)
    (addressable : fresh.memory.size < Memory.addressLimit) (leads : fresh.Leads s) :
    s.LastInFirstOut :=
  ((framed_of_ofSizes? made addressable).leads leads).lastInFirstOut

/-- Over a byte that was pushed and then written over directly, an int and a NaN. -/
theorem nan_pushed_and_popped : ∃ (s t u : Store) (vs : List Value),
    Leads ⟨.zero 32, .atTop 32 20⟩ s ∧ s.contents = [9] ∧
    vs = [.int (-1), @Value.mk .float ⟨0xFFF8000000000001⟩] ∧
    totalWidth vs ≤ s.free ∧ pushAll vs s = .ok () t ∧
    Store.peek .int (-16) t = .ok (-1) t ∧
    popAll [.float, .int] t = .ok vs.reverse u ∧ u.contents = [9] := by
  have leads : Leads ⟨.zero 32, .atTop 32 20⟩ _ :=
    .write 12 [9] (.operation (.push (@Value.mk .byte 7)) .refl)
      (@Memory.writeBytes_of_le _ 12 [9] (by decide +kernel))
  have lifo := @window_refines_list 20 _ _ rfl (by decide) leads
  obtain ⟨t, pushes⟩ :=
    (lifo.fits_iff [.int (-1), @Value.mk .float ⟨0xFFF8000000000001⟩]).2 (by decide +kernel)
  obtain ⟨peek, u, popped, -, contents⟩ := lifo.pushed _ t pushes
  have under := peek [] _ _ rfl
  have offset : Int64.ofInt (-totalWidth [.int (-1), @Value.mk .float ⟨0xFFF8000000000001⟩]) =
    -16 := by decide
  rw [offset] at under
  have left := contents.trans (c := [9]) (by decide +kernel)
  exact ⟨_, t, u, _, leads, by decide +kernel, rfl, by decide +kernel, pushes, under, popped, left⟩

end Store
end ByteMachine
