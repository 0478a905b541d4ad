import ByteMachine.Proofs.Frame
import ByteMachine.Proofs.Lifo

/-! A stack over a memory of another size than the one that it was made for. Its window may lie partly
or wholly beyond the memory, also beyond all signed addresses. An access goes to the bytes of its slot
if they are all there, and otherwise fails and changes nothing. -/
namespace ByteMachine

namespace Stack

/-- There is room in the window at a place, and the place is an int. -/
def Holds (s : Stack) (place : Int) (width : Nat) : Prop :=
  0 ≤ place ∧ place < Memory.addressLimit ∧ place + width ≤ s.size

instance (s : Stack) (place : Int) (width : Nat) : Decidable (s.Holds place width) :=
  inferInstanceAs (Decidable (_ ∧ _ ∧ _))

/-- What is reported for an offset that leads out of the window. -/
def misplaced (s : Stack) (offset : Int64) : Int :=
  if s.pointer + offset.toInt < Memory.addressLimit then s.pointer + offset.toInt
  else offset.toInt

end Stack

namespace Operation

/-- How many bytes the operation reads or writes. -/
def width : Operation → Nat
  | push v | poke _ v => v.ty.width
  | pop t | peek t _ => t.width

/-- Where they are in the window. -/
def place : Operation → Stack → Int
  | push _, s => s.pointer
  | pop t, s => s.pointer - t.width
  | peek _ offset, s | poke offset _, s => s.pointer + offset.toInt

/-- The value at an address, for an operation that reads. -/
def found : Operation → Nat → Memory → Option Value
  | pop t, start, m | peek t _, start, m => some (@Value.mk t (t.decode (m.slice start t.width)))
  | push _, _, _ | poke _ _, _, _ => none

/-- The bytes to be written, for an operation that writes. -/
def written : Operation → List UInt8
  | push v | poke _ v => v.encode
  | pop _ | peek _ _ => []

/-- What comes of an operation whose slot is in the window. -/
def access (o : Operation) (s : Store) : Answer × Store :=
  let start := s.stack.base + (o.place s.stack).toNat
  if start + o.width ≤ s.memory.size then
    (.ok (o.found start s.memory), ⟨s.memory.overwrite start o.written,
      { s.stack with pointer := o.pointer s.stack.pointer }⟩)
  else (.error (.memory ⟨signed start, o.width, s.memory.size⟩), s)

/-- What comes of one whose slot is not. -/
def refuse (o : Operation) (s : Store) : Answer × Store :=
  match o with
  | push _ => (.error .overflow, { s with stack.latch := .overflowed })
  | pop _ => (.error .underflow, { s with stack.latch := .underflowed })
  | peek _ offset | poke offset _ =>
    (.error (.memory ⟨s.stack.misplaced offset, o.width, s.stack.size⟩), s)

theorem access_eq {o : Operation} {s : Store} {slot : Nat} (h : o.place s.stack = slot) :
    o.access s = if s.stack.base + slot + o.width ≤ s.memory.size then
        (.ok (o.found (s.stack.base + slot) s.memory),
          ⟨s.memory.overwrite (s.stack.base + slot) o.written,
            { s.stack with pointer := o.pointer s.stack.pointer }⟩)
      else (.error (.memory ⟨signed (s.stack.base + slot : Nat), o.width, s.memory.size⟩), s) := by
  rw [access, h]
  rfl

theorem length_written_le (o : Operation) : o.written.length ≤ o.width := by
  cases o with
  | push v | poke _ v => exact Nat.le_of_eq v.length_encode
  | pop _ | peek _ _ => exact Nat.zero_le _

theorem found_congr (o : Operation) {start : Nat} {m m' : Memory}
    (h : ∀ k, start ≤ k → k < start + o.width → m'.bytes[k]? = m.bytes[k]?) :
    o.found start m' = o.found start m := by
  cases o with
  | pop t | peek t _ =>
    have slice : m'.slice start t.width = m.slice start t.width := Memory.slice_congr h
    rw [found, found, slice]
  | push _ | poke _ _ => rfl

end Operation

theorem signed_of_le {n : Nat} (far : Memory.addressLimit ≤ n) (h : n < UInt64.size) :
    signed n = (n : Int) - UInt64.size := by
  simp only [Memory.addressLimit] at far
  simp only [UInt64.size] at h
  simp only [signed, Int.bmod, UInt64.size]
  omega

namespace Memory

variable {m : Memory} {n : Nat}

/-- A folded address is right where the memory has bytes, and outside of it elsewhere. -/
theorem locate_signed (addressable : m.size < addressLimit) (h : n < UInt64.size) (width : Nat) :
    m.locate (signed n) width =
      if n + width ≤ m.size then .ok n else .error ⟨signed n, width, m.size⟩ := by
  by_cases near : n < addressLimit
  · rw [signed_of_lt near]
    split
    · next inside => exact locate_eq_ok_iff.2 ⟨rfl, inside⟩
    · next outside => exact locate_eq_error_iff.2 ⟨by omega, rfl⟩
  · have far := signed_of_le (Nat.le_of_not_lt near) h
    simp only [UInt64.size] at far h
    rw [if_neg (by omega)]
    exact locate_eq_error_iff.2 ⟨by omega, rfl⟩

theorem get_signed (addressable : m.size < addressLimit) (h : n < UInt64.size) (t : Ty) :
    m.get t (signed n) = if n + t.width ≤ m.size then .ok (t.decode (m.slice n t.width))
      else .error ⟨signed n, t.width, m.size⟩ := by
  rw [get, locate_signed addressable h]
  by_cases inside : n + t.width ≤ m.size
  · rw [if_pos inside, if_pos inside]
  · rw [if_neg inside, if_neg inside]

theorem put_signed (addressable : m.size < addressLimit) (h : n < UInt64.size) {t : Ty}
    (v : t.Val) : m.put (signed n) v =
      if n + t.width ≤ m.size then .ok (m.overwrite n (t.encode v))
      else .error ⟨signed n, t.width, m.size⟩ := by
  rw [put, writeBytes, Ty.length_encode, locate_signed addressable h]
  by_cases inside : n + t.width ≤ m.size
  · rw [if_pos inside, if_pos inside]
  · rw [if_neg inside, if_neg inside]

end Memory

namespace Store

/-- All slots have addresses of 64 bits, and what is on the stack is in the memory. -/
structure Detached (s : Store) : Prop where
  base_add_size_lt : s.stack.base + s.stack.size < UInt64.size
  addressable : s.memory.size < Memory.addressLimit
  pointer_le : s.stack.pointer ≤ s.stack.size
  occupied : s.stack.pointer = 0 ∨ s.stack.base + s.stack.pointer ≤ s.memory.size

namespace Detached

variable {s : Store} (detached : s.Detached)
include detached

theorem pointer_lt : s.stack.pointer < Memory.addressLimit := by
  have := detached.addressable
  have := detached.occupied
  simp only [Memory.addressLimit] at *
  omega

theorem slot_eq (offset : Int64) (width : Nat) : s.stack.slot offset width =
    if s.stack.Holds (s.stack.pointer + offset.toInt) width then
      .ok (s.stack.pointer + offset.toInt).toNat
    else .error ⟨s.stack.misplaced offset, width, s.stack.size⟩ := by
  have pointer := detached.pointer_lt
  have above := offset.le_toInt
  have below := offset.toInt_lt
  have fits : signed (s.stack.pointer + offset.toInt) = s.stack.pointer + offset.toInt ↔
      s.stack.pointer + offset.toInt < Memory.addressLimit := by
    simp only [Memory.addressLimit] at pointer ⊢
    simp only [signed, Int.bmod, UInt64.size]
    omega
  unfold Stack.slot Stack.misplaced
  dsimp only
  by_cases near : s.stack.pointer + offset.toInt < Memory.addressLimit
  · have holds : s.stack.Holds (s.stack.pointer + offset.toInt) width ↔
        0 ≤ s.stack.pointer + offset.toInt ∧
          s.stack.pointer + offset.toInt + width ≤ s.stack.size :=
      ⟨fun h => ⟨h.1, h.2.2⟩, fun h => ⟨h.1, near, h.2⟩⟩
    rw [if_neg (not_not_intro (fits.2 near)), if_pos near]
    simp only [holds]
  · have misses : ¬ s.stack.Holds (s.stack.pointer + offset.toInt) width := fun h => near h.2.1
    rw [if_pos fun eq => near (fits.1 eq), if_neg near, if_neg misses]

theorem address_lt {slot : Nat} (h : slot ≤ s.stack.size) :
    s.stack.base + slot < UInt64.size :=
  Nat.lt_of_le_of_lt (Nat.add_le_add_left h _) detached.base_add_size_lt

theorem get_address {slot : Nat} (h : slot ≤ s.stack.size) (t : Ty) :
    s.memory.get t (s.stack.address slot) =
      if s.stack.base + slot + t.width ≤ s.memory.size then
        .ok (t.decode (s.memory.slice (s.stack.base + slot) t.width))
      else .error ⟨signed (s.stack.base + slot : Nat), t.width, s.memory.size⟩ := by
  rw [Stack.address, ← Int.natCast_add]
  exact Memory.get_signed detached.addressable (detached.address_lt h) t

theorem put_address {slot : Nat} (h : slot ≤ s.stack.size) {t : Ty} (v : t.Val) :
    s.memory.put (s.stack.address slot) v =
      if s.stack.base + slot + t.width ≤ s.memory.size then
        .ok (s.memory.overwrite (s.stack.base + slot) (t.encode v))
      else .error ⟨signed (s.stack.base + slot : Nat), t.width, s.memory.size⟩ := by
  rw [Stack.address, ← Int.natCast_add]
  exact Memory.put_signed detached.addressable (detached.address_lt h) v

theorem slot_of_holds {offset : Int64} {width slot : Nat}
    (holds : s.stack.Holds (s.stack.pointer + offset.toInt) width)
    (at_slot : s.stack.pointer + offset.toInt = slot) :
    s.stack.slot offset width = .ok slot := by
  rw [detached.slot_eq, if_pos holds, at_slot]
  rfl

theorem perform_of_holds (active : s.stack.latch = .active) {o : Operation}
    (holds : s.stack.Holds (o.place s.stack) o.width) : o.perform s = o.access s := by
  have unblocked : s.stack.isBlocked = false := by simp [Stack.isBlocked, active]
  obtain ⟨slot, at_slot⟩ := Int.eq_ofNat_of_zero_le holds.1
  have within := holds.2.2
  rw [at_slot] at within
  have slot_le : slot ≤ s.stack.size := by omega
  rw [Operation.access_eq at_slot]
  cases o with
  | push v =>
    obtain rfl : s.stack.pointer = slot := Int.ofNat_inj.1 at_slot
    have room : ¬ s.stack.size < s.stack.pointer + v.ty.width :=
      Nat.not_lt.2 (Int.ofNat_le.1 within)
    rw [Operation.perform, Store.push, unblocked, if_neg Bool.false_ne_true, if_neg room,
      detached.put_address slot_le]
    by_cases inside : s.stack.base + s.stack.pointer + v.ty.width ≤ s.memory.size
    · rw [if_pos inside]
      exact (if_pos inside).symm
    · rw [if_neg inside]
      exact (if_neg inside).symm
  | pop t =>
    have below : (s.stack.pointer : Int) - t.width = slot := at_slot
    have enough : ¬ s.stack.pointer < t.width := by omega
    obtain rfl : s.stack.pointer - t.width = slot := by omega
    rw [Operation.perform, Store.pop, unblocked, if_neg Bool.false_ne_true, if_neg enough,
      detached.get_address slot_le]
    by_cases inside : s.stack.base + (s.stack.pointer - t.width) + t.width ≤ s.memory.size
    · rw [if_pos inside]
      exact (if_pos inside).symm
    · rw [if_neg inside]
      exact (if_neg inside).symm
  | peek t offset =>
    have found : s.stack.slot offset t.width = .ok slot := detached.slot_of_holds holds at_slot
    have got := detached.get_address slot_le t
    -- A variable stands for the access: evaluating the folded address would not end.
    obtain ⟨get, get_eq⟩ : ∃ get, s.memory.get t = get := ⟨_, rfl⟩
    rw [get_eq] at got
    rw [Operation.perform, Store.peek, unblocked, if_neg Bool.false_ne_true, found, get_eq]
    dsimp only
    rw [got]
    by_cases inside : s.stack.base + slot + t.width ≤ s.memory.size
    · rw [if_pos inside]
      exact (if_pos inside).symm
    · rw [if_neg inside]
      exact (if_neg inside).symm
  | poke offset v =>
    have found : s.stack.slot offset v.ty.width = .ok slot :=
      detached.slot_of_holds holds at_slot
    have put_eq := detached.put_address slot_le v.val
    obtain ⟨put, is_put⟩ : ∃ put : Int → v.ty.Val → _, s.memory.put = put := ⟨_, rfl⟩
    rw [is_put] at put_eq
    rw [Operation.perform, Store.poke, unblocked, if_neg Bool.false_ne_true, found, is_put]
    dsimp only
    rw [put_eq]
    by_cases inside : s.stack.base + slot + v.ty.width ≤ s.memory.size
    · rw [if_pos inside]
      exact (if_pos inside).symm
    · rw [if_neg inside]
      exact (if_neg inside).symm

theorem perform_of_not_holds (active : s.stack.latch = .active) {o : Operation}
    (misses : ¬ s.stack.Holds (o.place s.stack) o.width) : o.perform s = o.refuse s := by
  have unblocked : s.stack.isBlocked = false := by simp [Stack.isBlocked, active]
  have pointer := detached.pointer_lt
  have pointer_le := detached.pointer_le
  cases o with
  | push v =>
    have full : s.stack.size < s.stack.pointer + v.ty.width := by
      simp only [Stack.Holds, Operation.place, Operation.width] at misses
      omega
    rw [Operation.perform, Store.push, unblocked, if_neg Bool.false_ne_true, if_pos full]
    rfl
  | pop t =>
    have short : s.stack.pointer < t.width := by
      simp only [Stack.Holds, Operation.place, Operation.width] at misses
      omega
    rw [Operation.perform, Store.pop, unblocked, if_neg Bool.false_ne_true, if_pos short]
    rfl
  | peek t offset =>
    have slot : s.stack.slot offset t.width =
        .error ⟨s.stack.misplaced offset, t.width, s.stack.size⟩ := by
      rw [detached.slot_eq]
      exact if_neg misses
    rw [Operation.perform, Store.peek, unblocked, if_neg Bool.false_ne_true, slot]
    rfl
  | poke offset v =>
    have slot : s.stack.slot offset v.ty.width =
        .error ⟨s.stack.misplaced offset, v.ty.width, s.stack.size⟩ := by
      rw [detached.slot_eq]
      exact if_neg misses
    rw [Operation.perform, Store.poke, unblocked, if_neg Bool.false_ne_true, slot]
    rfl

theorem of_ok {o : Operation} {v? : Option Value} (ok : (o.perform s).1 = .ok v?) :
    ∃ slot : Nat, o.place s.stack = slot ∧ slot + o.width ≤ s.stack.size ∧
      s.stack.base + slot + o.width ≤ s.memory.size ∧
      (o.perform s).2 = ⟨s.memory.overwrite (s.stack.base + slot) o.written,
        { s.stack with pointer := o.pointer s.stack.pointer }⟩ := by
  have active := Operation.active_of_ok (Prod.ext ok rfl)
  by_cases holds : s.stack.Holds (o.place s.stack) o.width
  · obtain ⟨slot, at_slot⟩ := Int.eq_ofNat_of_zero_le holds.1
    have within := holds.2.2
    rw [detached.perform_of_holds active holds, Operation.access_eq at_slot] at ok ⊢
    by_cases inside : s.stack.base + slot + o.width ≤ s.memory.size
    · rw [if_pos inside]
      exact ⟨slot, at_slot, by omega, inside, rfl⟩
    · rw [if_neg inside] at ok
      cases ok
  · rw [detached.perform_of_not_holds active holds] at ok
    cases o <;> cases ok

theorem perform_cases (o : Operation) :
    ((o.perform s).2.memory = s.memory ∧ (o.perform s).2.stack.pointer = s.stack.pointer) ∨
    ∃ slot : Nat, o.place s.stack = slot ∧ slot + o.width ≤ s.stack.size ∧
      s.stack.base + slot + o.width ≤ s.memory.size ∧
      (o.perform s).2 = ⟨s.memory.overwrite (s.stack.base + slot) o.written,
        { s.stack with pointer := o.pointer s.stack.pointer }⟩ := by
  cases answer : (o.perform s).1 with
  | error e => exact .inl ((o.governed s).of_error e answer)
  | ok v? => exact .inr (detached.of_ok answer)

theorem size_perform (o : Operation) : (o.perform s).2.memory.size = s.memory.size := by
  obtain ⟨same, -⟩ | ⟨slot, -, -, -, eq⟩ := detached.perform_cases o
  · rw [same]
  · rw [eq]
    exact Memory.size_overwrite ..

theorem perform (o : Operation) : (o.perform s).2.Detached := by
  obtain ⟨base, size⟩ := o.window_perform s
  refine ⟨?window, ?addressable, ?pointer, ?occupied⟩
  case window =>
    rw [base, size]
    exact detached.base_add_size_lt
  case addressable =>
    rw [detached.size_perform]
    exact detached.addressable
  case pointer =>
    rw [size]
    exact o.pointer_perform_le detached.pointer_le
  case occupied =>
    have occupied := detached.occupied
    rw [base, detached.size_perform]
    obtain ⟨-, same⟩ | ⟨slot, at_slot, -, inside, eq⟩ := detached.perform_cases o
    · rw [same]
      exact occupied
    · rw [eq]
      cases o with
      | push v =>
        obtain rfl : s.stack.pointer = slot := Int.ofNat_inj.1 at_slot
        rw [Nat.add_assoc] at inside
        exact .inr inside
      | pop t =>
        change s.stack.pointer - t.width = 0 ∨
          s.stack.base + (s.stack.pointer - t.width) ≤ s.memory.size
        omega
      | peek _ _ | poke _ _ => exact occupied

theorem getElem?_perform (o : Operation) {address : Nat}
    (outside : ¬ (s.stack.base ≤ address ∧ address < s.stack.base + s.stack.size)) :
    (o.perform s).2.memory.bytes[address]? = s.memory.bytes[address]? := by
  obtain ⟨same, -⟩ | ⟨slot, -, within, -, eq⟩ := detached.perform_cases o
  · rw [same]
  · have short := o.length_written_le
    rw [eq, Memory.getElem?_overwrite, if_neg (by omega)]

/-- What is popped has been pushed, so that its bytes are there. -/
theorem pop_ne_memory (t : Ty) (e : MemoryError) :
    ((Operation.pop t).perform s).1 ≠ .error (.memory e) := by
  intro failed
  obtain ⟨active, -⟩ := ((Operation.pop t).governed s).of_memory e failed
  by_cases holds : s.stack.Holds ((Operation.pop t).place s.stack) t.width
  · obtain ⟨slot, at_slot⟩ := Int.eq_ofNat_of_zero_le holds.1
    have below : (s.stack.pointer : Int) - t.width = slot := at_slot
    have positive := t.width_pos
    have occupied := detached.occupied
    have inside : s.stack.base + slot + t.width ≤ s.memory.size := by omega
    rw [detached.perform_of_holds active holds, Operation.access_eq at_slot,
      if_pos (show s.stack.base + slot + (Operation.pop t).width ≤ s.memory.size from inside)]
      at failed
    cases failed
  · rw [detached.perform_of_not_holds active holds] at failed
    cases failed

end Detached

/-- The same stack, over memories that may differ outside of the window. -/
structure Alike (s u : Store) : Prop where
  stack_eq : u.stack = s.stack
  size_eq : u.memory.size = s.memory.size
  getElem?_eq : ∀ k, s.stack.base ≤ k → k < s.stack.base + s.stack.size →
    u.memory.bytes[k]? = s.memory.bytes[k]?

namespace Alike

variable {s u : Store} (alike : s.Alike u)
include alike

theorem detached (detached : s.Detached) : u.Detached := by
  obtain ⟨memory, stack⟩ := u
  cases alike.stack_eq
  have size : memory.size = s.memory.size := alike.size_eq
  exact { detached with
    addressable := size ▸ detached.addressable, occupied := size ▸ detached.occupied }

theorem overwrite (start : Nat) (data : List UInt8) (stack : Stack)
    (base : stack.base = s.stack.base) (size : stack.size = s.stack.size) :
    Alike ⟨s.memory.overwrite start data, stack⟩ ⟨u.memory.overwrite start data, stack⟩ where
  stack_eq := rfl
  size_eq := by rw [Memory.size_overwrite, Memory.size_overwrite, alike.size_eq]
  getElem?_eq k above below := by
    rw [base] at above below
    rw [size] at below
    rw [Memory.getElem?_overwrite, Memory.getElem?_overwrite, alike.size_eq,
      alike.getElem?_eq k above below]

theorem contents_eq (detached : s.Detached) : u.contents = s.contents := by
  have pointer_le := detached.pointer_le
  rw [contents, contents, Stack.contents, Stack.contents, alike.stack_eq]
  exact Memory.slice_congr fun k above below => alike.getElem?_eq k above (by omega)

theorem perform (detached : s.Detached) (o : Operation) :
    (o.perform u).1 = (o.perform s).1 ∧ (o.perform s).2.Alike (o.perform u).2 := by
  have also := alike.detached detached
  obtain ⟨memory, stack⟩ := u
  obtain rfl : stack = s.stack := alike.stack_eq
  by_cases active : s.stack.latch = .active
  · by_cases holds : s.stack.Holds (o.place s.stack) o.width
    · obtain ⟨slot, at_slot⟩ := Int.eq_ofNat_of_zero_le holds.1
      have within := holds.2.2
      rw [detached.perform_of_holds active holds, also.perform_of_holds active holds,
        Operation.access_eq at_slot, Operation.access_eq (s := ⟨memory, s.stack⟩) at_slot,
        alike.size_eq]
      by_cases inside : s.stack.base + slot + o.width ≤ s.memory.size
      · have found : o.found (s.stack.base + slot) memory =
            o.found (s.stack.base + slot) s.memory :=
          o.found_congr fun k above below => alike.getElem?_eq k (by omega) (by omega)
        rw [if_pos inside, if_pos inside, found]
        exact ⟨rfl, alike.overwrite _ _ _ rfl rfl⟩
      · rw [if_neg inside, if_neg inside]
        exact ⟨rfl, alike⟩
    · rw [detached.perform_of_not_holds active holds, also.perform_of_not_holds active holds]
      cases o with
      | push _ | pop _ => exact ⟨rfl, rfl, alike.size_eq, alike.getElem?_eq⟩
      | peek _ _ | poke _ _ => exact ⟨rfl, alike⟩
  · have blocked : s.stack.isBlocked := by simpa [Stack.isBlocked] using active
    rw [Operation.perform_of_blocked blocked,
      Operation.perform_of_blocked (s := ⟨memory, s.stack⟩) blocked]
    exact ⟨rfl, alike⟩

end Alike

/-- What is to be relied on in a stack whose window need not be in the memory. -/
structure Contained (s : Store) : Prop where
  pointer_le : s.stack.pointer ≤ s.stack.size
  length_contents : s.contents.length = s.stack.pointer
  /-- The sums that are formed fit in 64 bits. The pointer is one of the slots of the last. -/
  pointer_add_lt : ∀ t : Ty, s.stack.pointer + t.width < UInt64.size
  base_add_lt : ∀ slot ≤ s.stack.size, s.stack.base + slot < UInt64.size
  slot_eq : ∀ offset width, s.stack.slot offset width =
    if s.stack.Holds (s.stack.pointer + offset.toInt) width then
      .ok (s.stack.pointer + offset.toInt).toNat
    else .error ⟨s.stack.misplaced offset, width, s.stack.size⟩
  perform_eq : s.stack.latch = .active → ∀ o : Operation, o.perform s =
    if s.stack.Holds (o.place s.stack) o.width then o.access s else o.refuse s
  pop_ne_memory : ∀ t e, ((Operation.pop t).perform s).1 ≠ .error (.memory e)

theorem Detached.contained {s : Store} (detached : s.Detached) : s.Contained where
  pointer_le := detached.pointer_le
  length_contents := by
    obtain empty | inside := detached.occupied
    · rw [contents, Stack.contents, empty, Memory.slice_eq_take_drop]
      rfl
    · exact Memory.length_slice inside
  pointer_add_lt t := by
    have pointer := detached.pointer_lt
    have width := t.width_le
    simp only [Memory.addressLimit] at pointer
    simp only [UInt64.size]
    omega
  base_add_lt _ := detached.address_lt
  slot_eq := detached.slot_eq
  perform_eq active o := by
    split
    · next holds => exact detached.perform_of_holds active holds
    · next misses => exact detached.perform_of_not_holds active misses
  pop_ne_memory := detached.pop_ne_memory

section Run

variable {s u : Store} (detached : s.Detached) (ops : List Operation)
include detached

theorem Detached.after : (s.after ops).Detached := by
  induction ops generalizing s with
  | nil => exact detached
  | cons o ops ih => exact ih (detached.perform o)

theorem Detached.size_after : (s.after ops).memory.size = s.memory.size := by
  induction ops generalizing s with
  | nil => rfl
  | cons o ops ih => exact (ih (detached.perform o)).trans (detached.size_perform o)

theorem Detached.getElem?_after {address : Nat}
    (outside : ¬ (s.stack.base ≤ address ∧ address < s.stack.base + s.stack.size)) :
    (s.after ops).memory.bytes[address]? = s.memory.bytes[address]? := by
  induction ops generalizing s with
  | nil => rfl
  | cons o ops ih =>
    obtain ⟨base, size⟩ := o.window_perform s
    refine (ih (detached.perform o) ?_).trans (detached.getElem?_perform o outside)
    rw [base, size]
    exact outside

theorem Alike.after (alike : s.Alike u) : (s.after ops).Alike (u.after ops) := by
  induction ops generalizing s u with
  | nil => exact alike
  | cons o ops ih => exact ih (detached.perform o) (alike.perform detached o).2

end Run

theorem window_after (s : Store) (ops : List Operation) :
    (s.after ops).stack.base = s.stack.base ∧ (s.after ops).stack.size = s.stack.size := by
  induction ops generalizing s with
  | nil => exact ⟨rfl, rfl⟩
  | cons o ops ih =>
    obtain ⟨base, size⟩ := o.window_perform s
    obtain ⟨base', size'⟩ := ih (o.perform s).2
    exact ⟨base'.trans base, size'.trans size⟩

theorem detached_of_ofSizes? {total size : Nat} {s : Store}
    (made : Stack.ofSizes? total size = some s.stack) (total_lt : total < UInt64.size)
    (addressable : s.memory.size < Memory.addressLimit) : s.Detached := by
  obtain ⟨fits, eq⟩ := Stack.ofSizes?_eq_some_iff.1 made
  refine ⟨?_, addressable, ?_, ?_⟩
  · rw [eq, Stack.atTop, Nat.sub_add_cancel fits]
    exact total_lt
  · rw [eq]
    exact Nat.zero_le size
  · rw [eq]
    exact .inl rfl

theorem detached_window {total size : Nat} {s : Store}
    (made : Stack.ofSizes? total size = some s.stack) (total_lt : total < UInt64.size)
    (addressable : s.memory.size < Memory.addressLimit) (ops : List Operation) :
    (s.after ops).stack.base = total - size ∧ (s.after ops).stack.size = size ∧
    (s.after ops).memory.size = s.memory.size ∧ (s.after ops).Contained ∧
    (∀ address, ¬ (total - size ≤ address ∧ address < total) →
      (s.after ops).memory.bytes[address]? = s.memory.bytes[address]?) ∧
    ∀ u : Store, s.Alike u → (u.after ops).stack = (s.after ops).stack ∧
      (u.after ops).contents = (s.after ops).contents ∧
      ∀ o : Operation, (o.perform (u.after ops)).1 = (o.perform (s.after ops)).1 := by
  have detached := detached_of_ofSizes? made total_lt addressable
  obtain ⟨fits, eq⟩ := Stack.ofSizes?_eq_some_iff.1 made
  have base : s.stack.base = total - size := by rw [eq]; rfl
  have window : s.stack.size = size := by rw [eq]; rfl
  obtain ⟨base_after, size_after⟩ := s.window_after ops
  refine ⟨base_after.trans base, size_after.trans window, detached.size_after ops,
    (detached.after ops).contained, ?untouched, ?unread⟩
  case untouched =>
    intro address outside
    apply detached.getElem?_after
    rw [base, window, Nat.sub_add_cancel fits]
    exact outside
  case unread =>
    intro u alike
    have after := alike.after detached ops
    exact ⟨after.stack_eq, after.contents_eq (detached.after ops),
      fun o => (after.perform (detached.after ops) o).1⟩

/-- A window of 16 bytes at address 8, of which the memory has 12. The second int does not go there,
the byte at address 19 does. -/
theorem half_window_contained : ∃ (s : Store) (ops : List Operation),
    Stack.ofSizes? 24 16 = some s.stack ∧ s.memory.size = 20 ∧
    ops = [.push (.int 5), .poke 3 (@Value.mk .byte 7)] ∧
    (s.after ops).Contained ∧ (s.after ops).memory.bytes[19]? = some 7 ∧
    (Operation.push (.int 6)).perform (s.after ops) =
      (.error (.memory ⟨16, 8, 20⟩), s.after ops) ∧
    (s.after ops).memory.bytes[0]? = some 0 := by
  obtain ⟨-, -, -, contained, untouched, -⟩ :=
    detached_window (s := ⟨.zero 20, .atTop 24 16⟩)
      (show Stack.ofSizes? 24 16 = some (.atTop 24 16) from rfl) (by decide) (by decide)
      [.push (.int 5), .poke 3 (@Value.mk .byte 7)]
  refine ⟨_, _, rfl, rfl, rfl, contained, by decide +kernel, ?missing,
    (untouched 0 (by decide)).trans (by decide)⟩
  case missing => exact (contained.perform_eq (by decide +kernel) _).trans (by decide +kernel)

/-- A slot may be in a window and have no int for a place. -/
theorem far_slot_refused : ∃ (s : Store) (offset : Int64),
    s = Store.after [.push (@Value.mk .byte 1)]
      ⟨.zero 16, .atTop 18446744073709551615 18446744073709551615⟩ ∧
    offset = 9223372036854775807 ∧ s.stack.latch = .active ∧
    ¬ ((∃ slot, s.stack.slot offset 1 = .ok slot) ↔
      0 ≤ s.stack.pointer + offset.toInt ∧
        s.stack.pointer + offset.toInt + 1 ≤ s.stack.size) ∧
    ((Operation.peek .byte offset).perform s).1 =
      .error (.memory ⟨9223372036854775807, 1, 18446744073709551615⟩) := by
  refine ⟨_, _, rfl, rfl, by decide +kernel, ?unlike, by decide +kernel⟩
  case unlike =>
    intro same
    obtain ⟨slot, ok⟩ := same.2 (by decide +kernel)
    cases (congrArg Except.toOption ok).symm.trans (by decide +kernel : _ = none)

end Store
end ByteMachine
