import ByteMachine.Proofs.Lifo
import ByteMachine.Proofs.LittleEndian
import Mathlib.Data.List.Induction

/-! Memory under any sequence of accesses, of mixed widths and at any addresses. An access succeeds
exactly if all its bytes are there. Every byte is the one that was last written to it, and a value is
read exactly where the bytes are that make it up. -/
namespace ByteMachine

namespace Memory

/-- What a memory can be asked for. -/
inductive Access where
  | get (t : Ty) (address : Int64)
  | put (address : Int64) (v : Value)
  | write (address : Int64) (data : List UInt8)
deriving DecidableEq

/-- A read answers with its value. -/
abbrev Reply := Except MemoryError (Option Value)

variable {m : Memory}

theorem slice_eq_encode_iff {start : Nat} {v : Value} : m.slice start v.ty.width = v.encode ↔
    ∀ j < v.ty.width, m.bytes[start + j]? = some (v.digit j) := by
  constructor
  · intro eq j inside
    simpa [getElem?_slice, v.getElem?_encode, inside] using congrArg (fun bs => bs[j]?) eq
  · intro bytes
    apply List.ext_getElem?
    intro j
    rw [getElem?_slice, v.getElem?_encode]
    split
    · next inside => exact bytes j inside
    · rfl

theorem writeBytes_of_not {address : Int} {data : List UInt8}
    (h : ¬ (0 ≤ address ∧ address + data.length ≤ m.size)) :
    m.writeBytes address data = .error ⟨address, data.length, m.size⟩ := by
  rw [writeBytes, locate_eq_error_iff.2 ⟨h, rfl⟩]

namespace Access

def address : Access → Int64
  | get _ address | put address _ | write address _ => address

def width : Access → Nat
  | get t _ => t.width
  | put _ v => v.ty.width
  | write _ data => data.length

/-- A failed write leaves the memory that there was. -/
def settle (m : Memory) : Except MemoryError Memory → Reply × Memory
  | .ok written => (.ok none, written)
  | .error e => (.error e, m)

/-- The reply, and the memory that is left. -/
def perform (m : Memory) : Access → Reply × Memory
  | get t address => ((m.get t address.toInt).map fun v => some (@Value.mk t v), m)
  | put address v => settle m (m.put address.toInt v.val)
  | write address data => settle m (m.writeBytes address.toInt data)

/-- All bytes of the access are in a memory of this size. -/
def Fits (a : Access) (size : Nat) : Prop :=
  0 ≤ a.address.toInt ∧ a.address.toInt + a.width ≤ size

instance (a : Access) (size : Nat) : Decidable (a.Fits size) := inferInstanceAs (Decidable (_ ∧ _))

/-- Where the access begins and ends, in words of 64 bits: the address is cast, the end is a sum that
may overflow. -/
def bounds? (a : Access) (size : Nat) : Option (UInt64 × UInt64) :=
  let start := a.address.toUInt64
  let stop := start + UInt64.ofNat a.width
  if a.address < 0 ∨ stop < start ∨ size < stop.toNat then none else some (start, stop)

/-- Byte `j` of what is to be written, if anything is. -/
def byte? : Access → Nat → Option UInt8
  | get _ _, _ => none
  | put _ v, j => if j < v.ty.width then some (v.digit j) else none
  | write _ data, j => data[j]?

/-- The access stores the byte `b` at the address `k`. -/
def Writes (a : Access) (size k : Nat) (b : UInt8) : Prop :=
  a.Fits size ∧ ∃ j : Nat, a.address.toInt + j = k ∧ a.byte? j = some b

/-- All bytes to be written. -/
def data : Access → List UInt8
  | get _ _ => []
  | put _ v => v.encode
  | write _ data => data

/-- The value that is read, if one is. -/
def found (m : Memory) : Access → Option Value
  | get t address => some (@Value.mk t (t.decode (m.slice address.toInt.toNat t.width)))
  | put _ _ | write _ _ => none

/-- Where the cast and the sum are not exact, the access is refused anyway. -/
theorem bounds?_eq_some_iff {a : Access} {size : Nat} {start stop : UInt64}
    (small : size < addressLimit) (narrow : a.width < UInt64.size) :
    a.bounds? size = some (start, stop) ↔ a.Fits size ∧
      (start.toNat : Int) = a.address.toInt ∧ (stop.toNat : Int) = a.address.toInt + a.width := by
  have cast := BitVec.toInt_eq_toNat_cond a.address.toBitVec
  have width := UInt64.toNat_ofNat_of_lt' narrow
  have sum := UInt64.toNat_add a.address.toUInt64 (UInt64.ofNat a.width)
  have range := a.address.toUInt64.toNat_lt
  rw [Int64.toInt_toBitVec, ← Int64.toBitVec_toUInt64, UInt64.toNat_toBitVec] at cast
  simp only [addressLimit] at small
  simp only [UInt64.size] at narrow
  unfold bounds? Fits
  simp only [Int64.lt_iff_toInt_lt, UInt64.lt_iff_toNat_lt, Option.ite_none_left_eq_some,
    Option.some.injEq, Prod.mk.injEq, ← UInt64.toNat_inj]
  have zero : (0 : Int64).toInt = 0 := rfl
  rw [zero]
  split at cast <;> omega

theorem getElem?_data (a : Access) (j : Nat) : a.data[j]? = a.byte? j := by
  cases a with
  | get _ _ => rfl
  | put _ v => exact v.getElem?_encode j
  | write _ _ => rfl

theorem length_data_le (a : Access) : a.data.length ≤ a.width := by
  cases a with
  | get t _ => exact Nat.zero_le _
  | put _ v => exact Nat.le_of_eq v.length_encode
  | write _ _ => exact Nat.le_refl _

theorem perform_of_fits {a : Access} (fits : a.Fits m.size) :
    a.perform m = (.ok (a.found m), m.overwrite a.address.toInt.toNat a.data) := by
  obtain ⟨start, eq⟩ := Int.eq_ofNat_of_zero_le fits.1
  have inside := fits.2
  rw [eq] at inside ⊢
  rw [Int.toNat_natCast]
  cases a with
  | get t address =>
    have start_eq : address.toInt = start := eq
    rw [perform, found, start_eq, get_of_le (Int.ofNat_le.1 inside)]
    rfl
  | put address v =>
    have start_eq : address.toInt = start := eq
    rw [perform, start_eq, put_of_le v.val (Int.ofNat_le.1 inside)]
    rfl
  | write address data =>
    have start_eq : address.toInt = start := eq
    rw [perform, start_eq, writeBytes_of_le (Int.ofNat_le.1 inside)]
    rfl

theorem perform_of_not_fits {a : Access} (misses : ¬ a.Fits m.size) :
    a.perform m = (.error ⟨a.address.toInt, a.width, m.size⟩, m) := by
  cases a with
  | get t address =>
    rw [perform, @get_of_not m t address.toInt misses]
    rfl
  | put address v =>
    rw [perform, @put_of_not m v.ty address.toInt v.val misses]
    rfl
  | write address data =>
    rw [perform, @writeBytes_of_not m address.toInt data misses]
    rfl

theorem size_perform (a : Access) (m : Memory) : (a.perform m).2.size = m.size := by
  by_cases fits : a.Fits m.size
  · rw [perform_of_fits fits]
    exact size_overwrite ..
  · rw [perform_of_not_fits fits]

theorem getElem?_perform_of_writes {a : Access} {k : Nat} {b : UInt8} (writes : a.Writes m.size k b) :
    (a.perform m).2.bytes[k]? = some b := by
  obtain ⟨fits, j, place, byte⟩ := writes
  rw [← a.getElem?_data] at byte
  have nonneg := fits.1
  have inside := fits.2
  have short := a.length_data_le
  have j_lt := (List.getElem?_eq_some_iff.1 byte).1
  rw [perform_of_fits fits, getElem?_overwrite, if_pos (by omega), ← byte]
  congr
  omega

theorem getElem?_perform_of_not {a : Access} {k : Nat} (spares : ∀ b, ¬ a.Writes m.size k b) :
    (a.perform m).2.bytes[k]? = m.bytes[k]? := by
  by_cases fits : a.Fits m.size
  · rw [perform_of_fits fits, getElem?_overwrite, if_neg]
    rintro ⟨above, below, -⟩
    have nonneg := fits.1
    have byte : a.byte? (k - a.address.toInt.toNat) = some _ :=
      (a.getElem?_data _).symm.trans (List.getElem?_eq_getElem (by omega))
    exact spares _ ⟨fits, k - a.address.toInt.toNat, by omega, byte⟩
  · rw [perform_of_not_fits fits]

end Access

open Access

/-- The memory after some accesses. -/
def after (m : Memory) (as : List Access) : Memory := as.foldl (fun m a => (a.perform m).2) m

theorem after_append (m : Memory) (as : List Access) (a : Access) :
    m.after (as ++ [a]) = (a.perform (m.after as)).2 := by
  simp [after]

@[simp] theorem size_after (m : Memory) (as : List Access) : (m.after as).size = m.size := by
  induction as generalizing m with
  | nil => rfl
  | cons a as ih => exact (ih _).trans (a.size_perform m)

/-- None of the accesses stores anything at `k`. -/
def Spares (size : Nat) (as : List Access) (k : Nat) : Prop := ∀ a ∈ as, ∀ b, ¬ a.Writes size k b

/-- What was last stored at `k` in a memory that began with zeros. -/
inductive Holds (size : Nat) : List Access → Nat → UInt8 → Prop
  | fresh {as : List Access} {k : Nat} : Spares size as k → Holds size as k 0
  | stored {earlier later : List Access} {a : Access} {k : Nat} {b : UInt8} :
      a.Writes size k b → Spares size later k → Holds size (earlier ++ a :: later) k b

theorem Holds.append {size k : Nat} {as : List Access} {a : Access} {b : UInt8}
    (holds : Holds size as k b) (spares : ∀ b, ¬ a.Writes size k b) : Holds size (as ++ [a]) k b := by
  have extended {as : List Access} (clear : Spares size as k) : Spares size (as ++ [a]) k := by
    intro c mem
    obtain before | last := List.mem_append.1 mem
    · exact clear c before
    · obtain rfl := List.mem_singleton.1 last
      exact spares
  cases holds with
  | fresh clear => exact .fresh (extended clear)
  | stored writes clear =>
    rw [List.append_assoc, List.cons_append]
    exact .stored writes (extended clear)

theorem getElem?_after_of_spares {m : Memory} {as : List Access} {k : Nat}
    (spares : Spares m.size as k) : (m.after as).bytes[k]? = m.bytes[k]? := by
  induction as generalizing m with
  | nil => rfl
  | cons a as ih =>
    have first : ∀ b, ¬ a.Writes m.size k b := spares a List.mem_cons_self
    have rest : Spares (a.perform m).2.size as k := by
      rw [a.size_perform]
      exact fun c mem => spares c (List.mem_cons_of_mem a mem)
    exact (ih rest).trans (getElem?_perform_of_not first)

theorem holds_after {size k : Nat} (inside : k < size) (as : List Access) :
    ∃ b, Holds size as k b ∧ ((zero size).after as).bytes[k]? = some b := by
  induction as using List.reverseRecOn with
  | nil => exact ⟨0, .fresh (fun a mem => nomatch mem), by simp [after, zero, inside]⟩
  | append_singleton as a ih =>
    have sized : ((zero size).after as).size = size := by simp
    rw [after_append]
    by_cases writes : ∃ b, a.Writes size k b
    · obtain ⟨b, writes⟩ := writes
      exact ⟨b, .stored writes (fun a mem => nomatch mem),
        getElem?_perform_of_writes (sized.symm ▸ writes)⟩
    · have spares : ∀ b, ¬ a.Writes size k b := fun b this => writes ⟨b, this⟩
      obtain ⟨b, holds, byte⟩ := ih
      exact ⟨b, holds.append spares,
        (getElem?_perform_of_not (sized.symm ▸ spares)).trans byte⟩

theorem getElem?_after_of_holds {size k : Nat} {as : List Access} {b : UInt8} (inside : k < size)
    (holds : Holds size as k b) : ((zero size).after as).bytes[k]? = some b := by
  cases holds with
  | fresh clear =>
    rw [getElem?_after_of_spares (by simpa using clear)]
    simp [zero, inside]
  | @stored earlier later a _ _ writes clear =>
    have split : (zero size).after (earlier ++ a :: later) =
        (a.perform ((zero size).after earlier)).2.after later := by
      simp [after]
    rw [split, getElem?_after_of_spares, getElem?_perform_of_writes]
    · simpa using writes
    · simpa [a.size_perform] using clear

theorem get_eq_ok_iff {m : Memory} {t : Ty} {address : Int64} {v : t.Val} :
    ((Access.get t address).perform m).1 = .ok (some ⟨v⟩) ↔ (Access.get t address).Fits m.size ∧
      ∀ j < t.width, m.bytes[address.toInt.toNat + j]? = some ((@Value.mk t v).digit j) := by
  by_cases fits : (Access.get t address).Fits m.size
  · have inside : address.toInt.toNat + t.width ≤ m.size := by
      have := fits.1
      have := fits.2
      simp only [Access.address, Access.width] at *
      omega
    rw [perform_of_fits fits, and_iff_right fits, ← @slice_eq_encode_iff m _ ⟨v⟩]
    constructor
    · intro found
      cases found
      exact (Ty.encode_decode (length_slice inside)).symm
    · intro slice
      simp only [found]
      rw [slice]
      exact congrArg (fun w => (Except.ok (some (@Value.mk t w)) : Reply)) (Ty.decode_encode v)
  · rw [perform_of_not_fits fits]
    exact iff_of_false nofun fun h => fits h.1

theorem get_put_after {m : Memory} {address : Int64} {v : Value} {later : List Access}
    (fits : (Access.put address v).Fits m.size)
    (spares : ∀ j < v.ty.width, Spares m.size later (address.toInt.toNat + j)) :
    ((Access.get v.ty address).perform (((Access.put address v).perform m).2.after later)).1 =
      .ok (some v) := by
  rw [get_eq_ok_iff, size_after, Access.size_perform]
  refine ⟨fits, ?_⟩
  intro j inside
  have nonneg := fits.1
  rw [getElem?_after_of_spares, getElem?_perform_of_writes]
  · refine ⟨fits, j, ?_, if_pos inside⟩
    simp only [Access.address] at nonneg ⊢
    omega
  · rw [Access.size_perform]
    exact spares j inside

/-- A memory of so many bytes, once zeros, that remembers some accesses. -/
structure Remembers (m : Memory) (size : Nat) (as : List Access) : Prop where
  size_eq : m.size = size
  bounds_iff : ∀ a : Access, a.width < UInt64.size → ∀ start stop,
    a.bounds? size = some (start, stop) ↔ a.Fits size ∧
      (start.toNat : Int) = a.address.toInt ∧ (stop.toNat : Int) = a.address.toInt + a.width
  ok_iff : ∀ a : Access, (∃ v?, (a.perform m).1 = .ok v?) ↔ a.Fits size
  refused : ∀ a : Access, ¬ a.Fits size →
    a.perform m = (.error ⟨a.address.toInt, a.width, size⟩, m)
  byte_iff : ∀ k < size, ∀ b, m.bytes[k]? = some b ↔ Holds size as k b
  get_iff : ∀ t address (v : t.Val), ((Access.get t address).perform m).1 = .ok (some ⟨v⟩) ↔
    (Access.get t address).Fits size ∧
      ∀ j < t.width, m.bytes[address.toInt.toNat + j]? = some ((@Value.mk t v).digit j)
  get_put : ∀ address v later, (Access.put address v).Fits size →
    (∀ j < v.ty.width, Spares size later (address.toInt.toNat + j)) →
    ((Access.get v.ty address).perform (((Access.put address v).perform m).2.after later)).1 =
      .ok (some v)

theorem accesses_remembered {size : Nat} (small : size < addressLimit) (as : List Access) :
    ((zero size).after as).Remembers size as := by
  have sized : ((zero size).after as).size = size := by simp
  refine ⟨sized, fun a narrow start stop => bounds?_eq_some_iff small narrow, ?ok, ?refused, ?bytes,
    ?get, ?put⟩
  case ok =>
    intro a
    by_cases fits : a.Fits size
    · rw [perform_of_fits (sized.symm ▸ fits)]
      exact iff_of_true ⟨_, rfl⟩ fits
    · rw [perform_of_not_fits (sized.symm ▸ fits)]
      exact iff_of_false nofun fits
  case refused =>
    intro a misses
    rw [perform_of_not_fits (sized.symm ▸ misses), sized]
  case bytes =>
    intro k inside b
    constructor
    · intro byte
      obtain ⟨b', holds, byte'⟩ := holds_after inside as
      obtain rfl := Option.some.inj (byte.symm.trans byte')
      exact holds
    · exact getElem?_after_of_holds inside
  case get =>
    intro t address v
    rw [get_eq_ok_iff, sized]
  case put =>
    intro address v later fits spares
    exact get_put_after (sized.symm ▸ fits) (sized.symm ▸ spares)

/-- An int, two bytes written across its end, and an int that does not fit. A float is read from
between them. -/
theorem overlapping_accesses_remembered : ∃ (as : List Access) (m : Memory),
    as = [.put 0 (.int (-2)), .write 7 [0xAA, 0xBB], .put 9 (.int 5)] ∧
    m = (zero 16).after as ∧ m.Remembers 16 as ∧ m.bytes[7]? = some 0xAA ∧
    Holds 16 as 8 0xBB ∧ Holds 16 as 9 0 ∧
    (Access.put 9 (.int 5)).perform m = (.error ⟨9, 8, 16⟩, m) ∧
    (∃ v?, ((Access.write 16 []).perform m).1 = .ok v?) ∧
    (Access.write 17 []).perform m = (.error ⟨17, 0, 16⟩, m) ∧
    ((Access.get .float 1).perform m).1 =
      .ok (some (@Value.mk .float ⟨0xBBAAFFFFFFFFFFFF⟩)) := by
  have remembers := accesses_remembered (show 16 < addressLimit by decide)
    [.put 0 (.int (-2)), .write 7 [0xAA, 0xBB], .put 9 (.int 5)]
  refine ⟨_, _, rfl, rfl, remembers, by decide +kernel, ?eight, ?nine, ?beyond,
    (remembers.ok_iff _).2 (by decide), remembers.refused _ (by decide), ?float⟩
  case eight => exact (remembers.byte_iff 8 (by decide) _).1 (by decide +kernel)
  case nine => exact (remembers.byte_iff 9 (by decide) _).1 (by decide +kernel)
  case beyond => exact remembers.refused _ (by decide)
  case float => exact (remembers.get_iff .float 1 _).2 ⟨by decide, by decide +kernel⟩

end Memory
end ByteMachine
