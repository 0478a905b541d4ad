import ByteMachine.Proofs.Letters
import ByteMachine.Proofs.Ordering
import Mathlib.Algebra.Order.Field.Rat
import Mathlib.Data.List.TakeWhile
import Mathlib.Tactic.Ring

/-! Decimal texts of floats. The text of a finite number stands for a decimal that is read back as
this number and as no other. So the text tells all floats apart but the NaNs. -/
namespace ByteMachine

open Nat (toDigits ofDigitChars ofDigitChars_append ofDigitChars_replicate_zero
  ofDigitChars_ten_toDigits)

namespace Numeral

/-- The number that digits stand for, after a minus sign or none. -/
def integer : List Char → Int
  | '-' :: cs => -ofDigitChars 10 cs 0
  | cs => ofDigitChars 10 cs 0

theorem integer_toString (n : Int) : integer (toString n).toList = n := by
  rw [Int.toString_eq_repr, Int.repr_eq_if]
  split
  · rw [Nat.toList_repr, integer, ofDigitChars_ten_toDigits]
    · omega
    · intro cs eq
      have mem : '-' ∈ toDigits 10 n.toNat := by
        rw [eq]
        exact List.mem_cons_self
      exact absurd (toDigits_subset _ mem) (by decide)
  · rw [String.toList_append, Nat.toList_repr]
    change -(ofDigitChars 10 (toDigits 10 (-n).toNat) 0 : Int) = n
    rw [ofDigitChars_ten_toDigits]
    omega

theorem ofDigitChars_append_zeros (ds : List Char) (k : Nat) :
    ofDigitChars 10 (ds ++ List.replicate k '0') 0 = 10 ^ k * ofDigitChars 10 ds 0 := by
  rw [ofDigitChars_append, ofDigitChars_replicate_zero]

theorem ofDigitChars_zeros_append (k : Nat) (ds : List Char) :
    ofDigitChars 10 (List.replicate k '0' ++ ds) 0 = ofDigitChars 10 ds 0 := by
  rw [ofDigitChars_append, ofDigitChars_replicate_zero, Nat.mul_zero]

end Numeral

namespace Binary64

open Numeral

/-- The number that digits and a point stand for. -/
def fixed (cs : List Char) : ℚ :=
  match cs.splitOn '.' with
  | [whole, fraction] => ofDigitChars 10 (whole ++ fraction) 0 / 10 ^ fraction.length
  | _ => ofDigitChars 10 cs 0

/-- The number that a text without a sign stands for. An exponent may follow the digits. -/
def denoted (cs : List Char) : ℚ :=
  match cs.splitOn 'e' with
  | [mantissa, exponent] => fixed mantissa * 10 ^ integer exponent
  | _ => fixed cs

section Reading

variable {ds whole fraction cs : List Char}

theorem point_not_mem (h : cs ⊆ digits) : '.' ∉ cs := fun mem => absurd (h mem) (by decide)

theorem fixed_of_digits (h : cs ⊆ digits) : fixed cs = ofDigitChars 10 cs 0 := by
  rw [fixed, List.splitOn_eq_singleton (point_not_mem h)]

theorem fixed_of_point (before : whole ⊆ digits) (after : fraction ⊆ digits) :
    fixed (whole ++ '.' :: fraction) =
      ofDigitChars 10 (whole ++ fraction) 0 * 10 ^ (-fraction.length : Int) := by
  rw [fixed, List.splitOn_append_cons_self, List.splitOn_eq_singleton (point_not_mem before),
    List.splitOn_eq_singleton (point_not_mem after), zpow_neg, zpow_natCast, ← div_eq_mul_inv]
  rfl

theorem denoted_of_fixed (clear : 'e' ∉ cs) : denoted cs = fixed cs := by
  rw [denoted, List.splitOn_eq_singleton clear]

theorem denoted_of_exponent (clear : 'e' ∉ cs) (e : Int) :
    denoted (cs ++ 'e' :: (toString e).toList) = fixed cs * 10 ^ e := by
  have after : 'e' ∉ (toString e).toList := fun mem => absurd (toString_subset e mem) (by decide)
  rw [denoted, List.splitOn_append_cons_self, List.splitOn_eq_singleton clear,
    List.splitOn_eq_singleton after]
  change fixed cs * 10 ^ integer (toString e).toList = _
  rw [integer_toString]

theorem zeros_subset (k : Nat) : List.replicate k '0' ⊆ digits :=
  List.replicate_subset.2 (.inr (by decide))

theorem fixed_among (h : ds ⊆ digits) {k : Nat} (le : k ≤ ds.length) :
    fixed (ds.take k ++ '.' :: ds.drop k) = ofDigitChars 10 ds 0 * 10 ^ (k - ds.length : Int) := by
  have front := List.Subset.trans (List.take_subset k ds) h
  have back := List.Subset.trans (List.drop_subset k ds) h
  have places : -((ds.length - k : Nat) : Int) = k - ds.length := by omega
  rw [fixed_of_point front back, List.take_append_drop, List.length_drop, places]

theorem fixed_before (h : ds ⊆ digits) (k : Nat) :
    fixed ('0' :: '.' :: (List.replicate k '0' ++ ds)) =
      ofDigitChars 10 ds 0 * 10 ^ (-k - ds.length : Int) := by
  have zero : ['0'] ⊆ digits := by decide
  have point := fixed_of_point zero (List.append_subset.2 ⟨zeros_subset k, h⟩)
  have value := ofDigitChars_zeros_append (k + 1) ds
  rw [List.replicate_succ, List.cons_append] at value
  simp only [List.cons_append, List.nil_append] at point
  rw [point, value, List.length_append, List.length_replicate]
  congr 2
  omega

theorem fixed_after (h : ds ⊆ digits) (k : Nat) :
    fixed (ds ++ List.replicate k '0' ++ ['.', '0']) = ofDigitChars 10 ds 0 * 10 ^ k := by
  have zero : ['0'] ⊆ digits := by decide
  have point := fixed_of_point (List.append_subset.2 ⟨h, zeros_subset k⟩) zero
  have value := ofDigitChars_append_zeros ds (k + 1)
  rw [List.replicate_succ', ← List.append_assoc] at value
  rw [point, value, pow_succ]
  push_cast
  simp
  ring

theorem fixed_positional (h : ds ⊆ digits) (e : Int) :
    fixed (positional ds e) = ofDigitChars 10 ds 0 * 10 ^ (e + 1 - ds.length) := by
  unfold positional
  dsimp only
  split
  · next small =>
    rw [fixed_before h]
    congr 2
    omega
  · next large =>
    obtain ⟨k, rfl⟩ : ∃ k : Nat, e = k := ⟨e.toNat, by omega⟩
    rw [Int.toNat_natCast]
    split
    · next empty =>
      obtain ⟨j, fill⟩ : ∃ j, k + 1 = ds.length + j :=
        Nat.exists_eq_add_of_le (List.drop_eq_nil_iff.1 (List.isEmpty_iff.1 empty))
      have places : (k : Int) + 1 - ds.length = j := by omega
      rw [fill, List.take_of_length_le (Nat.le_add_right _ _), Nat.add_sub_cancel_left,
        fixed_after h, places, zpow_natCast]
    · next rest =>
      have more : k + 1 < ds.length := by simpa using rest
      have fill : k + 1 - ds.length = 0 := by omega
      rw [fill, List.replicate_zero, List.append_nil, fixed_among h (Nat.le_of_lt more)]
      push_cast
      rfl

theorem denoted_positional (h : ds ⊆ digits) (e : Int) :
    denoted (positional ds e) = ofDigitChars 10 ds 0 * 10 ^ (e + 1 - ds.length) := by
  have plain : positional ds e ⊆ digits ++ ['.'] :=
    positional_subset (by decide) (by decide) (List.subset_append_of_subset_left _ h) e
  rw [denoted_of_fixed fun mem => absurd (plain mem) (by decide), fixed_positional h]

/-- What stands before the exponent. -/
def mantissa (ds : List Char) : List Char :=
  ds.take 1 ++ if (ds.drop 1).isEmpty then [] else '.' :: ds.drop 1

theorem scientific_eq (ds : List Char) (e : Int) :
    scientific ds e = mantissa ds ++ 'e' :: (toString e).toList := rfl

theorem mantissa_subset (h : ds ⊆ digits) : mantissa ds ⊆ digits ++ ['.'] := by
  have front := List.Subset.trans (List.take_subset 1 ds) h
  have back := List.Subset.trans (List.drop_subset 1 ds) h
  apply List.append_subset.2 ⟨List.subset_append_of_subset_left _ front, ?_⟩
  split
  · exact List.nil_subset _
  · exact List.cons_subset.2 ⟨by decide, List.subset_append_of_subset_left _ back⟩

theorem fixed_mantissa (h : ds ⊆ digits) :
    fixed (mantissa ds) = ofDigitChars 10 ds 0 * 10 ^ (1 - ds.length : Int) := by
  obtain - | ⟨d, - | ⟨d', ds⟩⟩ := ds
  · have value := fixed_of_digits h
    simpa [mantissa] using value
  · have value := fixed_of_digits h
    simpa [mantissa] using value
  · exact fixed_among h (show 1 ≤ (d :: d' :: ds).length by simp)

theorem denoted_scientific (h : ds ⊆ digits) (e : Int) :
    denoted (scientific ds e) = ofDigitChars 10 ds 0 * 10 ^ (e + 1 - ds.length) := by
  have clear : 'e' ∉ mantissa ds := fun mem => absurd (mantissa_subset h mem) (by decide)
  rw [scientific_eq, denoted_of_exponent clear, fixed_mantissa h, mul_assoc,
    ← zpow_add₀ (by norm_num)]
  congr 2
  omega

theorem exists_zeros (ds : List Char) : ∃ k, ds = significant ds ++ List.replicate k '0' := by
  have parts : ds.reverse.takeWhile (· == '0') ++ ds.reverse.dropWhile (· == '0') = ds.reverse :=
    List.takeWhile_append_dropWhile
  have zeros : ds.reverse.takeWhile (· == '0') =
      List.replicate (ds.reverse.takeWhile (· == '0')).length '0' := by
    apply List.eq_replicate_of_mem
    intro c mem
    simpa using List.mem_takeWhile_imp mem
  rw [zeros] at parts
  refine ⟨(ds.reverse.takeWhile (· == '0')).length, ?_⟩
  rw [significant, ← List.reverse_replicate, ← List.reverse_append, parts, List.reverse_reverse]

theorem denoted_layout (h : ds ⊆ digits) (e : Int) :
    denoted (if -4 ≤ e ∧ e ≤ 15 then positional ds e else scientific ds e) =
      ofDigitChars 10 ds 0 * 10 ^ (e + 1 - ds.length) := by
  split
  · exact denoted_positional h e
  · exact denoted_scientific h e

end Reading

/-- What a grain is worth. -/
def grain : ℚ := 10 ^ (-1074 : Int)

theorem denoted_text (d : Decimal) : denoted d.text = d.grains * grain := by
  obtain ⟨k, split⟩ := exists_zeros (toDigits 10 d.digits)
  have value := ofDigitChars_append_zeros (significant (toDigits 10 d.digits)) k
  rw [← split, ofDigitChars_ten_toDigits] at value
  have length := congrArg List.length split
  rw [List.length_append, List.length_replicate] at length
  rw [Decimal.text, denoted_layout (significant_toDigits_subset d.digits)]
  generalize significant (toDigits 10 d.digits) = ds at *
  have places : ((d.place : Int) + (toDigits 10 d.digits).length - 1 - 1074) + 1 - ds.length =
      k + (d.place + -1074) := by omega
  have ten : (10 : ℚ) ≠ 0 := by norm_num
  have power : (10 : ℚ) ^ ((k : Int) + (d.place + -1074)) = 10 ^ k * (10 ^ d.place * grain) := by
    rw [zpow_add₀ ten, zpow_add₀ ten, zpow_natCast, zpow_natCast]
    rfl
  have grains : d.grains = 10 ^ k * ofDigitChars 10 ds 0 * 10 ^ d.place := by
    rw [← value]
    rfl
  rw [places, power, grains]
  push_cast
  ring

theorem exists_scale : ∃ scale, 0 < scale ∧ ∀ n, grains n = quanta n * scale := by
  unfold grains
  generalize 1074 = places
  exact ⟨Nat.pow 5 places, Nat.pow_pos (by decide), fun _ => rfl⟩

theorem grains_zero : grains 0 = 0 := by
  obtain ⟨scale, -, eq⟩ := exists_scale
  rw [eq]
  exact Nat.zero_mul scale

theorem grains_lt_grains {m n : Nat} (lt : m < n) : grains m < grains n := by
  obtain ⟨scale, positive, eq⟩ := exists_scale
  rw [eq, eq]
  exact Nat.mul_lt_mul_of_pos_right (quanta_lt_quanta lt) positive

theorem grains_le_grains {m n : Nat} (le : m ≤ n) : grains m ≤ grains n := by
  obtain lt | rfl := Nat.lt_or_eq_of_le le
  · exact Nat.le_of_lt (grains_lt_grains lt)
  · exact Nat.le_refl _

/-- A decimal lies between the two midpoints, and odd numbers do without them. -/
theorem readsBack_iff {n c : Nat} : readsBack n c = true ↔
    (grains (n - 1) + grains n ≤ 2 * c ∧ 2 * c ≤ grains n + grains (n + 1)) ∧
      (n % 2 = 1 → grains (n - 1) + grains n < 2 * c ∧ 2 * c < grains n + grains (n + 1)) := by
  unfold readsBack
  dsimp only
  split
  · next even => simp [even]
  · next odd =>
    simp only [Bool.and_eq_true, decide_eq_true_iff]
    omega

theorem readsBack_self (n : Nat) : readsBack n (grains n) = true := by
  have above := grains_lt_grains (Nat.lt_add_one n)
  have below := grains_le_grains (Nat.sub_le n 1)
  rw [readsBack_iff]
  refine ⟨by omega, fun odd => ?_⟩
  have strictly : grains (n - 1) < grains n := grains_lt_grains (by omega)
  omega

/-- Neighbours share a midpoint, which belongs to the even one of them. -/
theorem not_readsBack_of_lt {m n c : Nat} (lt : m < n) (left : readsBack m c = true) :
    ¬ readsBack n c = true := by
  intro right
  rw [readsBack_iff] at left right
  have low := grains_le_grains (show m ≤ n - 1 by omega)
  have high := grains_le_grains (show m + 1 ≤ n by omega)
  obtain next | later : n = m + 1 ∨ m + 1 < n := by omega
  -- the decimal is the midpoint between the two, and one of them is odd
  · omega
  · have strictly := grains_lt_grains later
    omega

theorem readsBack_unique {m n c : Nat} (left : readsBack m c = true)
    (right : readsBack n c = true) : m = n := by
  obtain lt | eq | gt := Nat.lt_trichotomy m n
  · exact absurd right (not_readsBack_of_lt lt left)
  · exact eq
  · exact absurd left (not_readsBack_of_lt gt right)

theorem readsBack_of_nearest? {n place : Nat} {d : Decimal} (h : nearest? n place = some d) :
    readsBack n d.grains = true := by
  unfold nearest? at h
  dsimp only at h
  split at h
  · next below =>
    cases h
    exact (Bool.and_eq_true_iff.1 below).1
  · split at h
    · next above =>
      cases h
      exact above
    · cases h

theorem readsBack_shortest (n : Nat) : readsBack n (shortest n).grains = true := by
  unfold shortest
  dsimp only
  cases found : (List.range 17).findSome? fun k =>
      nearest? n ((toDigits 10 (grains n)).length - 1 - k) with
  | none =>
    have exactly : Decimal.grains ⟨grains n, 0⟩ = grains n := Nat.mul_one _
    rw [Option.getD_none, exactly]
    exact readsBack_self n
  | some d =>
    obtain ⟨k, -, nearest⟩ := List.exists_of_findSome?_eq_some found
    exact readsBack_of_nearest? nearest

theorem exists_denoted_absText {n : Nat} (finite : n ≠ infinity) :
    ∃ c, readsBack n c = true ∧ denoted (absText n) = c * grain := by
  by_cases zero : n = 0
  · subst zero
    have text : absText 0 = positional ['0'] 0 := rfl
    refine ⟨grains 0, readsBack_self 0, ?_⟩
    rw [text, denoted_positional (by decide), grains_zero]
    simp [ofDigitChars]
  · rw [absText, if_neg zero, if_neg finite]
    exact ⟨_, readsBack_shortest n, denoted_text _⟩

theorem eq_of_absText_eq {m n : Nat} (finite : m ≠ infinity) (finite' : n ≠ infinity)
    (same : absText m = absText n) : m = n := by
  obtain ⟨c, left, value⟩ := exists_denoted_absText finite
  obtain ⟨c', right, value'⟩ := exists_denoted_absText finite'
  have positive : grain ≠ 0 := zpow_ne_zero _ (by norm_num)
  rw [same, value'] at value
  have eq : (c' : ℚ) = c := mul_right_cancel₀ positive value
  rw [Nat.cast_injective eq] at right
  exact readsBack_unique left right

theorem head?_absText_ne (n : Nat) : (absText n).head? ≠ some '-' := by
  have front {cs : List Char} (plain : cs ⊆ digits ++ ['.']) : cs.head? ≠ some '-' := fun head =>
    absurd (plain (List.mem_of_head? head)) (by decide)
  unfold absText
  split
  · decide
  · split
    · decide
    · have inside := significant_toDigits_subset (shortest n).digits
      unfold Decimal.text
      dsimp only
      split
      · exact front (positional_subset (by decide) (by decide)
          (List.subset_append_of_subset_left _ inside) _)
      · have plain := front (mantissa_subset inside)
        rw [scientific_eq, List.head?_append]
        cases head : (mantissa (significant (toDigits 10 (shortest n).digits))).head? with
        | none => simp
        | some c => simpa [head] using plain

theorem absText_inj {m n : Nat} : absText m = absText n ↔ m = n := by
  have inf : absText infinity = ['i', 'n', 'f'] := rfl
  have finite {k : Nat} (h : k ≠ infinity) : absText k ≠ absText infinity := by
    intro same
    have mem : 'i' ∈ absText k := by
      rw [same, inf]
      exact List.mem_cons_self
    exact absurd (absText_subset h mem) (by decide)
  constructor
  · intro same
    by_cases left : m = infinity <;> by_cases right : n = infinity
    · exact left.trans right.symm
    · rw [left] at same
      exact absurd same.symm (finite right)
    · rw [right] at same
      exact absurd same (finite left)
    · exact eq_of_absText_eq left right same
  · exact congrArg absText

theorem text_of_isNaN {x : Binary64} (nan : x.isNaN = true) : x.text = "NaN" := by
  rw [text, if_pos nan]

theorem toList_text {x : Binary64} (number : x.isNaN = false) : x.text.toList =
    if x.isNegative then '-' :: absText x.magnitude else absText x.magnitude := by
  rw [text, if_neg (by simp [number]), String.toList_ofList]

theorem text_eq_nan_iff (x : Binary64) : x.text = "NaN" ↔ x.isNaN = true := by
  constructor
  · intro eq
    by_contra number
    rw [Bool.not_eq_true] at number
    have capital : 'N' ∈ x.text.toList := by
      rw [eq]
      decide
    rw [toList_text number] at capital
    -- the capital is no letter of a number
    have plain : 'N' ∉ absText x.magnitude := fun mem =>
      absurd (absText_subset_inf _ mem) (by decide)
    split at capital
    · exact plain ((List.mem_cons.1 capital).resolve_left (by decide))
    · exact plain capital
  · exact text_of_isNaN

theorem eq_of_magnitude_eq {x y : Binary64} (sign : x.isNegative = y.isNegative)
    (same : x.magnitude = y.magnitude) : x = y := by
  obtain ⟨x⟩ := x
  obtain ⟨y⟩ := y
  have x_lt := x.toNat_lt
  have y_lt := y.toNat_lt
  have sign := decide_eq_decide.1 sign
  have bits : x.toNat = y.toNat := by
    simp only [magnitude, signBit] at sign same
    omega
  rw [UInt64.toNat_inj.1 bits]

theorem isNegative_iff {x : Binary64} (number : x.isNaN = false) :
    x.isNegative = true ↔ x.text.toList.head? = some '-' := by
  rw [toList_text number]
  split
  · next negative => simp [negative]
  · next positive => simp [positive, head?_absText_ne]

theorem eq_of_text_eq {x y : Binary64} (left : x.isNaN = false) (right : y.isNaN = false)
    (same : x.text = y.text) : x = y := by
  have sign : x.isNegative = y.isNegative := by
    rw [Bool.eq_iff_iff, isNegative_iff left, isNegative_iff right, same]
  have lists := congrArg String.toList same
  rw [toList_text left, toList_text right, sign] at lists
  apply eq_of_magnitude_eq sign
  split at lists
  · exact absText_inj.1 (List.cons.inj lists).2
  · exact absText_inj.1 lists

/-- A text tells which number it is of, down to the sign of a zero, unless it is that of all NaNs. -/
theorem text_eq_iff (x y : Binary64) :
    x.text = y.text ↔ x = y ∨ x.isNaN = true ∧ y.isNaN = true := by
  constructor
  · intro same
    have nan : x.isNaN = y.isNaN := by
      rw [Bool.eq_iff_iff, ← text_eq_nan_iff, ← text_eq_nan_iff, same]
    cases right : y.isNaN with
    | false => exact .inl (eq_of_text_eq (nan.trans right) right same)
    | true => exact .inr ⟨nan.trans right, rfl⟩
  · rintro (rfl | ⟨left, right⟩)
    · rfl
    · rw [text_of_isNaN left, text_of_isNaN right]

end Binary64
end ByteMachine
