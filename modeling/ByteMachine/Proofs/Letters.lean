import ByteMachine.Code.Instruction

/-! The letters of texts. Numbers, values and mnemonics are written without blanks and line ends, so
that what is put between them can be found again. -/
namespace ByteMachine

namespace Numeral

/-- The decimal digits. -/
def digits : List Char := ['0', '1', '2', '3', '4', '5', '6', '7', '8', '9']

theorem toDigits_subset (n : Nat) : Nat.toDigits 10 n ⊆ digits := by
  intro c mem
  obtain ⟨d, digit, rfl⟩ := exists_of_mem_toDigits (by decide) mem
  have table : ∀ d < 10, d.digitChar ∈ digits := by decide
  exact table d digit

theorem toString_subset (n : Int) : (toString n).toList ⊆ '-' :: digits := by
  have written (k : Nat) := List.subset_cons_of_subset '-' (toDigits_subset k)
  rw [Int.toString_eq_repr, Int.repr_eq_if]
  split
  · simp only [Nat.toList_repr, written]
  · simp only [String.toList_append, Nat.toList_repr, List.append_subset, written, and_true]
    decide

end Numeral

namespace Binary64

open Numeral

/-- What finite numbers are written with. -/
def letters : List Char := digits ++ ['.', 'e', '-']

theorem digits_subset : digits ⊆ letters := List.subset_append_left _ _

theorem toString_subset_letters (n : Int) : (toString n).toList ⊆ letters :=
  List.Subset.trans (toString_subset n) (by decide)

theorem significant_subset (ds : List Char) : significant ds ⊆ ds := by
  intro c mem
  exact List.mem_reverse.1 ((List.dropWhile_sublist _).subset (List.mem_reverse.1 mem))

theorem positional_subset {ds ls : List Char} (zero : '0' ∈ ls) (point : '.' ∈ ls) (h : ds ⊆ ls)
    (e : Int) : positional ds e ⊆ ls := by
  have front (k : Nat) := List.Subset.trans (List.take_subset k ds) h
  have back (k : Nat) := List.Subset.trans (List.drop_subset k ds) h
  unfold positional
  dsimp only
  split
  · simp only [List.append_subset, List.cons_subset, List.replicate_subset, h, zero, point, or_true,
      and_true]
  · simp only [List.append_subset, List.cons_subset, List.replicate_subset, front, zero, point,
      or_true, true_and]
    split
    · simp [zero]
    · exact back _

theorem scientific_subset {ds : List Char} (h : ds ⊆ letters) (e : Int) :
    scientific ds e ⊆ letters := by
  have front (k : Nat) := List.Subset.trans (List.take_subset k ds) h
  have back (k : Nat) := List.Subset.trans (List.drop_subset k ds) h
  have point : '.' ∈ letters := by decide
  have exponent : 'e' ∈ letters := by decide
  unfold scientific
  simp only [List.append_subset, List.cons_subset, front, exponent, toString_subset_letters, true_and,
    and_true]
  split
  · exact List.nil_subset _
  · exact List.cons_subset.2 ⟨point, back 1⟩

theorem significant_toDigits_subset (n : Nat) : significant (Nat.toDigits 10 n) ⊆ digits :=
  List.Subset.trans (significant_subset _) (toDigits_subset n)

theorem absText_subset {n : Nat} (finite : n ≠ infinity) : absText n ⊆ letters := by
  have digits (d : Decimal) : significant (Nat.toDigits 10 d.digits) ⊆ letters :=
    List.Subset.trans (significant_toDigits_subset _) digits_subset
  by_cases zero : n = 0
  · subst zero
    decide
  · rw [absText, if_neg zero, if_neg finite, Decimal.text]
    split
    · exact positional_subset (by decide) (by decide) (digits _) _
    · exact scientific_subset (digits _) _

theorem absText_subset_inf (n : Nat) : absText n ⊆ letters ++ ['i', 'n', 'f'] := by
  by_cases infinite : n = infinity
  · rw [infinite]
    decide
  · exact List.subset_append_of_subset_left _ (absText_subset infinite)

end Binary64

namespace Value

/-- What values are written with, whatever their type. -/
def letters : List Char := Binary64.letters ++ ['x', 'a', 'b', 'c', 'd', 'f', 'i', 'n', 'N']

theorem padded_subset (width n : Nat) : Numeral.padded 16 width n ⊆ letters := by
  intro c mem
  obtain ⟨d, digit, rfl⟩ := Numeral.exists_of_mem_padded (by decide) mem
  have table : ∀ d < 16, d.digitChar ∈ letters := by decide
  exact table d digit

theorem float_text_subset (x : Binary64) : x.text.toList ⊆ letters := by
  have number := List.Subset.trans (Binary64.absText_subset_inf x.magnitude)
    (show _ ⊆ letters by decide)
  have minus : '-' ∈ letters := by decide
  unfold Binary64.text
  split
  · decide
  · rw [String.toList_ofList]
    split
    · exact List.cons_subset.2 ⟨minus, number⟩
    · exact number

theorem text_subset (v : Value) : v.text.toList ⊆ letters := by
  obtain @⟨t, v⟩ := v
  cases t with
  | byte =>
    simp only [text, Ty.text, Numeral.hex, String.toList_append, String.toList_ofList,
      List.append_subset, padded_subset, and_true]
    decide
  | int => exact List.Subset.trans (Numeral.toString_subset _) (by decide)
  | float => exact float_text_subset v

end Value

theorem Opcode.mem_mnemonic {op : Opcode} {c : Char} (mem : c ∈ op.mnemonic.toList) :
    c.isLower = true ∨ c = '-' := by
  have table : ∀ op ∈ all, op.mnemonic.toList.all (fun c => c.isLower || c == '-') = true := by
    decide +kernel
  simpa using List.all_eq_true.1 (table op op.mem_all) c mem

theorem Instruction.newline_not_mem_text (i : Instruction) : '\n' ∉ i.text.toList := by
  have mnemonic : '\n' ∉ i.opcode.mnemonic.toList := fun mem =>
    absurd (Opcode.mem_mnemonic mem) (by decide)
  have operand (v : Value) : '\n' ∉ v.text.toList := fun mem =>
    absurd (v.text_subset mem) (by decide)
  unfold text
  cases i.operand? with
  | none => simp [mnemonic]
  | some v => simp [mnemonic, operand v]

end ByteMachine
