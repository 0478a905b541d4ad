import ByteMachine.Code.Decode
import ByteMachine.Proofs.Shortest

/-! How instructions are spelled. A text is the mnemonic and, after a blank, the operand. It says
which instruction it is of, except that all NaNs are spelled alike. -/
namespace ByteMachine

namespace Opcode

def ofMnemonic? (name : String) : Option Opcode := all.find? (·.mnemonic == name)

theorem ofMnemonic?_mnemonic (op : Opcode) : ofMnemonic? op.mnemonic = some op := by
  have table : ∀ op ∈ all, ofMnemonic? op.mnemonic = some op := by decide +kernel
  exact table op op.mem_all

end Opcode

namespace Ty

def isNaN : (t : Ty) → t.Val → Bool
  | byte, _ | int, _ => false
  | float, x => x.isNaN

theorem text_eq_iff {t : Ty} (a b : t.Val) :
    t.text a = t.text b ↔ a = b ∨ t.isNaN a = true ∧ t.isNaN b = true := by
  cases t with
  | byte =>
    simp only [isNaN, Bool.false_eq_true, and_self, or_false]
    constructor
    · intro same
      have digits : Numeral.padded 16 2 a.toNat = Numeral.padded 16 2 b.toNat := by
        have lists := congrArg String.toList same
        simpa [text, Numeral.hex] using lists
      have read := Numeral.read?_padded (by decide : 1 < 16) (by decide) 2 a.toNat
      rw [digits, Numeral.read?_padded (by decide) (by decide)] at read
      exact UInt8.toNat_inj.1 (Option.some.inj read).symm
    · exact congrArg (text byte)
  | int =>
    simp only [isNaN, Bool.false_eq_true, and_self, or_false]
    constructor
    · intro same
      have read := Numeral.integer_toString a.toInt
      rw [show toString a.toInt = toString b.toInt from same, Numeral.integer_toString] at read
      exact Int64.toInt_inj.1 read.symm
    · exact congrArg (text int)
  | float => exact Binary64.text_eq_iff a b

end Ty

namespace Instruction

variable {i j : Instruction}

/-- What the opcode and the text of the operand are, given an instruction's text. -/
def parts? (text : String) : Option (Opcode × Option String) :=
  match text.toList.splitOn ' ' with
  | [name] => (Opcode.ofMnemonic? (String.ofList name)).map (·, none)
  | [name, operand] => (Opcode.ofMnemonic? (String.ofList name)).map (·, some (String.ofList operand))
  | _ => none

theorem blank_not_mem_mnemonic (op : Opcode) : ' ' ∉ op.mnemonic.toList := fun mem =>
  absurd (Opcode.mem_mnemonic mem) (by decide)

theorem blank_not_mem_text (v : Value) : ' ' ∉ v.text.toList := fun mem =>
  absurd (v.text_subset mem) (by decide)

theorem parts?_text (i : Instruction) : parts? i.text = some (i.opcode, i.operand?.map (·.text)) := by
  have name := List.splitOn_eq_singleton (blank_not_mem_mnemonic i.opcode)
  unfold parts? text
  cases i.operand? with
  | none => simp [name, Opcode.ofMnemonic?_mnemonic]
  | some v =>
    have operand := List.splitOn_eq_singleton (blank_not_mem_text v)
    have split := List.splitOn_append_cons_self (a := ' ') i.opcode.mnemonic.toList v.text.toList
    rw [name, operand] at split
    simp [split, Opcode.ofMnemonic?_mnemonic]

theorem eq_of_parts_eq (opcode : i.opcode = j.opcode) (operand : i.operand? = j.operand?) :
    i = j := by
  have encode : i.encode = j.encode := by rw [Instruction.encode, Instruction.encode, opcode, operand]
  have read := front_encode 0 i []
  rw [encode, front_encode] at read
  exact (Except.ok.inj read).symm

theorem eq_push_of_operand? {x : Binary64} (h : i.operand? = some (@Value.mk .float x)) :
    i = .push .float x := by
  cases i <;> simp_all [operand?, Value.int]

theorem eq_or_isNaN_of_text_eq (same : i.text = j.text) : i = j ∨
    ∃ x y : Binary64, x.isNaN = true ∧ y.isNaN = true ∧ i = .push .float x ∧ j = .push .float y := by
  have parts := parts?_text i
  rw [same, parts?_text, Option.some.injEq, Prod.mk.injEq] at parts
  obtain ⟨opcode, texts⟩ := parts
  have i_type := i.operand?_ty
  have j_type := j.operand?_ty
  rw [opcode, ← i_type] at j_type
  cases left : i.operand? with
  | none =>
    rw [left, Option.map_none, Option.map_eq_none_iff] at texts
    exact .inl (eq_of_parts_eq opcode.symm (left.trans texts.symm))
  | some v =>
    cases right : j.operand? with
    | none => simp [left, right] at texts
    | some w =>
      -- the opcode fixes the type, so that the two operands can be compared
      rw [left, right] at texts j_type
      obtain @⟨t, v⟩ := v
      obtain @⟨u, w⟩ := w
      obtain rfl : u = t := Option.some.inj j_type
      obtain rfl | ⟨w_nan, v_nan⟩ := (Ty.text_eq_iff w v).1 (Option.some.inj texts)
      · exact .inl (eq_of_parts_eq opcode.symm (left.trans right.symm))
      · cases u with
        | byte | int => cases v_nan
        | float =>
          exact .inr ⟨v, w, v_nan, w_nan, eq_push_of_operand? left, eq_push_of_operand? right⟩

theorem text_push_float (x : Binary64) : (push .float x).text = "push-float " ++ x.text := by
  have mnemonic : (Opcode.push .float).mnemonic ++ " " = "push-float " := by decide
  rw [← mnemonic, String.append_assoc]
  rfl

theorem text_push_float_eq_iff (x : Binary64) :
    (push .float x).text = "push-float NaN" ↔ x.isNaN = true := by
  have nan : "push-float NaN" = "push-float " ++ "NaN" := by decide
  rw [text_push_float, nan, String.append_right_inj, Binary64.text_eq_nan_iff]

theorem text_identifies :
    (∀ i j : Instruction, i.text = j.text ↔ i = j ∨
      ∃ x y : Binary64, x.isNaN = true ∧ y.isNaN = true ∧
        i = .push .float x ∧ j = .push .float y) ∧
    (∀ x : Binary64, (push .float x).text = "push-float NaN" ↔ x.isNaN = true) ∧
    ∀ i : Instruction,
      i.text = i.operand?.elim i.opcode.mnemonic (i.opcode.mnemonic ++ " " ++ ·.text) ∧
      ' ' ∉ i.opcode.mnemonic.toList ∧ ' ' ∉ (i.operand?.elim "" (·.text)).toList ∧
      parts? i.text = some (i.opcode, i.operand?.map (·.text)) := by
  refine ⟨fun i j => ⟨eq_or_isNaN_of_text_eq, ?alike⟩, text_push_float_eq_iff, fun i =>
    ⟨?layout, blank_not_mem_mnemonic _, ?operand, parts?_text i⟩⟩
  case alike =>
    rintro (rfl | ⟨x, y, x_nan, y_nan, rfl, rfl⟩)
    · rfl
    · rw [(text_push_float_eq_iff x).2 x_nan, (text_push_float_eq_iff y).2 y_nan]
  case layout =>
    unfold text
    cases i.operand? with
    | none => exact String.append_empty
    | some v => exact (String.append_assoc ..).symm
  case operand =>
    cases i.operand? with
    | none => exact List.not_mem_nil
    | some v => exact blank_not_mem_text v

/-- The two zeros are spelled differently, and NaNs of different sign and payload alike. -/
theorem zeros_told_apart :
    (push .float ⟨0⟩).text ≠ (push .float ⟨0x8000000000000000⟩).text ∧
    (push .float ⟨0x7FF8000000000000⟩).text = (push .float ⟨0xFFF0000000000001⟩).text ∧
    parts? (push .int Int64.minValue).text = some (.push .int, some "-9223372036854775808") := by
  obtain ⟨same, nan, layout⟩ := text_identifies
  refine ⟨?zeros, ?nans, ?least⟩
  case zeros =>
    rw [ne_eq, same]
    rintro (eq | ⟨x, -, x_nan, -, eq, -⟩)
    · exact absurd eq (by decide)
    · cases eq
      exact absurd x_nan (by decide)
  case nans => rw [(nan _).2 (by decide), (nan _).2 (by decide)]
  case least => exact (layout (.push .int Int64.minValue)).2.2.2

end Instruction
end ByteMachine
