import ByteMachine.Command.Report
import ByteMachine.Proofs.Letters
import Mathlib.Data.List.Forall2

/-! What is relied on in the text of a log: each entry is written once, in order, as a line that
shows its level, its message and its fields. What else stands in a line is left open. -/
namespace ByteMachine

/-- The parts stand in the text one behind the other. -/
def Shows : List String → List Char → Prop
  | [], _ => True
  | part :: parts, text =>
    ∃ before after, text = before ++ part.toList ++ after ∧ Shows parts after

namespace LogEntry

def parts (l : LogEntry) : List String :=
  l.level :: l.message :: l.fields.flatMap fun (name, value) => [name, value]

structure ShownBy (l : LogEntry) (line : String) : Prop where
  one_line : '\n' ∉ line.toList
  shows : Shows l.parts line.toList

end LogEntry

/-- Each entry is written once, in order, on a line of its own. -/
def LogWriter.Faithful [LogWriter] : Prop :=
  ∀ log, ∃ ls, List.Forall₂ LogEntry.ShownBy log ls ∧ LogWriter.write log = Report.lines ls

theorem Shows.append_left {parts : List String} {text : List Char} (shows : Shows parts text)
    (before : List Char) : Shows parts (before ++ text) := by
  cases parts with
  | nil => trivial
  | cons part parts =>
    obtain ⟨first, after, rfl, rest⟩ := shows
    exact ⟨before ++ first, after, by simp, rest⟩

theorem Shows.cons {parts : List String} {text : List Char} (part : String)
    (shows : Shows parts text) : Shows (part :: parts) (part.toList ++ text) :=
  ⟨[], text, rfl, shows⟩

namespace Numeral

theorem newline_not_mem_toDigits (n : Nat) : '\n' ∉ Nat.toDigits 10 n := fun mem =>
  absurd (toDigits_subset n mem) (by decide)

theorem newline_not_mem_int (n : Int) : '\n' ∉ (toString n).toList := fun mem =>
  absurd (toString_subset n mem) (by decide)

theorem newline_not_mem_hex (width n : Nat) : '\n' ∉ (hex width n).toList := by
  rw [hex, String.toList_ofList]
  exact not_mem_padded (by decide) width n

end Numeral

open Numeral

theorem toString_string (s : String) : toString s = s := rfl

theorem MemoryError.newline_not_mem_message (e : MemoryError) : '\n' ∉ e.message.toList := by
  simp only [message, toString_string, String.toList_append, List.mem_append, not_or,
    Nat.toString_eq_repr, Nat.toList_repr, newline_not_mem_toDigits, newline_not_mem_int]
  decide

theorem MachineError.newline_not_mem_message (e : MachineError) : '\n' ∉ e.message.toList := by
  cases e <;> unfold message
  all_goals
    simp only [toString_string, String.toList_append, List.mem_append, not_or,
      Nat.toString_eq_repr, Nat.toList_repr, newline_not_mem_toDigits, newline_not_mem_int,
      newline_not_mem_hex, MemoryError.newline_not_mem_message]
    decide

namespace LogEntry

theorem newline_not_mem_part (l : LogEntry) : ∀ part ∈ l.parts, '\n' ∉ part.toList := by
  have instruction (i? : Option Instruction) :
      '\n' ∉ (i?.elim "<undecoded>" Instruction.text).toList := by
    cases i? with
    | none => rw [Option.elim]; decide
    | some i => exact i.newline_not_mem_text
  cases l with
  | runStart pc => simp [parts, level, message, fields, newline_not_mem_toDigits]
  | runEnd pc steps pointer ok =>
    cases ok <;> simp [parts, level, message, fields, newline_not_mem_toDigits]
  | event e =>
    cases outcome : e.outcome <;>
      simp [parts, level, message, fields, outcome, newline_not_mem_toDigits, instruction,
        MachineError.newline_not_mem_message]

theorem shows_fields (fields : List (String × String)) :
    Shows (fields.flatMap fun (name, value) => [name, value])
      (String.join (fields.map fun (name, value) => " " ++ name ++ "=" ++ value)).toList := by
  induction fields with
  | nil => trivial
  | cons field fields ih =>
    obtain ⟨name, value⟩ := field
    have behind := ((ih.cons value).append_left ['=']).cons name
    simpa using behind.append_left [' ']

theorem newline_not_mem_line (l : LogEntry) : '\n' ∉ l.line.toList := by
  have clear := l.newline_not_mem_part
  simp only [parts, List.forall_mem_cons] at clear
  obtain ⟨level, message, fields⟩ := clear
  have field : ∀ f ∈ l.fields, '\n' ∉ f.1.toList ∧ '\n' ∉ f.2.toList := fun f mem =>
    ⟨fields _ (List.mem_flatMap.2 ⟨f, mem, List.mem_cons_self⟩),
      fields _ (List.mem_flatMap.2 ⟨f, mem, List.mem_cons_of_mem _ List.mem_cons_self⟩)⟩
  simpa [line, List.leftpad, level, message] using field

theorem shownBy_line {l : LogEntry} {stamp : String} (clear : '\n' ∉ stamp.toList) :
    l.ShownBy (stamp ++ l.line) where
  one_line := by simp [clear, newline_not_mem_line]
  shows := by
    have behind := (((shows_fields l.fields).cons l.message).append_left [' ']).cons l.level
    have padded :=
      behind.append_left (stamp.toList ++ List.replicate (5 - l.level.toList.length) ' ')
    simpa [parts, line, List.leftpad] using padded

end LogEntry

theorem LogWriter.faithful_stamped {stamp : Nat → String}
    (clear : ∀ k, '\n' ∉ (stamp k).toList) : @LogWriter.Faithful (.stamped stamp) := by
  intro log
  refine ⟨log.mapIdx fun k l => stamp k ++ l.line, ?_, ?_⟩
  · rw [List.forall₂_iff_get]
    simp only [List.length_mapIdx, List.get_eq_getElem, List.getElem_mapIdx, true_and]
    exact fun k _ _ => LogEntry.shownBy_line (clear k)
  · change String.join (log.mapIdx fun k l => stamp k ++ l.line ++ "\n") = _
    rw [Report.lines, List.mapIdx_eq_zipIdx_map, List.mapIdx_eq_zipIdx_map, List.map_map]
    rfl

end ByteMachine
