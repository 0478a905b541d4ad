import ByteMachine.Command.Dump
import ByteMachine.Proofs.Readback
import Mathlib.Algebra.Order.Floor.Div
import Mathlib.Data.List.DropRight

/-! Dumps are read back cell by cell. The cells give all bytes in their order, and brackets stand
around the one that is marked, if it is there. -/
namespace ByteMachine.Dump

structure Cell where
  byte : UInt8
  marked : Bool
deriving DecidableEq

structure Row where
  label : Nat
  cells : List Cell
deriving DecidableEq

/-- What a dump says. -/
structure Sheet where
  title : String
  rows : List Row
deriving DecidableEq

/-- Two digits, in brackets or in blanks. -/
def Cell.read? : List Char → Option Cell
  | ['[', a, b, ']'] => (Listing.readByte? [a, b]).map (⟨·, true⟩)
  | [' ', a, b, ' '] => (Listing.readByte? [a, b]).map (⟨·, false⟩)
  | _ => none

def readCells? : List Char → Option (List Cell)
  | [] => some []
  | a :: b :: c :: d :: cs => do
    let cell ← Cell.read? [a, b, c, d]
    let cells ← readCells? cs
    return cell :: cells
  | _ => none

/-- Reads a line without its end. The label has no more digits than it needs, beyond four. -/
def Row.read? (line : List Char) : Option Row :=
  match line.splitOn ':' with
  | [digits, ' ' :: cells] => do
    let label ← Numeral.read? 16 digits
    let cells ← readCells? cells
    if digits = Numeral.padded 16 4 label then some ⟨label, cells⟩ else none
  | _ => none

/-- What is left without the blanks in front and behind. -/
def trim (cs : List Char) : List Char := (cs.dropWhile (· == ' ')).rdropWhile (· == ' ')

/-- The text consists of lines, the first of which is the title, and the others are the rows. -/
def Reads (text : String) (sheet : Sheet) : Prop :=
  ∃ (head : List Char) (lines : List (List Char)),
    text.toList = (head :: lines).flatMap (· ++ ['\n']) ∧
    (∀ line ∈ head :: lines, '\n' ∉ line) ∧ trim head = sheet.title.toList ∧
    lines.map Row.read? = sheet.rows.map some

/-- These bytes are shown, sixteen in a row. Labels count from the origin, and the mark is the index
of a byte. -/
structure Shows (rows : List Row) (origin mark : Nat) (bytes : List UInt8) : Prop where
  length_rows : rows.length = bytes.length ⌈/⌉ 16
  label_eq : ∀ r row, rows[r]? = some row → row.label = origin + 16 * r
  length_cells : ∀ r row, rows[r]? = some row → row.cells.length = min 16 (bytes.length - 16 * r)
  cell_eq : ∀ r row, rows[r]? = some row → ∀ k cell, row.cells[k]? = some cell →
    bytes[16 * r + k]? = some cell.byte ∧ (cell.marked = true ↔ 16 * r + k = mark)
  bytes_eq : (rows.flatMap (·.cells)).map (·.byte) = bytes
  count_marked : (rows.flatMap (·.cells)).countP (·.marked) = if mark < bytes.length then 1 else 0

theorem Reads.unique {text : String} {sheet sheet' : Sheet} (h : Reads text sheet)
    (h' : Reads text sheet') : sheet = sheet' := by
  obtain ⟨head, lines, eq, clear, title, read⟩ := h
  obtain ⟨head', lines', eq', clear', title', read'⟩ := h'
  obtain ⟨rfl, rfl⟩ := List.cons.inj (Listing.lines_unique clear clear' (eq.symm.trans eq'))
  have titles := String.toList_inj.1 (title.symm.trans title')
  have rows := (List.map_inj_right fun _ _ => Option.some.inj).1 (read.symm.trans read')
  cases sheet
  cases sheet'
  cases titles
  cases rows
  rfl

def Cell.text (c : Cell) : List Char := cell c.marked c.byte

/-- The line of a row, without its end. -/
def Row.line (r : Row) : List Char :=
  Numeral.padded 16 4 r.label ++ ':' :: ' ' :: r.cells.flatMap Cell.text

theorem readCells?_text_append (c : Cell) (cs : List Char) :
    readCells? (c.text ++ cs) = (readCells? cs).map (c :: ·) := by
  obtain ⟨byte, marked⟩ := c
  have read := Listing.readByte?_pair byte
  obtain ⟨a, b, digits⟩ := List.length_eq_two.1 (Listing.length_pair byte)
  rw [digits] at read
  cases marked <;> cases rest : readCells? cs <;>
    simp [Cell.text, cell, digits, readCells?, Cell.read?, read, rest]

theorem readCells?_flatMap (cells : List Cell) :
    readCells? (cells.flatMap Cell.text) = some cells := by
  induction cells with
  | nil => rfl
  | cons c cells ih => rw [List.flatMap_cons, readCells?_text_append, ih, Option.map_some]

theorem not_mem_cells {c : Char} (other : ∀ d < 16, c ≠ d.digitChar) (plain : c ∉ [' ', '[', ']'])
    (cells : List Cell) : c ∉ cells.flatMap Cell.text := by
  intro mem
  obtain ⟨cell, -, mem⟩ := List.mem_flatMap.1 mem
  exact not_mem_cell other plain cell.marked cell.byte mem

theorem Row.read?_line (r : Row) : Row.read? r.line = some r := by
  have label := Numeral.not_mem_padded (c := ':') (by decide) 4 r.label
  have cells := not_mem_cells (c := ':') (by decide) (by decide) r.cells
  have number := Numeral.read?_padded (by decide : 1 < 16) (by decide) 4 r.label
  have parts : r.line.splitOn ':' =
      [Numeral.padded 16 4 r.label, ' ' :: r.cells.flatMap Cell.text] := by
    rw [Row.line, List.splitOn_append_cons_self, List.splitOn_eq_singleton label,
      List.splitOn_eq_singleton (by simpa using cells)]
    rfl
  rw [Row.read?, parts]
  simp [number, readCells?_flatMap]

example : Row.read? "0010:  00 [ab]".toList = some ⟨16, [⟨0, false⟩, ⟨0xAB, true⟩]⟩ := by decide

theorem Row.newline_not_mem_line (r : Row) : '\n' ∉ r.line := by
  have label := Numeral.not_mem_padded (c := '\n') (by decide) 4 r.label
  have cells := not_mem_cells (c := '\n') (by decide) (by decide) r.cells
  rw [Row.line, List.mem_append, List.mem_cons, List.mem_cons]
  rintro (mem | eq | eq | mem)
  · exact label mem
  · exact absurd eq (by decide)
  · exact absurd eq (by decide)
  · exact cells mem

/-- The cells of some bytes. -/
def marking (mark : Nat) (bytes : List UInt8) : List Cell :=
  bytes.zipIdx.map fun (b, k) => ⟨b, k == mark⟩

/-- Sixteen cells in a row, as long as there are any. -/
def arrange (origin : Nat) (cells : List Cell) : List Row :=
  (List.range (cells.length ⌈/⌉ 16)).map fun r => ⟨origin + 16 * r, (cells.drop (16 * r)).take 16⟩

section Layout

variable {origin mark : Nat} {bytes : List UInt8} {cells : List Cell}

theorem length_marking (mark : Nat) (bytes : List UInt8) :
    (marking mark bytes).length = bytes.length := by
  simp [marking]

theorem getElem?_marking (mark : Nat) (bytes : List UInt8) (k : Nat) :
    (marking mark bytes)[k]? = bytes[k]?.map (⟨·, k == mark⟩) := by
  simp [marking, List.getElem?_zipIdx, Function.comp_def]

theorem map_byte_marking (mark : Nat) (bytes : List UInt8) :
    (marking mark bytes).map (·.byte) = bytes := by
  rw [marking, List.map_map]
  exact List.zipIdx_map_fst 0 bytes

theorem countP_marking (mark : Nat) (bytes : List UInt8) :
    (marking mark bytes).countP (·.marked) = if mark < bytes.length then 1 else 0 := by
  have indices : (marking mark bytes).countP (·.marked) =
      (List.range' 0 bytes.length).count mark := by
    rw [← List.zipIdx_map_snd, marking, List.countP_map, List.count, List.countP_map]
    rfl
  rw [indices, (List.nodup_range').count]
  simp only [List.mem_range'_1, Nat.zero_le, Nat.zero_add, true_and]

theorem marking_eq_iff {mark' : Nat} {bytes' : List UInt8} :
    marking mark bytes = marking mark' bytes' ↔
      bytes = bytes' ∧ (mark = mark' ∨ bytes.length ≤ mark ∧ bytes.length ≤ mark') := by
  constructor
  · intro same
    obtain rfl : bytes = bytes' := by
      rw [← map_byte_marking mark bytes, same, map_byte_marking]
    have agree (k : Nat) (inside : k < bytes.length) : k = mark ↔ k = mark' := by
      have cell : (marking mark bytes)[k]? = (marking mark' bytes)[k]? := by rw [same]
      rw [getElem?_marking, getElem?_marking, List.getElem?_eq_getElem inside] at cell
      have marks : (k == mark) = (k == mark') := congrArg Cell.marked (Option.some.inj cell)
      rw [← beq_iff_eq, marks, beq_iff_eq]
    -- a mark inside must be at the other mark, and the same holds the other way round
    have left := agree mark
    have right := agree mark'
    refine ⟨rfl, ?_⟩
    omega
  · rintro ⟨rfl, same⟩
    apply List.ext_getElem?
    intro k
    rw [getElem?_marking, getElem?_marking]
    by_cases inside : k < bytes.length
    · have agree : (k == mark) = (k == mark') := by
        rw [Bool.eq_iff_iff, beq_iff_eq, beq_iff_eq]
        omega
      rw [agree]
    · rw [List.getElem?_eq_none (Nat.le_of_not_lt inside), Option.map_none, Option.map_none]

theorem flatMap_chunks {α : Type} (xs : List α) (width count : Nat) :
    (List.range count).flatMap (fun r => (xs.drop (width * r)).take width) =
      xs.take (width * count) := by
  induction count with
  | zero => simp
  | succ count ih => simp [List.range_succ, ih, Nat.mul_succ, List.take_add]

theorem flatMap_arrange (origin : Nat) (cells : List Cell) :
    (arrange origin cells).flatMap (·.cells) = cells := by
  rw [arrange, List.flatMap_map, flatMap_chunks, Nat.ceilDiv_eq_add_pred_div]
  apply List.take_of_length_le
  omega

theorem getElem?_arrange {r : Nat} {row : Row} (h : (arrange origin cells)[r]? = some row) :
    row = ⟨origin + 16 * r, (cells.drop (16 * r)).take 16⟩ := by
  rw [arrange, List.getElem?_map, Option.map_eq_some_iff] at h
  obtain ⟨k, at_r, rfl⟩ := h
  obtain ⟨-, rfl⟩ := List.getElem?_eq_some_iff.1 at_r
  simp

theorem shows_arrange (origin mark : Nat) (bytes : List UInt8) :
    Shows (arrange origin (marking mark bytes)) origin mark bytes := by
  constructor
  case length_rows => simp [arrange, length_marking]
  case label_eq =>
    intro r row at_r
    rw [getElem?_arrange at_r]
  case length_cells =>
    intro r row at_r
    rw [getElem?_arrange at_r, List.length_take, List.length_drop, length_marking]
  case cell_eq =>
    intro r row at_r k cell at_k
    rw [getElem?_arrange at_r, List.getElem?_take] at at_k
    split at at_k
    · rw [List.getElem?_drop, getElem?_marking, Option.map_eq_some_iff] at at_k
      obtain ⟨byte, here, rfl⟩ := at_k
      exact ⟨here, beq_iff_eq⟩
    · cases at_k
  case bytes_eq => rw [flatMap_arrange, map_byte_marking]
  case count_marked => rw [flatMap_arrange, countP_marking]

end Layout

theorem chunk_eq (mark : Nat) (bytes : List UInt8) (start : Nat) :
    (((bytes.drop start).take 16).zipIdx start).map (fun (b, k) => (⟨b, k == mark⟩ : Cell)) =
      ((marking mark bytes).drop start).take 16 := by
  apply List.ext_getElem?
  intro k
  rw [List.getElem?_map, List.getElem?_zipIdx, List.getElem?_take, List.getElem?_take]
  split
  · simp [getElem?_marking, Function.comp_def]
  · rfl

theorem rows_eq (origin mark : Nat) (bytes : Array UInt8) : rows origin mark bytes =
    (arrange origin (marking mark bytes.toList)).flatMap fun r => r.line ++ ['\n'] := by
  have line (r : Nat) : row origin mark bytes r =
      Row.line ⟨origin + 16 * r, ((marking mark bytes.toList).drop (16 * r)).take 16⟩ ++ ['\n'] := by
    have chunk : (bytes.extract (rowSize * r) (rowSize * r + rowSize)).toList =
        (bytes.toList.drop (16 * r)).take 16 := by
      rw [Array.toList_extract, List.extract_eq_take_drop, Nat.add_sub_cancel_left]
      rfl
    rw [← chunk_eq, Row.line, List.flatMap_map, row, chunk]
    simp [rowSize, Cell.text]
  rw [rows, arrange, List.flatMap_map, Nat.ceilDiv_eq_add_pred_div, length_marking,
    Array.length_toList]
  exact List.flatMap_congr fun r _ => line r

/-- The line of a title, without its end. -/
def titleLine (text : String) : List Char :=
  List.replicate ((lineWidth - text.length) / 2) ' ' ++ text.toList ++
    List.replicate (lineWidth - text.length - (lineWidth - text.length) / 2) ' '

theorem title_eq (text : String) : title text = titleLine text ++ ['\n'] := rfl

def Sheet.text (s : Sheet) : String :=
  String.ofList (Dump.title s.title ++ s.rows.flatMap fun r => r.line ++ ['\n'])

theorem reads_text {s : Sheet} (clear : '\n' ∉ titleLine s.title)
    (trimmed : trim (titleLine s.title) = s.title.toList) : Reads s.text s := by
  refine ⟨titleLine s.title, s.rows.map Row.line, ?_, ?_, trimmed, ?_⟩
  · rw [Sheet.text, String.toList_ofList, List.flatMap_cons, List.flatMap_map, title_eq]
  · rw [List.forall_mem_cons]
    refine ⟨clear, fun line mem => ?_⟩
    obtain ⟨r, -, rfl⟩ := List.mem_map.1 mem
    exact r.newline_not_mem_line
  · rw [List.map_map]
    exact List.map_congr_left fun r _ => r.read?_line

/-- What the dump of a memory says. -/
def memorySheet (m : Memory) (pc : Nat) : Sheet :=
  ⟨"Memory", arrange 0 (marking pc m.bytes.toList)⟩

/-- What the dump of a stack says. -/
def stackSheet (s : Stack) (m : Memory) : Sheet :=
  ⟨stackTitle s.latch, arrange s.base (marking s.pointer (s.window m).toList)⟩

theorem reads_memory (m : Memory) (pc : Nat) : Reads (memory m pc) (memorySheet m pc) := by
  have text : memory m pc = (memorySheet m pc).text := by
    rw [memory, rows_eq]
    rfl
  rw [text]
  have trimmed : trim (titleLine "Memory") = "Memory".toList := by decide
  exact reads_text (show '\n' ∉ titleLine "Memory" by decide) trimmed

theorem reads_stack (s : Stack) (m : Memory) : Reads (stack s m) (stackSheet s m) := by
  have text : stack s m = (stackSheet s m).text := by
    rw [stack, rows_eq]
    rfl
  have clear (latch : Latch) : '\n' ∉ titleLine (stackTitle latch) := by cases latch <;> decide
  have trimmed (latch : Latch) : trim (titleLine (stackTitle latch)) = (stackTitle latch).toList := by
    cases latch <;> decide
  rw [text]
  exact reads_text (clear s.latch) (trimmed s.latch)

section Window

variable {s : Stack} {m : Memory}

theorem size_window (inside : s.base + s.size ≤ m.size) : (s.window m).size = s.size := by
  have size : s.base + s.size ≤ m.bytes.size := inside
  rw [Stack.window, if_pos inside, Array.size_extract]
  omega

theorem getElem?_window {k : Nat} (inside : s.base + s.size ≤ m.size) (below : k < s.size) :
    (s.window m)[k]? = m.bytes[s.base + k]? := by
  have size : s.base + s.size ≤ m.bytes.size := inside
  rw [Stack.window, if_pos inside, Array.getElem?_extract, if_pos (by omega)]

theorem window_of_not (outside : ¬ s.base + s.size ≤ m.size) : s.window m = #[] := by
  rw [Stack.window, if_neg outside]

end Window

theorem memory_eq_iff {m m' : Memory} {pc pc' : Nat} : memory m pc = memory m' pc' ↔
    m = m' ∧ (pc = pc' ∨ m.size ≤ pc ∧ m.size ≤ pc') := by
  have cells : memory m pc = memory m' pc' ↔
      marking pc m.bytes.toList = marking pc' m'.bytes.toList := by
    constructor
    · intro same
      have reads := reads_memory m pc
      rw [same] at reads
      have rows := congrArg Sheet.rows (reads.unique (reads_memory m' pc'))
      rw [← flatMap_arrange 0 (marking pc _), ← flatMap_arrange 0 (marking pc' _)]
      exact congrArg (·.flatMap (·.cells)) rows
    · intro same
      rw [memory, memory, rows_eq, rows_eq, same]
  obtain ⟨bytes⟩ := m
  obtain ⟨bytes'⟩ := m'
  rw [cells, marking_eq_iff, Array.toList_inj, Memory.mk.injEq, Array.length_toList]
  rfl

theorem dumps_read_back :
    (∀ text sheet sheet', Reads text sheet → Reads text sheet' → sheet = sheet') ∧
    (∀ (m : Memory) pc, ∃ rows, Reads (memory m pc) ⟨"Memory", rows⟩ ∧
      Shows rows 0 pc m.bytes.toList) ∧
    (∀ (m m' : Memory) pc pc', memory m pc = memory m' pc' ↔
      m = m' ∧ (pc = pc' ∨ m.size ≤ pc ∧ m.size ≤ pc')) ∧
    ∀ (s : Stack) (m : Memory), ∃ rows,
      Reads (stack s m) ⟨match s.latch with
        | .active => "Stack"
        | .overflowed => "Stack (overflow)"
        | .underflowed => "Stack (underflow)", rows⟩ ∧
      (s.base + s.size ≤ m.size → ∃ window, window.length = s.size ∧
        (∀ k < s.size, window[k]? = m.bytes[s.base + k]?) ∧ Shows rows s.base s.pointer window) ∧
      (m.size < s.base + s.size → rows = []) := by
  refine ⟨fun _ _ _ => Reads.unique, fun m pc => ?memory, fun _ _ _ _ => memory_eq_iff,
    fun s m => ?stack⟩
  case memory => exact ⟨_, reads_memory m pc, shows_arrange 0 pc _⟩
  case stack =>
    refine ⟨_, reads_stack s m, fun inside => ⟨(s.window m).toList, ?length, ?bytes, ?shows⟩,
      fun outside => ?none⟩
    case length =>
      rw [Array.length_toList, size_window inside]
    case bytes =>
      intro k below
      rw [Array.getElem?_toList, getElem?_window inside below]
    case shows => exact shows_arrange s.base s.pointer _
    case none =>
      simp [window_of_not (Nat.not_le_of_lt outside), marking, arrange]

/-- The seventeenth byte has a row of its own, and no place after it is marked. -/
theorem last_byte_marked :
    let m : Memory := ⟨(Array.replicate 16 0).push 0xAB⟩
    (∃ rows, Reads (memory m 16) ⟨"Memory", rows⟩ ∧ rows.length = 2 ∧
      rows[1]? = some ⟨16, [⟨0xAB, true⟩]⟩) ∧
    memory m 17 = memory m 18 ∧ memory m 16 ≠ memory m 17 ∧
    ∃ rows, Reads (stack ⟨1, 16, 16, .overflowed⟩ m) ⟨"Stack (overflow)", rows⟩ ∧ rows.length = 1 ∧
      (rows.flatMap (·.cells)).countP (·.marked) = 0 := by
  obtain ⟨-, shown, same, window⟩ := dumps_read_back
  intro m
  have size : m.size = 17 := by decide
  refine ⟨?row, ?beyond, ?inside, ?window⟩
  case row =>
    obtain ⟨rows, reads, shows⟩ := shown m 16
    have length : rows.length = 2 := shows.length_rows.trans (by decide)
    obtain ⟨⟨label, cells⟩, row⟩ : ∃ row, rows[1]? = some row :=
      ⟨_, List.getElem?_eq_getElem (by omega)⟩
    obtain rfl : label = 0 + 16 * 1 := shows.label_eq _ _ row
    obtain ⟨⟨byte, marked⟩, rfl⟩ := List.length_eq_one_iff.1
      ((shows.length_cells _ _ row).trans (by decide))
    obtain ⟨here, mark⟩ := shows.cell_eq _ _ row 0 _ rfl
    have last : m.bytes.toList[16 * 1 + 0]? = some 0xAB := by decide
    obtain rfl : (0xAB : UInt8) = byte := Option.some.inj (last.symm.trans here)
    obtain rfl : marked = true := mark.2 rfl
    exact ⟨rows, reads, length, row⟩
  case beyond => exact (same _ _ _ _).2 ⟨rfl, .inr (by omega)⟩
  case inside =>
    rw [ne_eq, same]
    omega
  case window =>
    obtain ⟨rows, reads, whole, -⟩ := window ⟨1, 16, 16, .overflowed⟩ m
    obtain ⟨bytes, length, -, shows⟩ := whole (Nat.le_of_eq size.symm)
    refine ⟨rows, reads, ?_, ?_⟩
    · rw [shows.length_rows, length]
      decide
    · rw [shows.count_marked, length]
      decide

end ByteMachine.Dump
