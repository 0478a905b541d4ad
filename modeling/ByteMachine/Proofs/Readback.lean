import ByteMachine.Code.Listing
import ByteMachine.Proofs.Letters
import ByteMachine.Proofs.RoundTrip

/-! Listings are read back. Each line gives the offset, the bytes and the text of its instruction, and
the bytes of all lines are the part of the image that was read, so two images have one listing when
these parts are equal. -/
namespace ByteMachine

theorem Instruction.length_encode_le (i : Instruction) : i.encode.length ≤ 9 := by
  have width : i.opcode.operand.width ≤ 8 := by
    unfold Operand.width
    cases i.opcode.operand.ty? with
    | none => exact Nat.zero_le _
    | some t => exact t.width_le
  rw [i.length_encode, size, Opcode.size]
  omega

namespace Listing

/-- What a line says. -/
structure Entry where
  offset : Nat
  bytes : List UInt8
  text : String
deriving DecidableEq

/-- What stands before the first two blanks in a row, and what stands after them. -/
def splitBlanks? : List Char → Option (List Char × List Char)
  | ' ' :: ' ' :: cs => some ([], cs)
  | c :: cs => (splitBlanks? cs).map (Prod.map (c :: ·) id)
  | [] => none

/-- What stands between blanks. -/
def words (cs : List Char) : List (List Char) := (cs.splitOn ' ').filter (!·.isEmpty)

def readByte? (cs : List Char) : Option UInt8 :=
  if cs.length = 2 then (Numeral.read? 16 cs).map UInt8.ofNat else none

/-- Reads a line without its end. -/
def Entry.read? (line : List Char) : Option Entry := do
  let (offset, rest) ← splitBlanks? line
  let address ← if 4 ≤ offset.length then Numeral.read? 16 offset else none
  let bytes ← (words (rest.take columnWidth)).mapM readByte?
  if (rest.drop columnWidth).take 2 = [' ', ' '] then
    some ⟨address, bytes, String.ofList (rest.drop (columnWidth + 2))⟩
  else none

/-- The text consists of lines, and these say so much. -/
def Reads (text : String) (entries : List Entry) : Prop :=
  ∃ lines : List (List Char), text.toList = lines.flatMap (· ++ ['\n']) ∧
    (∀ line ∈ lines, '\n' ∉ line) ∧ lines.map Entry.read? = entries.map some

def Entry.of : Nat × Instruction → Entry := fun (offset, i) => ⟨offset, i.encode, i.text⟩

def Entry.column (e : Entry) : List Char := (bytePairs e.bytes).rightpad columnWidth ' '

/-- The line that says this, without its end. -/
def Entry.line (e : Entry) : List Char :=
  Numeral.padded 16 4 e.offset ++ [' ', ' '] ++ e.column ++ [' ', ' '] ++ e.text.toList

def written (es : List Entry) : String := String.ofList (es.flatMap fun e => e.line ++ ['\n'])

theorem splitBlanks?_append {cs : List Char} (clear : ' ' ∉ cs) (rest : List Char) :
    splitBlanks? (cs ++ ' ' :: ' ' :: rest) = some (cs, rest) := by
  induction cs with
  | nil => rfl
  | cons c cs ih =>
    rw [List.mem_cons, not_or] at clear
    rw [List.cons_append, splitBlanks?, ih clear.2]
    · rfl
    · rintro _ rfl
      exact absurd rfl clear.1

theorem words_append (x y : List Char) : words (x ++ ' ' :: y) = words x ++ words y := by
  unfold words
  rw [List.splitOn_append_cons_self, List.filter_append]

theorem words_append_replicate (cs : List Char) (k : Nat) :
    words (cs ++ List.replicate k ' ') = words cs := by
  have blanks (k : Nat) : words (List.replicate k ' ') = [] := by
    induction k with
    | zero => rfl
    | succ k ih => exact (words_append [] _).trans ih
  cases k with
  | zero => simp
  | succ k => rw [List.replicate_succ, words_append, blanks, List.append_nil]

theorem length_pair (b : UInt8) : (Numeral.padded 16 2 b.toNat).length = 2 := by
  have short := (Nat.length_toDigits_le_iff (b := 16) (k := 2) (by decide) (by decide)).2 b.toNat_lt
  unfold Numeral.padded
  rw [List.length_leftpad]
  exact Nat.max_eq_left short

theorem readByte?_pair (b : UInt8) : readByte? (Numeral.padded 16 2 b.toNat) = some b := by
  rw [readByte?, if_pos (length_pair b), Numeral.read?_padded (by decide) (by decide)]
  simp

theorem mapM_readByte? (bs : List UInt8) :
    (bs.map fun b => Numeral.padded 16 2 b.toNat).mapM readByte? = some bs := by
  induction bs with
  | nil => rfl
  | cons b bs ih => simp [readByte?_pair, ih]

theorem words_bytePairs (bs : List UInt8) :
    words (bytePairs bs) = bs.map fun b => Numeral.padded 16 2 b.toNat := by
  cases bs with
  | nil => rfl
  | cons b bs =>
    unfold words bytePairs
    rw [List.splitOn_intercalate]
    · rw [List.filter_eq_self]
      intro w mem
      obtain ⟨b, -, rfl⟩ := List.mem_map.1 mem
      simp [← List.length_eq_zero_iff, length_pair]
    · intro w mem
      obtain ⟨b, -, rfl⟩ := List.mem_map.1 mem
      exact Numeral.not_mem_padded (by decide) 2 b.toNat
    · simp

theorem bytePairs_cons_cons (a b : UInt8) (bs : List UInt8) : bytePairs (a :: b :: bs) =
    Numeral.padded 16 2 a.toNat ++ ' ' :: bytePairs (b :: bs) := by
  simp [bytePairs]

theorem length_bytePairs (b : UInt8) (bs : List UInt8) :
    (bytePairs (b :: bs)).length = 3 * bs.length + 2 := by
  induction bs generalizing b with
  | nil => simp [bytePairs, length_pair]
  | cons b' bs ih =>
    rw [bytePairs_cons_cons, List.length_append, length_pair, List.length_cons, ih, List.length_cons]
    omega

theorem newline_not_mem_bytePairs (bs : List UInt8) : '\n' ∉ bytePairs bs := by
  have digits (b : UInt8) := Numeral.not_mem_padded (c := '\n') (by decide) 2 b.toNat
  induction bs with
  | nil => exact List.not_mem_nil
  | cons b bs ih =>
    cases bs with
    | nil => simp [bytePairs, digits]
    | cons b' bs => simp [bytePairs_cons_cons, digits, ih]

namespace Entry

variable {e : Entry}

theorem length_column (fits : e.bytes.length ≤ 9) : e.column.length = columnWidth := by
  unfold column
  rw [List.length_rightpad]
  apply Nat.max_eq_left
  cases h : e.bytes with
  | nil => exact Nat.zero_le _
  | cons b bs =>
    rw [h, List.length_cons] at fits
    rw [length_bytePairs, columnWidth]
    omega

theorem mapM_words_column (e : Entry) : (words e.column).mapM readByte? = some e.bytes := by
  rw [column, List.rightpad, words_append_replicate, words_bytePairs, mapM_readByte?]

theorem read?_line (fits : e.bytes.length ≤ 9) : read? e.line = some e := by
  have clear := Numeral.not_mem_padded (c := ' ') (by decide) 4 e.offset
  have digits : 4 ≤ (Numeral.padded 16 4 e.offset).length := by
    unfold Numeral.padded
    rw [List.length_leftpad]
    exact Nat.le_max_left _ _
  have address := Numeral.read?_padded (by decide : 1 < 16) (by decide) 4 e.offset
  have front (rest : List Char) : (e.column ++ rest).take columnWidth = e.column := by
    rw [← length_column fits, List.take_left]
  have back (rest : List Char) : (e.column ++ rest).drop columnWidth = rest := by
    rw [← length_column fits, List.drop_left]
  unfold read? line
  simp only [List.append_assoc, List.cons_append, List.nil_append, splitBlanks?_append clear,
    Option.bind_eq_bind, Option.bind_some, if_pos digits, address, ← List.drop_drop, front, back,
    mapM_words_column]
  simp

example : read? "0000  08 04                       push-byte 0x04".toList =
    some ⟨0, [0x08, 0x04], "push-byte 0x04"⟩ := by
  decide

theorem newline_not_mem_line (clear : '\n' ∉ e.text.toList) : '\n' ∉ e.line := by
  have offset := Numeral.not_mem_padded (c := '\n') (by decide) 4 e.offset
  simp [line, column, List.rightpad, offset, newline_not_mem_bytePairs, clear]

end Entry

theorem splitOn_lines {lines : List (List Char)} (clear : ∀ line ∈ lines, '\n' ∉ line) :
    (lines.flatMap (· ++ ['\n'])).splitOn '\n' = lines ++ [[]] := by
  induction lines with
  | nil => rfl
  | cons line lines ih =>
    rw [List.forall_mem_cons] at clear
    rw [List.flatMap_cons, List.append_assoc, List.singleton_append, List.splitOn_append_cons_self,
      List.splitOn_eq_singleton clear.1, ih clear.2]
    rfl

theorem lines_unique {lines lines' : List (List Char)} (clear : ∀ line ∈ lines, '\n' ∉ line)
    (clear' : ∀ line ∈ lines', '\n' ∉ line)
    (eq : lines.flatMap (· ++ ['\n']) = lines'.flatMap (· ++ ['\n'])) : lines = lines' := by
  have split := splitOn_lines clear
  rw [eq, splitOn_lines clear'] at split
  exact (List.append_cancel_right split).symm

theorem Reads.unique {text : String} {es es' : List Entry} (h : Reads text es)
    (h' : Reads text es') : es = es' := by
  obtain ⟨lines, eq, clear, read⟩ := h
  obtain ⟨lines', eq', clear', read'⟩ := h'
  rw [lines_unique clear clear' (eq.symm.trans eq'), read'] at read
  exact ((List.map_inj_right fun _ _ => Option.some.inj).1 read).symm

theorem reads_written {es : List Entry} (fits : ∀ e ∈ es, e.bytes.length ≤ 9)
    (clear : ∀ e ∈ es, '\n' ∉ e.text.toList) : Reads (written es) es := by
  refine ⟨es.map Entry.line, ?_, ?_, ?_⟩
  · rw [written, String.toList_ofList, List.flatMap_map]
  · intro line mem
    obtain ⟨e, inside, rfl⟩ := List.mem_map.1 mem
    exact Entry.newline_not_mem_line (clear e inside)
  · rw [List.map_map]
    exact List.map_congr_left fun e inside => Entry.read?_line (fits e inside)

end Listing

namespace Image

variable {address : Nat} {bytes : Image} {l : List (Nat × Instruction)}

/-- Where the reading came to. -/
def stop (l : List (Nat × Instruction)) : Nat := l.getLast?.elim 0 fun (offset, i) => offset + i.size

theorem length_layout (address : Nat) (is : List Instruction) :
    (layout address is).length = is.length := by
  induction is generalizing address with
  | nil => rfl
  | cons i is ih => rw [layout, List.length_cons, ih, List.length_cons]

theorem stop_layout (is : List Instruction) : stop (layout 0 is) = (ofInstructions is).length := by
  unfold stop
  rw [List.getLast?_eq_getElem?, getElem?_layout, length_layout]
  obtain rfl | ⟨front, i, rfl⟩ := is.eq_nil_or_concat
  · rfl
  · simp [ofInstructions, i.length_encode]

theorem take_stop (read : bytes.disassemble = .ok l) :
    bytes.take (stop l) = ofInstructions (l.map (·.2)) := by
  obtain ⟨laid, rest, eq, -⟩ := layout_of_disassembleFrom read
  have length := stop_layout (l.map (·.2))
  rw [← laid] at length
  rw [length, eq]
  exact List.take_left

theorem disassembleFrom_ofInstructions_map (read : disassembleFrom address bytes = .ok l) :
    disassembleFrom address (ofInstructions (l.map (·.2))) = .ok l := by
  induction l generalizing address bytes with
  | nil => rw [List.map_nil, ofInstructions_nil, disassembleFrom]
  | cons x l ih =>
    obtain ⟨-, eq⟩ | ⟨i, rest, tail, rfl, eq, more⟩ := disassembleFrom_inv read
    · cases eq
    · cases eq
      rw [List.map_cons, ofInstructions_cons, disassembleFrom_encode]
      obtain ⟨rfl, rfl⟩ | ⟨going, more⟩ := more
      · rfl
      · rw [if_neg going, ih more]
        rfl

end Image

namespace Listing

open Image

variable {bytes : Image} {l : List (Nat × Instruction)}

theorem line_eq (read : bytes.disassemble = .ok l) {x : Nat × Instruction} (mem : x ∈ l) :
    line bytes x.1 x.2 = (Entry.of x).line ++ ['\n'] := by
  obtain ⟨before, after, rfl, eq⟩ := encode_of_mem read mem
  rw [Nat.zero_add] at eq
  have bytes : ((before ++ x.2.encode ++ after).drop x.1).take x.2.size = x.2.encode := by
    rw [eq, List.append_assoc, List.drop_left, ← x.2.length_encode, List.take_left]
  rw [line, bytes]
  rfl

theorem render_eq (read : bytes.disassemble = .ok l) :
    render bytes = .ok (written (l.map Entry.of)) := by
  have lines : (l.flatMap fun (address, i) => line bytes address i) =
      (l.map Entry.of).flatMap fun e => e.line ++ ['\n'] := by
    rw [List.flatMap_map, List.flatMap_def, List.flatMap_def]
    exact congrArg List.flatten (List.map_congr_left fun x mem => line_eq read mem)
  unfold render written
  rw [read, ← lines]
  rfl

theorem reads_written_of (l : List (Nat × Instruction)) :
    Reads (written (l.map Entry.of)) (l.map Entry.of) := by
  apply reads_written
  · intro e mem
    obtain ⟨x, -, rfl⟩ := List.mem_map.1 mem
    exact x.2.length_encode_le
  · intro e mem
    obtain ⟨x, -, rfl⟩ := List.mem_map.1 mem
    exact x.2.newline_not_mem_text

theorem bytes_of (l : List (Nat × Instruction)) :
    (l.map Entry.of).flatMap (·.bytes) = ofInstructions (l.map (·.2)) := by
  rw [List.flatMap_map, ofInstructions, List.flatMap_map]
  rfl

theorem render_eq_iff {a b : Image} {la lb : List (Nat × Instruction)}
    (read_a : a.disassemble = .ok la) (read_b : b.disassemble = .ok lb) :
    render a = render b ↔ a.take (stop la) = b.take (stop lb) := by
  rw [take_stop read_a, take_stop read_b, render_eq read_a, render_eq read_b]
  constructor
  · intro same
    have reads := reads_written_of la
    rw [Except.ok.inj same] at reads
    rw [← bytes_of, ← bytes_of, reads.unique (reads_written_of lb)]
  · intro same
    have read := disassembleFrom_ofInstructions_map read_a
    rw [same, disassembleFrom_ofInstructions_map read_b] at read
    rw [Except.ok.inj read]

theorem listing_read_back :
    (∀ (bytes : Image) e, render bytes = .error e ↔ bytes.disassemble = .error e) ∧
    (∀ text es es', Reads text es → Reads text es' → es = es') ∧
    (∀ (bytes : Image) l, bytes.disassemble = .ok l → ∃ text entries, render bytes = .ok text ∧
      Reads text entries ∧ entries = l.map (fun (offset, i) => ⟨offset, i.encode, i.text⟩) ∧
      entries.flatMap (·.bytes) = bytes.take (stop l) ∧
      ((∀ offset, (offset, .halt) ∉ l) → bytes.take (stop l) = bytes) ∧
      ∀ k e, entries[k]? = some e → e.offset = ((entries.take k).flatMap (·.bytes)).length) ∧
    ∀ (a b : Image) la lb, a.disassemble = .ok la → b.disassemble = .ok lb →
      (render a = render b ↔ a.take (stop la) = b.take (stop lb)) := by
  refine ⟨?fails, fun _ _ _ => Reads.unique, ?read, fun _ _ _ _ => render_eq_iff⟩
  case fails =>
    intro bytes e
    unfold render
    cases bytes.disassemble <;> simp [Except.map]
  case read =>
    intro bytes l read
    refine ⟨_, l.map Entry.of, render_eq read, reads_written_of l, rfl, ?bytes, ?whole, ?offsets⟩
    case bytes => rw [bytes_of, take_stop read]
    case whole =>
      intro going
      obtain ⟨-, rest, eq, rfl | ⟨offset, last⟩⟩ := layout_of_disassembleFrom read
      · rw [take_stop read]
        exact (eq.trans (List.append_nil _)).symm
      · exact absurd (List.mem_of_getLast? last) (going offset)
    case offsets =>
      intro k e this
      rw [← List.map_take, bytes_of, List.map_take]
      rw [(layout_of_disassembleFrom read).1, List.getElem?_map, getElem?_layout, Option.map_map,
        Option.map_eq_some_iff] at this
      obtain ⟨i, -, rfl⟩ := this
      simp [Entry.of]

/-- What stands after a `halt` is not listed. -/
theorem data_not_listed : ∃ a b : Image, a ≠ b ∧ a = ofInstructions [.push .int 12, .halt] ++ [0xAB] ∧
    b = ofInstructions [.push .int 12, .halt] ∧
    (∃ text, render a = .ok text ∧ render b = .ok text ∧
      Reads text [⟨0, [0x09, 0x0C, 0, 0, 0, 0, 0, 0, 0], "push-int 12"⟩, ⟨9, [0], "end"⟩]) := by
  have read (rest : Image) : disassemble (ofInstructions [.push .int 12, .halt] ++ rest) =
      .ok [(0, .push .int 12), (9, .halt)] := disassembleFrom_of_halt_mem 0 rest (by decide)
  obtain ⟨-, -, readable, same⟩ := listing_read_back
  obtain ⟨text, _, shown, reads, rfl, -, -, -⟩ := readable _ _ (read [0xAB])
  have equal := (same _ _ _ _ (read [0xAB]) (read [])).2 (by decide)
  rw [List.append_nil] at equal
  exact ⟨_, _, by decide, rfl, rfl, text, shown, equal.symm.trans shown, reads⟩

end Listing
end ByteMachine
