import ByteMachine.Proofs.LittleEndian
import ByteMachine.Proofs.RoundTrip

/-! Images that are patched while they are built. An image is all that was appended, with the patches
applied to it, and a patch of an operand gives the image that the other operand would have given. -/
namespace ByteMachine

namespace Instruction

/-- The operand, if there is one, takes eight bytes. -/
def Wide (i : Instruction) : Prop := i.opcode.operand.width = 8

instance (i : Instruction) : Decidable i.Wide := inferInstanceAs (Decidable (_ = _))

/-- The instruction with another wide operand. A float is given by its bits. -/
def withWord (n : Int64) : Instruction → Instruction
  | push .int _ => push .int n
  | push .float _ => push .float ⟨n.toUInt64⟩
  | getAddress t _ => getAddress t n
  | putAddress t _ => putAddress t n
  | getStack t _ => getStack t n
  | putStack t _ => putStack t n
  | jmp _ => jmp n
  | branchAddress c t _ => branchAddress c t n
  | callAddress _ => callAddress n
  | i => i

variable {i : Instruction}

theorem opcode_withWord (n : Int64) (i : Instruction) : (i.withWord n).opcode = i.opcode := by
  cases i with
  | push t v => cases t <;> rfl
  | _ => rfl

@[simp] theorem size_withWord (n : Int64) (i : Instruction) : (i.withWord n).size = i.size :=
  congrArg Opcode.size (opcode_withWord n i)

@[simp] theorem withWord_eq_halt_iff {n : Int64} : i.withWord n = halt ↔ i = halt := by
  cases i with
  | push t v => cases t <;> simp [withWord]
  | _ => simp [withWord]

theorem Wide.size_eq (wide : i.Wide) : i.size = 9 := by
  unfold size Opcode.size
  rw [wide]

theorem Wide.encode_eq (wide : i.Wide) (n : Int64) :
    (∃ operand : List UInt8, operand.length = 8 ∧ i.encode = i.opcode.toByte :: operand) ∧
      (i.withWord n).encode = i.opcode.toByte :: Ty.int.encode n := by
  have size := wide.size_eq
  constructor
  · refine ⟨i.operand?.elim [] Value.encode, ?_, rfl⟩
    have length := i.length_encode
    rw [encode, List.length_cons] at length
    omega
  · cases i with
    | push t v =>
      cases t with
      | byte => cases wide
      | int | float => rfl
    | getAddress _ _ | putAddress _ _ | getStack _ _ | putStack _ _ | jmp _ | branchAddress _ _ _
    | callAddress _ => rfl
    | _ => cases wide

end Instruction

/-- The bytes that an edit appends, if any. -/
def Edit.appended : Edit → List UInt8
  | emit i => i.encode
  | opcode op => [op.toByte]
  | value v => v.encode
  | patch _ _ => []

namespace Image

/-- The image with an int written over it. -/
def overlay (bytes : Image) (address : Nat) (n : Int64) : Image :=
  bytes.take address ++ Ty.int.encode n ++ bytes.drop (address + 8)

/-- The patches that lie within what was appended before them, in order. -/
def patches (length : Nat) : List Edit → List (Nat × Int64)
  | [] => []
  | .patch address n :: es =>
    if address + 8 ≤ length then (address, n) :: patches length es else patches length es
  | e :: es => patches (length + e.appended.length) es

/-- A patch at an address of 64 bits. The end may wrap around, and then lies before the beginning. -/
def wrappingPatch? (bytes : Image) (address : UInt64) (n : Int64) : Option Image :=
  let stop := address + 8
  if stop < address ∨ bytes.length < stop.toNat then none
  else some (bytes.take address.toNat ++ Ty.int.encode n ++ bytes.drop stop.toNat)

variable {bytes : Image} {address : Nat} {n : Int64}

theorem length_overlay (fits : address + 8 ≤ bytes.length) :
    (bytes.overlay address n).length = bytes.length := by
  have width := Ty.length_encode (t := .int) n
  simp only [overlay, List.length_append, List.length_take, List.length_drop, width, Ty.width]
  omega

theorem getElem?_overlay (fits : address + 8 ≤ bytes.length) (k : Nat) :
    (bytes.overlay address n)[k]? =
      if address ≤ k ∧ k < address + 8 then some ((Value.int n).digit (k - address))
      else bytes[k]? := by
  have front : (bytes.take address).length = address := by
    rw [List.length_take]
    omega
  have width : (Ty.int.encode n).length = 8 := Ty.length_encode (t := .int) n
  have digits := (Value.int n).getElem?_encode (k - address)
  simp only [overlay, List.append_assoc, List.getElem?_append, front, width, List.getElem?_take,
    List.getElem?_drop]
  by_cases below : k < address
  · rw [if_pos below, if_pos below, if_neg (by omega)]
  · rw [if_neg below]
    by_cases inside : k - address < 8
    · rw [if_pos inside, if_pos (by omega)]
      exact digits.trans (if_pos inside)
    · rw [if_neg inside, if_neg (by omega)]
      congr 1
      omega

theorem overlay_append (fits : address + 8 ≤ bytes.length) (rest : Image) :
    overlay (bytes ++ rest) address n = bytes.overlay address n ++ rest := by
  unfold overlay
  rw [List.take_append_of_le_length (by omega), List.drop_append_of_le_length fits]
  simp only [List.append_assoc]

theorem overlay_operand (before after operand : List UInt8) (b : UInt8)
    (width : operand.length = 8) : overlay (before ++ b :: operand ++ after) (before.length + 1) n =
      before ++ b :: Ty.int.encode n ++ after := by
  have stop : before.length + 1 + 8 = (before ++ b :: operand).length := by simp [width]
  unfold overlay
  rw [stop, List.drop_left]
  simp [List.take_append, List.take_of_length_le]

theorem perform?_patch : (Edit.patch address n).perform? bytes =
    if address + 8 ≤ bytes.length then some (bytes.overlay address n) else none := rfl

theorem edit_patch_of_le (fits : address + 8 ≤ bytes.length) :
    bytes.edit (.patch address n) = bytes.overlay address n := by
  rw [edit, perform?_patch, if_pos fits, Option.getD_some]

theorem edit_patch_of_not (beyond : ¬ address + 8 ≤ bytes.length) :
    bytes.edit (.patch address n) = bytes := by
  rw [edit, perform?_patch, if_neg beyond, Option.getD_none]

theorem patch_or_appends (e : Edit) : (∃ address n, e = .patch address n) ∨
    (∀ bytes : Image, bytes.edit e = bytes ++ e.appended) ∧
      ∀ length es, patches length (e :: es) = patches (length + e.appended.length) es := by
  cases e with
  | patch address n => exact .inl ⟨address, n, rfl⟩
  | _ => exact .inr ⟨fun _ => rfl, fun _ _ => rfl⟩

@[simp] theorem length_edit_patch (bytes : Image) (address : Nat) (n : Int64) :
    (bytes.edit (.patch address n)).length = bytes.length := by
  by_cases fits : address + 8 ≤ bytes.length
  · rw [edit_patch_of_le fits, length_overlay fits]
  · rw [edit_patch_of_not fits]

theorem getElem?_edit_patch (bytes : Image) (address : Nat) (n : Int64) (k : Nat) :
    (bytes.edit (.patch address n))[k]? =
      if address + 8 ≤ bytes.length ∧ address ≤ k ∧ k < address + 8 then
        some ((Value.int n).digit (k - address))
      else bytes[k]? := by
  by_cases fits : address + 8 ≤ bytes.length
  · rw [edit_patch_of_le fits, getElem?_overlay fits]
    simp only [fits, true_and]
  · rw [edit_patch_of_not fits, if_neg fun h => fits h.1]

theorem edit_patch_comm (bytes : Image) {a b : Nat} (apart : a + 8 ≤ b ∨ b + 8 ≤ a) (m n : Int64) :
    (bytes.edit (.patch a m)).edit (.patch b n) = (bytes.edit (.patch b n)).edit (.patch a m) := by
  apply List.ext_getElem?
  intro k
  simp only [getElem?_edit_patch, length_edit_patch]
  split
  · next second => rw [if_neg (by omega)]
  · rfl

theorem edit_patch_patch (bytes : Image) (address : Nat) (m n : Int64) :
    (bytes.edit (.patch address m)).edit (.patch address n) = bytes.edit (.patch address n) := by
  apply List.ext_getElem?
  intro k
  simp only [getElem?_edit_patch, length_edit_patch]
  split <;> rfl

/-- The wrapped end is never taken for an end. -/
theorem wrappingPatch?_eq (small : bytes.length < UInt64.size) (address : UInt64) (n : Int64) :
    bytes.wrappingPatch? address n = (Edit.patch address.toNat n).perform? bytes := by
  have sum := UInt64.toNat_add address 8
  have range := address.toNat_lt
  have eight : (8 : UInt64).toNat = 8 := rfl
  simp only [UInt64.size] at small
  rw [eight] at sum
  unfold wrappingPatch?
  rw [perform?_patch]
  simp only [UInt64.lt_iff_toNat_lt]
  by_cases fits : address.toNat + 8 ≤ bytes.length
  · have exact_sum : (address + 8).toNat = address.toNat + 8 := by omega
    rw [if_pos fits, if_neg (by omega), exact_sum]
    rfl
  · rw [if_neg fits, if_pos (by omega)]

/-- Applies patches in order. -/
def overlayAll (bytes : Image) (ps : List (Nat × Int64)) : Image :=
  ps.foldl (fun bytes p => bytes.overlay p.1 p.2) bytes

theorem foldl_edit (bytes : Image) (es : List Edit) :
    es.foldl edit bytes =
      (bytes ++ es.flatMap Edit.appended).overlayAll (patches bytes.length es) := by
  induction es generalizing bytes with
  | nil => simp [overlayAll, patches]
  | cons e es ih =>
    rw [List.foldl_cons, ih, List.flatMap_cons]
    obtain ⟨address, n, rfl⟩ | ⟨appends, later⟩ := patch_or_appends e
    · rw [length_edit_patch, Edit.appended, List.nil_append, patches]
      split
      · next fits =>
        rw [edit_patch_of_le fits, ← overlay_append fits]
        rfl
      · next beyond => rw [edit_patch_of_not beyond]
    · rw [appends, later, List.length_append, List.append_assoc]

theorem build_append (es es' : List Edit) : build (es ++ es') = es'.foldl edit (build es) :=
  List.foldl_append

theorem length_foldl_edit (bytes : Image) (es : List Edit) :
    (es.foldl edit bytes).length = bytes.length + (es.flatMap Edit.appended).length := by
  induction es generalizing bytes with
  | nil => rfl
  | cons e es ih =>
    rw [List.foldl_cons, ih, List.flatMap_cons, List.length_append]
    obtain ⟨address, n, rfl⟩ | ⟨appends, -⟩ := patch_or_appends e
    · rw [length_edit_patch, Edit.appended, List.length_nil, Nat.zero_add]
    · rw [appends, List.length_append, Nat.add_assoc]

section Instructions

variable {is : List Instruction} {k : Nat} {i : Instruction}

/-- Where the instruction begins that has so many before it. -/
def offset (is : List Instruction) (k : Nat) : Nat := (ofInstructions (is.take k)).length

theorem ofInstructions_append (is js : List Instruction) :
    ofInstructions (is ++ js) = ofInstructions is ++ ofInstructions js :=
  List.flatMap_append

theorem ofInstructions_split (this : is[k]? = some i) (f : Instruction → Instruction) :
    ofInstructions (is.modify k f) = ofInstructions (is.take k) ++ (f i).encode ++
      ofInstructions (is.drop (k + 1)) := by
  obtain ⟨inside, rfl⟩ := List.getElem?_eq_some_iff.1 this
  rw [List.modify_eq_take_cons_drop inside, ofInstructions_append, ofInstructions_cons,
    List.append_assoc]

theorem offset_add_size_le (this : is[k]? = some i) {j : Nat} (later : k < j) :
    offset is k + i.size ≤ offset is j := by
  have upto : (is.take j)[k]? = some i := by rw [List.getElem?_take, if_pos later, this]
  have split := congrArg List.length (ofInstructions_split upto id)
  rw [List.modify_id, List.take_take, Nat.min_eq_left (Nat.le_of_lt later)] at split
  simp only [List.length_append, id, i.length_encode] at split
  unfold offset
  omega

theorem perform?_patch_operand (this : is[k]? = some i) (wide : i.Wide) (n : Int64) :
    (Edit.patch (offset is k + 1) n).perform? (ofInstructions is) =
      some (ofInstructions (is.modify k (·.withWord n))) := by
  obtain ⟨⟨operand, width, old⟩, new⟩ := wide.encode_eq n
  have split := ofInstructions_split this id
  rw [List.modify_id, id, old] at split
  have length := congrArg List.length split
  simp only [List.length_append, List.length_cons, width] at length
  rw [perform?_patch, if_pos (by unfold offset; omega), ofInstructions_split this, new, split, offset,
    overlay_operand _ _ _ _ width]

theorem layout_modify (address : Nat) (is : List Instruction) (k : Nat) (n : Int64) :
    layout address (is.modify k (·.withWord n)) =
      (layout address is).modify k (Prod.map id (·.withWord n)) := by
  induction is generalizing address k with
  | nil => cases k <;> rfl
  | cons i is ih =>
    cases k with
    | zero => simp [layout]
    | succ k => simp [layout, ih]

theorem idxOf_halt_modify (is : List Instruction) (k : Nat) (n : Int64) :
    (is.modify k (·.withWord n)).idxOf .halt = is.idxOf .halt := by
  induction is generalizing k with
  | nil => cases k <;> rfl
  | cons i is ih =>
    cases k with
    | zero =>
      have same : (i.withWord n == .halt) = (i == .halt) := by
        rw [Bool.eq_iff_iff, beq_iff_eq, beq_iff_eq, Instruction.withWord_eq_halt_iff]
      simp [List.idxOf_cons, same]
    | succ k => simp [List.idxOf_cons, ih]

theorem disassemble_modify (is : List Instruction) (k : Nat) (n : Int64) :
    (ofInstructions (is.modify k (·.withWord n))).disassemble =
      (ofInstructions is).disassemble.map (·.modify k (Prod.map id (·.withWord n))) := by
  unfold disassemble
  rw [disassembleFrom_ofInstructions, disassembleFrom_ofInstructions, idxOf_halt_modify,
    List.take_modify, layout_modify]
  rfl

end Instructions

theorem patching_replaces_operand :
    (∀ es : List Edit, build es = overlayAll (es.flatMap Edit.appended) (patches 0 es) ∧
      (build es).length = (es.flatMap Edit.appended).length) ∧
    (∀ (is : List Instruction) k i n, is[k]? = some i → i.Wide →
      (Edit.patch (offset is k + 1) n).perform? (build (is.map .emit)) =
          some (build ((is.modify k (·.withWord n)).map .emit)) ∧
        (build ((is.modify k (·.withWord n)).map .emit)).disassemble =
          (build (is.map .emit)).disassemble.map (·.modify k (Prod.map id (·.withWord n)))) ∧
    (∀ (is : List Instruction) j k i i' m n, is[j]? = some i → i.Wide → is[k]? = some i' →
      i'.Wide → j ≠ k → ∀ bytes : Image,
        (bytes.edit (.patch (offset is j + 1) m)).edit (.patch (offset is k + 1) n) =
          (bytes.edit (.patch (offset is k + 1) n)).edit (.patch (offset is j + 1) m)) ∧
    (∀ (bytes : Image) address m n, (bytes.edit (.patch address m)).edit (.patch address n) =
      bytes.edit (.patch address n)) ∧
    (∀ (bytes : Image) address n,
      ((∃ patched, (Edit.patch address n).perform? bytes = some patched) ↔
        address + 8 ≤ bytes.length) ∧
      (bytes.edit (.patch address n)).length = bytes.length ∧
      ∀ j, (bytes.edit (.patch address n))[j]? =
        if address + 8 ≤ bytes.length ∧ address ≤ j ∧ j < address + 8 then
          some ((Value.int n).digit (j - address))
        else bytes[j]?) ∧
    ∀ (bytes : Image) (address : UInt64) n, bytes.length < UInt64.size →
      bytes.wrappingPatch? address n = (Edit.patch address.toNat n).perform? bytes := by
  refine ⟨?built, ?operand, ?apart, fun bytes => edit_patch_patch bytes, ?bounds,
    fun bytes address n small => wrappingPatch?_eq small address n⟩
  case built =>
    intro es
    have built := foldl_edit [] es
    have length := length_foldl_edit [] es
    simp only [List.nil_append, List.length_nil, Nat.zero_add] at built length
    exact ⟨built, length⟩
  case operand =>
    intro is k i n this wide
    rw [build_emit, build_emit]
    exact ⟨perform?_patch_operand this wide n, disassemble_modify is k n⟩
  case apart =>
    intro is j k i i' m n first wide second wide' ne bytes
    apply edit_patch_comm
    obtain before | after := Nat.lt_or_gt_of_ne ne
    · have := offset_add_size_le first before
      rw [wide.size_eq] at this
      omega
    · have := offset_add_size_le second after
      rw [wide'.size_eq] at this
      omega
  case bounds =>
    intro bytes address n
    refine ⟨?_, length_edit_patch bytes address n, getElem?_edit_patch bytes address n⟩
    rw [perform?_patch]
    split
    · next fits => exact iff_of_true ⟨_, rfl⟩ fits
    · next beyond => exact iff_of_false nofun beyond

/-- A jump to the second `halt` of an image, patched in after both have been emitted. -/
theorem forward_jump_patched : ∃ (is : List Instruction) (es : List Edit),
    is = [.push .float ⟨0⟩, .jmp 0, .halt, .halt] ∧ is[1]? = some (.jmp 0) ∧
    (Instruction.jmp 0).Wide ∧ es = is.map .emit ++ [.patch (offset is 1 + 1) 19] ∧
    build es = build ([.push .float ⟨0⟩, .jmp 19, .halt, .halt].map .emit) ∧
    (build es).disassemble = .ok [(0, .push .float ⟨0⟩), (9, .jmp 19), (18, .halt)] ∧
    (∀ bytes : Image, (bytes.edit (.patch (offset is 1 + 1) 19)).edit (.patch (offset is 0 + 1) 7) =
      (bytes.edit (.patch (offset is 0 + 1) 7)).edit (.patch (offset is 1 + 1) 19)) ∧
    (build es).wrappingPatch? 0xFFFFFFFFFFFFFFFC 5 = none := by
  obtain ⟨-, replaced, apart, -, -, wrapped⟩ := patching_replaces_operand
  have this : [Instruction.push .float ⟨0⟩, .jmp 0, .halt, .halt][1]? = some (.jmp 0) := rfl
  obtain ⟨patched, listed⟩ := replaced _ 1 _ 19 this (by decide)
  have built : build ([Instruction.push .float ⟨0⟩, .jmp 0, .halt, .halt].map .emit ++
      [.patch (offset [.push .float ⟨0⟩, .jmp 0, .halt, .halt] 1 + 1) 19]) =
      build ([.push .float ⟨0⟩, .jmp 19, .halt, .halt].map .emit) := by
    rw [build_append, List.foldl_cons, edit, patched]
    rfl
  have read : (build ([Instruction.push .float ⟨0⟩, .jmp 0, .halt, .halt].map .emit)).disassemble =
      .ok [(0, .push .float ⟨0⟩), (9, .jmp 0), (18, .halt)] := by
    rw [build_emit]
    exact disassembleFrom_ofInstructions 0 [.push .float ⟨0⟩, .jmp 0, .halt, .halt]
  refine ⟨_, _, rfl, this, by decide, rfl, built, ?listing,
    apart _ 1 0 _ (.push .float ⟨0⟩) 19 7 this (by decide) rfl (by decide) (by decide), ?wrapped⟩
  case listing =>
    rw [built]
    exact listed.trans (congrArg (Except.map _) read)
  case wrapped =>
    rw [built]
    exact (wrapped _ _ _ (by decide)).trans (by decide)

end Image
end ByteMachine
