import ByteMachine.Code.Image
import ByteMachine.Proofs.Results

/-! Loads and stores move bytes as they are, wherever they come from and go to: also out of the
slots that are just given up, into the stack itself, or over the program. A value that is stored
under a fixed address comes back from there whatever the address is; one whose address is pushed a
second time comes back unless that push writes over it. -/
namespace ByteMachine

namespace Machine

/-- The step leaves the stack with `rest` and the bytes that were at an address. -/
structure Loads (m after : Machine) (rest : List UInt8) (t : Ty) (address : Int) : Prop where
  inside : 0 ≤ address ∧ address + t.width ≤ m.memory.size
  contents_eq : after.store.contents = rest ++ m.memory.slice address.toNat t.width

/-- The step leaves as much on the stack as `rest`, and `bytes` at an address, and no other byte has
changed. -/
structure Stores (m after : Machine) (rest bytes : List UInt8) (address : Int) : Prop where
  inside : 0 ≤ address ∧ address + bytes.length ≤ m.memory.size
  pointer_eq : after.stack.pointer = rest.length
  stored : after.memory.slice address.toNat bytes.length = bytes
  elsewhere : ∀ k : Nat, ¬ (address ≤ k ∧ k < address + bytes.length) →
    after.memory.bytes[k]? = m.memory.bytes[k]?

variable [FloatUnit]

/-- What each instruction that moves data makes of a machine. -/
structure Moves (m after : Machine) : Prop where
  get : ∀ t, m.Completes (.get t) → ∃ rest a, m.store.contents = rest ++ Ty.int.encode a ∧
    m.Loads after rest t a.toInt
  getAddress : ∀ t a, m.Completes (.getAddress t a) → m.Loads after m.store.contents t a.toInt
  getStack : ∀ t o, m.Completes (.getStack t o) →
    m.Loads after m.store.contents t (m.stack.base + m.stack.pointer + o.toInt)
  put : ∀ t, m.Completes (.put t) → ∃ rest v a,
    m.store.contents = rest ++ t.encode v ++ Ty.int.encode a ∧
    m.Stores after rest (t.encode v) a.toInt
  putAddress : ∀ t a, m.Completes (.putAddress t a) → ∃ rest v,
    m.store.contents = rest ++ t.encode v ∧ m.Stores after rest (t.encode v) a.toInt
  putStack : ∀ t o, m.Completes (.putStack t o) → ∃ rest v,
    m.store.contents = rest ++ t.encode v ∧
    m.Stores after rest (t.encode v) (m.stack.base + rest.length + o.toInt)

/-- The instructions complete one after the other. -/
def CompletesAll (m : Machine) : List Instruction → Prop
  | [] => True
  | i :: is => m.Completes i ∧ m.step.1.CompletesAll is

/-- The stack has grown by these bytes, whatever has become of those below. -/
def Gains (m after : Machine) (bytes : List UInt8) : Prop :=
  after.stack.pointer = m.stack.pointer + bytes.length ∧
    ∃ rest, after.store.contents = rest ++ bytes

variable {c : Config} {m : Machine} {i : Instruction} {t : Ty} {address : Int}
  {rest bytes : List UInt8}

omit [FloatUnit] in
theorem Loads.gains {next last : Machine} (loaded : next.Loads last rest t address)
    (sound : last.Sound c) (found : next.memory.slice address.toNat t.width = bytes)
    (depth : rest.length = m.stack.pointer) : m.Gains last bytes := by
  have contents := loaded.contents_eq
  rw [found] at contents
  refine ⟨?_, rest, contents⟩
  have top := congrArg List.length contents
  rw [sound.framed.length_contents, List.length_append, depth] at top
  exact top

namespace Sound

variable (sound : m.Sound c)
include sound

theorem loads (completes : m.Completes i) (stores : i.isStore = false)
    (data : i.data m.pc m.store = t.encode (m.store.valueAt t address.toNat))
    (inside : 0 ≤ address ∧ address + t.width ≤ m.memory.size) :
    m.Loads m.step.1 (m.store.drop i.pops).contents t address := by
  obtain ⟨clear, eq⟩ := sound.of_completes completes
  refine ⟨inside, ?_⟩
  have length : (m.memory.slice address.toNat t.width).length = t.width :=
    Memory.length_slice (by omega)
  rw [eq]
  change (i.after m.pc m.store).contents = _
  rw [Instruction.contents_after (sound.live completes.running) m.pc stores clear, data,
    Store.valueAt, Ty.encode_decode length]

theorem stores (completes : m.Completes i) {v : t.Val} (pushes : i.pushes = 0)
    (place : i.place m.store = address.toNat) (data : i.data m.pc m.store = t.encode v)
    (inside : 0 ≤ address ∧ address + t.width ≤ m.memory.size) :
    m.Stores m.step.1 (m.store.drop i.pops).contents (t.encode v) address := by
  obtain ⟨clear, eq⟩ := sound.of_completes completes
  have width := Ty.length_encode v
  have written : m.step.1.memory = m.memory.overwrite address.toNat (t.encode v) := by
    rw [eq, ← place, ← data]
    rfl
  rw [← width] at inside
  refine ⟨inside, ?pointer, ?stored, ?elsewhere⟩
  case pointer =>
    rw [eq, (sound.framed.drop i.pops).length_contents]
    change m.stack.pointer - i.pops + i.pushes = m.stack.pointer - i.pops
    rw [pushes, Nat.add_zero]
  case stored =>
    rw [written]
    exact Memory.slice_overwrite (by omega)
  case elsewhere =>
    intro k outside
    rw [written, Memory.getElem?_overwrite, if_neg (by omega)]

theorem moves : m.Moves m.step.1 where
  get t completes := by
    obtain ⟨enough, check, -⟩ := Instruction.fault?_eq_none_iff.1 (sound.of_completes completes).1
    exact ⟨_, _, sound.framed.contents_eq (t := .int) enough,
      sound.loads (i := .get t) completes rfl rfl (Store.outside?_eq_none_iff.1 check)⟩
  getAddress t a completes := by
    obtain ⟨-, check, -⟩ := Instruction.fault?_eq_none_iff.1 (sound.of_completes completes).1
    exact sound.loads (i := .getAddress t a) completes rfl rfl (Store.outside?_eq_none_iff.1 check)
  getStack t o completes := by
    obtain ⟨-, check, -⟩ := Instruction.fault?_eq_none_iff.1 (sound.of_completes completes).1
    have window : m.stack.base + m.stack.size = m.memory.size := sound.framed.base_add_size
    have inside : 0 ≤ m.stack.pointer + o.toInt ∧
        m.stack.pointer + o.toInt + t.width ≤ m.stack.size := Store.outsideWindow?_eq_none_iff.1 check
    have start : (m.stack.base + m.stack.pointer + o.toInt).toNat =
        m.stack.base + (m.stack.pointer + o.toInt).toNat := by omega
    refine sound.loads (i := .getStack t o) completes rfl ?_ (by omega)
    rw [start]
    rfl
  put t completes := by
    obtain ⟨enough, check, -⟩ := Instruction.fault?_eq_none_iff.1 (sound.of_completes completes).1
    exact ⟨_, _, _, sound.framed.contents_eq_under enough,
      sound.stores (i := .put t) completes rfl rfl rfl (Store.outside?_eq_none_iff.1 check)⟩
  putAddress t a completes := by
    obtain ⟨enough, check, -⟩ := Instruction.fault?_eq_none_iff.1 (sound.of_completes completes).1
    exact ⟨_, _, sound.framed.contents_eq enough,
      sound.stores (i := .putAddress t a) completes rfl rfl rfl
        (Store.outside?_eq_none_iff.1 check)⟩
  putStack t o completes := by
    obtain ⟨enough, check, -⟩ := Instruction.fault?_eq_none_iff.1 (sound.of_completes completes).1
    have window : m.stack.base + m.stack.size = m.memory.size := sound.framed.base_add_size
    have inside : 0 ≤ (m.stack.pointer - t.width : Nat) + o.toInt ∧
        (m.stack.pointer - t.width : Nat) + o.toInt + t.width ≤ m.stack.size :=
      Store.outsideWindow?_eq_none_iff.1 check
    have left : (m.store.drop t.width).contents.length = m.stack.pointer - t.width :=
      (sound.framed.drop t.width).length_contents
    refine ⟨_, _, sound.framed.contents_eq enough, ?_⟩
    rw [left]
    refine sound.stores (i := .putStack t o) completes rfl ?_ rfl (by omega)
    change m.stack.base + ((m.stack.pointer - t.width : Nat) + o.toInt).toNat = _
    omega

theorem pushes {v : t.Val} (completes : m.Completes (.push t v)) :
    m.step.1.store.contents = m.store.contents ++ t.encode v ∧
      m.step.1.stack.pointer = m.stack.pointer + t.width ∧
      ∀ k : Nat, ¬ (m.stack.base + m.stack.pointer ≤ k ∧
        k < m.stack.base + m.stack.pointer + t.width) →
        m.step.1.memory.bytes[k]? = m.memory.bytes[k]? := by
  obtain ⟨clear, eq⟩ := sound.of_completes completes
  rw [eq]
  refine ⟨?contents, rfl, ?elsewhere⟩
  case contents =>
    exact Instruction.contents_after (sound.live completes.running) m.pc rfl clear
  case elsewhere =>
    intro k outside
    change (m.memory.overwrite (m.stack.base + m.stack.pointer) (t.encode v)).bytes[k]? = _
    rw [Memory.getElem?_overwrite, Ty.length_encode, if_neg (by omega)]

theorem gains_of_address {v : t.Val} {a : Int64}
    (all : m.CompletesAll [.push t v, .putAddress t a, .getAddress t a]) :
    m.Gains (m.after 3) (t.encode v) := by
  obtain ⟨push, put, get, -⟩ := all
  obtain ⟨pushed, -⟩ := sound.pushes push
  obtain ⟨rest, w, top, stored⟩ := sound.step.moves.putAddress t a put
  obtain ⟨rfl, rfl⟩ := Ty.append_encode_inj (top.symm.trans pushed)
  have loaded := sound.step.step.moves.getAddress t a get
  refine loaded.gains sound.step.step.step ?found ?depth
  case found =>
    rw [← Ty.length_encode w]
    exact stored.stored
  case depth =>
    rw [sound.step.step.framed.length_contents]
    exact stored.pointer_eq.trans sound.framed.length_contents

/-- A value comes back from a slot. The pointer is where it was before the push when the offset is
added to it, both times. -/
theorem gains_of_slot {v : t.Val} {o : Int64}
    (all : m.CompletesAll [.push t v, .putStack t o, .getStack t o]) :
    m.Gains (m.after 3) (t.encode v) := by
  obtain ⟨push, put, get, -⟩ := all
  obtain ⟨pushed, -⟩ := sound.pushes push
  obtain ⟨rest, w, top, stored⟩ := sound.step.moves.putStack t o put
  obtain ⟨rfl, rfl⟩ := Ty.append_encode_inj (top.symm.trans pushed)
  have loaded := sound.step.step.moves.getStack t o get
  have pointer := stored.pointer_eq
  have base : m.step.1.step.1.stack.base = m.step.1.stack.base := by
    rw [sound.step.step.base_eq, sound.step.base_eq]
  refine loaded.gains sound.step.step.step ?found ?depth
  case found =>
    rw [← Ty.length_encode w, base, pointer]
    exact stored.stored
  case depth =>
    rw [sound.step.step.framed.length_contents]
    exact pointer.trans sound.framed.length_contents

/-- A value comes back from an address that is pushed anew, if it is not stored in the slots where
the address goes. -/
theorem gains_of_pushed {v : t.Val} {a : Int64}
    (all : m.CompletesAll [.push t v, .push .int a, .put t, .push .int a, .get t])
    (apart : a.toInt + t.width ≤ m.stack.base + m.stack.pointer ∨
      m.stack.base + m.stack.pointer + 8 ≤ a.toInt) :
    m.Gains (m.after 5) (t.encode v) := by
  obtain ⟨push, first, put, again, get, -⟩ := all
  obtain ⟨pushed, -⟩ := sound.pushes push
  obtain ⟨addressed, -⟩ := sound.step.pushes first
  obtain ⟨rest, w, b, top, stored⟩ := sound.step.step.moves.put t put
  obtain ⟨below, rfl⟩ := Ty.append_encode_inj (t := .int) (top.symm.trans addressed)
  obtain ⟨rfl, rfl⟩ := Ty.append_encode_inj (below.trans pushed)
  obtain ⟨readdressed, -, kept⟩ := sound.step.step.step.pushes again
  obtain ⟨rest, b', top', loaded⟩ := sound.step.step.step.step.moves.get t get
  obtain ⟨rfl, rfl⟩ := Ty.append_encode_inj (t := .int) (top'.symm.trans readdressed)
  have pointer : m.step.1.step.1.step.1.stack.pointer = m.stack.pointer :=
    stored.pointer_eq.trans sound.framed.length_contents
  have base : m.step.1.step.1.step.1.stack.base = m.stack.base := by
    rw [sound.step.step.step.base_eq, sound.base_eq]
  have inside := stored.inside.1
  refine loaded.gains sound.step.step.step.step.step ?found ?depth
  case found =>
    have stored := stored.stored
    rw [Ty.length_encode] at stored
    rw [← stored]
    apply Memory.slice_congr
    intro k above below
    apply kept
    rw [base, pointer]
    simp only [Ty.width]
    omega
  case depth =>
    rw [sound.step.step.step.framed.length_contents]
    exact pointer

end Sound
end Machine

namespace Session

variable {c : Config} {s : Session}

theorem data_copied [FloatUnit] (reached : Reachable c s) :
    s.machine.Moves s.step.machine ∧
    (∀ t (v : t.Val) a,
      s.machine.CompletesAll [.push t v, .putAddress t a, .getAddress t a] →
      s.machine.Gains (s.advance 3).machine (t.encode v)) ∧
    (∀ t (v : t.Val) o,
      s.machine.CompletesAll [.push t v, .putStack t o, .getStack t o] →
      s.machine.Gains (s.advance 3).machine (t.encode v)) ∧
    ∀ t (v : t.Val) a,
      s.machine.CompletesAll [.push t v, .push .int a, .put t, .push .int a, .get t] →
      (a.toInt + t.width ≤ s.machine.stack.base + s.machine.stack.pointer ∨
        s.machine.stack.base + s.machine.stack.pointer + 8 ≤ a.toInt) →
      s.machine.Gains (s.advance 5).machine (t.encode v) := by
  have sound := reached.sound
  simp only [machine_advance, machine_step]
  exact ⟨sound.moves, fun _ _ _ => sound.gains_of_address, fun _ _ _ => sound.gains_of_slot,
    fun _ _ _ => sound.gains_of_pushed⟩

/-- A NaN stored half over the slots that it was popped from, and a byte stored right behind the
slots that its address is pushed to. -/
theorem overlapping_nan_returns :
    (∃ s, Reachable ⟨64, 16, none⟩ s ∧ s.machine.stack.base = 48 ∧
      s.machine.CompletesAll [.push .float ⟨0xFFF8000000000001⟩, .putAddress .float 44,
        .getAddress .float 44] ∧
      s.machine.Gains (s.advance 3).machine (Ty.float.encode ⟨0xFFF8000000000001⟩)) ∧
    ∃ s, Reachable ⟨64, 24, none⟩ s ∧ s.machine.stack.base = 40 ∧
      s.machine.CompletesAll [.push .byte 7, .push .int 48, .put .byte, .push .int 48,
        .get .byte] ∧
      s.machine.Gains (s.advance 5).machine (Ty.byte.encode 7) := by
  constructor
  · have reached : Reachable ⟨64, 16, none⟩ _ :=
      Reachable.loaded (Image.ofInstructions [.push .float ⟨0xFFF8000000000001⟩,
        .putAddress .float 44, .getAddress .float 44]) .silent rfl rfl
    refine ⟨_, reached, rfl, ?all, (data_copied reached).2.1 .float _ 44 ?all⟩
    case all => exact ⟨by decide +kernel, by decide +kernel, by decide +kernel, trivial⟩
  · have reached : Reachable ⟨64, 24, none⟩ _ :=
      Reachable.loaded (Image.ofInstructions [.push .byte 7, .push .int 48, .put .byte,
        .push .int 48, .get .byte]) .silent rfl rfl
    refine ⟨_, reached, rfl, ?all, (data_copied reached).2.2.2 .byte _ 48 ?all ?apart⟩
    case all =>
      exact ⟨by decide +kernel, by decide +kernel, by decide +kernel, by decide +kernel,
        by decide +kernel, trivial⟩
    case apart => exact .inr (by decide)

end Session
end ByteMachine
