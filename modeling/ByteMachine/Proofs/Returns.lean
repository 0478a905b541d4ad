import ByteMachine.Code.Image
import ByteMachine.Proofs.Fetch
import ByteMachine.Proofs.Frame
import ByteMachine.Proofs.Lifo

/-! Calls and returns. A call pushes the address behind itself, and a `ret` that finds the stack
pointer where the call left it goes there, at any depth of nesting: what runs in between has
kept to the slots above, or the pointer would have been below. -/
namespace ByteMachine

namespace Instruction

/-- Whether the instruction leaves a return address on the stack. -/
def isCall : Instruction → Bool
  | call | callAddress _ => true
  | _ => false

/-- The instruction pops nothing below a slot, and stores nothing in the eight bytes under it. -/
structure Spares (i : Instruction) (s : Store) (floor : Nat) : Prop where
  pops_above : floor + i.pops ≤ s.stack.pointer
  stores_apart : i.isStore → ∀ slot, floor ≤ slot + 8 → slot < floor →
    ¬ i.Writes s (s.stack.base + slot)

variable {i : Instruction} {s : Store} {floor slot : Nat}

theorem pushes_of_isCall (h : i.isCall) : i.pushes = 8 := by
  cases i with
  | call | callAddress _ => rfl
  | _ => cases h

theorem place_of_isCall (h : i.isCall) :
    i.place s = s.stack.base + (s.stack.pointer - i.pops) := by
  cases i with
  | call | callAddress _ => rfl
  | _ => cases h

theorem data_of_isCall [FloatUnit] (h : i.isCall) (pc : Nat) :
    i.data pc s = Ty.int.encode (Int64.ofNat (pc + i.size)) := by
  cases i with
  | call | callAddress _ => rfl
  | _ => cases h

theorem Spares.not_writes (spares : i.Spares s floor) (near : floor ≤ slot + 8)
    (below : slot < floor) : ¬ i.Writes s (s.stack.base + slot) := by
  intro writes
  cases isStore : i.isStore with
  | true => exact spares.stores_apart isStore slot near below writes
  | false =>
    have reaches := le_of_writes isStore writes
    have above := spares.pops_above
    omega

theorem fault?_ret (enough : 8 ≤ s.stack.pointer) (inside : s.stack.pointer ≤ s.stack.size) :
    ret.fault? s = s.astray? (s.operand .int 8) := by
  have room : (s.drop 8).lacksRoom? 0 = none :=
    Store.lacksRoom?_eq_none_iff.2 (Nat.le_trans (Nat.sub_le _ 8) inside)
  simp only [fault?, pops, check?, pushes, Store.lacks?_eq_none_iff.2 enough, room,
    Option.none_or, Option.or_none]

end Instruction

namespace Machine

variable [FloatUnit] {c : Config} {m : Machine} {i : Instruction} {n floor : Nat}

theorem operand_of_isCall (live : m.store.Live) (isCall : i.isCall)
    (clear : i.fault? m.store = none) :
    8 ≤ (m.done i).stack.pointer ∧
      (m.done i).store.operand .int 8 = Int64.ofNat (m.pc + i.size) := by
  obtain ⟨-, -, fits⟩ := Instruction.fault?_eq_none_iff.1 clear
  have pushes := Instruction.pushes_of_isCall isCall
  have window : m.stack.base + m.stack.size = m.memory.size := live.base_add_size
  have fits : m.stack.pointer - i.pops + i.pushes ≤ m.stack.size := fits
  have top : (m.done i).stack.pointer = m.stack.pointer - i.pops + 8 := by
    rw [← pushes]
    rfl
  have written : (m.done i).memory = m.memory.overwrite
      (m.stack.base + (m.stack.pointer - i.pops))
      (Ty.int.encode (Int64.ofNat (m.pc + i.size))) := by
    rw [← Instruction.place_of_isCall isCall, ← Instruction.data_of_isCall isCall]
    rfl
  have length : (Ty.int.encode (Int64.ofNat (m.pc + i.size))).length = 8 := Ty.length_encode _
  refine ⟨by omega, ?_⟩
  have read : (m.done i).memory.slice (m.stack.base + (m.stack.pointer - i.pops)) 8 =
      Ty.int.encode (Int64.ofNat (m.pc + i.size)) := by
    rw [written, ← length]
    apply Memory.slice_overwrite
    omega
  have place : (m.done i).stack.base + ((m.done i).stack.pointer - 8) =
      m.stack.base + (m.stack.pointer - i.pops) := by
    rw [top, Nat.add_sub_cancel]
    rfl
  rw [Store.operand, place, Store.valueAt]
  exact (congrArg Ty.int.decode read).trans (Ty.decode_encode (t := .int) _)

namespace Sound

variable (sound : m.Sound c)
include sound

theorem operand_after (found : m.stack.pointer = floor) (enough : 8 ≤ floor)
    (spared : ∀ k < n, ∀ j, (m.after k).Completes j → j.Spares (m.after k).store floor)
    (back : (m.after n).stack.pointer = floor) :
    (m.after n).store.operand .int 8 = m.store.operand .int 8 := by
  have base (k : Nat) : (m.after k).stack.base = m.stack.base := by
    rw [(sound.after k).base_eq, sound.base_eq]
  have same : (m.after n).memory.slice (m.stack.base + (floor - 8)) 8 =
      m.memory.slice (m.stack.base + (floor - 8)) 8 := by
    apply List.ext_getElem?
    intro k
    rw [Memory.getElem?_slice, Memory.getElem?_slice]
    split
    · next inside =>
      apply sound.getElem?_after
      intro j lt i completes
      rw [Nat.add_assoc, ← base j]
      exact (spared j lt i completes).not_writes (by omega) (by omega)
    · rfl
  change Ty.int.decode ((m.after n).memory.slice
    ((m.after n).stack.base + ((m.after n).stack.pointer - 8)) 8) = Ty.int.decode
    (m.memory.slice (m.stack.base + (m.stack.pointer - 8)) 8)
  rw [base, back, found, same]

theorem step_ret (running : m.status = .running) (due : m.due = .ok .ret)
    (enough : 8 ≤ m.stack.pointer) {address : Nat}
    (found : (m.store.operand .int 8).toInt = address) :
    (address < m.memory.size → m.step.1.status = .running ∧ m.step.1.pc = address ∧
      m.step.1.stack.pointer = m.stack.pointer - 8) ∧
    (m.step.1.status = .faulted (.illegalAddress m.pc address) ↔ m.memory.size ≤ address) := by
  have fault? := Instruction.fault?_ret enough sound.pointer_le
  rw [Store.astray?, found] at fault?
  by_cases inside : address < m.memory.size
  · have clear : Instruction.ret.fault? m.store = none :=
      fault?.trans (if_pos ⟨Int.natCast_nonneg _, Int.ofNat_lt.2 inside⟩)
    rw [sound.step_eq_done running due clear]
    have unfailed := (Instruction.ret.flow m.store).status_ne_faulted (.illegalAddress m.pc address)
    refine ⟨fun _ => ⟨rfl, ?_, rfl⟩, iff_of_false unfailed (Nat.not_le.2 inside)⟩
    change (m.store.operand .int 8).toInt.toNat = address
    rw [found, Int.toNat_natCast]
  · have fault : Instruction.ret.fault? m.store = some (.illegalAddress address) :=
      fault?.trans (if_neg fun within => inside (Int.ofNat_lt.1 within.2))
    rw [sound.step_eq_undone running due fault]
    exact ⟨fun h => absurd h inside, iff_of_true rfl (Nat.le_of_not_lt inside)⟩

theorem operand_after_call (called : m.Completes i) (isCall : i.isCall)
    (spared : ∀ k < n, ∀ j, (m.step.1.after k).Completes j →
      j.Spares (m.step.1.after k).store m.step.1.stack.pointer)
    (back : (m.step.1.after n).stack.pointer = m.step.1.stack.pointer) :
    8 ≤ m.step.1.stack.pointer ∧
      ((m.step.1.after n).store.operand .int 8).toInt = (m.pc + i.size : Nat) := by
  obtain ⟨clear, moved⟩ := sound.of_completes called
  obtain ⟨enough, pushed⟩ := operand_of_isCall (sound.live called.running) isCall clear
  rw [← moved] at enough pushed
  have kept := sound.step.operand_after rfl enough spared back
  have le := size_le_of_fetch (due_eq_ok_iff.1 called.due).2
  have size := sound.memory_size
  have small := sound.addressable
  refine ⟨enough, ?_⟩
  rw [kept, pushed]
  apply Int64.toInt_ofNat_of_lt
  simp only [Memory.addressLimit] at small
  omega

end Sound
end Machine

namespace Session

variable {c : Config} {s : Session} {i : Instruction} {n : Nat}

/-- The steps in between have all succeeded, since the machine still runs after them. -/
theorem ret_matches_call [FloatUnit] (reached : Reachable c s) (called : s.machine.Completes i)
    (isCall : i.isCall)
    (spared : ∀ k < n, ∀ j, (s.step.advance k).machine.Completes j →
      j.Spares (s.step.advance k).machine.store s.step.machine.stack.pointer) :
    s.machine.pc + i.size ≤ s.machine.memory.size ∧
    ((s.step.advance n).machine.status = .running → (s.step.advance n).machine.due = .ok .ret →
      (s.step.advance n).machine.stack.pointer = s.step.machine.stack.pointer →
      (s.machine.pc + i.size < s.machine.memory.size →
        (s.step.advance n).step.machine.status = .running ∧
        (s.step.advance n).step.machine.pc = s.machine.pc + i.size ∧
        (s.step.advance n).step.machine.stack.pointer + 8 = s.step.machine.stack.pointer) ∧
      ((s.step.advance n).step.machine.status = .faulted
          (.illegalAddress (s.step.advance n).machine.pc (s.machine.pc + i.size : Nat)) ↔
        s.machine.pc + i.size = s.machine.memory.size)) := by
  have sound := reached.sound
  have le := Machine.size_le_of_fetch (Machine.due_eq_ok_iff.1 called.due).2
  refine ⟨le, ?_⟩
  simp only [machine_advance, machine_step] at spared ⊢
  intro running due back
  obtain ⟨enough, found⟩ := sound.operand_after_call called isCall spared back
  have later := sound.step.after n
  have size : (s.machine.step.1.after n).memory.size = s.machine.memory.size := by
    rw [later.memory_size, sound.memory_size]
  rw [← back] at enough
  obtain ⟨goes, fails⟩ := later.step_ret running due enough found
  rw [size] at goes fails
  constructor
  · intro inside
    obtain ⟨still, there, below⟩ := goes inside
    exact ⟨still, there, by omega⟩
  · rw [fails]
    omega

/-- A call within a call, of which both return, and a call that ends where the memory does. -/
theorem nested_call_returns :
    (∃ s, Reachable ⟨64, 16, none⟩ s ∧ s.machine.Completes (.callAddress 10) ∧
      (s.step.advance 1).machine.stack.pointer = 16 ∧
      (s.step.advance 2).machine.due = .ok .ret ∧
      (s.step.advance 2).step.machine.pc = 9) ∧
    ∃ s, Reachable ⟨16, 8, none⟩ s ∧ s.machine.pc = 7 ∧
      s.machine.Completes (.callAddress 0) ∧ s.step.machine.due = .ok .ret ∧
      s.step.step.machine.status = .faulted (.illegalAddress 0 16) := by
  constructor
  · have reached : Reachable ⟨64, 16, none⟩ _ :=
      Reachable.loaded (Image.ofInstructions [.callAddress 10, .halt, .callAddress 20, .ret, .ret])
        .silent rfl rfl
    refine ⟨_, reached, ?called, by decide +kernel, ?due,
      (((ret_matches_call (i := .callAddress 10) (n := 2) reached ?called rfl ?spared).2 ?running
        ?due ?back).1 ?inside).2.1⟩
    case called => decide +kernel
    case due => decide +kernel
    case running => decide +kernel
    case back => decide +kernel
    case inside => decide +kernel
    case spared =>
      intro k lt j completes
      obtain rfl | rfl : k = 0 ∨ k = 1 := by omega
      · obtain rfl : j = .callAddress 20 := completes.unique (by decide +kernel)
        exact ⟨by decide +kernel, nofun⟩
      · obtain rfl : j = .ret := completes.unique (by decide +kernel)
        exact ⟨by decide +kernel, nofun⟩
  · have reached : Reachable ⟨16, 8, none⟩ _ :=
      .call (.setPc 7) (Reachable.loaded [0xE0, 0, 0, 0, 0, 0, 0, 0xF9] .silent rfl rfl) rfl
    refine ⟨_, reached, rfl, ?called, ?due,
      ((ret_matches_call (i := .callAddress 0) (n := 0) reached ?called rfl ?spared).2 ?running ?due
        rfl).2.2 ?inside⟩
    case called => decide +kernel
    case due => decide +kernel
    case running => decide +kernel
    case inside => decide +kernel
    case spared => exact nofun

end Session
end ByteMachine
