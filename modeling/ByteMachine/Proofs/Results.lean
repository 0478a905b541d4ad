import ByteMachine.Proofs.Frame
import ByteMachine.Proofs.Lifo

/-! What instructions leave on the stack. Its contents are the bytes that the operands are read from,
and an instruction that stores nothing puts its result in their place. -/
namespace ByteMachine

namespace Store

variable {s : Store} {t : Ty} {rest above : List UInt8}

theorem Framed.operand_eq (framed : s.Framed) {v : t.Val}
    (h : s.contents = rest ++ t.encode v ++ above) :
    s.operand t (t.width + above.length) = v := by
  have length := congrArg List.length h
  simp only [framed.length_contents, List.length_append, Ty.length_encode] at length
  rw [← framed.valueAt_eq h, operand]
  congr 2
  omega

theorem Framed.operand_top (framed : s.Framed) {v : t.Val} (h : s.contents = rest ++ t.encode v) :
    s.operand t t.width = v := by
  have found := framed.operand_eq (h.trans (List.append_nil _).symm)
  exact found

theorem Framed.drop (framed : s.Framed) (n : Nat) : (s.drop n).Framed :=
  ⟨framed.base_add_size, Nat.le_trans (Nat.sub_le _ _) framed.pointer_le, framed.addressable⟩

theorem Framed.contents_eq (framed : s.Framed) (enough : t.width ≤ s.stack.pointer) :
    s.contents = (s.drop t.width).contents ++ t.encode (s.operand t t.width) := by
  have fits := framed.window_le
  have length : (s.memory.slice (s.stack.base + (s.stack.pointer - t.width)) t.width).length =
      t.width := Memory.length_slice (by omega)
  rw [operand, valueAt, Ty.encode_decode length]
  exact contents_drop enough

theorem Framed.contents_eq_under (framed : s.Framed) (enough : 8 + t.width ≤ s.stack.pointer) :
    s.contents = (s.drop (8 + t.width)).contents ++ t.encode (s.operand t (8 + t.width)) ++
      Ty.int.encode (s.operand .int 8) := by
  have top := framed.contents_eq (t := .int) (by simp only [Ty.width]; omega)
  have under := (framed.drop 8).contents_eq (t := t) (by rw [pointer_drop]; omega)
  rw [drop_drop, operand_drop] at under
  exact top.trans (congrArg (· ++ Ty.int.encode (s.operand .int 8)) under)

theorem Framed.contents_drop_eq (framed : s.Framed) (h : s.contents = rest ++ above) :
    (s.drop above.length).contents = rest := by
  have length := congrArg List.length h
  rw [framed.length_contents, List.length_append] at length
  have fits := framed.window_le
  rw [contents_drop (n := above.length) (by omega)] at h
  refine List.append_inj_left' h (Memory.length_slice ?_)
  omega

end Store

namespace Instruction

variable {i : Instruction} {s : Store}

theorem place_of_not_isStore (h : i.isStore = false) :
    i.place s = s.stack.base + (s.stack.pointer - i.pops) := by
  cases i with
  | put _ | putAddress _ _ | putStack _ _ => cases h
  | _ => rfl

theorem writeLength_of_not_isStore (h : i.isStore = false) : i.writeLength = i.pushes := by
  cases i with
  | put _ | putAddress _ _ | putStack _ _ => cases h
  | _ => rfl

theorem contents_after [FloatUnit] (live : s.Live) (pc : Nat) (h : i.isStore = false)
    (clear : i.fault? s = none) :
    (i.after pc s).contents = (s.drop i.pops).contents ++ i.data pc s := by
  obtain ⟨-, -, fits⟩ := fault?_eq_none_iff.1 clear
  have window := live.base_add_size
  have length : (i.data pc s).length = i.pushes := by
    rw [length_data pc clear, writeLength_of_not_isStore h]
  change (s.memory.overwrite (i.place s) (i.data pc s)).slice s.stack.base
    (s.stack.pointer - i.pops + i.pushes) = _
  rw [place_of_not_isStore h, Memory.slice_add, ← length,
    Memory.slice_overwrite_of_le _ _ (Nat.le_refl _), Memory.slice_overwrite (by omega)]
  rfl

end Instruction

theorem Machine.Sound.framed {c : Config} {m : Machine} (sound : m.Sound c) : m.store.Framed :=
  ⟨sound.base_add_size.trans sound.memory_size.symm, sound.pointer_le,
    sound.memory_size.symm ▸ sound.addressable⟩

theorem Ty.append_encode_inj {t : Ty} {v w : t.Val} {a b : List UInt8}
    (h : a ++ t.encode v = b ++ t.encode w) : a = b ∧ v = w := by
  obtain ⟨same, bytes⟩ := List.append_inj' h (by rw [length_encode, length_encode])
  refine ⟨same, ?_⟩
  rw [← decode_encode v, bytes, decode_encode]

end ByteMachine
