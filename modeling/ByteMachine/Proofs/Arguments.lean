import ByteMachine.Command.Arguments

/-! Reading the arguments of a run. They are read one item after the other, so that more may follow
what has been read. A switch is on if it is among them: no number looks like one. -/
namespace ByteMachine

theorem NumberFlag.ofName?_switch {a : String} {f : NumberFlag} (h : ofName? a = some f) :
    a ≠ "--trace" ∧ a ≠ "--dump" := by
  constructor <;> rintro rfl <;> revert h <;> exact nofun

theorem numberArgument?_switch {value : String} {n : Nat} (h : numberArgument? value = some n) :
    value ≠ "--trace" ∧ value ≠ "--dump" := by
  constructor <;> rintro rfl <;> revert h <;> exact nofun

namespace RunOptions

variable {o read : RunOptions} {flags : List String}

theorem readFlags_trace (o : RunOptions) (rest : List String) :
    o.readFlags ("--trace" :: rest) = { o with trace := true }.readFlags rest := by
  rw [readFlags, if_pos rfl]

theorem readFlags_dump (o : RunOptions) (rest : List String) :
    o.readFlags ("--dump" :: rest) = { o with dump := true }.readFlags rest := by
  rw [readFlags, if_neg (by decide), if_pos rfl]

theorem readFlags_number {a value : String} {f : NumberFlag} {n : Nat}
    (name : NumberFlag.ofName? a = some f) (number : numberArgument? value = some n)
    (rest : List String) : o.readFlags (a :: value :: rest) = (o.set f n).readFlags rest := by
  obtain ⟨not_trace, not_dump⟩ := NumberFlag.ofName?_switch name
  rw [readFlags, if_neg not_trace, if_neg not_dump, name]
  dsimp only
  rw [number]

theorem readFlags_append (h : o.readFlags flags = .ok read) (more : List String) :
    o.readFlags (flags ++ more) = read.readFlags more := by
  fun_induction readFlags o flags with
  | case1 o =>
    cases h
    rfl
  | case2 o rest ih =>
    rw [List.cons_append, readFlags_trace]
    exact ih h
  | case3 o rest _ ih =>
    rw [List.cons_append, readFlags_dump]
    exact ih h
  | case4 | case5 | case6 => cases h
  | case7 o a _ _ f name value rest n number ih =>
    rw [List.cons_append, List.cons_append, readFlags_number name number]
    exact ih h

theorem switches_of_readFlags (h : o.readFlags flags = .ok read) :
    (read.trace = true ↔ o.trace = true ∨ "--trace" ∈ flags) ∧
      (read.dump = true ↔ o.dump = true ∨ "--dump" ∈ flags) := by
  fun_induction readFlags o flags with
  | case1 o =>
    cases h
    simp
  | case2 o rest ih => simpa using ih h
  | case3 o rest _ ih => simpa using ih h
  | case4 | case5 | case6 => cases h
  | case7 o a not_trace not_dump f name value rest n number ih =>
    have same : (o.set f n).trace = o.trace ∧ (o.set f n).dump = o.dump := by
      cases f <;> exact ⟨rfl, rfl⟩
    obtain ⟨no_trace, no_dump⟩ := numberArgument?_switch number
    simpa [same, Ne.symm not_trace, Ne.symm not_dump, no_trace.symm, no_dump.symm] using ih h

theorem ne_missingPath_of_readFlags {e : ArgumentError} (h : o.readFlags flags = .error e) :
    e ≠ .missingPath := by
  fun_induction readFlags o flags with
  | case1 => cases h
  | case2 _ _ ih | case3 _ _ _ ih => exact ih h
  | case4 | case5 | case6 =>
    obtain rfl := Except.error.inj h
    exact nofun
  | case7 _ _ _ _ _ _ _ _ _ _ ih => exact ih h

end RunOptions
end ByteMachine
