/-! Numerals in a base of at most sixteen, most significant digit first. Digits
from ten on are letters: lower case when written, either case when read. -/
namespace ByteMachine.Numeral

def digitValue? (c : Char) : Option Nat :=
  if '0' ≤ c ∧ c ≤ '9' then some (c.toNat - 48)
  else if 'a' ≤ c ∧ c ≤ 'f' then some (c.toNat - 87)
  else if 'A' ≤ c ∧ c ≤ 'F' then some (c.toNat - 55)
  else none

def digit? (base : Nat) (c : Char) : Option Nat := (digitValue? c).filter (· < base)

/-- Reads on from the value of the digits seen so far. -/
def readFrom? (base : Nat) : Nat → List Char → Option Nat
  | n, [] => some n
  | n, c :: cs => (digit? base c).bind fun d => readFrom? base (base * n + d) cs

/-- An empty text is no numeral; leading zeros are free. -/
def read? (base : Nat) (cs : List Char) : Option Nat :=
  if cs.isEmpty then none else readFrom? base 0 cs

/-- At least `width` digits, zeros in front. -/
def padded (base width n : Nat) : List Char := (Nat.toDigits base n).leftpad width '0'

def hex (width n : Nat) : String := String.ofList (padded 16 width n)

theorem readFrom?_append (base n : Nat) (cs ds : List Char) :
    readFrom? base n (cs ++ ds) = (readFrom? base n cs).bind fun m => readFrom? base m ds := by
  induction cs generalizing n with
  | nil => rfl
  | cons c cs ih =>
    simp only [List.cons_append, readFrom?]
    cases digit? base c with
    | none => rfl
    | some d => simpa using ih (base * n + d)

theorem digit?_digitChar {base d : Nat} (hd : d < base) (hb : base ≤ 16) :
    digit? base d.digitChar = some d := by
  have : ∀ d < 16, digitValue? d.digitChar = some d := by decide
  simp [digit?, this d (by omega), Option.filter, hd]

theorem readFrom?_toDigits {base : Nat} (h : 1 < base) (hb : base ≤ 16) (n : Nat) :
    readFrom? base 0 (Nat.toDigits base n) = some n := by
  induction n using Nat.strongRecOn with
  | _ n ih =>
    by_cases hn : n < base
    · simp [Nat.toDigits_of_lt_base hn, readFrom?, digit?_digitChar hn hb]
    · have hdiv : n / base < n := Nat.div_lt_self (by omega) h
      have hmod : n % base < base := Nat.mod_lt _ (by omega)
      rw [Nat.toDigits_of_base_le h (by omega), readFrom?_append, ih _ hdiv]
      simp [readFrom?, digit?_digitChar hmod hb, Nat.div_add_mod]

theorem readFrom?_replicate_zero {base : Nat} (h : 1 < base) (k : Nat) :
    readFrom? base 0 (List.replicate k '0') = some 0 := by
  have hz : digit? base '0' = some 0 := by
    simp [digit?, show digitValue? '0' = some 0 from by decide, Option.filter, show 0 < base by omega]
  induction k with
  | zero => rfl
  | succ k ih => simp [List.replicate_succ, readFrom?, hz, ih]

theorem read?_padded {base : Nat} (h : 1 < base) (hb : base ≤ 16) (width n : Nat) :
    read? base (padded base width n) = some n := by
  have hne : padded base width n ≠ [] := by
    simp [padded, List.leftpad, Nat.toDigits_ne_nil]
  rw [read?, if_neg (by simpa using hne), padded, List.leftpad, readFrom?_append,
    readFrom?_replicate_zero h]
  exact readFrom?_toDigits h hb n

theorem exists_of_mem_toDigits {base n : Nat} {c : Char} (h : 1 < base)
    (mem : c ∈ Nat.toDigits base n) : ∃ d < base, c = d.digitChar := by
  induction n using Nat.strongRecOn with
  | _ n ih =>
    by_cases hn : n < base
    · rw [Nat.toDigits_of_lt_base hn, List.mem_singleton] at mem
      exact ⟨n, hn, mem⟩
    · rw [Nat.toDigits_of_base_le h (by omega), List.mem_append, List.mem_singleton] at mem
      obtain before | last := mem
      · exact ih _ (Nat.div_lt_self (by omega) h) before
      · exact ⟨n % base, Nat.mod_lt _ (by omega), last⟩

theorem exists_of_mem_padded {base width n : Nat} {c : Char} (h : 1 < base)
    (mem : c ∈ padded base width n) : ∃ d < base, c = d.digitChar := by
  rw [padded, List.leftpad, List.mem_append] at mem
  obtain zero | digit := mem
  · exact ⟨0, by omega, List.eq_of_mem_replicate zero⟩
  · exact exists_of_mem_toDigits h digit

theorem not_mem_padded {c : Char} (other : ∀ d < 16, c ≠ d.digitChar) (width n : Nat) :
    c ∉ padded 16 width n := by
  intro mem
  obtain ⟨d, digit, eq⟩ := exists_of_mem_padded (by decide) mem
  exact other d digit eq

end ByteMachine.Numeral
