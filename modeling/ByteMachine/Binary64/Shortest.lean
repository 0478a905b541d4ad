import ByteMachine.Binary64.Basic

/-! The shortest decimal that reads back as a given binary64 number.

Every finite binary64 number is a whole count of `10 ^ -1074`, so decimals are such counts
here and all comparisons are exact. A decimal reads back as the number nearest to it, a tie
as the one with even bits: the decimals of one number fill the interval between the midpoints
to its two neighbours. Magnitudes stand for the numbers throughout. -/
namespace ByteMachine.Binary64

/-- One more than the largest fraction. -/
def fractionSize : Nat := 0x10000000000000

/-- The absolute value as a count of `2 ^ -1074`. The lowest exponent has no leading one, and
infinity counts as the number that would come after the last finite one. -/
def quanta (n : Nat) : Nat :=
  if n < fractionSize then n
  else (fractionSize + n % fractionSize) <<< (n / fractionSize - 1)

/-- The absolute value as a count of `10 ^ -1074`. -/
def grains (n : Nat) : Nat := quanta n * Nat.pow 5 1074

/-- Whether the decimal `c` is read as the number `n`: the ends belong to even numbers. -/
def readsBack (n c : Nat) : Bool :=
  let low := grains (n - 1) + grains n
  let high := grains n + grains (n + 1)
  if n % 2 = 0 then low ≤ 2 * c && 2 * c ≤ high else low < 2 * c && 2 * c < high

/-- A decimal: `digits * 10 ^ place` grains. -/
structure Decimal where
  digits : Nat
  place : Nat

def Decimal.grains (d : Decimal) : Nat := d.digits * Nat.pow 10 d.place

/-- The decimal next to `n` at a place that reads back, if one does. Halfway between two of
them the greater one is taken. -/
def nearest? (n place : Nat) : Option Decimal :=
  let below : Decimal := ⟨grains n / Nat.pow 10 place, place⟩
  let above : Decimal := ⟨below.digits + 1, place⟩
  if readsBack n below.grains &&
      (!readsBack n above.grains || grains n - below.grains < above.grains - grains n) then
    some below
  else if readsBack n above.grains then some above
  else none

/-- Tries one digit, then two, up to the seventeen that always suffice. -/
def shortest (n : Nat) : Decimal :=
  let first := (Nat.toDigits 10 (grains n)).length - 1
  ((List.range 17).findSome? fun k => nearest? n (first - k)).getD ⟨grains n, 0⟩

end ByteMachine.Binary64
