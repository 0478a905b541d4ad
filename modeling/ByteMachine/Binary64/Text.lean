import ByteMachine.Binary64.Shortest

/-! Decimal text of a binary64 number: the shortest digits that read back, written
positionally when the first digit stands for `10 ^ -4` to `10 ^ 15`, and otherwise with an
exponent. -/
namespace ByteMachine.Binary64

/-- The digits up to the last one that is not zero. -/
def significant (ds : List Char) : List Char := (ds.reverse.dropWhile (· == '0')).reverse

/-- At least one digit follows the point. The first digit stands for `10 ^ e`. -/
def positional (ds : List Char) (e : Int) : List Char :=
  if e < 0 then '0' :: '.' :: (List.replicate (-e - 1).toNat '0' ++ ds)
  else
    let whole := e.toNat + 1
    let tail := ds.drop whole
    ds.take whole ++ List.replicate (whole - ds.length) '0' ++
      '.' :: (if tail.isEmpty then ['0'] else tail)

/-- A single digit stands without a point, and the exponent carries no plus sign. -/
def scientific (ds : List Char) (e : Int) : List Char :=
  let tail := ds.drop 1
  ds.take 1 ++ (if tail.isEmpty then [] else '.' :: tail) ++ 'e' :: (toString e).toList

def Decimal.text (d : Decimal) : List Char :=
  let ds := Nat.toDigits 10 d.digits
  let e : Int := d.place + ds.length - 1 - 1074
  if -4 ≤ e ∧ e ≤ 15 then positional (significant ds) e else scientific (significant ds) e

def absText (n : Nat) : List Char :=
  if n = 0 then ['0', '.', '0']
  else if n = infinity then ['i', 'n', 'f']
  else (shortest n).text

/-- All NaNs share one text; any other number shows its sign, zero included. -/
def text (x : Binary64) : String :=
  if x.isNaN then "NaN"
  else String.ofList (if x.isNegative then '-' :: absText x.magnitude else absText x.magnitude)

end ByteMachine.Binary64
