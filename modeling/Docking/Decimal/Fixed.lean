/-!
# Fixed-place decimal text of single-precision numbers

`fixed places f` writes the exact binary value of `f` with `places` digits after the point:
the value times `10 ^ places` is rounded to an integer, a tie going to the even neighbour,
and a minus sign stands before a negative value (negative zero included). Infinities are
`inf` and `-inf`, and a NaN is `NaN`.

The exact value comes from the bits (`Binary32.ofBits`), so the text depends on nothing
but the number.
-/

namespace Docking.Decimal

/-- A single-precision number taken apart: a finite value `± mantissa · 2 ^ exponent`,
an infinity, or a NaN. -/
inductive Binary32 where
  | finite (negative : Bool) (mantissa : Nat) (exponent : Int)
  | infinite (negative : Bool)
  | nan
  deriving DecidableEq, Repr

/-- Takes the bits of a single-precision number apart: a sign bit, eight exponent bits and
twenty-three fraction bits, with the hidden leading bit for normal numbers. -/
def Binary32.ofBits (bits : UInt32) : Binary32 :=
  let b := bits.toNat
  let negative := decide (Nat.pow 2 31 ≤ b)
  let e : Nat := b / Nat.pow 2 23 % 256
  let m : Nat := b % Nat.pow 2 23
  if e = 255 then (if m = 0 then .infinite negative else .nan)
  else if e = 0 then .finite negative m (-149)
  else .finite negative (m + Nat.pow 2 23) ((e : Int) - 150)

/-- `n / d` rounded to the nearest integer, a tie going to the even one. -/
def roundHalfEven (n d : Nat) : Nat :=
  let q := n / d
  let r := n % d
  if d < 2 * r then q + 1
  else if 2 * r < d then q
  else if q % 2 = 0 then q else q + 1

/-- The value `m · 2 ^ e` times `10 ^ places`, rounded to an integer, ties to even. -/
def scaled (m : Nat) (e : Int) (places : Nat) : Nat :=
  if 0 ≤ e then m * Nat.pow 2 e.toNat * Nat.pow 10 places
  else roundHalfEven (m * Nat.pow 10 places) (Nat.pow 2 (-e).toNat)

/-- The decimal digits of `n`, with leading zeros up to `width` digits. -/
def padDigits (width n : Nat) : List Char :=
  let ds := Nat.toDigits 10 n
  List.replicate (width - ds.length) '0' ++ ds

/-- The text of the integer `n / 10 ^ places` with `places` digits after the point. -/
def pointed (places n : Nat) : String :=
  let ds := padDigits (places + 1) n
  let whole := ds.take (ds.length - places)
  let frac := ds.drop (ds.length - places)
  if places = 0 then String.ofList whole
  else String.ofList whole ++ "." ++ String.ofList frac

/-- The text of `f` with `places` digits after the point. -/
def fixed (places : Nat) (f : Float32) : String :=
  match Binary32.ofBits f.toBits with
  | .nan => "NaN"
  | .infinite negative => if negative then "-inf" else "inf"
  | .finite negative m e =>
    (if negative then "-" else "") ++ pointed places (scaled m e places)

end Docking.Decimal
