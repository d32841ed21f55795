import Mathlib.Data.Nat.Log
import PiFrame.ScanText

/-!
# Doubles in texts

A `double` is a `Float.Model`: an infinity, no number, a zero, or `± m * 2 ^ e`, and the
arithmetic on it rounds to the nearest one, to the even one of two.  This file has what the
mathematics library and `printf` add to that: `pow` with base ten, `floor`, and the formats
`%f` and `%e`.  Both formats write the exact value, rounded to so many digits in the same
manner, so they are computed with natural numbers: a finite value is the fraction `a / b`.

The functions of the mathematics library are taken to round as the arithmetic does.  The
sign of what is no number is not kept, as on the processors of the ARM family.
-/

namespace DoubleText

open ByteText
open Float.Model (UnpackedFloat)

/-- `pow (10.0, e)` for an `e` without fraction. -/
def pow10 (e : Int) : Float.Model := .ofScientific 1 e

/-- `floor`: what has a positive exponent has no fraction, and neither has what is infinite. -/
def floor (d : Float.Model) : Float.Model :=
  match d.unpack with
  | .finite .positive m e _ => if 0 ≤ e then d else .ofInt (m / 2 ^ (-e).toNat)
  | .finite .negative m e _ => if 0 ≤ e then d else .ofInt (-m / 2 ^ (-e).toNat)
  | _ => d

/-- The natural number nearest to `a / b`, the even one of two. -/
def roundEven (a b : Nat) : Nat :=
  if 2 * (a % b) < b then a / b
  else if b < 2 * (a % b) then a / b + 1
  else a / b + a / b % 2

/-- A numeral with zeros in front. -/
def padded (width n : Nat) : Text := (decimal n).leftpad width '0'

/-- `%.nf` of a fraction that is not negative. -/
def fixed (digits a b : Nat) : Text :=
  let n := roundEven (a * 10 ^ digits) b
  decimal (n / 10 ^ digits)
    ++ if digits = 0 then [] else '.' :: padded digits (n % 10 ^ digits)

/-- The power of ten in front of a fraction: its first digit has that place. -/
def leadingPlace (a b : Nat) : Int :=
  if b ≤ a then Nat.log 10 (a / b) else -Nat.clog 10 ((a + b - 1) / a)

/-- `%e` of a fraction that is not negative. -/
def scientific (a b : Nat) : Text :=
  let place := leadingPlace a b
  let n := roundEven (a * 10 ^ (6 - place).toNat) (b * 10 ^ (place - 6).toNat)
  -- rounding may have brought one more digit
  let (n, place) := if n = 10 ^ 7 then (10 ^ 6, place + 1) else (n, place)
  decimal (n / 10 ^ 6) ++ ('.' :: (padded 6 (n % 10 ^ 6)
    ++ ('e' :: (if place < 0 then '-' else '+') :: padded 2 place.natAbs)))

/-- What `printf` puts in front of a number. -/
def signText : UnpackedFloat.Sign → Text
  | .positive => []
  | .negative => ['-']

/-- A conversion of `printf`, which formats fractions by `format`. -/
def printed (format : Nat → Nat → Text) (d : Float.Model) : Text :=
  match d.unpack with
  | .infinity sign => signText sign ++ ['i', 'n', 'f']
  | .notANumber => ['n', 'a', 'n']
  | .zero sign => signText sign ++ format 0 1
  | .finite sign m e _ => signText sign ++ format (m * 2 ^ e.toNat) (2 ^ (-e).toNat)

end DoubleText
