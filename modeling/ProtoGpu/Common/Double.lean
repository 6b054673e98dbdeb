import ProtoGpu.Lib.Rounding
import Mathlib.Data.List.DropRight

/-!
# Doubles

The program makes a `double` from an integer or with `strtod`, and prints it on a stream. A double
is its value, a rational with a sign, or an infinity; NaN never arises. Conversions round to the
nearest double, ties to even, and a stream prints six significant digits (`%g`).
-/

namespace ProtoGpu

/-- The bytes of a `std::string`. -/
abbrev Text := List Char

inductive Double where
  | finite (neg : Bool) (mag : ℚ)
  | inf (neg : Bool)
deriving DecidableEq

/-- The double nearest to a magnitude, subnormals and overflow included. -/
def Double.round (neg : Bool) (q : ℚ) : Double :=
  let r := Rounding.toUnit 2 (max (Rounding.unitExp 2 53 q) (-1074)) q
  if r < 2 ^ 1024 then .finite neg r else .inf neg

/-- `static_cast<double>` of an integer. -/
def Double.ofInt (n : Int) : Double := Double.round (n < 0) n.natAbs

/-! ### Digits -/

/-- The last `k` decimal digits. -/
def decimalDigits : Nat → Nat → Text
  | 0, _ => []
  | k + 1, m => decimalDigits k (m / 10) ++ [Nat.digitChar (m % 10)]

def digitValue (c : Char) : Nat := c.toNat - '0'.toNat

/-- The number a row of digits writes. -/
def digitsValue (digits : Text) : Nat := digits.foldl (fun n c => n * 10 + digitValue c) 0

/-! ### `out << double` -/

/-- `%g` drops the zeros at the end of a fraction, and the point of an empty one. -/
def withFraction (int frac : Text) : Text :=
  match frac.rdropWhile (· == '0') with
  | [] => int
  | digits => int ++ '.' :: digits

/-- At least two digits; a double has at most three. -/
def exponentText (x : Int) : Text :=
  (if x < 0 then '-' else '+') :: decimalDigits (if x.natAbs < 100 then 2 else 3) x.natAbs

/-- The six digits `m` with the point after the first, times `10 ^ x`. -/
def digitsText (m : Nat) (x : Int) : Text :=
  let digits := decimalDigits 6 m
  if x < -4 ∨ x ≥ 6 then withFraction (digits.take 1) (digits.drop 1) ++ 'e' :: exponentText x
  else if x < 0 then withFraction ['0'] (List.replicate (-x - 1).toNat '0' ++ digits)
  else withFraction (digits.take (x.toNat + 1)) (digits.drop (x.toNat + 1))

def magText (mag : ℚ) : Text :=
  if mag = 0 then ['0']
  else
    let m := (Rounding.significand 10 6 mag).toNat
    let e := Rounding.unitExp 10 6 mag
    -- rounding may carry to a seventh digit
    if m = 1000000 then digitsText 100000 (e + 6) else digitsText m (e + 5)

def Double.text : Double → Text
  | .finite neg mag => (if neg then ['-'] else []) ++ magText mag
  | .inf neg => (if neg then ['-'] else []) ++ "inf".toList

/-! ### `strtod` -/

/-- A number as JSON writes it: sign, digits, fraction digits and exponent. -/
structure Decimal where
  neg : Bool := false
  int : Text
  frac : Text := []
  expNeg : Bool := false
  exp : Text := []
deriving DecidableEq

def Decimal.value (d : Decimal) : ℚ :=
  let e : Int := digitsValue d.exp
  digitsValue (d.int ++ d.frac) * (10 : ℚ) ^ ((if d.expNeg then -e else e) - d.frac.length)

def strtod (d : Decimal) : Double := Double.round d.neg d.value

end ProtoGpu
