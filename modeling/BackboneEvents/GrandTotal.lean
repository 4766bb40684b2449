import Mathlib.Algebra.Group.Nat.Defs
import Mathlib.Data.Int.Notation
import Mathlib.Data.Nat.Notation

/-!
# The zero test on a grand total

The order total arrives as text and is parsed as a 64-bit float; only whether it is
zero is used. A decimal rounds to zero when its magnitude is at most half of the
least subnormal, `2^-1075`.
-/
namespace BackboneEvents.GrandTotal

/-- Unicode `White_Space`, which trimming removes. -/
def isWhiteSpace (c : Char) : Bool :=
  (9 ≤ c.toNat && c.toNat ≤ 13) || c.toNat == 0x20 || c.toNat == 0x85 || c.toNat == 0xa0 ||
    c.toNat == 0x1680 || (0x2000 ≤ c.toNat && c.toNat ≤ 0x200a) || c.toNat == 0x2028 ||
    c.toNat == 0x2029 || c.toNat == 0x202f || c.toNat == 0x205f || c.toNat == 0x3000

def trim (text : List Char) : List Char :=
  ((text.dropWhile isWhiteSpace).reverse.dropWhile isWhiteSpace).reverse

def stripSign : List Char → List Char
  | '+' :: rest => rest
  | '-' :: rest => rest
  | text => text

def digitsValue (digits : List Char) : ℕ :=
  digits.foldl (fun n c => 10 * n + (c.toNat - '0'.toNat)) 0

/-- The power of ten after the mantissa: `none` when the text is no exponent part. -/
def exponent : List Char → Option ℤ
  | [] => some 0
  | e :: rest =>
    if e == 'e' || e == 'E' then
      let digits := stripSign rest
      if digits.isEmpty || !digits.all Char.isDigit then none
      else if rest.head? == some '-' then some (-(digitsValue digits : ℤ))
      else some (digitsValue digits)
    else none

/-- `2 ^ 1075`, with exponents the evaluator accepts. -/
def halfLeastSubnormal : ℕ := (2 ^ 215) ^ 5

/-- `mantissa * 10 ^ power` rounds to zero. -/
def roundsToZero (mantissa : ℕ) (power : ℤ) : Bool :=
  mantissa == 0 || (decide (power < 0) && decide (mantissa * halfLeastSubnormal ≤ 10 ^ power.natAbs))

/-- Whether the parsed float is zero: `none` when the text is no float at all. -/
def parsedZero (text : List Char) : Option Bool :=
  let body := stripSign text
  if ["inf", "infinity", "nan"].any (fun w => w.toList == body.map Char.toLower) then some false
  else
    let whole := body.takeWhile Char.isDigit
    let afterWhole := body.dropWhile Char.isDigit
    let dotted := afterWhole.head? == some '.'
    let tail := if dotted then afterWhole.tail else afterWhole
    let fraction := if dotted then tail.takeWhile Char.isDigit else []
    let rest := if dotted then tail.dropWhile Char.isDigit else tail
    if whole.isEmpty && fraction.isEmpty then none
    else (exponent rest).map (fun x =>
      roundsToZero (digitsValue (whole ++ fraction)) (x - fraction.length))

/-- Text that does not parse counts as paid. -/
def grandTotalIsZero (raw : String) : Bool := (parsedZero (trim raw.toList)).getD false

example : grandTotalIsZero " 0.00 " = true := by decide
example : grandTotalIsZero "120.50" = false := by decide

end BackboneEvents.GrandTotal
