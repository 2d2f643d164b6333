/-
# Binary floating-point numbers

The numbers of the 64-bit binary format, kept exactly: a sign, a significand below `2 ^ 53` and
an exponent of two. A decimal text is read as the nearest of them, a tie going to the even
significand, and a number beyond the largest is read as an infinity.

A finite number is written with the fewest decimal digits that read back as the same number, and
among those with the digits nearest to it. The decimal point is written in place when it stands at
most 16 digits after the first digit and at most three zeros before it; otherwise a power of ten
follows, of at least two digits and with its sign.

Key definitions: `Binary64`, `Binary64.nearest`, `Binary64.ofDecimal`, `Binary64.sameNumber`,
`Binary64.shortest`, `Binary64.text`.
-/
namespace Sentential

/-- A number of the 64-bit binary format; `finite` stands for `± significand * 2 ^ exponent`. -/
inductive Binary64
  | nan
  | infinite (negative : Bool)
  | finite (negative : Bool) (significand : Nat) (exponent : Int)
  deriving DecidableEq, Repr, Inhabited

namespace Binary64

/-- The natural number nearest to `num / den`; a tie goes to the even one. -/
def roundDiv (num den : Nat) : Nat :=
  let quotient := num / den
  let rest := num % den
  if 2 * rest < den ∨ (2 * rest = den ∧ quotient % 2 = 0) then quotient else quotient + 1

/-- Multiplies the fraction `num / den` by `base ^ exponent`. -/
def scale (base num den : Nat) (exponent : Int) : Nat × Nat :=
  if 0 ≤ exponent then (num * Nat.pow base exponent.toNat, den)
  else (num, den * Nat.pow base (-exponent).toNat)

/-- The exponent at which the fraction `num / den` has 53 significant bits, but not below the
least exponent of the format. -/
def exponentOf (num den : Nat) : Int :=
  let guess : Int := (num.log2 : Int) - (den.log2 : Int)
  let (n, d) := scale 2 num den (-guess)
  max ((if d ≤ n then guess else guess - 1) - 52) (-1074)

/-- The number nearest to the fraction `num / den`. -/
def nearest (negative : Bool) (num den : Nat) : Binary64 :=
  if num = 0 then finite negative 0 (-1074)
  else
    let exponent := exponentOf num den
    let (n, d) := scale 2 num den (-exponent)
    let significand := roundDiv n d
    let (significand, exponent) :=
      if significand = Nat.pow 2 53 then (Nat.pow 2 52, exponent + 1) else (significand, exponent)
    if 971 < exponent then infinite negative else finite negative significand exponent

/-- The number nearest to `digits * 10 ^ exponent`, where `digits` has `count` digits. Powers
that are far outside the format are not computed. -/
def ofDecimal (negative : Bool) (digits count : Nat) (exponent : Int) : Binary64 :=
  if digits = 0 ∨ (count : Int) + exponent < -400 then finite negative 0 (-1074)
  else if 400 < exponent then infinite negative
  else
    let (n, d) := scale 10 digits 1 exponent
    nearest negative n d

/-- The finite number `± m * 2 ^ e` as a fraction of integers with a positive denominator. -/
def fraction (negative : Bool) (m : Nat) (e : Int) : Int × Nat :=
  let (n, d) := scale 2 m 1 e
  (if negative then -(n : Int) else n, d)

/-- Equality of numbers: the two zeros are equal, and no number equals `nan`. -/
def sameNumber : Binary64 → Binary64 → Bool
  | infinite s, infinite t => s == t
  | finite s m e, finite t n f =>
    let (a, b) := fraction s m e
    let (c, d) := fraction t n f
    a * d == c * b
  | _, _ => false

/-- Equality of a number and an integer. -/
def isInteger (x : Binary64) (k : Int) : Bool :=
  match x with
  | finite s m e =>
    let (a, b) := fraction s m e
    a == k * b
  | _ => false

/-- The integer that a number is, if it is one. -/
def integer? : Binary64 → Option Int
  | finite s m e =>
    let (a, b) := fraction s m e
    if a % b = 0 then some (a / b) else none
  | _ => none

/-! ### Shortest decimal text -/

/-- The number of digits before the decimal point of the fraction `num / den`; it is zero or
negative when the fraction is below one tenth. -/
def pointOf (num den : Nat) : Int :=
  if den ≤ num then (Nat.toDigits 10 (num / den)).length
  else
    match (List.range 400).find? fun j => den ≤ num * Nat.pow 10 (j + 1) with
    | some j => -(j : Int)
    | none => 0

/-- The decimal of `count` digits that reads back as the number `x` of value `num / den`, the
nearer one if there are two. -/
def decimalWith (x : Binary64) (num den count : Nat) : Option (Nat × Int) :=
  let exponent : Int := pointOf num den - count
  let (n, d) := scale 10 num den (-exponent)
  let below := n / d
  let readsBack (digits : Nat) : Bool :=
    let (a, b) := scale 10 digits 1 exponent
    nearest false a b == x
  let pick : Option Nat :=
    match readsBack below, readsBack (below + 1) with
    | true, true => some (roundDiv n d)
    | true, false => some below
    | false, true => some (below + 1)
    | false, false => none
  pick.map fun digits => (digits, exponent)

/-- The shortest decimal `digits * 10 ^ exponent` that reads back as the positive number
`m * 2 ^ e`; seventeen digits always suffice. -/
def shortest (m : Nat) (e : Int) : Nat × Int :=
  let (num, den) := scale 2 m 1 e
  let x := finite false m e
  ((List.range 17).findSome? fun k => decimalWith x num den (k + 1)).getD (0, 0)

/-- Removes the zeros at the end of a row of digits, but not the first digit. -/
def dropTrailingZeros (digits : List Char) : List Char :=
  match (digits.reverse.dropWhile (· == '0')).reverse with
  | [] => ['0']
  | kept => kept

/-- The text of a decimal with the given digits, whose decimal point stands after the first
`point` of them. -/
def placePoint (digits : List Char) (point : Int) : List Char :=
  if point ≤ -4 ∨ 16 < point then
    let power := point - 1
    let mark := if power < 0 then '-' else '+'
    let width := Nat.toDigits 10 power.natAbs
    let power := if width.length < 2 then '0' :: width else width
    match digits with
    | [d] => [d, 'e', mark] ++ power
    | ds => ds.take 1 ++ '.' :: ds.drop 1 ++ ['e', mark] ++ power
  else if point ≤ 0 then
    ['0', '.'] ++ List.replicate (-point).toNat '0' ++ digits
  else if digits.length ≤ point.toNat then
    digits ++ List.replicate (point.toNat - digits.length) '0' ++ ['.', '0']
  else digits.take point.toNat ++ '.' :: digits.drop point.toNat

def text : Binary64 → String
  | nan => "nan"
  | infinite true => "-inf"
  | infinite false => "inf"
  | finite negative m e =>
    let magnitude :=
      if m = 0 then ['0', '.', '0']
      else
        let (digits, exponent) := shortest m e
        let row := Nat.toDigits 10 digits
        placePoint (dropTrailingZeros row) (row.length + exponent)
    String.ofList (if negative then '-' :: magnitude else magnitude)

end Binary64
end Sentential
