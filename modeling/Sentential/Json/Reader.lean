/-
# Reading JSON

The reader takes a text apart from left to right and stops at the first fault. While it reads, a
place in the text is given by what is left of the text there; the line and column of a fault are
worked out at the end. Besides the standard, the words `NaN`, `Infinity` and `-Infinity` are
numbers. Of several members with one name the last counts. There is no limit on the depth of a value
and on the digits of a number.

The reader is recursive on a count that exceeds the number of steps the text can take: each
value, element and member uses up at least one character.

Key definitions: `Json.Fault`, `Json.ReadError`, `Json.readValue`, `Json.read`.
-/
import Sentential.Json.Basic
import Sentential.Text

namespace Sentential
namespace Json

/-- What can be wrong with a text. -/
inductive Fault
  | value
  | extraData
  | memberName
  | colon
  | comma
  | unterminated
  | controlCharacter
  | escape
  | unicodeEscape
  | byteOrderMark
  deriving DecidableEq, Repr

def Fault.message : Fault → String
  | value => "Expecting value"
  | extraData => "Extra data"
  | memberName => "Expecting property name enclosed in double quotes"
  | colon => "Expecting ':' delimiter"
  | comma => "Expecting ',' delimiter"
  | unterminated => "Unterminated string starting at"
  | controlCharacter => "Invalid control character at"
  | escape => "Invalid \\escape"
  | unicodeEscape => "Invalid \\uXXXX escape"
  | byteOrderMark => "Unexpected UTF-8 BOM (decode using utf-8-sig)"

/-- A fault and what is left of the text where it was found. -/
structure Stop where
  fault : Fault
  left : List Char
  deriving DecidableEq, Repr

/-- The outcome of reading a part of a text: a value and what is left, or a fault. -/
abbrev Outcome (α : Type) := Except Stop (α × List Char)

/-- A fault at a place. -/
def stop {α : Type} (fault : Fault) (left : List Char) : Outcome α := .error ⟨fault, left⟩

/-- The characters that may stand between symbols. -/
def isSpace (c : Char) : Bool := c = ' ' || c = '\t' || c = '\n' || c = '\r'

/-- What is left after the spaces. -/
def skip (cs : List Char) : List Char := cs.dropWhile isSpace

/-- The value of a hexadecimal digit in either case. -/
def hexValue? (c : Char) : Option Nat :=
  if '0' ≤ c ∧ c ≤ '9' then some (c.toNat - 48)
  else if 'a' ≤ c ∧ c ≤ 'f' then some (c.toNat - 87)
  else if 'A' ≤ c ∧ c ≤ 'F' then some (c.toNat - 55)
  else none

/-- The number that four hexadecimal digits stand for. -/
def hexValue4? (a b c d : Char) : Option Nat := do
  return (((← hexValue? a) * 16 + (← hexValue? b)) * 16 + (← hexValue? c)) * 16 + (← hexValue? d)

/-- Turns code units into characters: two halves of a pair make one character. Half of a pair on its
own stands for no character, so no text can hold it, and U+FFFD takes its place; what is said of
reading is said of texts in which no escape gives such a half (`hasLoneHalf`). -/
def joinUnits : List Nat → List Char
  | high :: low :: units =>
    if 0xD800 ≤ high ∧ high < 0xDC00 ∧ 0xDC00 ≤ low ∧ low < 0xE000 then
      Char.ofNat (0x10000 + (high - 0xD800) * 0x400 + (low - 0xDC00)) :: joinUnits units
    else if 0xD800 ≤ high ∧ high < 0xE000 then '\uFFFD' :: joinUnits (low :: units)
    else Char.ofNat high :: joinUnits (low :: units)
  | [unit] => if 0xD800 ≤ unit ∧ unit < 0xE000 then ['\uFFFD'] else [Char.ofNat unit]
  | [] => []

/-- In a text in which escapes stand, some half of a pair of code units stands alone. -/
def hasLoneHalf : List Char → Bool
  | '\\' :: 'u' :: a :: b :: c :: d :: cs =>
    match hexValue4? a b c d with
    | none => hasLoneHalf cs
    | some unit =>
      if 0xDC00 ≤ unit ∧ unit < 0xE000 then true
      else if 0xD800 ≤ unit ∧ unit < 0xDC00 then
        match cs with
        | '\\' :: 'u' :: e :: f :: g :: h :: rest =>
          match hexValue4? e f g h with
          | none => true
          | some low => !(0xDC00 ≤ low && low < 0xE000) || hasLoneHalf rest
        | _ => true
      else hasLoneHalf cs
  | '\\' :: _ :: cs => hasLoneHalf cs
  | _ :: cs => hasLoneHalf cs
  | [] => false

/-- The character that a letter after a backslash stands for. -/
def escaped? (c : Char) : Option Char :=
  if c = '"' ∨ c = '\\' ∨ c = '/' then some c
  else if c = 'b' then some '\x08'
  else if c = 'f' then some '\x0c'
  else if c = 'n' then some '\n'
  else if c = 'r' then some '\r'
  else if c = 't' then some '\t'
  else none

/-- Puts a code unit before those that have been read. -/
def consUnit (unit : Nat) (rest : Outcome (List Nat)) : Outcome (List Nat) :=
  rest.map fun (units, left) => (unit :: units, left)

/-- Reads the code units of a text up to its closing quote; `opening` is what is left from its
opening quote on. An escape by code needs four digits and at least one character after them. -/
def readUnits (opening : List Char) : List Char → Outcome (List Nat)
  | [] => stop .unterminated opening
  | '"' :: left => .ok ([], left)
  | ['\\'] => stop .unterminated opening
  | '\\' :: 'u' :: a :: b :: c :: d :: left =>
    match left, hexValue4? a b c d with
    | _ :: _, some unit => consUnit unit (readUnits opening left)
    | _, _ => stop .unicodeEscape ('u' :: a :: b :: c :: d :: left)
  | '\\' :: 'u' :: left => stop .unicodeEscape ('u' :: left)
  | '\\' :: c :: left =>
    match escaped? c with
    | some x => consUnit x.toNat (readUnits opening left)
    | none => stop .escape ('\\' :: c :: left)
  | c :: left =>
    if c.toNat < 32 then stop .controlCharacter (c :: left)
    else consUnit c.toNat (readUnits opening left)

/-- Reads a text after its opening quote. -/
def readText (opening cs : List Char) : Outcome String :=
  (readUnits opening cs).map fun (units, left) => (String.ofList (joinUnits units), left)

/-- The number that a row of decimal digits stands for. -/
def digitsValue (digits : List Char) : Nat :=
  Nat.ofDigitChars 10 digits 0

/-- The integer part of a number and what is left: a zero, or digits that start with another. -/
def splitInteger? : List Char → Option (List Char × List Char)
  | [] => none
  | c :: cs =>
    if c = '0' then some ([c], cs)
    else if c.isDigit then some (c :: cs.takeWhile Char.isDigit, cs.dropWhile Char.isDigit)
    else none

/-- The digits after a decimal point and what is left. A point without digits is not taken. -/
def splitFraction : List Char → List Char × List Char
  | '.' :: cs =>
    match cs.takeWhile Char.isDigit with
    | [] => ([], '.' :: cs)
    | digits => (digits, cs.dropWhile Char.isDigit)
  | cs => ([], cs)

/-- The exponent and what is left. A mark without digits is not taken. -/
def splitExponent (cs : List Char) : Option Int × List Char :=
  match cs with
  | mark :: rest =>
    if mark = 'e' ∨ mark = 'E' then
      let (negative, rest) : Bool × List Char :=
        match rest with
        | '-' :: r => (true, r)
        | '+' :: r => (false, r)
        | r => (false, r)
      match rest.takeWhile Char.isDigit with
      | [] => (none, cs)
      | digits =>
        let n : Int := digitsValue digits
        (some (if negative then -n else n), rest.dropWhile Char.isDigit)
    else (none, cs)
  | [] => (none, cs)

/-- Reads a number without sign; the sign has been read. -/
def readMagnitude? (negative : Bool) (cs : List Char) : Option (Json × List Char) :=
  (splitInteger? cs).map fun (digits, cs) =>
    let (fraction, cs) := splitFraction cs
    let (exponent?, cs) := splitExponent cs
    if fraction = [] ∧ exponent? = none then
      let n : Int := digitsValue digits
      (int (if negative then -n else n), cs)
    else
      let all := digits ++ fraction
      (float (.ofDecimal negative (digitsValue all) all.length
        (exponent?.getD 0 - fraction.length)), cs)

def readNumber? : List Char → Option (Json × List Char)
  | '-' :: cs => readMagnitude? true cs
  | cs => readMagnitude? false cs

mutual
/-- Reads a value from its first character on. -/
def readValue : Nat → List Char → Except Stop (Json × List Char)
  | 0, cs => stop .value cs
  | count + 1, cs =>
    match cs with
    | '"' :: left => (readText cs left).map fun (s, left) => (str s, left)
    | '[' :: left =>
      match skip left with
      | ']' :: left => .ok (arr [], left)
      | left => (readElements count left).map fun (xs, left) => (arr xs, left)
    | '\x7b' :: left =>
      match skip left with
      | '\x7d' :: left => .ok (obj [], left)
      | left => (readMembers count left).map fun (ms, left) => (obj (mergeMembers ms), left)
    | 'n' :: 'u' :: 'l' :: 'l' :: left => .ok (null, left)
    | 't' :: 'r' :: 'u' :: 'e' :: left => .ok (bool true, left)
    | 'f' :: 'a' :: 'l' :: 's' :: 'e' :: left => .ok (bool false, left)
    | 'N' :: 'a' :: 'N' :: left => .ok (float .nan, left)
    | 'I' :: 'n' :: 'f' :: 'i' :: 'n' :: 'i' :: 't' :: 'y' :: left =>
      .ok (float (.infinite false), left)
    | '-' :: 'I' :: 'n' :: 'f' :: 'i' :: 'n' :: 'i' :: 't' :: 'y' :: left =>
      .ok (float (.infinite true), left)
    | cs =>
      match readNumber? cs with
      | some read => .ok read
      | none => stop .value cs

/-- Reads the elements of an array up to the closing bracket. -/
def readElements : Nat → List Char → Except Stop (List Json × List Char)
  | 0, cs => stop .value cs
  | count + 1, cs => do
    let (x, left) ← readValue count cs
    match skip left with
    | ']' :: left => .ok ([x], left)
    | ',' :: left =>
      let (xs, left) ← readElements count (skip left)
      .ok (x :: xs, left)
    | left => stop .comma left

/-- Reads the members of an object up to the closing brace. -/
def readMembers : Nat → List Char → Except Stop (List (String × Json) × List Char)
  | 0, cs => stop .value cs
  | count + 1, cs =>
    match cs with
    | '"' :: left => do
      let (name, left) ← readText cs left
      match skip left with
      | ':' :: left =>
        let (x, left) ← readValue count (skip left)
        match skip left with
        | '\x7d' :: left => .ok ([(name, x)], left)
        | ',' :: left =>
          let (ms, left) ← readMembers count (skip left)
          .ok ((name, x) :: ms, left)
        | left => stop .comma left
      | left => stop .colon left
    | cs => stop .memberName cs
end

/-- Reads a text that holds one value and nothing else but spaces. -/
def readAll (cs : List Char) : Except Stop Json := do
  let (x, left) ← readValue (2 * cs.length + 2) (skip cs)
  match skip left with
  | [] => .ok x
  | left => .error ⟨.extraData, left⟩

/-- A fault and its place in the text: characters before it in all, its line and its column. -/
structure ReadError where
  fault : Fault
  offset : Nat
  line : Nat
  column : Nat
  deriving DecidableEq, Repr

/-- Where a fault stands in the text in which it was found. -/
def Stop.locate (text : List Char) (s : Stop) : ReadError :=
  let offset := text.length - s.left.length
  let before := text.take offset
  ⟨s.fault, offset, before.count '\n' + 1, (before.reverse.takeWhile (· ≠ '\n')).length + 1⟩

def ReadError.message (e : ReadError) : String :=
  e.fault.message ++ ": line " ++ toString e.line ++ " column " ++ toString e.column ++
    " (char " ++ toString e.offset ++ ")"

def read (text : List Char) : Except ReadError Json :=
  (readAll text).mapError (·.locate text)

/-- Reads a value from the content of a file, which must not start with a byte order mark. -/
def readFile (content : String) : Except ReadError Json :=
  let text := Text.unifyLineEnds content.toList
  match text with
  | '\uFEFF' :: _ => .error (Stop.locate text ⟨.byteOrderMark, text⟩)
  | _ => read text

end Json
end Sentential
