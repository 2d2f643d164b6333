/-
# Printing JSON

A value is printed either without any space or over several lines, with two blanks of
indentation for each level and an element or member on each line. Quotes, backslashes and control
characters are escaped; every other character stands for itself. Inside a message a value that was
refused is shown in another way: texts in quotes, the three constants capitalised, containers with
a comma and a space between their parts.

Key definitions: `Json.Layout`, `Json.write`, `Json.compact`, `Json.pretty`, `Json.literal`,
`Json.kindName`.
-/
import Sentential.Json.Basic
import Sentential.Number
import Sentential.Text

namespace Sentential
namespace Json

/-- How a value is spread over lines. -/
inductive Layout
  | compact
  | indented
  deriving DecidableEq, Repr

/-- What stands before an element, or before the closing bracket, at a level. -/
def Layout.gap : Layout → Nat → List Char
  | compact, _ => []
  | indented, depth => '\n' :: List.replicate (2 * depth) ' '

/-- What stands between the name and the value of a member. -/
def Layout.colon : Layout → List Char
  | compact => [':']
  | indented => [':', ' ']

/-- A hexadecimal digit, in lower case. -/
def hexDigit (n : Nat) : Char := Nat.digitChar n

/-- A character as it stands inside a text. -/
def writeChar (c : Char) : List Char :=
  if c = '"' then ['\\', '"']
  else if c = '\\' then ['\\', '\\']
  else if c = '\n' then ['\\', 'n']
  else if c = '\r' then ['\\', 'r']
  else if c = '\t' then ['\\', 't']
  else if c = '\x08' then ['\\', 'b']
  else if c = '\x0c' then ['\\', 'f']
  else if c.toNat < 32 then
    ['\\', 'u', '0', '0', hexDigit (c.toNat / 16), hexDigit (c.toNat % 16)]
  else [c]

def writeText (s : String) : List Char := '"' :: s.toList.flatMap writeChar ++ ['"']

def writeInt : Int → List Char
  | .ofNat n => Nat.toDigits 10 n
  | .negSucc n => '-' :: Nat.toDigits 10 (n + 1)

/-- A floating-point number; infinities and `nan` have words of their own. -/
def writeFloat : Binary64 → List Char
  | .nan => ['N', 'a', 'N']
  | .infinite negative => (if negative then ['-'] else []) ++ "Infinity".toList
  | x => x.text.toList

mutual
/-- The text of a value whose brackets stand at level `depth`. -/
def write (layout : Layout) (depth : Nat) : Json → List Char
  | null => ['n', 'u', 'l', 'l']
  | bool true => ['t', 'r', 'u', 'e']
  | bool false => ['f', 'a', 'l', 's', 'e']
  | int n => writeInt n
  | float x => writeFloat x
  | str s => writeText s
  | arr [] => ['[', ']']
  | arr (x :: xs) =>
    '[' :: layout.gap (depth + 1) ++ write layout (depth + 1) x ++
      writeElements layout (depth + 1) xs ++ layout.gap depth ++ [']']
  | obj [] => ['\x7b', '\x7d']
  | obj ((name, v) :: ms) =>
    '\x7b' :: layout.gap (depth + 1) ++ writeText name ++ layout.colon ++
      write layout (depth + 1) v ++ writeMembers layout (depth + 1) ms ++
      layout.gap depth ++ ['\x7d']

/-- The elements after the first, each after a comma. -/
def writeElements (layout : Layout) (depth : Nat) : List Json → List Char
  | [] => []
  | x :: xs => ',' :: layout.gap depth ++ write layout depth x ++ writeElements layout depth xs

/-- The members after the first, each after a comma. -/
def writeMembers (layout : Layout) (depth : Nat) : List (String × Json) → List Char
  | [] => []
  | (name, v) :: ms =>
    ',' :: layout.gap depth ++ writeText name ++ layout.colon ++ write layout depth v ++
      writeMembers layout depth ms
end

/-- The value on one line, without spaces. -/
def compact (j : Json) : String := String.ofList (j.write .compact 0)

/-- The value over several lines. -/
def pretty (j : Json) : String := String.ofList (j.write .indented 0)

/-! ### Values inside messages -/

/-- The parts of a container, separated by a comma and a space. -/
def commaSeparated (parts : List String) : String := String.intercalate ", " parts

mutual
/-- A value as messages show it. -/
def literal : Json → String
  | null => "None"
  | bool true => "True"
  | bool false => "False"
  | int n => toString n
  | float x => x.text
  | str s => Text.quoted s
  | arr xs => "[" ++ commaSeparated (literals xs) ++ "]"
  | obj ms => "\x7b" ++ commaSeparated (memberLiterals ms) ++ "\x7d"

def literals : List Json → List String
  | [] => []
  | x :: xs => literal x :: literals xs

def memberLiterals : List (String × Json) → List String
  | [] => []
  | (name, v) :: ms => (Text.quoted name ++ ": " ++ literal v) :: memberLiterals ms
end

/-- The kind of a value as messages name it. -/
def kindName : Json → String
  | null => "NoneType"
  | bool _ => "bool"
  | int _ => "int"
  | float _ => "float"
  | str _ => "str"
  | arr _ => "list"
  | obj _ => "dict"

end Json
end Sentential
