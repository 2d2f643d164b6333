/-
# JSON values

The values of the JSON data format. Numbers written without fraction and exponent are integers
of any size, the others are binary floating-point numbers. The members of an object keep the
order in which their names first appear.

Two values are the same when they stand for the same data: a truth value counts as the number
zero or one, an integer equals a floating-point number of its value, and the order of the members
of an object does not matter.

Key definitions: `Json`, `Json.same`, `Json.isVacant`, `Json.member?`.
-/
import Sentential.Number

namespace Sentential

inductive Json
  | null
  | bool (b : Bool)
  | int (n : Int)
  | float (x : Binary64)
  | str (s : String)
  | arr (elements : List Json)
  | obj (members : List (String × Json))
  deriving Inhabited, Repr

namespace Json

/-- Sets a member: an existing name keeps its place and gets the new value, a new one comes last. -/
def setMember (name : String) (value : Json) : List (String × Json) → List (String × Json)
  | [] => [(name, value)]
  | (n, v) :: members =>
    if n = name then (n, value) :: members else (n, v) :: setMember name value members

/-- The members as an object holds them: of several with one name the last counts, at the place
of the first. -/
def mergeMembers (members : List (String × Json)) : List (String × Json) :=
  members.foldl (fun kept m => setMember m.1 m.2 kept) []

/-- The value of a member among the members of an object. -/
def memberOf? (members : List (String × Json)) (name : String) : Option Json :=
  (members.find? (·.1 = name)).map (·.2)

/-- The value of a member of an object; other values have no members. -/
def member? (j : Json) (name : String) : Option Json :=
  match j with
  | obj members => memberOf? members name
  | _ => none

/-- The whole number that a truth value or an integer stands for. -/
def whole? : Json → Option Int
  | bool b => some (if b then 1 else 0)
  | int n => some n
  | _ => none

/-- Equality of two values that are not containers. The value `nan` is taken to be one object,
so it equals itself. -/
def sameScalar (a b : Json) : Bool :=
  match a, b with
  | null, null => true
  | str s, str t => s == t
  | float x, float y => (x == .nan && y == .nan) || x.sameNumber y
  | float x, b => b.whole?.any x.isInteger
  | a, float y => a.whole?.any y.isInteger
  | a, b =>
    match a.whole?, b.whole? with
    | some m, some n => m == n
    | _, _ => false

mutual
/-- The two values stand for the same data, `nan` being equal to itself. -/
def sameData : Json → Json → Bool
  | arr xs, arr ys => sameElements xs ys
  | obj ms, obj ns => ms.length == ns.length && sameMembers ms ns
  | arr _, _ => false
  | obj _, _ => false
  | a, b => sameScalar a b

/-- The elements are the same, one by one. -/
def sameElements : List Json → List Json → Bool
  | [], [] => true
  | x :: xs, y :: ys => sameData x y && sameElements xs ys
  | _, _ => false

/-- Each of the first members has the same value among the second. -/
def sameMembers : List (String × Json) → List (String × Json) → Bool
  | [], _ => true
  | (name, v) :: ms, ns =>
    (match memberOf? ns name with
      | some w => sameData v w
      | none => false) && sameMembers ms ns
end

/-- The two values are equal. A bare `nan` equals nothing, although it equals itself as a part of
a container. -/
def same (a b : Json) : Bool :=
  match a, b with
  | float .nan, float .nan => false
  | a, b => sameData a b

mutual
/-- How deep containers that hold something are nested in a value. -/
def depth : Json → Nat
  | arr (x :: xs) => max (depth x) (depthOfElements xs) + 1
  | obj ((_, v) :: ms) => max (depth v) (depthOfMembers ms) + 1
  | _ => 0

/-- The depth of the deepest element. -/
def depthOfElements : List Json → Nat
  | [] => 0
  | x :: xs => max (depth x) (depthOfElements xs)

/-- The depth of the deepest member. -/
def depthOfMembers : List (String × Json) → Nat
  | [] => 0
  | (_, v) :: ms => max (depth v) (depthOfMembers ms)
end

/-- The value holds nothing: it is null, false, a zero, or an empty text or container. -/
def isVacant : Json → Bool
  | null => true
  | bool b => !b
  | int n => n == 0
  | float x => x.isInteger 0
  | str s => s == ""
  | arr xs => xs.isEmpty
  | obj ms => ms.isEmpty

end Json
end Sentential
