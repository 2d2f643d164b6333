/-
# Showing an analysis

The command prints by means of a console, which is not part of this library: it may colour a text,
break its lines and turn short codes in it into pictures. The console is therefore a parameter.
It reads markup, tags in square brackets, in the cells of a table; other texts are escaped before
they are printed, but for the path in the message that a file is missing. So a table may fail to be
printed, for a tag that closes nothing or for a value that is no text.

A simple console that reads no markup serves where one is needed. It drops the control characters
that a terminal would act on and fills tabs up to the next column that is a multiple of eight. It
draws a table with box characters, heavy ones around the headers and light ones around the rows; a
column is as wide as its widest cell and has a space on both sides, and cells lose the blanks at
their end and are centred, an odd space going to the right.

One text is analysed and the result printed, either as a report in JSON or for reading: a problem
with a mark under its place, or the formula and its table. The result also says whether all went
well.

Key definitions: `CommandLine.Console`, `Box.draw`, `CommandLine.Console.plain`,
`CommandLine.Shown`, `CommandLine.showAnalysis`, `CommandLine.display`.
-/
import Sentential.Report

namespace Sentential

/-! ### Drawing tables -/

namespace Box

/-- The characters of a border line: its left end, its fill, its crossings and its right end. -/
structure Border where
  left : Char
  fill : Char
  cross : Char
  right : Char

/-- The line above the headers. -/
def top : Border := ⟨'┏', '━', '┳', '┓'⟩

/-- The line between the headers and the rows. -/
def middle : Border := ⟨'┡', '━', '╇', '┩'⟩

/-- The line below the rows. -/
def bottom : Border := ⟨'└', '─', '┴', '┘'⟩

/-- A text without the blanks at its end. -/
def dropEnd (cs : List Char) : List Char := (cs.reverse.dropWhile Text.isBlank).reverse

/-- A cell in the middle of a column. -/
def centre (width : Nat) (cell : String) : List Char :=
  let cs := dropEnd cell.toList
  let space := width - cs.length
  List.replicate (space / 2) ' ' ++ cs ++ List.replicate (space - space / 2) ' '

/-- Puts a character between the parts of a line. -/
def between (c : Char) : List (List Char) → List Char
  | [] => []
  | [part] => part
  | part :: parts => part ++ c :: between c parts

/-- A border line for columns of the given widths. -/
def borderLine (b : Border) (widths : List Nat) : List Char :=
  b.left :: between b.cross (widths.map fun w => List.replicate (w + 2) b.fill) ++ [b.right, '\n']

/-- A line of cells, with `bar` around and between them. -/
def cellLine (bar : Char) (widths : List Nat) (cells : List String) : List Char :=
  bar :: between bar (List.zipWith (fun w cell => ' ' :: centre w cell ++ [' ']) widths cells) ++
    [bar, '\n']

def widths (headers : List String) (rows : List (List String)) : List Nat :=
  rows.foldl (fun ws row => List.zipWith (fun w cell => max w cell.length) ws row)
    (headers.map String.length)

/-- The drawing of a table. -/
def draw (headers : List String) (rows : List (List String)) : String :=
  let ws := widths headers rows
  String.ofList
    (borderLine top ws ++ cellLine '┃' ws headers ++ borderLine middle ws ++
      rows.flatMap (cellLine '│' ws) ++ borderLine bottom ws)

end Box

namespace CommandLine

/-! ### Consoles -/

/-- What a console says if it cannot print something. -/
structure Unprintable where
  message : String
  deriving DecidableEq, Repr

/-- A console: what comes out of it for what it is given to print. -/
structure Console where
  /-- A line of text, in which markup has been escaped; it can always be printed. -/
  line : String → String
  /-- A line of text, in which markup is read. -/
  markupLine : String → Except Unprintable String
  /-- A table with its headers, in which markup has been escaped, and its rows. The cells are any
  values; in those that are texts, markup is read. -/
  table : List String → List (List Json) → Except Unprintable String
  /-- The lines that the debug log gets at a moment. The first moment is when the settings are
  known, and each text that is analysed is one more. The lines tell the time, so they do not follow
  from what is logged. -/
  log : Nat → String

/-- The control characters that are not printed: bell, backspace, vertical tab, form feed and
carriage return. -/
def isDropped (c : Char) : Bool :=
  let n := c.toNat
  n == 7 || n == 8 || n == 11 || n == 12 || n == 13

/-- Replaces tabs by spaces; `column` is the place in the line. -/
def expandTabs (column : Nat) : List Char → List Char
  | [] => []
  | '\n' :: cs => '\n' :: expandTabs 0 cs
  | '\t' :: cs =>
    let width := 8 - column % 8
    List.replicate width ' ' ++ expandTabs (column + width) cs
  | c :: cs => c :: expandTabs (column + 1) cs

/-- A text on a line of its own. -/
def plainLine (s : String) : String :=
  String.ofList (expandTabs 0 (s.toList.filter fun c => !isDropped c)) ++ "\n"

/-- The text in a cell, which null leaves empty. -/
def cellText : Json → Except Unprintable String
  | .str text => .ok text
  | .null => .ok ""
  | value =>
    .error ⟨"unable to render " ++ value.kindName ++
      "; a string or other renderable object is required"⟩

/-- The texts in the cells of some rows. -/
def cellTexts (rows : List (List Json)) : Except Unprintable (List (List String)) :=
  rows.mapM fun row => row.mapM cellText

/-- A console that reads no markup, breaks no line and keeps no log. -/
def Console.plain : Console where
  line := plainLine
  markupLine s := .ok (plainLine s)
  table headers rows := (cellTexts rows).map (Box.draw headers)
  log _ := ""

/-! ### What is shown -/

/-- What is printed for a text, and whether the text was accepted. -/
structure Shown where
  output : String
  success : Bool
  deriving DecidableEq, Repr

variable (c : Console)

/-- The line that announces a problem. -/
def problemLine (message : String) : String := c.line ("❌ " ++ message)

/-- A rejection: the problem, the text and a mark under the place of the problem. -/
def showRejection (text message : String) (position : Nat) : String :=
  problemLine c message ++ c.line ("   " ++ text) ++
    c.line ("   " ++ String.ofList (List.replicate position ' ') ++ "^")

/-- The result of an analysis for reading. -/
def showAnalysis (s : Settings) (a : Analysis) : Except Unprintable Shown :=
  match a.verdict with
  | .rejected problem position =>
    .ok ⟨showRejection c a.text (problem.message position) position, false⟩
  | .accepted =>
    if a.isEmpty then .ok ⟨c.line "Nothing to render.", true⟩
    else do
      let sheet := Report.Sheet.ofTable (a.table.getD ⟨s.style, [], []⟩)
      let table ← c.table sheet.headers (sheet.rows.map fun row => row.map s.glyph)
      return ⟨c.line ("Formula: " ++ a.preview) ++ table, true⟩

/-- Analyses a text and shows the result. -/
def display (s : Settings) (json : Bool) (text : String) : Except Unprintable Shown :=
  match Analysis.ofText s text with
  | .error e => .ok ⟨problemLine c e.message, false⟩
  | .ok a =>
    if json then
      .ok ⟨(Report.ofAnalysis a).toJson.pretty ++ "\n", a.verdict.isAccepted⟩
    else showAnalysis c s a

end CommandLine
end Sentential
