import StaticCheck.Diagnostic
import StaticCheck.Text

/-! # Diagnostics with the source lines they are about

A label is drawn under the source text it covers.  A label within one line is underlined.  A label
over several lines is drawn as a bracket to their left; of its lines the first four and the last two
are shown, and a row of dots stands for the others if they are at least two.

Columns are counted in cells of the screen: a tab reaches to the next multiple of four, other
control characters take no cell, and every other character takes one. -/

namespace StaticCheck

namespace Snippet

/-! ### Lines -/

/-- A line of a source text. -/
structure Line where
  /-- The number of the line, counted from one. -/
  number : Nat
  /-- The offset at which the line starts. -/
  start : Nat
  /-- The characters of the line, its end left out. -/
  chars : List Char
deriving DecidableEq

/-- Numbers lines and places them one after the other. -/
def placeLines (number start : Nat) : List (List Char) → List Line
  | [] => []
  | chars :: rest =>
    ⟨number, start, chars⟩ :: placeLines (number + 1) (start + byteLength chars + 1) rest

/-- The lines of a source text.  There is always at least one. -/
def lines (source : List Char) : List Line := placeLines 1 0 (splitAtChar '\n' source)

/-- The line that contains an offset: the last one that starts at or before it. -/
def lineAt (source : List Char) (offset : Nat) : Line :=
  ((lines source).filter fun line => decide (line.start ≤ offset)).getLastD ⟨1, 0, []⟩

/-- The part of a line that is shown: carriage returns and null characters at its end are not. -/
def Line.text (line : Line) : List Char :=
  (line.chars.reverse.dropWhile fun c => c = '\r' || c = '\x00').reverse

/-! ### Cells -/

/-- A character with its byte offset in the line and the number of cells it takes. -/
structure Cell where
  char : Char
  offset : Nat
  width : Nat
deriving DecidableEq

/-- Whether a character is shown as nothing. -/
def isControl (c : Char) : Bool := c.toNat < 0x20 || (0x7f ≤ c.toNat && c.toNat < 0xa0)

/-- The number of cells a character takes at a column. -/
def widthAt (column : Nat) (c : Char) : Nat :=
  if c = '\t' then 4 - column % 4 else if isControl c then 0 else 1

/-- Places characters one after the other. -/
def placeCells (offset column : Nat) : List Char → List Cell
  | [] => []
  | c :: rest =>
    ⟨c, offset, widthAt column c⟩ ::
      placeCells (offset + c.utf8Size) (column + widthAt column c) rest

def Line.cells (line : Line) : List Cell := placeCells 0 0 line.text

def times (count : Nat) (c : Char) : String := String.ofList (List.replicate count c)

/-- The text of a line on the screen. -/
def Line.display (line : Line) : String :=
  String.join (line.cells.map fun cell =>
    if cell.char = '\t' then times cell.width ' ' else String.singleton cell.char)

/-- The cells before or at a place, drawn as a horizontal rule. -/
def rule (cells : List Cell) : String :=
  String.join (cells.map fun cell => times cell.width '─')

/-! ### Rows -/

/-- The blank margin in front of rows without a line number. -/
def margin (digits : Nat) : String := times (digits + 1) ' '

/-- The number of a line, aligned to the right. -/
def numberColumn (digits : Nat) (line : Line) : String :=
  let text := toString line.number
  times (digits - text.length) ' ' ++ text

/-- A label's remark behind its mark. -/
def remark (message : String) : String := if message.isEmpty then "" else " " ++ message

/-- The underline of the bytes from `a` up to `b` of a line.  One more place behind the text can be
underlined, for what stands at the end of the line. -/
def underline (line : Line) (a b : Nat) : String :=
  let placeholder : Cell := ⟨' ', byteLength line.text, 1⟩
  String.join ((line.cells ++ [placeholder]).map fun cell =>
    if cell.offset < b ∧ a < cell.offset + cell.char.utf8Size then times cell.width '^'
    else if cell.offset < b then times cell.width ' '
    else "")

/-- The rows of a label within one line. -/
def singleRows (digits : Nat) (line : Line) (label : Label) : List String :=
  let a := label.span.start - line.start
  let b := max (label.span.stop - line.start) (a + 1)
  [margin digits ++ "│",
    numberColumn digits line ++ " │ " ++ line.display,
    margin digits ++ "│ " ++ underline line a b ++ remark label.message]

/-- The rows of the first line of a label over several lines.  The bracket opens beside the line if
nothing but blanks stand before the label, and under it otherwise. -/
def openingRows (digits : Nat) (line : Line) (start : Nat) : List String :=
  let before := line.cells.filter fun cell => decide (cell.offset < start)
  let number := numberColumn digits line
  if before.all fun cell => isBlank cell.char then [number ++ " │ ╭ " ++ line.display]
  else
    let reached := line.cells.filter fun cell => decide (cell.offset ≤ start)
    [number ++ " │   " ++ line.display, margin digits ++ "│ ╭" ++ rule reached ++ "^"]

/-- The row of a line inside the bracket. -/
def innerRow (digits : Nat) (line : Line) : String :=
  numberColumn digits line ++ " │ │ " ++ line.display

/-- The rows of the lines strictly between the first and the last one. -/
def innerRows (digits : Nat) (inner : List Line) : List String :=
  if inner.length ≤ 5 then inner.map (innerRow digits)
  else
    (inner.take 3).map (innerRow digits) ++ [margin digits ++ "· │"] ++
      (inner.drop (inner.length - 1)).map (innerRow digits)

/-- The row that closes the bracket. -/
def closingRow (digits : Nat) (line : Line) (stop : Nat) (message : String) : String :=
  let covered := line.cells.filter fun cell => decide (cell.offset < stop)
  margin digits ++ "│ ╰" ++ rule covered ++ "^" ++ remark message

/-- The rows of a label over several lines. -/
def multiRows (digits : Nat) (source : List Char) (first last : Line) (label : Label) :
    List String :=
  let inner := (lines source).filter fun line =>
    decide (first.number < line.number ∧ line.number < last.number)
  [margin digits ++ "│  "] ++ openingRows digits first (label.span.start - first.start) ++
    innerRows digits inner ++
    [innerRow digits last, closingRow digits last (label.span.stop - last.start) label.message]

/-- The rows of a label in a source text. -/
def labelRows (path : String) (source : List Char) (label : Label) : List String :=
  let first := lineAt source label.span.start
  let last := lineAt source label.span.stop
  let digits := (toString last.number).length
  let before := (placeCells 0 0 first.chars).filter fun cell =>
    decide (first.start + cell.offset < label.span.start)
  let column := before.length + 1
  let place := path ++ ":" ++ toString first.number ++ ":" ++ toString column
  let rows :=
    if first.number = last.number then singleRows digits first label
    else multiRows digits source first last label
  (margin digits ++ "┌─ " ++ place) :: rows

end Snippet

/-- The lines under which a diagnostic is shown, with the source text it is about. -/
def Diagnostic.rows (d : Diagnostic) (path source : String) : List String :=
  ("error: " ++ d.message) ::
    d.labels.flatMap (fun label => Snippet.labelRows path source.toList label) ++ [""]

end StaticCheck
