import Reckon.Text.Encoding

/-!
# Lines

A text is cut into lines at its newlines. A carriage return in front of a newline belongs to it; what
stands behind the last newline is a line unless it is empty.
-/

namespace Reckon.Text

/-- A line, given backwards, without the carriage return at its end. -/
def dropReturn : List Char → List Char
  | '\r' :: line => line
  | line => line

/-- The lines of a text behind `before`, the start of the first line backwards. -/
def linesFrom (before : List Char) : List Char → List (List Char)
  | [] => if before.isEmpty then [] else [before.reverse]
  | c :: cs =>
    if c = '\n' then (dropReturn before).reverse :: linesFrom [] cs else linesFrom (c :: before) cs

/-- The lines of a text, without their ends. -/
def lines (s : String) : List String := (linesFrom [] s.toList).map String.ofList

/-- Cuts bytes behind each newline, with `before`, the start of the first line backwards. -/
def cutBytesFrom (before : List UInt8) : List UInt8 → List (List UInt8)
  | [] => if before.isEmpty then [] else [before.reverse]
  | b :: bs =>
    if b = 10 then (b :: before).reverse :: cutBytesFrom [] bs else cutBytesFrom (b :: before) bs

/-- The lines of an input of bytes, each with its end and as text if it is one. -/
def inputLines (bytes : List UInt8) : List (Option String) := (cutBytesFrom [] bytes).map decode?

end Reckon.Text
