import Templating.Text.Blank

/-!
# Blank lines

`compactLines` only touches the line structure of a text: it strips the blanks at the end of
every line, writes each run of empty lines as one empty line and leaves none at the start or the
end. What stands within a line is never changed.
-/

namespace Templating.Source

open Templating.Text

/-- The lines of a text, each without the blanks at its end. The last line is the text behind the
last line feed. -/
def strippedLines (text : List Char) : List (List Char) :=
  (text.splitOn '\n').map (dropTail isBlank)

/-- Joins the lines that are not empty; `started` says that a line has been written, and
`gap` that an empty line stands in front. -/
def joinLines (started gap : Bool) : List (List Char) → List Char
  | [] => []
  | line :: rest =>
    if line.isEmpty then
      joinLines started true rest
    else
      (if started then (if gap then ['\n', '\n'] else ['\n']) else []) ++ line ++
        joinLines true false rest

/-- Strips line ends and keeps at most one empty line between two lines. -/
def compactLines (text : List Char) : List Char :=
  joinLines false false (strippedLines text)

end Templating.Source
