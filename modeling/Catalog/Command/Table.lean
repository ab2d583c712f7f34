import Catalog.Text.Split
import Catalog.Text.Width

/-!
Tables with two columns and a header. A cell may have several lines; a column is as wide as its
widest line.
-/

namespace Catalog

structure Table where
  header : String × String
  rows : List (String × String)

namespace Table

def cellLines (cell : String) : List String :=
  Text.split '\n' cell

def cellWidth (cell : String) : Nat :=
  ((cellLines cell).map Text.width).foldl max 0

def columnWidths (t : Table) : Nat × Nat :=
  let all := t.header :: t.rows
  ((all.map fun r => cellWidth r.1).foldl max 0, (all.map fun r => cellWidth r.2).foldl max 0)

def padded (width : Nat) (line : String) : String :=
  line ++ String.ofList (List.replicate (width - Text.width line) ' ')

/-- The lines of a row, where the cell with fewer lines is filled up with empty ones. -/
def rowLines (w : Nat × Nat) (row : String × String) : List String :=
  let left := cellLines row.1
  let right := cellLines row.2
  (List.range (max left.length right.length)).map fun i =>
    "│ " ++ padded w.1 (left.getD i "") ++ " ┆ " ++ padded w.2 (right.getD i "") ++ " │"

/-- A line across the table. -/
def rule (left fill middle right : Char) (w : Nat × Nat) : String :=
  String.ofList ([left] ++ List.replicate (w.1 + 2) fill ++ [middle] ++
    List.replicate (w.2 + 2) fill ++ [right])

/-- The lines of the rows, with a rule between each two. -/
def bodyLines (w : Nat × Nat) : List (String × String) → List String
  | [] => []
  | [row] => rowLines w row
  | row :: rows => rowLines w row ++ rule '├' '╌' '┼' '┤' w :: bodyLines w rows

def lines (t : Table) : List String :=
  let w := t.columnWidths
  rule '┌' '─' '┬' '┐' w :: rowLines w t.header ++ rule '╞' '═' '╪' '╡' w :: bodyLines w t.rows ++
    [rule '└' '─' '┴' '┘' w]

end Table
end Catalog
