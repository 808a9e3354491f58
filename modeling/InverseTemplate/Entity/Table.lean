/-
# Markdown tables

A table is a line of headers, a separating line, and a line for every row; bars separate the
cells of a line.  Reading drops the blanks around cells and the pieces between bars that are
entirely empty, so bars at the ends of a line are optional.  A row with too few cells is filled
up with empty ones, and cells beyond the headers are dropped.

Where a header occurs twice, a row holds it once, with the cell of its last column.
-/
import InverseTemplate.Entries
import InverseTemplate.Text.Blank

namespace InverseTemplate

/-- A table of texts. -/
structure Table where
  headers : List Text := []
  /-- The cells of each row by their headers. -/
  rows : List (Entries Text) := []
deriving DecidableEq

namespace Table

/-- The cells of a line. -/
def cells (line : Text) : List Text :=
  ((List.splitOn '|' line).filter fun piece => !piece.isEmpty).map Text.strip

/-- The row that cells make under the headers. -/
def row (headers cells : List Text) : Entries Text :=
  Entries.ofWrites (headers.zipIdx.map fun (header, index) => (header, cells.getD index []))

/-- The lines of a text that are not blank. -/
def contentLines (content : Text) : List Text :=
  (List.splitOn '\n' (Text.strip content)).filter fun line => !(Text.strip line).isEmpty

/-- The table that lines spell; fewer than two lines spell the empty one. -/
def ofLines : List Text → Table
  | first :: _ :: more =>
      let headers := cells first
      ⟨headers, more.map fun line => row headers (cells line)⟩
  | _ => {}

/-- The table that a text spells. -/
def ofText (content : Text) : Table := ofLines (contentLines content)

/-! ## Writing -/

/-- A line of cells. -/
def line (cells : List Text) : Text := text "| " ++ List.intercalate (text " | ") cells ++ text " |"

/-- The line between the headers and the rows. -/
def separator (width : Nat) : Text :=
  '|' :: List.intercalate ['|'] (List.replicate width (text "---")) ++ ['|']

/-- The text of a table with the given columns and rows of cells. -/
def written (columns : List Text) (rows : List (List Text)) : Text :=
  List.intercalate ['\n'] (line columns :: separator columns.length :: rows.map line)

end Table

end InverseTemplate
