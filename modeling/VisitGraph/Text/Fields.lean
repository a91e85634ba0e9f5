import VisitGraph.Text.Blank

/-! Cutting a line into three fields at a separator. The separator may occur inside a field, so a
line can have several cuts; the one with the longest first field is used, and among those the one
with the longest second field. -/

namespace VisitGraph.Text

/-- All ways to read a blank-free field, not empty, then the separator, then a rest. The longest
field comes first. -/
def cuts (separator : List Char) : List Char → List (List Char × List Char)
  | [] => []
  | c :: text =>
    if isBlank c then []
    else
      (cuts separator text).map (fun (field, rest) => (c :: field, rest)) ++
        ((separator.isPrefixOf? text).map fun rest => ([c], rest)).toList

/-- Whether the text can be a field. -/
def isField (text : List Char) : Bool :=
  !text.isEmpty && !text.any isBlank

/-- The three fields of a line. -/
def fields? (separator line : List Char) : Option (List Char × List Char × List Char) :=
  (cuts separator line).findSome? fun (first, rest) =>
    ((cuts separator rest).find? fun (_, third) => isField third).map fun (second, third) =>
      (first, second, third)

end VisitGraph.Text
