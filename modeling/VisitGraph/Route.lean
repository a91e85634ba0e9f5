/-! Routes through a tree of folders, kept without empty and neutral parts. -/

namespace VisitGraph

/-- Where a route begins: in the current folder, or at the root, which may also be written with
two slashes. -/
inductive Anchor where
  | here
  | root
  | doubleRoot
  deriving DecidableEq, Repr

namespace Anchor

/-- How an anchor is written. -/
def text : Anchor → String
  | here => ""
  | root => "/"
  | doubleRoot => "//"

/-- The anchor of a text with so many slashes in front: more than two count as one. -/
def ofSlashes : Nat → Anchor
  | 0 => here
  | 2 => doubleRoot
  | _ => root

end Anchor

/-- An anchor and the parts after it. A part `..` leads to the folder above. -/
structure Route where
  anchor : Anchor
  parts : List String
  deriving DecidableEq, Repr

namespace Route

/-- The parts between slashes. -/
def splitParts (text : List Char) : List (List Char) :=
  text.foldr (fun c parts => if c = '/' then [] :: parts
    else match parts with
      | [] => [[c]]
      | part :: rest => (c :: part) :: rest) [[]]

/-- Reads a route, dropping the parts that are empty or a single point. -/
def ofString (text : String) : Route :=
  let cs := text.toList
  let parts := (splitParts cs).map String.ofList
  ⟨.ofSlashes (cs.takeWhile (· = '/')).length, parts.filter fun part => part ≠ "" ∧ part ≠ "."⟩

/-- The route that leads nowhere is written as a point. -/
def toString (r : Route) : String :=
  if r.anchor = .here ∧ r.parts = [] then "."
  else r.anchor.text ++ "/".intercalate r.parts

/-- The route without its last part. -/
def parent (r : Route) : Route :=
  { r with parts := r.parts.dropLast }

/-- The route with a part more. -/
def child (r : Route) (part : String) : Route :=
  { r with parts := r.parts ++ [part] }

end VisitGraph.Route
