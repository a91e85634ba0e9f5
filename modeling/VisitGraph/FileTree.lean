import VisitGraph.Disk
import VisitGraph.Roster

/-! A tree of files and folders as a value. There are no links in it, nothing is forbidden, and
there is room for everything, so that a file that could be opened is always written to its end. -/

namespace VisitGraph

/-- What stands at a place in the tree. -/
inductive Item where
  | folder
  | file (content : List UInt8)
  deriving DecidableEq, Repr

/-- Whether an item is a file or a folder. -/
def Item.kind : Item → Disk.Kind
  | folder => .folder
  | file _ => .file

/-- The items by their places below the root, and the place from which relative routes lead. The
root itself is always a folder. -/
structure FileTree where
  here : List String
  items : Roster (List String) Item
  deriving DecidableEq, Repr

namespace FileTree

/-- The item at a place. -/
def item? (t : FileTree) (place : List String) : Option Item :=
  if place = [] then some .folder else t.items.get? place

/-- Puts an item at a place. -/
def put (t : FileTree) (place : List String) (i : Item) : FileTree :=
  { t with items := t.items.put place i }

/-- The most bytes that a name may have. -/
def nameLimit : Nat := 255

/-- The most bytes that a written route may have. -/
def routeLimit : Nat := 4095

/-- Goes on from a place. Every step starts in a folder and takes a name that is not too long; the
last one may lead to nothing. -/
def follow (t : FileTree) (place : List String) : List String → Except Obstacle (List String)
  | [] => .ok place
  | part :: rest =>
    match t.item? place with
    | none => .error .missing
    | some (.file _) => .error .notFolder
    | some .folder =>
      if nameLimit < part.utf8ByteSize then .error .tooLong
      else follow t (if part = ".." then place.dropLast else place ++ [part]) rest

/-- The place to which a route leads. The whole route is looked at before it is followed. -/
def locate (t : FileTree) (r : Route) : Except Obstacle (List String) :=
  if r.parts.any (·.toList.contains '\x00') then .error .zeroCharacter
  else if routeLimit < r.toString.utf8ByteSize then .error .tooLong
  else t.follow (if r.anchor = .here then t.here else []) r.parts

/-- What stands where a route leads. -/
def kind (t : FileTree) (r : Route) : Except Obstacle Disk.Kind := do
  match t.item? (← t.locate r) with
  | none => throw .missing
  | some i => return i.kind

/-- The content of the file to which a route leads. -/
def read (t : FileTree) (r : Route) : Except Obstacle (List UInt8) := do
  match t.item? (← t.locate r) with
  | none => throw .missing
  | some .folder => throw .isFolder
  | some (.file content) => return content

/-- The tree with a file of the given content where a route leads. -/
def write (t : FileTree) (r : Route) (content : List UInt8) : Except Obstacle FileTree := do
  let place ← t.locate r
  match t.item? place with
  | some .folder => throw .isFolder
  | _ => return t.put place (.file content)

/-- The tree with a new folder where a route leads. -/
def makeFolder (t : FileTree) (r : Route) : Except Obstacle FileTree := do
  let place ← t.locate r
  match t.item? place with
  | some _ => throw .occupied
  | none => return t.put place .folder

/-- A single step, which leaves the tree as it is when it fails. -/
def change (f : FileTree → Except Obstacle FileTree) : StateM FileTree (Except Obstacle Unit) :=
  fun t =>
    match f t with
    | .ok t' => (.ok (), t')
    | .error obstacle => (.error obstacle, t)

/-- The tree as a place that keeps files and folders. -/
instance : Disk (StateM FileTree) where
  kind r := do return (← get).kind r
  read r := do return (← get).read r
  clear r := change (·.write r [])
  fill r content := change (·.write r content)
  makeFolder r := change (·.makeFolder r)

end VisitGraph.FileTree
