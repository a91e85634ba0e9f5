import VisitGraph.Fault
import VisitGraph.Route
import VisitGraph.Text.Lines

/-! Files and folders as seen by a program: what can be asked for, what can be in the way, and how
text is read and written. -/

namespace VisitGraph

/-- Why something cannot be done with a file or folder. -/
inductive Obstacle where
  | missing
  | occupied
  | notFolder
  | isFolder
  | tooLong
  | zeroCharacter
  deriving DecidableEq, Repr

/-- The number of an obstacle. A route with a zero character is refused before it is tried, without
a number. -/
def Obstacle.code? : Obstacle → Option Nat
  | missing => some 2
  | occupied => some 17
  | notFolder => some 20
  | isFolder => some 21
  | tooLong => some 36
  | zeroCharacter => none

/-- An obstacle in words. -/
def Obstacle.description : Obstacle → String
  | missing => "No such file or directory"
  | occupied => "File exists"
  | notFolder => "Not a directory"
  | isFolder => "Is a directory"
  | tooLong => "File name too long"
  | zeroCharacter => "embedded null byte"

/-- An obstacle and the route on which it was met. -/
structure Blockage where
  obstacle : Obstacle
  route : Route
  deriving DecidableEq, Repr

/-- A blockage in one line: number, words, and where, or the words alone if there is no number. -/
def Blockage.message (b : Blockage) : String :=
  match b.obstacle.code? with
  | some code => s!"[Errno {code}] {b.obstacle.description}: {inQuotes b.route.toString}"
  | none => b.obstacle.description

/-- What a route may lead to. -/
inductive Disk.Kind where
  | file
  | folder
  deriving DecidableEq, Repr

/-- A place that keeps files and folders. -/
class Disk (m : Type → Type) where
  /-- What a route leads to. -/
  kind : Route → m (Except Obstacle Disk.Kind)
  /-- The content of a file. -/
  read : Route → m (Except Obstacle (List UInt8))
  /-- Opens a file for writing, which empties it, or makes it if it is missing in its folder. -/
  clear : Route → m (Except Obstacle Unit)
  /-- Gives a file that has been opened its content. -/
  fill : Route → List UInt8 → m (Except Obstacle Unit)
  /-- Makes one folder. -/
  makeFolder : Route → m (Except Obstacle Unit)

namespace Disk

variable {m : Type → Type} [Monad m] [Disk m]

/-- Whether a route leads to a file or a folder. Of a route that is too long this cannot be told. -/
def present (r : Route) : m (Except Obstacle Bool) := do
  match ← kind r with
  | .ok _ => return .ok true
  | .error .tooLong => return .error .tooLong
  | .error _ => return .ok false

/-- Whether a route leads to a folder. -/
def isFolder (r : Route) : m Bool := do
  return (← kind r).toOption == some .folder

/-- The outcome of making a folder, where a folder that is there already is as good as a new
one. -/
def settle (r : Route) : Except Obstacle Unit → m (Except Blockage Unit)
  | .ok () => return .ok ()
  | .error obstacle => do
    if ← isFolder r then return .ok () else return .error ⟨obstacle, r⟩

/-- Makes a folder and, before it, what is missing on the way, up to so many levels above it. -/
def makeFoldersUpTo (levels : Nat) (r : Route) : m (Except Blockage Unit) := do
  match ← makeFolder r, levels with
  | .error .missing, 0 => return .error ⟨.missing, r⟩
  | .error .missing, levels + 1 =>
    match ← makeFoldersUpTo levels r.parent with
    | .ok () => settle r (← makeFolder r)
    | .error blockage => return .error blockage
  | outcome, _ => settle r outcome

/-- Makes a folder and, before it, whatever is missing on the way. -/
def makeFolders (r : Route) : m (Except Blockage Unit) :=
  makeFoldersUpTo r.parts.length r

/-- Writes a text, making the folder of the file first. The file has lost what it held before any of
the text is in it. -/
def writeText (r : Route) (text : String) : m (Except Blockage Unit) := do
  match ← makeFolders r.parent with
  | .error blockage => return .error blockage
  | .ok () =>
    match ← clear r with
    | .error obstacle => return .error ⟨obstacle, r⟩
    | .ok () =>
      match ← fill r (Text.Utf8.encode text) with
      | .error obstacle => return .error ⟨obstacle, r⟩
      | .ok () => return .ok ()

end Disk

/-- The text of a file's content, with line feeds as its only newlines. -/
def textOfBytes (bytes : List UInt8) : Except Fault String :=
  match Text.Utf8.decode bytes with
  | .ok text => .ok (String.ofList (Text.unifyNewlines text))
  | .error defect => .error (.notUtf8 defect)

end VisitGraph
