import VisitGraph.Command

/-! The program: runs the command on the files of the machine. -/

namespace VisitGraph

/-- The obstacle that an error of the machine stands for, if it is one. -/
def obstacle? : IO.Error → Option Obstacle
  | .noFileOrDirectory .. => some .missing
  | .alreadyExists .. => some .occupied
  | .inappropriateType _ code _ =>
    some (if some code.toNat = Obstacle.notFolder.code? then .notFolder else .isFolder)
  | .invalidArgument _ code _ =>
    some (if some code.toNat = Obstacle.tooLong.code? then .tooLong else .zeroCharacter)
  | _ => none

/-- Does something with files. What is no obstacle remains an error. -/
def attempt {α : Type} (action : IO α) : IO (Except Obstacle α) := do
  try
    return .ok (← action)
  catch e =>
    match obstacle? e with
    | some obstacle => return .error obstacle
    | none => throw e

/-- The files of the machine. A route without a real path is opened, which tells the reason. -/
instance : Disk IO where
  kind r := attempt do
    match ← attempt (IO.FS.realPath r.toString) with
    | .ok place => return if ← place.isDir then .folder else .file
    | .error _ => IO.FS.withFile r.toString .read fun _ => return .file
  read r := attempt do return (← IO.FS.readBinFile r.toString).data.toList
  clear r := attempt (IO.FS.writeBinFile r.toString .empty)
  fill r content := attempt (IO.FS.writeBinFile r.toString ⟨content.toArray⟩)
  makeFolder r := attempt (IO.FS.createDir r.toString)

/-- A number of milliseconds as seconds with two places. -/
def secondsText (milliseconds : Nat) : String :=
  let n := Numeric.roundDiv milliseconds 10
  let places := toString (n % 100)
  s!"{n / 100}." ++ (if places.length < 2 then "0" else "") ++ places

end VisitGraph

open VisitGraph in
/-- Prints what a run comes to: notices and complaints on standard error, results on standard
output. -/
def main (arguments : List String) : IO UInt32 := do
  let begun ← IO.monoMsNow
  let ending : Command.Ending ← Command.run arguments
  for notice in ending.notices do
    IO.eprintln notice.line
  match ending.outcome with
  | .help =>
    IO.println Arguments.usage
    return 0
  | .misuse =>
    IO.eprintln Arguments.usage
    return 2
  | .refused message =>
    IO.eprintln message
    return 1
  | .noTrace =>
    IO.eprintln Arguments.usage
    return 1
  | .blocked blockage =>
    IO.eprintln blockage.message
    return 1
  | .done lines =>
    for line in lines do
      IO.println line
    let ended ← IO.monoMsNow
    let elapsed := secondsText (ended - begun)
    IO.println s!"total execution time: {elapsed}s"
    return 0
