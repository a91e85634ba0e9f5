import VisitGraph.Command
import VisitGraph.Proofs.Disk.Simulation

/-! # A run in two places

What a run does in one place that keeps files, it does in every other place that answers its
requests alike. -/

namespace VisitGraph.Simulation

open Command

variable {m n : Type → Type} [Monad m] [Monad n] [Disk m] [Disk n] (S : Simulation m n)

theorem checkInput (r : Route) : S.Rel (Command.checkInput r) (Command.checkInput r) := by
  refine S.ofBind (S.present r) ?_
  rintro (obstacle | present)
  · exact S.ofPure _
  · cases present <;> exact S.ofPure _

theorem checkInputs (s : Settings) : S.Rel (Command.checkInputs s) (Command.checkInputs s) := by
  refine S.ofBind (S.checkInput s.functions) ?_
  rintro (outcome | _)
  · exact S.ofPure _
  · cases s.trace? with
    | none => exact S.ofPure _
    | some trace => exact S.ofBind (S.checkInput trace) fun _ => S.ofPure _

theorem readInput (r : Route) : S.Rel (Command.readInput r) (Command.readInput r) := by
  refine S.ofBind (S.read r) ?_
  rintro (obstacle | bytes) <;> exact S.ofPure _

theorem readInputs (functions trace : Route) :
    S.Rel (Command.readInputs functions trace) (Command.readInputs functions trace) := by
  refine S.ofBind (S.readInput functions) ?_
  rintro (outcome | listing)
  · exact S.ofPure _
  · exact S.ofBind (S.readInput trace) fun _ => S.ofPure _

theorem writeFiles (files : List (Route × String)) :
    S.Rel (Command.writeFiles files) (Command.writeFiles files) := by
  induction files with
  | nil => exact S.ofPure _
  | cons file files ih =>
      refine S.ofBind (S.writeText file.1 file.2) ?_
      rintro (blockage | _)
      · exact S.ofPure _
      · exact ih

theorem writeOutputs (s : Settings) (d : Destinations) (story : List Notice) (a : Analysis) :
    S.Rel (Command.writeOutputs s d story a) (Command.writeOutputs s d story a) := by
  rw [Command.writeOutputs, Command.writeOutputs]
  cases a.outputs with
  | error fault => exact S.ofPure _
  | ok outputs =>
      refine S.ofBind (S.writeFiles _) ?_
      rintro (blockage | _) <;> exact S.ofPure _

theorem runOn (s : Settings) (trace : Route) :
    S.Rel (Command.runOn s trace) (Command.runOn s trace) := by
  refine S.ofBind (S.readInputs s.functions trace) ?_
  rintro (outcome | ⟨listing, samples⟩)
  · exact S.ofPure _
  · dsimp only
    cases Analysis.ofTexts s.graphName s.separator listing samples with
    | error fault => exact S.ofPure _
    | ok a => exact S.writeOutputs s _ _ a

theorem runWith (s : Settings) : S.Rel (Command.runWith s) (Command.runWith s) := by
  refine S.ofBind (S.checkInputs s) ?_
  rintro (outcome | trace)
  · exact S.ofPure _
  · exact S.runOn s trace

theorem run (arguments : List String) : S.Rel (Command.run arguments) (Command.run arguments) := by
  rw [Command.run, Command.run]
  cases Arguments.read arguments with
  | error usage => cases usage <;> exact S.ofPure _
  | ok s => exact S.runWith s

end VisitGraph.Simulation
