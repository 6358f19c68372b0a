import Rsc.Command.Run

/-!
# The command line

Carries out the command on real files and streams.
-/

namespace Rsc.Main

open Rsc.Command

/-- The fault that a failed file operation amounts to. -/
def faultOf : IO.Error → FileFault
  | .noFileOrDirectory .. => .notFound
  | .inappropriateType _ code _ => if code = 21 then .isDirectory else .notDirectory
  | .invalidArgument .. => .nameTooLong
  | _ => .permissionDenied

/-- A file operation on a path, which may not hold a zero character. -/
def attempt {α : Type} (path : Text) (action : String → IO α) : IO (Except FileFault α) := do
  if path.contains (Char.ofNat 0) then return .error .embeddedNul
  try
    return .ok (← action (String.ofList path))
  catch e => return .error (faultOf e)

/-- Prints what a run shows and gives its status. -/
def report (outcome : Outcome) : IO UInt32 := do
  let stdout ← IO.getStdout
  stdout.write ⟨outcome.stdout.toArray⟩
  stdout.flush
  (← IO.getStderr).putStr (String.ofList outcome.stderr)
  return UInt32.ofNat outcome.status

/-- Carries out an effect on real files. -/
def perform : Effect → IO UInt32
  | .finish outcome => report outcome
  | .store path contents stored refused => do
    match ← attempt path fun p => IO.FS.writeBinFile p ⟨contents.toArray⟩ with
    | .ok () => report stored
    | .error fault => report (refused fault)

end Rsc.Main

/-- The assembler. -/
def main (arguments : List String) : IO UInt32 := do
  match (Rsc.Command.Plan.ofArguments (arguments.map String.toList)).outcome with
  | .inl outcome => Rsc.Main.report outcome
  | .inr request =>
    let input ← Rsc.Main.attempt request.inputPath fun p => do
      return (← IO.FS.readBinFile p).toList
    Rsc.Main.perform (request.effect input)
