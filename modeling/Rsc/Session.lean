import Rsc.Program

/-!
# Sessions

An assembler that is used again and again. Its state is the table, the words and the listing of
the last run; all three are empty before the first run and after a run that failed.
-/

namespace Rsc

/-- The state of an assembler between runs. -/
structure Session where
  labels : LabelTable := []
  words : List Int := []
  listing : List Entry := []
  deriving DecidableEq, Repr

namespace Session

/-- Forgets the last run. -/
def clear (s : Session) : Session := { s with labels := [], words := [], listing := [] }

/-- Takes in a program, and its words apart. -/
def store (s : Session) (p : Program) : Session :=
  { s with labels := p.labels, listing := p.listing, words := p.words }

/-- One run: its outcome and the state it leaves. The state is cleared before anything else, so
that nothing of an earlier run is left when this one fails. -/
def run (s : Session) (raw : List Text) : Except Failure (List Int) × Session :=
  let cleared := s.clear
  match assemble raw with
  | .ok program =>
    let stored := cleared.store program
    (.ok stored.words, stored)
  | .error failure => (.error failure, cleared)

/-- Several runs in turn: each outcome with the state after it. -/
def runAll (s : Session) : List (List Text) → List (Except Failure (List Int) × Session)
  | [] => []
  | raw :: rest =>
    let step := s.run raw
    step :: step.2.runAll rest

end Session

end Rsc
