import Rsc.Command.Run
import Rsc.Proofs.FileSystems
import Rsc.Proofs.Rendering
import Rsc.Proofs.Sessions

/-!
# Runs of the command

A run ends in one of a few ways, told apart by the arguments and the files it starts from. All but
opening the output file is decided before anything is written, and a program that assembles can be
rendered in every format. So a run that fails changes nothing, and a run that does not fail prints
or stores the same bytes, depending only on the program and the format.
-/

namespace Rsc

/-! ## Statuses of failed runs -/

/-- The status of a run that cannot open a file. -/
def FileFault.status : FileFault → Nat
  | .embeddedNul => 2
  | _ => 1

/-- The status of a run whose program fails. -/
def Failure.status : Failure → Nat
  | .reported _ => 1
  | .broken _ => 2

/-- The status of a run whose input gives no program. -/
def FileFailure.status : FileFailure → Nat
  | .malformed _ => 1
  | .program failure => failure.status

theorem FileFault.status_ne_zero (fault : FileFault) : fault.status ≠ 0 := by
  cases fault <;> decide

theorem FileFailure.status_ne_zero (failure : FileFailure) : failure.status ≠ 0 := by
  rcases failure with reason | (diagnostic | fault) <;> simp [status, Failure.status]

namespace Command

/-- An outcome with the given status and nothing on standard output. -/
def Outcome.Refuses (outcome : Outcome) (status : Nat) : Prop :=
  outcome.status = status ∧ outcome.stdout = []

theorem refuses_refuseFile (verbosity : Nat) (records path : Text) (fault : FileFault) :
    (refuseFile verbosity records path fault).Refuses fault.status := by
  cases fault <;> exact ⟨rfl, rfl⟩

theorem refuses_refuseProgram (verbosity : Nat) (records : Text) (failure : Failure) :
    (refuseProgram verbosity records failure).Refuses failure.status := by
  cases failure <;> exact ⟨rfl, rfl⟩

/-! ## Rendering a program -/

theorem exists_image {raw : List Text} {p : Program} (h : assemble raw = .ok p) :
    ∃ bytes, rawImage p.words = .ok bytes :=
  exists_rawImage fun _ hword => bounds_of_mem_words h hword

theorem Request.contents_raw {p : Program} {bytes : Bytes} (h : rawImage p.words = .ok bytes)
    (finish : Text → Text) : contents finish .raw p = .ok bytes := by
  rw [contents, h]
  rfl

/-- A program that assembles can be rendered in every format. -/
theorem Request.exists_contents {raw : List Text} {p : Program} (h : assemble raw = .ok p)
    (finish : Text → Text) (format : Format) : ∃ bytes, contents finish format p = .ok bytes := by
  cases format with
  | words f => exact ⟨_, rfl⟩
  | listing => exact ⟨_, rfl⟩
  | raw =>
      rcases exists_image h with ⟨bytes, hbytes⟩
      exact ⟨bytes, contents_raw hbytes finish⟩
  | layout =>
      rcases exists_layout (Session.coherent_of_assemble h).length_le with ⟨layout, hlayout⟩
      exact ⟨_, by rw [contents, hlayout]⟩

theorem exists_lines {bytes : Bytes} {p : Program} (h : assembleFile bytes = .ok p) :
    ∃ raw, assemble raw = .ok p := by
  rcases bind_eq_ok_iff.mp h with ⟨lines, _, hlines⟩
  cases hprogram : assemble lines with
  | error failure =>
      rw [hprogram] at hlines
      cases hlines
  | ok own =>
      rw [hprogram] at hlines
      obtain rfl := Except.ok.inj hlines
      exact ⟨lines, hprogram⟩

/-! ## What a request comes to -/

namespace Request

/-- Where the output file is opened. -/
def destination (r : Request) (path : Text) : Text :=
  if r.outputFormat = .layout then Path.normalize path else path

/-- With its input read, a request refuses the input or delivers its program. -/
theorem effect_ok (r : Request) (bytes : Bytes) :
    match assembleFile bytes with
    | .error failure =>
        ∃ outcome, r.effect (.ok bytes) = .finish outcome ∧ outcome.Refuses failure.status
    | .ok p => ∃ records, r.effect (.ok bytes) = r.deliver records p := by
  simp only [assembleFile, effect]
  cases readLines bytes with
  | error reason => exact ⟨_, rfl, rfl, rfl⟩
  | ok lines =>
      simp only [bind, Except.bind, Except.mapError]
      cases assemble lines with
      | error failure => exact ⟨_, rfl, refuses_refuseProgram _ _ failure⟩
      | ok p => exact ⟨_, rfl⟩

/-- A source that does not assemble is refused before anything is written. -/
theorem effect_of_failure (r : Request) {bytes : Bytes} {failure : FileFailure}
    (h : assembleFile bytes = .error failure) :
    ∃ outcome, r.effect (.ok bytes) = .finish outcome ∧ outcome.Refuses failure.status := by
  have heffect := r.effect_ok bytes
  rwa [h] at heffect

theorem effect_of_program (r : Request) {bytes : Bytes} {p : Program}
    (h : assembleFile bytes = .ok p) :
    ∃ records, r.effect (.ok bytes) = r.deliver records p := by
  have heffect := r.effect_ok bytes
  rwa [h] at heffect

theorem print_of_contents (r : Request) (records : List Record) {p : Program} {bytes : Bytes}
    (h : contents printed r.outputFormat p = .ok bytes) :
    ∃ progress, r.print records p =
      .finish { status := 0, stdout := bytes, stderr := progress } := by
  simp only [print, h]
  exact ⟨_, rfl⟩

theorem store_of_contents (r : Request) (records : List Record) (path : Text) {p : Program}
    {bytes : Bytes} (h : contents stored r.outputFormat p = .ok bytes) :
    ∃ progress note, r.store records p path =
      .store (r.destination path) bytes { status := 0, stderr := progress ++ note }
        (refuseFile r.verbosity progress (r.destination path)) := by
  simp only [store, destination, h]
  split
  next => exact ⟨_, _, rfl⟩
  next => exact ⟨_, _, rfl⟩

end Request

/-- A file is stored whole, or the file system stays as it was. -/
theorem Effect.run_store (fs : FileSystem) (path : Text) (contents : Bytes) (stored : Outcome)
    (refused : FileFault → Outcome) :
    (Effect.store path contents stored refused).run fs =
      match fs.locate path with
      | .ok place => (stored, fs.put place contents)
      | .error fault => (refused fault, fs) := by
  simp only [run, FileSystem.write_eq_map_locate]
  cases fs.locate path <;> rfl

/-! ## From reading to writing -/

/-- Arguments that ask for a program, and for a layout only with an output file. -/
def Accepts (arguments : List Text) (r : Request) : Prop :=
  Plan.ofArguments arguments = .assemble r ∧ r.lacksOutput = false

/-- An accepted command reads its input and then has the effect of its request. -/
theorem run_of_accepts {arguments : List Text} {r : Request} (h : Accepts arguments r)
    (fs : FileSystem) : run arguments fs = (r.effect (fs.read r.inputPath)).run fs := by
  simp [run, Plan.outcome, h.1, h.2]

section Program

variable {arguments : List Text} {fs : FileSystem} {r : Request} {bytes : Bytes} {p : Program}
  (haccepts : Accepts arguments r) (hread : fs.read r.inputPath = .ok bytes)
  (hprogram : assembleFile bytes = .ok p)

include haccepts hread hprogram

/-- A program is printed if no output file is named. -/
theorem run_of_print (hpath : r.outputPath? = none) :
    ∃ shown progress, Request.contents Request.printed r.outputFormat p = .ok shown ∧
      run arguments fs = ({ status := 0, stdout := shown, stderr := progress }, fs) := by
  rcases exists_lines hprogram with ⟨raw, hraw⟩
  rcases r.effect_of_program hprogram with ⟨records, heffect⟩
  rcases Request.exists_contents hraw Request.printed r.outputFormat with ⟨shown, hshown⟩
  rcases r.print_of_contents records hshown with ⟨progress, hprint⟩
  refine ⟨shown, progress, hshown, ?_⟩
  simp only [run_of_accepts haccepts, hread, heffect, Request.deliver, hpath, hprint, Effect.run]

/-- A program is stored if an output file is named and can be opened. Opening is all that can still
fail, and then nothing has been written. -/
theorem run_of_store {path : Text} (hpath : r.outputPath? = some path) :
    ∃ kept progress note, Request.contents Request.stored r.outputFormat p = .ok kept ∧
      run arguments fs =
        match fs.locate (r.destination path) with
        | .ok place => ({ status := 0, stderr := progress ++ note }, fs.put place kept)
        | .error fault => (refuseFile r.verbosity progress (r.destination path) fault, fs) := by
  rcases exists_lines hprogram with ⟨raw, hraw⟩
  rcases r.effect_of_program hprogram with ⟨records, heffect⟩
  rcases Request.exists_contents hraw Request.stored r.outputFormat with ⟨kept, hkept⟩
  rcases r.store_of_contents records path hkept with ⟨progress, note, hstore⟩
  refine ⟨kept, progress, note, hkept, ?_⟩
  simp only [run_of_accepts haccepts, hread, heffect, Request.deliver, hpath, hstore,
    Effect.run_store]

end Program

/-! ## How runs fail -/

/-- The ways in which a run fails, each with its status. -/
inductive Fails (arguments : List Text) (fs : FileSystem) : Nat → Prop where
  /-- The arguments are refused. -/
  | arguments {problem : Misuse} (hplan : Plan.ofArguments arguments = .misuse problem) :
      Fails arguments fs 2
  /-- A layout is asked for without an output file. -/
  | layout {r : Request} (hplan : Plan.ofArguments arguments = .assemble r)
      (hlacks : r.lacksOutput = true) : Fails arguments fs 1
  /-- The input cannot be opened. -/
  | input {r : Request} {fault : FileFault} (haccepts : Accepts arguments r)
      (hread : fs.read r.inputPath = .error fault) : Fails arguments fs fault.status
  /-- The input is no text, or its program does not assemble. -/
  | program {r : Request} {bytes : Bytes} {failure : FileFailure} (haccepts : Accepts arguments r)
      (hread : fs.read r.inputPath = .ok bytes) (hfailure : assembleFile bytes = .error failure) :
      Fails arguments fs failure.status
  /-- The output file cannot be opened. -/
  | output {r : Request} {bytes : Bytes} {p : Program} {path : Text} {fault : FileFault}
      (haccepts : Accepts arguments r) (hread : fs.read r.inputPath = .ok bytes)
      (hprogram : assembleFile bytes = .ok p) (hpath : r.outputPath? = some path)
      (hlocate : fs.locate (r.destination path) = .error fault) : Fails arguments fs fault.status

theorem Fails.status_ne_zero {arguments : List Text} {fs : FileSystem} {status : Nat}
    (h : Fails arguments fs status) : status ≠ 0 := by
  cases h with
  | arguments => decide
  | layout => decide
  | input => exact FileFault.status_ne_zero _
  | program => exact FileFailure.status_ne_zero _
  | output => exact FileFault.status_ne_zero _

/-- A run that fails shows its status and prints and writes nothing. -/
theorem run_of_fails {arguments : List Text} {fs : FileSystem} {status : Nat}
    (h : Fails arguments fs status) :
    (run arguments fs).1.Refuses status ∧ (run arguments fs).2 = fs := by
  cases h with
  | arguments hplan =>
      rw [run, hplan]
      exact ⟨⟨rfl, rfl⟩, rfl⟩
  | layout hplan hlacks =>
      rw [run, hplan, Plan.outcome, if_pos hlacks]
      exact ⟨⟨rfl, rfl⟩, rfl⟩
  | input haccepts hread =>
      rw [run_of_accepts haccepts, hread]
      exact ⟨refuses_refuseFile _ _ _ _, rfl⟩
  | @program r _ _ haccepts hread hfailure =>
      rcases r.effect_of_failure hfailure with ⟨outcome, heffect, hrefuses⟩
      rw [run_of_accepts haccepts, hread, heffect]
      exact ⟨hrefuses, rfl⟩
  | output haccepts hread hprogram hpath hlocate =>
      rcases run_of_store haccepts hread hprogram hpath with ⟨_, _, _, _, hrun⟩
      rw [hrun, hlocate]
      exact ⟨refuses_refuseFile _ _ _ _, rfl⟩

theorem Accepts.fails_or_succeeds {arguments : List Text} {r : Request}
    (haccepts : Accepts arguments r) (fs : FileSystem) :
    (∃ status, Fails arguments fs status) ∨ (run arguments fs).1.status = 0 := by
  cases hread : fs.read r.inputPath with
  | error fault => exact Or.inl ⟨_, .input haccepts hread⟩
  | ok bytes =>
      cases hprogram : assembleFile bytes with
      | error failure => exact Or.inl ⟨_, .program haccepts hread hprogram⟩
      | ok p =>
          cases hpath : r.outputPath? with
          | none =>
              rcases run_of_print haccepts hread hprogram hpath with ⟨_, _, _, hrun⟩
              rw [hrun]
              exact Or.inr rfl
          | some path =>
              cases hlocate : fs.locate (r.destination path) with
              | error fault => exact Or.inl ⟨_, .output haccepts hread hprogram hpath hlocate⟩
              | ok place =>
                  rcases run_of_store haccepts hread hprogram hpath with ⟨_, _, _, _, hrun⟩
                  rw [hrun, hlocate]
                  exact Or.inr rfl

/-- A run that does not fail has status 0. -/
theorem fails_or_succeeds (arguments : List Text) (fs : FileSystem) :
    (∃ status, Fails arguments fs status) ∨ (run arguments fs).1.status = 0 := by
  cases hplan : Plan.ofArguments arguments with
  | misuse problem => exact Or.inl ⟨2, .arguments hplan⟩
  | help =>
      rw [run, hplan]
      exact Or.inr rfl
  | version =>
      rw [run, hplan]
      exact Or.inr rfl
  | assemble r =>
      cases hlacks : r.lacksOutput with
      | true => exact Or.inl ⟨1, .layout hplan hlacks⟩
      | false => exact Accepts.fails_or_succeeds ⟨hplan, hlacks⟩ fs

/-- A failed run prints nothing on standard output and leaves every file as it was; its status
tells how it failed. -/
theorem run_leaves_no_trace (arguments : List Text) (fs : FileSystem) :
    ((run arguments fs).1.status ≠ 0 →
      (run arguments fs).1.stdout = [] ∧ (run arguments fs).2 = fs) ∧
    ∀ status, Fails arguments fs status ↔ (run arguments fs).1.status = status ∧ status ≠ 0 := by
  have hshows : ∀ status, Fails arguments fs status →
      (run arguments fs).1.status = status ∧ status ≠ 0 :=
    fun _ hfails => ⟨(run_of_fails hfails).1.1, hfails.status_ne_zero⟩
  rcases fails_or_succeeds arguments fs with ⟨status, hfails⟩ | hsucceeds
  · rcases run_of_fails hfails with ⟨⟨hstatus, hstdout⟩, hfiles⟩
    refine ⟨fun _ => ⟨hstdout, hfiles⟩, fun other => ⟨hshows other, ?_⟩⟩
    rintro ⟨hother, _⟩
    rwa [← hother, hstatus]
  · refine ⟨absurd hsucceeds, fun other => ⟨hshows other, ?_⟩⟩
    rintro ⟨hother, hne⟩
    exact absurd (hother.symm.trans hsucceeds) hne

/-- A directory with one program file, as the working directory. -/
def workspace (source : Text) : FileSystem where
  entries := [(["work".toList, "loop.rsc".toList], .file (Utf8.encode source))]
  workingDirectory := ["work".toList]

/-- A program that does not assemble is not overwritten by its own output. -/
example : run ["-o".toList, "loop.rsc".toList, "loop.rsc".toList]
      (workspace "JMP .loop\n".toList) =
    (complain 1 [] "Assembler error: Line 1: Label 'loop' is not defined.".toList,
      workspace "JMP .loop\n".toList) := by
  decide +kernel

/-! ## What runs deliver -/

/-- The text of a program in a format, before it is printed or stored. -/
def Format.text? (p : Program) : Format → Option Text
  | .words f => some (renderWords f p.words)
  | .listing => some (renderListing p.listing)
  | .raw => none
  | .layout => none

/-- The bytes that a program comes to in a format: its image, or its text with one line end after
it, or nothing if the text is empty. -/
inductive Format.Delivers (p : Program) : Format → Bytes → Prop where
  | image {bytes : Bytes} (himage : rawImage p.words = .ok bytes) : Delivers p .raw bytes
  | nothing {format : Format} (htext : format.text? p = some []) : Delivers p format []
  | text {format : Format} {t : Text} (htext : format.text? p = some t) (hne : t ≠ [])
      (hlast : t.getLast? ≠ some '\n') : Delivers p format (Utf8.encode (t ++ ['\n']))

theorem Format.getLast?_text {raw : List Text} {p : Program} (h : assemble raw = .ok p)
    {format : Format} {t : Text} (htext : format.text? p = some t) : t.getLast? ≠ some '\n' := by
  cases format with
  | words f =>
      obtain rfl := Option.some.inj htext
      exact getLast?_renderWords f p.words
  | listing =>
      obtain rfl := Option.some.inj htext
      exact getLast?_renderListing h
  | raw => cases htext
  | layout => cases htext

theorem Request.stored_eq_printed {t : Text} (h : t.getLast? ≠ some '\n') :
    stored t = printed t := by
  by_cases hempty : t = []
  · subst hempty
    rfl
  · simp [stored, printed, hempty, h]

theorem Request.contents_of_text {p : Program} {format : Format} {t : Text}
    (h : format.text? p = some t) (finish : Text → Text) :
    contents finish format p = .ok (Utf8.encode (finish t)) := by
  cases format with
  | words f =>
      obtain rfl := Option.some.inj h
      rfl
  | listing =>
      obtain rfl := Option.some.inj h
      rfl
  | raw => cases h
  | layout => cases h

/-- Printed and stored, a program comes to the same bytes. -/
theorem Format.exists_delivers {raw : List Text} {p : Program} (h : assemble raw = .ok p)
    {format : Format} (hformat : format ≠ .layout) :
    ∃ bytes, format.Delivers p bytes ∧ Request.contents Request.printed format p = .ok bytes ∧
      Request.contents Request.stored format p = .ok bytes := by
  cases htext : format.text? p with
  | some t =>
      have hlast := getLast?_text h htext
      refine ⟨Utf8.encode (Request.printed t), ?_, Request.contents_of_text htext _, ?_⟩
      · by_cases hempty : t = []
        · subst hempty
          exact .nothing htext
        · simpa [Request.printed, hempty] using Delivers.text htext hempty hlast
      · rw [Request.contents_of_text htext, Request.stored_eq_printed hlast]
  | none =>
      cases format with
      | words f => cases htext
      | listing => cases htext
      | layout => exact absurd rfl hformat
      | raw =>
          rcases exists_image h with ⟨bytes, hbytes⟩
          have hcontents := Request.contents_raw hbytes
          exact ⟨bytes, .image hbytes, hcontents _, hcontents _⟩

/-- Arguments that ask for the program of an input file in a format, to be printed or stored. -/
def Asks (arguments : List Text) (input : Text) (format : Format) (output : Option Text) : Prop :=
  ∃ r, Plan.ofArguments arguments = .assemble r ∧ r.inputPath = input ∧
    r.outputFormat = format ∧ r.outputPath? = output

theorem Asks.exists_accepts {arguments : List Text} {input : Text} {format : Format}
    {output : Option Text} (h : Asks arguments input format output) (hformat : format ≠ .layout) :
    ∃ r, Accepts arguments r ∧ r.inputPath = input ∧ r.outputFormat = format ∧
      r.outputPath? = output := by
  rcases h with ⟨r, hplan, hinput, hown, houtput⟩
  refine ⟨r, ⟨hplan, ?_⟩, hinput, hown, houtput⟩
  simp [Request.lacksOutput, hown, hformat]

/-- A program that jumps to its second instruction. -/
def loopSource : Text := "NOP\n.loop  JMP .loop  # again\n".toList

end Command

end Rsc
