/-
This file shows that a run of the program either does all that it was asked for or nothing. Files
are changed by the last step alone, and only when every step before it has succeeded; the arguments
count only for what they give, and the files only for what can be seen of them.
-/

import ExprDiagram.CommandLine.Run
import ExprDiagram.Proofs.CommandLine.Arguments
import ExprDiagram.Proofs.CommandLine.Files
import ExprDiagram.Proofs.Layout.Numbering
import Mathlib

namespace ExprDiagram

/-! ### Texts -/

theorem decodeText_eq_ok {bytes : ByteArray} {source : String} :
    decodeText bytes = .ok source ↔ bytes = source.toUTF8 := by
  unfold decodeText String.fromUTF8?
  constructor
  · intro decoded
    split_ifs at decoded
    cases decoded
    rfl
  · rintro rfl
    have valid : source.toUTF8.IsValidUTF8 := source.isValidUTF8
    rw [dif_pos valid]
    rfl

variable {State File : Type} {files : FileAccess (StateM State)} {view : FileView State File}
variable {state : State} {stdin : ByteArray}
variable {options : Options} {source drawing : String} {events : List String}

/-- The files or the standard input give the text to draw. -/
def Options.Obtains (options : Options) (files : FileAccess (StateM State))
    (state : State) (stdin : ByteArray) (source : String) : Prop :=
  match options.input with
  | none => stdin = source.toUTF8
  | some path => ((files.read path).run state).1 = .ok source.toUTF8

/-- The text to draw is that of the input file, or of the standard input if no file is named. -/
def Options.Reads (options : Options) (view : FileView State File) (state : State)
    (stdin : ByteArray) (source : String) : Prop :=
  match options.input with
  | none => stdin = source.toUTF8
  | some path => view.Holds state path source.toUTF8

theorem Options.Obtains.reads (obtains : options.Obtains files state stdin source)
    (faithful : files.Faithful view) : options.Reads view state stdin source := by
  unfold Options.Reads
  unfold Options.Obtains at obtains
  cases input : options.input with
  | none => rwa [input] at obtains
  | some path =>
    rw [input] at obtains
    exact faithful.read_ok path state _ obtains

theorem readSource_run (faithful : files.Faithful view) (state : State) (stdin : ByteArray)
    (options : Options) : ∃ result,
      (readSource files (pure stdin) options.input).run state = (result, state) ∧
        ∀ source, result = .ok source ↔ options.Obtains files state stdin source := by
  unfold readSource Options.Obtains
  cases options.input with
  | none =>
    refine ⟨_, rfl, fun source => ?_⟩
    rw [← decodeText_eq_ok]
    cases decodeText stdin <;> simp [Except.mapError]
  | some path =>
    refine ⟨_, Prod.ext rfl (faithful.after_read path state), fun source => ?_⟩
    show ((((files.read path).run state).1.mapError FileError.message).bind
      decodeText).mapError _ = .ok source ↔
        ((files.read path).run state).1 = .ok source.toUTF8
    cases ((files.read path).run state).1 with
    | error error => exact ⟨nofun, nofun⟩
    | ok contents =>
      rw [Except.ok.injEq, ← decodeText_eq_ok]
      simp only [Except.mapError, Except.bind]
      cases decodeText contents <;> simp

/-- A text is drawn in the form that is asked for, with the box set unless the plain set is asked
for, and with the usual settings apart from that. -/
def Options.Draws (options : Options) (source drawing : String) : Prop :=
  renderSource { RenderConfig.default with
    format := options.format.getD .json
    unicode := !options.ascii } source = .ok drawing

/-! ### Runs -/

/-- The run that arguments ask for, with the files it leaves. -/
def runWith (files : FileAccess (StateM State)) (state : State) (stdin : ByteArray)
    (arguments : List String) : Outcome × State :=
  (run files (pure stdin) arguments).run state

/-- What a run shows apart from messages: its code, its output and the files it leaves. -/
def visible (result : Outcome × State) : Nat × String × State :=
  (result.1.code, result.1.stdout, result.2)

theorem visible_eq {result : Outcome × State} {code : Nat} {stdout : String}
    {after : State} : visible result = (code, stdout, after) ↔
      result.1.code = code ∧ result.1.stdout = stdout ∧ result.2 = after := by
  rw [visible, Prod.mk.injEq, Prod.mk.injEq]

/-- The files accept the drawing, if it goes to one of them. -/
def Options.Accepts (options : Options) (files : FileAccess (StateM State))
    (state : State) (drawing : String) : Prop :=
  ∀ path, options.output = some path →
    ((files.write path drawing.toUTF8).run state).1 = .ok ()

/-- A drawing has been delivered: to the standard output, and then no file has changed, or to a
file, and then no other file has changed, and nothing stands on the standard output. -/
def Options.Delivers (options : Options) (view : FileView State File) (before after : State)
    (stdout drawing : String) : Prop :=
  match options.output with
  | none => stdout = drawing ∧ after = before
  | some path => stdout = "" ∧ view.Replaced before after path drawing.toUTF8

/-- What the delivery of a drawing shows. -/
def Options.delivered (options : Options) (files : FileAccess (StateM State)) (drawing : String)
    (state : State) : Nat × String × State :=
  match options.output with
  | none => (0, drawing, state)
  | some path =>
    match (files.write path drawing.toUTF8).run state with
    | (.ok (), after) => (0, "", after)
    | (.error _, after) => (1, "", after)

theorem visible_deliver (files : FileAccess (StateM State)) (options : Options)
    (verbose : Bool) (format : OutputFormat) (drawing : String) (events : List String)
    (state : State) :
    visible ((deliver files options.output verbose format drawing events).run state) =
      options.delivered files drawing state := by
  unfold Options.delivered
  cases options.output with
  | none => rfl
  | some path =>
    simp only [deliver, StateT.run_bind]
    cases (files.write path drawing.toUTF8).run state with
    | mk answer after => cases answer <;> rfl

/-- What a run shows is settled step by step, and messages play no part in it. -/
theorem Options.visible_run (files : FileAccess (StateM State)) (state : State)
    (stdin : ByteArray) (options : Options) :
    visible ((options.run files (pure stdin)).run state) =
      match (readSource files (pure stdin) options.input).run state with
      | (.error _, after) => (1, "", after)
      | (.ok source, after) =>
        match renderSource options.config source with
        | .error _ => (1, "", after)
        | .ok drawing => options.delivered files drawing after := by
  simp only [Options.run, StateT.run_bind]
  cases (readSource files (pure stdin) options.input).run state with
  | mk result after =>
    cases result with
    | error complaint => rfl
    | ok source =>
      show visible ((match renderSource options.config source with
        | .error error => pure (Outcome.failure _ error.message)
        | .ok drawing => deliver files options.output options.verbose options.config.format drawing
            _).run after) = match renderSource options.config source with
          | .error _ => (1, "", after)
          | .ok drawing => options.delivered files drawing after
      cases renderSource options.config source with
      | error error => rfl
      | ok drawing => exact visible_deliver files options _ _ drawing _ after

/-- A delivery is refused and leaves all files as they were, or it is made. -/
theorem Options.delivered_cases (faithful : files.Faithful view) (state : State)
    (options : Options) (drawing : String) :
    (options.delivered files drawing state = (1, "", state) ∧
      ¬ options.Accepts files state drawing) ∨
    ∃ stdout after, options.delivered files drawing state = (0, stdout, after) ∧
      options.Delivers view state after stdout drawing := by
  unfold Options.delivered Options.Delivers
  cases output : options.output with
  | none => exact .inr ⟨drawing, state, rfl, rfl, rfl⟩
  | some path =>
    have refused := faithful.write_error path drawing.toUTF8 state
    have accepted := faithful.write_ok path drawing.toUTF8 state
    dsimp only
    cases written : (files.write path drawing.toUTF8).run state with
    | mk answer after =>
      rw [written] at refused accepted
      cases answer with
      | error error =>
        obtain rfl : after = state := refused error rfl
        refine .inl ⟨rfl, fun accepts => ?_⟩
        have answered := accepts path output
        rw [written] at answered
        cases answered
      | ok _ => exact .inr ⟨"", after, rfl, rfl, accepted rfl⟩

/-- A run either shows a failure and leaves all files as they were, or it delivers a drawing of the
text that it has read. -/
theorem Options.run_cases (faithful : files.Faithful view) (state : State) (stdin : ByteArray)
    (options : Options) :
    (visible ((options.run files (pure stdin)).run state) = (1, "", state) ∧
      ∀ source drawing, options.Obtains files state stdin source →
        options.Draws source drawing → ¬ options.Accepts files state drawing) ∨
    ∃ source drawing stdout after,
      visible ((options.run files (pure stdin)).run state) = (0, stdout, after) ∧
      options.Reads view state stdin source ∧ options.Draws source drawing ∧
      options.Delivers view state after stdout drawing := by
  obtain ⟨result, read, obtained⟩ := readSource_run faithful state stdin options
  rw [options.visible_run, read]
  cases result with
  | error complaint =>
    refine .inl ⟨rfl, fun source drawing obtains => ?_⟩
    cases (obtained source).mpr obtains
  | ok source =>
    have obtains := (obtained source).mp rfl
    have sole {other} (obtains : options.Obtains files state stdin other) : source = other :=
      Except.ok.inj ((obtained other).mpr obtains)
    dsimp only
    cases drawn : renderSource options.config source with
    | error error =>
      refine .inl ⟨rfl, fun other drawing obtains draws => ?_⟩
      obtain rfl := sole obtains
      cases drawn.symm.trans draws
    | ok drawing =>
      obtain ⟨refused, unaccepted⟩ | ⟨stdout, after, made, delivers⟩ :=
        options.delivered_cases faithful state drawing
      · refine .inl ⟨refused, fun other text obtains draws => ?_⟩
        obtain rfl := sole obtains
        obtain rfl : drawing = text := Except.ok.inj (drawn.symm.trans draws)
        exact unaccepted
      · exact .inr ⟨source, drawing, stdout, after, made, obtains.reads faithful, drawn, delivers⟩

/-- What all or nothing means for the run that arguments ask for. -/
structure AllOrNothing (files : FileAccess (StateM State)) (view : FileView State File)
    (state : State) (stdin : ByteArray) (arguments : List String) : Prop where
  /-- A run that fails shows nothing and leaves every file as it was. -/
  failed : (runWith files state stdin arguments).1.code ≠ 0 →
    (runWith files state stdin arguments).1.stdout = "" ∧
      (runWith files state stdin arguments).2 = state
  /-- A run that ends well has delivered the drawing of the text it was to read. -/
  succeeded : (runWith files state stdin arguments).1.code = 0 →
    ∃ (options : Options) (source drawing : String), options.GivenBy arguments ∧
      options.Reads view state stdin source ∧ options.Draws source drawing ∧
      options.Delivers view state (runWith files state stdin arguments).2
        (runWith files state stdin arguments).1.stdout drawing
  /-- A run ends well if the arguments give options, the text is there and can be drawn, and the
  files accept the drawing. -/
  completes : ∀ (options : Options) (source drawing : String), options.GivenBy arguments →
    options.Obtains files state stdin source → options.Draws source drawing →
    options.Accepts files state drawing → (runWith files state stdin arguments).1.code = 0
  /-- Asking for messages changes neither the code nor the output nor the files. -/
  verbose : ∀ options : Options, options.GivenBy arguments → options.verbose = false →
    visible (runWith files state stdin ("-v" :: arguments)) =
      visible (runWith files state stdin arguments)

variable {arguments : List String}

theorem runWith_of_givenBy (givenBy : options.GivenBy arguments) :
    runWith files state stdin arguments = (options.run files (pure stdin)).run state := by
  rw [runWith, run, Options.parse_eq_ok_iff.mpr givenBy]

theorem runWith_of_rejected {cause : Rejection}
    (rejected : Options.parse arguments = .error (.rejected cause)) :
    runWith files state stdin arguments = (.rejection cause, state) := by
  rw [runWith, run, rejected]
  rfl

theorem Options.GivenBy.unique {other : Options} (givenBy : options.GivenBy arguments)
    (again : other.GivenBy arguments) : options = other :=
  Except.ok.inj ((parse_eq_ok_iff.mpr givenBy).symm.trans (parse_eq_ok_iff.mpr again))

/-- A run whose arguments are not accepted does nothing. -/
theorem allOrNothing_of_rejected {cause : Rejection}
    (rejected : Options.parse arguments = .error (.rejected cause)) :
    AllOrNothing files view state stdin arguments := by
  have notGiven (options : Options) : ¬ options.GivenBy arguments := fun givenBy => by
    cases rejected.symm.trans (Options.parse_eq_ok_iff.mpr givenBy)
  refine ⟨fun _ => ?_, fun ended => ?_, fun options _ _ given => absurd given (notGiven options),
    fun options given => absurd given (notGiven options)⟩
  · rw [runWith_of_rejected rejected]
    exact ⟨rfl, rfl⟩
  · rw [runWith_of_rejected rejected] at ended
    cases ended

/-- A run whose arguments give options does all that they ask for, or nothing. -/
theorem allOrNothing_of_givenBy (faithful : files.Faithful view)
    (givenBy : options.GivenBy arguments) :
    AllOrNothing files view state stdin arguments := by
  have ran : runWith files state stdin arguments = _ := runWith_of_givenBy givenBy
  have ending := options.run_cases faithful state stdin
  rw [← ran] at ending
  refine ⟨fun unsuccessful => ?_, fun ended => ?_, ?_, ?_⟩
  · obtain ⟨shown, -⟩ | ⟨_, _, _, _, shown, -⟩ := ending
    · exact (visible_eq.mp shown).2
    · exact absurd (visible_eq.mp shown).1 unsuccessful
  · obtain ⟨shown, -⟩ | ⟨source, drawing, stdout, after, shown, reads, draws, delivers⟩ := ending
    · cases ended.symm.trans (visible_eq.mp shown).1
    · obtain ⟨-, rfl, rfl⟩ := visible_eq.mp shown
      exact ⟨options, source, drawing, givenBy, reads, draws, delivers⟩
  · intro other source drawing again obtains draws accepts
    obtain rfl := givenBy.unique again
    obtain ⟨-, unaccepted⟩ | ⟨_, _, _, _, shown, -⟩ := ending
    · exact absurd accepts (unaccepted source drawing obtains draws)
    · exact (visible_eq.mp shown).1
  · intro other again quiet
    obtain rfl := givenBy.unique again
    rw [ran, runWith_of_givenBy (givenBy.verbose quiet), Options.visible_run, Options.visible_run]
    rfl

/-- Every run that does not ask for help or for the version is all or nothing. -/
theorem run_allOrNothing (faithful : files.Faithful view) (state : State) (stdin : ByteArray)
    {arguments : List String} (noRequest : ∀ request, ¬ Request.MadeBy request arguments) :
    AllOrNothing files view state stdin arguments := by
  cases parsed : Options.parse arguments with
  | error stop =>
    cases stop with
    | help => exact absurd (Options.parse_eq_stop_iff.mp parsed) (noRequest .help)
    | version => exact absurd (Options.parse_eq_stop_iff.mp parsed) (noRequest .version)
    | rejected cause => exact allOrNothing_of_rejected parsed
  | ok options => exact allOrNothing_of_givenBy faithful (Options.parse_eq_ok_iff.mp parsed)

/-- Two files, one of which holds a program. -/
def workFiles : Directory := ⟨[("/work/a", twoRows.toUTF8), ("/work/b", .empty)]⟩

/-- The file that is read may be the one that is written, even under another name: it then holds the
drawing of its text, and the other file is as it was. -/
theorem run_allOrNothing_same_file : ∃ drawing : String,
    renderSource RenderConfig.default twoRows = .ok drawing ∧
    let result := runWith (Directory.rooted "/work/") workFiles .empty ["-o", "/work/a", "a"]
    result.1.code = 0 ∧ result.1.stdout = "" ∧
      result.2.lookup? "/work/a" = some drawing.toUTF8 ∧
      result.2.lookup? "/work/b" = some .empty := by
  have parsed : Options.parse ["-o", "/work/a", "a"] =
      .ok { input := some "a", output := some "/work/a" } := rfl
  have givenBy := Options.parse_eq_ok_iff.mp parsed
  have noRequest (request : Request) : ¬ request.MadeBy ["-o", "/work/a", "a"] := fun made => by
    cases parsed.symm.trans (Options.parse_eq_stop_iff.mpr made)
  obtain ⟨layout, converted⟩ := twoRows_converted Float
  have draws :
      renderSource RenderConfig.default twoRows = .ok (layout.records Json.indented) := by
    rw [renderSource, converted]
    rfl
  refine ⟨_, draws, ?_⟩
  have whole : AllOrNothing (Directory.rooted "/work/") (Directory.view _) workFiles .empty
      ["-o", "/work/a", "a"] :=
    run_allOrNothing (Directory.rooted_faithful "/work/") _ _ noRequest
  have full : Directory.fullPath "/work/" "a" = "/work/a" ∧
      Directory.fullPath "/work/" "/work/a" = "/work/a" := by decide
  have obtains : Options.Obtains { input := some "a", output := some "/work/a" }
      (Directory.rooted "/work/") workFiles .empty twoRows := by
    show (((Directory.rooted "/work/").read "a").run workFiles).1 = .ok twoRows.toUTF8
    rw [Directory.run_read_rooted, full.1]
    rfl
  have ended := whole.completes _ twoRows _ givenBy obtains draws (fun path output => rfl)
  obtain ⟨options, source, drawing, again, reads, drawn, delivers⟩ := whole.succeeded ended
  obtain rfl := givenBy.unique again
  obtain ⟨file, here, held⟩ := reads
  obtain ⟨rfl, -⟩ := Directory.at?_rooted_eq_some.mp here
  rw [full.1] at held
  obtain rfl : twoRows = source := String.toByteArray_inj.mp (Option.some.inj held)
  obtain rfl : _ = drawing := Except.ok.inj (draws.symm.trans drawn)
  obtain ⟨quiet, written, there, rewritten⟩ := delivers
  obtain ⟨rfl, -⟩ := Directory.at?_rooted_eq_some.mp there
  rw [full.2] at rewritten
  exact ⟨ended, quiet, rewritten.holds, rewritten.others "/work/b" (by decide)⟩

end ExprDiagram
