/-
This file says what arguments mean, without saying how they are read. Each argument gives some
settings: a plain word is the name of the file to read, a long option gives one setting, and a
hyphen with letters behind it gives one for each letter, where what follows the letter of an option
with a value is its value. The value of an option may also be the next argument, if that is a plain
word. Options hold what arguments give if no setting is given twice. That is what reading comes to:
it accepts just the arguments that give settings which some options hold, and the result is those
options; and it stops for help or for the version where the settings before hold.
-/

import ExprDiagram.CommandLine.Options
import Mathlib.Data.List.Forall2
import Mathlib.Data.List.Induction
import Mathlib.Data.List.TakeWhile
import Mathlib.Tactic.Common

namespace ExprDiagram

/-! ### Settings -/

/-- An option without a value. -/
inductive Flag where
  | ascii
  | verbose
  deriving DecidableEq

/-- Something that can be asked for in place of a drawing. -/
inductive Request where
  | help
  | version
  deriving DecidableEq

/-- The letter of each flag. -/
def Flag.letter : Flag → Char
  | ascii => 'a'
  | verbose => 'v'

/-- The long name of each flag. -/
def Flag.word : Flag → String
  | ascii => "ascii"
  | verbose => "verbose"

/-- The letter of each option with a value. -/
def ValueOption.letter : ValueOption → Char
  | format => 'f'
  | output => 'o'

/-- The long name of each option with a value, without its hyphens. -/
def ValueOption.word : ValueOption → String
  | format => "format"
  | output => "output"

/-- The letter of each request. -/
def Request.letter : Request → Char
  | help => 'h'
  | version => 'V'

/-- The long name of each request. -/
def Request.word : Request → String
  | help => "help"
  | version => "version"

/-- How the reading of arguments ends when something else is asked for. -/
def Request.stop : Request → Stop
  | help => .help
  | version => .version

/-- One of the things that arguments can give. -/
inductive Setting where
  | input (name : String)
  | value (option : ValueOption) (text : String)
  | flag (flag : Flag)
  | request (request : Request)
  deriving DecidableEq

namespace Setting

/-- The name of the file to read, if the setting is one. -/
def input? : Setting → Option String
  | input name => some name
  | _ => none

/-- The value of an option, if the setting is one. -/
def value? (option : ValueOption) : Setting → Option String
  | value other text => if other = option then some text else none
  | _ => none

variable {option other : ValueOption} {name text : String}

@[simp] theorem input?_input : (input name).input? = some name := rfl
@[simp] theorem input?_value : (value option text).input? = none := rfl
@[simp] theorem input?_flag (flag : Flag) : (Setting.flag flag).input? = none := rfl
@[simp] theorem input?_request (request : Request) : (Setting.request request).input? = none := rfl
@[simp] theorem value?_input : (input name).value? option = none := rfl
@[simp] theorem value?_value :
    (value other text).value? option = if other = option then some text else none := rfl
@[simp] theorem value?_flag (flag : Flag) : (Setting.flag flag).value? option = none := rfl
@[simp] theorem value?_request (request : Request) :
    (Setting.request request).value? option = none := rfl

end Setting

/-! ### What arguments give -/

/-- A word that is not written as an option. A hyphen alone is plain. -/
def PlainWord (word : String) : Prop := word = "-" ∨ word.toList.head? ≠ some '-'

/-- The value in the text behind a short option. An equals sign before it is no part of it. -/
inductive Attached : List Char → List Char → Prop where
  | bare {value : List Char} (nonempty : value ≠ []) (noEquals : value.head? ≠ some '=') :
      Attached value value
  | equals (value : List Char) : Attached ('=' :: value) value

/-- The settings that an argument gives, and the option whose value has to follow it. -/
inductive Argument.Gives : String → List Setting → Option ValueOption → Prop where
  | input {word : String} (plain : PlainWord word) : Gives word [.input word] none
  | longFlag (flag : Flag) : Gives ("--" ++ flag.word) [.flag flag] none
  | longValue (option : ValueOption) (value : String) :
      Gives ("--" ++ (option.word ++ ("=" ++ value))) [.value option value] none
  | longOption (option : ValueOption) : Gives ("--" ++ option.word) [] (some option)
  | shortFlags {flags : List Flag} (nonempty : flags ≠ []) :
      Gives ("-" ++ String.ofList (flags.map Flag.letter)) (flags.map .flag) none
  | shortValue (flags : List Flag) (option : ValueOption) {text value : List Char}
      (attached : Attached text value) :
      Gives ("-" ++ String.ofList (flags.map Flag.letter ++ option.letter :: text))
        (flags.map .flag ++ [.value option (String.ofList value)]) none
  | shortOption (flags : List Flag) (option : ValueOption) :
      Gives ("-" ++ String.ofList (flags.map Flag.letter ++ [option.letter])) (flags.map .flag)
        (some option)

/-- The request that an argument makes, and the settings that it gives before. What stands behind a
request in its argument is not looked at. -/
inductive Argument.Asks : String → List Setting → Request → Prop where
  | long (request : Request) : Asks ("--" ++ request.word) [] request
  | short (flags : List Flag) (request : Request) (letters : List Char) :
      Asks ("-" ++ String.ofList (flags.map Flag.letter ++ request.letter :: letters))
        (flags.map .flag) request

/-- The settings that arguments give. After two hyphens there are only names; what stands behind a
request is not looked at. -/
inductive Arguments.Give : List String → List Setting → Prop where
  | done : Give [] []
  | names (names : List String) : Give ("--" :: names) (names.map .input)
  | argument {word : String} {words : List String} {given settings : List Setting}
      (gives : Argument.Gives word given none) (rest : Give words settings) :
      Give (word :: words) (given ++ settings)
  | value {word value : String} {words : List String} {given settings : List Setting}
      {option : ValueOption} (gives : Argument.Gives word given (some option))
      (plain : PlainWord value) (rest : Give words settings) :
      Give (word :: value :: words) (given ++ .value option value :: settings)
  | request {word : String} {given : List Setting} {request : Request}
      (asks : Argument.Asks word given request) (words : List String) :
      Give (word :: words) (given ++ [.request request])

/-- The names of each form of output, in small letters. -/
def OutputFormat.words : OutputFormat → List String
  | json => ["json"]
  | svg => ["svg"]
  | ascii => ["ascii", "text"]

/-- A text names a form of output. It may be written in capitals. -/
def OutputFormat.NamedBy (format : OutputFormat) (text : String) : Prop :=
  text.map Char.toLower ∈ format.words

/-- The options hold the settings: nothing else is asked for, each option is given once at most, and
the form of output is given by one of its names. -/
@[mk_iff]
structure Options.Hold (options : Options) (settings : List Setting) : Prop where
  input : settings.filterMap Setting.input? = options.input.toList
  format : List.Forall₂ (fun text format => OutputFormat.NamedBy format text)
    (settings.filterMap (Setting.value? .format)) options.format.toList
  output : settings.filterMap (Setting.value? .output) = options.output.toList
  ascii : settings.count (.flag .ascii) = if options.ascii then 1 else 0
  verbose : settings.count (.flag .verbose) = if options.verbose then 1 else 0
  noRequest : ∀ request, .request request ∉ settings

/-- The options are those that the arguments give. -/
def Options.GivenBy (options : Options) (arguments : List String) : Prop :=
  ∃ settings, Arguments.Give arguments settings ∧ options.Hold settings

/-- The arguments make a request, and what they give before it can be held. -/
def Request.MadeBy (request : Request) (arguments : List String) : Prop :=
  ∃ before after options, Arguments.Give arguments (before ++ .request request :: after) ∧
    Options.Hold options before

/-! ### Entering settings -/

/-- The options after one more setting. -/
def Options.enter (options : Options) (setting : Setting) : Except Stop Options :=
  let reader : ArgumentReader := { options }
  let next := match setting with
    | .input name => reader.giveInput name
    | .value option text => reader.give option text
    | .flag .ascii => reader.giveAscii
    | .flag .verbose => reader.giveVerbose
    | .request request => .error request.stop
  next.map ArgumentReader.options

namespace ArgumentReader

variable {options : Options} {pending : Option ValueOption} {onlyNames : Bool}

theorem give_eq (option : ValueOption) (value : String) :
    give ⟨options, pending, onlyNames⟩ option value =
      (options.enter (.value option value)).map (⟨·, none, onlyNames⟩) := by
  cases option with
  | format =>
    simp only [Options.enter, give]
    cases OutputFormat.parse value with
    | error cause => rfl
    | ok format =>
      simp only
      split_ifs <;> rfl
  | output =>
    simp only [Options.enter, give]
    split_ifs <;> rfl

theorem giveInput_eq (name : String) :
    giveInput ⟨options, pending, onlyNames⟩ name =
      (options.enter (.input name)).map (⟨·, pending, onlyNames⟩) := by
  simp only [Options.enter, giveInput]
  split_ifs <;> rfl

theorem giveAscii_eq : giveAscii ⟨options, pending, onlyNames⟩ =
    (options.enter (.flag .ascii)).map (⟨·, pending, onlyNames⟩) := by
  simp only [Options.enter, giveAscii]
  split_ifs <;> rfl

theorem giveVerbose_eq : giveVerbose ⟨options, pending, onlyNames⟩ =
    (options.enter (.flag .verbose)).map (⟨·, pending, onlyNames⟩) := by
  simp only [Options.enter, giveVerbose]
  split_ifs <;> rfl

/-- The flags that stand at the beginning of short options are entered one after the other. -/
theorem takeShort_flags (flags : List Flag) (letters : List Char) :
    takeShort ⟨options, none, false⟩ (flags.map Flag.letter ++ letters) =
      ((flags.map Setting.flag).foldlM Options.enter options).bind fun next =>
        takeShort ⟨next, none, false⟩ letters := by
  induction flags generalizing options with
  | nil => rfl
  | cons flag rest inductionHypothesis =>
    have first :
        takeShort ⟨options, none, false⟩ (flag.letter :: (rest.map Flag.letter ++ letters)) =
          (options.enter (.flag flag)).bind fun next =>
            takeShort ⟨next, none, false⟩ (rest.map Flag.letter ++ letters) := by
      cases flag with
      | ascii =>
        simp only [Flag.letter, takeShort, giveAscii_eq]
        cases options.enter (.flag .ascii) <;> rfl
      | verbose =>
        simp only [Flag.letter, takeShort, giveVerbose_eq]
        cases options.enter (.flag .verbose) <;> rfl
    rw [List.map_cons, List.cons_append, first, List.map_cons, List.foldlM_cons]
    cases options.enter (.flag flag) with
    | error stop => rfl
    | ok next => exact inductionHypothesis

theorem takeShort_value (reader : ArgumentReader) (option : ValueOption) (text : List Char) :
    reader.takeShort (option.letter :: text) = reader.takeValued option (attachedValue text) := by
  cases option <;> rfl

theorem takeShort_request (reader : ArgumentReader) (request : Request) (letters : List Char) :
    reader.takeShort (request.letter :: letters) = .error request.stop := by
  cases request <;> rfl

theorem attachedValue_eq {text value : List Char} (attached : Attached text value) :
    attachedValue text = some (String.ofList value) := by
  cases attached with
  | bare nonempty noEquals =>
    unfold attachedValue
    split
    · exact absurd rfl nonempty
    · exact absurd rfl noEquals
    · rfl
  | equals => rfl

/-! ### Spellings -/

theorem spelling_long {word : String} (nonempty : word.toList ≠ []) :
    spelling ("--" ++ word) = .long word.toList := by
  have letters : ("--" ++ word).toList = '-' :: '-' :: word.toList := String.toList_append
  unfold spelling
  rw [letters]
  cases body : word.toList with
  | nil => exact absurd body nonempty
  | cons => rfl

theorem spelling_short {letters : List Char} (nonempty : letters ≠ [])
    (noHyphen : letters.head? ≠ some '-') :
    spelling ("-" ++ String.ofList letters) = .short letters := by
  have all : ("-" ++ String.ofList letters).toList = '-' :: letters := by
    simp only [String.toList_append, String.toList_ofList]
    rfl
  unfold spelling
  rw [all]
  cases letters with
  | nil => exact absurd rfl nonempty
  | cons first rest =>
    have different : first ≠ '-' := fun same => noHyphen (congrArg some same)
    split <;> simp_all

theorem spelling_eq_plain_iff {word : String} : spelling word = .plain ↔ PlainWord word := by
  unfold spelling PlainWord
  rw [← String.toList_inj]
  split
  · simp_all
  · simp_all
  · simp_all
  · simp_all
  · rename_i others
    refine iff_of_true rfl (.inr fun head => ?_)
    obtain ⟨rest, same⟩ := List.head?_eq_some_iff.mp head
    exact others rest same

theorem splitLong_word {word : String} (noEquals : '=' ∉ word.toList) :
    splitLong word.toList = (word, none) := by
  have none : word.toList.dropWhile (fun character => character != '=') = [] := by
    refine List.dropWhile_eq_nil_iff.mpr fun character member => ?_
    exact bne_iff_ne.mpr fun same => noEquals (same ▸ member)
  simp only [splitLong, none, String.ofList_toList]

theorem splitLong_value {word : String} (noEquals : '=' ∉ word.toList) (value : String) :
    splitLong (word ++ ("=" ++ value)).toList = (word, some value) := by
  have name : ∀ character ∈ word.toList, (character != '=') = true := fun character member =>
    bne_iff_ne.mpr fun same => noEquals (same ▸ member)
  have whole : (word ++ ("=" ++ value)).toList = word.toList ++ '=' :: value.toList := by
    simp only [String.toList_append]
    rfl
  have stop : ('=' != '=') = false := rfl
  simp only [splitLong, whole, List.dropWhile_append_of_pos name, List.takeWhile_append_of_pos name,
    List.dropWhile_cons, List.takeWhile_cons, stop, Bool.false_eq_true, if_false, List.append_nil,
    String.ofList_toList]

/-! ### Taking arguments -/

theorem take_plain {word : String} (plain : PlainWord word) (options : Options) :
    take ⟨options, none, false⟩ word =
      (options.enter (.input word)).map (⟨·, none, false⟩) := by
  rw [← giveInput_eq]
  simp only [take, spelling_eq_plain_iff.mpr plain]
  rfl

theorem take_awaited {word : String} (plain : PlainWord word) (option : ValueOption)
    (options : Options) :
    take ⟨options, some option, false⟩ word =
      (options.enter (.value option word)).map (⟨·, none, false⟩) := by
  rw [← give_eq]
  simp only [take, spelling_eq_plain_iff.mpr plain]
  rfl

theorem take_long {word name : String} {attached : Option String} (nonempty : word.toList ≠ [])
    (split : splitLong word.toList = (name, attached)) :
    take ⟨options, none, false⟩ ("--" ++ word) = takeLong ⟨options, none, false⟩ name attached := by
  simp only [take, spelling_long nonempty, split]
  rfl

theorem take_short {letters : List Char} (nonempty : letters ≠ [])
    (noHyphen : letters.head? ≠ some '-') :
    take ⟨options, none, false⟩ ("-" ++ String.ofList letters) =
      takeShort ⟨options, none, false⟩ letters := by
  simp only [take, spelling_short nonempty noHyphen]
  rfl

/-- Short options do not begin with a hyphen, whatever stands behind the flags. -/
theorem head?_flags_ne {letter : Char} (flags : List Flag) (letters : List Char)
    (noHyphen : letter ≠ '-') :
    (flags.map Flag.letter ++ letter :: letters).head? ≠ some '-' := by
  cases flags with
  | nil => exact fun same => noHyphen (Option.some.inj same)
  | cons flag rest => cases flag <;> exact nofun

end ArgumentReader

theorem Flag.word_clean (flag : Flag) : flag.word.toList ≠ [] ∧ '=' ∉ flag.word.toList := by
  cases flag <;> decide

theorem ValueOption.word_clean (option : ValueOption) :
    option.word.toList ≠ [] ∧ '=' ∉ option.word.toList := by
  cases option <;> decide

theorem Request.word_clean (request : Request) :
    request.word.toList ≠ [] ∧ '=' ∉ request.word.toList := by
  cases request <;> decide

namespace ArgumentReader

variable {options : Options} {word : String} {given settings : List Setting}
variable {awaited : Option ValueOption} {request : Request}

theorem foldlM_enter_singleton (options : Options) (setting : Setting) :
    [setting].foldlM Options.enter options = options.enter setting := by
  rw [List.foldlM_cons]
  exact bind_pure _

/-- An argument is taken by entering what it gives. -/
theorem take_gives (gives : Argument.Gives word given awaited) (options : Options) :
    take ⟨options, none, false⟩ word =
      (given.foldlM Options.enter options).map (⟨·, awaited, false⟩) := by
  cases gives with
  | input plain => rw [take_plain plain, foldlM_enter_singleton]
  | longFlag flag =>
    rw [take_long flag.word_clean.1 (splitLong_word flag.word_clean.2), foldlM_enter_singleton]
    cases flag with
    | ascii => exact giveAscii_eq
    | verbose => exact giveVerbose_eq
  | longValue option value =>
    have nonempty : (option.word ++ ("=" ++ value)).toList ≠ [] := by
      rw [String.toList_append]
      exact List.append_ne_nil_of_left_ne_nil option.word_clean.1 _
    rw [take_long nonempty (splitLong_value option.word_clean.2 value), foldlM_enter_singleton,
      ← give_eq]
    cases option <;> rfl
  | longOption option =>
    rw [take_long option.word_clean.1 (splitLong_word option.word_clean.2)]
    cases option <;> rfl
  | @shortFlags flags nonempty =>
    have taken : takeShort ⟨options, none, false⟩ _ = _ := takeShort_flags flags []
    rw [List.append_nil] at taken
    rw [take_short (List.map_eq_nil_iff.not.mpr nonempty) ?_, taken]
    · cases (flags.map Setting.flag).foldlM Options.enter options <;> rfl
    · cases flags with
      | nil => exact absurd rfl nonempty
      | cons flag rest => cases flag <;> exact nofun
  | shortValue flags option attached =>
    rw [take_short (List.append_ne_nil_of_right_ne_nil _ (List.cons_ne_nil _ _))
      (head?_flags_ne flags _ (by cases option <;> decide)), takeShort_flags, List.foldlM_append]
    cases (flags.map Setting.flag).foldlM Options.enter options with
    | error stop => rfl
    | ok next =>
      show takeShort _ _ = ([_].foldlM Options.enter next).map _
      rw [takeShort_value, attachedValue_eq attached, foldlM_enter_singleton]
      exact give_eq option _
  | shortOption flags option =>
    rw [take_short (List.append_ne_nil_of_right_ne_nil _ (List.cons_ne_nil _ _))
      (head?_flags_ne flags _ (by cases option <;> decide)), takeShort_flags]
    cases (flags.map Setting.flag).foldlM Options.enter options with
    | error stop => rfl
    | ok next => exact takeShort_value _ option []

/-- An argument that makes a request ends the reading, unless a setting before it does. -/
theorem take_asks (asks : Argument.Asks word given request) (options : Options) :
    take ⟨options, none, false⟩ word =
      (given.foldlM Options.enter options).bind fun _ => .error request.stop := by
  cases asks with
  | long request =>
    rw [take_long request.word_clean.1 (splitLong_word request.word_clean.2)]
    cases request <;> rfl
  | short flags request letters =>
    rw [take_short (List.append_ne_nil_of_right_ne_nil _ (List.cons_ne_nil _ _))
      (head?_flags_ne flags _ (by cases request <;> decide)), takeShort_flags]
    cases (flags.map Setting.flag).foldlM Options.enter options with
    | error stop => rfl
    | ok next => exact takeShort_request _ request letters

/-- The options after all arguments from some point on have been taken. -/
def readAll (reader : ArgumentReader) (arguments : List String) : Except Stop Options :=
  (arguments.foldlM take reader).bind finish

theorem readAll_gives (gives : Argument.Gives word given awaited) (options : Options)
    (words : List String) :
    readAll ⟨options, none, false⟩ (word :: words) =
      (given.foldlM Options.enter options).bind fun next =>
        readAll ⟨next, awaited, false⟩ words := by
  rw [readAll, List.foldlM_cons, take_gives gives]
  cases given.foldlM Options.enter options <;> rfl

theorem readAll_awaited {value : String} (plain : PlainWord value) (option : ValueOption)
    (options : Options) (words : List String) :
    readAll ⟨options, some option, false⟩ (value :: words) =
      (options.enter (.value option value)).bind fun next => readAll ⟨next, none, false⟩ words := by
  rw [readAll, List.foldlM_cons, take_awaited plain]
  cases options.enter (.value option value) <;> rfl

theorem readAll_missing {value : String} (notPlain : ¬ PlainWord value) (option : ValueOption)
    (options : Options) (words : List String) :
    readAll ⟨options, some option, false⟩ (value :: words) =
      .error (.rejected (.missingValue option.name)) := by
  have taken : take ⟨options, some option, false⟩ value =
      .error (.rejected (.missingValue option.name)) := by
    cases written : spelling value with
    | plain => exact absurd (spelling_eq_plain_iff.mp written) notPlain
    | separator | long | short => simp only [take, written, Bool.false_eq_true, if_false]
  rw [readAll, List.foldlM_cons, taken]
  rfl

theorem readAll_names (names : List String) (options : Options) :
    readAll ⟨options, none, true⟩ names =
      (names.map Setting.input).foldlM Options.enter options := by
  induction names generalizing options with
  | nil => rfl
  | cons name rest inductionHypothesis =>
    have taken : take ⟨options, none, true⟩ name = _ := giveInput_eq name
    rw [readAll, List.foldlM_cons, taken, List.map_cons, List.foldlM_cons]
    cases options.enter (.input name) with
    | error stop => rfl
    | ok next => exact inductionHypothesis next

/-- Arguments are read by entering what they give. -/
theorem readAll_give {arguments : List String} (give : Arguments.Give arguments settings)
    (options : Options) :
    readAll ⟨options, none, false⟩ arguments = settings.foldlM Options.enter options := by
  induction give generalizing options with
  | done => rfl
  | names names => exact readAll_names names options
  | @argument word words given settings gives rest inductionHypothesis =>
    rw [readAll_gives gives, List.foldlM_append]
    cases given.foldlM Options.enter options with
    | error stop => rfl
    | ok next => exact inductionHypothesis next
  | @value word value words given settings option gives plain rest inductionHypothesis =>
    rw [readAll_gives gives, List.foldlM_append]
    cases given.foldlM Options.enter options with
    | error stop => rfl
    | ok next =>
      show readAll ⟨next, some option, false⟩ (value :: words) =
        List.foldlM Options.enter next (.value option value :: settings)
      rw [readAll_awaited plain, List.foldlM_cons]
      cases next.enter (.value option value) with
      | error stop => rfl
      | ok last => exact inductionHypothesis last
  | @request word given request asks words =>
    rw [readAll, List.foldlM_cons, take_asks asks, List.foldlM_append]
    cases given.foldlM Options.enter options <;> rfl

/-! ### Arguments that give nothing -/

/-- A setting that is no request is either entered or rejected. -/
theorem enter_error {setting : Setting} {stop : Stop}
    (noRequest : ∀ request, setting ≠ .request request)
    (failed : options.enter setting = .error stop) : ∃ cause, stop = .rejected cause := by
  cases setting with
  | input name =>
    simp only [Options.enter, giveInput] at failed
    split_ifs at failed <;> cases failed
    exact ⟨_, rfl⟩
  | value option text =>
    cases option with
    | format =>
      simp only [Options.enter, give] at failed
      cases parsed : OutputFormat.parse text with
      | error cause =>
        rw [parsed] at failed
        cases failed
        exact ⟨_, rfl⟩
      | ok format =>
        simp only [parsed] at failed
        split_ifs at failed <;> cases failed
        exact ⟨_, rfl⟩
    | output =>
      simp only [Options.enter, give] at failed
      split_ifs at failed <;> cases failed
      exact ⟨_, rfl⟩
  | flag flag =>
    cases flag with
    | ascii =>
      simp only [Options.enter, giveAscii] at failed
      split_ifs at failed <;> cases failed
      exact ⟨_, rfl⟩
    | verbose =>
      simp only [Options.enter, giveVerbose] at failed
      split_ifs at failed <;> cases failed
      exact ⟨_, rfl⟩
  | request request => exact absurd rfl (noRequest request)

theorem foldlM_enter_error {stop : Stop} (noRequest : ∀ request, .request request ∉ given)
    (failed : given.foldlM Options.enter options = .error stop) :
    ∃ cause, stop = .rejected cause := by
  induction given generalizing options with
  | nil => cases failed
  | cons setting rest inductionHypothesis =>
    rw [List.foldlM_cons] at failed
    cases entered : options.enter setting with
    | error other =>
      rw [entered] at failed
      cases failed
      exact enter_error (fun request same => noRequest request (same ▸ List.mem_cons_self)) entered
    | ok next =>
      rw [entered] at failed
      exact inductionHypothesis (fun request member =>
        noRequest request (List.mem_cons_of_mem _ member)) failed

theorem noRequest_of_gives (gives : Argument.Gives word given awaited) (request : Request) :
    .request request ∉ given := by
  cases gives <;> simp

theorem letter_cases (letter : Char) :
    (∃ flag, letter = Flag.letter flag) ∨ (∃ option, letter = ValueOption.letter option) ∨
      (∃ request, letter = Request.letter request) ∨
      ∀ reader rest, takeShort reader (letter :: rest) =
        .error (.rejected (.unknownOption (String.ofList ['-', letter]))) := by
  by_contra none
  simp only [not_or, not_exists] at none
  obtain ⟨noFlag, noValue, noRequest, known⟩ := none
  refine known fun reader rest => ?_
  unfold takeShort
  split
  · exact absurd rfl (noFlag .ascii)
  · exact absurd rfl (noFlag .verbose)
  · exact absurd rfl (noValue .format)
  · exact absurd rfl (noValue .output)
  · exact absurd rfl (noRequest .help)
  · exact absurd rfl (noRequest .version)
  · rfl

/-- Letters begin with flags, and behind these they end, or an option with a value or a request
stands, or a letter that is that of no option. -/
theorem letters_cases (letters : List Char) :
    ∃ flags rest, letters = List.map Flag.letter flags ++ rest ∧
      (rest = [] ∨ (∃ option text, rest = ValueOption.letter option :: text) ∨
        (∃ request more, rest = Request.letter request :: more) ∨
        ∀ reader, ∃ cause, takeShort reader rest = .error (.rejected cause)) := by
  induction letters with
  | nil => exact ⟨[], [], rfl, .inl rfl⟩
  | cons letter rest inductionHypothesis =>
    obtain ⟨flag, rfl⟩ | ⟨option, rfl⟩ | ⟨request, rfl⟩ | unknown := letter_cases letter
    · obtain ⟨flags, tail, rfl, ending⟩ := inductionHypothesis
      exact ⟨flag :: flags, tail, rfl, ending⟩
    · exact ⟨[], _, rfl, .inr (.inl ⟨option, rest, rfl⟩)⟩
    · exact ⟨[], _, rfl, .inr (.inr (.inl ⟨request, rest, rfl⟩))⟩
    · exact ⟨[], _, rfl, .inr (.inr (.inr fun reader => ⟨_, unknown reader rest⟩))⟩

theorem word_cases (name : String) :
    (∃ flag, name = Flag.word flag) ∨ (∃ option, name = ValueOption.word option) ∨
      (∃ request, name = Request.word request) ∨
      ∀ reader attached, takeLong reader name attached =
        .error (.rejected (.unknownOption ("--" ++ name))) := by
  by_contra none
  simp only [not_or, not_exists] at none
  obtain ⟨noFlag, noValue, noRequest, known⟩ := none
  refine known fun reader attached => ?_
  unfold takeLong
  split
  · exact absurd rfl (noValue .format)
  · exact absurd rfl (noValue .output)
  · exact absurd rfl (noFlag .ascii)
  · exact absurd rfl (noFlag .verbose)
  · exact absurd rfl (noRequest .help)
  · exact absurd rfl (noRequest .version)
  · rfl

/-- A long option is a name alone, or has a value behind its first equals sign. -/
theorem splitLong_cases (word : String) : splitLong word.toList = (word, none) ∨
    ∃ name value, word = name ++ ("=" ++ value) ∧ splitLong word.toList = (name, some value) := by
  by_cases member : '=' ∈ word.toList
  · obtain ⟨name, value, whole, noEquals⟩ := List.eq_append_cons_of_mem member
    have same : word = String.ofList name ++ ("=" ++ String.ofList value) := by
      rw [← String.toList_inj, whole]
      simp only [String.toList_append, String.toList_ofList]
      rfl
    refine .inr ⟨_, _, same, ?_⟩
    rw [same]
    exact splitLong_value (by rwa [String.toList_ofList]) _
  · exact .inl (splitLong_word member)

theorem attached_cases (text : List Char) : text = [] ∨ ∃ value, Attached text value := by
  cases text with
  | nil => exact .inl rfl
  | cons first rest =>
    by_cases equals : first = '='
    · exact .inr ⟨rest, equals ▸ .equals rest⟩
    · have noEquals : (first :: rest).head? ≠ some '=' := fun same =>
        equals (Option.some.inj same)
      exact .inr ⟨_, .bare (List.cons_ne_nil _ _) noEquals⟩

/-- A word is the two hyphens, or plain, or a long option, or has the letters of short options. -/
theorem shape_cases (word : String) : word = "--" ∨ PlainWord word ∨
    (∃ body : String, body.toList ≠ [] ∧ word = "--" ++ body) ∨
    ∃ letters : List Char, letters ≠ [] ∧ letters.head? ≠ some '-' ∧
      word = "-" ++ String.ofList letters := by
  by_cases plain : PlainWord word
  · exact .inr (.inl plain)
  · rw [PlainWord, not_or, not_not] at plain
    obtain ⟨more, hyphen⟩ := plain
    obtain ⟨letters, whole⟩ := List.head?_eq_some_iff.mp hyphen
    have same : word = "-" ++ String.ofList letters := by
      rw [← String.toList_inj, whole]
      simp only [String.toList_append, String.toList_ofList]
      rfl
    cases letters with
    | nil => exact absurd same more
    | cons first rest =>
      by_cases second : first = '-'
      · subst second
        have long : word = "--" ++ String.ofList rest := by
          rw [← String.toList_inj, whole]
          simp only [String.toList_append, String.toList_ofList]
          rfl
        cases rest with
        | nil => exact .inl long
        | cons third others =>
          refine .inr (.inr (.inl ⟨_, ?_, long⟩))
          rw [String.toList_ofList]
          exact List.cons_ne_nil _ _
      · exact .inr (.inr (.inr ⟨_, List.cons_ne_nil _ _,
          fun same => second (Option.some.inj same), same⟩))

/-- Every argument but the two hyphens gives settings, makes a request, or is rejected. -/
theorem gives_or_rejected (word : String) : word = "--" ∨
    (∃ given awaited, Argument.Gives word given awaited) ∨
    (∃ given request, Argument.Asks word given request) ∨
    ∀ options, ∃ cause, take ⟨options, none, false⟩ word = .error (.rejected cause) := by
  rcases shape_cases word with rfl | plain | ⟨body, nonempty, rfl⟩ |
    ⟨letters, nonempty, noHyphen, rfl⟩
  · exact .inl rfl
  · exact .inr (.inl ⟨_, _, .input plain⟩)
  · right
    have rejected {name : String} {attached : Option String}
        (split : splitLong body.toList = (name, attached))
        (refused : ∀ reader, ∃ cause, takeLong reader name attached = .error (.rejected cause)) :
        ∀ options, ∃ cause, take ⟨options, none, false⟩ ("--" ++ body) =
          .error (.rejected cause) := fun options => by
      rw [take_long nonempty split]
      exact refused _
    rcases splitLong_cases body with split | ⟨name, value, rfl, split⟩
    · rcases word_cases body with ⟨flag, rfl⟩ | ⟨option, rfl⟩ | ⟨request, rfl⟩ | unknown
      · exact .inl ⟨_, _, .longFlag flag⟩
      · exact .inl ⟨_, _, .longOption option⟩
      · exact .inr (.inl ⟨_, _, .long request⟩)
      · exact .inr (.inr (rejected split fun reader => ⟨_, unknown reader none⟩))
    · rcases word_cases name with ⟨flag, rfl⟩ | ⟨option, rfl⟩ | ⟨request, rfl⟩ | unknown
      · exact .inr (.inr (rejected split fun reader =>
          ⟨.unwantedValue ("--" ++ flag.word), by cases flag <;> rfl⟩))
      · exact .inl ⟨_, _, .longValue option value⟩
      · exact .inr (.inr (rejected split fun reader =>
          ⟨.unwantedValue ("--" ++ request.word), by cases request <;> rfl⟩))
      · exact .inr (.inr (rejected split fun reader => ⟨_, unknown reader _⟩))
  · right
    obtain ⟨flags, rest, rfl, ending⟩ := letters_cases letters
    rcases ending with rfl | ⟨option, text, rfl⟩ | ⟨request, more, rfl⟩ | unknown
    · rw [List.append_nil] at nonempty ⊢
      exact .inl ⟨_, _, .shortFlags (List.map_eq_nil_iff.not.mp nonempty)⟩
    · rcases attached_cases text with rfl | ⟨value, attached⟩
      · exact .inl ⟨_, _, .shortOption flags option⟩
      · exact .inl ⟨_, _, .shortValue flags option attached⟩
    · exact .inr (.inl ⟨_, _, .short flags request more⟩)
    · refine .inr (.inr fun options => ?_)
      rw [take_short nonempty noHyphen, takeShort_flags]
      cases entered : (flags.map Setting.flag).foldlM Options.enter options with
      | error stop =>
        obtain ⟨cause, rfl⟩ := foldlM_enter_error (by simp) entered
        exact ⟨cause, rfl⟩
      | ok next => exact unknown _

/-- Arguments that give no settings are rejected. -/
theorem give_or_rejected (arguments : List String) (options : Options) :
    (∃ settings, Arguments.Give arguments settings) ∨
      ∃ cause, readAll ⟨options, none, false⟩ arguments = .error (.rejected cause) := by
  -- A value is an argument of its own, so that the steps are of one argument or of two.
  induction length : arguments.length using Nat.strongRecOn generalizing arguments options with
  | ind length inductionHypothesis =>
    subst length
    match arguments with
    | [] => exact .inl ⟨_, .done⟩
    | word :: words =>
      rcases gives_or_rejected word with rfl | ⟨given, awaited, gives⟩ | ⟨given, request, asks⟩ |
        unknown
      · exact .inl ⟨_, .names words⟩
      · rw [readAll_gives gives]
        cases entered : given.foldlM Options.enter options with
        | error stop =>
          obtain ⟨cause, rfl⟩ := foldlM_enter_error (noRequest_of_gives gives) entered
          exact .inr ⟨cause, rfl⟩
        | ok next =>
          match awaited, words with
          | none, words =>
            refine (inductionHypothesis _ (Nat.lt_succ_self _) words next rfl).imp_left ?_
            exact fun ⟨_, give⟩ => ⟨_, .argument gives give⟩
          | some option, [] => exact .inr ⟨_, rfl⟩
          | some option, value :: more =>
            by_cases plain : PlainWord value
            · show _ ∨ ∃ cause, readAll ⟨next, some option, false⟩ (value :: more) = _
              rw [readAll_awaited plain]
              cases second : next.enter (.value option value) with
              | error stop =>
                obtain ⟨cause, rfl⟩ := enter_error (fun _ same => by cases same) second
                exact .inr ⟨cause, rfl⟩
              | ok last =>
                refine (inductionHypothesis _ ?_ more last rfl).imp_left ?_
                · exact Nat.lt_succ_of_lt (Nat.lt_succ_self _)
                · exact fun ⟨_, give⟩ => ⟨_, .value gives plain give⟩
            · exact .inr ⟨_, readAll_missing plain option next more⟩
      · exact .inl ⟨_, .request asks words⟩
      · obtain ⟨cause, taken⟩ := unknown options
        refine .inr ⟨cause, ?_⟩
        rw [readAll, List.foldlM_cons, taken]
        rfl

end ArgumentReader

/-! ### Options that hold settings -/

theorem OutputFormat.parse_eq_ok_iff {format : OutputFormat} {text : String} :
    OutputFormat.parse text = .ok format ↔ format.NamedBy text := by
  unfold OutputFormat.parse NamedBy
  cases format <;> simp only [words] <;> grind

namespace Options

variable {options next : Options} {settings : List Setting} {setting : Setting}

theorem concat_eq_toList_iff {α : Type} {front : List α} {last : α} {option : Option α} :
    front ++ [last] = option.toList ↔ option = some last ∧ front = [] := by
  cases option with
  | none => simp
  | some value =>
    simp only [Option.toList_some, List.append_eq_singleton_iff, List.cons.injEq, Option.some.injEq]
    grind

theorem forall₂_concat_toList_iff {α β : Type} {relation : α → β → Prop} {front : List α} {last : α}
    {option : Option β} : List.Forall₂ relation (front ++ [last]) option.toList ↔
      (∃ value, relation last value ∧ option = some value) ∧ front = [] := by
  cases option with
  | none => simp [List.forall₂_nil_right_iff]
  | some value => cases front <;> simp [List.forall₂_nil_right_iff]

/-- The options have a setting. -/
def Has (options : Options) : Setting → Prop
  | .input name => options.input = some name
  | .value .format text => ∃ format, OutputFormat.NamedBy format text ∧ options.format = some format
  | .value .output text => options.output = some text
  | .flag .ascii => options.ascii = true
  | .flag .verbose => options.verbose = true
  | .request _ => False

/-- The options without what a setting gives. -/
def without (options : Options) : Setting → Options
  | .input _ => { options with input := none }
  | .value .format _ => { options with format := none }
  | .value .output _ => { options with output := none }
  | .flag .ascii => { options with ascii := false }
  | .flag .verbose => { options with verbose := false }
  | .request _ => options

/-- A setting is entered into the options without it, and into no others. -/
theorem enter_eq_ok_iff :
    options.enter setting = .ok next ↔ next.Has setting ∧ options = next.without setting := by
  obtain ⟨input, format, ascii, output, verbose⟩ := options
  obtain ⟨nextInput, nextFormat, nextAscii, nextOutput, nextVerbose⟩ := next
  cases setting with
  | input name =>
    simp only [enter, ArgumentReader.giveInput, Has, without]
    cases input <;> grind [Except.map]
  | value option text =>
    cases option with
    | format =>
      simp only [enter, ArgumentReader.give, Has, without, ← OutputFormat.parse_eq_ok_iff]
      cases OutputFormat.parse text <;> cases format <;> grind [Except.map]
    | output =>
      simp only [enter, ArgumentReader.give, Has, without]
      cases output <;> grind [Except.map]
  | flag flag =>
    cases flag with
    | ascii =>
      simp only [enter, ArgumentReader.giveAscii, Has, without]
      cases ascii <;> grind [Except.map]
    | verbose =>
      simp only [enter, ArgumentReader.giveVerbose, Has, without]
      cases verbose <;> grind [Except.map]
  | request request => exact iff_of_false nofun fun held => held.1

theorem hold_nil_iff : options.Hold [] ↔ options = {} := by
  constructor
  · rintro ⟨noInput, noFormat, noOutput, noAscii, noVerbose, -⟩
    obtain ⟨input, format, ascii, output, verbose⟩ := options
    cases format <;> cases ascii <;> cases verbose <;> simp_all
  · rintro rfl
    exact ⟨rfl, .nil, rfl, rfl, rfl, fun _ => nofun⟩

/-- Options hold settings if they have the last one and hold the others without it. -/
theorem hold_concat_iff : next.Hold (settings ++ [setting]) ↔
    next.Has setting ∧ (next.without setting).Hold settings := by
  cases setting with
  | input name =>
    grind [Has, without, hold_iff, concat_eq_toList_iff, Setting.input?, Setting.value?]
  | value option text =>
    cases option with
    | format =>
      have texts : (settings ++ [Setting.value .format text]).filterMap (Setting.value? .format) =
          settings.filterMap (Setting.value? .format) ++ [text] := by
        simp
      rw [hold_iff, hold_iff, texts, forall₂_concat_toList_iff]
      simp only [Has, without, Option.toList_none, List.forall₂_nil_right_iff]
      grind [Setting.input?, Setting.value?]
    | output =>
      grind [Has, without, hold_iff, concat_eq_toList_iff, Setting.input?, Setting.value?]
  | flag flag => cases flag <;> grind [Has, without, hold_iff, Setting.input?, Setting.value?]
  | request request =>
    have never : ¬ next.Hold (settings ++ [.request request]) := fun hold =>
      hold.noRequest request (List.mem_append_right _ List.mem_cons_self)
    exact iff_of_false never fun held => held.1

/-- Entering settings one after the other comes to options that hold them. -/
theorem foldlM_enter_iff : settings.foldlM enter {} = .ok options ↔ options.Hold settings := by
  induction settings using List.reverseRecOn generalizing options with
  | nil =>
    rw [hold_nil_iff, List.foldlM_nil]
    exact ⟨fun same => (Except.ok.inj same).symm, fun same => congrArg Except.ok same.symm⟩
  | append_singleton front setting inductionHypothesis =>
    rw [hold_concat_iff, List.foldlM_append, ← inductionHypothesis]
    cases front.foldlM enter {} with
    | error stop => exact iff_of_false nofun fun ⟨_, same⟩ => nomatch same
    | ok middle =>
      show [setting].foldlM enter middle = .ok options ↔ _
      rw [ArgumentReader.foldlM_enter_singleton, enter_eq_ok_iff, Except.ok.injEq]

theorem enter_request {request : Request}
    (stopped : options.enter setting = .error request.stop) : setting = .request request := by
  by_cases asks : ∃ other, setting = .request other
  · obtain ⟨other, rfl⟩ := asks
    cases other <;> cases request <;> first | rfl | cases stopped
  · obtain ⟨cause, same⟩ := ArgumentReader.enter_error
      (fun other same => asks ⟨other, same⟩) stopped
    cases request <;> cases same

/-- Entering settings ends with a request just if it is one of them and those before it are held. -/
theorem foldlM_enter_request {request : Request} :
    settings.foldlM enter {} = .error request.stop ↔ ∃ before after, ∃ options : Options,
      settings = before ++ .request request :: after ∧ options.Hold before := by
  constructor
  · intro stopped
    induction settings using List.reverseRecOn with
    | nil => cases stopped
    | append_singleton front setting inductionHypothesis =>
      rw [List.foldlM_append] at stopped
      cases entered : front.foldlM enter {} with
      | error stop =>
        rw [entered] at stopped
        obtain ⟨before, after, options, rfl, hold⟩ := inductionHypothesis (entered.trans stopped)
        exact ⟨before, after ++ [setting], options, by simp, hold⟩
      | ok middle =>
        rw [entered] at stopped
        change [setting].foldlM enter middle = _ at stopped
        rw [ArgumentReader.foldlM_enter_singleton] at stopped
        obtain rfl := enter_request stopped
        exact ⟨front, [], middle, rfl, foldlM_enter_iff.mp entered⟩
  · rintro ⟨before, after, options, rfl, hold⟩
    rw [List.foldlM_append, foldlM_enter_iff.mpr hold]
    rfl

end Options

/-- Messages about the process may be asked for in front of arguments that do not ask for them. -/
theorem Options.GivenBy.verbose {options : Options} {arguments : List String}
    (givenBy : options.GivenBy arguments) (quiet : options.verbose = false) :
    { options with verbose := true }.GivenBy ("-v" :: arguments) := by
  obtain ⟨settings, give, hold⟩ := givenBy
  have spelled : "-v" = "-" ++ String.ofList ([Flag.verbose].map Flag.letter) := by decide
  have flag : Argument.Gives "-v" [.flag .verbose] none :=
    spelled ▸ .shortFlags (List.cons_ne_nil _ _)
  refine ⟨_, .argument flag give, ?_⟩
  grind [Options.hold_iff, Setting.input?, Setting.value?]

/-! ### Reading -/

theorem Options.parse_eq_readAll (arguments : List String) :
    Options.parse arguments = ArgumentReader.readAll {} arguments := rfl

/-- Arguments are accepted just if they give settings that some options hold, and these options are
the result. -/
theorem Options.parse_eq_ok_iff {arguments : List String} {options : Options} :
    Options.parse arguments = .ok options ↔ options.GivenBy arguments := by
  rw [parse_eq_readAll]
  constructor
  · intro read
    rcases ArgumentReader.give_or_rejected arguments {} with ⟨settings, give⟩ | ⟨cause, rejected⟩
    · refine ⟨settings, give, foldlM_enter_iff.mp ?_⟩
      rwa [← ArgumentReader.readAll_give give]
    · cases read.symm.trans rejected
  · rintro ⟨settings, give, hold⟩
    rw [ArgumentReader.readAll_give give, foldlM_enter_iff.mpr hold]

/-- The reading of arguments ends with a request just if they make it. -/
theorem Options.parse_eq_stop_iff {arguments : List String} {request : Request} :
    Options.parse arguments = .error request.stop ↔ request.MadeBy arguments := by
  rw [parse_eq_readAll]
  constructor
  · intro read
    rcases ArgumentReader.give_or_rejected arguments {} with ⟨settings, give⟩ | ⟨cause, rejected⟩
    · rw [ArgumentReader.readAll_give give] at read
      obtain ⟨before, after, options, rfl, hold⟩ := foldlM_enter_request.mp read
      exact ⟨before, after, options, give, hold⟩
    · cases request <;> cases read.symm.trans rejected
  · rintro ⟨before, after, options, give, hold⟩
    rw [ArgumentReader.readAll_give give]
    exact foldlM_enter_request.mpr ⟨before, after, options, rfl, hold⟩

end ExprDiagram
