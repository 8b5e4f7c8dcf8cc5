import Kompli.Cli.Plan
import Kompli.ComplianceEngine.StringTools
import Kompli.Foundation.Kinds
import Kompli.Foundation.Loop

/-! The command line: which options each subcommand takes. -/
namespace Kompli.Cli.CliOptions
open Foundation Foundation.Kinds Loop StringTools

inductive Command where
  | help
  | version
  | render
  | plan
  | run
  | list
  deriving DecidableEq

inductive Format where
  | nestedList
  | compactList
  | debug
  | junit

structure Options where
  verbose : Bool := false
  debug : Bool := false
  telemetryEnabled : Bool := false
  continueOnError : Bool := false
  logFile : Option Bytes := none
  format : Option Format := none
  command : Command := .help
  input : Bytes := []
  inputs : List Bytes := []
  suiteName : Option Bytes := none
  toggles : List Toggle := []
  paramOverrides : List ParamOverride := []
  output : Option Bytes := none

/-- What `getopt_long` returns, with `optarg` where the option has an argument. -/
inductive Delivered where
  | help
  | version
  | verbose
  | debug
  | telemetry
  | continueOnError
  | logFile (optarg : CString)
  | format (optarg : CString)
  | suiteName (optarg : CString)
  | output (optarg : CString)
  | audit (optarg : CString)
  | remediate (optarg : CString)
  | enforce (optarg : CString)
  | param (optarg : CString)
  | unknown

def equals : UInt8 := 0x3D

def dot : UInt8 := 0x2E

/-- The argument is in lower case. -/
def parseFormat (formatArg : Bytes) : Except Error Format :=
  if formatArg = utf8 "junit" then .ok .junit
  else if formatArg = utf8 "nested-list" then .ok .nestedList
  else if formatArg = utf8 "compact-list" then .ok .compactList
  else if formatArg = utf8 "debug" then .ok .debug
  else
    .error { message := utf8 "Invalid format: " ++ formatArg ++
               utf8 ". Allowed values: \x7bjunit, nested-list, compact-list, debug\x7d." }

theorem cut_nulFree (arg : CString) : NulFree (arg.val.dropWhile (· ≠ equals)).tail := by
  intro h
  exact arg.property ((List.dropWhile_sublist _).subset (List.mem_of_mem_tail h))

/-- The key stays whole: both of its components may contain dots. -/
def parseParam (arg : CString) : Except Error ParamOverride :=
  let key := arg.val.takeWhile (· ≠ equals)
  let invalid : Error := { message := utf8 "--param must be of the form <ref>.<name>=<value>." }
  if equals ∉ arg.val ∨ key = [] then .error invalid
  else if dot ∉ key ∨ key.head? = some dot ∨ key.getLast? = some dot then .error invalid
  else .ok { selector := key, value := ⟨(arg.val.dropWhile (· ≠ equals)).tail, cut_nulFree arg⟩ }

section Loop

variable (buildTelemetry : Bool) (result : Options)

def toggleTurn (optarg : CString) (mode : ToggleMode) : Turn (Except Error Options) Options :=
  if optarg.val = [] then .leave (.error { message := utf8 "Section must not be empty." })
  else .again { result with toggles := result.toggles ++ [{ section_ := optarg.val, mode }] }

/-- One turn of the loop over the options. -/
def optionTurn : Delivered → Turn (Except Error Options) Options
  | .help => .leave (.ok { result with command := .help })
  | .version => .leave (.ok { result with command := .version })
  | .verbose => .again { result with verbose := true }
  | .debug => .again { result with debug := true }
  | .telemetry =>
    -- the short option is always known to getopt_long
    if buildTelemetry then .again { result with telemetryEnabled := true }
    else .leave (.error { message := utf8 "Unknown option." })
  | .continueOnError => .again { result with continueOnError := true }
  | .logFile optarg =>
    if optarg.val = [] then .leave (.error { message := utf8 "Log file path must not be empty." })
    else .again { result with logFile := some optarg.val }
  | .format optarg =>
    if optarg.val = [] then .leave (.error { message := utf8 "Format must not be empty." })
    else
      match parseFormat (toLower optarg.val) with
      | .ok format => .again { result with format := some format }
      | .error e => .leave (.error e)
  | .suiteName optarg =>
    if optarg.val = [] then .leave (.error { message := utf8 "Suite name must not be empty." })
    else .again { result with suiteName := some optarg.val }
  | .output optarg =>
    if optarg.val = [] then .leave (.error { message := utf8 "Output path must not be empty." })
    else .again { result with output := some optarg.val }
  | .audit optarg => toggleTurn result optarg .audit
  | .remediate optarg => toggleTurn result optarg .remediate
  | .enforce optarg => toggleTurn result optarg .enforce
  | .param optarg =>
    match parseParam optarg with
    | .ok paramOverride => .again { result with paramOverrides := result.paramOverrides ++ [paramOverride] }
    | .error e => .leave (.error e)
  | .unknown => .leave (.error { message := utf8 "Unknown option." })

def takeOptions : List Delivered → Options → Turn (Except Error Options) Options
  | [], result => .again result
  | option :: options, result =>
    match optionTurn buildTelemetry result option with
    | .leave outcome => .leave outcome
    | .again next => takeOptions options next

end Loop

section Checks

variable (result : Options)

def parseCommand (arg : Bytes) : Except Error Command :=
  if arg = utf8 "render" then .ok .render
  else if arg = utf8 "plan" then .ok .plan
  else if arg = utf8 "run" then .ok .run
  else if arg = utf8 "list" then .ok .list
  else
    .error { message := utf8 "Invalid command: '" ++ arg ++ utf8 "'. Must be 'render', 'plan', 'run' or 'list'." }

/-- `plan` takes any number of files, each other subcommand at most one. -/
def takeFiles (files : List CString) : Except Error Options :=
  if result.command = .plan then .ok { result with inputs := result.inputs ++ files.map Subtype.val }
  else
    match files with
    | [] => .ok result
    | [file] => .ok { result with input := file.val }
    | _ => .error { message := utf8 "Too many arguments provided." }

def takePositionals : List CString → Except Error Options
  | [] => .error { message := utf8 "Missing required command: 'render', 'plan', 'run' or 'list'." }
  | arg :: files => do
    let command ← parseCommand arg.val
    takeFiles { result with command } files

def checkPresentation : Except Error Options :=
  if result.command = .render then .ok { result with format := some (result.format.getD .junit) }
  else if result.format.isSome then
    .error { message := utf8 "--format is only valid for the 'render' subcommand; 'plan' and 'run' don't use it." }
  else if result.suiteName.isSome then
    .error { message := utf8 "--suite-name is only valid for the 'render' subcommand." }
  else .ok result

def checkPlanning : Except Error Unit :=
  if result.command = .plan then
    if result.continueOnError then
      .error { message := utf8 "--continue-on-error is not valid for 'plan'; it doesn't execute anything." }
    else .ok ()
  else if result.toggles.isEmpty = false then
    .error { message := utf8 "--audit=/--remediate=/--enforce= are only valid for 'plan'." }
  else if result.paramOverrides.isEmpty = false then .error { message := utf8 "--param= is only valid for 'plan'." }
  else if result.output.isSome then .error { message := utf8 "--output is only valid for 'plan'." }
  else if result.command = .list ∧ result.continueOnError then
    .error { message := utf8 "--continue-on-error is not valid for 'list'; it doesn't execute anything." }
  else .ok ()

/-- The standard input is not read for definitions and plans. -/
def isFile (path : Bytes) : Bool := path ≠ [] ∧ path ≠ utf8 "-"

def checkFiles : Except Error Unit :=
  if result.command = .plan then
    if result.inputs = [] then
      .error { message := utf8 "At least one benchmark-definition file is required for 'plan'." }
    else if result.inputs.all isFile = false then
      .error { message := utf8 "A file argument is required for 'plan'; stdin ('-') is not supported." }
    else .ok ()
  else if (result.command = .run ∨ result.command = .list) ∧ isFile result.input = false then
    .error { message := utf8 "A file argument is required for 'run' and 'list'; stdin ('-') is not supported." }
  else .ok ()

end Checks

/-- What follows the loop over the options. -/
def finish (result : Options) (positionals : List CString) : Except Error Options := do
  let result ← takePositionals result positionals
  let result ← checkPresentation result
  checkPlanning result
  checkFiles result
  .ok result

def parseCommandLine (buildTelemetry : Bool) (options : List Delivered) (positionals : List CString) :
    Except Error Options :=
  match takeOptions buildTelemetry options {} with
  | .leave outcome => outcome
  | .again result => finish result positionals

/-- The three toggles are of one kind: `plan` applies them in their order. -/
inductive OptionKind where
  | help
  | version
  | verbose
  | debug
  | telemetry
  | continueOnError
  | logFile
  | format
  | suiteName
  | output
  | toggle
  | param
  | unknown
  deriving DecidableEq

def Delivered.kind : Delivered → OptionKind
  | .help => .help
  | .version => .version
  | .verbose => .verbose
  | .debug => .debug
  | .telemetry => .telemetry
  | .continueOnError => .continueOnError
  | .logFile _ => .logFile
  | .format _ => .format
  | .suiteName _ => .suiteName
  | .output _ => .output
  | .audit _ | .remediate _ | .enforce _ => .toggle
  | .param _ => .param
  | .unknown => .unknown

def Delivered.toggle : Delivered → Option Toggle
  | .audit optarg => some { section_ := optarg.val, mode := .audit }
  | .remediate optarg => some { section_ := optarg.val, mode := .remediate }
  | .enforce optarg => some { section_ := optarg.val, mode := .enforce }
  | _ => none

def Delivered.param? : Delivered → Option CString
  | .param optarg => some optarg
  | _ => none

/-- The loop goes on after the option. -/
def IsTaken (buildTelemetry : Bool) : Delivered → Prop
  | .help | .version | .unknown => False
  | .verbose | .debug | .continueOnError => True
  | .telemetry => buildTelemetry = true
  | .logFile optarg | .suiteName optarg | .output optarg | .audit optarg | .remediate optarg | .enforce optarg =>
    optarg.val ≠ []
  | .format optarg => optarg.val ≠ [] ∧ (parseFormat (toLower optarg.val)).isOk = true
  | .param optarg => (parseParam optarg).isOk = true

def override (option : Delivered) : Option ParamOverride := option.param?.bind fun optarg => (parseParam optarg).toOption

/-- What is kept of an option that the loop goes on after. -/
def taken (result : Options) : Delivered → Options
  | .help | .version | .unknown => result
  | .verbose => { result with verbose := true }
  | .debug => { result with debug := true }
  | .telemetry => { result with telemetryEnabled := true }
  | .continueOnError => { result with continueOnError := true }
  | .logFile optarg => { result with logFile := some optarg.val }
  | .format optarg => { result with format := (parseFormat (toLower optarg.val)).toOption }
  | .suiteName optarg => { result with suiteName := some optarg.val }
  | .output optarg => { result with output := some optarg.val }
  | .audit optarg => { result with toggles := result.toggles ++ (Delivered.audit optarg).toggle.toList }
  | .remediate optarg => { result with toggles := result.toggles ++ (Delivered.remediate optarg).toggle.toList }
  | .enforce optarg => { result with toggles := result.toggles ++ (Delivered.enforce optarg).toggle.toList }
  | .param optarg =>
    { result with paramOverrides := result.paramOverrides ++ (override (.param optarg)).toList }

section Taking

variable {buildTelemetry : Bool} {result next : Options}

private theorem unless_empty {optarg : CString} {e : Except Error Options} {state : Options} :
    (if optarg.val = [] then Turn.leave e else .again state) = .again next ↔ optarg.val ≠ [] ∧ next = state := by
  by_cases h : optarg.val = []
  · simp [h]
  · simp [h, eq_comm]

theorem optionTurn_again_iff (option : Delivered) :
    optionTurn buildTelemetry result option = .again next ↔
      IsTaken buildTelemetry option ∧ next = taken result option := by
  cases option with
  | help => simp [optionTurn, IsTaken]
  | version => simp [optionTurn, IsTaken]
  | unknown => simp [optionTurn, IsTaken]
  | verbose => simp [optionTurn, IsTaken, taken, eq_comm]
  | debug => simp [optionTurn, IsTaken, taken, eq_comm]
  | continueOnError => simp [optionTurn, IsTaken, taken, eq_comm]
  | telemetry => cases buildTelemetry <;> simp [optionTurn, IsTaken, taken, eq_comm]
  | logFile optarg => exact unless_empty
  | suiteName optarg => exact unless_empty
  | output optarg => exact unless_empty
  | audit optarg => exact unless_empty
  | remediate optarg => exact unless_empty
  | enforce optarg => exact unless_empty
  | format optarg =>
    rw [optionTurn, IsTaken, taken]
    by_cases h : optarg.val = []
    · simp [h]
    · cases hformat : parseFormat (toLower optarg.val) with
      | ok format => simp [h, Except.isOk, Except.toBool, Except.toOption, eq_comm]
      | error e => simp [h, Except.isOk, Except.toBool]
  | param optarg =>
    rw [optionTurn, IsTaken, taken, override, Delivered.param?, Option.bind_some]
    cases hparam : parseParam optarg with
    | ok paramOverride => simp [Except.isOk, Except.toBool, Except.toOption, eq_comm]
    | error e => simp [Except.isOk, Except.toBool]

/-- Whether the loop goes on to the end of the line does not depend on the order of the options. -/
theorem takeOptions_again_iff {options : List Delivered} :
    takeOptions buildTelemetry options result = .again next ↔
      (∀ option ∈ options, IsTaken buildTelemetry option) ∧ next = options.foldl taken result := by
  induction options generalizing result with
  | nil => simp [takeOptions, eq_comm]
  | cons option options ih =>
    rw [takeOptions, List.forall_mem_cons, List.foldl_cons]
    cases hturn : optionTurn buildTelemetry result option with
    | leave outcome =>
      have hnot : ¬ IsTaken buildTelemetry option := by
        intro h
        have hagain : optionTurn buildTelemetry result option = .again (taken result option) :=
          (optionTurn_again_iff option).mpr ⟨h, rfl⟩
        rw [hturn] at hagain
        nomatch hagain
      simp [hnot]
    | again state =>
      obtain ⟨htaken, rfl⟩ := (optionTurn_again_iff option).mp hturn
      simp only [ih, htaken, true_and]

private theorem unless_fails {P : Prop} [Decidable P] {e : Error} {state outcome : Options} :
    (if P then Turn.leave (Except.error (α := Options) e) else .again state) ≠ .leave (Except.ok outcome) := by
  by_cases h : P
  · simp [h]
  · simp [h]

theorem optionTurn_leave {option : Delivered} {outcome : Options}
    (h : optionTurn buildTelemetry result option = .leave (.ok outcome)) : option = .help ∨ option = .version := by
  cases option with
  | help => exact Or.inl rfl
  | version => exact Or.inr rfl
  | verbose | debug | continueOnError | unknown => cases h
  | telemetry => cases buildTelemetry <;> cases h
  | logFile optarg | suiteName optarg | output optarg => exact absurd h unless_fails
  | audit optarg | remediate optarg | enforce optarg => exact absurd h unless_fails
  | format optarg =>
    rw [optionTurn] at h
    by_cases hempty : optarg.val = []
    · rw [if_pos hempty] at h
      cases h
    · rw [if_neg hempty] at h
      cases hformat : parseFormat (toLower optarg.val) <;> rw [hformat] at h <;> cases h
  | param optarg =>
    rw [optionTurn] at h
    cases hparam : parseParam optarg <;> rw [hparam] at h <;> cases h

/-- Only help and version end the loop with a result. -/
theorem takeOptions_leave {options : List Delivered} {outcome : Options} (hhelp : .help ∉ options)
    (hversion : .version ∉ options) : takeOptions buildTelemetry options result ≠ .leave (.ok outcome) := by
  induction options generalizing result with
  | nil => exact (nomatch ·)
  | cons option options ih =>
    rw [takeOptions]
    cases hturn : optionTurn buildTelemetry result option with
    | again state =>
      exact ih (fun h => hhelp (List.mem_cons_of_mem _ h)) fun h => hversion (List.mem_cons_of_mem _ h)
    | leave left =>
      intro h
      cases h
      obtain rfl | rfl := optionTurn_leave hturn
      · exact hhelp List.mem_cons_self
      · exact hversion List.mem_cons_self

/-- Options of different kinds set different fields. -/
theorem taken_comm (result : Options) (a b : Delivered) (h : a.kind ≠ b.kind) :
    taken (taken result a) b = taken (taken result b) a := by
  cases a <;> cases b <;> first | rfl | exact absurd rfl h

end Taking

/-- An option of the kind is on the line. -/
def Given (options : List Delivered) (kind : OptionKind) : Prop := ∃ option ∈ options, option.kind = kind

instance (options : List Delivered) (kind : OptionKind) : Decidable (Given options kind) :=
  inferInstanceAs (Decidable (∃ option ∈ options, option.kind = kind))

/-- What the loop keeps of the options it has gone through. -/
structure Collects (options : List Delivered) (result : Options) : Prop where
  continueOnError : result.continueOnError = true ↔ Given options .continueOnError
  format : result.format.isSome = true ↔ Given options .format
  suiteName : result.suiteName.isSome = true ↔ Given options .suiteName
  output : result.output.isSome = true ↔ Given options .output
  toggles : result.toggles = options.filterMap Delivered.toggle
  paramOverrides : result.paramOverrides = options.filterMap override
  inputs : result.inputs = []
  input : result.input = []

theorem isSome_toOption {α : Type} {x : Except Error α} (h : x.isOk = true) : x.toOption.isSome = true := by
  cases x with
  | ok value => rfl
  | error e => cases h

private theorem foldl_given {options : List Delivered} {kind : OptionKind} (flag : Options → Prop) (hstart : ¬ flag {})
    (hstep : ∀ option ∈ options, ∀ result, flag (taken result option) ↔ flag result ∨ option.kind = kind) :
    flag (options.foldl taken {}) ↔ Given options kind :=
  (foldl_sets flag hstep {}).trans (or_iff_right hstart)

theorem foldl_collects {buildTelemetry : Bool} {options : List Delivered}
    (h : ∀ option ∈ options, IsTaken buildTelemetry option) : Collects options (options.foldl taken {}) where
  continueOnError := by
    refine foldl_given (fun result => result.continueOnError = true) (by simp) fun option _ result => ?_
    cases option <;> simp [taken, Delivered.kind]
  format := by
    refine foldl_given (fun result => result.format.isSome = true) (by simp) fun option hmem result => ?_
    cases option with
    | format optarg => simp [taken, Delivered.kind, isSome_toOption (h _ hmem).2]
    | _ => simp [taken, Delivered.kind]
  suiteName := by
    refine foldl_given (fun result => result.suiteName.isSome = true) (by simp) fun option _ result => ?_
    cases option <;> simp [taken, Delivered.kind]
  output := by
    refine foldl_given (fun result => result.output.isSome = true) (by simp) fun option _ result => ?_
    cases option <;> simp [taken, Delivered.kind]
  toggles := by
    refine foldl_appends Options.toggles (fun option _ result => ?_) {}
    cases option <;> simp [taken, Delivered.toggle]
  paramOverrides := by
    refine foldl_appends Options.paramOverrides (fun option _ result => ?_) {}
    cases option <;> simp [taken, override, Delivered.param?]
  inputs := by
    have hnone : options.filterMap (fun _ => (none : Option Bytes)) = [] := by simp
    refine (foldl_appends Options.inputs (fun option _ result => ?_) {}).trans hnone
    cases option <;> simp [taken]
  input := by
    have hnone : options.filterMap (fun _ => (none : Option UInt8)) = [] := by simp
    refine (foldl_appends Options.input (fun option _ result => ?_) {}).trans hnone
    cases option <;> simp [taken]

section Finish

variable {result next : Options} {positionals files : List CString}

theorem parseCommand_ok_iff {arg : Bytes} {command : Command} :
    parseCommand arg = .ok command ↔
      (arg = utf8 "render" ∧ command = .render) ∨ (arg = utf8 "plan" ∧ command = .plan) ∨
        (arg = utf8 "run" ∧ command = .run) ∨ (arg = utf8 "list" ∧ command = .list) := by
  rw [parseCommand]
  constructor
  · intro h
    split_ifs at h with hrender hplan hrun hlist
    · exact Or.inl ⟨hrender, (Except.ok.inj h).symm⟩
    · exact Or.inr (Or.inl ⟨hplan, (Except.ok.inj h).symm⟩)
    · exact Or.inr (Or.inr (Or.inl ⟨hrun, (Except.ok.inj h).symm⟩))
    · exact Or.inr (Or.inr (Or.inr ⟨hlist, (Except.ok.inj h).symm⟩))
  · rintro (⟨rfl, rfl⟩ | ⟨rfl, rfl⟩ | ⟨rfl, rfl⟩ | ⟨rfl, rfl⟩) <;> rfl

theorem takeFiles_ok_iff : takeFiles result files = .ok next ↔
    (result.command = .plan ∧ next = { result with inputs := result.inputs ++ files.map Subtype.val }) ∨
      (result.command ≠ .plan ∧
        (files = [] ∧ next = result ∨ ∃ file, files = [file] ∧ next = { result with input := file.val })) := by
  unfold takeFiles
  by_cases hplan : result.command = .plan
  · simp [hplan, eq_comm]
  · rw [if_neg hplan, or_iff_right fun h => hplan h.1, and_iff_right hplan]
    rcases files with _ | ⟨file, _ | ⟨second, rest⟩⟩
    · simp [eq_comm]
    · simp [eq_comm]
    · simp

theorem checkPresentation_ok_iff : checkPresentation result = .ok next ↔
    (result.command = .render ∧ next = { result with format := some (result.format.getD .junit) }) ∨
      (result.command ≠ .render ∧ result.format.isSome = false ∧ result.suiteName.isSome = false ∧ next = result) := by
  rw [checkPresentation]
  by_cases hrender : result.command = .render
  · rw [if_pos hrender, or_iff_left fun h => h.1 hrender, and_iff_right hrender, Except.ok.injEq, eq_comm]
  · rw [if_neg hrender, or_iff_right fun h => hrender h.1, and_iff_right hrender]
    cases result.format.isSome
    · cases result.suiteName.isSome
      · simp [eq_comm]
      · simp
    · simp

/-- What the checks that follow look at is as the loop left it. -/
structure Keeps (result next : Options) : Prop where
  command : next.command = result.command
  continueOnError : next.continueOnError = result.continueOnError
  toggles : next.toggles = result.toggles
  paramOverrides : next.paramOverrides = result.paramOverrides
  output : next.output = result.output

theorem Keeps.trans {last : Options} (h : Keeps result next) (h' : Keeps next last) : Keeps result last :=
  ⟨h'.command.trans h.command, h'.continueOnError.trans h.continueOnError, h'.toggles.trans h.toggles,
    h'.paramOverrides.trans h.paramOverrides, h'.output.trans h.output⟩

theorem takeFiles_keeps (h : takeFiles result files = .ok next) :
    Keeps result next ∧ next.format = result.format ∧ next.suiteName = result.suiteName := by
  obtain ⟨-, rfl⟩ | ⟨-, ⟨-, rfl⟩ | ⟨file, -, rfl⟩⟩ := takeFiles_ok_iff.mp h
  · exact ⟨⟨rfl, rfl, rfl, rfl, rfl⟩, rfl, rfl⟩
  · exact ⟨⟨rfl, rfl, rfl, rfl, rfl⟩, rfl, rfl⟩
  · exact ⟨⟨rfl, rfl, rfl, rfl, rfl⟩, rfl, rfl⟩

theorem checkPresentation_keeps (h : checkPresentation result = .ok next) :
    Keeps result next ∧ next.input = result.input ∧ next.inputs = result.inputs := by
  obtain ⟨-, rfl⟩ | ⟨-, -, -, rfl⟩ := checkPresentation_ok_iff.mp h
  · exact ⟨⟨rfl, rfl, rfl, rfl, rfl⟩, rfl, rfl⟩
  · exact ⟨⟨rfl, rfl, rfl, rfl, rfl⟩, rfl, rfl⟩

theorem checkPlanning_ok_iff : checkPlanning result = .ok () ↔
    (result.command = .plan ∧ result.continueOnError = false) ∨
      (result.command ≠ .plan ∧ result.toggles = [] ∧ result.paramOverrides = [] ∧ result.output.isSome = false ∧
        ¬ (result.command = .list ∧ result.continueOnError = true)) := by
  rw [checkPlanning]
  by_cases hplan : result.command = .plan
  · cases hcontinue : result.continueOnError <;> simp [hplan]
  · rw [if_neg hplan, or_iff_right fun h => hplan h.1, and_iff_right hplan]
    cases result.toggles
    · cases result.paramOverrides
      · cases result.output.isSome <;> simp
      · simp
    · simp

theorem isFile_iff {path : Bytes} : isFile path = true ↔ path ≠ [] ∧ path ≠ utf8 "-" := decide_eq_true_iff

theorem checkFiles_ok_iff : checkFiles result = .ok () ↔
    (result.command = .plan → result.inputs ≠ [] ∧ ∀ file ∈ result.inputs, isFile file = true) ∧
      (result.command = .run ∨ result.command = .list → isFile result.input = true) := by
  rw [checkFiles]
  by_cases hplan : result.command = .plan
  · rw [if_pos hplan, and_iff_left (by simp [hplan])]
    by_cases hnone : result.inputs = []
    · simp [hnone, hplan]
    · rw [if_neg hnone]
      cases hall : result.inputs.all isFile with
      | true => simpa [hplan, hnone] using hall
      | false => simpa [hplan, hnone] using hall
  · rw [if_neg hplan, and_iff_right fun h => absurd h hplan]
    cases isFile result.input <;> simp

theorem finish_ok_iff : finish result positionals = .ok next ↔
    ∃ arg files command named, positionals = arg :: files ∧ parseCommand arg.val = .ok command ∧
      takeFiles { result with command } files = .ok named ∧ checkPresentation named = .ok next ∧
      checkPlanning next = .ok () ∧ checkFiles next = .ok () := by
  rw [finish]
  constructor
  · intro h
    obtain ⟨taken, htake, h⟩ := except_bind_ok_iff.mp h
    obtain ⟨shown, hshown, h⟩ := except_bind_ok_iff.mp h
    obtain ⟨⟨⟩, hplanning, h⟩ := except_bind_ok_iff.mp h
    obtain ⟨⟨⟩, hfiles, h⟩ := except_bind_ok_iff.mp h
    cases h
    cases positionals with
    | nil => cases htake
    | cons arg files =>
      obtain ⟨command, hcommand, htake⟩ := except_bind_ok_iff.mp htake
      exact ⟨arg, files, command, taken, rfl, hcommand, htake, hshown, hplanning, hfiles⟩
  · rintro ⟨arg, files, command, named, rfl, hcommand, htake, hshown, hplanning, hfiles⟩
    rw [takePositionals, hcommand, except_ok_bind, htake, except_ok_bind, hshown, except_ok_bind, hplanning,
      except_ok_bind, hfiles]
    rfl

end Finish

/-- The override is the argument split at its first `=`. -/
def SplitsAtFirst (optarg : CString) (paramOverride : ParamOverride) : Prop :=
  equals ∉ paramOverride.selector ∧ optarg.val = paramOverride.selector ++ equals :: paramOverride.value.val

theorem parseParam_splits {arg : CString} {paramOverride : ParamOverride} (h : parseParam arg = .ok paramOverride) :
    SplitsAtFirst arg paramOverride := by
  rw [parseParam] at h
  split_ifs at h with hnone hdots
  cases h
  rw [not_or, not_not] at hnone
  exact ⟨not_mem_takeWhile arg.val, (cut_append hnone.1).symm⟩

section Scoping

variable (buildTelemetry : Bool) (options : List Delivered) (positionals : List CString) (result : Options)

/-- What is asked of an accepted line: each subcommand has its own options and files, and what can be
repeated is kept in the line's order. -/
structure Scoped : Prop where
  presentation : Given options .format ∨ Given options .suiteName → result.command = .render
  planning : Given options .toggle ∨ Given options .param ∨ Given options .output → result.command = .plan
  running : Given options .continueOnError → result.command = .run
  file : result.command = .run ∨ result.command = .list → ∃ arg file, positionals = [arg, file] ∧
    result.input = file.val ∧ file.val ≠ [] ∧ file.val ≠ utf8 "-"
  files : result.command = .plan → ∃ arg files, positionals = arg :: files ∧ files ≠ [] ∧
    result.inputs = files.map Subtype.val ∧ ∀ file ∈ files, file.val ≠ [] ∧ file.val ≠ utf8 "-"
  toggles : result.toggles = options.filterMap Delivered.toggle
  paramOverrides : List.Forall₂ SplitsAtFirst (options.filterMap Delivered.param?) result.paramOverrides

/-- Lines without help and version that are accepted are scoped, and options of different kinds may be
permuted in them. -/
def StaysWithSubcommand : Prop :=
  .help ∉ options → .version ∉ options → ∀ result, parseCommandLine buildTelemetry options positionals = .ok result →
    Scoped options positionals result ∧
      ∀ permuted, SameByKind Delivered.kind options permuted →
        parseCommandLine buildTelemetry permuted positionals = .ok result

/-- Nothing but `--continue-on-error` is wrong with the line, and it renders. -/
structure RendersOnErrors : Prop where
  continues : Given options .continueOnError
  renders : ∃ arg files, positionals = arg :: files ∧ arg.val = utf8 "render" ∧ files.length ≤ 1
  taken : ∀ option ∈ options, IsTaken buildTelemetry option
  noToggle : ¬ Given options .toggle
  noParam : ¬ Given options .param
  noOutput : ¬ Given options .output

variable {buildTelemetry options positionals result}

theorem parseCommandLine_ok_iff (hhelp : .help ∉ options) (hversion : .version ∉ options) :
    parseCommandLine buildTelemetry options positionals = .ok result ↔
      (∀ option ∈ options, IsTaken buildTelemetry option) ∧ finish (options.foldl taken {}) positionals = .ok result := by
  rw [parseCommandLine]
  cases hloop : takeOptions buildTelemetry options {} with
  | again collected =>
    obtain ⟨htaken, rfl⟩ := takeOptions_again_iff.mp hloop
    exact (and_iff_right htaken).symm
  | leave outcome =>
    constructor
    · intro h
      subst h
      exact absurd hloop (takeOptions_leave hhelp hversion)
    · rintro ⟨htaken, -⟩
      rw [takeOptions_again_iff.mpr ⟨htaken, rfl⟩] at hloop
      nomatch hloop

theorem parseCommandLine_permuted (hhelp : .help ∉ options) (hversion : .version ∉ options)
    (h : parseCommandLine buildTelemetry options positionals = .ok result) {permuted : List Delivered}
    (hsame : SameByKind Delivered.kind options permuted) :
    parseCommandLine buildTelemetry permuted positionals = .ok result := by
  obtain ⟨htaken, hfinish⟩ := (parseCommandLine_ok_iff hhelp hversion).mp h
  apply (parseCommandLine_ok_iff (mt (hsame.mem_iff _).mpr hhelp) (mt (hsame.mem_iff _).mpr hversion)).mpr
  rw [← foldl_sameByKind taken_comm hsame]
  exact ⟨fun option hoption => htaken option ((hsame.mem_iff option).mpr hoption), hfinish⟩

theorem toggles_eq_nil_iff : options.filterMap Delivered.toggle = [] ↔ ¬ Given options .toggle := by
  rw [List.filterMap_eq_nil_iff, Given, not_exists]
  apply forall_congr'
  intro option
  cases option <;> simp [Delivered.toggle, Delivered.kind]

theorem overrides_eq_nil_iff (htaken : ∀ option ∈ options, IsTaken buildTelemetry option) :
    options.filterMap override = [] ↔ ¬ Given options .param := by
  rw [List.filterMap_eq_nil_iff, Given, not_exists]
  apply forall_congr'
  intro option
  rw [not_and]
  apply forall_congr'
  intro hoption
  cases option with
  | param optarg =>
    have hsome : override (.param optarg) ≠ none := Option.isSome_iff_ne_none.mp (isSome_toOption (htaken _ hoption))
    simp [hsome, Delivered.kind]
  | _ => simp [override, Delivered.param?, Delivered.kind]

theorem overrides_split (htaken : ∀ option ∈ options, IsTaken buildTelemetry option) :
    List.Forall₂ SplitsAtFirst (options.filterMap Delivered.param?) (options.filterMap override) := by
  induction options with
  | nil => exact .nil
  | cons option options ih =>
    have hrest := ih fun option hoption => htaken option (List.mem_cons_of_mem _ hoption)
    cases hparam : option.param? with
    | none =>
      have hnone : override option = none := by rw [override, hparam, Option.bind_none]
      rwa [List.filterMap_cons_none hparam, List.filterMap_cons_none hnone]
    | some optarg =>
      have hoption : option = .param optarg := by
        cases option <;> simp_all [Delivered.param?]
      subst hoption
      have hok := htaken _ List.mem_cons_self
      cases hparse : parseParam optarg with
      | error e => rw [IsTaken, hparse] at hok; cases hok
      | ok paramOverride =>
        have hsome : override (.param optarg) = some paramOverride := by
          rw [override, hparam, Option.bind_some, hparse, Except.toOption]
        rw [List.filterMap_cons_some hparam, List.filterMap_cons_some hsome]
        exact .cons (parseParam_splits hparse) hrest

/-- The checks after the loop leave nothing but a rendering line that continues on errors. -/
theorem finish_scoped (htaken : ∀ option ∈ options, IsTaken buildTelemetry option)
    (hgood : ¬ RendersOnErrors buildTelemetry options positionals)
    (h : finish (options.foldl taken {}) positionals = .ok result) : Scoped options positionals result := by
  have hc := foldl_collects htaken
  generalize options.foldl taken {} = collected at h hc
  obtain ⟨arg, files, command, named, rfl, hcommand, htake, hshown, hplanning, hfiles⟩ := finish_ok_iff.mp h
  obtain ⟨hnamed, hformat, hsuite⟩ := takeFiles_keeps htake
  obtain ⟨hresult, hinput, hinputs⟩ := checkPresentation_keeps hshown
  have hkeeps := hnamed.trans hresult
  have hunplanned : result.command ≠ .plan → ¬ Given options .toggle ∧ ¬ Given options .param ∧ ¬ Given options .output ∧
      ¬ (result.command = .list ∧ result.continueOnError = true) := by
    intro hplan
    obtain ⟨hyes, -⟩ | ⟨-, htoggles, hparams, houtput, hlist⟩ := checkPlanning_ok_iff.mp hplanning
    · exact absurd hyes hplan
    · rw [hkeeps.toggles, hc.toggles] at htoggles
      rw [hkeeps.paramOverrides, hc.paramOverrides] at hparams
      rw [hkeeps.output] at houtput
      exact ⟨toggles_eq_nil_iff.mp htoggles, (overrides_eq_nil_iff htaken).mp hparams,
        fun hgiven => Bool.false_ne_true (houtput.symm.trans (hc.output.mpr hgiven)), hlist⟩
  have hone : result.command ≠ .plan →
      files = [] ∧ result.input = [] ∨ ∃ file, files = [file] ∧ result.input = file.val := by
    intro hplan
    rw [hkeeps.command] at hplan
    obtain ⟨hyes, -⟩ | ⟨-, ⟨hnil, rfl⟩ | ⟨file, hfile, rfl⟩⟩ := takeFiles_ok_iff.mp htake
    · exact absurd hyes hplan
    · exact Or.inl ⟨hnil, hinput.trans hc.input⟩
    · exact Or.inr ⟨file, hfile, hinput⟩
  refine ⟨?_, ?_, ?_, ?_, ?_, ?_, ?_⟩
  · intro hgiven
    obtain ⟨hrender, -⟩ | ⟨-, hnoformat, hnosuite, -⟩ := checkPresentation_ok_iff.mp hshown
    · exact hresult.command.trans hrender
    · rw [hformat] at hnoformat
      rw [hsuite] at hnosuite
      obtain hgiven | hgiven := hgiven
      · exact absurd (hc.format.mpr hgiven) (Bool.eq_false_iff.mp hnoformat)
      · exact absurd (hc.suiteName.mpr hgiven) (Bool.eq_false_iff.mp hnosuite)
  · intro hgiven
    by_contra hplan
    obtain ⟨htoggle, hparam, houtput, -⟩ := hunplanned hplan
    exact hgiven.elim htoggle fun hgiven => hgiven.elim hparam houtput
  · intro hgiven
    have hcontinue : result.continueOnError = true := hkeeps.continueOnError.trans (hc.continueOnError.mpr hgiven)
    obtain ⟨hname, rfl⟩ | ⟨-, rfl⟩ | ⟨-, rfl⟩ | ⟨-, rfl⟩ := parseCommand_ok_iff.mp hcommand
    · -- the check that is missing
      have hrender : result.command ≠ .plan := by
        rw [hkeeps.command]
        exact (nomatch ·)
      obtain ⟨htoggle, hparam, houtput, -⟩ := hunplanned hrender
      have hlength : files.length ≤ 1 := by
        obtain ⟨rfl, -⟩ | ⟨file, rfl, -⟩ := hone hrender
        · exact Nat.zero_le 1
        · exact le_rfl
      exact absurd ⟨hgiven, ⟨arg, files, rfl, hname, hlength⟩, htaken, htoggle, hparam, houtput⟩ hgood
    · obtain ⟨-, hstops⟩ | ⟨hplan, -⟩ := checkPlanning_ok_iff.mp hplanning
      · exact absurd hcontinue (Bool.eq_false_iff.mp hstops)
      · exact absurd hkeeps.command hplan
    · exact hkeeps.command
    · have hlist : result.command = .list := hkeeps.command
      obtain ⟨-, -, -, hstops⟩ := hunplanned (by rw [hlist]; decide)
      exact absurd ⟨hlist, hcontinue⟩ hstops
  · intro hread
    have hplan : result.command ≠ .plan := by
      obtain hread | hread := hread <;> rw [hread] <;> decide
    have hisFile := (checkFiles_ok_iff.mp hfiles).2 hread
    obtain ⟨-, hnil⟩ | ⟨file, rfl, hfile⟩ := hone hplan
    · rw [hnil] at hisFile
      exact absurd rfl (isFile_iff.mp hisFile).1
    · rw [hfile, isFile_iff] at hisFile
      exact ⟨arg, file, rfl, hfile, hisFile⟩
  · intro hplan
    obtain ⟨hsome, hall⟩ := (checkFiles_ok_iff.mp hfiles).1 hplan
    rw [hkeeps.command] at hplan
    obtain ⟨-, rfl⟩ | ⟨hnot, -⟩ := takeFiles_ok_iff.mp htake
    · have hpaths : result.inputs = files.map Subtype.val := by
        rw [hinputs, hc.inputs]
        exact List.nil_append _
      rw [hpaths] at hsome hall
      exact ⟨arg, files, rfl, fun hnil => hsome (by rw [hnil, List.map_nil]), hpaths, fun file hfile =>
        isFile_iff.mp (hall file.val (List.mem_map_of_mem hfile))⟩
    · exact absurd hplan hnot
  · exact hkeeps.toggles.trans hc.toggles
  · rw [hkeeps.paramOverrides, hc.paramOverrides]
    exact overrides_split htaken

theorem rendersOnErrors_accepted (h : RendersOnErrors buildTelemetry options positionals) :
    ∃ result, parseCommandLine buildTelemetry options positionals = .ok result ∧ result.command = .render := by
  have hhelp : .help ∉ options := fun hmem => h.taken _ hmem
  have hversion : .version ∉ options := fun hmem => h.taken _ hmem
  have hc := foldl_collects h.taken
  obtain ⟨arg, files, rfl, hname, hlength⟩ := h.renders
  have hfiles : ∃ named, takeFiles { options.foldl taken {} with command := .render } files = .ok named := by
    rcases files with _ | ⟨file, _ | ⟨second, rest⟩⟩
    · exact ⟨_, rfl⟩
    · exact ⟨_, rfl⟩
    · exact absurd hlength (by simp)
  obtain ⟨named, htake⟩ := hfiles
  obtain ⟨hkeeps, -, -⟩ := takeFiles_keeps htake
  have hshown : checkPresentation named = .ok { named with format := some (named.format.getD .junit) } :=
    checkPresentation_ok_iff.mpr (Or.inl ⟨hkeeps.command, rfl⟩)
  refine ⟨_, (parseCommandLine_ok_iff hhelp hversion).mpr ⟨h.taken, finish_ok_iff.mpr
    ⟨arg, files, .render, named, rfl, parseCommand_ok_iff.mpr (Or.inl ⟨hname, rfl⟩), htake, hshown, ?_, ?_⟩⟩,
    hkeeps.command⟩
  · refine checkPlanning_ok_iff.mpr (Or.inr ⟨?_, ?_, ?_, ?_, ?_⟩)
    · rw [hkeeps.command]
      exact (nomatch ·)
    · exact hkeeps.toggles.trans (hc.toggles.trans (toggles_eq_nil_iff.mpr h.noToggle))
    · exact hkeeps.paramOverrides.trans (hc.paramOverrides.trans ((overrides_eq_nil_iff h.taken).mpr h.noParam))
    · rw [hkeeps.output]
      exact Bool.eq_false_iff.mpr (mt hc.output.mp h.noOutput)
    · rw [hkeeps.command]
      exact fun hlist => nomatch hlist.1
  · apply checkFiles_ok_iff.mpr
    rw [hkeeps.command]
    exact ⟨(nomatch ·), by rintro (h | h) <;> cases h⟩

/-- Rendering is the one subcommand for which `--continue-on-error` was forgotten. -/
theorem staysWithSubcommand_iff : StaysWithSubcommand buildTelemetry options positionals ↔
    ¬ RendersOnErrors buildTelemetry options positionals := by
  constructor
  · intro hstays hbad
    obtain ⟨result, haccepted, hrender⟩ := rendersOnErrors_accepted hbad
    obtain ⟨hscoped, -⟩ := hstays (fun h => hbad.taken _ h) (fun h => hbad.taken _ h) result haccepted
    have hrun := hscoped.running hbad.continues
    rw [hrender] at hrun
    nomatch hrun
  · intro hgood hhelp hversion result haccepted
    obtain ⟨htaken, hfinish⟩ := (parseCommandLine_ok_iff hhelp hversion).mp haccepted
    exact ⟨finish_scoped htaken hgood hfinish, fun permuted => parseCommandLine_permuted hhelp hversion haccepted⟩

end Scoping

/-- `kompli -e render result.json` is accepted. -/
theorem render_continues_on_error : ¬ StaysWithSubcommand false [.continueOnError]
    [⟨utf8 "render", by decide⟩, ⟨utf8 "result.json", by decide⟩] := by
  intro hstays
  obtain ⟨result, haccepted, hrender⟩ : ∃ result, parseCommandLine false [.continueOnError]
      [⟨utf8 "render", by decide⟩, ⟨utf8 "result.json", by decide⟩] = .ok result ∧ result.command = .render :=
    ⟨_, rfl, rfl⟩
  obtain ⟨hscoped, -⟩ := hstays (by simp) (by simp) result haccepted
  have hrun := hscoped.running ⟨.continueOnError, List.mem_cons_self, rfl⟩
  rw [hrender] at hrun
  nomatch hrun

end Kompli.Cli.CliOptions
