import Inspector.Command

/-! The command line: what its arguments ask for, and what running them does. -/
namespace Inspector.CommandLine

inductive Refusal where
  | help
  | usage
  deriving DecidableEq, Inhabited, Repr

structure Spec (σ : Type) where
  short : Option Char := none
  long : String
  isSet : σ → Bool
  /-- Nothing comes of a value that cannot be used. -/
  set : σ → String → Option σ

def Spec.of {σ α : Type} (short : Option Char) (long : String) (get : σ → Option α)
    (parse : String → Option α) (put : σ → α → σ) : Spec σ where
  short := short
  long := long
  isSet r := (get r).isSome
  set r v := (parse v).map (put r)

structure Reading (σ : Type) where
  values : σ
  verbose : Bool := false
  inputs : List String := []

namespace Reading

variable {σ : Type}

def setVerbose (r : Reading σ) : Except Refusal (Reading σ) :=
  if r.verbose then .error .usage else .ok { r with verbose := true }

def setValue (r : Reading σ) (spec : Spec σ) (value : String) : Except Refusal (Reading σ) :=
  if spec.isSet r.values then .error .usage
  else
    match spec.set r.values value with
    | some values => .ok { r with values }
    | none => .error .usage

/-- Reads letters behind one dash. An option takes what follows it as its value, or waits for the
next argument. -/
def letters (specs : List (Spec σ)) (r : Reading σ) :
    List Char → Except Refusal (Reading σ × Option (Spec σ))
  | [] => .ok (r, none)
  | c :: cs =>
    if c = 'h' then .error .help
    else if c = 'v' then do letters specs (← r.setVerbose) cs
    else
      match specs.find? (·.short == some c) with
      | none => .error .usage
      | some spec =>
        match cs with
        | [] => .ok (r, some spec)
        | '=' :: value => do return (← r.setValue spec (String.ofList value), none)
        | value => do return (← r.setValue spec (String.ofList value), none)

def word (specs : List (Spec σ)) (r : Reading σ) (cs : List Char) :
    Except Refusal (Reading σ × Option (Spec σ)) :=
  let name := String.ofList (cs.takeWhile (· ≠ '='))
  match cs.dropWhile (· ≠ '=') with
  | [] =>
    if name = "help" then .error .help
    else if name = "verbose" then do return (← r.setVerbose, none)
    else
      match specs.find? (·.long == name) with
      | none => .error .usage
      | some spec => .ok (r, some spec)
  | _ :: value =>
    match specs.find? (·.long == name) with
    | none => .error .usage
    | some spec => do return (← r.setValue spec (String.ofList value), none)

/-- Reads arguments to the end. `waiting` is an option whose value has to come next. -/
def arguments (specs : List (Spec σ)) (waiting : Option (Spec σ)) (r : Reading σ) :
    List String → Except Refusal (Reading σ)
  | [] => if waiting.isSome then .error .usage else .ok r
  | a :: rest =>
    match waiting, a.toList with
    | some _, '-' :: _ :: _ => .error .usage
    | some spec, _ => do arguments specs none (← r.setValue spec a) rest
    | none, ['-', '-'] => .ok { r with inputs := r.inputs ++ rest }
    | none, '-' :: '-' :: cs => do
      let (r, waiting) ← r.word specs cs
      arguments specs waiting r rest
    | none, '-' :: c :: cs => do
      let (r, waiting) ← r.letters specs (c :: cs)
      arguments specs waiting r rest
    | none, _ => arguments specs none { r with inputs := r.inputs ++ [a] } rest

end Reading

def path? (s : String) : Option String := if s.isEmpty then none else some s

/-- A decimal number of 32 bits, with a sign or without one. -/
def word? (s : String) : Option UInt32 :=
  let cs := s.toList
  let digits := if cs.head? = some '+' ∨ cs.head? = some '-' then cs.drop 1 else cs
  if digits.isEmpty ∨ !digits.all Char.isDigit then none
  else
    let n := digits.foldl (fun n c => n * 10 + (c.toNat - '0'.toNat)) 0
    if UInt32.size ≤ n ∨ (cs.head? = some '-' ∧ n ≠ 0) then none else some (UInt32.ofNat n)

structure CodegenOptions where
  flags : Preferences := {}
  config : Option String := none

def codegenSpecs : List (Spec CodegenOptions) := [
  .of (some 'o') "output" (·.flags.outputDir) path? fun r a =>
    { r with flags.outputDir := some a },
  .of (some 'b') "backend" (·.flags.backends) BackendChoice.ofName? fun r a =>
    { r with flags.backends := some a },
  .of none "on-redeclare" (·.flags.policy) Policy.ofName? fun r a =>
    { r with flags.policy := some a },
  .of none "max-depth" (·.flags.maxDepth) word? fun r a => { r with flags.maxDepth := some a },
  .of (some 'c') "config" (·.config) path? fun r a => { r with config := some a }]

structure AnalyzeOptions where
  format : Option ReportFormat := none
  policy : Option Policy := none

def analyzeSpecs : List (Spec AnalyzeOptions) := [
  .of none "format" (·.format) ReportFormat.ofName? fun r a => { r with format := some a },
  .of none "on-redeclare" (·.policy) Policy.ofName? fun r a => { r with policy := some a }]

inductive Action where
  | codegen (inputs : List String) (flags : Preferences) (config : Option String)
  | analyze (inputs : List String) (format : ReportFormat) (policy : Policy)
  deriving DecidableEq, Inhabited, Repr

structure Invocation where
  action : Action
  verbose : Bool
  deriving DecidableEq, Inhabited, Repr

def helpOn : List String → Refusal
  | [] => .help
  | [name] => if ["codegen", "analyze", "help"].contains name then .help else .usage
  | _ => .usage

def parseFrom (verbose : Bool) : List String → Except Refusal Invocation
  | [] => .error .usage
  | "codegen" :: rest => do
    let r ← Reading.arguments codegenSpecs none { values := {} } rest
    return ⟨.codegen r.inputs r.values.flags r.values.config, verbose || r.verbose⟩
  | "analyze" :: rest => do
    let r ← Reading.arguments analyzeSpecs none { values := {} } rest
    return ⟨.analyze r.inputs (r.values.format.getD .text) (r.values.policy.getD .warn),
      verbose || r.verbose⟩
  | "help" :: rest => .error (helpOn rest)
  | a :: rest =>
    let r : Reading Unit := { values := (), verbose }
    match a.toList with
    | '-' :: '-' :: cs => do
      let (r, _) ← r.word [] cs
      parseFrom r.verbose rest
    | '-' :: c :: cs => do
      let (r, _) ← r.letters [] (c :: cs)
      parseFrom r.verbose rest
    | _ => .error .usage

def parse (args : List String) : Except Refusal Invocation := parseFrom false args

/-- The settings come first, then the inputs are looked at. -/
def codegen (t : Tree) (inputs : List String) (flags : Preferences) (config : Option String)
    (verbose : Bool) : Command.Outcome :=
  let settings := do
    let file ← config.mapM (Preferences.load t)
    Settings.resolve flags file
  match settings with
  | .error e => { result := .error (.settings e), tree := t }
  | .ok s => Command.codegen t inputs s verbose

def Invocation.run (t : Tree) (i : Invocation) : Command.Outcome :=
  match i.action with
  | .codegen inputs flags config => CommandLine.codegen t inputs flags config i.verbose
  | .analyze inputs format policy => Command.analyze t inputs format policy i.verbose

def usageText : String := Text.unlines [
  "Generate debug printers and ImGui editors for C structs",
  "",
  "Usage: inspector [-v] codegen [INPUT]... [-o DIR] [-b BACKEND] [--on-redeclare POLICY]",
  "                              [--max-depth N] [-c FILE]",
  "       inspector [-v] analyze [INPUT]... [--format FORMAT] [--on-redeclare POLICY]"]

structure Exit where
  code : UInt8
  stdout : String := ""
  error : Option String := none
  tree : Tree
  events : List Log.Event := []

def run (t : Tree) (args : List String) : Exit :=
  match parse args with
  | .error .help => { code := 0, stdout := usageText, tree := t }
  | .error .usage => { code := 2, tree := t }
  | .ok i =>
    let out := i.run t
    match out.result with
    | .ok () => { code := 0, stdout := out.stdout, tree := out.tree, events := out.events }
    | .error f =>
      { code := 1, stdout := out.stdout, error := some f.text, tree := out.tree,
        events := out.events }

end Inspector.CommandLine
