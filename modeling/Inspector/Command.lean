import Inspector.Failure
import Inspector.Report.Json
import Inspector.Table.Dump

/-! The two commands: one generates code for a batch of descriptor files, the other reports on
them. -/
namespace Inspector

open Inspector.Log (Event Traced)

namespace Command

def collectInputs (t : Tree) (inputs : List String) : Traced Failure (List String) := do
  if inputs.isEmpty then throw .noInputs
  let paths ← (Glob.expand t inputs).mapError .expand
  .emit { level := .debug, message := "expanded inputs", fields := [("count", .count paths.length)] }
  .emitAll (paths.map fun p => { level := .debug, message := "  - " ++ p })
  return paths

def addFiles (source : String → Traced LoadError SourceUnit) (r : Resolver) :
    List String → Traced Failure Resolver
  | [] => pure r
  | path :: paths => do
    let unit ← (source path).mapError .load
    let (r, added) := r.addUnit unit
    added.mapError (.resolve path)
    addFiles source r paths

def dumpMarked (t : Table) : List Event :=
  t.marked.flatMap fun s => [
    { level := .debug, message := "Resolved struct " ++ s.name ++ " @ " ++ s.location.text },
    { level := .debug, message := "\n".intercalate s.dump }]

def loadAndResolve (source : String → Traced LoadError SourceUnit) (paths : List String)
    (policy : Policy) (verbose : Bool) : Traced Failure Table := do
  let r ← addFiles source { policy } paths
  let t ← r.resolve
  .emit { level := .info, message := "resolved struct table",
          fields := [("files", .count paths.length), ("structs", .count t.size),
            ("marked", .count t.marked.length)] }
  if verbose then .emitAll (dumpMarked t)
  return t

def resolveInputs (t : Tree) (inputs : List String) (policy : Policy) (verbose : Bool) :
    Traced Failure Table := do
  let paths ← collectInputs t inputs
  loadAndResolve (Load.file .error t) paths policy verbose

structure Outcome where
  result : Except Failure Unit := .ok ()
  tree : Tree
  stdout : String := ""
  events : List Event := []

def configured (inputs : List String) (s : Settings) : Event where
  level := .debug
  message := "codegen configuration"
  fields := [("inputs", .count inputs.length), ("backends", .text s.backends.title),
    ("on_redeclare", .text s.policy.title), ("max_depth_default", .count s.maxDepth.toNat)]

def nothingMarked : Event where
  level := .warn
  message := "no struct is marked for generation; nothing to do"

def deliver (t : Tree) (outputDir : Option String) (artifacts : List Artifact) : Outcome :=
  match outputDir with
  | none => { tree := t, stdout := Artifact.listing artifacts }
  | some dir =>
    let (t, x) := Artifact.writeAll dir t artifacts
    { result := x.result.mapError .write, tree := t, events := x.events }

def codegen (t : Tree) (inputs : List String) (s : Settings) (verbose : Bool) : Outcome :=
  let resolved := resolveInputs t inputs s.policy verbose
  let events := configured inputs s :: resolved.events
  match resolved.result with
  | .error e => { result := .error e, tree := t, events }
  | .ok table =>
    if table.marked.isEmpty then { tree := t, events := events ++ [nothingMarked] }
    else
      let backends := s.backends.backends s.maxDepth
      let out := deliver t s.outputDir (generateArtifacts table backends)
      { out with events := events ++ generateEvents table backends ++ out.events }

def classified (t : Table) : Event :=
  let types := t.entries.flatMap fun s => s.fields.map (·.type)
  let count (label : String) : Log.Value := .count (types.filter (·.label == label)).length
  { level := .info, message := "field classification",
    fields := [("primitive", count "primitive"), ("struct_ref", count "struct"),
      ("unknown", count "unknown")] }

/-- Reports on the structs of the inputs. JSON is followed by a line feed. -/
def analyze (t : Tree) (inputs : List String) (format : ReportFormat) (policy : Policy)
    (verbose : Bool) : Outcome :=
  let resolved := resolveInputs t inputs policy verbose
  match resolved.result with
  | .error e => { result := .error e, tree := t, events := resolved.events }
  | .ok table =>
    let report := Report.ofTable table
    { tree := t
      stdout := report.render format ++ (if format = .json then "\n" else "")
      events := resolved.events ++ classified table :: report.events }

end Command

end Inspector
