import Inspector.DescriptorFile.Json
import Inspector.DescriptorFile.Yaml
import Inspector.Log
import Inspector.Tree

/-! Loading descriptor files. A file in which the front end found something too severe is refused,
after all its diagnostics have been reported. -/
namespace Inspector

open Inspector.Log (Event Traced)

inductive FileFormat where
  | yaml | json
  deriving DecidableEq, Inhabited, Repr

namespace FileFormat

/-- Capital letters make no difference; what is not JSON is taken for YAML. -/
def ofPath (path : String) : FileFormat :=
  match Path.extension? path with
  | some ext => if ext.toList.map Char.toLower = "json".toList then json else yaml
  | none => yaml

end FileFormat

inductive LoadError where
  | io (path : String) (e : ReadError)
  | yaml (path : String) (f : Yaml.Fault)
  | json (path : String) (e : Json.Error)
  /-- There are `count` diagnostics at or above the threshold. -/
  | diagnostics (path : String) (threshold : Severity) (count : Nat) (first : Diagnostic)
  deriving DecidableEq, Inhabited, Repr

namespace LoadError

def cause? : LoadError → Option String
  | io _ e => some e.message
  | yaml _ f => some f.message
  | json _ e => some e.message
  | diagnostics .. => none

def message : LoadError → String
  | io path e => "failed to read '" ++ path ++ "': " ++ e.message
  | yaml path f => "failed to parse YAML descriptors in '" ++ path ++ "': " ++ f.message
  | json path e => "failed to parse JSON descriptors in '" ++ path ++ "': " ++ e.message
  | diagnostics path threshold count first =>
    "Failed to parse file '" ++ path ++ "': " ++ toString count ++ " diagnostic(s) at or above '"
      ++ threshold.name ++ "', first: " ++ first.text

end LoadError

def Severity.level : Severity → Log.Level
  | ignored => .debug
  | note => .info
  | warning => .warn
  | error => .error
  | fatal => .error

def Diagnostic.event (path : String) (d : Diagnostic) : Event where
  level := d.severity.level
  message := d.message
  fields :=
    [("file", .text path), ("location", .text d.location.text)]
    ++ (if d.severity.level = .error then [("severity", .text d.severity.name)] else [])

namespace Load

def severe (threshold : Severity) (ds : List Diagnostic) : List Diagnostic :=
  ds.filter fun d => threshold ≤ d.severity

def gate (threshold : Severity) (path : String) (ds : List Diagnostic) : Traced LoadError Unit := do
  .emitAll (ds.map (·.event path))
  match severe threshold ds with
  | [] => return ()
  | first :: more => throw (.diagnostics path threshold (more.length + 1) first)

def parse (format : FileFormat) (path text : String) : Except LoadError DescriptorFile :=
  match format with
  | .yaml => (DescriptorFile.parseYaml text).mapError (.yaml path)
  | .json => (DescriptorFile.parseJson text).mapError (.json path)

/-- Loads the unit that a text describes; `path` gives the name of last resort. -/
def textIn (format : FileFormat) (threshold : Severity) (path text : String) :
    Traced LoadError SourceUnit := do
  let file ← .ofExcept (parse format path text)
  gate threshold path file.diagnostics
  let unit := file.toUnit path
  .emit { level := .debug, message := "loaded descriptor unit",
          fields := [("unit", .text unit.name), ("structs", .count unit.structs.length)] }
  return unit

def text (threshold : Severity) (path text : String) : Traced LoadError SourceUnit :=
  textIn (.ofPath path) threshold path text

def file (threshold : Severity) (t : Tree) (path : String) : Traced LoadError SourceUnit := do
  .emit { level := .debug, message := "loading descriptor file", fields := [("path", .text path)] }
  let contents ← .ofExcept ((t.read path).mapError (.io path))
  text threshold path contents

def files (threshold : Severity) (t : Tree) : List String → Traced LoadError (List SourceUnit)
  | [] => pure []
  | p :: ps => do
    let u ← file threshold t p
    let us ← files threshold t ps
    return u :: us

end Load

end Inspector
