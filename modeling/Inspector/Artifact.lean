import Inspector.Backend.Editor
import Inspector.Backend.Printer
import Inspector.Tree

/-! The files that come out of a run: how they are put together, shown and written. -/
namespace Inspector

open Inspector.Log (Event Traced)

structure Artifact where
  name : String
  contents : String
  deriving DecidableEq, Inhabited, Repr

namespace Artifact

/-- One line for each file that another one depends on. -/
def banner (files : List String) : String :=
  Text.unlines (files.map fun f => "// depends on \"" ++ f ++ "\"")

def ofStruct (b : Backend) (o : Output) (struct body : String) : List Artifact :=
  let needs := (o.dependencies.lookup struct).getD []
  let header := (o.headers.lookup struct).map fun text =>
    ⟨b.headerFile struct, banner (needs.map b.headerFile) ++ text⟩
  ⟨b.bodyFile struct, banner (needs.map b.bodyFile) ++ body⟩ :: header.toList

def assemble (b : Backend) (o : Output) : List Artifact :=
  o.bodies.flatMap fun (struct, body) => ofStruct b o struct body

def shown (a : Artifact) : String :=
  "/* ===== " ++ a.name ++ " ===== */\n" ++ a.contents
    ++ (if a.contents.toList.getLast? = some '\n' then "" else "\n") ++ "\n"

def listing : List Artifact → String
  | [] => ""
  | a :: as => a.shown ++ listing as

end Artifact

inductive BackendChoice where
  | printer | editor | all
  deriving DecidableEq, Inhabited, Repr

namespace BackendChoice

def name : BackendChoice → String
  | printer => "printer"
  | editor => "editor"
  | all => "all"

def title : BackendChoice → String
  | printer => "Printer"
  | editor => "Editor"
  | all => "All"

def ofName? (s : String) : Option BackendChoice := [printer, editor, all].find? (·.name == s)

def backends (maxDepth : UInt32) : BackendChoice → List Backend
  | printer => [.printer maxDepth]
  | editor => [.editor]
  | all => [.editor, .printer maxDepth]

end BackendChoice

def generateArtifacts (t : Table) (backends : List Backend) : List Artifact :=
  backends.flatMap fun b => Artifact.assemble b (b.output t)

def backendEvents (t : Table) (b : Backend) : List Event :=
  let o := b.output t
  b.events t
    ++ o.backEdges.map (fun e => {
      level := .debug, message := "cycle broken",
      fields := [("backend", .text o.backend), ("from", .text e.source), ("to", .text e.target)] })
    ++ [{ level := .info, message := "generated",
          fields := [("backend", .text o.backend), ("structs", .count o.bodies.length)] }]

def generateEvents (t : Table) (backends : List Backend) : List Event :=
  backends.flatMap (backendEvents t)

inductive WriteError where
  | folder (dir : String) (e : OsError)
  | file (path : String) (e : OsError)
  deriving DecidableEq, Inhabited, Repr

namespace WriteError

def message : WriteError → String
  | folder dir _ => "failed to create output directory " ++ dir
  | file path _ => "failed to write " ++ path

def cause : WriteError → OsError
  | folder _ e => e
  | file _ e => e

end WriteError

namespace Artifact

def writeEach (dir : String) (t : Tree) : List Artifact → Tree × Traced WriteError Unit
  | [] => (t, pure ())
  | a :: as =>
    let path := Path.join dir a.name
    match t.write path a.contents with
    | .error e => (t, throw (.file path e))
    | .ok t =>
      let (t, x) := writeEach dir t as
      (t, ⟨x.result, { level := .debug, message := "wrote artifact",
                       fields := [("path", .text path)] } :: x.events⟩)

/-- Writes files into a directory, which is made if it is not there. -/
def writeAll (dir : String) (t : Tree) (as : List Artifact) : Tree × Traced WriteError Unit :=
  match t.makeFolders dir with
  | (t, some e) => (t, throw (.folder dir e))
  | (t, none) =>
    let (t, x) := writeEach dir t as
    (t, do
      x
      .emit { level := .info, message := "wrote artifacts",
              fields := [("count", .count as.length), ("dir", .text dir)] })

end Artifact

end Inspector
