import Inspector.Emission

/-! A kind of code that can be generated for a table: for every struct a body and a header. -/
namespace Inspector

open Inspector.Log (Event)

structure Backend where
  id : String
  stem : String
  bodyExtension : String
  headerExtension : String
  body : Generator
  header : Generator

structure Output where
  backend : String
  bodies : List (String × String)
  headers : List (String × String)
  dependencies : List (String × List String)
  backEdges : List BackEdge
  deriving DecidableEq, Inhabited, Repr

namespace Backend

def fileName (b : Backend) (struct extension : String) : String :=
  b.stem ++ "_" ++ struct ++ "." ++ extension

def bodyFile (b : Backend) (struct : String) : String := b.fileName struct b.bodyExtension

def headerFile (b : Backend) (struct : String) : String := b.fileName struct b.headerExtension

def output (b : Backend) (t : Table) : Output :=
  let bodies := Emission.run b.body t
  { backend := b.id
    bodies := bodies.fragments
    headers := (Emission.run b.header t).fragments
    dependencies := (bodies.order.filterMap t.get?).map fun s => (s.name, t.dependencies s)
    backEdges := bodies.backEdges }

def events (b : Backend) (t : Table) : List Event :=
  let bodies := Emission.run b.body t
  bodies.events ++ (Emission.run b.header t).events ++ [{
    level := .debug, message := "backend generation finished",
    fields := [("backend", .text b.id), ("fragments", .count bodies.fragments.length),
      ("cycles", .count bodies.backEdges.length)] }]

def arrayOf (spelling : String) : String := "Array<" ++ spelling ++ ">"

end Backend

end Inspector
