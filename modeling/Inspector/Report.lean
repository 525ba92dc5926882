import Inspector.Emission
import Inspector.Json.Value
import Inspector.Text.Lines

/-! What is known of a table, without any code: its structs, what each depends on, and the order in
which they would be generated. -/
namespace Inspector

structure FieldReport where
  name : String
  label : String
  type : String
  depth : UInt32
  location : Location
  deriving DecidableEq, Inhabited, Repr

structure StructReport where
  name : String
  unit : String
  marked : Bool
  location : Location
  fields : List FieldReport
  dependencies : List String
  deriving DecidableEq, Inhabited, Repr

structure Report where
  structs : List StructReport
  order : List String
  backEdges : List BackEdge
  deriving DecidableEq, Inhabited, Repr

inductive ReportFormat where
  | text | json
  deriving DecidableEq, Inhabited, Repr

namespace ReportFormat

def name : ReportFormat → String
  | text => "text"
  | json => "json"

def ofName? (s : String) : Option ReportFormat := [text, json].find? (·.name == s)

end ReportFormat

namespace FieldReport

def ofField (f : Field) : FieldReport :=
  ⟨f.name, f.type.label, f.type.spelling, f.indirection, f.location⟩

def line (f : FieldReport) : String :=
  "    - " ++ f.name ++ ": " ++ f.label ++ " " ++ f.type ++ " depth=" ++ toString f.depth.toNat
    ++ " @ " ++ f.location.text

end FieldReport

namespace StructReport

def ofStruct (t : Table) (s : Struct) : StructReport :=
  ⟨s.name, s.unit, s.isMarked, s.location, s.fields.map .ofField, t.dependencies s⟩

def lines (s : StructReport) : List String :=
  ["  " ++ s.name ++ " @ " ++ s.location.text ++ " (" ++ s.unit ++ ")"
    ++ (if s.marked then " [generate]" else "")]
  ++ s.fields.map FieldReport.line
  ++ (if s.dependencies.isEmpty then []
      else ["    depends on: " ++ ", ".intercalate s.dependencies])

end StructReport

namespace Report

def ofTable (t : Table) : Report :=
  let e := Emission.run (fun _ _ => "") t
  ⟨t.entries.map (.ofStruct t), e.order, e.backEdges⟩

def events (r : Report) : List Log.Event := r.backEdges.map BackEdge.event

def numbered (n : Nat) : List String → List String
  | [] => []
  | s :: ss => ("  " ++ toString n ++ ". " ++ s) :: numbered (n + 1) ss

def lines (r : Report) : List String :=
  ["[~] Structs (" ++ toString r.structs.length ++ "):"]
  ++ r.structs.flatMap StructReport.lines
  ++ ["", "[~] Generation order:"]
  ++ (if r.order.isEmpty then ["  (no struct marked for generation)"] else numbered 1 r.order)
  ++ (if r.backEdges.isEmpty then []
      else ["", "[~] Cycles short-circuited:"]
        ++ r.backEdges.map fun e => "  " ++ e.source ++ " -> " ++ e.target)

end Report

end Inspector
