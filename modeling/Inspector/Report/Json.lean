import Inspector.DescriptorFile.Json
import Inspector.Report

/-! Reports as JSON, and the two forms in which they are printed. -/
namespace Inspector

open Inspector.Json (Value)

def FieldReport.toJson (f : FieldReport) : Value :=
  .object [("name", .text f.name), ("class", .text f.label), ("type", .text f.type),
    ("depth", .number f.depth.toNat), ("location", f.location.toJson)]

def StructReport.toJson (s : StructReport) : Value :=
  .object [("name", .text s.name), ("unit", .text s.unit), ("marked", .bool s.marked),
    ("location", s.location.toJson), ("fields", .list (s.fields.map FieldReport.toJson)),
    ("dependencies", .list (s.dependencies.map .text))]

def BackEdge.toJson (e : BackEdge) : Value :=
  .object [("from", .text e.source), ("to", .text e.target)]

namespace Report

def toJson (r : Report) : Value :=
  .object [("structs", .list (r.structs.map StructReport.toJson)),
    ("generation_order", .list (r.order.map .text)),
    ("short_circuited", .list (r.backEdges.map BackEdge.toJson))]

def render (r : Report) : ReportFormat → String
  | .text => Text.unlines r.lines
  | .json => r.toJson.render

end Report

end Inspector
