import Inspector.DescriptorFile.Part
import Inspector.Json.Decode
import Inspector.Json.Value

/-! Descriptor files as JSON: how they are read, and how they are written with every key. -/
namespace Inspector

open Inspector.Json (Decoder Slot Shape Value)

namespace Location

def jsonShape : Shape Part Location where
  label := "struct SourceLocation"
  slots := [
    .of "file" (·.file) Json.text fun r a => { r with file := some a },
    .of "line" (·.line) Json.word fun r a => { r with line := some a },
    .of "column" (·.column) Json.word fun r a => { r with column := some a }]
  required := 0
  empty := {}
  build := Part.build

def ofJson : Decoder Location := jsonShape.decode

def toJson (l : Location) : Value :=
  .object [("file", .text l.file), ("line", .number l.line.toNat),
    ("column", .number l.column.toNat)]

end Location

namespace Severity

def ofJson : Decoder Severity := Json.variant (all.map name) ofName?

def toJson (s : Severity) : Value := .text s.name

end Severity

namespace Diagnostic

def jsonShape : Shape Part Diagnostic where
  label := "struct Diagnostic"
  slots := [
    .of "severity" (·.severity) Severity.ofJson fun r a => { r with severity := some a },
    .of "message" (·.message) Json.text fun r a => { r with message := some a },
    .of "location" (·.location) Location.ofJson fun r a => { r with location := some a }]
  required := 2
  empty := {}
  build := Part.build

def ofJson : Decoder Diagnostic := jsonShape.decode

def toJson (d : Diagnostic) : Value :=
  .object [("severity", d.severity.toJson), ("message", .text d.message),
    ("location", d.location.toJson)]

end Diagnostic

namespace Options

def jsonShape : Shape Part Options where
  label := "struct StructOptions"
  slots := [.of "generate" (·.generate) Json.bool fun _ a => ⟨some a⟩]
  required := 0
  empty := {}
  build := Part.build

def ofJson : Decoder Options := jsonShape.decode

def toJson (o : Options) : Value := .object [("generate", .bool o.generate)]

end Options

namespace FieldDecl

def jsonShape : Shape Part FieldDecl where
  label := "struct FieldDescriptor"
  slots := [
    .of "name" (·.name) Json.text fun r a => { r with name := some a },
    .of "type-name" (·.typeName) Json.text fun r a => { r with typeName := some a },
    .of "indirection" (·.indirection) Json.word fun r a => { r with indirection := some a },
    .of "location" (·.location) Location.ofJson fun r a => { r with location := some a }]
  required := 2
  empty := {}
  build := Part.build

def ofJson : Decoder FieldDecl := jsonShape.decode

def toJson (f : FieldDecl) : Value :=
  .object [("name", .text f.name), ("type-name", .text f.typeName),
    ("indirection", .number f.indirection.toNat), ("location", f.location.toJson)]

end FieldDecl

namespace StructEntry

def jsonShape : Shape Part StructEntry where
  label := "struct RawStruct"
  slots := [
    .of "name" (·.name) Json.text fun r a => { r with name := some a },
    .of "attributes" (·.attributes) (Json.list Json.text) fun r a =>
      { r with attributes := some a },
    .of "options" (·.options) Options.ofJson fun r a => { r with options := some a },
    .of "location" (·.location) Location.ofJson fun r a => { r with location := some a },
    .of "fields" (·.fields) (Json.list FieldDecl.ofJson) fun r a => { r with fields := some a }]
  required := 1
  empty := {}
  build := Part.build

def ofJson : Decoder StructEntry := jsonShape.decode

def toJson (e : StructEntry) : Value :=
  .object [("name", .text e.name), ("attributes", .list (e.attributes.map .text)),
    ("options", e.options.toJson), ("location", e.location.toJson),
    ("fields", .list (e.fields.map FieldDecl.toJson))]

end StructEntry

namespace DescriptorFile

def jsonShape : Shape Part DescriptorFile where
  label := "struct DescriptorFile"
  slots := [
    .of "unit" (·.unit) (Json.optional Json.text) fun r a => { r with unit := some a },
    .of "diagnostics" (·.diagnostics) (Json.list Diagnostic.ofJson) fun r a =>
      { r with diagnostics := some a },
    .of "structs" (·.structs) (Json.list StructEntry.ofJson) fun r a =>
      { r with structs := some a }]
  required := 0
  empty := {}
  build := Part.build

def ofJson : Decoder DescriptorFile := jsonShape.decode

def toJson (f : DescriptorFile) : Value :=
  .object [("unit", match f.unit with | none => .null | some s => .text s),
    ("diagnostics", .list (f.diagnostics.map Diagnostic.toJson)),
    ("structs", .list (f.structs.map StructEntry.toJson))]

def parseJson (s : String) : Except Json.Error DescriptorFile := Json.decode ofJson s

def renderJson (f : DescriptorFile) : String := f.toJson.render

end DescriptorFile

end Inspector
