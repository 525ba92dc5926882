import Inspector.DescriptorFile.Part
import Inspector.Yaml.Decode

/-! Descriptor files as YAML. -/
namespace Inspector

open Inspector.Yaml (Decoder Slot Shape)

namespace Location

def yamlShape : Shape Part Location where
  slots := [
    .of "file" (·.file) Yaml.text fun r a => { r with file := some a },
    .of "line" (·.line) Yaml.word fun r a => { r with line := some a },
    .of "column" (·.column) Yaml.word fun r a => { r with column := some a }]
  empty := {}
  build := Part.build

def ofYaml : Decoder Location := yamlShape.decode

end Location

namespace Severity

def ofYaml : Decoder Severity := Yaml.variant ofName?

end Severity

namespace Diagnostic

def yamlShape : Shape Part Diagnostic where
  slots := [
    .of "severity" (·.severity) Severity.ofYaml fun r a => { r with severity := some a },
    .of "message" (·.message) Yaml.text fun r a => { r with message := some a },
    .of "location" (·.location) Location.ofYaml fun r a => { r with location := some a }]
  empty := {}
  build := Part.build

def ofYaml : Decoder Diagnostic := yamlShape.decode

end Diagnostic

namespace Options

def yamlShape : Shape Part Options where
  slots := [.of "generate" (·.generate) Yaml.bool fun _ a => ⟨some a⟩]
  empty := {}
  build := Part.build

def ofYaml : Decoder Options := yamlShape.decode

end Options

namespace FieldDecl

def yamlShape : Shape Part FieldDecl where
  slots := [
    .of "name" (·.name) Yaml.text fun r a => { r with name := some a },
    .of "type-name" (·.typeName) Yaml.text fun r a => { r with typeName := some a },
    .of "indirection" (·.indirection) Yaml.word fun r a => { r with indirection := some a },
    .of "location" (·.location) Location.ofYaml fun r a => { r with location := some a }]
  empty := {}
  build := Part.build

def ofYaml : Decoder FieldDecl := yamlShape.decode

end FieldDecl

namespace StructEntry

def yamlShape : Shape Part StructEntry where
  slots := [
    .of "name" (·.name) Yaml.text fun r a => { r with name := some a },
    .of "attributes" (·.attributes) (Yaml.list Yaml.text) fun r a =>
      { r with attributes := some a },
    .of "options" (·.options) Options.ofYaml fun r a => { r with options := some a },
    .of "location" (·.location) Location.ofYaml fun r a => { r with location := some a },
    .of "fields" (·.fields) (Yaml.list FieldDecl.ofYaml) fun r a => { r with fields := some a }]
  empty := {}
  build := Part.build

def ofYaml : Decoder StructEntry := yamlShape.decode

end StructEntry

namespace DescriptorFile

def yamlShape : Shape Part DescriptorFile where
  slots := [
    .of "unit" (·.unit) (Yaml.optional Yaml.text) fun r a => { r with unit := some a },
    .of "diagnostics" (·.diagnostics) (Yaml.list Diagnostic.ofYaml) fun r a =>
      { r with diagnostics := some a },
    .of "structs" (·.structs) (Yaml.list StructEntry.ofYaml) fun r a =>
      { r with structs := some a }]
  empty := {}
  build := Part.build

def ofYaml : Decoder DescriptorFile := yamlShape.decode

def parseYaml (s : String) : Except Yaml.Fault DescriptorFile := Yaml.decode ofYaml s

end DescriptorFile

end Inspector
