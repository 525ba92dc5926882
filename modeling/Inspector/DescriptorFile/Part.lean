import Inspector.DescriptorFile

/-! The records of a descriptor file while their keys are read one by one. A key without a default
has to be there in the end; the first one that is not is the error. -/
namespace Inspector

def need {α : Type} (key : String) : Option α → Except String α
  | some a => .ok a
  | none => .error key

structure Location.Part where
  file : Option String := none
  line : Option UInt32 := none
  column : Option UInt32 := none

def Location.Part.build (r : Part) : Except String Location :=
  .ok ⟨r.file.getD "", r.line.getD 0, r.column.getD 0⟩

structure Diagnostic.Part where
  severity : Option Severity := none
  message : Option String := none
  location : Option Location := none

def Diagnostic.Part.build (r : Part) : Except String Diagnostic := do
  return ⟨← need "severity" r.severity, ← need "message" r.message, r.location.getD {}⟩

structure Options.Part where
  generate : Option Bool := none

def Options.Part.build (r : Part) : Except String Options := .ok ⟨r.generate.getD false⟩

structure FieldDecl.Part where
  name : Option String := none
  typeName : Option String := none
  indirection : Option UInt32 := none
  location : Option Location := none

def FieldDecl.Part.build (r : Part) : Except String FieldDecl := do
  return ⟨← need "name" r.name, ← need "type-name" r.typeName, r.indirection.getD 0,
    r.location.getD {}⟩

structure StructEntry.Part where
  name : Option String := none
  attributes : Option (List String) := none
  options : Option Options := none
  location : Option Location := none
  fields : Option (List FieldDecl) := none

def StructEntry.Part.build (r : Part) : Except String StructEntry := do
  return ⟨← need "name" r.name, r.attributes.getD [], r.options.getD {}, r.location.getD {},
    r.fields.getD []⟩

structure DescriptorFile.Part where
  unit : Option (Option String) := none
  diagnostics : Option (List Diagnostic) := none
  structs : Option (List StructEntry) := none

def DescriptorFile.Part.build (r : Part) : Except String DescriptorFile :=
  .ok ⟨r.unit.getD none, r.diagnostics.getD [], r.structs.getD []⟩

end Inspector
