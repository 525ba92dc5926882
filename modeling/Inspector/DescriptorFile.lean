import Inspector.Descriptor
import Inspector.Diagnostic

/-! The layout of a descriptor file, the same for every encoding. -/
namespace Inspector

structure StructEntry where
  name : String
  attributes : List String := []
  options : Options := {}
  location : Location := {}
  fields : List FieldDecl := []
  deriving DecidableEq, Inhabited, Repr

/-- A struct is marked by its own options or by its attributes. -/
def StructEntry.decl (e : StructEntry) : StructDecl where
  name := e.name
  fields := e.fields
  options := e.options.merge (.ofAttributes e.attributes)
  location := e.location

structure DescriptorFile where
  unit : Option String := none
  diagnostics : List Diagnostic := []
  structs : List StructEntry := []
  deriving DecidableEq, Inhabited, Repr

/-- The unit of a file that does not name one is called `fallback`. -/
def DescriptorFile.toUnit (f : DescriptorFile) (fallback : String) : SourceUnit where
  name := f.unit.getD fallback
  structs := f.structs.map StructEntry.decl

end Inspector
