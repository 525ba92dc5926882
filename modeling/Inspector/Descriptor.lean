import Inspector.Location

/-! Struct declarations as the front end hands them over, before any type is looked up. -/
namespace Inspector

def generateAttribute : String := "generate_cinspect"

structure Options where
  /-- Code is wanted for this struct even if nothing depends on it. -/
  generate : Bool := false
  deriving DecidableEq, Inhabited, Repr

namespace Options

def ofAttributes (attributes : List String) : Options :=
  ⟨attributes.contains generateAttribute⟩

/-- A flag set on either side stays set. -/
def merge (a b : Options) : Options := ⟨a.generate || b.generate⟩

theorem ofAttributes_generate (attributes : List String) :
    (ofAttributes attributes).generate = true ↔ generateAttribute ∈ attributes := by
  simp [ofAttributes]

theorem merge_generate (a b : Options) :
    (a.merge b).generate = true ↔ a.generate = true ∨ b.generate = true := by
  simp [merge]

end Options

structure FieldDecl where
  name : String
  /-- The spelling of the type with every pointer level taken off. -/
  typeName : String
  /-- How many pointer levels were taken off. -/
  indirection : UInt32 := 0
  location : Location := {}
  deriving DecidableEq, Inhabited, Repr

structure StructDecl where
  name : String
  fields : List FieldDecl := []
  options : Options := {}
  location : Location := {}
  deriving DecidableEq, Inhabited, Repr

namespace StructDecl

def addField (s : StructDecl) (name typeName : String) (indirection : UInt32) : StructDecl :=
  { s with fields := s.fields ++ [{ name, typeName, indirection }] }

def marked (s : StructDecl) : StructDecl := { s with options := { generate := true } }

def locatedAt (s : StructDecl) (location : Location) : StructDecl := { s with location }

end StructDecl

/-- The structs of one input, usually one source file, in the order of their declaration. -/
structure SourceUnit where
  name : String
  structs : List StructDecl := []
  deriving DecidableEq, Inhabited, Repr

end Inspector
