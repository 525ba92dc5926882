import Inspector.Descriptor
import Inspector.Names
import Inspector.Primitive
import Inspector.Register

/-! Structs whose field types have been looked up, and which of them need which others. -/
namespace Inspector

inductive TypeClass where
  | primitive (p : Primitive)
  | struct (name : String)
  /-- Neither a primitive nor a declared struct. -/
  | unknown (spelling : String)
  deriving DecidableEq, Inhabited, Repr

namespace TypeClass

def spelling : TypeClass → String
  | primitive p => p.spelling
  | struct name => name
  | unknown s => s

def label : TypeClass → String
  | primitive _ => "primitive"
  | struct _ => "struct"
  | unknown _ => "unknown"

def target? : TypeClass → Option String
  | struct name => some name
  | _ => none

end TypeClass

structure Field where
  name : String
  type : TypeClass
  indirection : UInt32 := 0
  location : Location := {}
  deriving DecidableEq, Inhabited, Repr

structure Struct where
  name : String
  fields : List Field := []
  options : Options := {}
  location : Location := {}
  unit : String := ""
  deriving DecidableEq, Inhabited, Repr

instance : Named Struct := ⟨Struct.name⟩

def Struct.isMarked (s : Struct) : Bool := s.options.generate

abbrev Table := Register Struct

namespace Table

def marked (t : Table) : List Struct := t.entries.filter Struct.isMarked

/-- The structs of the table that `s` refers to, at any indirection. Names that the table does not
have are left out. -/
def dependencies (t : Table) (s : Struct) : List String :=
  Names.ofList ((s.fields.filterMap (·.type.target?)).filter t.contains)

theorem mem_dependencies (t : Table) (s : Struct) (d : String) :
    d ∈ t.dependencies s ↔ t.contains d = true ∧ ∃ f ∈ s.fields, f.type = .struct d := by
  simp only [dependencies, Names.mem_ofList, List.mem_filter, List.mem_filterMap]
  constructor
  · rintro ⟨⟨f, hf, h⟩, hd⟩
    refine ⟨hd, f, hf, ?_⟩
    cases ht : f.type <;> simp_all [TypeClass.target?]
  · rintro ⟨hd, f, hf, h⟩
    exact ⟨⟨f, hf, by simp [h, TypeClass.target?]⟩, hd⟩

end Table

end Inspector
