import Inspector.Log
import Inspector.Table

/-! Collecting declarations from many units and looking up all field types at the end, so that a
struct may be used before it is declared. -/
namespace Inspector

open Inspector.Log (Event Traced)

inductive Policy where
  | overwrite | warn | error
  deriving DecidableEq, Inhabited, Repr

namespace Policy

def name : Policy → String
  | overwrite => "overwrite"
  | warn => "warn"
  | error => "error"

def title : Policy → String
  | overwrite => "Overwrite"
  | warn => "Warn"
  | error => "Error"

def ofName? (s : String) : Option Policy := [overwrite, warn, error].find? (·.name == s)

end Policy

structure Declaration where
  unit : String
  decl : StructDecl
  deriving DecidableEq, Inhabited, Repr

instance : Named Declaration := ⟨fun d => d.decl.name⟩

structure Redeclaration where
  earlier : Declaration
  later : Declaration
  deriving DecidableEq, Inhabited, Repr

def Redeclaration.message (r : Redeclaration) : String :=
  "struct '" ++ r.later.decl.name ++ "' redeclared in '" ++ r.later.unit ++ "' at "
    ++ r.later.decl.location.text ++ " (first declared in '" ++ r.earlier.unit ++ "' at "
    ++ r.earlier.decl.location.text ++ ")"

structure Resolver where
  policy : Policy := .warn
  declared : Register Declaration := .empty

namespace Resolver

/-- What a redeclaration leads to: an error, or a report and the later declaration. -/
def onRedeclaration : Policy → Redeclaration → Traced Redeclaration Unit
  | .overwrite, r => .emit {
      level := .debug, message := "struct redeclared, keeping the later declaration",
      fields := [("name", .text r.later.decl.name), ("unit", .text r.later.unit)] }
  | .warn, r => .emit {
      level := .warn, message := r.message ++ "; keeping the later declaration" }
  | .error, r => throw r

def add (r : Resolver) (d : Declaration) : Traced Redeclaration Resolver := do
  match r.declared.get? d.decl.name with
  | none => pure ()
  | some earlier => onRedeclaration r.policy ⟨earlier, d⟩
  return { r with declared := r.declared.insert d }

def addAll (r : Resolver) : List Declaration → Resolver × Traced Redeclaration Unit
  | [] => (r, pure ())
  | d :: ds =>
    match r.add d with
    | ⟨.ok r, events⟩ =>
      let (r, x) := addAll r ds
      (r, ⟨x.result, events ++ x.events⟩)
    | ⟨.error e, events⟩ => (r, ⟨.error e, events⟩)

def addingUnit (u : SourceUnit) : Event where
  level := .debug
  message := "adding descriptor unit"
  fields := [("unit", .text u.name), ("structs", .count u.structs.length)]

def addUnit (r : Resolver) (u : SourceUnit) : Resolver × Traced Redeclaration Unit :=
  let (r, x) := r.addAll (u.structs.map fun d => ⟨u.name, d⟩)
  (r, ⟨x.result, addingUnit u :: x.events⟩)

/-- Primitives come first, then the declared structs. -/
def classify (r : Resolver) (typeName : String) : TypeClass :=
  match Primitive.ofSpelling? typeName with
  | some p => .primitive p
  | none => if r.declared.contains typeName then .struct typeName else .unknown typeName

def resolveField (r : Resolver) (f : FieldDecl) : Field where
  name := f.name
  type := r.classify f.typeName
  indirection := f.indirection
  location := f.location

def resolveStruct (r : Resolver) (d : Declaration) : Struct where
  name := d.decl.name
  fields := d.decl.fields.map r.resolveField
  options := d.decl.options
  location := d.decl.location
  unit := d.unit

def table (r : Resolver) : Table := r.declared.map r.resolveStruct fun _ => rfl

theorem names_table (r : Resolver) : r.table.names = r.declared.names :=
  r.declared.names_map r.resolveStruct fun _ => rfl

def resolved (t : Table) : Event where
  level := .debug
  message := "resolved struct table"
  fields := [("structs", .count t.size)]

def resolve {ε : Type} (r : Resolver) : Traced ε Table := ⟨.ok r.table, [resolved r.table]⟩

def addUnits (r : Resolver) : List SourceUnit → Resolver × Traced Redeclaration Unit
  | [] => (r, pure ())
  | u :: us =>
    match r.addUnit u with
    | (r, ⟨.ok (), events⟩) =>
      let (r, x) := addUnits r us
      (r, ⟨x.result, events ++ x.events⟩)
    | (r, x) => (r, x)

end Resolver

def resolveUnits (policy : Policy) (units : List SourceUnit) : Traced Redeclaration Table :=
  match ({ policy : Resolver }).addUnits units with
  | (r, ⟨.ok (), events⟩) => ⟨.ok r.table, events ++ [Resolver.resolved r.table]⟩
  | (_, ⟨.error e, events⟩) => ⟨.error e, events⟩

end Inspector
