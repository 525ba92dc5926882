import Inspector.Proofs.JsonText
import Inspector.Proofs.Output
import Inspector.Report.Json

/-! A report printed as JSON loses nothing. The text holds one object, and the report is found in
it again under the keys of its members, whatever characters its names are made of. What is found
tells of every struct of the table in its place, and of the walk that any generator takes. -/
namespace Inspector

open Inspector.Json (Value)

namespace Json

mutual

def Draft.value? : Draft → Option Value
  | .null => some .null
  | .bool b => some (.bool b)
  | .number (.ok (.natural n)) _ => some (.number n)
  | .text (.ok cs) _ => some (.text (String.ofList cs))
  | .list is => is.values?.map .list
  | .object ms => ms.values?.map .object
  | _ => none

def Items.values? : Items → Option (List Value)
  | .close => some []
  | .broken _ => none
  | .item v rest => v.value?.bind fun a => rest.values?.map (a :: ·)

def Members.values? : Members → Option (List (String × Value))
  | .member (.ok k) _ v rest =>
    v.value?.bind fun a => rest.values?.map ((String.ofList k, a) :: ·)
  | .close => some []
  | _ => none

end

namespace Value

variable {α : Type} {v : Value} {vs : List Value} {ms : List (String × Value)}

def parse? (s : String) : Option Value :=
  match (Document.read s).trailing with
  | none => (Document.read s).value.value?
  | some _ => none

/-- The draft of the value still tells what the value is. Numbers beyond a word do not stay
exact. -/
def ReadsBack (v : Value) : Prop := v.draft.value? = some v

theorem readsBack_text (s : String) : (text s).ReadsBack := by
  simp [ReadsBack, draft, Draft.value?]

theorem readsBack_bool (b : Bool) : (bool b).ReadsBack := by
  simp [ReadsBack, draft, Draft.value?]

theorem readsBack_word (n : UInt32) : (number n.toNat).ReadsBack := by
  have hfits : n.toNat ≤ Numeral.maxWord :=
    Nat.le_trans (Nat.le_of_lt n.toNat_lt_size) (by decide)
  simp [ReadsBack, draft, read_digits hfits, Draft.value?]

theorem readsBack_list (h : ∀ v ∈ vs, v.ReadsBack) : (list vs).ReadsBack := by
  have hitems : (draftItems vs).values? = some vs := by
    induction vs with
    | nil => simp [draftItems, Items.values?]
    | cons v vs ih =>
      obtain ⟨hv, hvs⟩ := List.forall_mem_cons.mp h
      rw [ReadsBack] at hv
      simp [draftItems, Items.values?, hv, ih hvs]
  simp [ReadsBack, draft, Draft.value?, hitems]

theorem readsBack_map {write : α → Value} (h : ∀ a, (write a).ReadsBack) (as : List α) :
    (list (as.map write)).ReadsBack := by
  apply readsBack_list
  intro v hv
  obtain ⟨a, _, rfl⟩ := List.mem_map.mp hv
  exact h a

theorem readsBack_object (h : ∀ m ∈ ms, m.2.ReadsBack) : (object ms).ReadsBack := by
  have hmembers : (draftMembers ms).values? = some ms := by
    induction ms with
    | nil => simp [draftMembers, Members.values?]
    | cons m ms ih =>
      obtain ⟨hv, hms⟩ := List.forall_mem_cons.mp h
      rw [ReadsBack] at hv
      simp [draftMembers, Members.values?, hv, ih hms]
  simp [ReadsBack, draft, Draft.value?, hmembers]

theorem parse?_render (h : v.ReadsBack) : parse? v.render = some v := by
  rw [parse?, read_spells (spells_render v)]
  exact h

/-! What is found in a value under a key. -/

def text? : Value → Option String
  | .text s => some s
  | _ => none

def bool? : Value → Option Bool
  | .bool b => some b
  | _ => none

def word? : Value → Option UInt32
  | .number n => if n < UInt32.size then some (UInt32.ofNat n) else none
  | _ => none

def list? (read : Value → Option α) : Value → Option (List α)
  | .list vs => vs.mapM read
  | _ => none

def at? (v : Value) (key : String) (read : Value → Option α) : Option α :=
  match v with
  | .object ms => (ms.lookup key).bind read
  | _ => none

theorem text?_text (s : String) : (text s).text? = some s := rfl

theorem word?_toNat (n : UInt32) : (number n.toNat).word? = some n := by
  simp [word?, n.toNat_lt_size]

theorem list?_map {read : Value → Option α} {write : α → Value}
    (h : ∀ a, read (write a) = some a) (as : List α) :
    (list (as.map write)).list? read = some as := by
  rw [list?]
  induction as with
  | nil => rfl
  | cons a as ih => simp [List.mapM_cons, h, ih]

end Value

end Json

/-! Each record is found again in its value, and the value comes back from its text. -/

namespace Location

def ofValue? (v : Value) : Option Location := do
  return { file := ← v.at? "file" Value.text?
           line := ← v.at? "line" Value.word?
           column := ← v.at? "column" Value.word? }

theorem ofValue?_toJson (l : Location) : ofValue? l.toJson = some l := by
  simp [ofValue?, toJson, Value.at?, Value.text?, Value.word?_toNat, List.lookup_cons]

theorem readsBack_toJson (l : Location) : l.toJson.ReadsBack := by
  apply Value.readsBack_object
  simp only [List.forall_mem_cons]
  exact ⟨Value.readsBack_text l.file, Value.readsBack_word l.line, Value.readsBack_word l.column,
    List.forall_mem_nil _⟩

end Location

namespace FieldReport

def ofValue? (v : Value) : Option FieldReport := do
  return { name := ← v.at? "name" Value.text?
           label := ← v.at? "class" Value.text?
           type := ← v.at? "type" Value.text?
           depth := ← v.at? "depth" Value.word?
           location := ← v.at? "location" Location.ofValue? }

theorem ofValue?_toJson (f : FieldReport) : ofValue? f.toJson = some f := by
  simp [ofValue?, toJson, Value.at?, Value.text?, Value.word?_toNat, Location.ofValue?_toJson,
    List.lookup_cons]

theorem readsBack_toJson (f : FieldReport) : f.toJson.ReadsBack := by
  apply Value.readsBack_object
  simp only [List.forall_mem_cons]
  exact ⟨Value.readsBack_text f.name, Value.readsBack_text f.label, Value.readsBack_text f.type,
    Value.readsBack_word f.depth, f.location.readsBack_toJson, List.forall_mem_nil _⟩

end FieldReport

namespace StructReport

def ofValue? (v : Value) : Option StructReport := do
  return { name := ← v.at? "name" Value.text?
           unit := ← v.at? "unit" Value.text?
           marked := ← v.at? "marked" Value.bool?
           location := ← v.at? "location" Location.ofValue?
           fields := ← v.at? "fields" (Value.list? FieldReport.ofValue?)
           dependencies := ← v.at? "dependencies" (Value.list? Value.text?) }

theorem ofValue?_toJson (s : StructReport) : ofValue? s.toJson = some s := by
  have hfields := Value.list?_map FieldReport.ofValue?_toJson s.fields
  have hnames := Value.list?_map Value.text?_text s.dependencies
  simp [ofValue?, toJson, Value.at?, Value.text?, Value.bool?, Location.ofValue?_toJson, hfields,
    hnames, List.lookup_cons]

theorem readsBack_toJson (s : StructReport) : s.toJson.ReadsBack := by
  apply Value.readsBack_object
  simp only [List.forall_mem_cons]
  exact ⟨Value.readsBack_text s.name, Value.readsBack_text s.unit, Value.readsBack_bool s.marked,
    s.location.readsBack_toJson, Value.readsBack_map FieldReport.readsBack_toJson s.fields,
    Value.readsBack_map Value.readsBack_text s.dependencies, List.forall_mem_nil _⟩

end StructReport

namespace BackEdge

def ofValue? (v : Value) : Option BackEdge := do
  return { source := ← v.at? "from" Value.text?
           target := ← v.at? "to" Value.text? }

theorem ofValue?_toJson (e : BackEdge) : ofValue? e.toJson = some e := by
  simp [ofValue?, toJson, Value.at?, Value.text?, List.lookup_cons]

theorem readsBack_toJson (e : BackEdge) : e.toJson.ReadsBack := by
  apply Value.readsBack_object
  simp only [List.forall_mem_cons]
  exact ⟨Value.readsBack_text e.source, Value.readsBack_text e.target, List.forall_mem_nil _⟩

end BackEdge

namespace Report

def ofValue? (v : Value) : Option Report := do
  return { structs := ← v.at? "structs" (Value.list? StructReport.ofValue?)
           order := ← v.at? "generation_order" (Value.list? Value.text?)
           backEdges := ← v.at? "short_circuited" (Value.list? BackEdge.ofValue?) }

theorem ofValue?_toJson (r : Report) : ofValue? r.toJson = some r := by
  have hstructs := Value.list?_map StructReport.ofValue?_toJson r.structs
  have horder := Value.list?_map Value.text?_text r.order
  have hedges := Value.list?_map BackEdge.ofValue?_toJson r.backEdges
  simp [ofValue?, toJson, Value.at?, hstructs, horder, hedges, List.lookup_cons]

theorem readsBack_toJson (r : Report) : r.toJson.ReadsBack := by
  apply Value.readsBack_object
  simp only [List.forall_mem_cons]
  exact ⟨Value.readsBack_map StructReport.readsBack_toJson r.structs,
    Value.readsBack_map Value.readsBack_text r.order,
    Value.readsBack_map BackEdge.readsBack_toJson r.backEdges, List.forall_mem_nil _⟩

end Report

/-! What a report has to tell of a table. -/

structure FieldReport.Describes (r : FieldReport) (f : Field) : Prop where
  name : r.name = f.name
  label : r.label = f.type.label
  type : r.type = f.type.spelling
  depth : r.depth = f.indirection
  location : r.location = f.location

structure StructReport.Describes (t : Table) (r : StructReport) (s : Struct) : Prop where
  name : r.name = s.name
  unit : r.unit = s.unit
  marked : r.marked = s.options.generate
  location : r.location = s.location
  fields : List.Forall₂ FieldReport.Describes r.fields s.fields
  dependencies : r.dependencies = t.dependencies s

namespace Report

structure Describes (r : Report) (t : Table) : Prop where
  structs : List.Forall₂ (StructReport.Describes t) r.structs t.entries
  order : ∀ g, r.order = (Emission.run g t).order
  backEdges : ∀ g, r.backEdges = (Emission.run g t).backEdges

theorem describes_ofTable (t : Table) : (ofTable t).Describes t := by
  have hwalk := fun g => Emission.run_alike (fun _ _ => "") g t
  refine ⟨?_, fun g => (hwalk g).order, fun g => (hwalk g).backEdges⟩
  refine List.forall₂_map_left_iff.mpr (List.forall₂_same.mpr ?_)
  intro s _
  refine ⟨rfl, rfl, rfl, rfl, ?_, rfl⟩
  refine List.forall₂_map_left_iff.mpr (List.forall₂_same.mpr ?_)
  intro f _
  exact ⟨rfl, rfl, rfl, rfl, rfl⟩

theorem parse?_render_json (r : Report) : Value.parse? (r.render .json) = some r.toJson :=
  Value.parse?_render r.readsBack_toJson

theorem render_json_inj {r r' : Report} (h : r.render .json = r'.render .json) : r = r' := by
  have hvalue : some r.toJson = some r'.toJson := by
    rw [← parse?_render_json, ← parse?_render_json, h]
  have hreport : some r = some r' := by
    rw [← ofValue?_toJson, ← ofValue?_toJson, Option.some.inj hvalue]
  exact Option.some.inj hreport

/-- The JSON text of a report is read as one object, in which the report is found again with all
that it tells of the table. So two tables print the same text only if all that is reported of them
is the same. -/
theorem json_text_recovers (t : Table) :
    (∃ ms r, Value.parse? ((ofTable t).render .json) = some (.object ms) ∧
      ofValue? (.object ms) = some r ∧ r = ofTable t ∧ r.Describes t) ∧
    ∀ t', (ofTable t).render .json = (ofTable t').render .json ↔ ofTable t = ofTable t' := by
  refine ⟨⟨_, _, parse?_render_json (ofTable t), ofValue?_toJson (ofTable t), rfl,
    describes_ofTable t⟩, ?_⟩
  intro t'
  constructor
  · exact render_json_inj
  · intro hreport
    rw [hreport]

end Report

end Inspector
