import Inspector.Resolver
import Mathlib.Data.List.Forall2
import Mathlib.Data.List.Induction

/-! What becomes of a batch of units when a name may be declared again. A name keeps the place of
its first declaration and gets the contents of its last one, and a field may speak of any struct
that is declared anywhere in the batch. -/
namespace Inspector

open Inspector.Log (Event Traced)

namespace Register

variable {α β : Type} [Named α] [Named β]

theorem ofList_concat (as : List α) (a : α) : ofList (as ++ [a]) = (ofList as).insert a := by
  simp [ofList]

theorem names_ofList (as : List α) : (ofList as).names = (as.map Named.name).eraseDups := by
  induction as using List.reverseRecOn with
  | nil => simp [ofList, empty, names]
  | append_singleton as a ih =>
    rw [ofList_concat, names_insert, ih, List.map_append, List.eraseDups_append]
    generalize as.map Named.name = seen
    by_cases h : Named.name a ∈ seen
    · simp [List.removeAll, h]
    · simp [List.removeAll, List.eraseDups_cons, h]

theorem get?_ofList (as : List α) (name : String) :
    (ofList as).get? name = as.findRev? (Named.name · == name) := by
  induction as using List.reverseRecOn with
  | nil => rfl
  | append_singleton as a ih =>
    rw [ofList_concat, get?_insert, ih, List.findRev?_eq_find?_reverse,
      List.findRev?_eq_find?_reverse, List.reverse_append]
    by_cases h : Named.name a = name
    · simp [h]
    · simp [h]

theorem get?_map (r : Register α) (f : α → β) (h : ∀ a, Named.name (f a) = Named.name a)
    (name : String) : (r.map f h).get? name = (r.get? name).map f := by
  simp only [get?, map, List.find?_map, Function.comp_def, h]

end Register

namespace Primitive

def SpelledAs (p : Primitive) (s : String) : Prop := s = p.spelling ∨ p = bool ∧ s = "_Bool"

theorem ofSpelling?_eq_some_iff (s : String) (p : Primitive) :
    ofSpelling? s = some p ↔ p.SpelledAs s := by
  constructor
  · intro h
    unfold ofSpelling? at h
    split at h
    · next hs => exact Or.inr ⟨(Option.some.inj h).symm, hs⟩
    · have hp := List.find?_some h
      exact Or.inl (beq_iff_eq.mp hp).symm
  · rintro (rfl | ⟨rfl, rfl⟩)
    · exact ofSpelling?_spelling p
    · decide

theorem ofSpelling?_eq_none_iff (s : String) :
    ofSpelling? s = none ↔ ∀ p : Primitive, ¬ p.SpelledAs s := by
  rw [Option.eq_none_iff_forall_ne_some]
  exact forall_congr' fun p => not_congr (ofSpelling?_eq_some_iff s p)

end Primitive

/-- What a type name stands for when `names` are the declared structs. A primitive hides a struct
with its spelling. -/
inductive Denotes (names : List String) (typeName : String) : TypeClass → Prop where
  | primitive {p : Primitive} (hp : p.SpelledAs typeName) :
      Denotes names typeName (.primitive p)
  | struct (hp : ∀ p : Primitive, ¬ p.SpelledAs typeName) (hn : typeName ∈ names) :
      Denotes names typeName (.struct typeName)
  | unknown (hp : ∀ p : Primitive, ¬ p.SpelledAs typeName) (hn : typeName ∉ names) :
      Denotes names typeName (.unknown typeName)

structure FieldDecl.Resolves (names : List String) (d : FieldDecl) (f : Field) : Prop where
  name : f.name = d.name
  indirection : f.indirection = d.indirection
  location : f.location = d.location
  type : Denotes names d.typeName f.type

/-- `s` is what the declaration says, with its field types looked up among `names`. -/
structure Declaration.Resolves (names : List String) (d : Declaration) (s : Struct) : Prop where
  name : s.name = d.decl.name
  unit : s.unit = d.unit
  options : s.options = d.decl.options
  location : s.location = d.decl.location
  fields : List.Forall₂ (FieldDecl.Resolves names) d.decl.fields s.fields

namespace Resolver

variable {r : Resolver} {names : List String}

theorem classify_denotes (h : ∀ n, r.declared.contains n = true ↔ n ∈ names) (typeName : String) :
    Denotes names typeName (r.classify typeName) := by
  unfold classify
  cases hp : Primitive.ofSpelling? typeName with
  | some p => exact .primitive ((Primitive.ofSpelling?_eq_some_iff typeName p).mp hp)
  | none =>
    have hnone := (Primitive.ofSpelling?_eq_none_iff typeName).mp hp
    by_cases hn : typeName ∈ names
    · simp only [(h typeName).mpr hn, if_true]
      exact .struct hnone hn
    · simp only [mt (h typeName).mp hn]
      exact .unknown hnone hn

theorem resolveStruct_resolves (h : ∀ n, r.declared.contains n = true ↔ n ∈ names)
    (d : Declaration) : d.Resolves names (r.resolveStruct d) := by
  refine ⟨rfl, rfl, rfl, rfl, ?_⟩
  apply List.forall₂_map_right_iff.mpr
  apply List.forall₂_same.mpr
  intro f _
  exact ⟨rfl, rfl, rfl, classify_denotes h f.typeName⟩

def Takes (r : Resolver) (ds : List Declaration) : Prop :=
  r.policy ≠ .error ∨ (r.declared.names ++ ds.map (·.decl.name)).Nodup

theorem add_taken {d : Declaration} {ds : List Declaration} (h : r.Takes (d :: ds)) :
    ∃ events, r.add d = ⟨.ok { r with declared := r.declared.insert d }, events⟩ := by
  unfold add
  cases hd : r.declared.get? d.decl.name with
  | none => exact ⟨_, rfl⟩
  | some earlier =>
    cases hpolicy : r.policy with
    | overwrite => exact ⟨_, rfl⟩
    | warn => exact ⟨_, rfl⟩
    | error =>
      obtain hp | hn := h
      · exact absurd hpolicy hp
      · obtain ⟨hmem, hname⟩ := Register.mem_of_get? hd
        have hold : d.decl.name ∈ r.declared.names := List.mem_map.mpr ⟨earlier, hmem, hname⟩
        exact absurd rfl ((List.nodup_append.mp hn).2.2 _ hold _ List.mem_cons_self)

theorem Takes.tail {d : Declaration} {ds : List Declaration} (h : r.Takes (d :: ds)) :
    Takes { r with declared := r.declared.insert d } ds := by
  refine h.imp id fun hn => ?_
  have hnew : Named.name d ∉ r.declared.names := by
    intro hold
    exact (List.nodup_append.mp hn).2.2 _ hold _ List.mem_cons_self rfl
  rw [Register.names_insert, if_neg hnew, List.append_assoc]
  exact hn

theorem addAll_taken (ds : List Declaration) {later : List Declaration}
    (h : r.Takes (ds ++ later)) :
    (∃ events, r.addAll ds =
      ({ r with declared := ds.foldl .insert r.declared }, ⟨.ok (), events⟩)) ∧
    Takes { r with declared := ds.foldl .insert r.declared } later := by
  induction ds generalizing r with
  | nil => exact ⟨⟨_, rfl⟩, h⟩
  | cons d ds ih =>
    obtain ⟨first, hd⟩ := add_taken h
    obtain ⟨⟨rest, hds⟩, hlater⟩ := ih h.tail
    refine ⟨⟨first ++ rest, ?_⟩, hlater⟩
    simp only [addAll, hd, hds, List.foldl_cons]

end Resolver

def declarations (units : List SourceUnit) : List Declaration :=
  units.flatMap fun u => u.structs.map fun d => ⟨u.name, d⟩

def declaredNames (units : List SourceUnit) : List String :=
  (declarations units).map (·.decl.name)

def lastDeclaration? (units : List SourceUnit) (name : String) : Option Declaration :=
  (declarations units).findRev? (·.decl.name == name)

namespace Resolver

theorem addUnits_taken {r : Resolver} {units : List SourceUnit}
    (h : r.Takes (declarations units)) : ∃ events, r.addUnits units =
      ({ r with declared := (declarations units).foldl .insert r.declared }, ⟨.ok (), events⟩) := by
  induction units generalizing r with
  | nil => exact ⟨_, rfl⟩
  | cons u us ih =>
    obtain ⟨⟨first, hu⟩, hlater⟩ := addAll_taken (u.structs.map fun d => ⟨u.name, d⟩) h
    obtain ⟨rest, hus⟩ := ih hlater
    refine ⟨addingUnit u :: first ++ rest, ?_⟩
    simp only [addUnits, addUnit, hu, hus, declarations, List.flatMap_cons, List.foldl_append]

def ofBatch (policy : Policy) (units : List SourceUnit) : Resolver :=
  ⟨policy, .ofList (declarations units)⟩

variable (policy : Policy) (units : List SourceUnit)

theorem contains_ofBatch (n : String) :
    (ofBatch policy units).declared.contains n = true ↔ n ∈ declaredNames units := by
  simp only [Register.contains, ofBatch, Register.names_ofList, List.contains_iff_mem,
    List.mem_eraseDups]
  rfl

theorem names_table_ofBatch :
    (ofBatch policy units).table.names = (declaredNames units).eraseDups := by
  rw [names_table]
  exact Register.names_ofList _

theorem get?_table_ofBatch (name : String) : (ofBatch policy units).table.get? name =
    (lastDeclaration? units name).map (ofBatch policy units).resolveStruct := by
  have hlast := Register.get?_ofList (declarations units) name
  exact (Register.get?_map _ _ _ name).trans (congrArg _ hlast)

end Resolver

theorem result_resolveUnits {policy : Policy} {units : List SourceUnit}
    (h : ({ policy } : Resolver).Takes (declarations units)) :
    (resolveUnits policy units).result = .ok (Resolver.ofBatch policy units).table := by
  obtain ⟨events, h⟩ := Resolver.addUnits_taken h
  simp only [resolveUnits, h]
  rfl

theorem resolveUnits_taken {policy : Policy} (hp : policy ≠ .error) (units : List SourceUnit) :
    (resolveUnits policy units).result = .ok (Resolver.ofBatch policy units).table :=
  result_resolveUnits (Or.inl hp)

theorem resolveUnits_fresh (policy : Policy) {units : List SourceUnit}
    (h : (declaredNames units).Nodup) :
    (resolveUnits policy units).result = .ok (Resolver.ofBatch policy units).table :=
  result_resolveUnits (Or.inr h)

/-- Unless redeclarations are refused, every batch resolves. The table has the declared names in
the order of their first declarations, and under each the last declaration, whose fields are looked
up among all names of the batch. -/
theorem resolveUnits_last_declaration (policy : Policy) (hp : policy ≠ .error)
    (units : List SourceUnit) :
    ∃ t, (resolveUnits policy units).result = .ok t ∧
      t.names = (declaredNames units).eraseDups ∧
      ∀ name, Option.Rel (Declaration.Resolves (declaredNames units))
        (lastDeclaration? units name) (t.get? name) := by
  refine ⟨_, resolveUnits_taken hp units, Resolver.names_table_ofBatch policy units, ?_⟩
  intro name
  rw [Resolver.get?_table_ofBatch]
  cases lastDeclaration? units name with
  | none => exact .none
  | some d =>
    have hnames := Resolver.contains_ofBatch policy units
    exact .some (Resolver.resolveStruct_resolves hnames d)

def redeclaredPoint : List SourceUnit := [
  { name := "a.h", structs := [
      { name := "Point", fields := [{ name := "x", typeName := "int" }] },
      { name := "Line", fields := [{ name := "from", typeName := "Point" }] }] },
  { name := "b.h", structs := [
      { name := "Point", options := { generate := true }, fields := [
          { name := "x", typeName := "_Bool" },
          { name := "of", typeName := "Line", indirection := 1 }] }] }]

theorem resolveUnits_last_declaration_point : Policy.warn ≠ .error ∧
    ∃ t, (resolveUnits .warn redeclaredPoint).result = .ok t ∧ t.names = ["Point", "Line"] ∧
      ∃ s, t.get? "Point" = some s ∧ s.unit = "b.h" ∧ s.options.generate = true := by
  refine ⟨by decide, ?_⟩
  obtain ⟨t, ht, hnames, hentries⟩ :=
    resolveUnits_last_declaration .warn (by decide) redeclaredPoint
  refine ⟨t, ht, hnames.trans (by decide), ?_⟩
  have hpoint := hentries "Point"
  generalize hs : t.get? "Point" = found at hpoint
  cases hpoint with
  | some h => exact ⟨_, rfl, h.unit, congrArg Options.generate h.options⟩

end Inspector
