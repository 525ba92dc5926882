import Inspector.DescriptorFile
import Inspector.Proofs.Output
import Inspector.Proofs.Redeclaration

/-! From descriptor files to generated files. Which structs get files is told by the last
declaration of each name alone: it says whether code is asked for the struct and which others the
struct leads to. -/
namespace Inspector

open Relation (ReflTransGen)

namespace Resolver

variable {r : Resolver} {names : List String}

theorem classify_eq_struct_iff (h : ∀ n, r.declared.contains n = true ↔ n ∈ names)
    (typeName target : String) : r.classify typeName = .struct target ↔
      typeName = target ∧ (∀ p : Primitive, ¬ p.SpelledAs target) ∧ target ∈ names := by
  have hd := classify_denotes h typeName
  constructor
  · intro he
    rw [he] at hd
    cases hd with
    | struct hp hn => exact ⟨rfl, hp, hn⟩
  · rintro ⟨rfl, hp, hn⟩
    generalize r.classify typeName = c at hd ⊢
    cases hd with
    | primitive hs => exact absurd hs (hp _)
    | struct => rfl
    | unknown _ hnot => exact absurd hn hnot

variable (policy : Policy) (units : List SourceUnit)

theorem depends_ofBatch (a b : String) : (ofBatch policy units).table.Depends a b ↔
    ∃ d, lastDeclaration? units a = some d ∧ ∃ f ∈ d.decl.fields, f.typeName = b ∧
      (∀ p : Primitive, ¬ p.SpelledAs b) ∧ b ∈ declaredNames units := by
  have hclass := classify_eq_struct_iff (contains_ofBatch policy units)
  have hnames : ∀ n, (ofBatch policy units).table.contains n = true ↔ n ∈ declaredNames units := by
    intro n
    rw [Register.contains, names_table_ofBatch, List.contains_iff_mem, List.mem_eraseDups]
  simp only [Table.Depends, get?_table_ofBatch, Table.mem_dependencies, Option.map_eq_some_iff]
  constructor
  · rintro ⟨_, ⟨d, hd, rfl⟩, hb, f, hf, hty⟩
    obtain ⟨g, hg, rfl⟩ := List.mem_map.mp hf
    exact ⟨d, hd, g, hg, (hclass _ _).mp hty⟩
  · rintro ⟨d, hd, f, hf, htarget⟩
    refine ⟨_, ⟨d, hd, rfl⟩, (hnames b).mpr htarget.2.2, _, List.mem_map_of_mem hf, ?_⟩
    exact (hclass _ _).mpr htarget

theorem marked_ofBatch (n : String) : (∃ s ∈ (ofBatch policy units).table.marked, s.name = n) ↔
    ∃ d, lastDeclaration? units n = some d ∧ d.decl.options.generate = true := by
  constructor
  · rintro ⟨s, hs, rfl⟩
    obtain ⟨hmem, hmark⟩ := List.mem_filter.mp hs
    have hget := Table.get?_entry hmem
    rw [get?_table_ofBatch, Option.map_eq_some_iff] at hget
    obtain ⟨d, hd, rfl⟩ := hget
    exact ⟨d, hd, hmark⟩
  · rintro ⟨d, hd, hmark⟩
    have hget := get?_table_ofBatch policy units n
    rw [hd, Option.map_some] at hget
    obtain ⟨hmem, hname⟩ := Table.entry_of_get? hget
    exact ⟨_, List.mem_filter.mpr ⟨hmem, hmark⟩, hname⟩

end Resolver

/-- Descriptor files, each with the name that its unit gets if it has none of its own. -/
abbrev Batch := List (DescriptorFile × String)

namespace Batch

def units (files : Batch) : List SourceUnit := files.map fun f => f.1.toUnit f.2

def listed (files : Batch) : List StructEntry := files.flatMap (·.1.structs)

def last? (files : Batch) (name : String) : Option StructEntry :=
  files.listed.findRev? (·.name == name)

def Marks (files : Batch) (name : String) : Prop :=
  ∃ e, files.last? name = some e ∧
    (e.options.generate = true ∨ "generate_cinspect" ∈ e.attributes)

/-- The last declaration of `a` has a field of type `b`, at any indirection, and `b` is a struct of
the batch. -/
def Refers (files : Batch) (a b : String) : Prop :=
  ∃ e, files.last? a = some e ∧ ∃ f ∈ e.fields, f.typeName = b ∧
    (∀ p : Primitive, ¬ p.SpelledAs b) ∧ b ∈ files.listed.map (·.name)

def Asks (files : Batch) (name : String) : Prop :=
  ∃ m, files.Marks m ∧ ReflTransGen files.Refers m name

variable (files : Batch)

theorem decls_units :
    (declarations files.units).map (·.decl) = files.listed.map StructEntry.decl := by
  simp [declarations, units, listed, DescriptorFile.toUnit, List.flatMap_map, List.map_flatMap,
    Function.comp_def]

theorem declaredNames_units : declaredNames files.units = files.listed.map (·.name) := by
  have h := congrArg (List.map StructDecl.name) files.decls_units
  simpa [declaredNames, Function.comp_def, StructEntry.decl] using h

theorem decl_last (name : String) : (lastDeclaration? files.units name).map (·.decl) =
    (files.last? name).map StructEntry.decl := by
  have hfind : ∀ {α : Type} (f : α → StructDecl) (as : List α),
      (as.findRev? fun a => (f a).name == name).map f = (as.map f).findRev? (·.name == name) := by
    intro α f as
    rw [List.findRev?_eq_find?_reverse, List.findRev?_eq_find?_reverse, ← List.map_reverse,
      List.find?_map]
    rfl
  have hlisted := hfind StructEntry.decl files.listed
  rw [← decls_units, ← hfind] at hlisted
  exact hlisted.symm

/-- A name has the same last declaration in the files and in their units. -/
theorem exists_last {name : String} (q : StructDecl → Prop) :
    (∃ d, lastDeclaration? files.units name = some d ∧ q d.decl) ↔
      ∃ e, files.last? name = some e ∧ q e.decl := by
  have h := files.decl_last name
  constructor
  · rintro ⟨d, hd, hq⟩
    rw [hd, Option.map_some, eq_comm, Option.map_eq_some_iff] at h
    obtain ⟨e, he, hdecl⟩ := h
    exact ⟨e, he, hdecl ▸ hq⟩
  · rintro ⟨e, he, hq⟩
    rw [he, Option.map_some, Option.map_eq_some_iff] at h
    obtain ⟨d, hd, hdecl⟩ := h
    exact ⟨d, hd, hdecl ▸ hq⟩

theorem wanted_iff_asks (policy : Policy) (n : String) :
    (Resolver.ofBatch policy files.units).table.Wanted n ↔ files.Asks n := by
  have hmarks : ∀ m, (∃ s ∈ (Resolver.ofBatch policy files.units).table.marked, s.name = m) ↔
      files.Marks m := by
    intro m
    rw [Resolver.marked_ofBatch, files.exists_last fun d => d.options.generate = true]
    simp only [Marks, StructEntry.decl, Options.merge_generate, Options.ofAttributes_generate,
      generateAttribute]
  have hrefers : (Resolver.ofBatch policy files.units).table.Depends = files.Refers := by
    funext a b
    rw [eq_iff_iff, Resolver.depends_ofBatch, declaredNames_units]
    exact files.exists_last fun d => ∃ f ∈ d.fields, f.typeName = b ∧
      (∀ p : Primitive, ¬ p.SpelledAs b) ∧ b ∈ files.listed.map (·.name)
  unfold Table.Wanted Asks
  rw [hrefers]
  constructor
  · rintro ⟨s, hs, hr⟩
    exact ⟨s.name, (hmarks s.name).mp ⟨s, hs, rfl⟩, hr⟩
  · rintro ⟨m, hm, hr⟩
    obtain ⟨s, hs, rfl⟩ := (hmarks m).mpr hm
    exact ⟨s, hs, hr⟩

end Batch

/-- Unless redeclarations are refused, every batch of files resolves, and files are generated for
exactly the structs that the last declarations ask for: each chosen backend makes both files of
such a struct, and there is no file besides. -/
theorem batch_generates_asked (policy : Policy) (hp : policy ≠ .error) (files : Batch)
    (settings : Settings) :
    ∃ t, (resolveUnits policy (files.map fun f => f.1.toUnit f.2)).result = .ok t ∧
      (∀ b ∈ settings.chosen, ∀ k n,
        (∃ a ∈ generateArtifacts t settings.chosen, a.name = b.file k n) ↔ files.Asks n) ∧
      ∀ a ∈ generateArtifacts t settings.chosen, ∃ b ∈ settings.chosen, ∃ k n,
        a.name = b.file k n ∧ files.Asks n := by
  refine ⟨_, resolveUnits_taken hp files.units, ?_, ?_⟩
  · intro b hb k n
    rw [generated_iff_wanted hb, files.wanted_iff_asks]
  · intro a ha
    obtain ⟨b, hb, s, hs, k, rfl⟩ := mem_generateArtifacts.mp ha
    refine ⟨b, hb, k, s.name, rfl, ?_⟩
    exact (files.wanted_iff_asks policy s.name).mp (Table.mem_emitted.mp hs).2

def redeclaredBody : Batch := [
  ({ structs := [
      { name := "Scene", attributes := ["generate_cinspect"], fields := [
          { name := "body", typeName := "Body" }] },
      { name := "Body", fields := [{ name := "shape", typeName := "Shape", indirection := 1 }] },
      { name := "Shape" }] }, "scene.json"),
  ({ structs := [{ name := "Body" }] }, "body.json")]

theorem redeclaredBody_asks_body : redeclaredBody.Asks "Body" := by
  have hbody := (Primitive.ofSpelling?_eq_none_iff "Body").mp (by decide)
  refine ⟨"Scene", ⟨_, rfl, Or.inr List.mem_cons_self⟩, ReflTransGen.single ?_⟩
  exact ⟨_, rfl, _, List.mem_cons_self, rfl, hbody, by decide⟩

theorem redeclaredBody_not_asks_shape : ¬ redeclaredBody.Asks "Shape" := by
  rintro ⟨m, ⟨e, he, hmark⟩, hr⟩
  cases hr with
  | refl =>
    cases he
    simp at hmark
  | @tail a _ _ hstep =>
    obtain ⟨e, he, f, hf, hty, _⟩ := hstep
    rw [Batch.last?, List.findRev?_eq_find?_reverse] at he
    have hmem := List.mem_of_find?_eq_some he
    have hname : e.name = a := by simpa using List.find?_some he
    simp only [Batch.listed, redeclaredBody, List.flatMap_cons, List.flatMap_nil, List.append_nil,
      List.cons_append, List.nil_append, List.mem_reverse, List.mem_cons, List.not_mem_nil,
      or_false] at hmem
    obtain rfl | rfl | rfl | rfl := hmem
    · simp at hf
      subst hf
      simp at hty
    · subst hname
      revert he
      decide
    · simp at hf
    · simp at hf

theorem batch_generates_asked_body : Policy.overwrite ≠ .error ∧
    ∃ t, (resolveUnits .overwrite (redeclaredBody.map fun f => f.1.toUnit f.2)).result = .ok t ∧
      (∃ a ∈ generateArtifacts t ({} : Settings).chosen, a.name = "print_Body.c") ∧
      ¬ ∃ a ∈ generateArtifacts t ({} : Settings).chosen, a.name = "print_Shape.c" := by
  refine ⟨by decide, ?_⟩
  obtain ⟨t, ht, hfiles, _⟩ := batch_generates_asked .overwrite (by decide) redeclaredBody {}
  have hbody := hfiles _ Settings.printer_chosen .body
  exact ⟨t, ht, (hbody "Body").mpr redeclaredBody_asks_body,
    mt (hbody "Shape").mp redeclaredBody_not_asks_shape⟩

end Inspector
