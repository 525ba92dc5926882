import Inspector.Proofs.Agreement
import Inspector.Proofs.Redeclaration

/-! The order of the input. When every struct is declared once, it does not matter in which order
the declarations come and how they are spread over units: the same files are generated. The walk
may take another course and leave out other edges, but no file shows it. -/
namespace Inspector

open scoped List

namespace Register

variable {α : Type} [Named α]

/-- Without repeated names nothing is replaced. -/
theorem entries_ofList {as : List α} (h : (as.map Named.name).Nodup) :
    (ofList as).entries = as := by
  induction as using List.reverseRecOn with
  | nil => rfl
  | append_singleton as a ih =>
    rw [List.map_append, List.nodup_append] at h
    have has := ih h.1
    have hfresh : Named.name a ∉ (ofList as).entries.map Named.name := by
      rw [has]
      intro hmem
      exact h.2.2 _ hmem _ List.mem_cons_self rfl
    calc
      (ofList (as ++ [a])).entries = ((ofList as).insert a).entries := by rw [ofList_concat]
      _ = put a (ofList as).entries := rfl
      _ = (ofList as).entries ++ [a] := put_of_fresh hfresh
      _ = as ++ [a] := by rw [has]

end Register

theorem decls_declarations (units : List SourceUnit) :
    (declarations units).map (·.decl) = units.flatMap (·.structs) := by
  simp [declarations, List.map_flatMap, Function.comp_def]

theorem declaredNames_eq (units : List SourceUnit) :
    declaredNames units = (units.flatMap (·.structs)).map (·.name) := by
  rw [← decls_declarations, List.map_map]
  rfl

namespace Resolver

variable {units units' : List SourceUnit}

theorem entries_table_ofBatch (policy : Policy) (h : (declaredNames units).Nodup) :
    (ofBatch policy units).table.entries =
      (declarations units).map (ofBatch policy units).resolveStruct :=
  congrArg _ (Register.entries_ofList h)

/-- Field types are looked up among the declared names, which are the same. -/
theorem classify_congr {r r' : Resolver}
    (h : ∀ n, r.declared.contains n = r'.declared.contains n) : r.classify = r'.classify := by
  funext typeName
  unfold classify
  rw [h]

theorem resolveStruct_alike {r r' : Resolver} (h : r.classify = r'.classify) {d d' : Declaration}
    (hd : d.decl = d'.decl) : (r.resolveStruct d).Alike (r'.resolveStruct d') := by
  refine ⟨congrArg StructDecl.name hd, ?_, congrArg StructDecl.options hd⟩
  have hfield : r.resolveField = r'.resolveField := by
    funext f
    simp only [resolveField, h]
  simp only [resolveStruct, hd, hfield]

/-- Every struct of one batch is found in the other. -/
theorem alike_of_perm (policy policy' : Policy)
    (hperm : units.flatMap (·.structs) ~ units'.flatMap (·.structs))
    (hn : (declaredNames units).Nodup) (hn' : (declaredNames units').Nodup) :
    ∀ s ∈ (ofBatch policy units).table.entries,
      ∃ s' ∈ (ofBatch policy' units').table.entries, s.Alike s' := by
  rw [entries_table_ofBatch policy hn, entries_table_ofBatch policy' hn']
  intro s hs
  obtain ⟨d, hd, rfl⟩ := List.mem_map.mp hs
  have hdecl : d.decl ∈ (declarations units').map (·.decl) := by
    rw [decls_declarations, ← hperm.mem_iff, ← decls_declarations]
    exact List.mem_map_of_mem hd
  obtain ⟨d', hd', he⟩ := List.mem_map.mp hdecl
  refine ⟨_, List.mem_map_of_mem hd', resolveStruct_alike (classify_congr ?_) he.symm⟩
  intro n
  rw [Bool.eq_iff_iff, contains_ofBatch, contains_ofBatch, declaredNames_eq, declaredNames_eq]
  exact (hperm.map _).mem_iff

end Resolver

/-- When no name is declared twice, every rearrangement of the declarations into units resolves
under every policy, and the same files are generated. -/
theorem artifacts_of_rearranged_units (units units' : List SourceUnit)
    (hperm : units.flatMap (·.structs) ~ units'.flatMap (·.structs))
    (hn : ((units.flatMap (·.structs)).map (·.name)).Nodup) (policy policy' : Policy)
    (settings : Settings) :
    ∃ t t', (resolveUnits policy units).result = .ok t ∧
      (resolveUnits policy' units').result = .ok t' ∧
      generateArtifacts t settings.chosen ~ generateArtifacts t' settings.chosen := by
  have hn' : (declaredNames units').Nodup := by
    rw [declaredNames_eq]
    exact (hperm.map _).nodup hn
  rw [← declaredNames_eq] at hn
  refine ⟨_, _, resolveUnits_fresh policy hn, resolveUnits_fresh policy' hn', ?_⟩
  apply Table.Agrees.generateArtifacts_perm
  exact ⟨Resolver.alike_of_perm policy policy' hperm hn hn',
    Resolver.alike_of_perm policy' policy hperm.symm hn' hn⟩

def spreadUnits : List SourceUnit := [
  { name := "a.h", structs := [
      { name := "Ring", options := { generate := true }, fields := [
          { name := "first", typeName := "Node", indirection := 1 }] }] },
  { name := "b.h", structs := [
      { name := "Node", options := { generate := true }, fields := [
          { name := "owner", typeName := "Ring", indirection := 1 }] }] }]

def gatheredUnits : List SourceUnit :=
  [{ name := "all.h", structs := (spreadUnits.flatMap (·.structs)).reverse }]

theorem artifacts_of_rearranged_units_ring :
    spreadUnits.flatMap (·.structs) ~ gatheredUnits.flatMap (·.structs) ∧
    ((spreadUnits.flatMap (·.structs)).map (·.name)).Nodup ∧
    ∃ t t', (resolveUnits .error spreadUnits).result = .ok t ∧
      (resolveUnits .warn gatheredUnits).result = .ok t' ∧
      generateArtifacts t ({} : Settings).chosen ~ generateArtifacts t' ({} : Settings).chosen := by
  have hperm : spreadUnits.flatMap (·.structs) ~ gatheredUnits.flatMap (·.structs) := by
    simp [gatheredUnits]
  have hn : ((spreadUnits.flatMap (·.structs)).map (·.name)).Nodup := by decide
  exact ⟨hperm, hn, artifacts_of_rearranged_units _ _ hperm hn .error .warn {}⟩

end Inspector
