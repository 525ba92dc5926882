import Inspector.Proofs.Deletion
import Mathlib.Data.List.Sort

/-! What a walk sees of a table: the names in their order, the marks, and for each struct the set of
the structs it refers to. Two tables that agree in this are walked in lock-step, whatever else their
structs hold. -/
namespace Inspector

def Struct.RefersTo (s : Struct) (d : String) : Prop := ∃ f ∈ s.fields, f.type = .struct d

instance (s : Struct) (d : String) : Decidable (s.RefersTo d) :=
  inferInstanceAs (Decidable (∃ f ∈ s.fields, _))

namespace Table

/-- The tables have the same names in the same order, the same marks, and under each name structs
that refer to the same of these names. -/
structure SameGraph (t t' : Table) : Prop where
  names : t.names = t'.names
  marks : ∀ s ∈ t.entries, ∀ s' ∈ t'.entries, s.name = s'.name → s.isMarked = s'.isMarked
  targets : ∀ s ∈ t.entries, ∀ s' ∈ t'.entries, s.name = s'.name →
    ∀ d ∈ t.names, s.RefersTo d ↔ s'.RefersTo d

structure Namesakes (t t' : Table) (s s' : Struct) : Prop where
  left : s ∈ t.entries
  right : s' ∈ t'.entries
  name : s.name = s'.name

theorem mem_dependencies_iff {t : Table} {s : Struct} {d : String} :
    d ∈ t.dependencies s ↔ d ∈ t.names ∧ s.RefersTo d := by
  rw [mem_dependencies, Register.contains, List.contains_iff_mem]
  exact Iff.rfl

/-- The names in their order lead back to the entries. -/
theorem lookups_names (t : Table) : t.names.filterMap t.get? = t.entries := by
  rw [Register.names, List.filterMap_map]
  calc
    t.entries.filterMap (t.get? ∘ Named.name) = t.entries.filterMap some :=
      List.filterMap_congr fun _ hs => get?_entry hs
    _ = t.entries := List.filterMap_some

namespace SameGraph

variable {t t' : Table} {s s' : Struct}

/-- Dependencies are listed in increasing order and once each, so their set determines the list. -/
theorem dependencies_eq (h : SameGraph t t') (hs : Namesakes t t' s s') :
    t.dependencies s = t'.dependencies s' := by
  apply List.Pairwise.eq_of_mem_iff (Names.pairwise_ofList _) (Names.pairwise_ofList _)
  intro d
  rw [← dependencies, ← dependencies, mem_dependencies_iff, mem_dependencies_iff, ← h.names]
  exact and_congr_right fun hd => h.targets s hs.left s' hs.right hs.name d hd

theorem namesakes_lookups (h : SameGraph t t') {ns : List String} (hns : ∀ n ∈ ns, n ∈ t.names) :
    List.Forall₂ (Namesakes t t') (ns.filterMap t.get?) (ns.filterMap t'.get?) := by
  induction ns with
  | nil => exact .nil
  | cons n ns ih =>
    obtain ⟨hn, hrest⟩ := List.forall_mem_cons.mp hns
    have hn' : n ∈ t'.names := h.names ▸ hn
    obtain ⟨s, hs, hname⟩ : ∃ s ∈ t.entries, s.name = n := List.mem_map.mp hn
    obtain ⟨s', hs', hname'⟩ : ∃ s ∈ t'.entries, s.name = n := List.mem_map.mp hn'
    have hfound : t.get? n = some s := hname ▸ get?_entry hs
    have hfound' : t'.get? n = some s' := hname' ▸ get?_entry hs'
    rw [List.filterMap_cons_some hfound, List.filterMap_cons_some hfound']
    exact .cons ⟨hs, hs', hname.trans hname'.symm⟩ (ih hrest)

theorem namesakes_below (h : SameGraph t t') (hs : Namesakes t t' s s') :
    List.Forall₂ (Namesakes t t') (t.below s) (t'.below s') := by
  rw [below, below, ← h.dependencies_eq hs]
  exact h.namesakes_lookups fun d hd => (mem_dependencies_iff.mp hd).1

theorem namesakes_marked (h : SameGraph t t') :
    List.Forall₂ (Namesakes t t') t.marked t'.marked := by
  have hentries := @namesakes_lookups t t' h t.names fun _ hn => hn
  rw [lookups_names, h.names, lookups_names] at hentries
  refine List.rel_filter ?_ hentries
  intro s s' hs
  exact Bool.eq_iff_iff.mp (h.marks s hs.left s' hs.right hs.name)

theorem run_alike (h : SameGraph t t') (g g' : Generator) :
    Emission.Alike (Emission.run g t) (Emission.run g' t') :=
  (Emission.walks_run g t).alike (fun _ _ hs => hs.name) (fun _ _ hs => h.namesakes_below hs)
    (Emission.walks_run g' t') h.namesakes_marked ⟨rfl, rfl⟩

end SameGraph

end Table

/-- Field order, repeated fields, field names, indirections and fields of other types do not steer
the walk: two tables with the same names, marks and dependency sets have the same order of structs,
and the same edges are left out. -/
theorem run_of_same_graph {t t' : Table} (h : t.SameGraph t') (g g' : Generator) :
    (Emission.run g t).order = (Emission.run g' t').order ∧
    (Emission.run g t).backEdges = (Emission.run g' t').backEdges :=
  ⟨(h.run_alike g g').order, (h.run_alike g g').backEdges⟩

def retoldRing : Table where
  entries := [
    { name := "Ring", options := { generate := true }, unit := "ring.h", fields := [
        { name := "size", type := .primitive .int },
        { name := "last", type := .struct "Node" },
        { name := "all", type := .struct "Node", indirection := 2 },
        { name := "lock", type := .struct "Mutex" }] },
    { name := "Node", fields := [
        { name := "home", type := .struct "Ring" },
        { name := "payload", type := .unknown "Brush" },
        { name := "twin", type := .struct "Node", indirection := 3 },
        { name := "home", type := .struct "Ring", indirection := 1 }] }]
  nodup := by decide

theorem run_of_same_graph_ring :
    ring.SameGraph retoldRing ∧
    (Emission.run (fun _ _ => "") retoldRing).order = ["Node", "Ring"] ∧
    (Emission.run (fun _ _ => "") retoldRing).backEdges =
      [⟨"Node", "Node"⟩, ⟨"Node", "Ring"⟩] := by
  have h : ring.SameGraph retoldRing := ⟨by decide, by decide, by decide⟩
  obtain ⟨horder, hedges⟩ := run_of_same_graph h (fun s _ => s.name) (fun _ _ => "")
  exact ⟨h, horder.symm.trans (by decide), hedges.symm.trans (by decide)⟩

end Inspector
