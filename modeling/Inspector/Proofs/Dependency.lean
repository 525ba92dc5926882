import Inspector.Table
import Mathlib.Logic.Relation

/-! The graph of a table: which name depends on which, and which names are wanted because a marked
struct leads to them. Only names that the table has are in the graph. -/
namespace Inspector.Table

open Relation (ReflTransGen)

def Depends (t : Table) (a b : String) : Prop :=
  ∃ s, t.get? a = some s ∧ b ∈ t.dependencies s

def Wanted (t : Table) (name : String) : Prop :=
  ∃ s ∈ t.marked, ReflTransGen t.Depends s.name name

def below (t : Table) (s : Struct) : List Struct := (t.dependencies s).filterMap t.get?

variable {t : Table} {s : Struct}

theorem get?_entry (h : s ∈ t.entries) : t.get? s.name = some s := Register.get?_name h

theorem entry_eq_of_name {s' : Struct} (h : s ∈ t.entries) (h' : s' ∈ t.entries)
    (hn : s.name = s'.name) : s = s' := by
  have hs := get?_entry h
  rw [hn, get?_entry h'] at hs
  exact (Option.some.inj hs).symm

theorem entry_of_get? {n : String} (h : t.get? n = some s) : s ∈ t.entries ∧ s.name = n :=
  Register.mem_of_get? h

theorem entry_of_marked (h : s ∈ t.marked) : s ∈ t.entries := (List.mem_filter.mp h).1

theorem nodup_names_marked (t : Table) : (t.marked.map Struct.name).Nodup :=
  List.Nodup.sublist (List.filter_sublist.map _) t.nodup

theorem name_mem_names (h : s ∈ t.entries) : s.name ∈ t.names := List.mem_map_of_mem h

theorem length_le_size {ns : List String} (hn : ns.Nodup) (h : ns ⊆ t.names) :
    ns.length ≤ t.size := by
  simpa [Register.names, Register.size] using hn.length_le_of_subset h

theorem get?_of_dependency {d : String} (h : d ∈ t.dependencies s) :
    ∃ s', t.get? d = some s' ∧ s'.name = d := by
  have hd := ((t.mem_dependencies s d).mp h).1
  obtain ⟨s', hs', hn⟩ := (t.contains_iff d).mp hd
  rw [← hn]
  exact ⟨s', get?_entry hs', rfl⟩

theorem depends_iff (h : s ∈ t.entries) (d : String) :
    t.Depends s.name d ↔ d ∈ t.dependencies s := by
  constructor
  · intro hd
    obtain ⟨s', hs', hd⟩ := hd
    rw [get?_entry h] at hs'
    cases hs'
    exact hd
  · intro hd
    exact ⟨s, get?_entry h, hd⟩

theorem names_lookups {ds : List String} (h : ∀ d ∈ ds, ∃ s', t.get? d = some s') :
    (ds.filterMap t.get?).map Struct.name = ds := by
  induction ds with
  | nil => rfl
  | cons d ds ih =>
    obtain ⟨s', hs'⟩ := h d List.mem_cons_self
    have ht := ih fun x hx => h x (List.mem_cons_of_mem d hx)
    rw [List.filterMap_cons_some hs', List.map_cons, (entry_of_get? hs').2, ht]

theorem names_below (t : Table) (s : Struct) : (t.below s).map Struct.name = t.dependencies s := by
  apply names_lookups
  intro d hd
  obtain ⟨s', hs', _⟩ := get?_of_dependency hd
  exact ⟨s', hs'⟩

theorem nodup_names_below (t : Table) (s : Struct) : ((t.below s).map Struct.name).Nodup := by
  rw [names_below]
  apply List.Pairwise.imp _ (Names.pairwise_ofList _)
  intro a b hab he
  subst he
  exact String.lt_irrefl a hab

theorem mem_below {d : Struct} (h : d ∈ t.below s) :
    d ∈ t.entries ∧ d.name ∈ t.dependencies s := by
  obtain ⟨n, hn, hd⟩ := List.mem_filterMap.mp h
  obtain ⟨he, rfl⟩ := entry_of_get? hd
  exact ⟨he, hn⟩

end Inspector.Table
