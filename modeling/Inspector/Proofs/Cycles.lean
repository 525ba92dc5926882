import Inspector.Proofs.Coverage

/-! The edges that a run leaves out. Each of them closes a cycle whose other edges are kept, so
there are none exactly when the wanted structs have no cycle among them. -/
namespace Inspector

open Relation (ReflTransGen TransGen)

def Acyclic (r : String → String → Prop) : Prop := ∀ n, ¬ TransGen r n n

namespace Table

def WantedEdge (t : Table) (a b : String) : Prop := t.Wanted a ∧ t.Wanted b ∧ t.Depends a b

end Table

namespace Emission

def Kept (e : Emission) (t : Table) (a b : String) : Prop :=
  a ∈ e.order ∧ b ∈ e.order ∧ t.Depends a b ∧ ⟨a, b⟩ ∉ e.backEdges

variable {g : Generator} {t : Table} {a b : String}

theorem kept_iff_follows : (run g t).Kept t a b ↔ Follows t (run g t).order a b := by
  constructor
  · rintro ⟨ha, _, hab, hk⟩
    exact ⟨hab, (precedes_run_iff g t ha hab).mpr hk⟩
  · rintro ⟨hab, hpre⟩
    have ha := hpre.right_mem
    exact ⟨ha, hpre.left_mem, hab, (precedes_run_iff g t ha hab).mp hpre⟩

theorem kept_path_of_cut {k : BackEdge} (hk : k ∈ (run g t).backEdges) :
    ReflTransGen ((run g t).Kept t) k.target k.source := by
  have h := (coherent_run g t).closes k hk
  rw [timeline_nil] at h
  exact ReflTransGen.mono (fun _ _ => kept_iff_follows.mpr) _ _ h

theorem wantedEdge_of_kept (h : (run g t).Kept t a b) : t.WantedEdge a b :=
  ⟨(mem_order_run g t a).mp h.1, (mem_order_run g t b).mp h.2.1, h.2.2.1⟩

theorem acyclic_of_no_cut (h : (run g t).backEdges = []) : Acyclic t.WantedEdge := by
  have hfollow : ∀ a b, t.WantedEdge a b → Follows t (run g t).order a b := by
    rintro a b ⟨ha, hb, hab⟩
    refine kept_iff_follows.mp ⟨(mem_order_run g t a).mpr ha, (mem_order_run g t b).mpr hb, hab, ?_⟩
    rw [h]
    exact List.not_mem_nil
  intro n hn
  obtain ⟨m, hnm, hmn⟩ := TransGen.head'_iff.mp hn
  have hpath := ReflTransGen.mono hfollow _ _ hmn
  exact not_precedes_of_follows (nodup_order_run g t) hpath (hfollow n m hnm).2

theorem cycle_of_cut {k : BackEdge} (hk : k ∈ (run g t).backEdges) :
    TransGen t.WantedEdge k.target k.target := by
  have hpath := ReflTransGen.mono (fun _ _ => wantedEdge_of_kept) _ _ (kept_path_of_cut hk)
  have hc := coherent_run g t
  have hsource := source_mem_run g t hk
  have htarget := hc.closed hsource (hc.depends k hk)
  rw [timeline_nil] at htarget
  exact TransGen.tail' hpath
    ⟨(mem_order_run g t _).mp hsource, (mem_order_run g t _).mp htarget, hc.depends k hk⟩

/-- An edge is left out only where it closes a cycle of edges that are kept. So nothing is left out
exactly when the wanted structs have no cycle among them. -/
theorem run_cuts_close_cycles (g : Generator) (t : Table) :
    (∀ k ∈ (run g t).backEdges,
      t.Depends k.source k.target ∧ ReflTransGen ((run g t).Kept t) k.target k.source) ∧
    ((run g t).backEdges = [] ↔ Acyclic t.WantedEdge) := by
  constructor
  · intro k hk
    exact ⟨(coherent_run g t).depends k hk, kept_path_of_cut hk⟩
  · constructor
    · exact acyclic_of_no_cut
    · intro h
      apply List.eq_nil_iff_forall_not_mem.mpr
      intro k hk
      exact h k.target (cycle_of_cut hk)

end Emission

end Inspector
