import Inspector.Emission
import Inspector.Proofs.Dependency

/-! The walk over a table as a relation, with no bound on how deep visits are nested. A run never
meets its bound, so it is such a walk, and what holds of every walk holds of every run. -/
namespace Inspector.Emission

open scoped List

@[simp] theorem order_finish (e : Emission) (name text : String) :
    (e.finish name text).order = e.order ++ [name] := by
  simp [finish, order]

@[simp] theorem backEdges_finish (e : Emission) (name text : String) :
    (e.finish name text).backEdges = e.backEdges := rfl

@[simp] theorem backEdges_cut (e : Emission) (a b : String) :
    (e.cut a b).backEdges = e.backEdges ++ [⟨a, b⟩] := rfl

@[simp] theorem isDone_iff (e : Emission) (name : String) :
    e.isDone name = true ↔ name ∈ e.order := by
  simp [isDone]

/-- Visiting `ss` one after the other takes `e` to `e'` while the structs of `chain` are in
progress. An edge is left out only below some struct, so `back` names the one at the head. -/
inductive Walks (g : Generator) (t : Table) :
    List String → List Struct → Emission → Emission → Prop where
  | nil {chain e} : Walks g t chain [] e e
  | done {chain ss e e'} (s : Struct) (hs : s.name ∈ e.order) (rest : Walks g t chain ss e e') :
      Walks g t chain (s :: ss) e e'
  | back {chain ss e e'} (p : String) (s : Struct) (hs : s.name ∉ e.order)
      (hc : s.name ∈ p :: chain) (rest : Walks g t (p :: chain) ss (e.cut p s.name) e') :
      Walks g t (p :: chain) (s :: ss) e e'
  | fresh {chain ss e e'} (s : Struct) (e₁ : Emission) (hs : s.name ∉ e.order)
      (hc : s.name ∉ chain) (inner : Walks g t (s.name :: chain) (t.below s) e e₁)
      (rest : Walks g t chain ss (e₁.finish s.name (g s t)) e') :
      Walks g t chain (s :: ss) e e'

/-- Visits with bounded nesting are a walk when the bound and the chain together exceed the table:
the structs in progress are distinct entries, so the bound cannot run out. -/
theorem walks_foldl (g : Generator) (t : Table) (depth : Nat) (chain : List String)
    (ss : List Struct) (e : Emission) (hn : chain.Nodup) (hsub : chain ⊆ t.names)
    (hd : t.size < chain.length + depth) (hss : ∀ s ∈ ss, s ∈ t.entries) :
    Walks g t chain ss e (ss.foldl (fun e s => visit g t depth chain s e) e) := by
  induction depth generalizing chain ss e with
  | zero =>
    have hlen := Table.length_le_size hn hsub
    omega
  | succ depth ih =>
    -- The bound serves the visits below one struct; its siblings are visited under the same bound.
    induction ss generalizing e with
    | nil => exact .nil
    | cons s ss ihs =>
      have hs := hss s List.mem_cons_self
      have hrest := fun e => ihs e fun x hx => hss x (List.mem_cons_of_mem s hx)
      rw [List.foldl_cons]
      by_cases hdone : s.name ∈ e.order
      · rw [visit_done g t _ chain s ((e.isDone_iff _).mpr hdone)]
        exact .done s hdone (hrest e)
      · have hfree : e.isDone s.name = false := by simpa [isDone] using hdone
        by_cases hc : s.name ∈ chain
        · rw [visit_inProgress g t depth hfree hc]
          cases chain with
          | nil => cases hc
          | cons p chain => exact .back p s hdone hc (hrest _)
        · rw [visit_fresh g t depth hfree hc]
          refine .fresh s _ hdone hc (ih _ _ e (List.nodup_cons.mpr ⟨hc, hn⟩) ?_ ?_ ?_) (hrest _)
          · exact List.cons_subset.mpr ⟨Table.name_mem_names hs, hsub⟩
          · simp only [List.length_cons]
            omega
          · intro d hd
            exact (Table.mem_below hd).1

theorem walks_run (g : Generator) (t : Table) : Walks g t [] t.marked {} (run g t) := by
  apply walks_foldl g t _ [] _ {} List.nodup_nil (List.nil_subset _)
  · simp
  · intro s hs
    exact Table.entry_of_marked hs

namespace Walks

variable {g : Generator} {t : Table} {chain : List String} {ss : List Struct} {e e' : Emission}

/-- A finished text stays as it is. -/
theorem fragments_prefix (h : Walks g t chain ss e e') : e.fragments <+: e'.fragments := by
  induction h with
  | nil => exact List.prefix_refl _
  | done _ _ _ ih => exact ih
  | back _ _ _ _ _ ih => exact ih
  | fresh _ _ _ _ _ _ ih₁ ih₂ => exact ih₁.trans ((List.prefix_append _ _).trans ih₂)

theorem order_prefix (h : Walks g t chain ss e e') : e.order <+: e'.order :=
  h.fragments_prefix.map Prod.fst

theorem backEdges_prefix (h : Walks g t chain ss e e') : e.backEdges <+: e'.backEdges := by
  induction h with
  | nil => exact List.prefix_refl _
  | done _ _ _ ih => exact ih
  | back _ _ _ _ _ ih => exact (List.prefix_append _ _).trans ih
  | fresh _ _ _ _ _ _ ih₁ ih₂ => exact ih₁.trans ih₂

/-- Every visited struct ends up finished, or the edge that led to it is left out. -/
theorem visited (h : Walks g t chain ss e e') : ∀ s ∈ ss,
    s.name ∈ e'.order ∨ ∃ p ∈ chain.head?, ⟨p, s.name⟩ ∈ e'.backEdges := by
  induction h with
  | nil => simp
  | done s hs rest ih =>
    have hdone := rest.order_prefix.subset hs
    exact List.forall_mem_cons.mpr ⟨Or.inl hdone, ih⟩
  | back p s hs hc rest ih =>
    have hk := rest.backEdges_prefix.subset (List.mem_append_right _ List.mem_cons_self)
    exact List.forall_mem_cons.mpr ⟨Or.inr ⟨p, rfl, hk⟩, ih⟩
  | fresh s e₁ _ _ _ rest _ ih =>
    have hs : s.name ∈ (e₁.finish s.name (g s t)).order := by simp
    have hdone := rest.order_prefix.subset hs
    exact List.forall_mem_cons.mpr ⟨Or.inl hdone, ih⟩

/-- A walk leaves out edges of the structs it finishes, and edges from the head of the chain to
the structs it visits. No other struct loses one. -/
theorem new_edge (h : Walks g t chain ss e e') {k : BackEdge} (hk : k ∈ e'.backEdges) :
    k ∈ e.backEdges ∨ (k.source ∉ e.order ∧ k.source ∈ e'.order) ∨
      (k.source ∈ chain.head? ∧ k.target ∈ ss.map Struct.name) := by
  induction h with
  | nil => exact Or.inl hk
  | done _ _ _ ih =>
    obtain h | h | ⟨hp, ht⟩ := ih hk
    · exact Or.inl h
    · exact Or.inr (Or.inl h)
    · exact Or.inr (Or.inr ⟨hp, List.mem_cons_of_mem _ ht⟩)
  | back _ _ _ _ _ ih =>
    obtain h | h | ⟨hp, ht⟩ := ih hk
    · cases List.mem_append.mp h with
      | inl h => exact Or.inl h
      | inr h =>
        rw [List.mem_singleton] at h
        subst h
        exact Or.inr (Or.inr ⟨rfl, List.mem_cons_self⟩)
    · exact Or.inr (Or.inl h)
    · exact Or.inr (Or.inr ⟨hp, List.mem_cons_of_mem _ ht⟩)
  | fresh s e₁ hs _ inner rest ih₁ ih₂ =>
    have hp₁ := inner.order_prefix.subset
    have hp₂ := rest.order_prefix.subset
    simp only [order_finish, List.append_subset] at hp₂
    obtain h | ⟨hn, hm⟩ | ⟨hp, ht⟩ := ih₂ hk
    · obtain h | ⟨hn, hm⟩ | ⟨hp, _⟩ := ih₁ h
      · exact Or.inl h
      · exact Or.inr (Or.inl ⟨hn, hp₂.1 hm⟩)
      · have he : s.name = k.source := Option.some.inj hp
        rw [he] at hs hp₂
        exact Or.inr (Or.inl ⟨hs, hp₂.2 List.mem_cons_self⟩)
    · refine Or.inr (Or.inl ⟨?_, hm⟩)
      intro h
      apply hn
      simp [hp₁ h]
    · exact Or.inr (Or.inr ⟨hp, List.mem_cons_of_mem _ ht⟩)

end Walks

end Inspector.Emission
