import Inspector.Proofs.Walk
import Mathlib.Data.List.Chain

/-! The order in which a run finishes structs. The finished structs followed by those in progress,
innermost first, form a timeline: the walk only inserts into it, so whatever it says about two
structs stays true to the end. -/
namespace Inspector

open scoped List
open Relation (ReflTransGen)

def Precedes (l : List String) (a b : String) : Prop := [a, b] <+ l

instance (l : List String) (a b : String) : Decidable (Precedes l a b) :=
  inferInstanceAs (Decidable ([a, b] <+ l))

namespace Precedes

variable {l l' : List String} {a b c : String}

theorem mono (h : Precedes l a b) (hl : l <+ l') : Precedes l' a b := List.Sublist.trans h hl

theorem left_mem (h : Precedes l a b) : a ∈ l := List.Sublist.subset h (by simp)

theorem right_mem (h : Precedes l a b) : b ∈ l := List.Sublist.subset h (by simp)

theorem of_mem_append (ha : a ∈ l) (hb : b ∈ l') : Precedes (l ++ l') a b :=
  List.Sublist.append (List.singleton_sublist.mpr ha) (List.singleton_sublist.mpr hb)

theorem cons_iff {x : String} : Precedes (x :: l) a b ↔ Precedes l a b ∨ a = x ∧ b ∈ l := by
  unfold Precedes
  rw [List.cons_sublist_cons', List.singleton_sublist]

theorem trans (hn : l.Nodup) (hab : Precedes l a b) (hbc : Precedes l b c) : Precedes l a c := by
  induction l with
  | nil => cases hab
  | cons x l ih =>
    obtain ⟨hx, hl⟩ := List.nodup_cons.mp hn
    rw [cons_iff] at hab hbc ⊢
    obtain hab | ⟨rfl, hb⟩ := hab
    · obtain hbc | ⟨rfl, _⟩ := hbc
      · exact Or.inl (ih hl hab hbc)
      · exact absurd hab.right_mem hx
    · obtain hbc | ⟨rfl, _⟩ := hbc
      · exact Or.inr ⟨rfl, hbc.right_mem⟩
      · exact absurd hb hx

theorem irrefl (hn : l.Nodup) : ¬ Precedes l a a := by
  intro h
  have hnodup := List.Nodup.sublist h hn
  simp at hnodup

end Precedes

namespace Emission

/-- The finished structs, then those in progress in the order in which they will be finished. -/
def timeline (e : Emission) (chain : List String) : List String := e.order ++ chain

theorem timeline_nil (e : Emission) : e.timeline [] = e.order := List.append_nil _

theorem timeline_finish (e : Emission) (name text : String) (chain : List String) :
    (e.finish name text).timeline chain = e.timeline (name :: chain) := by
  simp [timeline]

theorem timeline_sublist_begin (e : Emission) (name : String) (chain : List String) :
    e.timeline chain <+ e.timeline (name :: chain) :=
  (List.sublist_cons_self name chain).append_left e.order

def Follows (t : Table) (l : List String) (a b : String) : Prop :=
  t.Depends a b ∧ Precedes l b a

theorem Follows.mono {t : Table} {l l' : List String} {a b : String} (h : Follows t l a b)
    (hl : l <+ l') : Follows t l' a b :=
  ⟨h.1, h.2.mono hl⟩

theorem precedes_of_follows {t : Table} {l : List String} (hn : l.Nodup) {a b : String}
    (h : ReflTransGen (Follows t l) a b) : b = a ∨ Precedes l b a := by
  induction h with
  | refl => exact Or.inl rfl
  | tail _ hbc ih =>
    obtain rfl | ih := ih
    · exact Or.inr hbc.2
    · exact Or.inr (hbc.2.trans hn ih)

theorem not_precedes_of_follows {t : Table} {l : List String} (hn : l.Nodup) {a b : String}
    (h : ReflTransGen (Follows t l) a b) : ¬ Precedes l a b := by
  intro hab
  cases precedes_of_follows hn h with
  | inl he =>
    subst he
    exact Precedes.irrefl hn hab
  | inr hba => exact Precedes.irrefl hn (hab.trans hn hba)

/-- What every state of a walk satisfies. Of a finished struct each dependency comes first or is
left out, and what is left out closes a cycle. -/
structure Coherent (t : Table) (chain : List String) (e : Emission) : Prop where
  nodup : (e.timeline chain).Nodup
  -- Each struct in progress is a dependency of the next outer one.
  stack : chain.IsChain fun b a => t.Depends a b
  settled : ∀ a ∈ e.order, ∀ b, t.Depends a b →
    Precedes (e.timeline chain) b a ∨ ⟨a, b⟩ ∈ e.backEdges
  edges_nodup : e.backEdges.Nodup
  source_mem : ∀ k ∈ e.backEdges, k.source ∈ e.timeline chain
  depends : ∀ k ∈ e.backEdges, t.Depends k.source k.target
  -- The target of an edge that is left out led to its source.
  closes : ∀ k ∈ e.backEdges, ReflTransGen (Follows t (e.timeline chain)) k.target k.source

namespace Coherent

variable {t : Table} {chain : List String} {e : Emission} {p n : String}

theorem empty (t : Table) : Coherent t [] {} where
  nodup := by simp [timeline, order]
  stack := .nil
  settled := by simp [order]
  edges_nodup := List.nodup_nil
  source_mem := by simp
  depends := by simp
  closes := by simp

theorem chain_not_done (h : Coherent t chain e) (hn : n ∈ chain) : n ∉ e.order :=
  fun ho => (List.nodup_append.mp h.nodup).2.2 n ho n hn rfl

theorem begin (h : Coherent t chain e) (ho : n ∉ e.order) (hc : n ∉ chain)
    (hp : ∀ p ∈ chain.head?, t.Depends p n) : Coherent t (n :: chain) e := by
  have hsub := e.timeline_sublist_begin n chain
  refine ⟨?_, h.stack.cons hp, ?_, h.edges_nodup, ?_, h.depends, ?_⟩
  · have hperm : e.timeline (n :: chain) ~ n :: e.timeline chain := List.perm_middle
    have hn : n ∉ e.timeline chain := by simp [timeline, ho, hc]
    exact hperm.nodup_iff.mpr (List.nodup_cons.mpr ⟨hn, h.nodup⟩)
  · intro a ha b hab
    exact (h.settled a ha b hab).imp_left fun hpre => hpre.mono hsub
  · intro k hk
    exact hsub.subset (h.source_mem k hk)
  · intro k hk
    exact ReflTransGen.mono (fun _ _ hf => Follows.mono hf hsub) _ _ (h.closes k hk)

theorem finish (h : Coherent t (n :: chain) e) (text : String)
    (hb : ∀ b, t.Depends n b → b ∈ e.order ∨ ⟨n, b⟩ ∈ e.backEdges) :
    Coherent t chain (e.finish n text) := by
  have htime := e.timeline_finish n text chain
  refine ⟨htime ▸ h.nodup, h.stack.tail, ?_, h.edges_nodup, ?_, h.depends, ?_⟩
  · intro a ha b hab
    rw [htime, backEdges_finish]
    rw [order_finish, List.mem_append, List.mem_singleton] at ha
    obtain ha | rfl := ha
    · exact h.settled a ha b hab
    · cases hb b hab with
      | inl hdone => exact Or.inl (Precedes.of_mem_append hdone List.mem_cons_self)
      | inr hcut => exact Or.inr hcut
  · rw [htime]
    exact h.source_mem
  · rw [htime]
    exact h.closes

/-- From every struct in progress the innermost one was reached along followed dependencies. -/
theorem follows_stack {l : List String} (hs : (p :: chain).IsChain fun b a => t.Depends a b)
    (hl : p :: chain <+ l) (hn : n ∈ p :: chain) : ReflTransGen (Follows t l) n p := by
  induction chain generalizing p with
  | nil => rw [List.mem_singleton.mp hn]
  | cons q chain ih =>
    obtain rfl | hn := List.mem_cons.mp hn
    · exact ReflTransGen.refl
    · obtain ⟨hqp, htail⟩ := List.isChain_cons_cons.mp hs
      have hpre : Precedes (p :: q :: chain) p q :=
        Precedes.cons_iff.mpr (Or.inr ⟨rfl, List.mem_cons_self⟩)
      have hq := ih htail ((List.sublist_cons_self p _).trans hl) hn
      exact hq.tail ⟨hqp, hpre.mono hl⟩

theorem cut (h : Coherent t (p :: chain) e) (hn : n ∈ p :: chain) (hd : t.Depends p n)
    (hnew : ⟨p, n⟩ ∉ e.backEdges) : Coherent t (p :: chain) (e.cut p n) := by
  have hcases : ∀ k ∈ (e.cut p n).backEdges, k ∈ e.backEdges ∨ k = ⟨p, n⟩ := by simp
  have hchain : p :: chain <+ e.timeline (p :: chain) := List.sublist_append_right _ _
  refine ⟨h.nodup, h.stack, ?_, ?_, ?_, ?_, ?_⟩
  · intro a ha b hab
    exact (h.settled a ha b hab).imp_right (List.mem_append_left _)
  · rw [backEdges_cut, List.nodup_append]
    refine ⟨h.edges_nodup, by simp, ?_⟩
    intro k hk k' hk' he
    rw [he, List.mem_singleton.mp hk'] at hk
    exact hnew hk
  · intro k hk
    obtain hk | rfl := hcases k hk
    · exact h.source_mem k hk
    · exact hchain.subset List.mem_cons_self
  · intro k hk
    obtain hk | rfl := hcases k hk
    · exact h.depends k hk
    · exact hd
  · intro k hk
    obtain hk | rfl := hcases k hk
    · exact h.closes k hk
    · exact follows_stack h.stack hchain hn

end Coherent

/-- The structs `ss` can be visited next: they are distinct entries, and each is a dependency of
the innermost struct in progress, along an edge that is not left out so far. -/
structure Pending (t : Table) (chain : List String) (ss : List Struct) (e : Emission) : Prop where
  entries : ∀ s ∈ ss, s ∈ t.entries
  nodup : (ss.map Struct.name).Nodup
  depends : ∀ p ∈ chain.head?, ∀ s ∈ ss, t.Depends p s.name
  unused : ∀ p ∈ chain.head?, ∀ s ∈ ss, ⟨p, s.name⟩ ∉ e.backEdges

namespace Pending

variable {g : Generator} {t : Table} {chain : List String} {s : Struct} {ss : List Struct}
  {e e₁ : Emission} {p : String}

theorem tail (h : Pending t chain (s :: ss) e) : Pending t chain ss e :=
  ⟨fun x hx => h.entries x (List.mem_cons_of_mem s hx), (List.nodup_cons.mp h.nodup).2,
    fun p hp x hx => h.depends p hp x (List.mem_cons_of_mem s hx),
    fun p hp x hx => h.unused p hp x (List.mem_cons_of_mem s hx)⟩

theorem cut (h : Pending t (p :: chain) (s :: ss) e) :
    Pending t (p :: chain) ss (e.cut p s.name) := by
  refine ⟨h.tail.entries, h.tail.nodup, h.tail.depends, ?_⟩
  intro q hq x hx hk
  cases List.mem_append.mp hk with
  | inl hk => exact h.tail.unused q hq x hx hk
  | inr hk =>
    have he : x.name = s.name := congrArg BackEdge.target (List.mem_singleton.mp hk)
    have hdistinct := (List.nodup_cons.mp h.nodup).1
    rw [← he] at hdistinct
    exact hdistinct (List.mem_map_of_mem hx)

theorem below (hc : Coherent t chain e) (hs : s ∈ t.entries) (ho : s.name ∉ e.order)
    (hn : s.name ∉ chain) : Pending t (s.name :: chain) (t.below s) e := by
  refine ⟨fun d hd => (Table.mem_below hd).1, t.nodup_names_below s, ?_, ?_⟩
  · rintro _ ⟨⟩ d hd
    exact (Table.depends_iff hs _).mpr (Table.mem_below hd).2
  · rintro _ ⟨⟩ d hd hk
    cases List.mem_append.mp (hc.source_mem _ hk) with
    | inl hm => exact ho hm
    | inr hm => exact hn hm

/-- A visit that is over left out no edge of the struct around it. -/
theorem finish (h : Pending t chain (s :: ss) e) (hn : s.name ∉ chain)
    (hw : Walks g t (s.name :: chain) (t.below s) e e₁) (hc : Coherent t (s.name :: chain) e₁)
    (text : String) : Pending t chain ss (e₁.finish s.name text) := by
  refine ⟨h.tail.entries, h.tail.nodup, h.tail.depends, ?_⟩
  intro p hp x hx hk
  have hpc : p ∈ chain := List.mem_of_mem_head? hp
  obtain hk | ⟨_, hm⟩ | ⟨hm, _⟩ := hw.new_edge hk
  · exact h.tail.unused p hp x hx hk
  · exact hc.chain_not_done (List.mem_cons_of_mem _ hpc) hm
  · have he : s.name = p := Option.some.inj hm
    rw [he] at hn
    exact hn hpc

end Pending

theorem Walks.coherent {g : Generator} {t : Table} {chain : List String} {ss : List Struct}
    {e e' : Emission} (h : Walks g t chain ss e e') (hc : Coherent t chain e)
    (hp : Pending t chain ss e) : Coherent t chain e' := by
  induction h with
  | nil => exact hc
  | done s _ _ ih => exact ih hc hp.tail
  | back p s _ hmem _ ih =>
    have hd := hp.depends p rfl s List.mem_cons_self
    have hnew := hp.unused p rfl s List.mem_cons_self
    exact ih (hc.cut hmem hd hnew) hp.cut
  | fresh s e₁ ho hn inner rest ih₁ ih₂ =>
    have hs := hp.entries s List.mem_cons_self
    have hb := hc.begin ho hn fun p hm => hp.depends p hm s List.mem_cons_self
    have hc₁ := ih₁ hb (.below hc hs ho hn)
    refine ih₂ (hc₁.finish _ ?_) (hp.finish hn inner hc₁ _)
    intro b hdep
    rw [Table.depends_iff hs, ← Table.names_below] at hdep
    obtain ⟨d, hd, rfl⟩ := List.mem_map.mp hdep
    obtain hdone | ⟨_, ⟨⟩, hcut⟩ := inner.visited d hd
    · exact Or.inl hdone
    · exact Or.inr hcut

theorem coherent_run (g : Generator) (t : Table) : Coherent t [] (run g t) := by
  have hp : Pending t [] t.marked {} :=
    ⟨fun _ => Table.entry_of_marked, t.nodup_names_marked, by simp, by simp⟩
  exact (walks_run g t).coherent (Coherent.empty t) hp

theorem nodup_order_run (g : Generator) (t : Table) : (run g t).order.Nodup := by
  have h := (coherent_run g t).nodup
  rwa [timeline_nil] at h

theorem Coherent.precedes_iff {t : Table} {chain : List String} {e : Emission}
    (h : Coherent t chain e) {a b : String} (ha : a ∈ e.order) (hab : t.Depends a b) :
    Precedes (e.timeline chain) b a ↔ ⟨a, b⟩ ∉ e.backEdges := by
  constructor
  · intro hba hk
    exact not_precedes_of_follows h.nodup (h.closes ⟨a, b⟩ hk) hba
  · intro hk
    exact (h.settled a ha b hab).resolve_right hk

theorem precedes_run_iff (g : Generator) (t : Table) {a b : String} (ha : a ∈ (run g t).order)
    (hab : t.Depends a b) :
    Precedes (run g t).order b a ↔ ⟨a, b⟩ ∉ (run g t).backEdges := by
  have h := (coherent_run g t).precedes_iff ha hab
  rwa [timeline_nil] at h

theorem source_mem_run (g : Generator) (t : Table) {k : BackEdge} (hk : k ∈ (run g t).backEdges) :
    k.source ∈ (run g t).order := by
  have h := (coherent_run g t).source_mem k hk
  rwa [timeline_nil] at h

/-- A run is topological on the dependencies it does not leave out, and it leaves out no other:
the order breaks a dependency exactly when it is among the edges left out. Each of these is a
dependency of an emitted struct and is listed once. -/
theorem run_order_topological (g : Generator) (t : Table) :
    (∀ a ∈ (run g t).order, ∀ b, t.Depends a b →
      (Precedes (run g t).order b a ↔ ⟨a, b⟩ ∉ (run g t).backEdges)) ∧
    (run g t).backEdges.Nodup ∧
    ∀ k ∈ (run g t).backEdges, k.source ∈ (run g t).order ∧ t.Depends k.source k.target := by
  refine ⟨?_, (coherent_run g t).edges_nodup, ?_⟩
  · intro a ha b hab
    exact precedes_run_iff g t ha hab
  · intro k hk
    exact ⟨source_mem_run g t hk, (coherent_run g t).depends k hk⟩

end Emission

end Inspector
