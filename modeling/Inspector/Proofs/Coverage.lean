import Inspector.Proofs.EmissionOrder

/-! Which structs a run emits: the wanted ones and no others, each once and with the text that the
generator gives its entry. Cycles and references to names the table does not have change nothing. -/
namespace Inspector

/-- The names that a marked struct leads to along fields of struct types that the table has, its own
name among them. -/
inductive Table.Reached (t : Table) : String → Prop where
  | marked {s : Struct} (hs : s ∈ t.entries) (h : s.options.generate = true) : Reached t s.name
  | field {s d : Struct} {f : Field} (h : Reached t s.name) (hs : s ∈ t.entries)
      (hf : f ∈ s.fields) (htype : f.type = .struct d.name) (hd : d ∈ t.entries) :
      Reached t d.name

namespace Emission

open Relation (ReflTransGen)

variable {g : Generator} {t : Table} {chain : List String} {ss : List Struct} {e e' : Emission}

/-- A walk finishes only structs that its start leads to. -/
theorem Walks.reached (h : Walks g t chain ss e e') (hss : ∀ s ∈ ss, s ∈ t.entries) {n : String}
    (hn : n ∈ e'.order) : n ∈ e.order ∨ ∃ s ∈ ss, ReflTransGen t.Depends s.name n := by
  induction h with
  | nil => exact Or.inl hn
  | done s _ _ ih =>
    have hrest := ih (List.forall_mem_cons.mp hss).2 hn
    exact hrest.imp_right fun hr => (List.exists_mem_cons_iff _ s _).mpr (Or.inr hr)
  | back _ s _ _ _ ih =>
    have hrest := ih (List.forall_mem_cons.mp hss).2 hn
    exact hrest.imp_right fun hr => (List.exists_mem_cons_iff _ s _).mpr (Or.inr hr)
  | fresh s e₁ _ _ _ _ ih₁ ih₂ =>
    obtain ⟨hs, htail⟩ := List.forall_mem_cons.mp hss
    cases ih₂ htail hn with
    | inr hr => exact Or.inr ((List.exists_mem_cons_iff _ s _).mpr (Or.inr hr))
    | inl hm =>
      rw [order_finish, List.mem_append, List.mem_singleton] at hm
      cases hm with
      | inr he =>
        subst he
        exact Or.inr ⟨s, List.mem_cons_self, ReflTransGen.refl⟩
      | inl hm =>
        refine (ih₁ (fun d hd => (Table.mem_below hd).1) hm).imp_right ?_
        rintro ⟨d, hd, hr⟩
        have hsd := (Table.depends_iff hs d.name).mpr (Table.mem_below hd).2
        exact ⟨s, List.mem_cons_self, ReflTransGen.head hsd hr⟩

theorem Walks.fragment (h : Walks g t chain ss e e') (hss : ∀ s ∈ ss, s ∈ t.entries)
    {x : String × String} (hx : x ∈ e'.fragments) :
    x ∈ e.fragments ∨ ∃ s, t.get? x.1 = some s ∧ x.2 = g s t := by
  induction h with
  | nil => exact Or.inl hx
  | done _ _ _ ih => exact ih (List.forall_mem_cons.mp hss).2 hx
  | back _ _ _ _ _ ih => exact ih (List.forall_mem_cons.mp hss).2 hx
  | fresh s e₁ _ _ _ _ ih₁ ih₂ =>
    obtain ⟨hs, htail⟩ := List.forall_mem_cons.mp hss
    cases ih₂ htail hx with
    | inr hg => exact Or.inr hg
    | inl hm =>
      cases List.mem_append.mp hm with
      | inl hm => exact ih₁ (fun d hd => (Table.mem_below hd).1) hm
      | inr hm =>
        rw [List.mem_singleton] at hm
        subst hm
        exact Or.inr ⟨s, Table.get?_entry hs, rfl⟩

theorem Coherent.closed (h : Coherent t chain e) {a b : String} (ha : a ∈ e.order)
    (hab : t.Depends a b) : b ∈ e.timeline chain := by
  cases h.settled a ha b hab with
  | inl hpre => exact hpre.left_mem
  | inr hk =>
    cases precedes_of_follows h.nodup (h.closes ⟨a, b⟩ hk) with
    | inl he =>
      change a = b at he
      rw [← he]
      exact h.source_mem ⟨a, b⟩ hk
    | inr hpre => exact hpre.right_mem

theorem mem_order_run (g : Generator) (t : Table) (n : String) :
    n ∈ (run g t).order ↔ t.Wanted n := by
  have hw := walks_run g t
  constructor
  · intro hn
    have hr := hw.reached (fun _ => Table.entry_of_marked) hn
    exact hr.resolve_left (List.not_mem_nil)
  · rintro ⟨s, hs, hr⟩
    induction hr with
    | refl =>
      cases hw.visited s hs with
      | inl hdone => exact hdone
      | inr hcut =>
        obtain ⟨_, hp, _⟩ := hcut
        cases hp
    | tail _ hbc ih =>
      have hc := (coherent_run g t).closed ih hbc
      rwa [timeline_nil] at hc

theorem fragment_run {x : String × String} (hx : x ∈ (run g t).fragments) :
    ∃ s, t.get? x.1 = some s ∧ x.2 = g s t :=
  ((walks_run g t).fragment (fun _ => Table.entry_of_marked) hx).resolve_left List.not_mem_nil

theorem wanted_of_reached {n : String} (h : t.Reached n) : t.Wanted n := by
  induction h with
  | @marked s hs hmark => exact ⟨s, List.mem_filter.mpr ⟨hs, hmark⟩, ReflTransGen.refl⟩
  | @field s d f _ hs hf htype hd ih =>
    obtain ⟨r, hr, hpath⟩ := ih
    have hknown : t.contains d.name = true := (t.contains_iff d.name).mpr ⟨d, hd, rfl⟩
    have hdep := (t.mem_dependencies s d.name).mpr ⟨hknown, f, hf, htype⟩
    exact ⟨r, hr, hpath.tail ((Table.depends_iff hs d.name).mpr hdep)⟩

theorem reached_of_wanted {n : String} (h : t.Wanted n) : t.Reached n := by
  obtain ⟨r, hr, hpath⟩ := h
  obtain ⟨hentry, hmark⟩ := List.mem_filter.mp hr
  induction hpath with
  | refl => exact .marked hentry hmark
  | tail _ hab ih =>
    obtain ⟨s, hs, hdep⟩ := hab
    obtain ⟨hentry, rfl⟩ := Table.entry_of_get? hs
    obtain ⟨hknown, f, hf, htype⟩ := (t.mem_dependencies s _).mp hdep
    obtain ⟨d, hd, rfl⟩ := (t.contains_iff _).mp hknown
    exact ih.field hentry hf htype hd

/-- The names of the fragments are those that a marked struct reaches along its fields, none of them
twice. A name stands with a text exactly when it is reached and the generator gives the text for its
entry. -/
theorem run_emits_reached (g : Generator) (t : Table) :
    (∀ n, n ∈ (run g t).fragments.map Prod.fst ↔ t.Reached n) ∧
    ((run g t).fragments.map Prod.fst).Nodup ∧
    ∀ n text, (n, text) ∈ (run g t).fragments ↔
      t.Reached n ∧ ∃ s ∈ t.entries, s.name = n ∧ text = g s t := by
  refine ⟨?_, nodup_order_run g t, ?_⟩
  · intro n
    exact (mem_order_run g t n).trans ⟨reached_of_wanted, wanted_of_reached⟩
  · intro n text
    constructor
    · intro h
      have hn : n ∈ (run g t).order := List.mem_map_of_mem h
      obtain ⟨s, hs, htext⟩ := fragment_run h
      obtain ⟨hentry, hname⟩ := Table.entry_of_get? hs
      exact ⟨reached_of_wanted ((mem_order_run g t n).mp hn), s, hentry, hname, htext⟩
    · rintro ⟨hn, s, hs, rfl, rfl⟩
      have hdone := (mem_order_run g t _).mpr (wanted_of_reached hn)
      obtain ⟨⟨m, text⟩, hm, rfl⟩ := List.mem_map.mp hdone
      obtain ⟨s', hs', rfl⟩ := fragment_run hm
      obtain ⟨hentry, hname⟩ := Table.entry_of_get? hs'
      obtain rfl := Table.entry_eq_of_name hentry hs hname
      exact hm

end Emission

end Inspector
