import Inspector.Proofs.Agreement
import Inspector.Proofs.Banner

/-! A table without some of its structs. A run looks only at the structs that it emits and at those
they refer to, which it emits too. So a struct that is not emitted can be taken out of the table,
and every file and every edge that is left out stays as it is. -/
namespace Inspector

namespace Emission

variable {g g' : Generator} {t t' : Table} {chain : List String} {ss ss' : List Struct}
  {e e' f f' : Emission} {R : Struct → Struct → Prop}

/-- Two walks keep step with each other if the structs they visit are related, related structs have
the same name, and what lies below them is related again. -/
theorem Walks.alike (hname : ∀ s s', R s s' → s.name = s'.name)
    (hbelow : ∀ s s', R s s' → List.Forall₂ R (t.below s) (t'.below s'))
    (h : Walks g t chain ss e e') (h' : Walks g' t' chain ss' f f')
    (hss : List.Forall₂ R ss ss') (he : Alike e f) : Alike e' f' := by
  induction h generalizing ss' f f' with
  | nil =>
    cases hss
    cases h'
    exact he
  | done s hs rest ih =>
    cases hss with
    | cons hr hss =>
      rw [hname _ _ hr, he.order] at hs
      cases h' with
      | done s' _ rest' => exact ih rest' hss he
      | back p s' hs' _ _ => exact absurd hs hs'
      | fresh s' _ hs' _ _ _ => exact absurd hs hs'
  | back p s hs hc rest ih =>
    cases hss with
    | cons hr hss =>
      rw [hname _ _ hr, he.order] at hs
      rw [hname _ _ hr] at hc ih
      cases h' with
      | done s' hs' _ => exact absurd hs' hs
      | back _ s' _ _ rest' => exact ih rest' hss (he.cut _ _)
      | fresh s' _ _ hc' _ _ => exact absurd hc hc'
  | fresh s e₁ hs hc inner rest ih₁ ih₂ =>
    cases hss with
    | cons hr hss =>
      rw [hname _ _ hr, he.order] at hs
      rw [hname _ _ hr] at hc ih₁ ih₂
      cases h' with
      | done s' hs' _ => exact absurd hs' hs
      | back p s' _ hc' _ => exact absurd hc' hc
      | fresh s' f₁ _ _ inner' rest' =>
        have hinner := ih₁ inner' (hbelow _ _ hr) he
        exact ih₂ rest' hss (hinner.finish _ _ _)

end Emission

namespace Table

def without (t : Table) (names : List String) : Table where
  entries := t.entries.filter fun s => !names.contains s.name
  nodup := t.nodup.sublist (List.filter_sublist.map _)

variable {t : Table} {s : Struct} {dropped : List String} {n : String}

theorem mem_without : s ∈ (t.without dropped).entries ↔ s ∈ t.entries ∧ s.name ∉ dropped := by
  simp [without]

theorem contains_without :
    (t.without dropped).contains n = true ↔ t.contains n = true ∧ n ∉ dropped := by
  rw [Register.contains_iff, Register.contains_iff]
  constructor
  · rintro ⟨s, hs, rfl⟩
    obtain ⟨hs, hn⟩ := mem_without.mp hs
    exact ⟨⟨s, hs, rfl⟩, hn⟩
  · rintro ⟨⟨s, hs, rfl⟩, hn⟩
    exact ⟨s, mem_without.mpr ⟨hs, hn⟩, rfl⟩

theorem get?_without (hn : n ∉ dropped) : (t.without dropped).get? n = t.get? n := by
  simp only [Register.get?, without, List.find?_filter]
  congr 1
  funext s
  by_cases hs : s.name = n
  · simp [hs, hn, Named.name]
  · simp [hs, Named.name]

theorem emitted_of_marked (h : s ∈ t.marked) : s ∈ t.emitted :=
  mem_emitted.mpr ⟨entry_of_marked h, s, h, .refl⟩

theorem emitted_of_below {d : Struct} (hs : s ∈ t.emitted) (hd : d ∈ t.below s) :
    d ∈ t.emitted := by
  obtain ⟨hentry, hdep⟩ := mem_below hd
  exact mem_emitted.mpr ⟨hentry, wanted_of_dependency hs hdep⟩

section Unwanted

variable (h : ∀ n ∈ dropped, ¬ t.Wanted n)

include h

theorem marked_without : (t.without dropped).marked = t.marked := by
  rw [marked, marked, without, List.filter_filter]
  apply List.filter_congr
  intro s hs
  cases hm : s.isMarked with
  | false => rfl
  | true =>
    have hwanted := (mem_emitted.mp (emitted_of_marked (List.mem_filter.mpr ⟨hs, hm⟩))).2
    have hkept : s.name ∉ dropped := fun hn => h _ hn hwanted
    simp [hkept]

/-- An emitted struct sees no difference: the structs it refers to are still there. -/
theorem seenAlike_without (hs : s ∈ t.emitted) :
    ∀ f ∈ s.fields, f.SeenAlike t (t.without dropped) := by
  intro f hf d hd
  rw [Bool.eq_iff_iff, contains_without]
  refine ⟨fun hc => ⟨hc, fun hn => h d hn ?_⟩, And.left⟩
  exact wanted_of_dependency hs ((t.mem_dependencies s d).mpr ⟨hc, f, hf, hd⟩)

theorem below_without (hs : s ∈ t.emitted) : (t.without dropped).below s = t.below s := by
  rw [below, below, ← dependencies_congr rfl (seenAlike_without h hs)]
  apply List.filterMap_congr
  intro d hd
  exact get?_without fun hn => h d hn (wanted_of_dependency hs hd)

theorem run_without (g g' : Generator) :
    Emission.Alike (Emission.run g t) (Emission.run g' (t.without dropped)) := by
  have hwalk := Emission.walks_run g' (t.without dropped)
  rw [marked_without h] at hwalk
  refine (Emission.walks_run g t).alike (R := fun s s' => s = s' ∧ s ∈ t.emitted) ?_ ?_ hwalk ?_
    ⟨rfl, rfl⟩
  · rintro s _ ⟨rfl, _⟩
    rfl
  · rintro s _ ⟨rfl, hs⟩
    rw [below_without h hs]
    exact List.forall₂_same.mpr fun d hd => ⟨rfl, emitted_of_below hs hd⟩
  · exact List.forall₂_same.mpr fun s hs => ⟨rfl, emitted_of_marked hs⟩

theorem emitted_without : (t.without dropped).emitted = t.emitted := by
  rw [emitted, emitted, (run_without h _ _).order]
  apply List.filterMap_congr
  intro n hn
  rw [← (run_without h (fun _ _ => "") _).order, Emission.mem_order_run] at hn
  exact get?_without fun hd => h n hd hn

theorem artifact_without {settings : Settings} {b : Backend} (hb : b ∈ settings.chosen)
    (k : FileKind) (hs : s ∈ t.emitted) : b.artifact k (t.without dropped) s = b.artifact k t s :=
  (Backend.artifact_congr hb k rfl rfl (seenAlike_without h hs)).symm

end Unwanted

end Table

/-- Structs that a run does not emit can be taken out of the table: every backend gives the same
files in the same order and leaves out the same edges. -/
theorem artifacts_without_unemitted (t : Table) (g : Generator) (dropped : List String)
    (h : ∀ n ∈ dropped, n ∉ (Emission.run g t).order) (settings : Settings) :
    generateArtifacts (t.without dropped) settings.chosen =
      generateArtifacts t settings.chosen ∧
    ∀ b : Backend, (b.output (t.without dropped)).backEdges = (b.output t).backEdges := by
  have hdropped : ∀ n ∈ dropped, ¬ t.Wanted n := by
    intro n hn
    rw [← Emission.mem_order_run g t]
    exact h n hn
  refine ⟨?_, fun b => (Table.run_without hdropped b.body b.body).backEdges.symm⟩
  apply List.flatMap_congr
  intro b hb
  rw [Backend.assemble_output, Backend.assemble_output, Table.emitted_without hdropped]
  apply List.flatMap_congr
  intro s hs
  rw [Table.artifact_without hdropped hb .body hs, Table.artifact_without hdropped hb .header hs]

def crowdedRing : Table where
  entries := { name := "Stray", fields := [
        { name := "ring", type := .struct "Ring" },
        { name := "lost", type := .struct "Lost" }] } ::
      ring.entries ++ [{ name := "Lost" }]
  nodup := by decide

theorem artifacts_without_unemitted_ring :
    (∀ n ∈ ["Stray", "Lost"], n ∉ (Emission.run (fun _ _ => "") crowdedRing).order) ∧
    (crowdedRing.without ["Stray", "Lost"]).names = ["Ring", "Node"] ∧
    generateArtifacts (crowdedRing.without ["Stray", "Lost"]) ({} : Settings).chosen =
      generateArtifacts crowdedRing ({} : Settings).chosen ∧
    (Backend.editor.output (crowdedRing.without ["Stray", "Lost"])).backEdges =
      (Backend.editor.output crowdedRing).backEdges := by
  have hdropped : ∀ n ∈ ["Stray", "Lost"],
      n ∉ (Emission.run (fun _ _ => "") crowdedRing).order := by decide
  obtain ⟨hartifacts, hedges⟩ := artifacts_without_unemitted crowdedRing _ _ hdropped {}
  exact ⟨hdropped, by decide, hartifacts, hedges _⟩

end Inspector
