import Inspector.Proofs.Cycles

/-! Structs that hold others by value. An embedded struct is finished before the one around it
unless their edge is left out, and that takes a cycle through a pointer. -/
namespace Inspector

open Relation (ReflTransGen TransGen)

theorem acyclic_of_rank {r : String → String → Prop} (rank : String → Nat)
    (h : ∀ a b, r a b → rank b < rank a) : Acyclic r := by
  have hlt : ∀ a b, TransGen r a b → rank b < rank a := by
    intro a b hab
    induction hab with
    | single hab => exact h _ _ hab
    | tail _ hbc ih => exact Nat.lt_trans (h _ _ hbc) ih
  intro n hn
  exact Nat.lt_irrefl _ (hlt n n hn)

theorem path_within_or_leaves {r : String → String → Prop} (q : String → String → Prop)
    {a b : String} (h : ReflTransGen r a b) : ReflTransGen q a b ∨
      ∃ c d, ReflTransGen r a c ∧ r c d ∧ ¬ q c d ∧ ReflTransGen r d b := by
  induction h with
  | refl => exact Or.inl ReflTransGen.refl
  | @tail b c hab hbc ih =>
    cases ih with
    | inr hleaves =>
      obtain ⟨x, y, hax, hxy, hq, hyb⟩ := hleaves
      exact Or.inr ⟨x, y, hax, hxy, hq, hyb.tail hbc⟩
    | inl hwithin =>
      by_cases hq : q b c
      · exact Or.inl (hwithin.tail hq)
      · exact Or.inr ⟨b, c, hab, hbc, hq, ReflTransGen.refl⟩

namespace Table

def Embeds (t : Table) (a b : String) : Prop :=
  t.contains b = true ∧ ∃ s, t.get? a = some s ∧
    ∃ f ∈ s.fields, f.type = .struct b ∧ f.indirection = 0

theorem Embeds.depends {t : Table} {a b : String} (h : t.Embeds a b) : t.Depends a b := by
  obtain ⟨hb, s, hs, f, hf, hty, _⟩ := h
  exact ⟨s, hs, (t.mem_dependencies s b).mpr ⟨hb, f, hf, hty⟩⟩

def LeadsByPointer (t : Table) (a b : String) : Prop :=
  ∃ c d, ReflTransGen t.Depends a c ∧ t.Depends c d ∧ ¬ t.Embeds c d ∧ ReflTransGen t.Depends d b

end Table

namespace Emission

variable {g : Generator} {t : Table} {a b : String}

theorem leadsByPointer_of_cut (hv : Acyclic t.Embeds) (hab : t.Embeds a b)
    (hk : ⟨a, b⟩ ∈ (run g t).backEdges) : t.LeadsByPointer b a := by
  have hpath : ReflTransGen t.Depends b a :=
    ReflTransGen.mono (fun _ _ h => h.2.2.1) _ _ (kept_path_of_cut hk)
  cases path_within_or_leaves t.Embeds hpath with
  | inl hwithin => exact absurd (TransGen.head' hab hwithin) (hv a)
  | inr hleaves => exact hleaves

/-- An embedded struct comes before the one that embeds it unless their edge is left out. That
happens only when the embedded struct leads back to the other through a pointer. -/
theorem run_embedded_first (g : Generator) (t : Table) (hv : Acyclic t.Embeds) (a b : String)
    (ha : a ∈ (run g t).order) (hab : t.Embeds a b) :
    (Precedes (run g t).order b a ↔ ⟨a, b⟩ ∉ (run g t).backEdges) ∧
    (⟨a, b⟩ ∈ (run g t).backEdges → t.LeadsByPointer b a) := by
  constructor
  · exact precedes_run_iff g t ha hab.depends
  · intro hk
    exact leadsByPointer_of_cut hv hab hk

def scene : Table where
  entries := [
    { name := "Body", options := { generate := true }, fields := [
        { name := "shape", type := .struct "Shape" },
        { name := "home", type := .struct "World", indirection := 1 }] },
    { name := "World", fields := [{ name := "body", type := .struct "Body" }] },
    { name := "Shape", fields := [{ name := "size", type := .primitive .int }] }]
  nodup := by decide

theorem scene_embeds {a b : String} (h : scene.Embeds a b) :
    a = "Body" ∧ b = "Shape" ∨ a = "World" ∧ b = "Body" := by
  obtain ⟨_, s, hs, f, hf, hty, hdirect⟩ := h
  obtain ⟨hmem, rfl⟩ := Table.entry_of_get? hs
  simp only [scene, List.mem_cons, List.not_mem_nil, or_false] at hmem
  obtain rfl | rfl | rfl := hmem
  · simp only [List.mem_cons, List.not_mem_nil, or_false] at hf
    obtain rfl | rfl := hf
    · cases hty
      exact Or.inl ⟨rfl, rfl⟩
    · simp at hdirect
  · rw [List.mem_singleton] at hf
    subst hf
    cases hty
    exact Or.inr ⟨rfl, rfl⟩
  · rw [List.mem_singleton] at hf
    subst hf
    cases hty

theorem scene_embeds_acyclic : Acyclic scene.Embeds := by
  apply acyclic_of_rank fun n => if n = "World" then 2 else if n = "Body" then 1 else 0
  intro a b h
  obtain ⟨rfl, rfl⟩ | ⟨rfl, rfl⟩ := scene_embeds h
  · decide
  · decide

theorem run_embedded_first_scene : Acyclic scene.Embeds ∧
    Precedes (run (fun s _ => s.name) scene).order "Shape" "Body" ∧
    scene.LeadsByPointer "Body" "World" := by
  have hbody : scene.Embeds "Body" "Shape" := ⟨by decide, _, rfl, _, List.mem_cons_self, rfl, rfl⟩
  have hworld : scene.Embeds "World" "Body" := ⟨by decide, _, rfl, _, List.mem_cons_self, rfl, rfl⟩
  refine ⟨scene_embeds_acyclic, ?_, ?_⟩
  · exact (run_embedded_first _ scene scene_embeds_acyclic "Body" "Shape" (by decide)
      hbody).1.mpr (by decide)
  · exact (run_embedded_first (fun s _ => s.name) scene scene_embeds_acyclic "World" "Body"
      (by decide) hworld).2 (by decide)

/-- The order does not respect every embedding: the world is finished before its body. -/
theorem embedded_not_always_first : ¬ ∀ (g : Generator) (t : Table), Acyclic t.Embeds →
    ∀ a b, a ∈ (run g t).order → t.Embeds a b → Precedes (run g t).order b a := by
  intro h
  have hworld : scene.Embeds "World" "Body" := ⟨by decide, _, rfl, _, List.mem_cons_self, rfl, rfl⟩
  have hpre := h (fun s _ => s.name) scene scene_embeds_acyclic "World" "Body" (by decide) hworld
  revert hpre
  decide

end Emission

end Inspector
