import Inspector.Proofs.Agreement

/-! One more mark. A struct that is marked as well becomes a root of the walk, and if it stands in
front of other roots, every cycle may be entered at another struct and cut at another edge. No file
shows this: all files stay, and there are new ones only if the struct was not emitted before. -/
namespace Inspector

open scoped List

def Struct.asMarked (s : Struct) : Struct :=
  { s with options := { s.options with generate := true } }

namespace Table

def mark (t : Table) (n : String) : Table :=
  t.map (fun s => if s.name = n then s.asMarked else s) fun s => by
    split
    · rfl
    · rfl

variable {t : Table} {s : Struct} {n : String}

theorem mem_mark : s ∈ (t.mark n).entries ↔
    ∃ s' ∈ t.entries, (if s'.name = n then s'.asMarked else s') = s :=
  List.mem_map

theorem sameFields_mark (t : Table) (n : String) : SameFields t (t.mark n) where
  forth s hs := by
    refine ⟨_, mem_mark.mpr ⟨s, hs, rfl⟩, ?_⟩
    split
    · exact ⟨rfl, rfl⟩
    · exact ⟨rfl, rfl⟩
  back s' hs' := by
    obtain ⟨s, hs, rfl⟩ := mem_mark.mp hs'
    refine ⟨s, hs, ?_⟩
    split
    · exact ⟨rfl, rfl⟩
    · exact ⟨rfl, rfl⟩

/-- A mark takes no other away. -/
theorem wanted_mark_of_marked (n : String) : ∀ m ∈ t.marked, (t.mark n).Wanted m.name := by
  intro m hm
  obtain ⟨hmem, hmark⟩ := List.mem_filter.mp hm
  by_cases hn : m.name = n
  · have hentry : m.asMarked ∈ (t.mark n).entries := mem_mark.mpr ⟨m, hmem, if_pos hn⟩
    exact wanted_of_marked (s := m.asMarked) (List.mem_filter.mpr ⟨hentry, rfl⟩)
  · have hentry : m ∈ (t.mark n).entries := mem_mark.mpr ⟨m, hmem, if_neg hn⟩
    exact wanted_of_marked (List.mem_filter.mpr ⟨hentry, hmark⟩)

/-- The only new root is `n`. -/
theorem marked_or_eq_of_mark {m : Struct} (hm : m ∈ (t.mark n).marked) :
    m ∈ t.marked ∨ m.name = n := by
  obtain ⟨hentry, hmark⟩ := List.mem_filter.mp hm
  obtain ⟨s, hs, rfl⟩ := mem_mark.mp hentry
  by_cases hn : s.name = n
  · rw [if_pos hn]
    exact Or.inr hn
  · rw [if_neg hn] at hmark ⊢
    exact Or.inl (List.mem_filter.mpr ⟨hs, hmark⟩)

end Table

/-- Every file of a table is a file of the table with one more mark. A mark on a struct that is
emitted anyway leaves the same files, in some order. -/
theorem artifacts_of_marking (t : Table) (n : String) (settings : Settings) :
    (∀ a ∈ generateArtifacts t settings.chosen,
      a ∈ generateArtifacts (t.mark n) settings.chosen) ∧
    ∀ g, n ∈ (Emission.run g t).order →
      generateArtifacts t settings.chosen ~ generateArtifacts (t.mark n) settings.chosen := by
  have hfields := t.sameFields_mark n
  have hroots := t.wanted_mark_of_marked n
  constructor
  · intro a ha
    exact hfields.mem_generateArtifacts_of hroots ha
  · intro g hn
    rw [Emission.mem_order_run] at hn
    refine hfields.generateArtifacts_perm hroots ?_ settings
    intro m hm
    obtain hold | rfl := Table.marked_or_eq_of_mark hm
    · exact Table.wanted_of_marked hold
    · exact hn

def couple : Table where
  entries := [
    { name := "Left", fields := [{ name := "other", type := .struct "Right", indirection := 1 }] },
    { name := "Right", options := { generate := true }, fields := [
        { name := "other", type := .struct "Left", indirection := 1 }] }]
  nodup := by decide

/-- With the new mark the walk starts at the other end of the cycle and cuts the other edge. -/
theorem artifacts_of_marking_couple :
    Emission.run (fun _ _ => "") couple =
      ⟨[("Left", ""), ("Right", "")], [⟨"Left", "Right"⟩]⟩ ∧
    Emission.run (fun _ _ => "") (couple.mark "Left") =
      ⟨[("Right", ""), ("Left", "")], [⟨"Right", "Left"⟩]⟩ ∧
    generateArtifacts couple ({} : Settings).chosen ~
      generateArtifacts (couple.mark "Left") ({} : Settings).chosen := by
  refine ⟨by decide, by decide, ?_⟩
  exact (artifacts_of_marking couple "Left" {}).2 (fun _ _ => "") (by decide)

end Inspector
