import Inspector.Proofs.ByteOrder
import Inspector.Proofs.Output

/-! The lines at the head of a generated file, which name the files it depends on. They name files
of the same run only, for whatever a struct refers to is emitted with it. -/
namespace Inspector

open scoped List

/-- No generated text looks like a line of the banner above it. -/
theorem Backend.text_not_banner {settings : Settings} {b : Backend} (hb : b ∈ settings.chosen)
    (k : FileKind) (s : Struct) (t : Table) :
    ¬ "// depends on".toList <+: (b.text k s t).toList := by
  obtain rfl | rfl := mem_backends hb
  · cases k with
    | body => simp [text, printer, Text.unlines, Printer.bodyLines, Printer.prototype]
    | header => simp [text, printer, Text.unlines, Printer.prototype]
  · cases k with
    | body => simp [text, editor, Text.unlines, Editor.bodyLines]
    | header => simp [text, editor, Text.unlines, Editor.prototype]

theorem Table.mem_dependencies_self {t : Table} {s : Struct} (hs : s ∈ t.entries) :
    s.name ∈ t.dependencies s ↔ ∃ f ∈ s.fields, f.type = .struct s.name := by
  rw [mem_dependencies]
  exact and_iff_right ((t.contains_iff s.name).mpr ⟨s, hs, rfl⟩)

/-- Every wanted struct has its files, and there are no others. The file of a struct starts with
one line for each of its dependencies, in increasing order of their octets, and goes on with the
text of the struct. Each line names a file of the same backend and kind that is there as well; the
file names itself exactly if the struct refers to itself. -/
theorem banners_name_generated_files (t : Table) (settings : Settings) :
    (∀ b ∈ settings.chosen, ∀ k n,
      (∃ a ∈ generateArtifacts t settings.chosen, a.name = b.file k n) ↔ t.Wanted n) ∧
    ∀ a ∈ generateArtifacts t settings.chosen,
      (∃ b ∈ settings.chosen, ∃ k, ∃ s ∈ t.entries, a.name = b.file k s.name) ∧
      ∀ b ∈ settings.chosen, ∀ k, ∀ s ∈ t.entries, a.name = b.file k s.name →
        a.contents = Text.unlines ((t.dependencies s).map fun d =>
          "// depends on \"" ++ b.file k d ++ "\"") ++ b.text k s t ∧
        ¬ "// depends on".toList <+: (b.text k s t).toList ∧
        ((t.dependencies s).Pairwise fun d d' => Text.bytes d < Text.bytes d') ∧
        (∀ d ∈ t.dependencies s,
          ∃ a' ∈ generateArtifacts t settings.chosen, a'.name = b.file k d) ∧
        (b.file k s.name ∈ (t.dependencies s).map (b.file k) ↔
          ∃ f ∈ s.fields, f.type = .struct s.name) := by
  refine ⟨fun b hb k n => generated_iff_wanted hb k n, ?_⟩
  intro a ha
  obtain ⟨b', hb', s', hs', k', rfl⟩ := mem_generateArtifacts.mp ha
  have hentry' := (Table.mem_emitted.mp hs').1
  refine ⟨⟨b', hb', k', s', hentry', rfl⟩, ?_⟩
  intro b hb k s hentry hname
  obtain ⟨rfl, rfl, hstruct⟩ := Backend.file_inj hb' hb hname
  obtain rfl := Table.entry_eq_of_name hentry' hentry hstruct
  refine ⟨?_, Backend.text_not_banner hb _ _ t, t.dependencies_increasing _, ?_, ?_⟩
  · simp only [Backend.artifact, Artifact.banner, List.map_map, Function.comp_def]
  · intro d hd
    exact (generated_iff_wanted hb _ d).mpr (Table.wanted_of_dependency hs' hd)
  · rw [← Table.mem_dependencies_self hentry, List.mem_map]
    constructor
    · rintro ⟨d, hd, hfile⟩
      rwa [(Backend.file_inj hb hb hfile).2.2] at hd
    · intro hself
      exact ⟨_, hself, rfl⟩

def ring : Table where
  entries := [
    { name := "Ring", options := { generate := true }, fields := [
        { name := "first", type := .struct "Node", indirection := 1 }] },
    { name := "Node", fields := [
        { name := "next", type := .struct "Node", indirection := 1 },
        { name := "owner", type := .struct "Ring", indirection := 1 }] }]
  nodup := by decide

theorem ring_wants_node : ring.Wanted "Node" :=
  ⟨_, List.mem_cons_self, Relation.ReflTransGen.single ⟨_, rfl, by decide⟩⟩

theorem banners_name_generated_files_ring :
    ∃ a ∈ generateArtifacts ring ({} : Settings).chosen, a.name = "print_Node.h" ∧
      a.contents = "// depends on \"print_Node.h\"\n// depends on \"print_Ring.h\"\n"
        ++ "void print_Node(const Node *data, int rec_depth, int max_depth);\n" := by
  obtain ⟨hfiles, hbanners⟩ := banners_name_generated_files ring {}
  obtain ⟨a, ha, hname⟩ := (hfiles _ Settings.printer_chosen .header "Node").mpr ring_wants_node
  have hnode := (hbanners a ha).2 _ Settings.printer_chosen .header _
    (List.mem_cons_of_mem _ List.mem_cons_self) hname
  exact ⟨a, ha, hname, hnode.1.trans (by decide)⟩

end Inspector
