import Inspector.Proofs.Banner
import Inspector.Report

/-! What a report says of code that is yet to be generated. Its walk makes no text, but texts do not
steer a walk: every backend follows the order of the report and leaves out the same edges. -/
namespace Inspector

open scoped List

variable {t : Table} {s : Struct} {b b' : Backend} {settings : Settings}

namespace Report

theorem order_ofTable (t : Table) : (ofTable t).order = t.emitted.map Struct.name :=
  (Table.names_emitted _ t).symm

theorem backEdges_output (b : Backend) (t : Table) :
    (b.output t).backEdges = (ofTable t).backEdges :=
  (Emission.run_alike b.body _ t).backEdges

theorem mem_structs_ofTable {r : StructReport} :
    r ∈ (ofTable t).structs ↔ ∃ s ∈ t.entries, StructReport.ofStruct t s = r :=
  List.mem_map

end Report

def Artifact.isOf (b : Backend) (a : Artifact) : Bool :=
  decide ((b.stem ++ "_").toList <+: a.name.toList)

namespace Backend

theorem file_eq (b : Backend) (k : FileKind) (n : String) :
    ∃ rest : String, b.file k n = b.stem ++ "_" ++ rest := by
  cases k with
  | body =>
    exact ⟨n ++ "." ++ b.bodyExtension, by simp [file, bodyFile, fileName, String.append_assoc]⟩
  | header =>
    exact ⟨n ++ "." ++ b.headerExtension, by simp [file, headerFile, fileName, String.append_assoc]⟩

theorem isOf_own (b : Backend) (k : FileKind) (t : Table) (s : Struct) :
    (b.artifact k t s).isOf b = true := by
  obtain ⟨rest, h⟩ := b.file_eq k s.name
  simp [Artifact.isOf, artifact, h]

theorem isOf_other (hb : b ∈ settings.chosen) (hb' : b' ∈ settings.chosen) (hne : b' ≠ b)
    (k : FileKind) (t : Table) (s : Struct) : (b'.artifact k t s).isOf b = false := by
  obtain ⟨rest, h⟩ := b'.file_eq k s.name
  simp only [Artifact.isOf, artifact, h]
  obtain rfl | rfl := mem_backends hb
  · obtain rfl | rfl := mem_backends hb'
    · exact absurd rfl hne
    · simp [printer, editor]
  · obtain rfl | rfl := mem_backends hb'
    · simp [printer, editor]
    · exact absurd rfl hne

theorem filter_assemble_own (b : Backend) (t : Table) :
    (Artifact.assemble b (b.output t)).filter (·.isOf b) = Artifact.assemble b (b.output t) := by
  rw [assemble_output, List.filter_flatMap]
  apply List.flatMap_congr
  intro s _
  simp [isOf_own]

theorem filter_assemble_other (hb : b ∈ settings.chosen) (hb' : b' ∈ settings.chosen)
    (hne : b' ≠ b) (t : Table) :
    (Artifact.assemble b' (b'.output t)).filter (·.isOf b) = [] := by
  rw [assemble_output, List.filter_flatMap, List.flatMap_eq_nil_iff]
  intro s _
  simp [isOf_other hb hb' hne]

theorem names_assemble (b : Backend) (t : Table) :
    (Artifact.assemble b (b.output t)).map Artifact.name =
      (Report.ofTable t).order.flatMap fun n => [b.bodyFile n, b.headerFile n] := by
  rw [assemble_output, Report.order_ofTable, List.map_flatMap, List.flatMap_map]
  rfl

end Backend

/-- A run with several backends holds the files of each as that backend alone makes them. -/
theorem filter_generateArtifacts (hb : b ∈ settings.chosen) (t : Table) :
    (generateArtifacts t settings.chosen).filter (·.isOf b) =
      Artifact.assemble b (b.output t) := by
  have hown := b.filter_assemble_own t
  have hother := fun {b'} (hb' : b' ∈ settings.chosen) hne =>
    Backend.filter_assemble_other hb hb' hne t
  rw [generateArtifacts, List.filter_flatMap]
  unfold Settings.chosen at hb hother ⊢
  cases hc : settings.backends with
  | printer =>
    rw [hc] at hb
    obtain rfl := List.mem_singleton.mp hb
    simp [BackendChoice.backends, hown]
  | editor =>
    rw [hc] at hb
    obtain rfl := List.mem_singleton.mp hb
    simp [BackendChoice.backends, hown]
  | all =>
    rw [hc] at hb hother
    simp only [BackendChoice.backends, List.flatMap_cons, List.flatMap_nil, List.append_nil]
    obtain rfl | rfl := List.mem_pair.mp hb
    · rw [hown, hother (List.mem_pair.mpr (Or.inr rfl)) (Backend.printer_ne_editor _),
        List.append_nil]
    · rw [hown, hother (List.mem_pair.mpr (Or.inl rfl)) (Backend.printer_ne_editor _).symm,
        List.nil_append]

/-- A report and the output of a backend go by the same walk: bodies, headers and dependencies
stand in the order of the report, the same edges are left out, and each struct has the dependencies
that its report lists. The files of the backend are a body and a header for each name in that
order. -/
theorem report_foretells_output (t : Table) (settings : Settings) : ∀ b ∈ settings.chosen,
    (b.output t).bodies.map Prod.fst = (Report.ofTable t).order ∧
    (b.output t).headers.map Prod.fst = (Report.ofTable t).order ∧
    (b.output t).dependencies.map Prod.fst = (Report.ofTable t).order ∧
    (b.output t).backEdges = (Report.ofTable t).backEdges ∧
    (∀ n ∈ (Report.ofTable t).order, ∃ r ∈ (Report.ofTable t).structs, r.name = n) ∧
    (∀ r ∈ (Report.ofTable t).structs, r.name ∈ (Report.ofTable t).order →
      (b.output t).dependencies.lookup r.name = some r.dependencies) ∧
    ((generateArtifacts t settings.chosen).filter (·.isOf b)).map Artifact.name =
      (Report.ofTable t).order.flatMap fun n => [b.bodyFile n, b.headerFile n] := by
  intro b hb
  rw [Report.order_ofTable]
  refine ⟨?_, ?_, ?_, Report.backEdges_output b t, ?_, ?_, ?_⟩
  · rw [Backend.bodies_output, List.map_map]
    rfl
  · rw [Backend.headers_output, List.map_map]
    rfl
  · rw [Backend.dependencies_output, List.map_map]
    rfl
  · intro n hn
    obtain ⟨s, hs, rfl⟩ := List.mem_map.mp hn
    exact ⟨_, Report.mem_structs_ofTable.mpr ⟨s, (Table.mem_emitted.mp hs).1, rfl⟩, rfl⟩
  · intro r hr hn
    obtain ⟨s, hs, rfl⟩ := Report.mem_structs_ofTable.mp hr
    obtain ⟨s', hs', hname⟩ := List.mem_map.mp hn
    obtain rfl := Table.entry_eq_of_name (Table.mem_emitted.mp hs').1 hs hname
    rw [Backend.dependencies_output]
    exact Table.lookup_name t.dependencies t.nodup_names_emitted hs'
  · rw [filter_generateArtifacts hb, Backend.names_assemble, Report.order_ofTable]

theorem report_foretells_output_ring : Backend.printer 2 ∈ ({} : Settings).chosen ∧
    ((generateArtifacts ring ({} : Settings).chosen).filter (·.isOf (.printer 2))).map
      Artifact.name = ["print_Node.c", "print_Node.h", "print_Ring.c", "print_Ring.h"] ∧
    ((Backend.printer 2).output ring).backEdges = [⟨"Node", "Node"⟩, ⟨"Node", "Ring"⟩] := by
  have h := report_foretells_output ring {} _ Settings.printer_chosen
  obtain ⟨_, _, _, hedges, _, _, hnames⟩ := h
  exact ⟨Settings.printer_chosen, hnames.trans (by decide), hedges.trans (by decide)⟩

end Inspector
