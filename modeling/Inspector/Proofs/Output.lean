import Inspector.Proofs.Coverage
import Inspector.Settings
import Mathlib.Data.List.Nodup

/-! What a backend makes of a table. The texts have no say in the course of a walk, so bodies,
headers and dependencies are lists over the same structs in the same order, and the files of a run
are two for each of these structs. -/
namespace Inspector

open Relation (ReflTransGen)

namespace Emission

structure Alike (e e' : Emission) : Prop where
  order : e.order = e'.order
  backEdges : e.backEdges = e'.backEdges

theorem Alike.finish {e e' : Emission} (h : Alike e e') (name text text' : String) :
    Alike (e.finish name text) (e'.finish name text') :=
  ⟨by simp [h.order], h.backEdges⟩

theorem Alike.cut {e e' : Emission} (h : Alike e e') (a b : String) :
    Alike (e.cut a b) (e'.cut a b) :=
  ⟨h.order, by simp [h.backEdges]⟩

theorem visit_alike (g h : Generator) (t : Table) (depth : Nat) (chain : List String) (s : Struct)
    {e e' : Emission} (he : Alike e e') :
    Alike (visit g t depth chain s e) (visit h t depth chain s e') := by
  induction depth generalizing chain s e e' with
  | zero => exact he
  | succ depth ih =>
    have hsame : e'.isDone s.name = e.isDone s.name := by simp [isDone, he.order]
    cases hd : e.isDone s.name with
    | true =>
      rw [visit_done g t _ chain s hd, visit_done h t _ chain s (hsame.trans hd)]
      exact he
    | false =>
      by_cases hc : s.name ∈ chain
      · rw [visit_inProgress g t depth hd hc, visit_inProgress h t depth (hsame.trans hd) hc]
        exact he.cut _ _
      · rw [visit_fresh g t depth hd hc, visit_fresh h t depth (hsame.trans hd) hc]
        apply Alike.finish
        exact List.foldl_rel he fun d _ _ _ hcc => ih (s.name :: chain) d hcc

theorem run_alike (g h : Generator) (t : Table) : Alike (run g t) (run h t) :=
  List.foldl_rel ⟨rfl, rfl⟩ fun s _ _ _ he => visit_alike g h t (t.size + 1) [] s he

end Emission

namespace Table

def emitted (t : Table) : List Struct := (Emission.run (fun _ _ => "") t).order.filterMap t.get?

variable {t : Table} {s : Struct}

theorem get?_of_emitted (g : Generator) {n : String} (h : n ∈ (Emission.run g t).order) :
    ∃ s, t.get? n = some s := by
  obtain ⟨x, hx, rfl⟩ := List.mem_map.mp h
  obtain ⟨s, hs, _⟩ := Emission.fragment_run hx
  exact ⟨s, hs⟩

theorem emitted_eq (g : Generator) (t : Table) :
    t.emitted = (Emission.run g t).order.filterMap t.get? := by
  rw [emitted, (Emission.run_alike _ g t).order]

theorem names_emitted (g : Generator) (t : Table) :
    t.emitted.map Struct.name = (Emission.run g t).order := by
  rw [emitted_eq g]
  exact names_lookups fun _ hn => get?_of_emitted g hn

theorem nodup_names_emitted (t : Table) : (t.emitted.map Struct.name).Nodup := by
  rw [names_emitted fun _ _ => ""]
  exact Emission.nodup_order_run _ t

theorem mem_emitted : s ∈ t.emitted ↔ s ∈ t.entries ∧ t.Wanted s.name := by
  rw [emitted, List.mem_filterMap]
  constructor
  · rintro ⟨n, hn, hs⟩
    obtain ⟨hmem, rfl⟩ := entry_of_get? hs
    exact ⟨hmem, (Emission.mem_order_run _ t _).mp hn⟩
  · rintro ⟨hmem, hw⟩
    exact ⟨s.name, (Emission.mem_order_run _ t _).mpr hw, get?_entry hmem⟩

theorem wanted_iff_emitted {n : String} : t.Wanted n ↔ ∃ s ∈ t.emitted, s.name = n := by
  rw [← Emission.mem_order_run (fun _ _ => ""), ← names_emitted, List.mem_map]

/-- What a wanted struct depends on is wanted too. -/
theorem wanted_of_dependency {d : String} (hs : s ∈ t.emitted) (hd : d ∈ t.dependencies s) :
    t.Wanted d := by
  obtain ⟨hmem, m, hm, hr⟩ := mem_emitted.mp hs
  exact ⟨m, hm, hr.tail ((depends_iff hmem d).mpr hd)⟩

theorem fragments_run (g : Generator) (t : Table) :
    (Emission.run g t).fragments = t.emitted.map fun s => (s.name, g s t) := by
  have h : ∀ xs : List (String × String), (∀ x ∈ xs, ∃ s, t.get? x.1 = some s ∧ x.2 = g s t) →
      xs = ((xs.map Prod.fst).filterMap t.get?).map fun s => (s.name, g s t) := by
    intro xs hxs
    induction xs with
    | nil => rfl
    | cons x xs ih =>
      obtain ⟨s, hs, hx⟩ := hxs x List.mem_cons_self
      rw [List.map_cons, List.filterMap_cons_some hs, List.map_cons,
        ← ih fun y hy => hxs y (List.mem_cons_of_mem x hy), (entry_of_get? hs).2, ← hx]
  rw [emitted_eq g]
  exact h _ fun _ => Emission.fragment_run

theorem lookup_name {α : Type} (f : Struct → α) {ss : List Struct}
    (hn : (ss.map Struct.name).Nodup) (hs : s ∈ ss) :
    (ss.map fun s => (s.name, f s)).lookup s.name = some (f s) := by
  induction ss with
  | nil => cases hs
  | cons x xs ih =>
    obtain ⟨hx, hxs⟩ := List.nodup_cons.mp hn
    rw [List.map_cons]
    obtain rfl | hs := List.mem_cons.mp hs
    · exact List.lookup_cons_self
    · have hne : s.name ≠ x.name := fun he => hx (he ▸ List.mem_map_of_mem hs)
      rw [List.lookup_cons, beq_false_of_ne hne]
      exact ih hxs hs

end Table

namespace Backend

variable (b : Backend) (t : Table)

theorem bodies_output : (b.output t).bodies = t.emitted.map fun s => (s.name, b.body s t) :=
  Table.fragments_run b.body t

theorem headers_output : (b.output t).headers = t.emitted.map fun s => (s.name, b.header s t) :=
  Table.fragments_run b.header t

theorem dependencies_output :
    (b.output t).dependencies = t.emitted.map fun s => (s.name, t.dependencies s) := by
  rw [Table.emitted_eq b.body]
  rfl

end Backend

inductive FileKind where
  | body | header
  deriving DecidableEq, Inhabited, Repr

theorem FileKind.mem_both {α : Type} (f : FileKind → α) (x : α) :
    x ∈ [f .body, f .header] ↔ ∃ k, x = f k := by
  rw [List.mem_pair]
  constructor
  · rintro (h | h)
    · exact ⟨.body, h⟩
    · exact ⟨.header, h⟩
  · rintro ⟨k, h⟩
    cases k with
    | body => exact Or.inl h
    | header => exact Or.inr h

namespace Backend

def file (b : Backend) : FileKind → String → String
  | .body => b.bodyFile
  | .header => b.headerFile

def files (b : Backend) (n : String) : List String := [b.file .body n, b.file .header n]

theorem mem_files {b : Backend} {n x : String} : x ∈ b.files n ↔ ∃ k, x = b.file k n :=
  FileKind.mem_both (b.file · n) x

def text (b : Backend) : FileKind → Generator
  | .body => b.body
  | .header => b.header

def artifact (b : Backend) (k : FileKind) (t : Table) (s : Struct) : Artifact :=
  ⟨b.file k s.name, Artifact.banner ((t.dependencies s).map (b.file k)) ++ b.text k s t⟩

theorem assemble_output (b : Backend) (t : Table) : Artifact.assemble b (b.output t) =
    t.emitted.flatMap fun s => [b.artifact .body t s, b.artifact .header t s] := by
  rw [Artifact.assemble, bodies_output, List.flatMap_map]
  apply List.flatMap_congr
  intro s hs
  simp only [Artifact.ofStruct, dependencies_output, headers_output,
    Table.lookup_name _ t.nodup_names_emitted hs]
  rfl

variable {b b' : Backend} {choice : BackendChoice} {maxDepth : UInt32}

theorem mem_backends (h : b ∈ choice.backends maxDepth) : b = .printer maxDepth ∨ b = .editor := by
  cases choice with
  | printer => exact Or.inl (List.mem_singleton.mp h)
  | editor => exact Or.inr (List.mem_singleton.mp h)
  | all => exact (List.mem_pair.mp h).symm

theorem printer_ne_editor (maxDepth : UInt32) : printer maxDepth ≠ editor := by
  intro h
  have hid := congrArg Backend.id h
  simp [printer, editor] at hid

theorem fileName_inj {n n' extension : String}
    (h : b.fileName n extension = b.fileName n' extension) : n = n' := by
  simpa only [fileName, String.append_left_inj, String.append_right_inj] using h

theorem printer_file_ne_editor_file (k k' : FileKind) (n n' : String) :
    (printer maxDepth).file k n ≠ editor.file k' n' := by
  intro h
  have hfirst := congrArg (fun s => s.toList.head?) h
  cases k <;> cases k' <;> simp [file, bodyFile, headerFile, fileName, printer, editor] at hfirst

theorem bodyFile_ne_headerFile (hb : b ∈ choice.backends maxDepth) (n n' : String) :
    b.bodyFile n ≠ b.headerFile n' := by
  intro h
  have hlast := congrArg (fun s => s.toList.getLast?) h
  obtain rfl | rfl := mem_backends hb
  · simp [bodyFile, headerFile, fileName, printer, List.getLast?_cons] at hlast
  · simp [bodyFile, headerFile, fileName, editor, List.getLast?_cons] at hlast

/-- The name of a file tells which backend made it, of which kind it is and for which struct. -/
theorem file_inj (hb : b ∈ choice.backends maxDepth) (hb' : b' ∈ choice.backends maxDepth)
    {k k' : FileKind} {n n' : String} (h : b.file k n = b'.file k' n') :
    b = b' ∧ k = k' ∧ n = n' := by
  have hbb : b = b' := by
    obtain rfl | rfl := mem_backends hb
    · obtain rfl | rfl := mem_backends hb'
      · rfl
      · exact absurd h (printer_file_ne_editor_file k k' n n')
    · obtain rfl | rfl := mem_backends hb'
      · exact absurd h.symm (printer_file_ne_editor_file k' k n' n)
      · rfl
  subst hbb
  cases k with
  | body =>
    cases k' with
    | body => exact ⟨rfl, rfl, fileName_inj h⟩
    | header => exact absurd h (bodyFile_ne_headerFile hb n n')
  | header =>
    cases k' with
    | body => exact absurd h.symm (bodyFile_ne_headerFile hb n' n)
    | header => exact ⟨rfl, rfl, fileName_inj h⟩

end Backend

def Settings.chosen (s : Settings) : List Backend := s.backends.backends s.maxDepth

theorem Settings.printer_chosen : Backend.printer 2 ∈ ({} : Settings).chosen :=
  List.mem_cons_of_mem _ List.mem_cons_self

theorem Settings.nodup_chosen (s : Settings) : s.chosen.Nodup := by
  unfold chosen
  cases s.backends with
  | printer => exact List.nodup_singleton _
  | editor => exact List.nodup_singleton _
  | all => simp [BackendChoice.backends, (Backend.printer_ne_editor s.maxDepth).symm]

theorem mem_generateArtifacts {t : Table} {backends : List Backend} {a : Artifact} :
    a ∈ generateArtifacts t backends ↔
      ∃ b ∈ backends, ∃ s ∈ t.emitted, ∃ k, a = b.artifact k t s := by
  have hkind := fun (b : Backend) (s : Struct) => FileKind.mem_both (b.artifact · t s) a
  simp only [generateArtifacts, Backend.assemble_output, List.mem_flatMap, hkind]

/-- The files of a run have different names. -/
theorem nodup_names_generateArtifacts (t : Table) (settings : Settings) :
    ((generateArtifacts t settings.chosen).map Artifact.name).Nodup := by
  have hnames : (generateArtifacts t settings.chosen).map Artifact.name =
      settings.chosen.flatMap fun b => (t.emitted.map Struct.name).flatMap b.files := by
    simp only [generateArtifacts, Backend.assemble_output, List.map_flatMap, List.flatMap_map]
    rfl
  rw [hnames, List.nodup_flatMap]
  constructor
  · intro b hb
    rw [List.nodup_flatMap]
    constructor
    · intro n _
      exact List.nodup_cons.mpr ⟨by simpa [Backend.file] using Backend.bodyFile_ne_headerFile hb n n,
        List.nodup_singleton _⟩
    · refine t.nodup_names_emitted.imp fun {n n'} hne => ?_
      intro x hx hx'
      obtain ⟨k, rfl⟩ := Backend.mem_files.mp hx
      obtain ⟨k', hk'⟩ := Backend.mem_files.mp hx'
      exact hne (Backend.file_inj hb hb hk').2.2
  · refine settings.nodup_chosen.imp_of_mem fun {b b'} hb hb' hne => ?_
    intro x hx hx'
    obtain ⟨n, _, hx⟩ := List.mem_flatMap.mp hx
    obtain ⟨n', _, hx'⟩ := List.mem_flatMap.mp hx'
    obtain ⟨k, rfl⟩ := Backend.mem_files.mp hx
    obtain ⟨k', hk'⟩ := Backend.mem_files.mp hx'
    exact hne (Backend.file_inj hb hb' hk').1

theorem generated_iff_wanted {t : Table} {settings : Settings} {b : Backend}
    (hb : b ∈ settings.chosen) (k : FileKind) (n : String) :
    (∃ a ∈ generateArtifacts t settings.chosen, a.name = b.file k n) ↔ t.Wanted n := by
  rw [Table.wanted_iff_emitted]
  constructor
  · rintro ⟨a, ha, hname⟩
    obtain ⟨b', hb', s, hs, k', rfl⟩ := mem_generateArtifacts.mp ha
    exact ⟨s, hs, (Backend.file_inj hb' hb hname).2.2⟩
  · rintro ⟨s, hs, rfl⟩
    exact ⟨b.artifact k t s, mem_generateArtifacts.mpr ⟨b, hb, s, hs, k, rfl⟩, rfl⟩

end Inspector
