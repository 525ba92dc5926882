import Inspector.Proofs.Linkage

/-! Listings of generated files. In a listing each file stands under a line with its name, and no
line of a generated file looks like such a line. So a listing can be cut into the files again. -/
namespace Inspector

open scoped List
open Inspector.Text (IsLine unlines)

namespace Text

def ended? (s : String) : Option (List String) :=
  if (lines s).getLast? = some "" then some (lines s).dropLast else none

theorem ended?_unlines {ls : List String} (h : ∀ l ∈ ls, IsLine l) :
    ended? (unlines ls) = some ls := by
  simp [ended?, lines_unlines h]

theorem getLast?_unlines {ls : List String} (h : ls ≠ []) :
    (unlines ls).toList.getLast? = some '\n' := by
  obtain ⟨ks, l, rfl⟩ := List.eq_nil_or_concat ls |>.resolve_left h
  simp [unlines_append, unlines]

end Text

namespace Artifact

def opening : String := "/* ===== "

def closing : String := " ===== */"

def titleLine (name : String) : String := opening ++ name ++ closing

/-- Cuts in front of every line that starts as the line above a file does. The lines before the
first cut come first, then each such line with the lines behind it. -/
def cut : List String → List String × List (String × List String)
  | [] => ([], [])
  | l :: ls =>
    if opening.toList <+: l.toList then ([], (l, (cut ls).1) :: (cut ls).2)
    else (l :: (cut ls).1, (cut ls).2)

/-- A file from the line above it and the lines below: the name is the line without its ends, the
contents are the lines without the last line feed. -/
def ofPart? (part : String × List String) : Option Artifact := do
  let rest ← opening.toList.isPrefixOf? part.1.toList
  let name ← closing.toList.isSuffixOf? rest
  return ⟨String.ofList name, String.ofList (unlines part.2).toList.dropLast⟩

def ofListing? (text : String) : Option (List Artifact) := do
  let ls ← Text.ended? text
  match cut ls with
  | ([], parts) => parts.mapM ofPart?
  | (_ :: _, _) => none

theorem cut_append {ks : List String} (h : ∀ l ∈ ks, ¬ opening.toList <+: l.toList)
    (ls : List String) : cut (ks ++ ls) = (ks ++ (cut ls).1, (cut ls).2) := by
  induction ks with
  | nil => rfl
  | cons k ks ih =>
    obtain ⟨hk, hks⟩ := List.forall_mem_cons.mp h
    rw [List.cons_append, cut, if_neg hk, ih hks]
    rfl

theorem cut_titleLine (name : String) (ls : List String) :
    cut (titleLine name :: ls) = ([], (titleLine name, (cut ls).1) :: (cut ls).2) := by
  rw [cut, if_pos]
  simp [titleLine]

theorem ofPart?_titleLine (name : String) (ls : List String) :
    ofPart? (titleLine name, ls ++ [""]) = some ⟨name, unlines ls⟩ := by
  have hrest : opening.toList.isPrefixOf? (titleLine name).toList =
      some (name.toList ++ closing.toList) := by
    rw [List.isPrefixOf?_eq_some_iff_append_eq]
    simp [titleLine]
  have hname : closing.toList.isSuffixOf? (name.toList ++ closing.toList) = some name.toList := by
    rw [List.isSuffixOf?_eq_some_iff_append_eq]
  simp [ofPart?, hrest, hname, Text.unlines_append, unlines]

/-- The name takes one line, and so does every line of the contents; none of these is taken for the
line above a file. -/
structure Listable (a : Artifact) (ls : List String) : Prop where
  name : IsLine a.name
  contents : a.contents = unlines ls
  nonempty : ls ≠ []
  lines : ∀ l ∈ ls, IsLine l
  plain : ∀ l ∈ ls, ¬ opening.toList <+: l.toList

theorem Listable.shown_eq {a : Artifact} {ls : List String} (h : Listable a ls) :
    a.shown = unlines (titleLine a.name :: (ls ++ [""])) := by
  have hlast : a.contents.toList.getLast? = some '\n' := by
    rw [h.contents]
    exact Text.getLast?_unlines h.nonempty
  rw [shown, if_pos hlast, h.contents, unlines, Text.unlines_append]
  simp [titleLine, opening, closing, unlines, ← String.toList_inj]

theorem Listable.ofPart? {a : Artifact} {ls : List String} (h : Listable a ls) :
    ofPart? (titleLine a.name, ls ++ [""]) = some a := by
  rw [ofPart?_titleLine, ← h.contents]

/-- Each file of a listing makes one part of it. -/
theorem cut_listing {as : List Artifact} (h : ∀ a ∈ as, ∃ ls, Listable a ls) :
    ∃ ls parts, listing as = unlines ls ∧ (∀ l ∈ ls, IsLine l) ∧ cut ls = ([], parts) ∧
      parts.mapM ofPart? = some as := by
  induction as with
  | nil => exact ⟨[], [], rfl, by simp, rfl, rfl⟩
  | cons a as ih =>
    obtain ⟨⟨ks, hks⟩, has⟩ := List.forall_mem_cons.mp h
    obtain ⟨ls, parts, hlisting, hlines, hcut, hparts⟩ := ih has
    refine ⟨titleLine a.name :: (ks ++ [""]) ++ ls, (titleLine a.name, ks ++ [""]) :: parts,
      ?_, ?_, ?_, ?_⟩
    · rw [listing, hks.shown_eq, hlisting, Text.unlines_append]
    · have htitle : IsLine (titleLine a.name) :=
        .append (.append (by decide) hks.name) (by decide)
      simp only [List.forall_mem_append, List.forall_mem_cons]
      exact ⟨⟨htitle, hks.lines, by decide, by simp⟩, hlines⟩
    · have hplain : ∀ l ∈ ks ++ [""], ¬ opening.toList <+: l.toList := by
        simp only [List.forall_mem_append, List.forall_mem_singleton]
        exact ⟨hks.plain, by decide⟩
      rw [List.cons_append, cut_titleLine, cut_append hplain, hcut, List.append_nil]
    · simp [hks.ofPart?, hparts]

theorem ofListing?_listing {as : List Artifact} (h : ∀ a ∈ as, ∃ ls, Listable a ls) :
    ofListing? (listing as) = some as := by
  obtain ⟨ls, parts, hlisting, hlines, hcut, hparts⟩ := cut_listing h
  simp [ofListing?, hlisting, Text.ended?_unlines hlines, hcut, hparts]

def Differs (p : String) : Prop := ¬ opening.toList <+: p.toList ∧ ¬ p.toList <+: opening.toList

instance (p : String) : Decidable (Differs p) := inferInstanceAs (Decidable (_ ∧ _))

theorem Differs.append {p : String} (h : Differs p) (rest : String) : Differs (p ++ rest) := by
  have hp : p.toList <+: (p ++ rest).toList := by simp
  refine ⟨?_, ?_⟩
  · intro hopening
    obtain h' | h' := List.prefix_or_prefix_of_prefix hopening hp
    · exact h.1 h'
    · exact h.2 h'
  · intro hrest
    exact h.2 (hp.trans hrest)

theorem Differs.plain {p : String} (h : Differs p) : ¬ opening.toList <+: p.toList := h.1

end Artifact

open Inspector.Artifact (Differs)

namespace Printer

theorem differs_say (text : String) : Differs (say text) :=
  .append (.append (by decide) _) _

theorem differs_guarded (field : String) (ls : List String) :
    ∀ l ∈ guarded field ls, Differs l := by
  have hindented : ∀ l, Differs ("  " ++ l) := Differs.append (by decide)
  unfold guarded
  simp only [List.forall_mem_append, List.forall_mem_map, List.forall_mem_cons]
  exact ⟨⟨⟨.append (.append (by decide) _) _, by simp⟩, fun l _ => hindented l⟩, by decide,
    hindented _, by decide, by simp⟩

theorem differs_primitiveLines (field : String) (indirection : UInt32) (p : Primitive) :
    ∀ l ∈ primitiveLines field indirection p, Differs l := by
  have hvalue : ∀ format value, Differs (sayValue field format value) := fun _ _ =>
    .append (.append (.append (.append (.append (.append (by decide) _) _) _) _) _) _
  unfold primitiveLines
  split
  · exact List.forall_mem_singleton.mpr (differs_say _)
  · dsimp only
    split
    · exact List.forall_mem_singleton.mpr (hvalue _ _)
    · exact differs_guarded _ _

theorem differs_structLines (field : String) (indirection : UInt32) (struct : String) :
    ∀ l ∈ structLines field indirection struct, Differs l := by
  have hcall : ∀ argument, Differs (call struct argument) := fun _ =>
    .append (.append (.append (.append (by decide) _) _) _) _
  unfold structLines
  split
  · rw [List.forall_mem_cons, List.forall_mem_singleton]
    exact ⟨differs_say _, hcall _⟩
  · exact differs_guarded _ _

theorem differs_indentTo (depth : String) : Differs (indentTo depth) :=
  .append (.append (by decide) _) _

theorem differs_fieldLines (t : Table) (f : Field) : ∀ l ∈ fieldLines t f, Differs l := by
  refine List.forall_mem_cons.mpr ⟨differs_indentTo _, ?_⟩
  unfold valueLines
  split
  · exact List.forall_mem_singleton.mpr (differs_say _)
  · cases f.type with
    | primitive p => exact differs_primitiveLines _ _ _
    | struct name =>
      dsimp only
      split
      · exact differs_structLines _ _ _
      · exact List.forall_mem_singleton.mpr (differs_say _)
    | unknown spelling => exact List.forall_mem_singleton.mpr (differs_say _)

theorem differs_prototype (struct : String) : Differs (prototype struct) :=
  .append (.append (.append (.append (by decide) _) _) _) _

/-- The last line of a body is empty, every other one differs from the line above a file. -/
theorem plain_bodyLines (maxDepth : UInt32) (s : Struct) (t : Table) :
    ∀ l ∈ bodyLines maxDepth s t, ¬ Artifact.opening.toList <+: l.toList := by
  unfold bodyLines
  simp only [List.forall_mem_append, List.forall_mem_cons]
  refine ⟨⟨⟨?_, ?_, by decide, (differs_indentTo _).plain, (differs_say _).plain, by simp⟩, ?_⟩,
    (differs_indentTo _).plain, (differs_say _).plain, by decide, by decide, by simp⟩
  · exact ((differs_prototype _).append _).plain
  · exact (Differs.append (.append (by decide) _) _).plain
  · intro l hl
    obtain ⟨f, -, hl⟩ := List.mem_flatMap.mp hl
    exact (differs_fieldLines t f l hl).plain

end Printer

namespace Editor

theorem differs_say (field text : String) : Differs (say field text) :=
  .append (.append (.append (.append (by decide) _) _) _) _

theorem differs_primitiveLine (field : String) (p : Primitive) :
    Differs (primitiveLine field p) := by
  have hinput : ∀ widget arguments, Differs (input widget field arguments) := fun _ _ =>
    .append (.append (.append (.append (.append (.append (by decide) _) _) _) _) _) _
  unfold primitiveLine
  cases control p with
  | label => exact differs_say _ _
  | intBox | scalarBox | floatBox | doubleBox | checkbox | textBox => exact hinput _ _

theorem differs_structLines (field struct : String) :
    ∀ l ∈ structLines field struct, Differs l := by
  unfold structLines
  simp only [List.forall_mem_cons]
  exact ⟨.append (.append (by decide) _) _,
    .append (.append (.append (.append (by decide) _) _) _) _, by decide, by decide, by simp⟩

theorem differs_fieldLines (t : Table) (f : Field) : ∀ l ∈ fieldLines t f, Differs l := by
  unfold fieldLines
  split
  · exact List.forall_mem_singleton.mpr (differs_say _ _)
  · cases f.type with
    | primitive p => exact List.forall_mem_singleton.mpr (differs_primitiveLine _ _)
    | struct name =>
      dsimp only
      split
      · exact differs_structLines _ _
      · exact List.forall_mem_singleton.mpr (differs_say _ _)
    | unknown spelling => exact List.forall_mem_singleton.mpr (differs_say _ _)

theorem differs_prototype (struct : String) : Differs (prototype struct) :=
  .append (.append (.append (.append (by decide) _) _) _) _

theorem plain_bodyLines (s : Struct) (t : Table) :
    ∀ l ∈ bodyLines s t, ¬ Artifact.opening.toList <+: l.toList := by
  unfold bodyLines
  simp only [List.forall_mem_append, List.forall_mem_cons]
  refine ⟨⟨⟨?_, ((differs_prototype _).append _).plain, by simp⟩, ?_⟩, by decide, by simp⟩
  · exact (Differs.append (by decide) _).plain
  · intro l hl
    obtain ⟨f, -, hl⟩ := List.mem_flatMap.mp hl
    exact (differs_fieldLines t f l hl).plain

end Editor

namespace Dialect

def textLines (d : Dialect) : FileKind → Struct → Table → List String
  | .body, s, t => d.bodyLines s t
  | .header, s, _ => [d.prototype s.name ++ ";"]

theorem text_backend (d : Dialect) (k : FileKind) (s : Struct) (t : Table) :
    d.backend.text k s t = unlines (d.textLines k s t) := by
  cases k with
  | body => exact d.body_backend s t
  | header =>
    rw [Backend.text, header_backend]
    simp [textLines, unlines, ← String.toList_inj]

theorem isLine_prototype (d : Dialect) {struct : String} (h : IsLine struct) :
    IsLine (d.prototype struct) := by
  cases d with
  | printer maxDepth =>
    rw [prototype_printer]
    exact Printer.isLine_prototype h
  | editor =>
    have hroutine : IsLine (Editor.routine struct) := .append (.append (by decide) h) (by decide)
    rw [prototype_editor]
    exact .append (.append (.append (.append (by decide) hroutine) (by decide)) h) (by decide)

theorem isLine_textLines (d : Dialect) (k : FileKind) {s : Struct} (h : s.OneLine) (t : Table) :
    ∀ l ∈ d.textLines k s t, IsLine l := by
  cases k with
  | body =>
    cases d with
    | printer maxDepth => exact Printer.isLine_bodyLines maxDepth h t
    | editor => exact Editor.isLine_bodyLines h t
  | header => exact List.forall_mem_singleton.mpr (.append (d.isLine_prototype h.name) (by decide))

theorem plain_textLines (d : Dialect) (k : FileKind) (s : Struct) (t : Table) :
    ∀ l ∈ d.textLines k s t, ¬ Artifact.opening.toList <+: l.toList := by
  cases k with
  | body =>
    cases d with
    | printer maxDepth => exact Printer.plain_bodyLines maxDepth s t
    | editor => exact Editor.plain_bodyLines s t
  | header =>
    have hprototype : Differs (d.prototype s.name) := .append (.append (by decide) _) _
    exact List.forall_mem_singleton.mpr (hprototype.append _).plain

theorem textLines_ne_nil (d : Dialect) (k : FileKind) (s : Struct) (t : Table) :
    d.textLines k s t ≠ [] := by
  cases k with
  | body => cases d <;> exact List.cons_ne_nil _ _
  | header => exact List.cons_ne_nil _ _

theorem isLine_file (d : Dialect) (k : FileKind) {n : String} (h : IsLine n) :
    IsLine (d.backend.file k n) := by
  have hfixed : IsLine d.backend.stem ∧ IsLine d.backend.bodyExtension ∧
      IsLine d.backend.headerExtension := by
    cases d with
    | printer maxDepth => simp [backend, Backend.printer, IsLine]
    | editor => decide
  have hname : ∀ extension, IsLine extension → IsLine (d.backend.fileName n extension) :=
    fun _ he => .append (.append (.append (.append hfixed.1 (by decide)) h) (by decide)) he
  cases k with
  | body => exact hname _ hfixed.2.1
  | header => exact hname _ hfixed.2.2

def bannerLine (d : Dialect) (k : FileKind) (n : String) : String :=
  "// depends on \"" ++ d.backend.file k n ++ "\""

theorem listable_artifact (d : Dialect) (k : FileKind) {t : Table}
    (ht : ∀ s ∈ t.entries, s.OneLine) {s : Struct} (hs : s ∈ t.entries) :
    (d.backend.artifact k t s).Listable
      ((t.dependencies s).map (d.bannerLine k) ++ d.textLines k s t) where
  name := d.isLine_file k (ht s hs).name
  contents := by
    rw [Text.unlines_append, ← text_backend]
    simp only [Backend.artifact, Artifact.banner, List.map_map]
    rfl
  nonempty := by simp [textLines_ne_nil]
  lines := by
    simp only [List.forall_mem_append, List.forall_mem_map]
    refine ⟨?_, d.isLine_textLines k (ht s hs) t⟩
    intro n hn
    obtain ⟨s', hs', rfl⟩ := (t.contains_iff n).mp ((t.mem_dependencies s n).mp hn).1
    exact .append (.append (by decide) (d.isLine_file k (ht s' hs').name)) (by decide)
  plain := by
    have hbanner : ∀ n, Differs (d.bannerLine k n) := fun _ => .append (.append (by decide) _) _
    simp only [List.forall_mem_append, List.forall_mem_map]
    exact ⟨fun n _ => (hbanner n).plain, d.plain_textLines k s t⟩

theorem exists_backend {b : Backend} {settings : Settings} (hb : b ∈ settings.chosen) :
    ∃ d : Dialect, b = d.backend := by
  obtain rfl | rfl := Backend.mem_backends hb
  · exact ⟨.printer settings.maxDepth, rfl⟩
  · exact ⟨.editor, rfl⟩

end Dialect

/-- Where no name and no type spelling has a line feed, the files that a run would write come back
from the listing that it would show, in order, with their names and contents and nothing else. -/
theorem listing_recovers_artifacts {t : Table} (ht : ∀ s ∈ t.entries, s.OneLine)
    (settings : Settings) :
    Artifact.ofListing? (Artifact.listing (generateArtifacts t settings.chosen)) =
      some (generateArtifacts t settings.chosen) := by
  apply Artifact.ofListing?_listing
  intro a ha
  obtain ⟨b, hb, s, hs, k, rfl⟩ := mem_generateArtifacts.mp ha
  obtain ⟨d, rfl⟩ := Dialect.exists_backend hb
  exact ⟨_, d.listable_artifact k ht (Table.mem_emitted.mp hs).1⟩

def titled : Table where
  entries := [{ name := "Page ===== */", options := { generate := true }, fields := [
    { name := "next", type := .struct "Page ===== */", indirection := 1 },
    { name := "text", type := .unknown "/* ===== ", indirection := 2 }] }]
  nodup := by decide

theorem listing_recovers_artifacts_titled : (∀ s ∈ titled.entries, s.OneLine) ∧
    ∃ as, Artifact.ofListing? (Artifact.listing (generateArtifacts titled ({} : Settings).chosen)) =
        some as ∧
      as.map Artifact.name = ["imgui_Page ===== */.cpp", "imgui_Page ===== */.h",
        "print_Page ===== */.c", "print_Page ===== */.h"] := by
  have hlines : ∀ s ∈ titled.entries, s.OneLine :=
    List.forall_mem_singleton.mpr ⟨by decide, by decide, by decide⟩
  exact ⟨hlines, _, listing_recovers_artifacts hlines {}, by decide +kernel⟩

end Inspector
