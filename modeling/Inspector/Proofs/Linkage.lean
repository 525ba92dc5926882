import Inspector.Proofs.BodyLines
import Inspector.Proofs.Calls
import Inspector.Proofs.Output
import Mathlib.Data.List.Nodup

/-! Whatever a generated body calls is declared and defined by the same run. -/
namespace Inspector

open Inspector.Text (AnyOpens Opens)

def TypeClass.Lexical : TypeClass → Prop
  | primitive _ => True
  | struct name => isIdentifier name = true
  | unknown spelling => Text.IsLine spelling

instance : DecidablePred TypeClass.Lexical
  | .primitive _ => inferInstanceAs (Decidable True)
  | .struct name => inferInstanceAs (Decidable (isIdentifier name = true))
  | .unknown spelling => inferInstanceAs (Decidable (Text.IsLine spelling))

def Table.Lexical (t : Table) : Prop :=
  ∀ s ∈ t.entries, isIdentifier s.name = true ∧
    ∀ f ∈ s.fields, isIdentifier f.name = true ∧ f.type.Lexical

instance (t : Table) : Decidable t.Lexical := inferInstanceAs (Decidable (∀ s ∈ t.entries, _))

theorem TypeClass.Lexical.isLine {c : TypeClass} (h : c.Lexical) : Text.IsLine c.spelling := by
  cases c with
  | primitive p => exact p.isLine_spelling
  | struct name => exact isLine_of_isIdentifier h
  | unknown spelling => exact h

theorem Table.Lexical.oneLine {t : Table} (h : t.Lexical) {s : Struct} (hs : s ∈ t.entries) :
    s.OneLine where
  name := isLine_of_isIdentifier (h s hs).1
  fields f hf := isLine_of_isIdentifier ((h s hs).2 f hf).1
  types f hf := ((h s hs).2 f hf).2.isLine

theorem Table.Lexical.targets {t : Table} (h : t.Lexical) {s : Struct} (hs : s ∈ t.entries) :
    ∀ f ∈ s.fields, ∀ n, f.type = .struct n → isIdentifier n = true := by
  intro f hf n hn
  have htype := ((h s hs).2 f hf).2
  rwa [hn] at htype

def Text.firstCode? (text : String) : Option String :=
  (lines text).find? fun l => ¬ Opens "//" l

inductive Dialect where
  | printer (maxDepth : UInt32)
  | editor
  deriving DecidableEq, Inhabited, Repr

namespace Dialect

def backend : Dialect → Backend
  | printer maxDepth => .printer maxDepth
  | editor => .editor

def callee : Dialect → String → String
  | printer _ => Printer.callee
  | editor => Editor.callee

def reach : Dialect → UInt32
  | printer _ => 1
  | editor => 0

def parameters : Dialect → String → String
  | printer _, struct => "const " ++ struct ++ " *data, int rec_depth, int max_depth)"
  | editor, struct => struct ++ "& data)"

def prototype (d : Dialect) (struct : String) : String :=
  "void " ++ d.callee struct ++ d.parameters struct

theorem prototype_printer (maxDepth : UInt32) (struct : String) :
    (printer maxDepth).prototype struct = Printer.prototype struct := by
  simp [prototype, callee, parameters, Printer.callee, Printer.prototype, Printer.routine,
    ← String.toList_inj]

theorem prototype_editor (struct : String) :
    editor.prototype struct = Editor.prototype struct := by
  simp [prototype, callee, parameters, Editor.callee, Editor.prototype, Editor.routine,
    ← String.toList_inj]

variable {t : Table} {s : Struct}

theorem header_backend (d : Dialect) (s : Struct) (t : Table) :
    d.backend.header s t = d.prototype s.name ++ ";\n" := by
  cases d with
  | printer maxDepth =>
    rw [prototype_printer]
    simp [backend, Backend.printer, Text.unlines, ← String.toList_inj]
  | editor =>
    rw [prototype_editor]
    simp [backend, Backend.editor, Text.unlines, ← String.toList_inj]

def bodyLines : Dialect → Struct → Table → List String
  | printer maxDepth => Printer.bodyLines maxDepth
  | editor => Editor.bodyLines

theorem body_backend (d : Dialect) (s : Struct) (t : Table) :
    d.backend.body s t = Text.unlines (d.bodyLines s t) := by
  cases d with
  | printer maxDepth => rfl
  | editor => rfl

theorem lines_body (d : Dialect) (hs : s.OneLine) (t : Table) :
    Text.lines (d.backend.body s t) = d.bodyLines s t ++ [""] := by
  cases d with
  | printer maxDepth => exact Text.lines_unlines (Printer.isLine_bodyLines maxDepth hs t)
  | editor => exact Text.lines_unlines (Editor.isLine_bodyLines hs t)

theorem firstCode?_body (d : Dialect) (hs : s.OneLine) (t : Table) :
    Text.firstCode? (d.backend.body s t) = some (d.prototype s.name ++ " \x7b") := by
  have hcode : ∀ rest, ¬ Opens "//" ("void " ++ rest) := Text.not_opens_append (by decide)
  have hprototype : ¬ Opens "//" (d.prototype s.name ++ " \x7b") := by
    simp only [prototype, String.append_assoc]
    exact hcode _
  rw [Text.firstCode?, lines_body d hs]
  cases d with
  | printer maxDepth =>
    rw [prototype_printer] at hprototype ⊢
    simp [bodyLines, Printer.bodyLines, hprototype]
  | editor =>
    have hcomment : Opens "//" ("// ImGui form for " ++ s.name) := by
      have hslash : '/'.isWhitespace = false := by decide
      simp [Opens, hslash]
    rw [prototype_editor] at hprototype ⊢
    simp [bodyLines, Editor.bodyLines, hcomment, hprototype]

theorem anyOpens_body (d : Dialect) (ht : t.Lexical) (hs : s ∈ t.entries) {T : String}
    (hT : isIdentifier T = true) :
    AnyOpens (d.callee T) (Text.lines (d.backend.body s t)) ↔
      ∃ f ∈ s.fields, f.Reaches t d.reach T := by
  rw [lines_body d (ht.oneLine hs)]
  cases d with
  | printer maxDepth =>
    have hend : ¬ Opens (Printer.callee T) "" := Printer.not_opens_callee (by decide)
    have hcalls := Printer.anyOpens_bodyLines hT maxDepth t (ht.targets hs)
    simpa [bodyLines, callee, reach, hend] using hcalls
  | editor =>
    have hend : ¬ Opens (Editor.callee T) "" := Editor.not_opens_callee (by decide)
    have hcalls := Editor.anyOpens_bodyLines hT t (ht.targets hs)
    simpa [bodyLines, callee, reach, hend] using hcalls

end Dialect

theorem Field.Reaches.mem_dependencies {t : Table} {s : Struct} {f : Field} {limit : UInt32}
    {target : String} (hf : f ∈ s.fields) (h : f.Reaches t limit target) :
    target ∈ t.dependencies s :=
  (t.mem_dependencies s target).mpr ⟨h.2.1, f, hf, h.1⟩

theorem Backend.mem_bodies_output {b : Backend} {t : Table} {s : Struct} (hs : s ∈ t.entries)
    {body : String} :
    (s.name, body) ∈ (b.output t).bodies ↔ s ∈ t.emitted ∧ body = b.body s t := by
  rw [bodies_output, List.mem_map]
  constructor
  · rintro ⟨s', hs', heq⟩
    obtain ⟨hname, rfl⟩ := Prod.mk.inj heq
    obtain rfl := Table.entry_eq_of_name (Table.mem_emitted.mp hs').1 hs hname
    exact ⟨hs', rfl⟩
  · rintro ⟨hs', rfl⟩
    exact ⟨s, hs', rfl⟩

/-- The names of structs and fields being identifiers, the body of a struct has a call of the
routine for `T` exactly if it expands a field of that type; and then `T` is among the dependencies
of the struct, and the run declares and defines the routine once, with one prototype. -/
theorem calls_are_linked (d : Dialect) {t : Table} (ht : t.Lexical) {s : Struct}
    (hs : s ∈ t.entries) {body : String} (hbody : (s.name, body) ∈ (d.backend.output t).bodies)
    {T : String} (hT : isIdentifier T = true) :
    ((∃ l ∈ Text.lines body, Opens (d.callee T) l) ↔ ∃ f ∈ s.fields, f.Reaches t d.reach T) ∧
    ((∃ f ∈ s.fields, f.Reaches t d.reach T) →
      (∃ ds, (d.backend.output t).dependencies.lookup s.name = some ds ∧ T ∈ ds) ∧
      ((d.backend.output t).bodies.map Prod.fst).count T = 1 ∧
      ((d.backend.output t).headers.map Prod.fst).count T = 1 ∧
      (T, d.prototype T ++ ";\n") ∈ (d.backend.output t).headers ∧
      ∃ bodyT, (T, bodyT) ∈ (d.backend.output t).bodies ∧
        Text.firstCode? bodyT = some (d.prototype T ++ " \x7b")) := by
  obtain ⟨hemitted, rfl⟩ := (Backend.mem_bodies_output hs).mp hbody
  refine ⟨d.anyOpens_body ht hs hT, ?_⟩
  rintro ⟨f, hf, hreach⟩
  have hdep := hreach.mem_dependencies hf
  obtain ⟨s', hs', rfl⟩ := Table.wanted_iff_emitted.mp (Table.wanted_of_dependency hemitted hdep)
  have hentry := (Table.mem_emitted.mp hs').1
  have hone : (t.emitted.map Struct.name).count s'.name = 1 :=
    List.count_eq_one_of_mem t.nodup_names_emitted (List.mem_map_of_mem hs')
  refine ⟨⟨t.dependencies s, ?_, hdep⟩, ?_, ?_, ?_, d.backend.body s' t, ?_, ?_⟩
  · rw [Backend.dependencies_output]
    exact Table.lookup_name _ t.nodup_names_emitted hemitted
  · rw [Backend.bodies_output, List.map_map]
    exact hone
  · rw [Backend.headers_output, List.map_map]
    exact hone
  · rw [Backend.headers_output, ← d.header_backend s' t]
    exact List.mem_map_of_mem hs'
  · exact (Backend.mem_bodies_output hentry).mpr ⟨hs', rfl⟩
  · exact d.firstCode?_body (ht.oneLine hentry) t

def styledLine : Table where
  entries := [
    { name := "Line", options := { generate := true }, fields := [
        { name := "from", type := .struct "Point" },
        { name := "style", type := .struct "Style", indirection := 1 }] },
    { name := "Point", fields := [{ name := "x", type := .primitive .int }] },
    { name := "Style", fields := [{ name := "brush", type := .unknown "Brush<int>" }] }]
  nodup := by decide

theorem calls_are_linked_styledLine : styledLine.Lexical ∧
    (∃ body, ("Line", body) ∈ ((Backend.printer 2).output styledLine).bodies ∧
      (∃ l ∈ Text.lines body, Opens "print_Style(" l) ∧
      ("Style", "void print_Style(const Style *data, int rec_depth, int max_depth);\n") ∈
        ((Backend.printer 2).output styledLine).headers) ∧
    ∃ body, ("Line", body) ∈ (Backend.editor.output styledLine).bodies ∧
      (∃ l ∈ Text.lines body, Opens "ShowPointEditor(" l) ∧
      ¬ ∃ l ∈ Text.lines body, Opens "ShowStyleEditor(" l := by
  have hnames : styledLine.Lexical := by decide
  have hmarked : _ ∈ styledLine.marked := List.mem_cons_self
  have hline := Table.entry_of_marked hmarked
  have hbody : ∀ b : Backend, ("Line", b.body _ styledLine) ∈ (b.output styledLine).bodies :=
    fun _ => (Backend.mem_bodies_output hline).mpr
      ⟨Table.mem_emitted.mpr ⟨hline, _, hmarked, .refl⟩, rfl⟩
  have hprinter := @calls_are_linked (.printer 2) _ hnames _ hline _ (hbody _) "Style" (by decide)
  have hpoint := @calls_are_linked .editor _ hnames _ hline _ (hbody _) "Point" (by decide)
  have hstyle := @calls_are_linked .editor _ hnames _ hline _ (hbody _) "Style" (by decide)
  refine ⟨hnames, ⟨_, hbody _, hprinter.1.mpr (by decide), ?_⟩,
    _, hbody _, hpoint.1.mpr (by decide), mt hstyle.1.mp (by decide)⟩
  obtain ⟨_, _, _, hheader, _⟩ := hprinter.2 (by decide)
  exact hheader

end Inspector
