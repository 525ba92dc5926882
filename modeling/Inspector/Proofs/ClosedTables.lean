import Inspector.Proofs.DependencySets
import Inspector.Proofs.Linkage
import Inspector.Proofs.Requests

/-! Tables that come out of a resolver. Every struct type in them is a struct of the table, and what
is unknown in them is neither a struct of the table nor a primitive, whichever requests the resolver
has served or refused. So no reference is left out of the dependencies, and only a field of an
unknown type is said to be unsupported. -/
namespace Inspector

open Inspector.Log (Traced)

/-- A struct type is in the table and an unknown one is not, and neither is spelled like a
primitive. -/
def TypeClass.Settled (t : Table) : TypeClass → Prop
  | primitive _ => True
  | struct T => T ∈ t.names ∧ ∀ p : Primitive, ¬ p.SpelledAs T
  | unknown T => T ∉ t.names ∧ ∀ p : Primitive, ¬ p.SpelledAs T

def Table.Closed (t : Table) : Prop := ∀ s ∈ t.entries, ∀ f ∈ s.fields, f.type.Settled t

theorem TypeClass.settled_of_denotes {t : Table} {typeName : String} {c : TypeClass}
    (h : Denotes t.names typeName c) : c.Settled t := by
  cases h with
  | primitive hp => exact True.intro
  | struct hp hn => exact ⟨hn, hp⟩
  | unknown hp hn => exact ⟨hn, hp⟩

/-- Types are looked up among all declarations at once, and the table has just their names. -/
theorem Resolver.closed_table (r : Resolver) : r.table.Closed := by
  intro s hs f hf
  obtain ⟨d, _, rfl⟩ := List.mem_map.mp hs
  obtain ⟨field, _, rfl⟩ := List.mem_map.mp hf
  have hnames : ∀ n, r.declared.contains n = true ↔ n ∈ r.table.names := by
    intro n
    rw [r.names_table, Register.contains, List.contains_iff_mem]
  exact TypeClass.settled_of_denotes (classify_denotes hnames field.typeName)

/-- No reference is left out of the dependencies. -/
theorem Table.Closed.mem_dependencies_iff {t : Table} (h : t.Closed) {s : Struct}
    (hs : s ∈ t.entries) (d : String) : d ∈ t.dependencies s ↔ s.RefersTo d := by
  rw [Table.mem_dependencies_iff, and_iff_right_iff_imp]
  rintro ⟨f, hf, htype⟩
  have hsettled := h s hs f hf
  rw [htype] at hsettled
  exact hsettled.1

def TypeClass.Foreign (t : Table) : TypeClass → Prop
  | primitive _ => False
  | struct T => t.contains T = false
  | unknown _ => True

theorem TypeClass.Settled.foreign_iff {t : Table} {c : TypeClass} (h : c.Settled t) :
    c.Foreign t ↔ ∃ T, c = .unknown T := by
  cases c with
  | primitive p => simp [Foreign]
  | struct T =>
    have hT : t.contains T = true := List.contains_iff_mem.mpr h.1
    simp [Foreign, hT]
  | unknown T => simp [Foreign]

/-- Texts differ if they start with pieces of which neither goes on as the other. -/
theorem Text.ne_of_starts {p q a b : String} (ha : p.toList <+: a.toList)
    (hb : q.toList <+: b.toList) (h : ¬ p.toList <+: q.toList ∧ ¬ q.toList <+: p.toList) :
    a ≠ b := by
  intro he
  subst he
  obtain hpq | hqp := List.prefix_or_prefix_of_prefix ha hb
  · exact h.1 hpq
  · exact h.2 hqp

namespace Printer

def unsupported (field : String) : String := say (field ++ ": Unsupported type")

variable {field : String}

theorem starts_unsupported (field : String) :
    "  printf".toList <+: (unsupported field).toList := by
  unfold unsupported say
  simp

theorem unsupported_ne_indentTo (depth : String) : unsupported field ≠ indentTo depth := by
  have hfor : "  for".toList <+: (indentTo depth).toList := by
    unfold indentTo
    simp
  exact Text.ne_of_starts (starts_unsupported field) hfor (by decide)

/-- What stands behind a guard is indented further. -/
theorem unsupported_not_mem_guarded {ls : List String} (h : ∀ l ∈ ls, "  ".toList <+: l.toList) :
    unsupported field ∉ guarded field ls := by
  have hother : ∀ {p l : String}, p.toList <+: l.toList →
      ¬ "  printf".toList <+: p.toList ∧ ¬ p.toList <+: "  printf".toList →
      unsupported field ≠ l :=
    Text.ne_of_starts (starts_unsupported field)
  have hif : unsupported field ≠ "  if (data->" ++ field ++ ") \x7b" :=
    hother (p := "  if") (by simp) (by decide)
  have helse : unsupported field ≠ "  \x7d else \x7b" :=
    hother (p := "  \x7d") (by decide) (by decide)
  have hclose : unsupported field ≠ "  \x7d" := hother (p := "  \x7d") (by decide) (by decide)
  have hdeeper : ∀ l : String, "  ".toList <+: l.toList → "  " ++ l ≠ unsupported field := by
    intro l hl
    have hindented : "    ".toList <+: ("  " ++ l).toList := by simpa using hl
    exact (hother hindented (by decide)).symm
  have hnull : unsupported field ≠ "  " ++ say (field ++ ": NULL") := by
    refine (hdeeper _ ?_).symm
    unfold say
    simp
  simp only [guarded, List.mem_append, List.mem_cons, List.mem_map, hif, helse, hclose, hnull,
    List.not_mem_nil, or_false, false_or]
  rintro ⟨l, hl, he⟩
  exact hdeeper l (h l hl) he

theorem unsupported_ne_sayValue {p : Primitive} {format : String}
    (h : conversion? p = some format) (value : String) :
    unsupported field ≠ sayValue field format value := by
  have hformat : "%".toList <+: format.toList := by
    cases p <;> cases h <;> decide
  unfold unsupported say sayValue
  simp only [String.append_assoc, ne_eq, String.append_right_inj]
  refine Text.ne_of_starts (p := ": U") (q := ": %") (by simp) ?_ (by decide)
  simpa using hformat.trans (List.prefix_append _ _)

theorem unsupported_not_mem_primitiveLines (indirection : UInt32) (p : Primitive) :
    unsupported field ∉ primitiveLines field indirection p := by
  unfold primitiveLines
  cases hformat : conversion? p with
  | none =>
    rw [List.mem_singleton]
    unfold unsupported say
    simp
  | some format =>
    dsimp only
    split
    · rw [List.mem_singleton]
      exact unsupported_ne_sayValue hformat _
    · apply unsupported_not_mem_guarded
      rw [List.forall_mem_singleton]
      unfold sayValue
      simp

theorem unsupported_not_mem_structLines (indirection : UInt32) (struct : String) :
    unsupported field ∉ structLines field indirection struct := by
  have hcall : ∀ argument, "  print_".toList <+: (call struct argument).toList := by
    intro argument
    unfold call routine
    simp
  have hsay : unsupported field ≠ say (field ++ ":") := by
    unfold unsupported say
    simp
  unfold structLines
  split
  · rw [List.mem_pair, not_or]
    exact ⟨hsay, Text.ne_of_starts (starts_unsupported field) (hcall _) (by decide)⟩
  · apply unsupported_not_mem_guarded
    rw [List.forall_mem_cons, List.forall_mem_singleton]
    refine ⟨?_, (List.prefix_append _ _).trans (hcall _)⟩
    unfold say
    simp

theorem unsupported_mem_fieldLines (t : Table) (f : Field) :
    unsupported f.name ∈ fieldLines t f ↔ f.type.Foreign t ∧ f.indirection ≤ 1 := by
  rw [fieldLines, List.mem_cons, or_iff_right (unsupported_ne_indentTo _), valueLines]
  split
  · next hdeep =>
    have hne : unsupported f.name ≠ say (f.name ++ ": " ++ Backend.arrayOf f.type.spelling) := by
      unfold unsupported say Backend.arrayOf
      simp only [String.append_assoc, ne_eq, String.append_right_inj]
      exact Text.ne_of_starts (p := ": U") (q := ": A") (by simp) (by simp) (by decide)
    simp [UInt32.not_le.mpr hdeep, hne]
  · next hflat =>
    rw [and_iff_left (UInt32.not_lt.mp hflat)]
    cases f.type with
    | primitive p => simp [TypeClass.Foreign, unsupported_not_mem_primitiveLines]
    | struct T =>
      cases hT : t.contains T with
      | true => simp [TypeClass.Foreign, hT, unsupported_not_mem_structLines]
      | false => simp [TypeClass.Foreign, hT, unsupported]
    | unknown T => simp [TypeClass.Foreign, unsupported]

end Printer

namespace Editor

def unsupported (field : String) : String := say field "Unsupported Type"

variable {field : String}

theorem starts_unsupported (field : String) :
    "    ImGui::Text".toList <+: (unsupported field).toList := by
  unfold unsupported say
  simp

theorem unsupported_ne_say {text : String} (h : text ≠ "Unsupported Type") :
    unsupported field ≠ say field text := by
  unfold unsupported say
  simpa using h.symm

theorem unsupported_ne_input {widget : String} (field arguments : String)
    (h : ¬ "Text".toList <+: widget.toList ∧ ¬ widget.toList <+: "Text".toList) :
    unsupported field ≠ input widget field arguments := by
  have hwidget : ("    ImGui::" ++ widget).toList <+: (input widget field arguments).toList := by
    unfold input
    simp
  refine Text.ne_of_starts (starts_unsupported field) hwidget ?_
  simpa using h

theorem unsupported_ne_primitiveLine (p : Primitive) :
    unsupported field ≠ primitiveLine field p := by
  unfold primitiveLine
  cases hcontrol : control p with
  | intBox => exact unsupported_ne_input field _ (by decide)
  | scalarBox dataType => exact unsupported_ne_input field _ (by decide)
  | floatBox => exact unsupported_ne_input field _ (by decide)
  | doubleBox => exact unsupported_ne_input field _ (by decide)
  | checkbox => exact unsupported_ne_input field _ (by decide)
  | textBox => exact unsupported_ne_input field _ (by decide)
  | label =>
    apply unsupported_ne_say
    cases p <;> decide

theorem unsupported_not_mem_structLines (struct : String) :
    unsupported field ∉ structLines field struct := by
  have hother : ∀ {p l : String}, p.toList <+: l.toList →
      ¬ "    ImGui::Text".toList <+: p.toList ∧ ¬ p.toList <+: "    ImGui::Text".toList →
      unsupported field ≠ l :=
    Text.ne_of_starts (starts_unsupported field)
  have hif : unsupported field ≠ "    if (ImGui::TreeNode(\"" ++ field ++ "\")) \x7b" :=
    hother (p := "    if") (by simp) (by decide)
  have hcall : unsupported field ≠ "        " ++ routine struct ++ "(data." ++ field ++ ");" :=
    hother (p := "        ") (by simp) (by decide)
  have hpop : unsupported field ≠ "        ImGui::TreePop();" :=
    hother (p := "        ") (by decide) (by decide)
  have hclose : unsupported field ≠ "    \x7d" := hother (p := "    \x7d") (by decide) (by decide)
  simp only [structLines, List.mem_cons, hif, hcall, hpop, hclose, List.not_mem_nil, or_false,
    not_false_eq_true]

theorem unsupported_mem_fieldLines (t : Table) (f : Field) :
    unsupported f.name ∈ fieldLines t f ↔ f.type.Foreign t ∧ f.indirection ≤ 0 := by
  rw [fieldLines]
  split
  · next hdeep =>
    have hne : unsupported f.name ≠ say f.name (Backend.arrayOf f.type.spelling) := by
      apply unsupported_ne_say
      unfold Backend.arrayOf
      rw [String.append_assoc]
      exact Text.ne_of_starts (p := "A") (q := "U") (by simp) (by decide) (by decide)
    simp [UInt32.not_le.mpr hdeep, hne]
  · next hflat =>
    rw [and_iff_left (UInt32.not_lt.mp hflat)]
    cases f.type with
    | primitive p => simp [TypeClass.Foreign, unsupported_ne_primitiveLine]
    | struct T =>
      cases hT : t.contains T with
      | true => simp [TypeClass.Foreign, hT, unsupported_not_mem_structLines]
      | false => simp [TypeClass.Foreign, hT, unsupported]
    | unknown T => simp [TypeClass.Foreign, unsupported]

end Editor

namespace Dialect

def fieldLines : Dialect → Table → Field → List String
  | printer _ => Printer.fieldLines
  | editor => Editor.fieldLines

def unsupported : Dialect → String → String
  | printer _ => Printer.unsupported
  | editor => Editor.unsupported

theorem unsupported_mem_fieldLines (d : Dialect) (t : Table) (f : Field) :
    d.unsupported f.name ∈ d.fieldLines t f ↔ f.type.Foreign t ∧ f.indirection ≤ d.reach := by
  cases d with
  | printer maxDepth => exact Printer.unsupported_mem_fieldLines t f
  | editor => exact Editor.unsupported_mem_fieldLines t f

end Dialect

/-- Whichever requests a resolver has served or refused, its table is closed: a struct type is a
struct of the table and no primitive, and an unknown type is neither. So the dependencies of a
struct are all structs it refers to, and a body says that a field is unsupported exactly if the type
of the field is unknown and stands behind no more pointers than the body follows. -/
theorem resolved_table_closed (policy : Policy) (requests : List Request) :
    ∃ t, ((({ policy } : Resolver).serveAll requests).1.resolve : Traced Redeclaration Table).result
        = .ok t ∧
      ∀ s ∈ t.entries,
        (∀ f ∈ s.fields, ∀ T,
          (f.type = .struct T → T ∈ t.names ∧ ∀ p : Primitive, ¬ p.SpelledAs T) ∧
          (f.type = .unknown T → T ∉ t.names ∧ ∀ p : Primitive, ¬ p.SpelledAs T)) ∧
        (∀ d, d ∈ t.dependencies s ↔ s.RefersTo d) ∧
        ∀ f ∈ s.fields, ∀ d : Dialect, d.unsupported f.name ∈ d.fieldLines t f ↔
          (∃ T, f.type = .unknown T) ∧ f.indirection ≤ d.reach := by
  have hclosed := (({ policy } : Resolver).serveAll requests).1.closed_table
  refine ⟨_, rfl, fun s hs => ⟨?_, hclosed.mem_dependencies_iff hs, ?_⟩⟩
  · intro f hf T
    have hsettled := hclosed s hs f hf
    constructor
    · intro htype
      rwa [htype] at hsettled
    · intro htype
      rwa [htype] at hsettled
  · intro f hf d
    rw [d.unsupported_mem_fieldLines, (hclosed s hs f hf).foreign_iff]

def refusedBetween : List Request := [
  .unit { name := "scene.h", structs := [
      { name := "Scene", fields := [
          { name := "eye", typeName := "Camera", indirection := 3 },
          { name := "skin", typeName := "Texture", indirection := 1 },
          { name := "ready", typeName := "_Bool" }] }] },
  .unit { name := "parts.h", structs := [
      { name := "Camera" }, { name := "Scene" }, { name := "Texture" }] }]

def resolvedScene : Struct where
  name := "Scene"
  unit := "scene.h"
  fields := [
    { name := "eye", type := .struct "Camera", indirection := 3 },
    { name := "skin", type := .unknown "Texture", indirection := 1 },
    { name := "ready", type := .primitive .bool }]

theorem resolved_table_closed_refusedBetween :
    ∃ t, ((({ policy := .error } : Resolver).serveAll refusedBetween).1.resolve :
        Traced Redeclaration Table).result = .ok t ∧
      resolvedScene ∈ t.entries ∧ "Camera" ∈ t.dependencies resolvedScene ∧ "Texture" ∉ t.names ∧
      ∃ f ∈ resolvedScene.fields, Printer.unsupported f.name ∈ Printer.fieldLines t f ∧
        Editor.unsupported f.name ∉ Editor.fieldLines t f := by
  obtain ⟨t, ht, hall⟩ := resolved_table_closed .error refusedBetween
  obtain rfl := Except.ok.inj ht
  have hscene : resolvedScene ∈
      (({ policy := .error } : Resolver).serveAll refusedBetween).1.table.entries := by decide
  have hskin : { name := "skin", type := .unknown "Texture", indirection := 1 } ∈
      resolvedScene.fields := by decide
  obtain ⟨htypes, hdeps, hshown⟩ := hall _ hscene
  refine ⟨_, rfl, hscene, (hdeps "Camera").mpr (by decide), ((htypes _ hskin "Texture").2 rfl).1,
    _, hskin, (hshown _ hskin (.printer 2)).mpr ⟨⟨"Texture", rfl⟩, by decide⟩, ?_⟩
  exact fun h => absurd ((hshown _ hskin .editor).mp h).2 (by decide)

end Inspector
