import Inspector.Backend.Editor
import Inspector.Backend.Printer
import Inspector.Proofs.Lines

/-! The lines of generated bodies. Where no name and no type spelling has a line feed, the lines
that a backend writes are the lines of the text. -/
namespace Inspector

open Inspector.Text (IsLine)

structure Struct.OneLine (s : Struct) : Prop where
  name : IsLine s.name
  fields : ∀ f ∈ s.fields, IsLine f.name
  types : ∀ f ∈ s.fields, IsLine f.type.spelling

theorem isLine_arrayOf {spelling : String} (h : IsLine spelling) :
    IsLine (Backend.arrayOf spelling) :=
  .append (.append (by decide) h) (by decide)

namespace Printer

variable {field text : String}

theorem isLine_indentTo (h : IsLine text) : IsLine (indentTo text) :=
  .append (.append (by decide) h) (by decide)

theorem isLine_say (h : IsLine text) : IsLine (say text) :=
  .append (.append (by decide) h) (by decide)

theorem isLine_prototype {struct : String} (h : IsLine struct) : IsLine (prototype struct) :=
  .append (.append (.append (.append (by decide) (.append (by decide) h)) (by decide)) h)
    (by decide)

theorem isLine_guarded (hf : IsLine field) {ls : List String} (h : ∀ l ∈ ls, IsLine l) :
    ∀ l ∈ guarded field ls, IsLine l := by
  unfold guarded
  simp only [List.forall_mem_append, List.forall_mem_map, List.forall_mem_cons]
  refine ⟨⟨⟨.append (.append (by decide) hf) (by decide), by simp⟩, ?_⟩, by decide, ?_, by decide⟩
  · intro l hl
    exact .append (by decide) (h l hl)
  · exact .append (by decide) (isLine_say (.append hf (by decide)))

theorem isLine_sayValue (hf : IsLine field) {format value : String} (hformat : IsLine format)
    (hvalue : IsLine value) : IsLine (sayValue field format value) :=
  .append (.append (.append (.append (.append (.append (by decide) hf) (by decide)) hformat)
    (by decide)) hvalue) (by decide)

theorem isLine_conversion {p : Primitive} {format : String} (h : conversion? p = some format) :
    IsLine format := by
  cases p <;> cases h <;> decide

theorem isLine_primitiveLines (hf : IsLine field) (indirection : UInt32) (p : Primitive) :
    ∀ l ∈ primitiveLines field indirection p, IsLine l := by
  unfold primitiveLines
  split
  · exact List.forall_mem_singleton.mpr (isLine_say (.append hf (by decide)))
  · next format hformat =>
    have hline := isLine_conversion hformat
    have hcast : IsLine (if p = .bool then "(int)" else "") := by split <;> decide
    dsimp only
    split
    · rw [List.forall_mem_singleton]
      exact isLine_sayValue hf hline (.append (.append hcast (by decide)) hf)
    · apply isLine_guarded hf
      rw [List.forall_mem_singleton]
      exact isLine_sayValue hf hline (.append (.append hcast (by decide)) hf)

theorem isLine_call {struct argument : String} (hs : IsLine struct) (ha : IsLine argument) :
    IsLine (call struct argument) :=
  .append (.append (.append (.append (by decide) (.append (by decide) hs)) (by decide)) ha)
    (by decide)

theorem isLine_structLines (hf : IsLine field) (indirection : UInt32) {struct : String}
    (hs : IsLine struct) : ∀ l ∈ structLines field indirection struct, IsLine l := by
  have hsay := isLine_say (.append hf (by decide : IsLine ":"))
  unfold structLines
  split
  · rw [List.forall_mem_cons, List.forall_mem_singleton]
    exact ⟨hsay, isLine_call hs (.append (by decide) hf)⟩
  · apply isLine_guarded hf
    rw [List.forall_mem_cons, List.forall_mem_singleton]
    exact ⟨hsay, isLine_call hs (.append (by decide) hf)⟩

theorem isLine_fieldLines (t : Table) {f : Field} (hf : IsLine f.name)
    (ht : IsLine f.type.spelling) : ∀ l ∈ fieldLines t f, IsLine l := by
  have hunsupported : IsLine (say (f.name ++ ": Unsupported type")) :=
    isLine_say (.append hf (by decide))
  refine List.forall_mem_cons.mpr ⟨isLine_indentTo (by decide), ?_⟩
  unfold valueLines
  split
  · rw [List.forall_mem_singleton]
    exact isLine_say (.append (.append hf (by decide)) (isLine_arrayOf ht))
  · cases htype : f.type with
    | primitive p => exact isLine_primitiveLines hf f.indirection p
    | struct name =>
      rw [htype] at ht
      dsimp only
      split
      · exact isLine_structLines hf f.indirection ht
      · exact List.forall_mem_singleton.mpr hunsupported
    | unknown spelling => exact List.forall_mem_singleton.mpr hunsupported

theorem isLine_bodyLines (maxDepth : UInt32) {s : Struct} (h : s.OneLine) (t : Table) :
    ∀ l ∈ bodyLines maxDepth s t, IsLine l := by
  have hindent : IsLine (indentTo "rec_depth") := isLine_indentTo (by decide)
  unfold bodyLines
  simp only [List.forall_mem_append, List.forall_mem_cons]
  refine ⟨⟨⟨?_, ?_, by decide, hindent, ?_, by simp⟩, ?_⟩,
    hindent, by decide, by decide, by decide, by simp⟩
  · exact .append (isLine_prototype h.name) (by decide)
  · exact .append (.append (by decide) (Text.isLine_toString _)) (by decide)
  · exact isLine_say (.append h.name (by decide))
  · intro l hl
    obtain ⟨f, hf, hl⟩ := List.mem_flatMap.mp hl
    exact isLine_fieldLines t (h.fields f hf) (h.types f hf) l hl

end Printer

namespace Editor

variable {field text : String}

theorem isLine_say (hf : IsLine field) (h : IsLine text) : IsLine (say field text) :=
  .append (.append (.append (.append (by decide) hf) (by decide)) h) (by decide)

theorem isLine_input {widget arguments : String} (hw : IsLine widget) (hf : IsLine field)
    (ha : IsLine arguments) : IsLine (input widget field arguments) :=
  .append (.append (.append (.append (.append (.append (by decide) hw) (by decide)) hf)
    (by decide)) ha) (by decide)

theorem isLine_dataType {p : Primitive} {dataType : String} (h : control p = .scalarBox dataType) :
    IsLine dataType := by
  cases p <;> cases h <;> decide

theorem isLine_primitiveLine (hf : IsLine field) (p : Primitive) :
    IsLine (primitiveLine field p) := by
  have haddress : IsLine ("&data." ++ field) := .append (by decide) hf
  unfold primitiveLine
  cases hcontrol : control p with
  | intBox => exact isLine_input (by decide) hf haddress
  | scalarBox dataType =>
    have htype := isLine_dataType hcontrol
    exact isLine_input (by decide) hf (.append (.append htype (by decide)) hf)
  | floatBox => exact isLine_input (by decide) hf haddress
  | doubleBox => exact isLine_input (by decide) hf haddress
  | checkbox => exact isLine_input (by decide) hf haddress
  | textBox =>
    have hvalue : IsLine ("data." ++ field) := .append (by decide) hf
    have hsize : IsLine ("data." ++ field ++ ", sizeof(data." ++ field) :=
      .append (.append hvalue (by decide)) hf
    exact isLine_input (by decide) hf (.append hsize (by decide))
  | label => exact isLine_say hf p.isLine_spelling

theorem isLine_structLines (hf : IsLine field) {struct : String} (hs : IsLine struct) :
    ∀ l ∈ structLines field struct, IsLine l := by
  have hroutine : IsLine (routine struct) := .append (.append (by decide) hs) (by decide)
  unfold structLines
  simp only [List.forall_mem_cons]
  refine ⟨?_, ?_, by decide, by decide, by simp⟩
  · exact .append (.append (by decide) hf) (by decide)
  · exact .append (.append (.append (.append (by decide) hroutine) (by decide)) hf) (by decide)

theorem isLine_fieldLines (t : Table) {f : Field} (hf : IsLine f.name)
    (ht : IsLine f.type.spelling) : ∀ l ∈ fieldLines t f, IsLine l := by
  have hunsupported : IsLine (say f.name "Unsupported Type") := isLine_say hf (by decide)
  unfold fieldLines
  split
  · exact List.forall_mem_singleton.mpr (isLine_say hf (isLine_arrayOf ht))
  · cases htype : f.type with
    | primitive p => exact List.forall_mem_singleton.mpr (isLine_primitiveLine hf p)
    | struct name =>
      rw [htype] at ht
      dsimp only
      split
      · exact isLine_structLines hf ht
      · exact List.forall_mem_singleton.mpr hunsupported
    | unknown spelling => exact List.forall_mem_singleton.mpr hunsupported

theorem isLine_bodyLines {s : Struct} (h : s.OneLine) (t : Table) :
    ∀ l ∈ bodyLines s t, IsLine l := by
  have hroutine : IsLine (routine s.name) := .append (.append (by decide) h.name) (by decide)
  unfold bodyLines
  simp only [List.forall_mem_append, List.forall_mem_cons]
  refine ⟨⟨⟨.append (by decide) h.name, ?_, by simp⟩, ?_⟩, by decide, by simp⟩
  · exact .append (.append (.append (.append (.append (by decide) hroutine) (by decide)) h.name)
      (by decide)) (by decide)
  · intro l hl
    obtain ⟨f, hf, hl⟩ := List.mem_flatMap.mp hl
    exact isLine_fieldLines t (h.fields f hf) (h.types f hf) l hl

end Editor

end Inspector
