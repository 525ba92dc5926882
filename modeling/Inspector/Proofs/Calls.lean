import Inspector.Backend.Editor
import Inspector.Backend.Printer
import Inspector.Proofs.Lines
import Mathlib.Logic.Basic

/-! Calls between generated routines: a body calls the routine of a struct exactly if it expands a
field of that struct. -/
namespace Inspector

open scoped List

namespace Text

def AnyOpens (w : String) (ls : List String) : Prop := ∃ l ∈ ls, Opens w l

variable {w : String}

@[simp] theorem anyOpens_nil : ¬ AnyOpens w [] := by simp [AnyOpens]

@[simp] theorem anyOpens_cons {l : String} {ls : List String} :
    AnyOpens w (l :: ls) ↔ Opens w l ∨ AnyOpens w ls := by
  simp [AnyOpens]

@[simp] theorem anyOpens_append {ks ls : List String} :
    AnyOpens w (ks ++ ls) ↔ AnyOpens w ks ∨ AnyOpens w ls := by
  simp [AnyOpens, or_and_right, exists_or]

theorem exists_mem_flatMap {α : Type} {as : List α} {g : α → List String} {P : String → Prop} :
    (∃ l ∈ as.flatMap g, P l) ↔ ∃ a ∈ as, ∃ l ∈ g a, P l := by
  simp only [List.mem_flatMap]
  constructor
  · rintro ⟨l, ⟨a, ha, hl⟩, h⟩
    exact ⟨a, ha, l, hl, h⟩
  · rintro ⟨a, ha, l, hl, h⟩
    exact ⟨l, ⟨a, ha, hl⟩, h⟩

theorem anyOpens_flatMap {α : Type} {as : List α} {f : α → List String} :
    AnyOpens w (as.flatMap f) ↔ ∃ a ∈ as, AnyOpens w (f a) :=
  exists_mem_flatMap

theorem anyOpens_map_indented {ls : List String} :
    AnyOpens w (ls.map ("  " ++ ·)) ↔ AnyOpens w ls := by
  simp [AnyOpens, opens_indented]

end Text

open Inspector.Text (Opens AnyOpens)

/-- The field has the struct `target` of the table as its type, behind at most `limit` pointers. -/
def Field.Reaches (f : Field) (t : Table) (limit : UInt32) (target : String) : Prop :=
  f.type = .struct target ∧ t.contains target = true ∧ f.indirection ≤ limit

instance (f : Field) (t : Table) (limit : UInt32) (target : String) :
    Decidable (f.Reaches t limit target) := inferInstanceAs (Decidable (_ ∧ _ ∧ _))

theorem Field.reaches_iff {f : Field} {t : Table} {limit : UInt32} {name target : String}
    (htype : f.type = .struct name) (hlimit : f.indirection ≤ limit) :
    f.Reaches t limit target ↔ name = target ∧ t.contains target = true := by
  simp [Reaches, htype, hlimit]

theorem anyOpens_expansion {w : String} {t : Table} {name target : String} {ks ls : List String}
    (hk : AnyOpens w ks ↔ name = target) (hl : ¬ AnyOpens w ls) :
    AnyOpens w (if t.contains name then ks else ls) ↔
      name = target ∧ t.contains target = true := by
  by_cases hname : t.contains name = true
  · rw [if_pos hname, hk]
    constructor
    · rintro rfl
      exact ⟨rfl, hname⟩
    · exact And.left
  · rw [if_neg hname]
    constructor
    · intro h
      exact absurd h hl
    · rintro ⟨rfl, h⟩
      exact absurd h hname

namespace Printer

def callee (struct : String) : String := "print_" ++ struct ++ "("

variable {T : String}

theorem not_opens_callee {line : String} (h : ¬ Opens "print_" line) : ¬ Opens (callee T) line := by
  rw [callee, String.append_assoc]
  exact mt Opens.of_append h

@[simp] theorem not_opens_indentTo (depth : String) : ¬ Opens (callee T) (indentTo depth) := by
  unfold indentTo
  rw [String.append_assoc]
  exact not_opens_callee (Text.not_opens_append (by decide) _)

@[simp] theorem not_opens_say (text : String) : ¬ Opens (callee T) (say text) := by
  rw [say, String.append_assoc]
  exact not_opens_callee (Text.not_opens_append (by decide) _)

@[simp] theorem not_opens_sayValue (field format value : String) :
    ¬ Opens (callee T) (sayValue field format value) := by
  unfold sayValue
  simp only [String.append_assoc]
  exact not_opens_callee (Text.not_opens_append (by decide) _)

theorem opens_call (hT : isIdentifier T = true) {struct : String}
    (hs : isIdentifier struct = true) (argument : String) :
    Opens (callee T) (call struct argument) ↔ struct = T := by
  have hspace : ' '.isWhitespace = true := by decide
  have hp : 'p'.isWhitespace = false := by decide
  have ht : '(' ∉ T.toList := not_mem_of_isIdentifier hT (by decide)
  have hs : '(' ∉ struct.toList := not_mem_of_isIdentifier hs (by decide)
  have h := @Text.prefix_call_iff _ _ (argument.toList ++ ", rec_depth+1, max_depth);".toList) ht hs
  simpa [Opens, callee, call, routine, hspace, hp, String.toList_inj, eq_comm] using h

theorem anyOpens_guarded (field : String) (ls : List String) :
    AnyOpens (callee T) (guarded field ls) ↔ AnyOpens (callee T) ls := by
  have hopen : ¬ Opens (callee T) ("  if (data->" ++ field ++ ") \x7b") := by
    rw [String.append_assoc]
    exact not_opens_callee (Text.not_opens_append (by decide) _)
  have helse : ¬ Opens (callee T) "  \x7d else \x7b" := not_opens_callee (by decide)
  have hclose : ¬ Opens (callee T) "  \x7d" := not_opens_callee (by decide)
  simp [guarded, Text.anyOpens_map_indented, Text.opens_indented, hopen, helse, hclose]

theorem anyOpens_structLines (hT : isIdentifier T = true) {struct : String}
    (hs : isIdentifier struct = true) (field : String) (indirection : UInt32) :
    AnyOpens (callee T) (structLines field indirection struct) ↔ struct = T := by
  have hcall := opens_call hT hs
  unfold structLines
  split
  · simp [hcall]
  · simp [anyOpens_guarded, hcall]

theorem anyOpens_fieldLines (hT : isIdentifier T = true) (t : Table) {f : Field}
    (hf : ∀ n, f.type = .struct n → isIdentifier n = true) :
    AnyOpens (callee T) (fieldLines t f) ↔ f.Reaches t 1 T := by
  rw [fieldLines, Text.anyOpens_cons, or_iff_right (not_opens_indentTo _)]
  unfold valueLines
  split
  · next hdeep => simp [Field.Reaches, UInt32.not_le.mpr hdeep]
  · next hflat =>
    cases htype : f.type with
    | primitive p =>
      cases hconv : conversion? p with
      | none => simp [Field.Reaches, htype, primitiveLines, hconv]
      | some format =>
        by_cases hdirect : f.indirection = 0
        · simp [Field.Reaches, htype, primitiveLines, hconv, hdirect]
        · simp [Field.Reaches, htype, primitiveLines, hconv, hdirect, anyOpens_guarded]
    | struct name =>
      rw [Field.reaches_iff htype (UInt32.not_lt.mp hflat)]
      exact anyOpens_expansion (anyOpens_structLines hT (hf name htype) _ _) (by simp)
    | unknown spelling => simp [Field.Reaches, htype]

theorem not_opens_prototype (struct : String) :
    ¬ Opens (callee T) (prototype struct ++ " \x7b") := by
  have hword : "print_" = "p" ++ "rint_" := by decide
  simp only [prototype, String.append_assoc]
  apply not_opens_callee
  rw [hword]
  exact mt Opens.of_append (Text.not_opens_append (by decide) _)

theorem anyOpens_bodyLines (hT : isIdentifier T = true) (maxDepth : UInt32) (t : Table)
    {s : Struct} (hs : ∀ f ∈ s.fields, ∀ n, f.type = .struct n → isIdentifier n = true) :
    AnyOpens (callee T) (bodyLines maxDepth s t) ↔ ∃ f ∈ s.fields, f.Reaches t 1 T := by
  have hbound : ¬ Opens (callee T)
      ("  if (max_depth == 0) max_depth = " ++ toString maxDepth.toNat ++ ";") := by
    rw [String.append_assoc]
    exact not_opens_callee (Text.not_opens_append (by decide) _)
  have hreturn : ¬ Opens (callee T) "  if (rec_depth > max_depth) \x7b return; \x7d" :=
    not_opens_callee (by decide)
  have hclose : ¬ Opens (callee T) "\x7d" := not_opens_callee (by decide)
  have hempty : ¬ Opens (callee T) "" := not_opens_callee (by decide)
  have hfields : AnyOpens (callee T) (s.fields.flatMap (fieldLines t)) ↔
      ∃ f ∈ s.fields, f.Reaches t 1 T := by
    rw [Text.anyOpens_flatMap]
    exact exists_congr fun f => and_congr_right fun hf => anyOpens_fieldLines hT t (hs f hf)
  simp only [bodyLines, Text.anyOpens_append, Text.anyOpens_cons, Text.anyOpens_nil,
    not_opens_prototype, not_opens_indentTo, not_opens_say, hbound, hreturn, hclose, hempty,
    hfields, false_or, or_false]

end Printer

namespace Editor

def callee (struct : String) : String := "Show" ++ struct ++ "Editor("

variable {T : String}

theorem not_opens_callee {line : String} (h : ¬ Opens "Show" line) : ¬ Opens (callee T) line := by
  rw [callee, String.append_assoc]
  exact mt Opens.of_append h

@[simp] theorem not_opens_say (field text : String) : ¬ Opens (callee T) (say field text) := by
  unfold say
  simp only [String.append_assoc]
  exact not_opens_callee (Text.not_opens_append (by decide) _)

@[simp] theorem not_opens_input (widget field arguments : String) :
    ¬ Opens (callee T) (input widget field arguments) := by
  unfold input
  simp only [String.append_assoc]
  exact not_opens_callee (Text.not_opens_append (by decide) _)

theorem not_opens_primitiveLine (field : String) (p : Primitive) :
    ¬ Opens (callee T) (primitiveLine field p) := by
  unfold primitiveLine
  cases control p <;> simp

theorem anyOpens_structLines (hT : isIdentifier T = true) {struct : String}
    (hs : isIdentifier struct = true) (field : String) :
    AnyOpens (callee T) (structLines field struct) ↔ struct = T := by
  have hspace : ' '.isWhitespace = true := by decide
  have hletter : 'S'.isWhitespace = false := by decide
  have ht : '(' ∉ T.toList ++ "Editor".toList := by
    simp [not_mem_of_isIdentifier hT (by decide : ('('.isAlphanum || '(' == '_') = false)]
  have hs : '(' ∉ struct.toList ++ "Editor".toList := by
    simp [not_mem_of_isIdentifier hs (by decide : ('('.isAlphanum || '(' == '_') = false)]
  have hcall : Opens (callee T) ("        " ++ routine struct ++ "(data." ++ field ++ ");") ↔
      struct = T := by
    have h := @Text.prefix_call_iff _ _ ("data.".toList ++ field.toList ++ ");".toList) ht hs
    simpa [Opens, callee, routine, hspace, hletter, String.toList_inj, eq_comm] using h
  have hnode : ¬ Opens (callee T) ("    if (ImGui::TreeNode(\"" ++ field ++ "\")) \x7b") := by
    rw [String.append_assoc]
    exact not_opens_callee (Text.not_opens_append (by decide) _)
  have hpop : ¬ Opens (callee T) "        ImGui::TreePop();" := not_opens_callee (by decide)
  have hclose : ¬ Opens (callee T) "    \x7d" := not_opens_callee (by decide)
  simp only [structLines, Text.anyOpens_cons, hcall, hnode, hpop, hclose, Text.anyOpens_nil,
    false_or, or_false]

theorem anyOpens_fieldLines (hT : isIdentifier T = true) (t : Table) {f : Field}
    (hf : ∀ n, f.type = .struct n → isIdentifier n = true) :
    AnyOpens (callee T) (fieldLines t f) ↔ f.Reaches t 0 T := by
  unfold fieldLines
  split
  · next hdeep => simp [Field.Reaches, UInt32.not_le.mpr hdeep]
  · next hflat =>
    cases htype : f.type with
    | primitive p => simp [Field.Reaches, htype, not_opens_primitiveLine]
    | struct name =>
      rw [Field.reaches_iff htype (UInt32.not_lt.mp hflat)]
      exact anyOpens_expansion (anyOpens_structLines hT (hf name htype) _) (by simp)
    | unknown spelling => simp [Field.Reaches, htype]

theorem anyOpens_bodyLines (hT : isIdentifier T = true) (t : Table) {s : Struct}
    (hs : ∀ f ∈ s.fields, ∀ n, f.type = .struct n → isIdentifier n = true) :
    AnyOpens (callee T) (bodyLines s t) ↔ ∃ f ∈ s.fields, f.Reaches t 0 T := by
  have hcomment : ¬ Opens (callee T) ("// ImGui form for " ++ s.name) :=
    not_opens_callee (Text.not_opens_append (by decide) _)
  have hprototype : ¬ Opens (callee T) (prototype s.name ++ " \x7b") := by
    simp only [prototype, String.append_assoc]
    exact not_opens_callee (Text.not_opens_append (by decide) _)
  have hclose : ¬ Opens (callee T) "\x7d" := not_opens_callee (by decide)
  have hfields : AnyOpens (callee T) (s.fields.flatMap (fieldLines t)) ↔
      ∃ f ∈ s.fields, f.Reaches t 0 T := by
    rw [Text.anyOpens_flatMap]
    exact exists_congr fun f => and_congr_right fun hf => anyOpens_fieldLines hT t (hs f hf)
  simp only [bodyLines, Text.anyOpens_append, Text.anyOpens_cons, Text.anyOpens_nil, hcomment,
    hprototype, hclose, hfields, false_or, or_false]

end Editor

end Inspector
