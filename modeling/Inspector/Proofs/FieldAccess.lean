import Inspector.Proofs.Linkage
import Mathlib.Data.List.Basic

/-! Which fields generated code reads. A body leads to a field of its data by an arrow or by a dot,
and its lines have these marks nowhere else. So where a text has the data, the mark and a whole
name, some line has been written for a field of that name. -/
namespace Inspector

open scoped List

def isNameChar (c : Char) : Bool := c.isAlphanum || c == '_'

theorem isNameChar_of_isIdentifier {s : String} (h : isIdentifier s = true) :
    ∀ c ∈ s.toList, isNameChar c = true := by
  intro c hc
  by_contra hname
  exact not_mem_of_isIdentifier h (Bool.eq_false_iff.mpr hname) hc

namespace Text

/-- The text has `w` somewhere, and behind it a character that cannot go on with a name. -/
def Mentions (w text : String) : Prop :=
  ∃ c, isNameChar c = false ∧ w.toList ++ [c] <:+: text.toList

/-- A word with one more character behind it does not reach over a character that the word does not
have. -/
theorem infix_break {w x y : List Char} {c d : Char} (hd : d ∉ w) :
    w ++ [c] <:+: x ++ d :: y ↔ w ++ [c] <:+: x ++ [d] ∨ w ++ [c] <:+: y := by
  rw [List.append_cons x d y, List.infix_append_iff]
  constructor
  · rintro (h | h | ⟨front, back, hw, hfront, hback⟩)
    · exact Or.inl h
    · exact Or.inr h
    · obtain rfl | ⟨front', rfl, -⟩ := List.suffix_concat_iff.mp hfront
      · rw [hw]
        exact Or.inr hback.isInfix
      · obtain rfl | ⟨back', e, rfl⟩ := List.eq_nil_or_concat back
        · rw [hw, List.append_nil]
          exact Or.inl hfront.isInfix
        · rw [List.concat_eq_append, ← List.append_assoc] at hw
          obtain ⟨rfl, -⟩ := List.append_inj' hw rfl
          exact absurd (by simp) hd
  · rintro (h | h)
    · exact Or.inl h
    · exact Or.inr (Or.inl h)

variable {w : String}

theorem mentions_break {x : String} {d : Char} (hd : d ∉ w.toList) (y : String) :
    Mentions w (x ++ String.singleton d ++ y) ↔
      Mentions w (x ++ String.singleton d) ∨ Mentions w y := by
  have hbreak := fun c => @infix_break w.toList x.toList y.toList c d hd
  simp only [Mentions, String.toList_append, String.toList_singleton, List.append_assoc,
    List.singleton_append, hbreak, and_or_left, exists_or]

theorem not_mentions {m : Char} {text : String} (hm : m ∈ w.toList) (h : m ∉ text.toList) :
    ¬ Mentions w text := by
  rintro ⟨c, -, hpart⟩
  exact h (hpart.subset (List.mem_append_left _ hm))

/-- A word in one line is found line by line. -/
theorem mentions_unlines (hw : '\n' ∉ w.toList) {ls : List String} :
    Mentions w (unlines ls) ↔ ∃ l ∈ ls, Mentions w (l ++ "\n") := by
  induction ls with
  | nil =>
    simp [Mentions, unlines]
  | cons l ls ih =>
    have hfeed : "\n" = String.singleton '\n' := by decide
    rw [unlines, List.exists_mem_cons_iff, ← ih, hfeed]
    exact mentions_break hw _

/-- A name behind the only mark of a text is mentioned if it is the one that is there. -/
theorem mentions_name {x lead field y f : String} {m : Char} {a b : List Char}
    (hlead : lead.toList = a ++ m :: b) (hm : isNameChar m = false ∧ m ∉ a ++ b)
    (hx : m ∉ x.toList) (hy : m ∉ y.toList)
    (hend : y.toList.head?.any (fun c => !isNameChar c) = true)
    (hfield : isIdentifier field = true) (hf : isIdentifier f = true) :
    Mentions (lead ++ f) (x ++ lead ++ field ++ y) ↔ field = f := by
  obtain ⟨e, q, hyq⟩ : ∃ e q, y.toList = e :: q := by
    cases hcs : y.toList with
    | nil => simp [hcs] at hend
    | cons e q => exact ⟨e, q, rfl⟩
  have he : isNameChar e = false := by simpa [hyq] using hend
  constructor
  · rintro ⟨c, hc, front, back, hpart⟩
    have hname : m ∉ field.toList := not_mem_of_isIdentifier hfield hm.1
    have hfront : m ∉ x.toList ++ a := by simp_all
    have hback : m ∉ b ++ (field.toList ++ e :: q) := by simp_all
    have hcut : x.toList ++ a ++ m :: (b ++ (field.toList ++ e :: q)) =
        front ++ a ++ m :: (b ++ (f.toList ++ c :: back)) := by
      simpa [hlead, hyq] using hpart.symm
    obtain ⟨-, -, hrest⟩ := (List.append_cons_inj_of_notMem hfront hback).mp hcut
    have htaken := congrArg (List.takeWhile isNameChar) (List.append_cancel_left hrest)
    rw [List.takeWhile_append_of_pos (isNameChar_of_isIdentifier hfield),
      List.takeWhile_append_of_pos (isNameChar_of_isIdentifier hf),
      List.takeWhile_cons_of_neg (by simp [he]), List.takeWhile_cons_of_neg (by simp [hc]),
      List.append_nil, List.append_nil] at htaken
    exact String.toList_inj.mp htaken
  · rintro rfl
    exact ⟨e, he, x.toList, q, by simp [hyq]⟩

theorem mentions_indented {m : Char} (hm : m ∈ w.toList) (hspace : ' ' ∉ w.toList)
    {line : String} : Mentions w ("  " ++ line) ↔ Mentions w line := by
  have hne : m ≠ ' ' := fun he => hspace (he ▸ hm)
  have hindent : ¬ Mentions w (" " ++ String.singleton ' ') := not_mentions hm (by simp [hne])
  have hspaces : "  " = " " ++ String.singleton ' ' := by decide
  rw [hspaces, mentions_break hspace, or_iff_right hindent]

end Text

open Inspector.Text (Mentions)

/-- A field of this type has a value that can be read: it is a primitive, but not `void`, or a
struct of the table. -/
def TypeClass.Valued (t : Table) : TypeClass → Prop
  | primitive p => p ≠ .void
  | struct name => t.contains name = true
  | unknown _ => False

instance (t : Table) : DecidablePred (TypeClass.Valued t)
  | .primitive p => inferInstanceAs (Decidable (p ≠ .void))
  | .struct name => inferInstanceAs (Decidable (t.contains name = true))
  | .unknown _ => inferInstanceAs (Decidable False)

structure Struct.Legible (s : Struct) : Prop where
  name : isIdentifier s.name = true
  fields : ∀ f ∈ s.fields, isIdentifier f.name = true
  types : ∀ f ∈ s.fields, '-' ∉ f.type.spelling.toList ∧ '.' ∉ f.type.spelling.toList

namespace Printer

variable {field struct text f : String}

theorem mentions_arrow {x y line : String} (hfield : isIdentifier field = true)
    (hf : isIdentifier f = true) (hline : line = x ++ "data->" ++ field ++ y)
    (hx : '-' ∉ x.toList) (hy : '-' ∉ y.toList)
    (hend : y.toList.head?.any (fun c => !isNameChar c) = true) :
    Mentions ("data->" ++ f) line ↔ field = f := by
  have hlead : "data->".toList = "data".toList ++ '-' :: ">".toList := by decide
  rw [hline]
  exact Text.mentions_name hlead (by decide) hx hy hend hfield hf

theorem not_mentions_line {line : String} (h : '-' ∉ line.toList) :
    ¬ Mentions ("data->" ++ f) (line ++ "\n") :=
  Text.not_mentions (by simp : '-' ∈ ("data->" ++ f).toList) (by simp [h])

theorem not_mentions_indentTo {depth : String} (h : '-' ∉ depth.toList) :
    ¬ Mentions ("data->" ++ f) (indentTo depth ++ "\n") := by
  apply not_mentions_line
  unfold indentTo
  simp [h]

theorem not_mentions_say (h : '-' ∉ text.toList) :
    ¬ Mentions ("data->" ++ f) (say text ++ "\n") := by
  apply not_mentions_line
  unfold say
  simp [h]

theorem mentions_sayValue (hfield : isIdentifier field = true) (hf : isIdentifier f = true)
    {format a : String} (hformat : '-' ∉ format.toList) (ha : '-' ∉ a.toList) :
    Mentions ("data->" ++ f) (sayValue field format (a ++ "data->" ++ field) ++ "\n") ↔
      field = f := by
  have hname : '-' ∉ field.toList := not_mem_of_isIdentifier hfield (by decide)
  have htext : sayValue field format (a ++ "data->" ++ field) ++ "\n" = "  printf(\"" ++ field
      ++ ": " ++ format ++ "\\n\", " ++ a ++ "data->" ++ field ++ ");\n" := by
    unfold sayValue
    simp [← String.toList_inj]
  exact mentions_arrow hfield hf htext (by simp [hname, hformat, ha]) (by decide) (by decide)

theorem mentions_call (hfield : isIdentifier field = true) (hf : isIdentifier f = true)
    (hstruct : '-' ∉ struct.toList) {a : String} (ha : '-' ∉ a.toList) :
    Mentions ("data->" ++ f) (call struct (a ++ "data->" ++ field) ++ "\n") ↔ field = f := by
  have htext : call struct (a ++ "data->" ++ field) ++ "\n" = "  print_" ++ struct ++ "(" ++ a
      ++ "data->" ++ field ++ ", rec_depth+1, max_depth);\n" := by
    unfold call routine
    simp [← String.toList_inj]
  exact mentions_arrow hfield hf htext (by simp [hstruct, ha]) (by decide) (by decide)

/-- The guard itself reads the field. -/
theorem mentions_guarded (hfield : isIdentifier field = true) (hf : isIdentifier f = true)
    {ls : List String} (h : (∃ l ∈ ls, Mentions ("data->" ++ f) (l ++ "\n")) → field = f) :
    (∃ l ∈ guarded field ls, Mentions ("data->" ++ f) (l ++ "\n")) ↔ field = f := by
  have hguard : Mentions ("data->" ++ f) ("  if (data->" ++ field ++ ") \x7b" ++ "\n") ↔
      field = f := by
    have htext : "  if (data->" ++ field ++ ") \x7b" ++ "\n" =
        "  if (" ++ "data->" ++ field ++ ") \x7b\n" := by
      simp [← String.toList_inj]
    exact mentions_arrow hfield hf htext (by decide) (by decide) (by decide)
  have hindented : ∀ l, Mentions ("data->" ++ f) ("  " ++ l ++ "\n") ↔
      Mentions ("data->" ++ f) (l ++ "\n") := by
    intro l
    have hspace : ' ' ∉ f.toList := not_mem_of_isIdentifier hf (by decide)
    rw [String.append_assoc]
    exact Text.mentions_indented (by simp : '-' ∈ ("data->" ++ f).toList) (by simp [hspace])
  have helse : ¬ Mentions ("data->" ++ f) ("  \x7d else \x7b" ++ "\n") :=
    not_mentions_line (by decide)
  have hname : '-' ∉ field.toList := not_mem_of_isIdentifier hfield (by decide)
  have hnull : ¬ Mentions ("data->" ++ f) (say (field ++ ": NULL") ++ "\n") :=
    not_mentions_say (by simp [hname])
  have hclose : ¬ Mentions ("data->" ++ f) ("  \x7d" ++ "\n") := not_mentions_line (by decide)
  constructor
  · rintro ⟨l, hl, hmentions⟩
    simp only [guarded, List.mem_append, List.mem_map, List.mem_cons, List.not_mem_nil,
      or_false] at hl
    obtain (rfl | ⟨l, hl, rfl⟩) | rfl | rfl | rfl := hl
    · exact hguard.mp hmentions
    · exact h ⟨l, hl, (hindented l).mp hmentions⟩
    · exact absurd hmentions helse
    · exact absurd ((hindented _).mp hmentions) hnull
    · exact absurd hmentions hclose
  · intro heq
    exact ⟨_, List.mem_cons_self, hguard.mpr heq⟩

theorem dash_not_mem_conversion {p : Primitive} {format : String}
    (h : conversion? p = some format) : '-' ∉ format.toList := by
  cases p <;> cases h <;> decide

theorem conversion?_eq_none_iff {p : Primitive} : conversion? p = none ↔ p = .void := by
  cases p <;> simp [conversion?]

theorem mentions_primitiveLines (hfield : isIdentifier field = true) (hf : isIdentifier f = true)
    (indirection : UInt32) (p : Primitive) :
    (∃ l ∈ primitiveLines field indirection p, Mentions ("data->" ++ f) (l ++ "\n")) ↔
      field = f ∧ p ≠ .void := by
  have hname : '-' ∉ field.toList := not_mem_of_isIdentifier hfield (by decide)
  unfold primitiveLines
  cases hconversion : conversion? p with
  | none =>
    have hvoid : ¬ Mentions ("data->" ++ f) (say (field ++ ": void") ++ "\n") :=
      not_mentions_say (by simp [hname])
    simp [conversion?_eq_none_iff.mp hconversion, hvoid]
  | some format =>
    have hformat := dash_not_mem_conversion hconversion
    have hvalued : p ≠ .void := fun hp => by
      rw [conversion?_eq_none_iff.mpr hp] at hconversion
      cases hconversion
    have hcast : '-' ∉ (if p = .bool then "(int)" else "").toList := by split <;> decide
    rw [and_iff_left hvalued]
    dsimp only
    split
    · rw [← mentions_sayValue hfield hf hformat hcast]
      simp
    · apply mentions_guarded hfield hf
      have hstar : (if p = .bool then "(int)" else "") ++ "*data->" =
          (if p = .bool then "(int)" else "") ++ "*" ++ "data->" := by
        simp [← String.toList_inj]
      rw [hstar]
      rintro ⟨l, hl, hmentions⟩
      rw [List.mem_singleton.mp hl] at hmentions
      exact (mentions_sayValue hfield hf hformat (by simp [hcast])).mp hmentions

theorem mentions_structLines (hfield : isIdentifier field = true) (hf : isIdentifier f = true)
    (indirection : UInt32) (hstruct : '-' ∉ struct.toList) :
    (∃ l ∈ structLines field indirection struct, Mentions ("data->" ++ f) (l ++ "\n")) ↔
      field = f := by
  have hname : '-' ∉ field.toList := not_mem_of_isIdentifier hfield (by decide)
  have hsay : ¬ Mentions ("data->" ++ f) (say (field ++ ":") ++ "\n") :=
    not_mentions_say (by simp [hname])
  have hcall : ∀ a : String, '-' ∉ a.toList →
      ((∃ l ∈ [say (field ++ ":"), call struct (a ++ "data->" ++ field)],
        Mentions ("data->" ++ f) (l ++ "\n")) ↔ field = f) := by
    intro a ha
    rw [List.exists_mem_cons_iff, or_iff_right hsay, ← mentions_call hfield hf hstruct ha]
    simp
  have haddress : "&data->" = "&" ++ "data->" := by decide
  have hbehind : "&*data->" = "&*" ++ "data->" := by decide
  unfold structLines
  rw [haddress, hbehind]
  split
  · exact hcall "&" (by decide)
  · exact mentions_guarded hfield hf (hcall "&*" (by decide)).mp

theorem mentions_fieldLines (hf : isIdentifier f = true) (t : Table) {x : Field}
    (hx : isIdentifier x.name = true) (htype : '-' ∉ x.type.spelling.toList) :
    (∃ l ∈ fieldLines t x, Mentions ("data->" ++ f) (l ++ "\n")) ↔
      x.name = f ∧ x.indirection ≤ 1 ∧ x.type.Valued t := by
  have hname : '-' ∉ x.name.toList := not_mem_of_isIdentifier hx (by decide)
  have hunsupported : ¬ Mentions ("data->" ++ f) (say (x.name ++ ": Unsupported type") ++ "\n") :=
    not_mentions_say (by simp [hname])
  rw [fieldLines, List.exists_mem_cons_iff, or_iff_right (not_mentions_indentTo (by decide))]
  unfold valueLines
  split
  · next hdeep =>
    have hplace : ¬ Mentions ("data->" ++ f)
        (say (x.name ++ ": " ++ Backend.arrayOf x.type.spelling) ++ "\n") :=
      not_mentions_say (by simp [Backend.arrayOf, hname, htype])
    simp [hplace, UInt32.not_le.mpr hdeep]
  · next hflat =>
    rw [and_iff_right (UInt32.not_lt.mp hflat)]
    cases hclass : x.type with
    | primitive p => exact mentions_primitiveLines hx hf x.indirection p
    | struct name =>
      rw [hclass] at htype
      dsimp only [TypeClass.Valued]
      split
      · next hknown =>
        rw [and_iff_left hknown]
        exact mentions_structLines hx hf x.indirection htype
      · next hdangling => simp [hunsupported, hdangling]
    | unknown spelling => simp [hunsupported, TypeClass.Valued]

theorem mentions_bodyLines (hf : isIdentifier f = true) (maxDepth : UInt32) {s : Struct}
    (hs : s.Legible) (t : Table) :
    (∃ l ∈ bodyLines maxDepth s t, Mentions ("data->" ++ f) (l ++ "\n")) ↔
      ∃ x ∈ s.fields, x.name = f ∧ x.indirection ≤ 1 ∧ x.type.Valued t := by
  have hname : '-' ∉ s.name.toList := not_mem_of_isIdentifier hs.name (by decide)
  have hprototype : ¬ Mentions ("data->" ++ f) (prototype s.name ++ " \x7b" ++ "\n") :=
    not_mentions_line (by simp [prototype, routine, hname])
  have hdigits : '-' ∉ Nat.toDigits 10 maxDepth.toNat := by
    intro h
    exact absurd (Nat.isDigit_of_mem_toDigits (by decide) (by decide) h) (by decide)
  have hbound : ¬ Mentions ("data->" ++ f)
      ("  if (max_depth == 0) max_depth = " ++ toString maxDepth.toNat ++ ";" ++ "\n") :=
    not_mentions_line (by simp [hdigits])
  have hreturn : ¬ Mentions ("data->" ++ f)
      ("  if (rec_depth > max_depth) \x7b return; \x7d" ++ "\n") :=
    not_mentions_line (by decide)
  have hindent : ¬ Mentions ("data->" ++ f) (indentTo "rec_depth" ++ "\n") :=
    not_mentions_indentTo (by decide)
  have hopen : ¬ Mentions ("data->" ++ f) (say (s.name ++ " \x7b") ++ "\n") :=
    not_mentions_say (by simp [hname])
  have hsay : ¬ Mentions ("data->" ++ f) (say "\x7d" ++ "\n") := not_mentions_say (by decide)
  have hclose : ¬ Mentions ("data->" ++ f) ("\x7d" ++ "\n") := not_mentions_line (by decide)
  have hblank : ¬ Mentions ("data->" ++ f) ("" ++ "\n") := not_mentions_line (by decide)
  have hfields : (∃ l ∈ s.fields.flatMap (fieldLines t), Mentions ("data->" ++ f) (l ++ "\n")) ↔
      ∃ x ∈ s.fields, x.name = f ∧ x.indirection ≤ 1 ∧ x.type.Valued t := by
    rw [Text.exists_mem_flatMap]
    exact exists_congr fun x => and_congr_right fun hx =>
      mentions_fieldLines hf t (hs.fields x hx) (hs.types x hx).1
  simp only [bodyLines, List.mem_append, or_and_right, exists_or, List.exists_mem_cons_iff,
    List.not_mem_nil, false_and, exists_false, hprototype, hbound, hreturn, hindent, hopen, hsay,
    hclose, hblank, hfields, false_or, or_false]

end Printer

namespace Editor

variable {field struct text f : String}

theorem mentions_dot {x y line : String} (hfield : isIdentifier field = true)
    (hf : isIdentifier f = true) (hline : line = x ++ "data." ++ field ++ y)
    (hx : '.' ∉ x.toList) (hy : '.' ∉ y.toList)
    (hend : y.toList.head?.any (fun c => !isNameChar c) = true) :
    Mentions ("data." ++ f) line ↔ field = f := by
  have hlead : "data.".toList = "data".toList ++ '.' :: [] := by decide
  rw [hline]
  exact Text.mentions_name hlead (by decide) hx hy hend hfield hf

theorem not_mentions_line {line : String} (h : '.' ∉ line.toList) :
    ¬ Mentions ("data." ++ f) (line ++ "\n") :=
  Text.not_mentions (by simp : '.' ∈ ("data." ++ f).toList) (by simp [h])

theorem not_mentions_say (hfield : '.' ∉ field.toList) (h : '.' ∉ text.toList) :
    ¬ Mentions ("data." ++ f) (say field text ++ "\n") := by
  apply not_mentions_line
  unfold say
  simp [hfield, h]

theorem mentions_input (hfield : isIdentifier field = true) (hf : isIdentifier f = true)
    {widget a : String} (hwidget : '.' ∉ widget.toList) (ha : '.' ∉ a.toList) :
    Mentions ("data." ++ f) (input widget field (a ++ "data." ++ field) ++ "\n") ↔ field = f := by
  have hname : '.' ∉ field.toList := not_mem_of_isIdentifier hfield (by decide)
  have htext : input widget field (a ++ "data." ++ field) ++ "\n" = "    ImGui::" ++ widget
      ++ "(\"" ++ field ++ "\", " ++ a ++ "data." ++ field ++ ");\n" := by
    unfold input
    simp [← String.toList_inj]
  exact mentions_dot hfield hf htext (by simp [hwidget, hname, ha]) (by decide) (by decide)

/-- A text box reads its field twice, on both sides of a comma. -/
theorem mentions_textBox (hfield : isIdentifier field = true) (hf : isIdentifier f = true) :
    Mentions ("data." ++ f) (input "InputText" field
      ("data." ++ field ++ ", sizeof(data." ++ field ++ ")") ++ "\n") ↔ field = f := by
  have hname : '.' ∉ field.toList := not_mem_of_isIdentifier hfield (by decide)
  have hcomma : ',' ∉ ("data." ++ f).toList := by
    simp [not_mem_of_isIdentifier hf (by decide : (','.isAlphanum || ',' == '_') = false)]
  have htext : input "InputText" field
        ("data." ++ field ++ ", sizeof(data." ++ field ++ ")") ++ "\n"
      = "    ImGui::InputText(\"" ++ field ++ "\", data." ++ field ++ String.singleton ','
        ++ (" sizeof(data." ++ field ++ "));\n") := by
    unfold input
    simp [← String.toList_inj]
  have hvalue : Mentions ("data." ++ f) ("    ImGui::InputText(\"" ++ field ++ "\", data." ++ field
      ++ String.singleton ',') ↔ field = f :=
    mentions_dot hfield hf (x := "    ImGui::InputText(\"" ++ field ++ "\", ") (y := ",")
      (by simp [← String.toList_inj]) (by simp [hname]) (by decide) (by decide)
  have hsize : Mentions ("data." ++ f) (" sizeof(data." ++ field ++ "));\n") ↔ field = f :=
    mentions_dot hfield hf (x := " sizeof(") (y := "));\n") (by simp) (by decide) (by decide)
      (by decide)
  rw [htext, Text.mentions_break hcomma, hvalue, hsize, or_self]

theorem dot_not_mem_dataType {p : Primitive} {dataType : String}
    (h : control p = .scalarBox dataType) : '.' ∉ dataType.toList := by
  cases p <;> cases h <;> decide

theorem control_eq_label_iff {p : Primitive} : control p = .label ↔ p = .void := by
  cases p <;> simp [control]

theorem mentions_primitiveLine (hfield : isIdentifier field = true) (hf : isIdentifier f = true)
    (p : Primitive) :
    Mentions ("data." ++ f) (primitiveLine field p ++ "\n") ↔ field = f ∧ p ≠ .void := by
  have haddress : ∀ widget : String, '.' ∉ widget.toList →
      (Mentions ("data." ++ f) (input widget field ("&data." ++ field) ++ "\n") ↔ field = f) := by
    intro widget hwidget
    have hlead : "&data." = "&" ++ "data." := by decide
    rw [hlead]
    exact mentions_input hfield hf hwidget (by decide)
  rw [ne_eq, ← control_eq_label_iff]
  unfold primitiveLine
  cases hcontrol : control p with
  | intBox => simp [haddress]
  | scalarBox dataType =>
    have hscalar := @mentions_input _ _ hfield hf "InputScalar" (dataType ++ ", &") (by decide)
      (by simp [dot_not_mem_dataType hcontrol])
    simpa [String.append_assoc] using hscalar
  | floatBox => simp [haddress]
  | doubleBox => simp [haddress]
  | checkbox => simp [haddress]
  | textBox => simpa using mentions_textBox hfield hf
  | label =>
    have hname : '.' ∉ field.toList := not_mem_of_isIdentifier hfield (by decide)
    have hspelling : '.' ∉ p.spelling.toList := by
      rw [control_eq_label_iff.mp hcontrol]
      decide
    simpa using not_mentions_say hname hspelling

theorem mentions_structLines (hfield : isIdentifier field = true) (hf : isIdentifier f = true)
    (hstruct : '.' ∉ struct.toList) :
    (∃ l ∈ structLines field struct, Mentions ("data." ++ f) (l ++ "\n")) ↔ field = f := by
  have hname : '.' ∉ field.toList := not_mem_of_isIdentifier hfield (by decide)
  have hnode : ¬ Mentions ("data." ++ f)
      ("    if (ImGui::TreeNode(\"" ++ field ++ "\")) \x7b" ++ "\n") :=
    not_mentions_line (by simp [hname])
  have hcall : Mentions ("data." ++ f)
      ("        " ++ routine struct ++ "(data." ++ field ++ ");" ++ "\n") ↔ field = f :=
    mentions_dot hfield hf (x := "        " ++ routine struct ++ "(") (y := ");\n")
      (by simp [← String.toList_inj]) (by simp [routine, hstruct]) (by decide) (by decide)
  have hpop : ¬ Mentions ("data." ++ f) ("        ImGui::TreePop();" ++ "\n") :=
    not_mentions_line (by decide)
  have hclose : ¬ Mentions ("data." ++ f) ("    \x7d" ++ "\n") := not_mentions_line (by decide)
  simp only [structLines, List.exists_mem_cons_iff, List.not_mem_nil, false_and, exists_false,
    hnode, hcall, hpop, hclose, false_or, or_false]

theorem mentions_fieldLines (hf : isIdentifier f = true) (t : Table) {x : Field}
    (hx : isIdentifier x.name = true) (htype : '.' ∉ x.type.spelling.toList) :
    (∃ l ∈ fieldLines t x, Mentions ("data." ++ f) (l ++ "\n")) ↔
      x.name = f ∧ x.indirection = 0 ∧ x.type.Valued t := by
  have hname : '.' ∉ x.name.toList := not_mem_of_isIdentifier hx (by decide)
  have hunsupported : ¬ Mentions ("data." ++ f) (say x.name "Unsupported Type" ++ "\n") :=
    not_mentions_say hname (by decide)
  unfold fieldLines
  split
  · next hdeep =>
    have hplace : ¬ Mentions ("data." ++ f)
        (say x.name (Backend.arrayOf x.type.spelling) ++ "\n") :=
      not_mentions_say hname (by simp [Backend.arrayOf, htype])
    have hne : x.indirection ≠ 0 := fun he => by simp [he] at hdeep
    simp [hplace, hne]
  · next hflat =>
    have hzero : x.indirection = 0 := UInt32.le_zero_iff.mp (UInt32.not_lt.mp hflat)
    rw [and_iff_right hzero]
    cases hclass : x.type with
    | primitive p =>
      have hline := mentions_primitiveLine hx hf p
      simpa [TypeClass.Valued] using hline
    | struct name =>
      rw [hclass] at htype
      dsimp only [TypeClass.Valued]
      split
      · next hknown =>
        rw [and_iff_left hknown]
        exact mentions_structLines hx hf htype
      · next hdangling => simp [hunsupported, hdangling]
    | unknown spelling => simp [hunsupported, TypeClass.Valued]

theorem mentions_bodyLines (hf : isIdentifier f = true) {s : Struct} (hs : s.Legible) (t : Table) :
    (∃ l ∈ bodyLines s t, Mentions ("data." ++ f) (l ++ "\n")) ↔
      ∃ x ∈ s.fields, x.name = f ∧ x.indirection = 0 ∧ x.type.Valued t := by
  have hname : '.' ∉ s.name.toList := not_mem_of_isIdentifier hs.name (by decide)
  have hcomment : ¬ Mentions ("data." ++ f) ("// ImGui form for " ++ s.name ++ "\n") :=
    not_mentions_line (by simp [hname])
  have hprototype : ¬ Mentions ("data." ++ f) (prototype s.name ++ " \x7b" ++ "\n") :=
    not_mentions_line (by simp [prototype, routine, hname])
  have hclose : ¬ Mentions ("data." ++ f) ("\x7d" ++ "\n") := not_mentions_line (by decide)
  have hfields : (∃ l ∈ s.fields.flatMap (fieldLines t), Mentions ("data." ++ f) (l ++ "\n")) ↔
      ∃ x ∈ s.fields, x.name = f ∧ x.indirection = 0 ∧ x.type.Valued t := by
    rw [Text.exists_mem_flatMap]
    exact exists_congr fun x => and_congr_right fun hx =>
      mentions_fieldLines hf t (hs.fields x hx) (hs.types x hx).2
  simp only [bodyLines, List.mem_append, or_and_right, exists_or, List.exists_mem_cons_iff,
    List.not_mem_nil, false_and, exists_false, hcomment, hprototype, hclose, hfields, false_or,
    or_false]

end Editor

/-- The body of a routine reads a field of some name exactly if the struct has one that is expanded:
a primitive that is not `void`, or a struct of the table, and behind one pointer at most. The body
of a form reads it exactly if it is of such a type and behind none. -/
theorem fields_read_exactly {s : Struct} (hs : s.Legible) (t : Table) {f : String}
    (hf : isIdentifier f = true) :
    (∀ maxDepth, Mentions ("data->" ++ f) ((Backend.printer maxDepth).body s t) ↔
      ∃ x ∈ s.fields, x.name = f ∧ x.indirection ≤ 1 ∧ x.type.Valued t) ∧
    (Mentions ("data." ++ f) (Backend.editor.body s t) ↔
      ∃ x ∈ s.fields, x.name = f ∧ x.indirection = 0 ∧ x.type.Valued t) := by
  have hfeed : '\n' ∉ f.toList := isLine_of_isIdentifier hf
  constructor
  · intro maxDepth
    rw [← Printer.mentions_bodyLines hf maxDepth hs t]
    exact Text.mentions_unlines (by simp [hfeed])
  · rw [← Editor.mentions_bodyLines hf hs t]
    exact Text.mentions_unlines (by simp [hfeed])

def probe : Struct where
  name := "Probe"
  fields := [
    { name := "label", type := .primitive .cString },
    { name := "user", type := .primitive .void, indirection := 1 },
    { name := "next", type := .struct "Probe", indirection := 1 },
    { name := "cells", type := .primitive .int, indirection := 2 },
    { name := "owner", type := .struct "Station" },
    { name := "raw", type := .unknown "long HANDLE" }]

def probes : Table where
  entries := [probe]
  nodup := by decide

theorem fields_read_exactly_probe : probe.Legible ∧
    Mentions "data->next" ((Backend.printer 2).body probe probes) ∧
    ¬ Mentions "data->owner" ((Backend.printer 2).body probe probes) ∧
    ¬ Mentions "data->cells" ((Backend.printer 2).body probe probes) ∧
    Mentions "data.label" (Backend.editor.body probe probes) ∧
    ¬ Mentions "data.next" (Backend.editor.body probe probes) := by
  have hprobe : probe.Legible := ⟨by decide, by decide, by decide⟩
  have hread : ∀ f, isIdentifier f = true → _ := fun f hf =>
    @fields_read_exactly _ hprobe probes f hf
  refine ⟨hprobe, ((hread "next" (by decide)).1 2).mpr (by decide),
    mt ((hread "owner" (by decide)).1 2).mp (by decide),
    mt ((hread "cells" (by decide)).1 2).mp (by decide),
    (hread "label" (by decide)).2.mpr (by decide), mt (hread "next" (by decide)).2.mp (by decide)⟩

end Inspector
