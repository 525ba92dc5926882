import Inspector.Proofs.Lexer
import Inspector.Proofs.Linkage

/-! The tokens of generated bodies. Every line of a body can be read by itself, every field is
written in lines that close the brackets they open, and whatever is printed is printed with a format
that fits. -/
namespace Inspector

namespace Lexer

structure Line (l : String) (ts : List Token) : Prop where
  reads : Reads .code (l ++ "\n") ts .code
  sound : Sound ts

theorem Line.of_reads {l : String} {ts : List Token} (h : Reads .code l ts .code)
    (hts : Sound ts) : Line l ts := by
  have hfeed : Reads .code "\n" [] .code := by decide
  have hreads := h.append hfeed
  rw [List.append_nil] at hreads
  exact ⟨hreads, hts⟩

theorem Line.indented {l : String} {ts : List Token} (h : Line l ts) : Line ("  " ++ l) ts := by
  have hspace : Reads .code "  " [] .code := by decide
  refine ⟨?_, h.sound⟩
  rw [String.append_assoc]
  exact hspace.append h.reads

inductive Lines : List String → List Token → Prop where
  | nil : Lines [] []
  | cons {l : String} {ls : List String} {ts us : List Token} (hl : Line l ts) (hls : Lines ls us) :
      Lines (l :: ls) (ts ++ us)

namespace Lines

variable {ls ks : List String} {ts us : List Token}

theorem single {l : String} (h : Line l ts) : Lines [l] ts := by
  have hlines := Lines.cons h .nil
  rwa [List.append_nil] at hlines

theorem append (hl : Lines ls ts) (hk : Lines ks us) : Lines (ls ++ ks) (ts ++ us) := by
  induction hl with
  | nil => exact hk
  | cons h _ ih =>
    rw [List.append_assoc]
    exact .cons h ih

theorem indented (h : Lines ls ts) : Lines (ls.map ("  " ++ ·)) ts := by
  induction h with
  | nil => exact .nil
  | cons hl _ ih => exact .cons hl.indented ih

theorem reads (h : Lines ls ts) : Reads .code (Text.unlines ls) ts .code := by
  induction h with
  | nil => decide
  | cons hl _ ih => exact hl.reads.append ih

theorem sound (h : Lines ls ts) : Sound ts := by
  induction h with
  | nil => exact ⟨formatsFit_nil, by simp [EndsCall]⟩
  | cons hl _ ih => exact hl.sound.append ih

end Lines

def Whole (ls : List String) : Prop := ∃ ts, Lines ls ts ∧ Nested ts

namespace Whole

theorem nil : Whole [] := ⟨[], .nil, rfl⟩

theorem append {ls ks : List String} (hl : Whole ls) (hk : Whole ks) : Whole (ls ++ ks) := by
  obtain ⟨ts, hlines, hts⟩ := hl
  obtain ⟨us, hlines', hus⟩ := hk
  exact ⟨ts ++ us, hlines.append hlines', hts.append hus⟩

theorem flatMap {α : Type} {as : List α} {f : α → List String} (h : ∀ a ∈ as, Whole (f a)) :
    Whole (as.flatMap f) := by
  induction as with
  | nil => exact nil
  | cons a as ih =>
    obtain ⟨ha, has⟩ := List.forall_mem_cons.mp h
    exact ha.append (ih has)

theorem single {l : String} {ts : List Token} (hread : Reads .code l ts .code)
    (hsound : Sound ts) (hts : Nested ts) : Whole [l] :=
  ⟨ts, .single (.of_reads hread hsound), hts⟩

end Whole

def Routine (ls : List String) : Prop :=
  ∃ opening inner, Lines ls (opening ++ .mark '\x7b' :: inner ++ [.mark '\x7d']) ∧
    .mark '\x7b' ∉ opening ∧ Nested opening ∧ Nested inner

theorem Whole.routine {first ls last : List String} {opening : List Token} (h : Whole ls)
    (hfirst : Lines first (opening ++ [.mark '\x7b'])) (hlast : Lines last [.mark '\x7d'])
    (hbrace : .mark '\x7b' ∉ opening) (hopening : Nested opening) :
    Routine (first ++ ls ++ last) := by
  obtain ⟨inner, hlines, hinner⟩ := h
  refine ⟨opening, inner, ?_, hbrace, hopening, hinner⟩
  have hall := (hfirst.append hlines).append hlast
  rwa [List.append_assoc opening] at hall

theorem reads_callEnd : Reads .code ");" [.mark ')', .mark ';'] .code := by
  decide

/-- `a` leads up to a name: with the name behind it, it is one argument of a call. -/
structure Leads (a : String) (ts : List Token) : Prop where
  reads : Reads .code a ts .code
  argument : ∀ w us, arguments? 0 (ts ++ .word w :: .mark ')' :: us) = some [ts ++ [.word w]]
  nested : Nested ts
  sound : Sound ts

end Lexer

open Inspector.Lexer

/-! ### Names and spellings -/

theorem isWord_of_isIdentifier {s : String} (h : isIdentifier s = true) : IsWord s := by
  refine ⟨?_, ?_⟩
  · intro hs
    simp [isIdentifier, hs] at h
  · intro c hc
    by_contra hword
    refine not_mem_of_isIdentifier h ?_ hc
    simp_all [isWordChar]

theorem isWord_toString (n : Nat) : IsWord (toString n) := by
  rw [IsWord, Nat.toString_eq_ofList_toDigits, String.toList_ofList]
  refine ⟨?_, ?_⟩
  · exact Nat.toDigits_ne_nil
  · intro c hc
    have hdigit := Nat.isDigit_of_mem_toDigits (by decide) (by decide) hc
    simp [isWordChar, Char.isAlphanum, hdigit]

def Verbatim (s : String) : Prop := Plain s ∧ '%' ∉ s.toList

instance (s : String) : Decidable (Verbatim s) := inferInstanceAs (Decidable (_ ∧ _))

theorem Verbatim.append {a b : String} (ha : Verbatim a) (hb : Verbatim b) : Verbatim (a ++ b) := by
  refine ⟨ha.1.append hb.1, ?_⟩
  rw [String.toList_append, List.mem_append]
  exact not_or.mpr ⟨ha.2, hb.2⟩

theorem verbatim_of_isIdentifier {s : String} (h : isIdentifier s = true) : Verbatim s := by
  refine ⟨?_, not_mem_of_isIdentifier h (by decide)⟩
  intro c hc
  refine ⟨?_, ?_, ?_⟩
  all_goals
    rintro rfl
    exact not_mem_of_isIdentifier h (by decide) hc

theorem Primitive.verbatim_spelling (p : Primitive) : Verbatim p.spelling := by
  cases p <;> decide

theorem verbatim_arrayOf {spelling : String} (h : Verbatim spelling) :
    Verbatim (Backend.arrayOf spelling) :=
  ((by decide : Verbatim "Array<").append h).append (by decide)

/-- A struct is called by an identifier, and any other type is spelled without characters that mean
something in a format or in a literal. -/
def TypeClass.Writable : TypeClass → Prop
  | primitive _ => True
  | struct name => isIdentifier name = true
  | unknown spelling => Verbatim spelling

instance : DecidablePred TypeClass.Writable
  | .primitive _ => inferInstanceAs (Decidable True)
  | .struct name => inferInstanceAs (Decidable (isIdentifier name = true))
  | .unknown spelling => inferInstanceAs (Decidable (Verbatim spelling))

theorem TypeClass.Writable.verbatim {c : TypeClass} (h : c.Writable) : Verbatim c.spelling := by
  cases c with
  | primitive p => exact p.verbatim_spelling
  | struct name => exact verbatim_of_isIdentifier h
  | unknown spelling => exact h

structure Struct.Writable (s : Struct) : Prop where
  name : isIdentifier s.name = true
  fields : ∀ f ∈ s.fields, isIdentifier f.name = true
  types : ∀ f ∈ s.fields, f.type.Writable

namespace Printer

variable {field struct text : String}

theorem isWord_routine (hs : isIdentifier struct = true) : IsWord (routine struct) :=
  .append (by decide) (isWord_of_isIdentifier hs)

theorem whole_say (h : Verbatim text) : Whole [say text] := by
  have hopen : Reads .code "  printf(\"" [.word "printf".toList, .mark '('] (.literal []) := by
    decide
  have hclose : Reads (.literal []) "\\n\");" [.literal "\\n".toList, .mark ')', .mark ';']
      .code := by
    decide
  have hnone : conversions (text.toList ++ "\\n".toList) = 0 := by
    rw [conversions_append h.2]
    decide
  exact .single (hopen.quoted h.1 hclose) (sound_print _ hnone) rfl

theorem whole_indentTo {depth a w : String} {ts : List Token} (ha : Leads a ts) (hw : IsWord w)
    (hdepth : a ++ w = depth) : Whole [indentTo depth] := by
  have hopen : Reads .code "  for (int i = 0; i < " [.word "for".toList, .mark '(',
      .word "int".toList, .word "i".toList, .mark '=', .word "0".toList, .mark ';',
      .word "i".toList, .mark '<'] .code := by
    decide
  have hclose : Reads .code "; i++) \x7b printf(\"  \"); \x7d" [.mark ';', .word "i".toList,
      .mark '+', .mark '+', .mark ')', .mark '\x7b', .word "printf".toList, .mark '(',
      .literal "  ".toList, .mark ')', .mark ';', .mark '\x7d'] .code := by
    decide
  have htext : indentTo depth =
      "  for (int i = 0; i < " ++ a ++ w ++ "; i++) \x7b printf(\"  \"); \x7d" := by
    rw [← hdepth]
    unfold indentTo
    simp only [String.append_assoc]
  have hfits : FormatFits [.literal "  ".toList, .mark ')', .mark ';', .mark '\x7d'] :=
    ⟨_, [], rfl, by simp, rfl⟩
  rw [htext]
  refine .single ((hopen.append ha.reads).name hw hclose (by decide))
    (.append (.append ?_ ha.sound) ?_) ?_
  · exact ⟨by simp [formatted], by simp [EndsCall]⟩
  · exact ⟨by simpa [formatted] using hfits.formatsFit (by simp) _, by simp [EndsCall]⟩
  · simp [Nested, nest, nestMark, nest_append, ha.nested.nest]

theorem whole_sayValue (hf : isIdentifier field = true) {format a : String} {ts : List Token}
    (hformat : Plain format) (hone : conversions (format.toList ++ "\\n".toList) = 1)
    (ha : Leads a ts) : Whole [sayValue field format (a ++ field)] := by
  have hopen : Reads .code "  printf(\"" [.word "printf".toList, .mark '('] (.literal []) := by
    decide
  have hclose : Reads (.literal []) "\\n\", " [.literal "\\n".toList, .mark ','] .code := by
    decide
  have htext : sayValue field format (a ++ field) =
      "  printf(\"" ++ (field ++ ": " ++ format) ++ "\\n\", " ++ a ++ field ++ ");" := by
    unfold sayValue
    simp only [String.append_assoc]
  have hname : Verbatim (field ++ ": ") := (verbatim_of_isIdentifier hf).append (by decide)
  have hfits : FormatFits (.literal ((field ++ ": " ++ format).toList ++ "\\n".toList) ::
      .mark ',' :: ts ++ [.word field.toList, .mark ')', .mark ';']) := by
    refine ⟨(field ++ ": " ++ format).toList ++ "\\n".toList, [ts ++ [.word field.toList]], ?_,
      by simp, ?_⟩
    · simp [arguments?, ha.argument]
    · rw [String.toList_append, List.append_assoc, conversions_append hname.2, hone]
      rfl
  rw [htext]
  refine .single (((hopen.quoted (hname.1.append hformat) hclose).append ha.reads).name
    (isWord_of_isIdentifier hf) reads_callEnd (by decide))
    ⟨?_, by simp [EndsCall, List.getLast?_cons]⟩ ?_
  · refine hfits.formatsFit ?_ _
    exact (formatsFit_literal _ _).mpr ((formatsFit_mark _ _).mpr
      (ha.sound.fits.append ha.sound.ends (by simp)))
  · simp [Nested, nest, nestMark, nest_append, ha.nested.nest]

theorem whole_guarded (hf : isIdentifier field = true) {ls : List String} (h : Whole ls) :
    Whole (guarded field ls) := by
  have hopen : Reads .code "  if (data->" [.word "if".toList, .mark '(', .word "data".toList,
      .mark '-', .mark '>'] .code := by
    decide
  have hthen : Reads .code ") \x7b" [.mark ')', .mark '\x7b'] .code := by decide
  have helse : Reads .code "  \x7d else \x7b" [.mark '\x7d', .word "else".toList, .mark '\x7b']
      .code := by
    decide
  have hend : Reads .code "  \x7d" [.mark '\x7d'] .code := by decide
  have hif := hopen.name (isWord_of_isIdentifier hf) hthen (by decide)
  have hnull : Whole [say (field ++ ": NULL")] :=
    whole_say ((verbatim_of_isIdentifier hf).append (by decide))
  obtain ⟨ts, hls, hts⟩ := h
  obtain ⟨us, hsay, hus⟩ := hnull
  refine ⟨_, .append (.append (.single (.of_reads hif ⟨by simp [formatted], by simp [EndsCall]⟩))
    hls.indented) (.cons (.of_reads helse ⟨by simp, by simp [EndsCall]⟩)
    (.append hsay.indented (.single (.of_reads hend ⟨by simp, by simp [EndsCall]⟩)))), ?_⟩
  simp [Nested, nest, nestMark, nest_append, hts.nest, hus.nest]

theorem conversion_one {p : Primitive} {format : String} (h : conversion? p = some format) :
    Plain format ∧ conversions (format.toList ++ "\\n".toList) = 1 := by
  cases p <;> cases h <;> decide

def arrow : List Token := [.word "data".toList, .mark '-', .mark '>']

theorem leads_value (p : Primitive) :
    (∃ ts, Leads ((if p = .bool then "(int)" else "") ++ "data->") ts) ∧
    ∃ ts, Leads ((if p = .bool then "(int)" else "") ++ "*data->") ts := by
  split
  · have hcast : Leads "(int)data->" ([.mark '(', .word "int".toList, .mark ')'] ++ arrow) :=
      ⟨by decide, fun _ _ => rfl, by decide, by simp [arrow], by simp [arrow, EndsCall]⟩
    have hcastValue : Leads "(int)*data->"
        ([.mark '(', .word "int".toList, .mark ')', .mark '*'] ++ arrow) :=
      ⟨by decide, fun _ _ => rfl, by decide, by simp [arrow], by simp [arrow, EndsCall]⟩
    exact ⟨⟨_, hcast⟩, _, hcastValue⟩
  · have hplain : Leads "data->" arrow :=
      ⟨by decide, fun _ _ => rfl, by decide, by simp [arrow], by simp [arrow, EndsCall]⟩
    have hvalue : Leads "*data->" (.mark '*' :: arrow) :=
      ⟨by decide, fun _ _ => rfl, by decide, by simp [arrow], by simp [arrow, EndsCall]⟩
    exact ⟨⟨_, hplain⟩, _, hvalue⟩

theorem leads_address : Leads "&data->" (.mark '&' :: arrow) :=
  ⟨by decide, fun _ _ => rfl, rfl, by simp [arrow], by simp [arrow, EndsCall]⟩

theorem leads_addressOfValue : Leads "&*data->" (.mark '&' :: .mark '*' :: arrow) :=
  ⟨by decide, fun _ _ => rfl, rfl, by simp [arrow], by simp [arrow, EndsCall]⟩

theorem whole_primitiveLines (hf : isIdentifier field = true) (indirection : UInt32)
    (p : Primitive) : Whole (primitiveLines field indirection p) := by
  unfold primitiveLines
  split
  · exact whole_say ((verbatim_of_isIdentifier hf).append (by decide))
  · next format hformat =>
    obtain ⟨hplain, hone⟩ := conversion_one hformat
    obtain ⟨⟨ts, hdirect⟩, us, hbehind⟩ := leads_value p
    dsimp only
    split
    · exact whole_sayValue hf hplain hone hdirect
    · exact whole_guarded hf (whole_sayValue hf hplain hone hbehind)

theorem whole_call (hs : isIdentifier struct = true) (hf : isIdentifier field = true) {a : String}
    {ts : List Token} (ha : Leads a ts) : Whole [call struct (a ++ field)] := by
  have hspace : Reads .code "  " [] .code := by decide
  have hopen : Reads .code "(" [.mark '('] .code := by decide
  have hclose : Reads .code ", rec_depth+1, max_depth);" [.mark ',', .word "rec_depth".toList,
      .mark '+', .word "1".toList, .mark ',', .word "max_depth".toList, .mark ')', .mark ';']
      .code := by
    decide
  have htext : call struct (a ++ field) =
      "  " ++ routine struct ++ "(" ++ a ++ field ++ ", rec_depth+1, max_depth);" := by
    unfold call
    simp only [String.append_assoc]
  rw [htext]
  refine .single (((hspace.name (isWord_routine hs) hopen (by decide)).append ha.reads).name
    (isWord_of_isIdentifier hf) hclose (by decide)) (.append (.append ?_ ha.sound) ?_) ?_
  · exact ⟨by simp [formatted, routine], by simp [EndsCall]⟩
  · exact ⟨by simp, by simp [EndsCall]⟩
  · simp [Nested, nest, nestMark, nest_append, ha.nested.nest]

theorem whole_structLines (hf : isIdentifier field = true) (indirection : UInt32)
    (hs : isIdentifier struct = true) : Whole (structLines field indirection struct) := by
  have hsay : Whole [say (field ++ ":")] :=
    whole_say ((verbatim_of_isIdentifier hf).append (by decide))
  unfold structLines
  split
  · exact hsay.append (whole_call hs hf leads_address)
  · exact whole_guarded hf (hsay.append (whole_call hs hf leads_addressOfValue))

theorem whole_valueLines (t : Table) {f : Field} (hf : isIdentifier f.name = true)
    (htype : f.type.Writable) : Whole (valueLines t f) := by
  have hname := verbatim_of_isIdentifier hf
  have hunsupported : Whole [say (f.name ++ ": Unsupported type")] :=
    whole_say (hname.append (by decide))
  unfold valueLines
  split
  · exact whole_say ((hname.append (by decide)).append (verbatim_arrayOf htype.verbatim))
  · cases hclass : f.type with
    | primitive p => exact whole_primitiveLines hf f.indirection p
    | struct name =>
      rw [hclass] at htype
      dsimp only
      split
      · exact whole_structLines hf f.indirection htype
      · exact hunsupported
    | unknown spelling => exact hunsupported

theorem whole_fieldLines (t : Table) {f : Field} (hf : isIdentifier f.name = true)
    (htype : f.type.Writable) : Whole (fieldLines t f) := by
  have hplus : Leads "rec_depth+" [.word "rec_depth".toList, .mark '+'] :=
    ⟨by decide, fun _ _ => rfl, rfl, by simp, by simp [EndsCall]⟩
  have hindent := whole_indentTo hplus (by decide : IsWord "1") (by decide : _ = "rec_depth+1")
  exact hindent.append (whole_valueLines t hf htype)

theorem whole_bound (maxDepth : UInt32) :
    Whole ["  if (max_depth == 0) max_depth = " ++ toString maxDepth.toNat ++ ";",
      "  if (rec_depth > max_depth) \x7b return; \x7d"] := by
  have hopen : Reads .code "  if (max_depth == 0) max_depth = " [.word "if".toList, .mark '(',
      .word "max_depth".toList, .mark '=', .mark '=', .word "0".toList, .mark ')',
      .word "max_depth".toList, .mark '='] .code := by
    decide
  have hclose : Reads .code ";" [.mark ';'] .code := by decide
  have hreturn : Reads .code "  if (rec_depth > max_depth) \x7b return; \x7d" [.word "if".toList,
      .mark '(', .word "rec_depth".toList, .mark '>', .word "max_depth".toList, .mark ')',
      .mark '\x7b', .word "return".toList, .mark ';', .mark '\x7d'] .code := by
    decide
  have hbound := hopen.name (isWord_toString maxDepth.toNat) hclose (by decide)
  exact .append (.single hbound ⟨by simp [formatted], by simp [EndsCall]⟩ rfl)
    (.single hreturn ⟨by simp [formatted], by simp [EndsCall]⟩ rfl)

theorem reads_prototype (hs : isIdentifier struct = true) : Reads .code (prototype struct)
    [.word "void".toList, .word (routine struct).toList, .mark '(', .word "const".toList,
      .word struct.toList, .mark '*', .word "data".toList, .mark ',', .word "int".toList,
      .word "rec_depth".toList, .mark ',', .word "int".toList, .word "max_depth".toList, .mark ')']
    .code := by
  have hvoid : Reads .code "void " [.word "void".toList] .code := by decide
  have hconst : Reads .code "(const " [.mark '(', .word "const".toList] .code := by decide
  have hrest : Reads .code " *data, int rec_depth, int max_depth)" [.mark '*',
      .word "data".toList, .mark ',', .word "int".toList, .word "rec_depth".toList, .mark ',',
      .word "int".toList, .word "max_depth".toList, .mark ')'] .code := by
    decide
  exact (hvoid.name (isWord_routine hs) hconst (by decide)).name (isWord_of_isIdentifier hs) hrest
    (by decide)

theorem routine_bodyLines (maxDepth : UInt32) {s : Struct} (h : s.Writable) (t : Table) :
    Routine (bodyLines maxDepth s t) := by
  have hbrace : Reads .code " \x7b" [.mark '\x7b'] .code := by decide
  have hend : Reads .code "\x7d" [.mark '\x7d'] .code := by decide
  have hnothing : Leads "" [] :=
    ⟨by decide, fun _ _ => rfl, rfl, by simp, by simp [EndsCall]⟩
  have hindent := whole_indentTo hnothing (by decide : IsWord "rec_depth")
    (by decide : _ = "rec_depth")
  have hsay : Whole [say (s.name ++ " \x7b")] :=
    whole_say ((verbatim_of_isIdentifier h.name).append (by decide))
  have hfields : Whole (s.fields.flatMap (fieldLines t)) :=
    .flatMap fun f hf => whole_fieldLines t (h.fields f hf) (h.types f hf)
  have hclose : Whole [say "\x7d"] := whole_say (by decide)
  have hinner := (whole_bound maxDepth).append (hindent.append (hsay.append (hfields.append
    (hindent.append hclose))))
  have hhead := (reads_prototype h.name).append hbrace
  have hblank : Line "" [] := .of_reads (by decide) ⟨by simp, by simp [EndsCall]⟩
  have hroutine := hinner.routine
    (.single (.of_reads hhead ⟨by simp [formatted, routine], by simp [EndsCall]⟩))
    (.cons (.of_reads hend ⟨by simp, by simp [EndsCall]⟩) (.single hblank)) (by simp) rfl
  unfold bodyLines
  simpa using hroutine

end Printer

namespace Editor

variable {field struct text : String}

theorem isWord_routine (hs : isIdentifier struct = true) : IsWord (routine struct) :=
  .append (.append (by decide) (isWord_of_isIdentifier hs)) (by decide)

theorem whole_say (hf : Verbatim field) (h : Verbatim text) : Whole [say field text] := by
  have hopen : Reads .code "    ImGui::Text(\"" [.word "ImGui::Text".toList, .mark '(']
      (.literal []) := by
    decide
  have hclose : Reads (.literal []) "\");" [.literal [], .mark ')', .mark ';'] .code := by decide
  have hall : Verbatim (field ++ ": " ++ text) := (hf.append (by decide)).append h
  have htext : say field text = "    ImGui::Text(\"" ++ (field ++ ": " ++ text) ++ "\");" := by
    unfold say
    simp only [String.append_assoc]
  rw [htext]
  exact .single (hopen.quoted hall.1 hclose) (sound_print _ (conversions_append hall.2 [])) rfl

theorem whole_input {widget arguments : String} {ts : List Token} (hw : IsWord widget)
    (hwidget : .word ("ImGui::" ++ widget).toList ∉ formatted) (hf : Plain field)
    (h : Reads .code (arguments ++ ");") (ts ++ [.mark ')', .mark ';']) .code)
    (hsound : Sound (ts ++ [.mark ')', .mark ';'])) (hts : Nested ts) :
    Whole [input widget field arguments] := by
  have hspace : Reads .code "    " [] .code := by decide
  have hopen : Reads .code "(\"" [.mark '('] (.literal []) := by decide
  have hcomma : Reads (.literal []) "\", " [.literal [], .mark ','] .code := by decide
  have hname : IsWord ("ImGui::" ++ widget) := .append (by decide) hw
  have htext : input widget field arguments = "    " ++ ("ImGui::" ++ widget) ++ "(\"" ++ field
      ++ "\", " ++ (arguments ++ ");") := by
    have hindent : "    ImGui::" = "    " ++ "ImGui::" := by decide
    unfold input
    rw [hindent]
    simp only [String.append_assoc]
  rw [htext]
  refine .single (((hspace.name hname hopen (by decide)).quoted hf hcomma).append h)
    (.append ?_ hsound) ?_
  · exact ⟨(formatsFit_call hwidget _).mpr (by simp), by simp [EndsCall]⟩
  · simp [Nested, nest, nestMark, nest_append, hts.nest]

theorem whole_address {widget : String} (hw : IsWord widget)
    (hwidget : .word ("ImGui::" ++ widget).toList ∉ formatted) (hf : isIdentifier field = true) :
    Whole [input widget field ("&data." ++ field)] := by
  have hopen : Reads .code "&data." [.mark '&', .word "data".toList, .mark '.'] .code := by decide
  have hread : Reads .code ("&data." ++ field ++ ");") ([.mark '&', .word "data".toList, .mark '.',
      .word field.toList] ++ [.mark ')', .mark ';']) .code :=
    hopen.name (isWord_of_isIdentifier hf) reads_callEnd (by decide)
  exact whole_input hw hwidget (verbatim_of_isIdentifier hf).1 hread
    ⟨by simp, by simp [EndsCall]⟩ rfl

theorem isWord_dataType {p : Primitive} {dataType : String} (h : control p = .scalarBox dataType) :
    IsWord dataType := by
  cases p <;> cases h <;> decide

theorem whole_scalar {dataType : String} (hd : IsWord dataType) (hf : isIdentifier field = true) :
    Whole [input "InputScalar" field (dataType ++ ", &data." ++ field)] := by
  have hempty : Reads .code "" [] .code := by decide
  have hopen : Reads .code ", &data." [.mark ',', .mark '&', .word "data".toList, .mark '.']
      .code := by
    decide
  have hread : Reads .code ("" ++ dataType ++ ", &data." ++ field ++ ");") ([.word dataType.toList,
      .mark ',', .mark '&', .word "data".toList, .mark '.', .word field.toList]
      ++ [.mark ')', .mark ';']) .code :=
    (hempty.name hd hopen (by decide)).name (isWord_of_isIdentifier hf) reads_callEnd (by decide)
  rw [String.empty_append] at hread
  exact whole_input (by decide) (by decide) (verbatim_of_isIdentifier hf).1 hread
    ⟨by simp, by simp [EndsCall]⟩ rfl

theorem whole_text (hf : isIdentifier field = true) :
    Whole [input "InputText" field ("data." ++ field ++ ", sizeof(data." ++ field ++ ")")] := by
  have hopen : Reads .code "data." [.word "data".toList, .mark '.'] .code := by decide
  have hsize : Reads .code ", sizeof(data." [.mark ',', .word "sizeof".toList, .mark '(',
      .word "data".toList, .mark '.'] .code := by
    decide
  have hclose : Reads .code ")" [.mark ')'] .code := by decide
  have hname := isWord_of_isIdentifier hf
  have hread := ((hopen.name hname hsize (by decide)).name hname hclose (by decide)).append
    reads_callEnd
  exact whole_input (by decide) (by decide) (verbatim_of_isIdentifier hf).1 hread
    ⟨by simp [formatted], by simp [EndsCall]⟩ rfl

theorem whole_primitiveLine (hf : isIdentifier field = true) (p : Primitive) :
    Whole [primitiveLine field p] := by
  unfold primitiveLine
  cases hcontrol : control p with
  | intBox => exact whole_address (by decide) (by decide) hf
  | scalarBox dataType => exact whole_scalar (isWord_dataType hcontrol) hf
  | floatBox => exact whole_address (by decide) (by decide) hf
  | doubleBox => exact whole_address (by decide) (by decide) hf
  | checkbox => exact whole_address (by decide) (by decide) hf
  | textBox => exact whole_text hf
  | label => exact whole_say (verbatim_of_isIdentifier hf) p.verbatim_spelling

theorem whole_structLines (hf : isIdentifier field = true) (hs : isIdentifier struct = true) :
    Whole (structLines field struct) := by
  have hif : Reads .code "    if (ImGui::TreeNode(\"" [.word "if".toList, .mark '(',
      .word "ImGui::TreeNode".toList, .mark '('] (.literal []) := by
    decide
  have hthen : Reads (.literal []) "\")) \x7b" [.literal [], .mark ')', .mark ')', .mark '\x7b']
      .code := by
    decide
  have hspace : Reads .code "        " [] .code := by decide
  have hopen : Reads .code "(data." [.mark '(', .word "data".toList, .mark '.'] .code := by decide
  have hpop : Reads .code "        ImGui::TreePop();" [.word "ImGui::TreePop".toList, .mark '(',
      .mark ')', .mark ';'] .code := by
    decide
  have hend : Reads .code "    \x7d" [.mark '\x7d'] .code := by decide
  have hhead := hif.quoted (verbatim_of_isIdentifier hf).1 hthen
  have hcall := (hspace.name (isWord_routine hs) hopen (by decide)).name
    (isWord_of_isIdentifier hf) reads_callEnd (by decide)
  have hlines := Lines.cons (.of_reads hhead ⟨by simp [formatted], by simp [EndsCall]⟩)
    (.cons (.of_reads hcall ⟨by simp [formatted, routine], by simp [EndsCall]⟩)
    (.cons (.of_reads hpop ⟨by simp [formatted], by simp [EndsCall]⟩)
    (.single (.of_reads hend ⟨by simp, by simp [EndsCall]⟩))))
  exact ⟨_, hlines, rfl⟩

theorem whole_fieldLines (t : Table) {f : Field} (hf : isIdentifier f.name = true)
    (htype : f.type.Writable) : Whole (fieldLines t f) := by
  have hname := verbatim_of_isIdentifier hf
  have hunsupported : Whole [say f.name "Unsupported Type"] := whole_say hname (by decide)
  unfold fieldLines
  split
  · exact whole_say hname (verbatim_arrayOf htype.verbatim)
  · cases hclass : f.type with
    | primitive p => exact whole_primitiveLine hf p
    | struct name =>
      rw [hclass] at htype
      dsimp only
      split
      · exact whole_structLines hf htype
      · exact hunsupported
    | unknown spelling => exact hunsupported

/-- What a comment holds makes no tokens. -/
theorem line_comment (h : Text.IsLine text) : Line ("// ImGui form for " ++ text) [] := by
  have hopen : Reads .code "// ImGui form for " [] .comment := by decide
  have hrest : Reads .comment text [] .comment := run_comment h
  have hend : Reads .comment "\n" [] .code := by decide
  exact ⟨(hopen.append hrest).append hend, by simp, by simp [EndsCall]⟩

theorem reads_prototype (hs : isIdentifier struct = true) : Reads .code (prototype struct)
    [.word "void".toList, .word (routine struct).toList, .mark '(', .word struct.toList,
      .mark '&', .word "data".toList, .mark ')'] .code := by
  have hvoid : Reads .code "void " [.word "void".toList] .code := by decide
  have hopen : Reads .code "(" [.mark '('] .code := by decide
  have hrest : Reads .code "& data)" [.mark '&', .word "data".toList, .mark ')'] .code := by
    decide
  exact (hvoid.name (isWord_routine hs) hopen (by decide)).name (isWord_of_isIdentifier hs) hrest
    (by decide)

theorem routine_bodyLines {s : Struct} (h : s.Writable) (t : Table) : Routine (bodyLines s t) := by
  have hbrace : Reads .code " \x7b" [.mark '\x7b'] .code := by decide
  have hend : Reads .code "\x7d" [.mark '\x7d'] .code := by decide
  have hfields : Whole (s.fields.flatMap (fieldLines t)) :=
    .flatMap fun f hf => whole_fieldLines t (h.fields f hf) (h.types f hf)
  have hhead : Line (prototype s.name ++ " \x7b") _ :=
    .of_reads ((reads_prototype h.name).append hbrace)
      ⟨by simp [formatted, routine], by simp [EndsCall]⟩
  have hfirst := Lines.cons (line_comment (isLine_of_isIdentifier h.name)) (.single hhead)
  rw [List.nil_append] at hfirst
  exact hfields.routine hfirst (.single (.of_reads hend ⟨by simp, by simp [EndsCall]⟩))
    (by simp) rfl

end Editor

namespace Dialect

theorem routine_bodyLines (d : Dialect) {s : Struct} (h : s.Writable) (t : Table) :
    Routine (d.bodyLines s t) := by
  cases d with
  | printer maxDepth => exact Printer.routine_bodyLines maxDepth h t
  | editor => exact Editor.routine_bodyLines h t

end Dialect

/-- The body of a struct whose names and types can be written down is read to its end, and no
literal goes on at the end of a line. Its brackets are nested. The first brace stays open until the
last token closes it, and wherever something is printed the format asks for as many values as are
given. -/
theorem body_tokens_nested (d : Dialect) {s : Struct} (h : s.Writable) (t : Table) :
    ∃ opening inner tokens, run .code (d.backend.body s t).toList = some (tokens, .code) ∧
      (∀ front back, (d.backend.body s t).toList = front ++ '\n' :: back →
        ∃ ts m, run .code front = some (ts, m) ∧ ¬ m.InLiteral) ∧
      tokens = opening ++ .mark '\x7b' :: inner ++ [.mark '\x7d'] ∧
      nest [] tokens = some [] ∧
      nest [] opening = some [] ∧ .mark '\x7b' ∉ opening ∧
      (∀ front back, inner = front ++ back →
        ∃ stack, nest [] (opening ++ .mark '\x7b' :: front) = some (stack ++ ['\x7b'])) ∧
      FormatsFit tokens := by
  obtain ⟨opening, inner, hlines, hbrace, hopening, hinner⟩ := d.routine_bodyLines h t
  have hread := hlines.reads
  rw [← d.body_backend, Reads] at hread
  refine ⟨opening, inner, _, hread, ?_, rfl, ?_, hopening, hbrace, ?_, hlines.sound.fits⟩
  · intro front back htext
    rw [htext] at hread
    exact outside_at_line_end hread
  · rw [nest_append, nest_append, hopening]
    simp [nest, nestMark, hinner.nest]
  · rintro front back rfl
    rw [nest_append, hopening]
    exact hinner.open_within '\x7b'

def memo : Struct where
  name := "Memo"
  fields := [
    { name := "text", type := .primitive .cString },
    { name := "done", type := .primitive .bool, indirection := 1 },
    { name := "next", type := .struct "Memo", indirection := 1 },
    { name := "tags", type := .unknown "Tag<int>", indirection := 2 }]

def memos : Table where
  entries := [memo]
  nodup := by decide

theorem body_tokens_nested_memo : memo.Writable ∧
    (∃ tokens, run .code ((Backend.printer 3).body memo memos).toList = some (tokens, .code) ∧
      nest [] tokens = some [] ∧ FormatsFit tokens) ∧
    ∃ tokens, run .code (Backend.editor.body memo memos).toList = some (tokens, .code) ∧
      nest [] tokens = some [] ∧ FormatsFit tokens := by
  have hmemo : memo.Writable := ⟨by decide, by decide, by decide⟩
  obtain ⟨_, _, printed, hprinted, _, _, hnested, _, _, _, hfits⟩ :=
    body_tokens_nested (.printer 3) hmemo memos
  obtain ⟨_, _, shown, hshown, _, _, hnested', _, _, _, hfits'⟩ :=
    body_tokens_nested .editor hmemo memos
  exact ⟨hmemo, ⟨printed, hprinted, hnested, hfits⟩, shown, hshown, hnested', hfits'⟩

end Inspector
