import Inspector.DescriptorFile.Json
import Inspector.Proofs.JsonText

/-! Descriptor files written as JSON and read again. -/
namespace Inspector

open Inspector.Json (Decoder Value Slot Shape)

namespace Json

variable {α β σ : Type} {d : Decoder α} {f : α → Value}

/-- A text that was read is the text that was written. -/
theorem ofFault_text (s : String) :
    ofFault ((Except.ok s.toList : Except Fault (List Char)).map String.ofList) = .ok s :=
  congrArg Except.ok String.ofList_toList

theorem text_draft (s : String) : text (Value.text s).draft = .ok s := by
  rw [text, Value.draft, textAs, ofFault_text]

theorem bool_draft (b : Bool) : bool (Value.bool b).draft = .ok b := by
  simp [bool, Value.draft]

theorem word_draft (n : UInt32) : word (Value.number n.toNat).draft = .ok n := by
  have hlt := n.toNat_lt_size
  have hfits : n.toNat ≤ Numeral.maxWord := Nat.le_trans (Nat.le_of_lt hlt) (by decide)
  simp [word, Value.draft, read_digits hfits, hlt]

theorem list_draft (h : ∀ a, d (f a).draft = .ok a) (as : List α) :
    list d (Value.list (as.map f)).draft = .ok as := by
  rw [Value.draft, list]
  induction as with
  | nil => rfl
  | cons a as ih =>
    rw [List.map_cons, draftItems, items, h]
    simp only [bind, Except.bind, ih]
    rfl

theorem optional_draft (s : Option String) : optional text
    (match s with | none => Value.null | some s => .text s).draft = .ok s := by
  cases s with
  | none => rfl
  | some s =>
    change (text (Value.text s).draft).map some = .ok (some s)
    rw [text_draft]
    rfl

theorem variant_draft {names : List String} {ofName? : String → Option α} {a : α} {s : String}
    (h : ofName? s = some a) : variant names ofName? (Value.text s).draft = .ok a := by
  rw [Value.draft, variant, ofFault_text]
  simp only [bind, Except.bind, variant.pick, h]

def Fills (shape : Shape σ β) (r : σ) (ms : List (String × Value)) (r' : σ) : Prop :=
  shape.members r (draftMembers ms) = .ok r'

namespace Fills

variable {shape : Shape σ β} {r r' : σ} {ms : List (String × Value)}

theorem nil (shape : Shape σ β) (r : σ) : Fills shape r [] r := rfl

/-- A member whose slot is free sets it. -/
theorem cons {k : String} {v : Value} {a : α} {get : σ → Option α} {put : σ → α → σ}
    (hslot : shape.slots.find? (·.key == k) = some (.of k get d put)) (hfree : get r = none)
    (hv : d v.draft = .ok a) (hrest : Fills shape (put r a) ms r') :
    Fills shape r ((k, v) :: ms) r' := by
  have hset : (Slot.of k get d put).set r v.draft = .ok (put r a) :=
    congrArg (Except.map (put r)) hv
  have hopen : (Slot.of k get d put).isSet r = false := by simp [Slot.of, hfree]
  rw [Fills, draftMembers, Shape.members, ofFault_text]
  simp only [bind, Except.bind, hslot, hset, hopen]
  exact hrest

theorem decode {b : β} (h : Fills shape shape.empty ms r) (hb : shape.build r = .ok b) :
    shape.decode (Value.object ms).draft = .ok b := by
  rw [Value.draft, Shape.decode, h]
  simp only [bind, Except.bind, Shape.finish, hb]
  rfl

end Fills

/-- A decoder of a whole text sees the value that the text spells. -/
theorem decode_spells (d : Decoder α) {v : Value} {s : String} (h : Spells v s.toList) :
    Json.decode d s = d v.draft := by
  rw [Json.decode, read_spells h]
  cases d v.draft with
  | ok a => rfl
  | error e => rfl

end Json

/-! Each record is read member by member, in the order in which it was written. -/

theorem Location.ofJson_draft (l : Location) : ofJson l.toJson.draft = .ok l :=
  Json.Fills.decode
    (.cons rfl rfl (Json.text_draft l.file)
      (.cons rfl rfl (Json.word_draft l.line)
        (.cons rfl rfl (Json.word_draft l.column) (.nil _ _)))) rfl

theorem Severity.ofJson_draft (s : Severity) : ofJson s.toJson.draft = .ok s :=
  Json.variant_draft s.ofName?_name

theorem Diagnostic.ofJson_draft (d : Diagnostic) : ofJson d.toJson.draft = .ok d :=
  Json.Fills.decode
    (.cons rfl rfl (Severity.ofJson_draft d.severity)
      (.cons rfl rfl (Json.text_draft d.message)
        (.cons rfl rfl (Location.ofJson_draft d.location) (.nil _ _)))) rfl

theorem Options.ofJson_draft (o : Options) : ofJson o.toJson.draft = .ok o :=
  Json.Fills.decode (.cons rfl rfl (Json.bool_draft o.generate) (.nil _ _)) rfl

theorem FieldDecl.ofJson_draft (f : FieldDecl) : ofJson f.toJson.draft = .ok f :=
  Json.Fills.decode
    (.cons rfl rfl (Json.text_draft f.name)
      (.cons rfl rfl (Json.text_draft f.typeName)
        (.cons rfl rfl (Json.word_draft f.indirection)
          (.cons rfl rfl (Location.ofJson_draft f.location) (.nil _ _))))) rfl

theorem StructEntry.ofJson_draft (e : StructEntry) : ofJson e.toJson.draft = .ok e :=
  Json.Fills.decode
    (.cons rfl rfl (Json.text_draft e.name)
      (.cons rfl rfl (Json.list_draft Json.text_draft e.attributes)
        (.cons rfl rfl (Options.ofJson_draft e.options)
          (.cons rfl rfl (Location.ofJson_draft e.location)
            (.cons rfl rfl (Json.list_draft FieldDecl.ofJson_draft e.fields) (.nil _ _)))))) rfl

namespace DescriptorFile

theorem ofJson_draft (f : DescriptorFile) : ofJson f.toJson.draft = .ok f :=
  Json.Fills.decode
    (.cons rfl rfl (Json.optional_draft f.unit)
      (.cons rfl rfl (Json.list_draft Diagnostic.ofJson_draft f.diagnostics)
        (.cons rfl rfl (Json.list_draft StructEntry.ofJson_draft f.structs) (.nil _ _)))) rfl

theorem parseJson_of_spells {f : DescriptorFile} {s : String}
    (h : Json.Spells f.toJson s.toList) : parseJson s = .ok f := by
  rw [parseJson, Json.decode_spells ofJson h, ofJson_draft]

/-- A descriptor file comes back from its JSON text, in the layout it is written in and in every
other one. -/
theorem parseJson_renderJson (f : DescriptorFile) :
    parseJson f.renderJson = .ok f ∧
    (∀ s : String, Json.Spells f.toJson s.toList → parseJson s = .ok f) ∧
    ∀ fallback, (parseJson f.renderJson).map (·.toUnit fallback) = .ok (f.toUnit fallback) := by
  have hwritten : parseJson f.renderJson = .ok f :=
    parseJson_of_spells (Json.spells_render f.toJson)
  refine ⟨hwritten, fun s => parseJson_of_spells, ?_⟩
  intro fallback
  rw [hwritten]
  rfl

end DescriptorFile

end Inspector
