import Inspector.Proofs.Output

/-! Two tables that give the same files. The files of a struct show its name and its fields, and
the table only as far as it tells which of the named structs are there. Where a struct is declared
and at which place of the table it stands does not show. -/
namespace Inspector

open scoped List
open Relation (ReflTransGen)

variable {t t' : Table} {s s' : Struct} {settings : Settings} {b : Backend}

def Field.SeenAlike (t t' : Table) (f : Field) : Prop :=
  ∀ d, f.type = .struct d → t.contains d = t'.contains d

theorem Printer.fieldLines_congr {f : Field} (h : f.SeenAlike t t') :
    fieldLines t f = fieldLines t' f := by
  unfold fieldLines valueLines
  cases hf : f.type with
  | primitive p => rfl
  | struct d => simp only [h d hf]
  | unknown u => rfl

theorem Editor.fieldLines_congr {f : Field} (h : f.SeenAlike t t') :
    fieldLines t f = fieldLines t' f := by
  unfold fieldLines
  cases hf : f.type with
  | primitive p => rfl
  | struct d => simp only [h d hf]
  | unknown u => rfl

/-- The text of a struct shows its name and its fields. -/
theorem Backend.text_congr (hb : b ∈ settings.chosen) (k : FileKind) (hname : s.name = s'.name)
    (hfields : s.fields = s'.fields) (hseen : ∀ f ∈ s.fields, f.SeenAlike t t') :
    b.text k s t = b.text k s' t' := by
  obtain rfl | rfl := mem_backends hb
  · cases k with
    | header => simp only [text, printer, hname]
    | body =>
      have hlines : s.fields.flatMap (Printer.fieldLines t) =
          s'.fields.flatMap (Printer.fieldLines t') := by
        rw [← hfields]
        exact List.flatMap_congr fun f hf => Printer.fieldLines_congr (hseen f hf)
      simp only [text, printer, Printer.bodyLines, hlines, hname]
  · cases k with
    | header => simp only [text, editor, hname]
    | body =>
      have hlines : s.fields.flatMap (Editor.fieldLines t) =
          s'.fields.flatMap (Editor.fieldLines t') := by
        rw [← hfields]
        exact List.flatMap_congr fun f hf => Editor.fieldLines_congr (hseen f hf)
      simp only [text, editor, Editor.bodyLines, hlines, hname]

theorem Table.dependencies_congr (hfields : s.fields = s'.fields)
    (hseen : ∀ f ∈ s.fields, f.SeenAlike t t') : t.dependencies s = t'.dependencies s' := by
  have hfilter : (s.fields.filterMap (·.type.target?)).filter t.contains =
      (s.fields.filterMap (·.type.target?)).filter t'.contains := by
    apply List.filter_congr
    intro d hd
    obtain ⟨f, hf, hty⟩ := List.mem_filterMap.mp hd
    apply hseen f hf
    cases hc : f.type <;> simp_all [TypeClass.target?]
  rw [dependencies, hfilter, hfields, dependencies]

theorem Backend.artifact_congr (hb : b ∈ settings.chosen) (k : FileKind) (hname : s.name = s'.name)
    (hfields : s.fields = s'.fields) (hseen : ∀ f ∈ s.fields, f.SeenAlike t t') :
    b.artifact k t s = b.artifact k t' s' := by
  simp only [artifact, hname, Table.dependencies_congr hfields hseen,
    text_congr hb k hname hfields hseen]

structure Struct.Alike (s s' : Struct) : Prop where
  name : s.name = s'.name
  fields : s.fields = s'.fields
  options : s.options = s'.options

namespace Table

theorem Wanted.trans {m n : String} (hm : t.Wanted m) (h : ReflTransGen t.Depends m n) :
    t.Wanted n := by
  obtain ⟨root, hroot, hr⟩ := hm
  exact ⟨root, hroot, hr.trans h⟩

theorem wanted_of_marked (h : s ∈ t.marked) : t.Wanted s.name := ⟨s, h, .refl⟩

/-- The tables have the same structs with the same fields. Their order, where they are declared and
which of them are marked may differ. -/
structure SameFields (t t' : Table) : Prop where
  forth : ∀ s ∈ t.entries, ∃ s' ∈ t'.entries, s.name = s'.name ∧ s.fields = s'.fields
  back : ∀ s' ∈ t'.entries, ∃ s ∈ t.entries, s'.name = s.name ∧ s'.fields = s.fields

namespace SameFields

theorem symm (h : SameFields t t') : SameFields t' t := ⟨h.back, h.forth⟩

theorem contains_of (h : SameFields t t') {n : String} (hn : t.contains n = true) :
    t'.contains n = true := by
  obtain ⟨s, hs, rfl⟩ := (t.contains_iff n).mp hn
  obtain ⟨s', hs', hname, _⟩ := h.forth s hs
  exact (t'.contains_iff _).mpr ⟨s', hs', hname.symm⟩

theorem contains_eq (h : SameFields t t') (n : String) : t.contains n = t'.contains n :=
  Bool.eq_iff_iff.mpr ⟨h.contains_of, h.symm.contains_of⟩

theorem seenAlike (h : SameFields t t') (f : Field) : f.SeenAlike t t' :=
  fun d _ => h.contains_eq d

theorem depends (h : SameFields t t') {a c : String} (hd : t.Depends a c) : t'.Depends a c := by
  obtain ⟨s, hs, hc⟩ := hd
  obtain ⟨hmem, rfl⟩ := entry_of_get? hs
  obtain ⟨s', hs', hname, hfields⟩ := h.forth s hmem
  have hdeps := dependencies_congr hfields fun f _ => h.seenAlike f
  rw [hname]
  exact ⟨s', get?_entry hs', hdeps ▸ hc⟩

/-- The graphs are the same, so what is wanted hangs on the marked structs alone. -/
theorem wanted (h : SameFields t t') (hroots : ∀ m ∈ t.marked, t'.Wanted m.name) {n : String}
    (hn : t.Wanted n) : t'.Wanted n := by
  obtain ⟨m, hm, hr⟩ := hn
  exact (hroots m hm).trans (ReflTransGen.mono (fun _ _ hd => h.depends hd) _ _ hr)

theorem mem_generateArtifacts_of (h : SameFields t t') (hroots : ∀ m ∈ t.marked, t'.Wanted m.name)
    {a : Artifact} (ha : a ∈ generateArtifacts t settings.chosen) :
    a ∈ generateArtifacts t' settings.chosen := by
  obtain ⟨b, hb, s, hs, k, rfl⟩ := mem_generateArtifacts.mp ha
  obtain ⟨hmem, hwanted⟩ := mem_emitted.mp hs
  obtain ⟨s', hs', hname, hfields⟩ := h.forth s hmem
  refine mem_generateArtifacts.mpr ⟨b, hb, s', ?_, k, ?_⟩
  · exact mem_emitted.mpr ⟨hs', hname ▸ h.wanted hroots hwanted⟩
  · exact Backend.artifact_congr hb k hname hfields fun f _ => h.seenAlike f

theorem generateArtifacts_perm (h : SameFields t t') (hroots : ∀ m ∈ t.marked, t'.Wanted m.name)
    (hroots' : ∀ m ∈ t'.marked, t.Wanted m.name) (settings : Settings) :
    generateArtifacts t settings.chosen ~ generateArtifacts t' settings.chosen := by
  rw [List.perm_ext_iff_of_nodup (List.Nodup.of_map _ (nodup_names_generateArtifacts t settings))
    (List.Nodup.of_map _ (nodup_names_generateArtifacts t' settings))]
  intro a
  exact ⟨h.mem_generateArtifacts_of hroots, h.symm.mem_generateArtifacts_of hroots'⟩

end SameFields

structure Agrees (t t' : Table) : Prop where
  forth : ∀ s ∈ t.entries, ∃ s' ∈ t'.entries, s.Alike s'
  back : ∀ s' ∈ t'.entries, ∃ s ∈ t.entries, s'.Alike s

namespace Agrees

theorem symm (h : Agrees t t') : Agrees t' t := ⟨h.back, h.forth⟩

theorem sameFields (h : Agrees t t') : SameFields t t' where
  forth s hs := (h.forth s hs).imp fun _ hs' => ⟨hs'.1, hs'.2.name, hs'.2.fields⟩
  back s hs := (h.back s hs).imp fun _ hs' => ⟨hs'.1, hs'.2.name, hs'.2.fields⟩

theorem wanted_of_marked (h : Agrees t t') : ∀ m ∈ t.marked, t'.Wanted m.name := by
  intro m hm
  obtain ⟨hmem, hmark⟩ := List.mem_filter.mp hm
  obtain ⟨m', hm', ho⟩ := h.forth m hmem
  rw [Struct.isMarked, ho.options] at hmark
  rw [ho.name]
  exact Table.wanted_of_marked (List.mem_filter.mpr ⟨hm', hmark⟩)

/-- Tables that agree give the same files, in some order. -/
theorem generateArtifacts_perm (h : Agrees t t') (settings : Settings) :
    generateArtifacts t settings.chosen ~ generateArtifacts t' settings.chosen :=
  h.sameFields.generateArtifacts_perm h.wanted_of_marked h.symm.wanted_of_marked settings

end Agrees

end Table

end Inspector
