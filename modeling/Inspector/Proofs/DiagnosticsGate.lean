import Inspector.Proofs.Loading

/-! What the diagnostics of a descriptor file do to its loading. All of them are reported, in the
order of the file and before anything else. Then the file is refused if one of them is at or above
the threshold, and the refusal speaks of the earliest one. -/
namespace Inspector

open Inspector.Log (Event)
open Inspector.Log.Traced (bind_ok bind_error)

theorem Severity.lt_of_lt_of_le {a b c : Severity} (hab : a < b) (hbc : b ≤ c) : a < c :=
  Nat.lt_of_lt_of_le hab hbc

namespace Load

def Earliest (threshold : Severity) (ds : List Diagnostic) (first : Diagnostic) : Prop :=
  ∃ before after, ds = before ++ first :: after ∧ (∀ d ∈ before, d.severity < threshold) ∧
    threshold ≤ first.severity

def countSevere (threshold : Severity) (ds : List Diagnostic) : Nat :=
  ds.countP fun d => threshold ≤ d.severity

def loaded (u : SourceUnit) : Event where
  level := .debug
  message := "loaded descriptor unit"
  fields := [("unit", .text u.name), ("structs", .count u.structs.length)]

variable {threshold : Severity} {path : String} {ds : List Diagnostic} {first : Diagnostic}

theorem severe_eq_nil_iff : severe threshold ds = [] ↔ ∀ d ∈ ds, d.severity < threshold := by
  simp [severe, List.filter_eq_nil_iff, Severity.not_le]

theorem earliest_iff :
    Earliest threshold ds first ↔ ∃ more, severe threshold ds = first :: more := by
  simp only [Earliest, severe, List.filter_eq_cons_iff, decide_eq_true_eq, Severity.not_le]
  constructor
  · rintro ⟨before, after, hds, hbefore, hfirst⟩
    exact ⟨_, before, after, hds, hbefore, hfirst, rfl⟩
  · rintro ⟨_, before, after, hds, hbefore, hfirst, -⟩
    exact ⟨before, after, hds, hbefore, hfirst⟩

theorem below_or_earliest (threshold : Severity) (ds : List Diagnostic) :
    (∀ d ∈ ds, d.severity < threshold) ∨ ∃ first, Earliest threshold ds first := by
  cases h : severe threshold ds with
  | nil => exact Or.inl (severe_eq_nil_iff.mp h)
  | cons first more => exact Or.inr ⟨first, earliest_iff.mpr ⟨more, h⟩⟩

theorem Earliest.not_below (h : Earliest threshold ds first) :
    ¬ ∀ d ∈ ds, d.severity < threshold := by
  intro hbelow
  obtain ⟨more, hmore⟩ := earliest_iff.mp h
  rw [severe_eq_nil_iff.mpr hbelow] at hmore
  cases hmore

theorem Earliest.unique {other : Diagnostic} (h : Earliest threshold ds first)
    (h' : Earliest threshold ds other) : first = other := by
  obtain ⟨more, hmore⟩ := earliest_iff.mp h
  obtain ⟨more', hmore'⟩ := earliest_iff.mp h'
  exact (List.cons.inj (hmore.symm.trans hmore')).1

theorem gate_of_below (path : String) (h : ∀ d ∈ ds, d.severity < threshold) :
    gate threshold path ds = ⟨.ok (), ds.map (·.event path)⟩ := by
  unfold gate
  rw [severe_eq_nil_iff.mpr h, bind_ok rfl]
  exact congrArg _ (List.append_nil _)

theorem gate_of_earliest (path : String) (h : Earliest threshold ds first) :
    gate threshold path ds =
      ⟨.error (.diagnostics path threshold (countSevere threshold ds) first),
        ds.map (·.event path)⟩ := by
  obtain ⟨more, hmore⟩ := earliest_iff.mp h
  have hcount : countSevere threshold ds = more.length + 1 := by
    rw [countSevere, List.countP_eq_length_filter]
    exact congrArg List.length hmore
  unfold gate
  rw [hmore, bind_ok rfl, hcount]
  exact congrArg _ (List.append_nil _)

variable {format : FileFormat} {contents : String} {file : DescriptorFile}

theorem textIn_of_below (h : parse format path contents = .ok file)
    (hbelow : ∀ d ∈ file.diagnostics, d.severity < threshold) :
    textIn format threshold path contents =
      ⟨.ok (file.toUnit path),
        file.diagnostics.map (·.event path) ++ [loaded (file.toUnit path)]⟩ := by
  unfold textIn
  rw [h, bind_ok rfl, gate_of_below path hbelow, bind_ok rfl]
  rfl

theorem textIn_of_earliest (h : parse format path contents = .ok file)
    (hfirst : Earliest threshold file.diagnostics first) :
    textIn format threshold path contents =
      ⟨.error (.diagnostics path threshold (countSevere threshold file.diagnostics) first),
        file.diagnostics.map (·.event path)⟩ := by
  unfold textIn
  rw [h, bind_ok rfl, gate_of_earliest path hfirst, bind_error rfl]
  rfl

theorem level_event (path : String) (d : Diagnostic) : (d.event path).level =
    match d.severity with
    | .ignored => .debug
    | .note => .info
    | .warning => .warn
    | .error => .error
    | .fatal => .error := by
  cases h : d.severity <;> simp [Diagnostic.event, Severity.level, h]

/-- A text that describes a file is loaded exactly if all diagnostics of the file are below the
threshold. Otherwise the failure gives the number of those that are not, and the text of the
earliest. Either way every diagnostic is reported once, in the order of the file and at the level of
its severity, with nothing in front. A text that passes one threshold passes every higher one. -/
theorem textIn_gated (h : parse format path contents = .ok file) (threshold : Severity) :
    [Severity.ignored, .note, .warning, .error, .fatal].Pairwise (· < ·) ∧
    (∀ u, (textIn format threshold path contents).result = .ok u ↔
      u = file.toUnit path ∧ ∀ d ∈ file.diagnostics, d.severity < threshold) ∧
    (∀ e, (textIn format threshold path contents).result = .error e ↔
      ∃ first, Earliest threshold file.diagnostics first ∧
        e = .diagnostics path threshold (countSevere threshold file.diagnostics) first ∧
        e.message = "Failed to parse file '" ++ path ++ "': "
          ++ toString (countSevere threshold file.diagnostics) ++ " diagnostic(s) at or above '"
          ++ threshold.name ++ "', first: " ++ first.text ∧
        first.text = first.location.file ++ ":" ++ toString first.location.line.toNat ++ ":"
          ++ toString first.location.column.toNat ++ ": " ++ first.severity.name ++ ": "
          ++ first.message) ∧
    (∃ after, (textIn format threshold path contents).events =
        file.diagnostics.map (·.event path) ++ after ∧
      after = match (textIn format threshold path contents).result with
        | .ok u => [loaded u]
        | .error _ => []) ∧
    (∀ d ∈ file.diagnostics, (d.event path).message = d.message ∧
      (d.event path).level = match d.severity with
        | .ignored => .debug
        | .note => .info
        | .warning => .warn
        | .error => .error
        | .fatal => .error) ∧
    ∀ higher u, threshold ≤ higher → (textIn format threshold path contents).result = .ok u →
      (textIn format higher path contents).result = .ok u := by
  have horder : [Severity.ignored, .note, .warning, .error, .fatal].Pairwise (· < ·) := by decide
  obtain hbelow | ⟨first, hfirst⟩ := below_or_earliest threshold file.diagnostics
  · rw [textIn_of_below h hbelow]
    refine ⟨horder, ?_, ?_, ⟨_, rfl, rfl⟩, fun d _ => ⟨rfl, level_event path d⟩, ?_⟩
    · intro u
      exact ⟨fun hu => ⟨(Except.ok.inj hu).symm, hbelow⟩, fun hu => congrArg Except.ok hu.1.symm⟩
    · intro e
      constructor
      · intro he
        cases he
      · rintro ⟨first, hfirst, -⟩
        exact absurd hbelow hfirst.not_below
    · intro higher u hle hu
      have hbelow' : ∀ d ∈ file.diagnostics, d.severity < higher :=
        fun d hd => Severity.lt_of_lt_of_le (hbelow d hd) hle
      rw [textIn_of_below h hbelow']
      exact hu
  · rw [textIn_of_earliest h hfirst]
    refine ⟨horder, ?_, ?_, ⟨[], (List.append_nil _).symm, rfl⟩,
      fun d _ => ⟨rfl, level_event path d⟩, ?_⟩
    · intro u
      constructor
      · intro hu
        cases hu
      · rintro ⟨-, hbelow⟩
        exact absurd hbelow hfirst.not_below
    · intro e
      constructor
      · intro he
        cases he
        exact ⟨first, hfirst, rfl, rfl, rfl⟩
      · rintro ⟨first', hfirst', rfl, -⟩
        rw [hfirst.unique hfirst']
    · intro higher u _ hu
      cases hu

def sceneText : String :=
  "structs: [\x7bname: Scene\x7d]\ndiagnostics:\n- \x7bseverity: note, message: old\x7d\n"
    ++ "- \x7bseverity: error, message: bad, location: \x7bfile: a.h, line: 4\x7d\x7d\n"
    ++ "- \x7bseverity: warning, message: odd\x7d\n"

def sceneFile : DescriptorFile where
  structs := [{ name := "Scene" }]
  diagnostics := [{ severity := .note, message := "old" },
    { severity := .error, message := "bad", location := { file := "a.h", line := 4 } },
    { severity := .warning, message := "odd" }]

theorem textIn_gated_scene : parse .yaml "scene" sceneText = .ok sceneFile ∧
    (textIn .yaml .warning "scene" sceneText).result = .error (.diagnostics "scene" .warning 2
      { severity := .error, message := "bad", location := { file := "a.h", line := 4 } }) ∧
    (textIn .yaml .fatal "scene" sceneText).result =
      .ok { name := "scene", structs := [{ name := "Scene" }] } := by
  have hparse : parse .yaml "scene" sceneText = .ok sceneFile := by decide +kernel
  obtain ⟨-, -, hrefused, -⟩ := textIn_gated hparse .warning
  obtain ⟨-, hpassed, -⟩ := textIn_gated hparse .fatal
  refine ⟨hparse, (hrefused _).mpr ⟨_, ?_, rfl, rfl, rfl⟩, (hpassed _).mpr ⟨rfl, by decide⟩⟩
  exact ⟨[{ severity := .note, message := "old" }], [{ severity := .warning, message := "odd" }],
    rfl, by decide, by decide⟩

end Load

end Inspector
