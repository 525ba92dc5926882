import Inspector.Proofs.Expansion
import Inspector.Proofs.PathOrder

/-! The paths that a list of inputs stands for. Every input is expanded by itself, the expansions
stand in the order of the inputs, and of several spellings of one path the first stays. The first
input that cannot be expanded is the one that is reported. -/
namespace Inspector.Glob

open Inspector.Log (Traced)
open Inspector.Log.Traced (bind_ok bind_error ok_of_bind_ok error_of_bind_error)

variable {t : Tree} {input : String} {inputs paths : List String} {e : Error}

def Split.found (s : Split) (p : Pattern) (files : List (List String)) : List String :=
  (files.filter fun route => p.accepts (relative route)).map fun route =>
    Path.join s.base (String.ofList (relative route))

/-- What a single input stands for: a path for itself, and a pattern for the files it takes, in
increasing order and each of them once. -/
inductive Expands (t : Tree) : String → List String → Prop where
  | literal {input : String} (h : isPattern input = false) : Expands t input [input]
  | pattern {input : String} {p : Pattern} {files : List (List String)} {paths : List String}
      (h : isPattern input = true) (hp : Pattern.parse? (Split.ofPattern input).rest = some p)
      (hwalk : t.filesBelow (Split.ofPattern input).root (Split.ofPattern input).depth = .ok files)
      (hsome : ∃ route ∈ files, p.accepts (relative route) = true)
      (hsorted : paths.Pairwise Path.Before)
      (hpaths : ∀ path, path ∈ paths ↔
        ((Split.ofPattern input).found p files).find? (Path.same path) = some path) :
      Expands t input paths

inductive Fails (t : Tree) : String → Error → Prop where
  | unreadable {input : String} (h : isPattern input = true)
      (hp : Pattern.parse? (Split.ofPattern input).rest = none) : Fails t input (.invalid input)
  | fault {input : String} {p : Pattern} {fault : Tree.WalkFault} (h : isPattern input = true)
      (hp : Pattern.parse? (Split.ofPattern input).rest = some p)
      (hwalk : t.filesBelow (Split.ofPattern input).root (Split.ofPattern input).depth =
        .error fault) :
      Fails t input (.walk (Split.ofPattern input).root fault)
  | unmatched {input : String} {p : Pattern} {files : List (List String)}
      (h : isPattern input = true) (hp : Pattern.parse? (Split.ofPattern input).rest = some p)
      (hwalk : t.filesBelow (Split.ofPattern input).root (Split.ofPattern input).depth = .ok files)
      (hnone : ∀ route ∈ files, p.accepts (relative route) = false) :
      Fails t input (.noMatches input)

theorem Split.matches_eq (s : Split) (p : Pattern) (files : List (List String)) :
    s.matches p files = Path.sorted (s.found p files) := by
  rw [Split.matches, List.filter_map, List.map_map]
  rfl

theorem Split.matches_eq_nil_iff {s : Split} {p : Pattern} {files : List (List String)} :
    s.matches p files = [] ↔ ∀ route ∈ files, p.accepts (relative route) = false := by
  rw [matches_eq, Path.sorted_eq_nil_iff, found, List.map_eq_nil_iff, List.filter_eq_nil_iff]
  simp

theorem result_of_expands (h : Expands t input paths) :
    (expandInput t input).result = .ok paths := by
  cases h with
  | literal h =>
    rw [expandInput, if_neg (by simp [h])]
    rfl
  | @pattern p files _ h hp hwalk hsome hsorted hpaths =>
    have heq : paths = (Split.ofPattern input).matches p files := by
      rw [Split.matches_eq, Path.eq_sorted_iff]
      exact ⟨hsorted, hpaths⟩
    have hne : (Split.ofPattern input).matches p files ≠ [] := by
      intro hnil
      obtain ⟨route, hroute, haccepts⟩ := hsome
      rw [Split.matches_eq_nil_iff.mp hnil route hroute] at haccepts
      cases haccepts
    rw [expandInput, if_pos h, expandPattern, ← Split.ofPattern]
    simp [hp, hwalk, hne, heq, Bind.bind, Traced.bind, Traced.emit, pure]

theorem result_of_fails (h : Fails t input e) : (expandInput t input).result = .error e := by
  cases h with
  | unreadable h hp =>
    rw [expandInput, if_pos h, expandPattern, ← Split.ofPattern]
    simp only [hp]
    rfl
  | fault h hp hwalk =>
    rw [expandInput, if_pos h, expandPattern, ← Split.ofPattern]
    simp only [hp, hwalk]
    rfl
  | @unmatched p files h hp hwalk hnone =>
    have hnil : (Split.ofPattern input).matches p files = [] := Split.matches_eq_nil_iff.mpr hnone
    rw [expandInput, if_pos h, expandPattern, ← Split.ofPattern]
    simp [hp, hwalk, hnil, Bind.bind, Traced.bind, Traced.emit, throw]

theorem expands_or_fails (t : Tree) (input : String) :
    (∃ paths, Expands t input paths) ∨ ∃ e, Fails t input e := by
  cases h : isPattern input with
  | false => exact Or.inl ⟨_, .literal h⟩
  | true =>
    cases hp : Pattern.parse? (Split.ofPattern input).rest with
    | none => exact Or.inr ⟨_, .unreadable h hp⟩
    | some p =>
      cases hwalk : t.filesBelow (Split.ofPattern input).root (Split.ofPattern input).depth with
      | error fault => exact Or.inr ⟨_, .fault h hp hwalk⟩
      | ok files =>
        by_cases hsome : ∃ route ∈ files, p.accepts (relative route) = true
        · exact Or.inl ⟨_, .pattern h hp hwalk hsome (Path.pairwise_sorted _)
            fun _ => Path.mem_sorted_iff⟩
        · exact Or.inr ⟨_, .unmatched h hp hwalk (by simpa using hsome)⟩

theorem expandInput_ok_iff : (expandInput t input).result = .ok paths ↔ Expands t input paths := by
  refine ⟨?_, result_of_expands⟩
  intro h
  obtain ⟨paths', h'⟩ | ⟨e, h'⟩ := expands_or_fails t input
  · rw [result_of_expands h'] at h
    exact Except.ok.inj h ▸ h'
  · rw [result_of_fails h'] at h
    cases h

theorem expandInput_error_iff : (expandInput t input).result = .error e ↔ Fails t input e := by
  refine ⟨?_, result_of_fails⟩
  intro h
  obtain ⟨paths, h'⟩ | ⟨e', h'⟩ := expands_or_fails t input
  · rw [result_of_expands h'] at h
    cases h
  · rw [result_of_fails h'] at h
    exact Except.error.inj h ▸ h'

theorem expandEach_ok_iff : (expandEach t inputs).result = .ok paths ↔
    ∃ lists, List.Forall₂ (Expands t) inputs lists ∧ lists.flatten = paths := by
  induction inputs generalizing paths with
  | nil => simp [expandEach, pure]
  | cons input inputs ih =>
    constructor
    · intro h
      obtain ⟨own, hown, h⟩ := ok_of_bind_ok h
      obtain ⟨others, hothers, h⟩ := ok_of_bind_ok h
      obtain rfl : own ++ others = paths := Except.ok.inj h
      obtain ⟨lists, hlists, rfl⟩ := ih.mp hothers
      exact ⟨own :: lists, .cons (expandInput_ok_iff.mp hown) hlists, List.flatten_cons⟩
    · rintro ⟨_, hlists, rfl⟩
      cases hlists with
      | cons hown hlists =>
        rw [expandEach, bind_ok (expandInput_ok_iff.mpr hown), bind_ok (ih.mpr ⟨_, hlists, rfl⟩)]
        rfl

theorem expandEach_error_iff : (expandEach t inputs).result = .error e ↔
    ∃ before input after, inputs = before ++ input :: after ∧
      (∀ i ∈ before, ∃ paths, Expands t i paths) ∧ Fails t input e := by
  induction inputs with
  | nil => simp [expandEach, pure]
  | cons input inputs ih =>
    constructor
    · intro h
      obtain h | ⟨own, hown, h⟩ := error_of_bind_error h
      · exact ⟨[], input, inputs, rfl, by simp, expandInput_error_iff.mp h⟩
      · obtain h | ⟨others, _, h⟩ := error_of_bind_error h
        · obtain ⟨before, i, after, rfl, hbefore, hfails⟩ := ih.mp h
          have hown := expandInput_ok_iff.mp hown
          exact ⟨input :: before, i, after, rfl,
            List.forall_mem_cons.mpr ⟨⟨own, hown⟩, hbefore⟩, hfails⟩
        · cases h
    · rintro ⟨before, i, after, hcut, hbefore, hfails⟩
      cases before with
      | nil =>
        obtain ⟨rfl, rfl⟩ := List.cons.inj hcut
        rw [expandEach, bind_error (expandInput_error_iff.mpr hfails)]
      | cons j before =>
        obtain ⟨rfl, rfl⟩ := List.cons.inj hcut
        obtain ⟨⟨own, hown⟩, hbefore⟩ := List.forall_mem_cons.mp hbefore
        rw [expandEach, bind_ok (expandInput_ok_iff.mpr hown),
          bind_error (ih.mpr ⟨before, i, after, rfl, hbefore, hfails⟩)]

theorem not_fails_iff : (∀ e, ¬ Fails t input e) ↔ ∃ paths, Expands t input paths := by
  constructor
  · intro h
    obtain hok | ⟨e, hfails⟩ := expands_or_fails t input
    · exact hok
    · exact absurd hfails (h e)
  · rintro ⟨paths, hok⟩ e hfails
    have herror := result_of_fails hfails
    rw [result_of_expands hok] at herror
    cases herror

theorem expand_error_iff : (expand t inputs).result = .error e ↔
    (expandEach t inputs).result = .error e := by
  constructor
  · intro h
    obtain h | ⟨paths, _, h⟩ := error_of_bind_error h
    · exact h
    · cases h
  · intro h
    rw [expand, bind_error h]

theorem expand_ok_iff : (expand t inputs).result = .ok paths ↔
    ∃ all, (expandEach t inputs).result = .ok all ∧ Path.dedup all = paths := by
  constructor
  · intro h
    obtain ⟨all, hall, h⟩ := ok_of_bind_ok h
    exact ⟨all, hall, Except.ok.inj h⟩
  · rintro ⟨all, hall, rfl⟩
    rw [expand, bind_ok hall]
    rfl

theorem unsegments_eq_intercalate (parts : List (List Char)) :
    Path.unsegments parts = ['/'].intercalate parts := by
  induction parts with
  | nil => rfl
  | cons part parts ih =>
    cases parts with
    | nil => rw [Path.unsegments, List.intercalate_singleton]
    | cons next parts =>
      rw [Path.unsegments, ih, List.intercalate_cons_cons, List.append_assoc,
        List.singleton_append]

theorem relative_eq (route : List String) : relative route =
    ("/".intercalate route).toList.map fun c => if c = '\\' then '/' else c := by
  rw [relative, unsegments_eq_intercalate, String.toList_intercalate]
  rfl

/-- The paths of a list of inputs are those of each input, one after the other, less the paths that
are equal to an earlier one. There are none just if some input fails, and then the first such input
is what is reported. A pattern sees the names of a file with slashes between them and with every
backslash turned into one. -/
theorem expand_keeps_firsts (t : Tree) (inputs : List String) :
    (∀ route, relative route =
      ("/".intercalate route).toList.map fun c => if c = '\\' then '/' else c) ∧
    (∀ paths, (expand t inputs).result = .ok paths ↔
      ∃ lists, List.Forall₂ (Expands t) inputs lists ∧ Path.Firsts lists.flatten paths) ∧
    (∀ e, (expand t inputs).result = .error e ↔
      ∃ before input after, inputs = before ++ input :: after ∧
        (∀ i ∈ before, ∀ e', ¬ Fails t i e') ∧ Fails t input e) ∧
    ((∃ e, (expand t inputs).result = .error e) ↔ ∃ input ∈ inputs, ∃ e, Fails t input e) ∧
    ∀ paths, (expand t inputs).result = .ok paths →
      paths.Pairwise fun p q => Path.same p q = false := by
  refine ⟨relative_eq, ?_, ?_, ?_, ?_⟩
  · intro paths
    simp only [expand_ok_iff, expandEach_ok_iff, Path.firsts_iff]
    constructor
    · rintro ⟨_, ⟨lists, hlists, rfl⟩, rfl⟩
      exact ⟨lists, hlists, rfl⟩
    · rintro ⟨lists, hlists, rfl⟩
      exact ⟨_, ⟨lists, hlists, rfl⟩, rfl⟩
  · intro e
    simp only [expand_error_iff, expandEach_error_iff, not_fails_iff]
  · constructor
    · rintro ⟨e, h⟩
      obtain ⟨before, input, after, rfl, _, hfails⟩ :=
        expandEach_error_iff.mp (expand_error_iff.mp h)
      exact ⟨input, by simp, e, hfails⟩
    · rintro ⟨input, hinput, e, hfails⟩
      cases hr : (expand t inputs).result with
      | error e => exact ⟨e, rfl⟩
      | ok paths =>
        obtain ⟨all, hall, _⟩ := expand_ok_iff.mp hr
        obtain ⟨lists, hlists, _⟩ := expandEach_ok_iff.mp hall
        obtain ⟨own, _, hown⟩ := Tree.exists_left_of_forall₂ hlists.flip hinput
        exact absurd hfails (not_fails_iff.mpr ⟨own, hown⟩ e)
  · intro paths h
    obtain ⟨all, _, rfl⟩ := expand_ok_iff.mp h
    exact Path.pairwise_dedup all

example : (expand { entries := [(["a.yaml"], .file (.text ""))] }
    ["a.yaml/", "*.yaml", "./a.yaml", "?.yaml"]).result = .ok ["a.yaml/", "./a.yaml"] := by
  decide +kernel

end Inspector.Glob
