import Inspector.Proofs.Resolution
import Inspector.Proofs.Segments

/-! Paths put together from names. Behind the path of a directory, names that are spelled out lead
to the place where they lead one by one. -/
namespace Inspector.Tree

open Inspector.Path (segments unsegments)

variable {t : Tree} {base : String} {names : List String} {q : Place}

def spell (names : List String) : String :=
  String.ofList (unsegments (names.map String.toList))

theorem segments_spell (hne : names ≠ []) (hnames : ∀ n ∈ names, IsName n) :
    segments (spell names).toList = names.map String.toList := by
  rw [spell, String.toList_ofList]
  apply Path.segments_unsegments
  · simpa using hne
  · intro s hs
    obtain ⟨n, hn, rfl⟩ := List.mem_map.mp hs
    exact (hnames n hn).2.1

theorem nil_not_mem_segments_spell (hne : names ≠ []) (hnames : ∀ n ∈ names, IsName n) :
    [] ∉ segments (spell names).toList := by
  rw [segments_spell hne hnames]
  intro h
  obtain ⟨n, hn, he⟩ := List.mem_map.mp h
  exact (hnames n hn).1 (String.toList_eq_nil_iff.mp he)

theorem not_isAbsolute_spell (hne : names ≠ []) (hnames : ∀ n ∈ names, IsName n) :
    Path.isAbsolute (spell names) = false := by
  rw [Path.isAbsolute, beq_eq_false_iff_ne]
  exact fun h => nil_not_mem_segments_spell hne hnames (Path.nil_mem_segments_of_head h)

theorem spell_ne_nil (hne : names ≠ []) (hnames : ∀ n ∈ names, IsName n) :
    (spell names).toList ≠ [] := by
  intro h
  have hnil := nil_not_mem_segments_spell hne hnames
  rw [h] at hnil
  exact hnil List.mem_cons_self

/-- The steps of a path without a last slash are its names. -/
theorem steps_of_last {p : String} (h : p.toList.getLast? ≠ some '/') :
    steps p = ((segments p.toList).filter (· ≠ [])).map String.ofList := by
  rw [steps, if_neg h, List.append_nil]

theorem filter_segments_spell (hne : names ≠ []) (hnames : ∀ n ∈ names, IsName n) :
    ((segments (spell names).toList).filter (· ≠ [])).map String.ofList = names := by
  have hkeep : ∀ s ∈ segments (spell names).toList, decide (s ≠ []) = true := by
    intro s hs
    exact decide_eq_true fun he => nil_not_mem_segments_spell hne hnames (he ▸ hs)
  rw [List.filter_eq_self.mpr hkeep, segments_spell hne hnames, List.map_map]
  simp

/-- A path below `base` takes the steps of `base` and then the names. A last slash of `base` no
longer asks for a directory. -/
theorem steps_join (base : String) (hne : names ≠ []) (hnames : ∀ n ∈ names, IsName n) :
    ∃ ss, steps (Path.join base (spell names)) = ss ++ names ∧
      (steps base = ss ∨ steps base = ss ++ ["."]) := by
  have hrel := not_isAbsolute_spell hne hnames
  have hlast : (spell names).toList.getLast? ≠ some '/' := fun h =>
    nil_not_mem_segments_spell hne hnames (Path.nil_mem_segments_of_last h)
  have hnil := spell_ne_nil hne hnames
  have hown := filter_segments_spell hne hnames
  refine ⟨((segments base.toList).filter (· ≠ [])).map String.ofList, ?_, ?_⟩
  · have hjoin : (Path.join base (spell names)).toList.getLast? ≠ some '/' := by
      obtain ⟨u, hu, _⟩ := Path.toList_join base hrel
      rw [List.getLast?_eq_some_getLast hnil] at hlast
      rw [hu, List.getLast?_append, List.getLast?_eq_some_getLast hnil, Option.some_or]
      exact hlast
    rw [steps_of_last hjoin, Path.filter_segments_join base hrel, List.map_append, hown]
  · unfold steps
    split
    · exact Or.inr rfl
    · exact Or.inl (List.append_nil _)

def rootOf (dir : String) : String := if dir.isEmpty then "." else dir

/-- The path below `base` and the path of `base` itself take the same steps, but for a dot that the
second may have behind them. -/
theorem locate_join_eq (t : Tree) (base : String) (hne : names ≠ [])
    (hnames : ∀ n ∈ names, IsName n) :
    ∃ start ss, t.locate (Path.join base (spell names)) = t.resolve maxLinks start (ss ++ names) ∧
      ((∀ a, t.locateSteps (rootOf base) (steps (rootOf base) ++ a) =
          t.resolve maxLinks start (ss ++ a)) ∨
        ∀ a, t.locateSteps (rootOf base) (steps (rootOf base) ++ a) =
          t.resolve maxLinks start (ss ++ "." :: a)) := by
  have hrel := not_isAbsolute_spell hne hnames
  have hempty : ¬ (Path.join base (spell names)).isEmpty = true := by
    obtain ⟨u, hu, _⟩ := Path.toList_join base hrel
    simp [← String.toList_eq_nil_iff, hu, spell_ne_nil hne hnames]
  obtain ⟨ss, hss, hsteps⟩ := steps_join base hne hnames
  by_cases hbase : base.isEmpty = true
  · obtain rfl : base = "" := by simpa using hbase
    obtain rfl : ss = [] := by
      obtain hsteps | hsteps := hsteps
      · exact hsteps.symm
      · simp [steps, segments] at hsteps
    have hjoin : ¬ Path.isAbsolute (Path.join "" (spell names)) = true := by
      simp [Path.join, hrel]
    refine ⟨t.here, [], ?_, Or.inr fun a => rfl⟩
    rw [locate, if_neg hempty, hss, locateSteps, if_neg hjoin]
  · have hchars : base.toList ≠ [] := by simpa [← String.toList_eq_nil_iff] using hbase
    rw [rootOf, if_neg hbase]
    refine ⟨if Path.isAbsolute base then [] else t.here, ss, ?_, ?_⟩
    · rw [locate, if_neg hempty, hss, locateSteps, Path.isAbsolute_join hchars hrel]
    · obtain hsteps | hsteps := hsteps
      · exact Or.inl fun a => by rw [hsteps, locateSteps]
      · refine Or.inr fun a => ?_
        rw [hsteps, locateSteps, List.append_assoc, List.singleton_append]

/-- The path below `base` leads where the names lead from the directory at `base`. -/
theorem locate_join (hne : names ≠ []) (hnames : ∀ n ∈ names, IsName n)
    (h : t.Leads (rootOf base) names q) :
    t.locate (Path.join base (spell names)) = .ok (.found q) := by
  obtain ⟨start, ss, hlocate, hsame | hdot⟩ := locate_join_eq t base hne hnames
  · rw [hlocate, ← hsame]
    exact h
  · rw [Leads, hdot] at h
    rw [hlocate]
    exact resolve_drop_current h

end Inspector.Tree
