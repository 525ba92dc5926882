import Inspector.Proofs.Expansion
import Inspector.Proofs.Reach

/-! How far `**` reaches. A pattern `**/p` below a directory stands for every file below it whose
own name `p` takes, at any depth. Only one thing hides a file: a line feed in the name of a
directory on the way, which `**` does not take. -/
namespace Inspector

namespace Path

theorem unsegments_append {a b : List (List Char)} (ha : a ≠ []) (hb : b ≠ []) :
    unsegments (a ++ b) = unsegments a ++ '/' :: unsegments b := by
  induction a with
  | nil => exact absurd rfl ha
  | cons s a ih =>
    cases a with
    | nil => exact unsegments_cons s hb
    | cons s' a =>
      have hrest := ih (List.cons_ne_nil s' a)
      rw [List.cons_append, unsegments_cons s (by simp), hrest, unsegments_cons s (by simp),
        List.append_assoc, List.cons_append]

/-- The components of a path that are not about where it starts. -/
theorem filter_components (p : String) :
    (components p).filter (fun c => c ≠ .root ∧ c ≠ .current) =
      (((segments p.toList).filter (· ≠ [])).filter (· ≠ ['.'])).map fun s =>
        if s = ['.', '.'] then Component.parent else .name (String.ofList s) := by
  have hkeep : ∀ c ∈ ((segments p.toList).filter fun s => s ≠ [] ∧ s ≠ ['.']).map (fun s =>
      if s = ['.', '.'] then Component.parent else .name (String.ofList s)),
      decide (c ≠ .root ∧ c ≠ .current) = true := by
    intro c hc
    obtain ⟨s, _, rfl⟩ := List.mem_map.mp hc
    split <;> simp
  have hboth : ((segments p.toList).filter (· ≠ [])).filter (· ≠ ['.']) =
      (segments p.toList).filter fun s => s ≠ [] ∧ s ≠ ['.'] := by
    rw [List.filter_filter]
    congr 1
    funext s
    simp [Bool.and_comm]
  rw [hboth]
  simp only [components]
  split
  · rw [List.filter_cons_of_neg (by simp)]
    exact List.filter_eq_self.mpr hkeep
  · split
    · rw [List.filter_cons_of_neg (by simp)]
      exact List.filter_eq_self.mpr hkeep
    · exact List.filter_eq_self.mpr hkeep

/-- A path stays if no other spelling of it is in the list. -/
theorem mem_dedup {p : String} {ps : List String} (h : p ∈ ps)
    (hone : ∀ q ∈ ps, same q p = true → q = p) : p ∈ dedup ps := by
  induction ps with
  | nil => cases h
  | cons q ps ih =>
    rw [dedup]
    by_cases hq : same q p = true
    · rw [hone q List.mem_cons_self hq]
      exact List.mem_cons_self
    · have hp : p ∈ ps := by
        obtain rfl | hp := List.mem_cons.mp h
        · exact absurd (beq_self_eq_true (components p)) hq
        · exact hp
      have hrest := ih hp fun r hr => hone r (List.mem_cons_of_mem q hr)
      exact List.mem_cons_of_mem q (List.mem_filter.mpr ⟨hrest, by simp [hq]⟩)

theorem mem_sorted {p : String} {ps : List String} (h : p ∈ ps)
    (hone : ∀ q ∈ ps, same q p = true → q = p) : p ∈ sorted ps :=
  mem_dedup (List.mem_mergeSort.mpr h) fun q hq => hone q (List.mem_mergeSort.mp hq)

theorem join_cancel {p q q' : String} (hq : isAbsolute q = false) (hq' : isAbsolute q' = false)
    (h : join p q = join p q') : q = q' := by
  simp only [join, hq, hq', Bool.false_eq_true, if_false] at h
  split at h
  · exact (String.append_right_inj p).mp h
  · exact (String.append_right_inj (p ++ "/")).mp h

/-- Behind a slash stands a relative path as a whole. -/
theorem eq_of_join_eq {p q q' : String} (hq : '/' ∉ q.toList)
    (h : join p q = p ++ "/" ++ q') : q = q' := by
  have habs : isAbsolute q = false := by
    rw [isAbsolute, beq_eq_false_iff_ne]
    exact fun he => hq (List.mem_of_head? he)
  unfold join at h
  rw [if_neg (by simp [habs])] at h
  split at h
  · rw [String.append_assoc, String.append_right_inj] at h
    rw [h] at hq
    simp at hq
  · exact (String.append_right_inj (p ++ "/")).mp h

end Path

namespace Tree

variable {t : Tree} {base : String} {names names' : List String}

/-- Behind the components of a directory come the names below it. -/
theorem filter_components_join (base : String) (hne : names ≠ []) (hnames : ∀ n ∈ names, IsName n) :
    (Path.components (Path.join base (spell names))).filter
        (fun c => c ≠ .root ∧ c ≠ .current) =
      (Path.components base).filter (fun c => c ≠ .root ∧ c ≠ .current) ++
        names.map Path.Component.name := by
  have hfull : (Path.segments (spell names).toList).filter (· ≠ []) = names.map String.toList := by
    rw [List.filter_eq_self.mpr, segments_spell hne hnames]
    intro s hs
    exact decide_eq_true fun he => nil_not_mem_segments_spell hne hnames (he ▸ hs)
  have hdot : (names.map String.toList).filter (· ≠ ['.']) = names.map String.toList := by
    apply List.filter_eq_self.mpr
    intro s hs
    obtain ⟨n, hn, rfl⟩ := List.mem_map.mp hs
    have hproper := (hnames n hn).2.2.1
    simpa [← String.toList_inj] using hproper
  rw [Path.filter_components, Path.filter_segments_join base (not_isAbsolute_spell hne hnames),
    List.filter_append, List.map_append, hfull, hdot, ← Path.filter_components, List.map_map]
  congr 1
  apply List.map_congr_left
  intro n hn
  have hproper := (hnames n hn).2.2.2
  have hdots : n.toList ≠ ['.', '.'] := by simpa [← String.toList_inj] using hproper
  simp [hdots]

/-- Below one directory two paths are the same only if they have the same names. -/
theorem names_eq_of_same (hne : names ≠ []) (hnames : ∀ n ∈ names, IsName n) (hne' : names' ≠ [])
    (hnames' : ∀ n ∈ names', IsName n)
    (h : Path.same (Path.join base (spell names)) (Path.join base (spell names')) = true) :
    names = names' := by
  have hall := congrArg (List.filter fun c => c ≠ .root ∧ c ≠ .current) (eq_of_beq h)
  rw [filter_components_join base hne hnames, filter_components_join base hne' hnames'] at hall
  have hmap := List.append_cancel_left hall
  exact List.map_injective_iff.mpr (fun _ _ he => Path.Component.name.inj he) hmap

/-- If no entry has a backslash in its name, neither has the path of a directory. -/
theorem no_backslash_of_isFolder (hnames : ∀ x ∈ t.entries, ∀ n ∈ x.1, '\\' ∉ n.toList)
    (h : t.isFolder base = true) : '\\' ∉ base.toList := by
  intro hmem
  rw [← Path.unsegments_segments base.toList] at hmem
  obtain hslash | ⟨s, hs, hc⟩ := Path.mem_unsegments hmem
  · cases hslash
  · have hstep : String.ofList s ∈ steps base := by
      refine List.mem_append_left _ (List.mem_map_of_mem (List.mem_filter.mpr ⟨hs, ?_⟩))
      exact decide_eq_true (List.ne_nil_of_mem hc)
    have hproper : String.ofList s ≠ "." ∧ String.ofList s ≠ ".." := by
      constructor
      · intro he
        have hdot : s = ['.'] := by simpa [← String.toList_inj] using he
        simp [hdot] at hc
      · intro he
        have hdots : s = ['.', '.'] := by simpa [← String.toList_inj] using he
        simp [hdots] at hc
    unfold isFolder at h
    split at h
    · next q hloc =>
      have hleads := leads_of_locate hloc
      rw [Leads, List.append_nil] at hleads
      obtain ⟨x, hx, hn⟩ := hasName_of_resolve hleads hstep hproper
      exact hnames x hx _ hn (by simpa using hc)
    · cases h

instance (root : String) (route : List String) (p : Place) : Decidable (t.Leads root route p) :=
  inferInstanceAs (Decidable (_ = _))

theorem ne_empty_of_isFolder (h : t.isFolder base = true) : base ≠ "" := by
  rintro rfl
  simp [isFolder, locate] at h

end Tree

namespace Glob

open Inspector.Path (segments unsegments)

variable {t : Tree} {base rest pattern name : String} {files : List (List String)}

theorem normalize_append (a b : List Char) : normalize (a ++ b) = normalize a ++ normalize b :=
  List.map_append

/-- A literal directory in front of a pattern goes into its base. -/
theorem ofPattern_below (hliteral : hasWildcard base.toList = false) (hslash : '\\' ∉ base.toList)
    (hne : base ≠ "") : Split.ofPattern (base ++ "/" ++ rest) =
      { base := String.ofList (unsegments (segments base.toList ++
          (segments (normalize rest.toList)).takeWhile (!hasWildcard ·)))
        rest := unsegments ((segments (normalize rest.toList)).dropWhile (!hasWildcard ·)) } := by
  have hchars : normalize (base ++ "/" ++ rest).toList =
      base.toList ++ '/' :: normalize rest.toList := by
    rw [String.toList_append, String.toList_append, normalize_append, normalize_append,
      normalize_eq_self hslash, List.append_assoc]
    rfl
  have hplain : ∀ s ∈ segments base.toList, (!hasWildcard s) = true := by
    intro s hs
    have hsub := (Path.infix_of_mem_segments hs).subset
    rw [hasWildcard, List.any_eq_false] at hliteral
    simp only [hasWildcard, Bool.not_eq_true', List.any_eq_false]
    exact fun c hc => hliteral c (hsub hc)
  have hfull : ∀ lead, (unsegments (segments base.toList ++ lead)).isEmpty = false := by
    intro lead
    rw [List.isEmpty_eq_false_iff]
    have hchars : base.toList ≠ [] := fun h => hne (String.toList_eq_nil_iff.mp h)
    by_cases hlead : lead = []
    · rwa [hlead, List.append_nil, Path.unsegments_segments]
    · rw [Path.unsegments_append (Path.segments_ne_nil _) hlead]
      simp
  rw [Split.ofPattern, Split.of, hchars, Path.segments_append_slash,
    List.takeWhile_append_of_pos hplain, List.dropWhile_append_of_pos hplain]
  simp [hfull]

/-- If the pattern behind a literal directory begins with a wildcard, the search starts there. -/
theorem ofPattern_wild (hliteral : hasWildcard base.toList = false) (hslash : '\\' ∉ base.toList)
    (hne : base ≠ "")
    (hwild : (segments (normalize rest.toList)).takeWhile (!hasWildcard ·) = []) :
    Split.ofPattern (base ++ "/" ++ rest) = ⟨base, normalize rest.toList⟩ := by
  have hall := List.takeWhile_append_dropWhile (p := (!hasWildcard ·))
    (l := segments (normalize rest.toList))
  rw [hwild, List.nil_append] at hall
  rw [ofPattern_below hliteral hslash hne, hwild, hall]
  simp [Path.unsegments_segments]

def TakesName (pattern name : String) : Prop :=
  ∃ p, Pattern.parse? (normalize pattern.toList) = some p ∧ p.Takes name.toList

theorem parse_literal {cs : List Char} (h : hasWildcard cs = false) :
    Pattern.parse? cs = some (cs.map .char) := by
  unfold Pattern.parse?
  induction cs with
  | nil => simp [Pattern.parse]
  | cons c cs ih =>
    rw [hasWildcard, List.any_cons, Bool.or_eq_false_iff] at h
    obtain ⟨hc, hcs⟩ := h
    simp only [wildcards, List.contains_cons, List.contains_nil, Bool.or_false,
      Bool.or_eq_false_iff, beq_eq_false_iff_ne] at hc
    obtain ⟨hstar, hone, hopen⟩ := hc
    rw [Pattern.parse_char hstar hone fun h => hopen h.1, ih hcs]
    rfl

theorem takes_literal (cs : List Char) : Pattern.Takes (cs.map .char) cs := by
  induction cs with
  | nil => exact .nil
  | cons c cs ih => exact .cons (.char c) ih

theorem takesName_self (h : hasWildcard name.toList = false) (hslash : '\\' ∉ name.toList) :
    TakesName name name := by
  refine ⟨name.toList.map .char, ?_, takes_literal _⟩
  rw [normalize_eq_self hslash]
  exact parse_literal h

theorem hasWildcard_append (a b : List Char) :
    hasWildcard (a ++ b) = (hasWildcard a || hasWildcard b) :=
  List.any_append

theorem hasWildcard_normalize (cs : List Char) : hasWildcard (normalize cs) = hasWildcard cs := by
  rw [hasWildcard, normalize, List.any_map]
  congr 1
  funext c
  by_cases hc : c = '\\'
  · subst hc
    decide
  · simp [slashed, hc]

theorem isPattern_below (hliteral : hasWildcard base.toList = false) :
    isPattern (base ++ "/" ++ rest) = hasWildcard rest.toList := by
  rw [isPattern, String.toList_append, String.toList_append, hasWildcard_append,
    hasWildcard_append, hliteral]
  rfl

theorem expand_one {paths : List String} (hpattern : isPattern pattern = true)
    (h : (expandPattern t pattern).result = .ok paths) :
    (expand t [pattern]).result = .ok (Path.dedup paths) := by
  simp [expand, expandEach, expandInput, hpattern, Bind.bind, Log.Traced.bind, h, pure]

theorem expand_literal {path : String} (h : isPattern path = false) :
    (expand t [path]).result = .ok [path] := by
  simp [expand, expandEach, expandInput, h, Bind.bind, Log.Traced.bind, pure, Path.dedup]

/-- A pattern that takes one of the files below its base can be expanded. -/
theorem expandPattern_ok {p : Pattern}
    (hp : Pattern.parse? (Split.ofPattern pattern).rest = some p)
    (hfiles : t.filesBelow (Split.ofPattern pattern).root (Split.ofPattern pattern).depth =
      .ok files)
    (hne : (Split.ofPattern pattern).matches p files ≠ []) :
    (expandPattern t pattern).result = .ok ((Split.ofPattern pattern).matches p files) := by
  unfold expandPattern
  rw [← Split.ofPattern]
  simp [hp, hfiles, hne, Bind.bind, Log.Traced.bind, Log.Traced.emit, pure]

/-- What a pattern finds right below a literal directory has a name that the pattern takes. -/
theorem takesName_of_expand (ht : t.WellFormed)
    (hnames : ∀ x ∈ t.entries, ∀ n ∈ x.1, '\\' ∉ n.toList) (hbase : t.isFolder base = true)
    (hliteral : hasWildcard base.toList = false) (hpart : '/' ∉ normalize pattern.toList)
    (hname : Tree.IsName name) (hslash : '\\' ∉ name.toList) {paths : List String}
    (h : (expand t [base ++ "/" ++ pattern]).result = .ok paths)
    (hmem : Path.join base name ∈ paths) : TakesName pattern name := by
  have hbase' := Tree.no_backslash_of_isFolder hnames hbase
  have hne := Tree.ne_empty_of_isFolder hbase
  cases hpattern : isPattern (base ++ "/" ++ pattern) with
  | true =>
    have hwild : (segments (normalize pattern.toList)).takeWhile (!hasWildcard ·) = [] := by
      rw [isPattern_below hliteral, ← hasWildcard_normalize] at hpattern
      simp [Path.segments_of_no_slash hpart, hpattern]
    obtain ⟨p, hp, hpaths⟩ := found_of_expand ht hnames hpattern h
    obtain ⟨route, hfound, hpath⟩ := hpaths _ hmem
    rw [ofPattern_wild hliteral hbase' hne hwild] at hp hfound hpath
    have hrel := Tree.not_isAbsolute_spell hfound.ne_nil hfound.names
    have habs : Path.isAbsolute name = false := by
      rw [Path.isAbsolute, beq_eq_false_iff_ne]
      exact fun he => hname.2.1 (List.mem_of_head? he)
    obtain rfl := Path.join_cancel habs hrel hpath
    exact ⟨p, hp, hfound.taken⟩
  | false =>
    rw [expand_literal hpattern] at h
    obtain rfl := Except.ok.inj h
    obtain rfl := Path.eq_of_join_eq hname.2.1 (List.mem_singleton.mp hmem)
    rw [isPattern_below hliteral] at hpattern
    exact takesName_self hpattern hslash

def FindsName (t : Tree) (pattern name : String) : Prop :=
  ∃ dir paths, t.isFolder dir = true ∧ hasWildcard dir.toList = false ∧
    (expand t [dir ++ "/" ++ pattern]).result = .ok paths ∧ Path.join dir name ∈ paths

theorem takes_below {p : Pattern} {dirs : List String} (h : p.Takes name.toList)
    (hlines : ∀ d ∈ dirs, '\n' ∉ d.toList) :
    Pattern.Takes (.folders :: p) (Tree.spell (dirs ++ [name])).toList := by
  rw [Tree.spell, String.toList_ofList, List.map_append]
  by_cases hdirs : dirs = []
  · subst hdirs
    exact .cons .noFolders h
  · have hline : '\n' ∉ unsegments (dirs.map String.toList) := by
      intro hmem
      obtain hc | ⟨s, hs, hc⟩ := Path.mem_unsegments hmem
      · cases hc
      · obtain ⟨d, hd, rfl⟩ := List.mem_map.mp hs
        exact hlines d hd hc
    have hjoin := Path.unsegments_append (a := dirs.map String.toList) (b := [name.toList])
      (by simpa using hdirs) (by simp)
    have hcut : unsegments (dirs.map String.toList) ++ '/' :: unsegments [name.toList] =
        (unsegments (dirs.map String.toList) ++ ['/']) ++ name.toList := by
      simp [unsegments]
    rw [List.map_singleton, hjoin, hcut]
    exact .cons (.folders hline) h

theorem relative_of_filesBelow (ht : t.WellFormed)
    (hnames : ∀ x ∈ t.entries, ∀ n ∈ x.1, '\\' ∉ n.toList) {root : String} {depth : Option Nat}
    (hfiles : t.filesBelow root depth = .ok files) {route : List String} (hroute : route ∈ files) :
    relative route = (Tree.spell route).toList := by
  apply relative_eq_spell
  intro n hn
  obtain ⟨_, _, hhas, _⟩ := Tree.filesBelow_leads ht hfiles hroute
  obtain ⟨x, hx, hmem⟩ := hhas n hn
  exact hnames x hx n hmem

/-- Every file of the walk that the pattern takes is among the paths it stands for. -/
theorem expand_takes (ht : t.WellFormed)
    (hnames : ∀ x ∈ t.entries, ∀ n ∈ x.1, '\\' ∉ n.toList) (hpattern : isPattern pattern = true)
    {s : Split} (hsplit : Split.ofPattern pattern = s) {p : Pattern}
    (hp : Pattern.parse? s.rest = some p) (hfiles : t.filesBelow s.root s.depth = .ok files)
    {route : List String} (hroute : route ∈ files) (htakes : p.Takes (Tree.spell route).toList) :
    ∃ paths, (expand t [pattern]).result = .ok paths ∧
      Path.join s.base (Tree.spell route) ∈ paths := by
  subst hsplit
  let found := ((files.map relative).filter p.accepts).map fun cs =>
    Path.join (Split.ofPattern pattern).base (String.ofList cs)
  have hspell : ∀ r ∈ files, relative r = (Tree.spell r).toList :=
    fun r hr => relative_of_filesBelow ht hnames hfiles hr
  have hmem : Path.join (Split.ofPattern pattern).base (Tree.spell route) ∈ found := by
    have hcs := List.mem_map_of_mem (f := relative) hroute
    refine List.mem_map.mpr ⟨relative route, List.mem_filter.mpr ⟨hcs, ?_⟩, ?_⟩
    · rw [hspell route hroute]
      exact (Pattern.accepts_iff p _).mpr htakes
    · rw [hspell route hroute, String.ofList_toList]
  have hone : ∀ q ∈ found,
      Path.same q (Path.join (Split.ofPattern pattern).base (Tree.spell route)) = true →
        q = Path.join (Split.ofPattern pattern).base (Tree.spell route) := by
    intro q hq hsame
    obtain ⟨cs, hcs, rfl⟩ := List.mem_map.mp hq
    obtain ⟨r, hr, rfl⟩ := List.mem_map.mp (List.mem_filter.mp hcs).1
    obtain ⟨hne, _, hhas, _⟩ := Tree.filesBelow_leads ht hfiles hroute
    obtain ⟨hne', _, hhas', _⟩ := Tree.filesBelow_leads ht hfiles hr
    rw [hspell r hr, String.ofList_toList] at hsame ⊢
    rw [Tree.names_eq_of_same hne' (fun n hn => ht.isName (hhas' n hn)) hne
      (fun n hn => ht.isName (hhas n hn)) hsame]
  have hmatch : Path.join (Split.ofPattern pattern).base (Tree.spell route) ∈
      (Split.ofPattern pattern).matches p files := Path.mem_sorted hmem hone
  refine ⟨_, expand_one hpattern (expandPattern_ok hp hfiles (List.ne_nil_of_mem hmatch)), ?_⟩
  exact Path.mem_dedup hmatch fun q hq => hone q (Path.mem_of_mem_sorted hq)

theorem deep_below (base pattern : String) :
    base ++ "/**/" ++ pattern = base ++ "/" ++ ("**/" ++ pattern) := by
  have hcut : "/**/" = "/" ++ "**/" := rfl
  rw [hcut]
  simp only [String.append_assoc]

theorem ofPattern_deep (hliteral : hasWildcard base.toList = false) (hslash : '\\' ∉ base.toList)
    (hne : base ≠ "") : Split.ofPattern (base ++ "/**/" ++ pattern) =
      ⟨base, '*' :: '*' :: '/' :: normalize pattern.toList⟩ := by
  rw [deep_below, ofPattern_wild hliteral hslash hne]
  · simp [normalize, slashed]
  · simp [normalize, slashed, segments, hasWildcard, wildcards]

/-- Below a literal directory whose walk comes to an end, `**` and a further part stand for every
regular file that the part takes by its own name, unless a directory on the way has a line feed in
its name. -/
theorem expand_deep_reaches (ht : t.WellFormed)
    (hnames : ∀ x ∈ t.entries, ∀ n ∈ x.1, '\\' ∉ n.toList) (hbase : t.isFolder base = true)
    (hliteral : hasWildcard base.toList = false) (hwalk : t.filesBelow base none = .ok files)
    {dirs : List String} (hown : ∀ n ∈ dirs ++ [name], Tree.IsName n)
    (hfile : t.LeadsToFile base (dirs ++ [name])) (hlines : ∀ d ∈ dirs, '\n' ∉ d.toList)
    (halone : TakesName pattern name ∨
      '/' ∉ normalize pattern.toList ∧ FindsName t pattern name) :
    ∃ paths, (expand t [base ++ "/**/" ++ pattern]).result = .ok paths ∧
      Path.join base (Tree.spell (dirs ++ [name])) ∈ paths := by
  have hne := Tree.ne_empty_of_isFolder hbase
  have hsplit : Split.ofPattern (base ++ "/**/" ++ pattern) =
      ⟨base, '*' :: '*' :: '/' :: normalize pattern.toList⟩ :=
    ofPattern_deep hliteral (Tree.no_backslash_of_isFolder hnames hbase) hne
  have hroute := Tree.filesBelow_finds ht hbase hwalk (by simp) hown hfile
  have htakes : TakesName pattern name := by
    obtain h | ⟨hpart, dir, paths, hdir, hplain, hpaths, hmem⟩ := halone
    · exact h
    · obtain ⟨_, _, hhas, _⟩ := Tree.filesBelow_leads ht hwalk hroute
      obtain ⟨x, hx, hn⟩ := hhas name (by simp)
      exact takesName_of_expand ht hnames hdir hplain hpart (hown name (by simp))
        (hnames x hx name hn) hpaths hmem
  obtain ⟨p, hp, htakes⟩ := htakes
  refine expand_takes ht hnames ?_ hsplit (p := .folders :: p) ?_ ?_ hroute
    (takes_below htakes hlines)
  · rw [deep_below, isPattern_below hliteral]
    simp [hasWildcard, wildcards]
  · rw [Pattern.parse?, Pattern.parse, ← Pattern.parse?, hp]
    rfl
  · simpa [Split.root, Split.depth, hasDeep, hne] using hwalk

def distantTree : Tree where
  entries := [(["b"], .folder), (["b", "c"], .folder), (["e"], .folder),
    (["b", "c", "l"], .link "/e"), (["e", "f.yaml"], .file (.text ""))]

theorem expand_deep_reaches_distant :
    distantTree.filesBelow "b" none = .ok [["c", "l", "f.yaml"]] ∧
    (expand distantTree ["e/*.yaml"]).result = .ok ["e/f.yaml"] ∧
    ∃ paths, (expand distantTree ["b/**/*.yaml"]).result = .ok paths ∧ "b/c/l/f.yaml" ∈ paths := by
  have hwalk : distantTree.filesBelow "b" none = .ok [["c", "l", "f.yaml"]] := by decide +kernel
  have hfinds : (expand distantTree ["e/*.yaml"]).result = .ok ["e/f.yaml"] := by decide +kernel
  have hleads : distantTree.LeadsToFile "b" (["c", "l"] ++ ["f.yaml"]) :=
    ⟨["e", "f.yaml"], .text "", by decide +kernel, by decide +kernel⟩
  have hreach : ∃ paths, (expand distantTree ["b" ++ "/**/" ++ "*.yaml"]).result = .ok paths ∧
      Path.join "b" (Tree.spell (["c", "l"] ++ ["f.yaml"])) ∈ paths :=
    expand_deep_reaches ⟨by decide, by decide⟩ (by decide) (by decide +kernel) (by decide) hwalk
      (by decide) hleads (by decide)
      (Or.inr ⟨by decide, "e", ["e/f.yaml"], by decide +kernel, by decide, hfinds, by decide⟩)
  exact ⟨hwalk, hfinds, hreach⟩

def brokenNameTree : Tree where
  entries := [(["b"], .folder), (["b", "x\ny"], .folder),
    (["b", "x\ny", "f.yaml"], .file (.text ""))]

theorem line_feed_hides_files :
    brokenNameTree.WellFormed ∧ (∀ x ∈ brokenNameTree.entries, ∀ n ∈ x.1, '\\' ∉ n.toList) ∧
    brokenNameTree.isFolder "b" = true ∧ hasWildcard "b".toList = false ∧
    brokenNameTree.filesBelow "b" none = .ok [["x\ny", "f.yaml"]] ∧
    brokenNameTree.LeadsToFile "b" ["x\ny", "f.yaml"] ∧
    (expand brokenNameTree ["b/x\ny/*.yaml"]).result = .ok ["b/x\ny/f.yaml"] ∧
    (expand brokenNameTree ["b/**/*.yaml"]).result = .error (.noMatches "b/**/*.yaml") := by
  refine ⟨⟨by decide, by decide⟩, by decide, by decide +kernel, by decide, by decide +kernel, ?_,
    by decide +kernel, by decide +kernel⟩
  exact ⟨["b", "x\ny", "f.yaml"], .text "", by decide +kernel, by decide +kernel⟩

end Glob

end Inspector
