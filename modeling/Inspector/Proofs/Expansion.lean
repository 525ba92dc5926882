import Inspector.Proofs.Components
import Inspector.Proofs.Loading
import Inspector.Proofs.Spelling

/-! What an expanded pattern is. The paths are put together anew, from the base of the pattern and
the names that a walk came through. If no name has a backslash, which is read as a slash, each path
leads to the very file that the walk found, and goes with the pattern part by part. -/
namespace Inspector

namespace Path

theorem mem_of_mem_dedup {p : String} {ps : List String} (h : p ∈ dedup ps) : p ∈ ps := by
  induction ps with
  | nil => exact h
  | cons q ps ih =>
    obtain rfl | h := List.mem_cons.mp h
    · exact List.mem_cons_self
    · exact List.mem_cons_of_mem q (ih (List.mem_filter.mp h).1)

theorem mem_of_mem_sorted {p : String} {ps : List String} (h : p ∈ sorted ps) : p ∈ ps :=
  List.mem_mergeSort.mp (mem_of_mem_dedup h)

end Path

def Tree.NamesFile (t : Tree) (path : String) : Prop :=
  ∃ q c, t.locate path = .ok (.found q) ∧ t.get? q = some (.file c)

theorem Tree.NamesFile.read_ne_os {t : Tree} {path : String} (h : t.NamesFile path) (e : OsError) :
    t.read path ≠ .error (.os e) := by
  obtain ⟨q, c, hloc, hfile⟩ := h
  cases c <;> simp [read, hloc, hfile]

namespace Glob

open Inspector.Log.Traced (ok_of_bind_ok)
open Inspector.Path (segments)

def Split.ofPattern (pattern : String) : Split := .of (normalize pattern.toList)

variable {t : Tree} {pattern : String} {paths : List String}

theorem ok_of_expandPattern (h : (expandPattern t pattern).result = .ok paths) :
    ∃ p files, Pattern.parse? (Split.ofPattern pattern).rest = some p ∧
      t.filesBelow (Split.ofPattern pattern).root (Split.ofPattern pattern).depth = .ok files ∧
      paths = (Split.ofPattern pattern).matches p files := by
  unfold expandPattern at h
  rw [← Split.ofPattern] at h
  cases hp : Pattern.parse? (Split.ofPattern pattern).rest with
  | none =>
    simp only [hp] at h
    cases h
  | some p =>
    cases hf : t.filesBelow (Split.ofPattern pattern).root (Split.ofPattern pattern).depth with
    | error fault =>
      simp only [hp, hf] at h
      cases h
    | ok files =>
      simp only [hp, hf] at h
      obtain ⟨_, _, h⟩ := ok_of_bind_ok h
      split at h
      · cases h
      · exact ⟨p, files, rfl, rfl, (Except.ok.inj h).symm⟩

/-- What the paths of an expansion are made of. -/
theorem ok_of_expand (hpattern : isPattern pattern = true)
    (h : (expand t [pattern]).result = .ok paths) :
    ∃ p files, Pattern.parse? (Split.ofPattern pattern).rest = some p ∧
      t.filesBelow (Split.ofPattern pattern).root (Split.ofPattern pattern).depth = .ok files ∧
      ∀ path ∈ paths, ∃ route ∈ files, p.accepts (relative route) = true ∧
        path = Path.join (Split.ofPattern pattern).base (String.ofList (relative route)) := by
  obtain ⟨ps, hps, hpaths⟩ := ok_of_bind_ok h
  obtain rfl : Path.dedup ps = paths := Except.ok.inj hpaths
  obtain ⟨own, hown, hothers⟩ := ok_of_bind_ok hps
  obtain ⟨others, hnil, hall⟩ := ok_of_bind_ok hothers
  obtain rfl : ([] : List String) = others := Except.ok.inj hnil
  obtain rfl : own ++ [] = ps := Except.ok.inj hall
  rw [expandInput, if_pos hpattern] at hown
  obtain ⟨p, files, hp, hfiles, rfl⟩ := ok_of_expandPattern hown
  refine ⟨p, files, hp, hfiles, ?_⟩
  intro path hpath
  rw [List.append_nil] at hpath
  have hmem := Path.mem_of_mem_sorted (Path.mem_of_mem_dedup hpath)
  obtain ⟨cs, hcs, rfl⟩ := List.mem_map.mp hmem
  obtain ⟨hcs, haccepts⟩ := List.mem_filter.mp hcs
  obtain ⟨route, hroute, rfl⟩ := List.mem_map.mp hcs
  exact ⟨route, hroute, haccepts, rfl⟩

theorem normalize_eq_self {cs : List Char} (h : '\\' ∉ cs) : normalize cs = cs := by
  have hfix : ∀ c ∈ cs, slashed c = id c := by
    intro c hc
    have hne : c ≠ '\\' := fun he => h (he ▸ hc)
    exact if_neg hne
  rw [normalize, List.map_congr_left hfix, List.map_id]

theorem relative_eq_spell {route : List String} (h : ∀ n ∈ route, '\\' ∉ n.toList) :
    relative route = (Tree.spell route).toList := by
  rw [Tree.spell, String.toList_ofList, relative]
  apply normalize_eq_self
  intro hmem
  obtain he | ⟨s, hs, hc⟩ := Path.mem_unsegments hmem
  · simp at he
  · obtain ⟨n, hn, rfl⟩ := List.mem_map.mp hs
    exact h n hn hc

structure Found (t : Tree) (s : Split) (p : Pattern) (route : List String) : Prop where
  ne_nil : route ≠ []
  names : ∀ n ∈ route, Tree.IsName n
  near : ∀ d ∈ s.depth, route.length ≤ d
  file : t.LeadsToFile s.root route
  taken : p.Takes (Tree.spell route).toList

/-- Every path of an expansion is spelled with the names of a file that is found. -/
theorem found_of_expand (ht : t.WellFormed)
    (hnames : ∀ x ∈ t.entries, ∀ n ∈ x.1, '\\' ∉ n.toList) (hpattern : isPattern pattern = true)
    (h : (expand t [pattern]).result = .ok paths) :
    ∃ p, Pattern.parse? (Split.ofPattern pattern).rest = some p ∧
      ∀ path ∈ paths, ∃ route, Found t (Split.ofPattern pattern) p route ∧
        path = Path.join (Split.ofPattern pattern).base (Tree.spell route) := by
  obtain ⟨p, files, hp, hfiles, hpaths⟩ := ok_of_expand hpattern h
  refine ⟨p, hp, ?_⟩
  intro path hpath
  obtain ⟨route, hroute, haccepts, rfl⟩ := hpaths path hpath
  obtain ⟨hne, hnear, hown, hfile⟩ := Tree.filesBelow_leads ht hfiles hroute
  have hspell : relative route = (Tree.spell route).toList := by
    apply relative_eq_spell
    intro n hn
    obtain ⟨x, hx, hmem⟩ := hown n hn
    exact hnames x hx n hmem
  rw [hspell, Pattern.accepts_iff] at haccepts
  rw [hspell, String.ofList_toList]
  exact ⟨route, ⟨hne, fun n hn => ht.isName (hown n hn), hnear, hfile, haccepts⟩, rfl⟩

/-- Every path that a pattern stands for leads to a regular file, and loading the paths never
fails because one of them cannot be found or opened. -/
theorem expand_finds_files (ht : t.WellFormed)
    (hnames : ∀ x ∈ t.entries, ∀ n ∈ x.1, '\\' ∉ n.toList) (hpattern : isPattern pattern = true)
    (h : (expand t [pattern]).result = .ok paths) :
    (∀ path ∈ paths, t.NamesFile path) ∧
      ∀ threshold path e, (Load.files threshold t paths).result ≠ .error (.io path (.os e)) := by
  obtain ⟨p, _, hpaths⟩ := found_of_expand ht hnames hpattern h
  have hfiles : ∀ path ∈ paths, t.NamesFile path := by
    intro path hpath
    obtain ⟨route, hfound, rfl⟩ := hpaths path hpath
    obtain ⟨q, c, hleads, hfile⟩ := hfound.file
    exact ⟨q, c, Tree.locate_join hfound.ne_nil hfound.names hleads, hfile⟩
  refine ⟨hfiles, ?_⟩
  intro threshold path e hload
  obtain ⟨hmem, hread⟩ := Load.read_of_files_io hload
  exact (hfiles path hmem).read_ne_os e hread

def linkedTree : Tree where
  entries := [(["d"], .folder), (["d", "e.yaml"], .file (.text "")), (["p"], .folder),
    (["p", "l"], .link "../d")]

theorem expand_finds_files_linked :
    (expand linkedTree ["p/**/*.yaml"]).result = .ok ["p/l/e.yaml"] ∧
    linkedTree.NamesFile "p/l/e.yaml" := by
  have h : (expand linkedTree ["p/**/*.yaml"]).result = .ok ["p/l/e.yaml"] := by decide +kernel
  have hfiles := expand_finds_files ⟨by decide, by decide⟩ (by decide) (by decide) h
  exact ⟨h, hfiles.1 _ (by decide)⟩

def backslashTree : Tree where
  entries := [(["a\\b.yaml"], .file (.text ""))]

theorem backslash_not_found :
    backslashTree.WellFormed ∧ (expand backslashTree ["**/*.yaml"]).result = .ok ["a/b.yaml"] ∧
    backslashTree.read "a/b.yaml" = .error (.os .notFound) :=
  ⟨⟨by decide, by decide⟩, by decide +kernel, by decide +kernel⟩

/-- Only `**` leads through a directory: the path below the base of a pattern goes with the parts
of the pattern one by one. A class may stand for a slash only if there is no `**`, since the depth
of the search is then what the parts can reach. -/
theorem expand_componentwise (ht : t.WellFormed)
    (hnames : ∀ x ∈ t.entries, ∀ n ∈ x.1, '\\' ∉ n.toList) (hpattern : isPattern pattern = true)
    (hparts : ∀ part ∈ segments (Split.ofPattern pattern).rest,
      part = deepPart ∨ hasDeep part = false)
    (hwithin : classesWithinParts false (Split.ofPattern pattern).rest = true)
    (hclasses : hasDeep (Split.ofPattern pattern).rest = false ∨
      ∀ p, Pattern.parse? (Split.ofPattern pattern).rest = some p → p.ClassesAvoidSlash)
    (h : (expand t [pattern]).result = .ok paths) :
    ∀ path ∈ paths, ∃ rel : String, path = Path.join (Split.ofPattern pattern).base rel ∧
      Path.isAbsolute rel = false ∧
      Componentwise (segments (Split.ofPattern pattern).rest) (segments rel.toList) := by
  obtain ⟨p, hp, hpaths⟩ := found_of_expand ht hnames hpattern h
  intro path hpath
  obtain ⟨route, hfound, rfl⟩ := hpaths path hpath
  refine ⟨Tree.spell route, rfl, Tree.not_isAbsolute_spell hfound.ne_nil hfound.names, ?_⟩
  have hcomposed : Composed (segments (Split.ofPattern pattern).rest) p := by
    apply composed_of_parse (Path.segments_ne_nil _)
    · exact fun part hpart => Path.no_slash_of_mem_segments hpart
    · exact hparts
    · rwa [Path.unsegments_segments]
    · rwa [Path.unsegments_segments]
  apply hcomposed.componentwise hfound.taken
  by_cases hdeep : hasDeep (Split.ofPattern pattern).rest = true
  · obtain hflat | havoid := hclasses
    · rw [hdeep] at hflat
      cases hflat
    · exact Or.inr (havoid p hp)
  · refine Or.inl ⟨?_, ?_⟩
    · intro part hpart he
      rw [he] at hpart
      exact hdeep (hasDeep_of_mem_segments hpart)
    · have hdepth : (Split.ofPattern pattern).depth =
          some (segments (Split.ofPattern pattern).rest).length := if_neg hdeep
      rw [Tree.segments_spell hfound.ne_nil hfound.names, List.length_map]
      exact hfound.near _ hdepth

def nestedTree : Tree where
  entries := [(["d"], .folder), (["d", "e"], .folder), (["d", "e", "f"], .file (.text ""))]

theorem expand_componentwise_nested :
    (expand nestedTree ["d/**/[e-g]"]).result = .ok ["d/e/f"] ∧
    ∃ rel : String, "d/e/f" = Path.join "d" rel ∧ Path.isAbsolute rel = false ∧
      Componentwise [deepPart, "[e-g]".toList] (segments rel.toList) := by
  have h : (expand nestedTree ["d/**/[e-g]"]).result = .ok ["d/e/f"] := by decide +kernel
  have hclasses : ∀ p, Pattern.parse? (Split.ofPattern "d/**/[e-g]").rest = some p →
      p.ClassesAvoidSlash := by
    intro p hp k hk
    have hread : Pattern.parse? (Split.ofPattern "d/**/[e-g]").rest =
        some [.folders, .cls { negated := false, base := [⟨'e', 'g'⟩] }] := by decide +kernel
    obtain rfl := Option.some.inj (hread.symm.trans hp)
    obtain rfl : k = { negated := false, base := [⟨'e', 'g'⟩] } := by simpa using hk
    decide
  have hpaths := expand_componentwise ⟨by decide, by decide⟩ (by decide) (by decide) (by decide)
    (by decide) (Or.inr hclasses) h
  exact ⟨h, hpaths _ (by decide)⟩

def shallowTree : Tree where
  entries := [(["d"], .folder), (["d", "f"], .file (.text ""))]

theorem class_stands_for_slash :
    shallowTree.WellFormed ∧ (∀ x ∈ shallowTree.entries, ∀ n ∈ x.1, '\\' ∉ n.toList) ∧
    segments (Split.ofPattern "**/d[!x]f").rest = [deepPart, "d[!x]f".toList] ∧
    hasDeep "d[!x]f".toList = false ∧
    classesWithinParts false (Split.ofPattern "**/d[!x]f").rest = true ∧
    (expand shallowTree ["**/d[!x]f"]).result = .ok ["d/f"] ∧
    ¬ ∃ rel : String, "d/f" = Path.join (Split.ofPattern "**/d[!x]f").base rel ∧
      Path.isAbsolute rel = false ∧
      Componentwise (segments (Split.ofPattern "**/d[!x]f").rest) (segments rel.toList) := by
  have hrest : segments (Split.ofPattern "**/d[!x]f").rest = [deepPart, "d[!x]f".toList] := by
    decide +kernel
  refine ⟨⟨by decide, by decide⟩, by decide, hrest, by decide, by decide, by decide +kernel, ?_⟩
  rintro ⟨rel, hrel, habs, hparts⟩
  have hbase : (Split.ofPattern "**/d[!x]f").base = "" := by decide +kernel
  rw [hbase] at hrel
  obtain rfl : "d/f" = rel := by simpa [Path.join, habs] using hrel
  rw [hrest] at hparts
  obtain ⟨between, name, q, hnames, hq, htakes⟩ :=
    Componentwise.last_part [deepPart] (by decide) hparts
  have hf : ['f'] = name := by simpa [segments] using congrArg List.getLast? hnames
  have hrefused : (Pattern.parse? "d[!x]f".toList).map (·.accepts ['f']) = some false := by
    decide +kernel
  rw [hq, hf] at hrefused
  simp [(Pattern.accepts_iff q name).mpr htakes] at hrefused

end Glob

end Inspector
