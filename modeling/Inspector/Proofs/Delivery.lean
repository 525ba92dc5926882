import Inspector.Command
import Inspector.Proofs.Expansion
import Inspector.Proofs.Output
import Inspector.Proofs.TreeChange

/-! What a generating run does to the files. Until the inputs are resolved nothing is touched. Then
the output directory is made and the files are written into it one by one, each to a place of its
own, up to the first that cannot be written. -/
namespace Inspector

open Inspector.Log (Traced)
open Inspector.Tree (IsName Linkless rootOf)

namespace Artifact

variable {t t' : Tree} {d q : Place} {dir : String} {as : List Artifact} {a : Artifact}

def putAll (d : Place) (t : Tree) (as : List Artifact) : Tree :=
  as.foldl (fun t a => t.put (d ++ [a.name]) (.file (.text a.contents))) t

theorem putAll_cons (d : Place) (t : Tree) (a : Artifact) (as : List Artifact) :
    putAll d t (a :: as) = putAll d (t.put (d ++ [a.name]) (.file (.text a.contents))) as := rfl

theorem get?_putAll_other (h : ∀ a ∈ as, q ≠ d ++ [a.name]) :
    (putAll d t as).get? q = t.get? q := by
  induction as generalizing t with
  | nil => rfl
  | cons a as ih =>
    obtain ⟨hq, hrest⟩ := List.forall_mem_cons.mp h
    rw [putAll_cons, ih hrest, Tree.get?_put t _ _ _ (by simp), if_neg hq]

/-- Files with different names do not get in each other's way. -/
theorem get?_putAll_own (hnames : (as.map Artifact.name).Nodup) (ha : a ∈ as) :
    (putAll d t as).get? (d ++ [a.name]) = some (.file (.text a.contents)) := by
  induction as generalizing t with
  | nil => cases ha
  | cons b as ih =>
    obtain ⟨hb, hnames⟩ := List.nodup_cons.mp hnames
    rw [putAll_cons]
    obtain rfl | ha := List.mem_cons.mp ha
    · have hother : ∀ c ∈ as, d ++ [a.name] ≠ d ++ [c.name] := by
        intro c hc he
        have hname : a.name = c.name := by simpa using he
        exact hb (hname ▸ List.mem_map_of_mem hc)
      rw [get?_putAll_other hother, Tree.get?_put t _ _ _ (by simp), if_pos rfl]
    · exact ih hnames ha

/-- What a run of writes has done when it ends: `written` are the files that it has written, `rest`
the others, the first of which could not be written. -/
structure Stops (dir : String) (t : Tree) (as : List Artifact) (d : Place)
    (written rest : List Artifact) : Prop where
  split : as = written ++ rest
  tree : (writeEach dir t as).1 = putAll d t written
  grows : t.Grows (putAll d t written)
  linkless : (putAll d t written).Linkless
  result : rest = [] ∧ (writeEach dir t as).2.result = .ok () ∨
    ∃ a more e, rest = a :: more ∧
      (writeEach dir t as).2.result = .error (.file (Path.join dir a.name) e)

theorem Stops.nil (dir : String) (d : Place) (hl : t.Linkless) : Stops dir t [] d [] [] :=
  ⟨rfl, rfl, .refl t, hl, Or.inl ⟨rfl, rfl⟩⟩

theorem Stops.failed {e : OsError} (as : List Artifact) (d : Place) (hl : t.Linkless)
    (h : t.write (Path.join dir a.name) a.contents = .error e) :
    Stops dir t (a :: as) d [] (a :: as) := by
  refine ⟨rfl, ?_, .refl t, hl, Or.inr ⟨a, as, e, rfl, ?_⟩⟩
  · simp [writeEach, h, putAll]
  · simp only [writeEach, h]
    rfl

theorem Stops.cons {written rest : List Artifact} (hl : t.Linkless)
    (hplace : t.get? (d ++ [a.name]) ≠ some .folder)
    (h : t.write (Path.join dir a.name) a.contents =
      .ok (t.put (d ++ [a.name]) (.file (.text a.contents))))
    (hrest : Stops dir (t.put (d ++ [a.name]) (.file (.text a.contents))) as d written rest) :
    Stops dir t (a :: as) d (a :: written) rest := by
  refine ⟨?_, ?_, ?_, hrest.linkless, ?_⟩
  · rw [hrest.split, List.cons_append]
  · simp only [writeEach, h]
    exact hrest.tree
  · exact (Tree.Grows.put_file _ hplace (hl _)).trans hrest.grows
  · simp only [writeEach, h]
    exact hrest.result

/-- The files are written into the directory at `d` in their order. -/
theorem writeEach_stops (hl : t.Linkless) (hd : t.locate (rootOf dir) = .ok (.found d))
    (hfolder : t.get? d = some .folder) (hnames : ∀ a ∈ as, IsName a.name) :
    ∃ written rest, Stops dir t as d written rest := by
  induction as generalizing t with
  | nil => exact ⟨[], [], .nil dir d hl⟩
  | cons a as ih =>
    obtain ⟨hname, hrest⟩ := List.forall_mem_cons.mp hnames
    have hwrite := Tree.write_below hl hd hfolder hname a.contents
    by_cases hplace : t.get? (d ++ [a.name]) = some .folder
    · rw [if_pos hplace] at hwrite
      exact ⟨[], a :: as, .failed as d hl hwrite⟩
    · rw [if_neg hplace] at hwrite
      have hgrows := Tree.Grows.put_file (.text a.contents) hplace (hl _)
      have hl' := hl.put (q := d ++ [a.name]) (e := .file (.text a.contents)) (by simp) (by simp)
      obtain ⟨written, rest, hstops⟩ :=
        ih hl' (hgrows.locate hd) (hgrows.folder d hfolder) hrest
      exact ⟨a :: written, rest, .cons hl hplace hwrite hstops⟩

/-- `t'` is `t` with the files written below `dir`. Apart from them only directories are new, which
`dir` leads through. -/
structure Written (t : Tree) (dir : String) (as : List Artifact) (t' : Tree) : Prop where
  here : t'.here = t.here
  files : ∀ a ∈ as, t'.read (Path.join dir a.name) = .ok a.contents
  others : ∀ q, (∀ a ∈ as, t'.locate (Path.join dir a.name) ≠ .ok (.found q)) →
    t'.get? q = t.get? q ∨ t.get? q = none ∧ t'.get? q = some .folder ∧
      ∃ p ∈ Path.ancestors dir, t'.locate p = .ok (.found q)

theorem Written.of_made (h : t.Made (Path.ancestors dir) t') : Written t dir [] t' :=
  ⟨h.grows.here, nofun, fun q _ => h.only q⟩

theorem Written.of_putAll {t₁ : Tree} (hmade : t.Made (Path.ancestors dir) t₁)
    (hd : t₁.locate (rootOf dir) = .ok (.found d)) (hfolder : t₁.get? d = some .folder)
    (hgrows : t₁.Grows (putAll d t₁ as)) (hl : (putAll d t₁ as).Linkless)
    (hown : ∀ a ∈ as, IsName a.name) (hnames : (as.map Artifact.name).Nodup) :
    Written t dir as (putAll d t₁ as) := by
  have hd' := hgrows.locate hd
  have hfolder' := hgrows.folder d hfolder
  refine ⟨hgrows.here.trans hmade.grows.here, ?_, ?_⟩
  · intro a ha
    exact Tree.read_below hl hd' hfolder' (hown a ha) (get?_putAll_own hnames ha)
  · intro q hq
    have hplace : ∀ a ∈ as, q ≠ d ++ [a.name] := by
      intro a ha he
      refine hq a ha ?_
      rw [Tree.locate_below hl hd' hfolder' (hown a ha), he, get?_putAll_own hnames ha]
      rfl
    rw [get?_putAll_other hplace]
    obtain hsame | ⟨hnone, hnew, p, hp, hq⟩ := hmade.only q
    · exact Or.inl hsame
    · exact Or.inr ⟨hnone, hnew, p, hp, hgrows.locate hq⟩

theorem components_ne_nil (h : dir ≠ "") : Path.components dir ≠ [] := by
  have hchars : dir.toList ≠ [] := by simpa [← String.toList_eq_nil_iff] using h
  obtain ⟨c, cs, hc⟩ := List.exists_cons_of_ne_nil hchars
  by_cases hroot : c = '/'
  · simp [Path.components, Path.isAbsolute, hc, hroot]
  · obtain ⟨s, ss, hs⟩ := List.exists_cons_of_ne_nil (Path.segments_ne_nil cs)
    have hparts : Path.segments dir.toList = (c :: s) :: ss := by
      simp [hc, Path.segments, hroot, hs]
    simp only [Path.components, hparts]
    split
    · simp
    · by_cases hdot : c :: s = ['.']
      · simp [hdot]
      · simp [hdot]

theorem head?_ancestors (h : dir ≠ "") : (Path.ancestors dir).head? = some dir := by
  simp [Path.ancestors, components_ne_nil h]

/-- Where the working directory is none, nothing can be written. -/
theorem write_nowhere (hhere : t.get? t.here ≠ some .folder) (hname : IsName a.name) :
    t.write (Path.join "" a.name) a.contents = .error .notFolder := by
  have hchars : a.name.toList ≠ [] := by simpa [← String.toList_eq_nil_iff] using hname.1
  have hrel : Path.isAbsolute a.name = false := by
    rw [Path.isAbsolute, beq_eq_false_iff_ne]
    exact fun h => hname.2.1 (List.mem_of_head? h)
  have hlast : a.name.toList.getLast? ≠ some '/' := fun h => hname.2.1 (List.mem_of_getLast? h)
  have hsteps : Tree.steps a.name = [a.name] := by
    rw [Tree.steps_of_last hlast, Path.segments_of_no_slash hname.2.1]
    simp [hchars]
  have hresolve : ∀ links, t.resolve links t.here [a.name] = .error .notFolder := by
    intro links
    cases links with
    | zero => simp [Tree.resolve, Tree.descend, hhere]
    | succ links => simp [Tree.resolve, Tree.descend, hhere]
  have hlocate : t.locate (Path.join "" a.name) = .error .notFolder := by
    simp [Path.join, hrel, Tree.locate, hname.1, Tree.locateSteps, hsteps, hresolve]
  rw [Tree.write, hlocate]

theorem writeEach_written {t₁ : Tree} (hmade : t.Made (Path.ancestors dir) t₁) (hl : t.Linkless)
    (hdir : dir ≠ "" → t₁.isFolder dir = true) (hown : ∀ a ∈ as, IsName a.name)
    (hnames : (as.map Artifact.name).Nodup) :
    ∃ d written rest, Stops dir t₁ as d written rest ∧
      Written t dir written (putAll d t₁ written) := by
  have hl₁ := hl.made hmade
  by_cases hroot : t₁.isFolder (rootOf dir) = true
  · obtain ⟨d, hd, hfolder⟩ := Tree.isFolder_iff.mp hroot
    obtain ⟨written, rest, hstops⟩ := writeEach_stops hl₁ hd hfolder hown
    have hsplit := hstops.split
    have hown' : ∀ a ∈ written, IsName a.name := fun a ha =>
      hown a (hsplit ▸ List.mem_append_left rest ha)
    have hnames' : (written.map Artifact.name).Nodup := by
      rw [hsplit, List.map_append] at hnames
      exact (List.nodup_append.mp hnames).1
    exact ⟨d, written, rest, hstops,
      .of_putAll hmade hd hfolder hstops.grows hstops.linkless hown' hnames'⟩
  · have hempty : dir = "" := by
      by_contra hne
      rw [rootOf, if_neg (by simpa using hne)] at hroot
      exact hroot (hdir hne)
    subst hempty
    have hhere : t₁.get? t₁.here ≠ some .folder := by
      intro hhere
      apply hroot
      refine Tree.isFolder_iff.mpr ⟨t₁.here, ?_, hhere⟩
      exact Tree.descend_current hhere
    cases as with
    | nil => exact ⟨[], [], [], .nil "" [] hl₁, .of_made hmade⟩
    | cons a as =>
      have hfail := write_nowhere hhere (hown a List.mem_cons_self)
      exact ⟨[], [], a :: as, .failed as [] hl₁ hfail, .of_made hmade⟩

/-- What becomes of all files: they are written up to some place in their order. -/
theorem writeAll_cases (dir : String) (hl : t.Linkless) (hown : ∀ a ∈ as, IsName a.name)
    (hnames : (as.map Artifact.name).Nodup) :
    (∃ e, (writeAll dir t as).2.result = .error (.folder dir e) ∧
      Written t dir [] (writeAll dir t as).1) ∨
    ∃ written rest, as = written ++ rest ∧ Written t dir written (writeAll dir t as).1 ∧
      (rest = [] ∧ (writeAll dir t as).2.result = .ok () ∨
        ∃ a more e, rest = a :: more ∧
          (writeAll dir t as).2.result = .error (.file (Path.join dir a.name) e)) := by
  obtain ⟨hmade, hfirst⟩ := Tree.makeChain_made t (Path.ancestors dir)
  cases hchain : t.makeChain (Path.ancestors dir) with
  | mk t₁ failed =>
    rw [hchain] at hmade hfirst
    cases failed with
    | some e =>
      left
      refine ⟨e, ?_, ?_⟩
      · simp only [writeAll, Tree.makeFolders, hchain]
        rfl
      · simp only [writeAll, Tree.makeFolders, hchain]
        exact .of_made hmade
    | none =>
      right
      have hdir : dir ≠ "" → t₁.isFolder dir = true := fun hne =>
        hfirst rfl dir (head?_ancestors hne)
      obtain ⟨d, written, rest, hstops, hwritten⟩ := writeEach_written hmade hl hdir hown hnames
      refine ⟨written, rest, hstops.split, ?_, ?_⟩
      · simp only [writeAll, Tree.makeFolders, hchain]
        rw [hstops.tree]
        exact hwritten
      · simp only [writeAll, Tree.makeFolders, hchain]
        obtain ⟨hrest, hok⟩ | ⟨a, more, e, hrest, herror⟩ := hstops.result
        · refine Or.inl ⟨hrest, ?_⟩
          rw [Traced.bind_ok hok]
          rfl
        · refine Or.inr ⟨a, more, e, hrest, ?_⟩
          rw [Traced.bind_error herror]

end Artifact

theorem isName_fileName {b : Backend} {n extension : String} (hstem : '/' ∉ b.stem.toList)
    (hn : '/' ∉ n.toList) (hextension : '/' ∉ extension.toList) :
    IsName (b.fileName n extension) := by
  have hscore : '_' ∈ (b.fileName n extension).toList := by simp [Backend.fileName]
  refine ⟨?_, by simp [Backend.fileName, hstem, hn, hextension], ?_, ?_⟩
  all_goals
    intro he
    rw [he] at hscore
    simp at hscore

theorem isName_file {settings : Settings} {b : Backend} (hb : b ∈ settings.chosen) (k : FileKind)
    {n : String} (hn : '/' ∉ n.toList) : IsName (b.file k n) := by
  have hplain : '/' ∉ b.stem.toList ∧ '/' ∉ b.bodyExtension.toList ∧
      '/' ∉ b.headerExtension.toList := by
    obtain rfl | rfl := Backend.mem_backends hb
    · simp [Backend.printer]
    · simp [Backend.editor]
  cases k with
  | body => exact isName_fileName hplain.1 hn hplain.2.1
  | header => exact isName_fileName hplain.1 hn hplain.2.2

theorem isName_of_generated {table : Table} (settings : Settings)
    (hslash : ∀ x ∈ table.entries, '/' ∉ x.name.toList) :
    ∀ a ∈ generateArtifacts table settings.chosen, IsName a.name := by
  intro a ha
  obtain ⟨b, hb, s, hs, k, rfl⟩ := mem_generateArtifacts.mp ha
  exact isName_file hb k (hslash s (Table.mem_emitted.mp hs).1)

namespace Command

open Inspector.Artifact (Written writeAll)

variable {t : Tree} {inputs : List String} {s : Settings} {verbose : Bool} {table : Table}
  {dir : String}

theorem codegen_unresolved {f : Failure}
    (h : (resolveInputs t inputs s.policy verbose).result = .error f) :
    (codegen t inputs s verbose).result = .error f ∧ (codegen t inputs s verbose).tree = t := by
  simp [codegen, h]

theorem codegen_unmarked (h : (resolveInputs t inputs s.policy verbose).result = .ok table)
    (hmarked : table.marked = []) :
    (codegen t inputs s verbose).result = .ok () ∧ (codegen t inputs s verbose).tree = t := by
  simp [codegen, h, hmarked]

theorem codegen_marked (h : (resolveInputs t inputs s.policy verbose).result = .ok table)
    (hmarked : table.marked ≠ []) (hdir : s.outputDir = some dir) :
    (codegen t inputs s verbose).result =
        (writeAll dir t (generateArtifacts table s.chosen)).2.result.mapError .write ∧
      (codegen t inputs s verbose).tree =
        (writeAll dir t (generateArtifacts table s.chosen)).1 := by
  simp [codegen, h, hmarked, deliver, hdir, Settings.chosen]

/-- A run that generates touches nothing but its output directory, and that only when there is
something to write. Every file it writes stays as it was written. -/
theorem codegen_tree (hlinks : t.Linkless) (inputs : List String) (hdir : s.outputDir = some dir)
    (verbose : Bool)
    (hslash : ∀ table, (resolveInputs t inputs s.policy verbose).result = .ok table →
      ∀ x ∈ table.entries, '/' ∉ x.name.toList) :
    (∀ f, (resolveInputs t inputs s.policy verbose).result = .error f →
      (codegen t inputs s verbose).result = .error f ∧ (codegen t inputs s verbose).tree = t) ∧
    ∀ table, (resolveInputs t inputs s.policy verbose).result = .ok table →
      (table.marked = [] → (codegen t inputs s verbose).result = .ok () ∧
        (codegen t inputs s verbose).tree = t) ∧
      (table.marked ≠ [] →
        ((codegen t inputs s verbose).result = .ok () ∧
          Written t dir (generateArtifacts table s.chosen) (codegen t inputs s verbose).tree) ∨
        (∃ e, (codegen t inputs s verbose).result = .error (.write (.folder dir e)) ∧
          Written t dir [] (codegen t inputs s verbose).tree) ∨
        ∃ before a after e, generateArtifacts table s.chosen = before ++ a :: after ∧
          (codegen t inputs s verbose).result =
            .error (.write (.file (Path.join dir a.name) e)) ∧
          Written t dir before (codegen t inputs s verbose).tree) := by
  refine ⟨fun f => codegen_unresolved, ?_⟩
  intro table htable
  refine ⟨codegen_unmarked htable, ?_⟩
  intro hmarked
  obtain ⟨hresult, htree⟩ := codegen_marked htable hmarked hdir
  have hown := isName_of_generated s (hslash table htable)
  have hcases := Artifact.writeAll_cases dir hlinks hown (nodup_names_generateArtifacts table s)
  rw [hresult, htree]
  obtain ⟨e, herror, hwritten⟩ | ⟨written, rest, hsplit, hwritten, hend⟩ := hcases
  · rw [herror]
    exact Or.inr (Or.inl ⟨e, rfl, hwritten⟩)
  · obtain ⟨hrest, hok⟩ | ⟨a, more, e, hrest, herror⟩ := hend
    · have hall : written = generateArtifacts table s.chosen := by
        rw [hsplit, hrest, List.append_nil]
      rw [hall] at hwritten
      rw [hok]
      exact Or.inl ⟨rfl, hwritten⟩
    · rw [hrest] at hsplit
      rw [herror]
      exact Or.inr (Or.inr ⟨written, a, more, e, hsplit, rfl, hwritten⟩)

def blockedTree : Tree where
  entries := [(["gen"], .folder), (["gen", "print_P.h"], .folder), (["in.json"], .file (.text
    "\x7b\"structs\":[\x7b\"name\":\"P\",\"options\":\x7b\"generate\":true\x7d\x7d]\x7d"))]

theorem linkless_blockedTree : blockedTree.Linkless := by
  apply Tree.linkless_of_entries
  simp [blockedTree]

theorem codegen_tree_blocked :
    (codegen blockedTree ["in.json"] ⟨some "gen", .printer, .warn, 2⟩ false).result =
      .error (.write (.file "gen/print_P.h" .isFolder)) ∧
    ∃ table before a after, generateArtifacts table [.printer 2] = before ++ a :: after ∧
      "gen/print_P.h" = Path.join "gen" a.name ∧ Written blockedTree "gen" before
        (codegen blockedTree ["in.json"] ⟨some "gen", .printer, .warn, 2⟩ false).tree := by
  have hnames : (resolveInputs blockedTree ["in.json"] .warn false).result.map
      (fun table => (table.entries.map Struct.name, table.marked.map Struct.name)) =
      .ok (["P"], ["P"]) := by decide +kernel
  have hresult : (codegen blockedTree ["in.json"] ⟨some "gen", .printer, .warn, 2⟩ false).result =
      .error (.write (.file "gen/print_P.h" .isFolder)) := by decide +kernel
  cases hresolved : (resolveInputs blockedTree ["in.json"] .warn false).result with
  | error f =>
    rw [hresolved] at hnames
    cases hnames
  | ok table =>
    rw [hresolved] at hnames
    obtain ⟨hentries, hmarked⟩ := Prod.mk.inj (Except.ok.inj hnames)
    have hslash : ∀ table',
        (resolveInputs blockedTree ["in.json"] .warn false).result = .ok table' →
        ∀ x ∈ table'.entries, '/' ∉ x.name.toList := by
      intro table' htable' x hx
      obtain rfl : table = table' := Except.ok.inj (hresolved.symm.trans htable')
      have hname := List.mem_map_of_mem (f := Struct.name) hx
      rw [hentries, List.mem_singleton] at hname
      simp [hname]
    have hsome : table.marked ≠ [] := by
      intro he
      simp [he] at hmarked
    have hrun := codegen_tree (s := ⟨some "gen", .printer, .warn, 2⟩) linkless_blockedTree
      ["in.json"] rfl false hslash
    obtain ⟨hok, -⟩ | ⟨e, hfolder, -⟩ | ⟨before, a, after, e, hsplit, hfile, hwritten⟩ :=
      (hrun.2 table hresolved).2 hsome
    · exact absurd (hresult.symm.trans hok) nofun
    · exact absurd (Failure.write.inj (Except.error.inj (hresult.symm.trans hfolder))) nofun
    · have hwrite := Failure.write.inj (Except.error.inj (hresult.symm.trans hfile))
      exact ⟨hresult, table, before, a, after, hsplit, (WriteError.file.inj hwrite).1, hwritten⟩

end Command

end Inspector
