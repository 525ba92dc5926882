import Inspector.Proofs.Reach
import Inspector.Proofs.Spelling

/-! What the changes of a tree leave as it was. Directories are only made where nothing was, and
files are only written where no directory is, so every path that led to an entry still leads there.
In a tree without links a name below a directory stands for one place and no other. -/
namespace Inspector.Tree

variable {t t' t'' : Tree} {p q d : Place} {path name : String}

theorem isName_of_mem_segments {cs s : List Char} (h : s ∈ Path.segments cs) (hs : s ≠ [])
    (hdots : String.ofList s ≠ "." ∧ String.ofList s ≠ "..") : IsName (String.ofList s) := by
  refine ⟨?_, ?_, hdots⟩
  · intro he
    exact hs (by simpa [← String.toList_inj] using he)
  · rw [String.toList_ofList]
    exact Path.no_slash_of_mem_segments h

/-- What was there is still there and of the same kind; a file may have other contents. -/
structure Grows (t t' : Tree) : Prop where
  here : t'.here = t.here
  folder : ∀ p, t.get? p = some .folder → t'.get? p = some .folder
  link : ∀ p target, t.get? p = some (.link target) → t'.get? p = some (.link target)
  file : ∀ p c, t.get? p = some (.file c) → ∃ c', t'.get? p = some (.file c')

namespace Grows

theorem refl (t : Tree) : t.Grows t :=
  ⟨rfl, fun _ h => h, fun _ _ h => h, fun _ c h => ⟨c, h⟩⟩

theorem trans (h : t.Grows t') (h' : t'.Grows t'') : t.Grows t'' := by
  refine ⟨h'.here.trans h.here, fun p hp => h'.folder p (h.folder p hp),
    fun p target hp => h'.link p target (h.link p target hp), ?_⟩
  intro p c hp
  obtain ⟨c', hc'⟩ := h.file p c hp
  exact h'.file p c' hc'

theorem solid (h : t.Grows t') (hp : t.Solid p) : t'.Solid p := by
  obtain hp | ⟨c, hp⟩ := hp
  · exact Or.inl (h.folder p hp)
  · exact Or.inr (h.file p c hp)

/-- A directory is made where nothing was. -/
theorem put_folder (hq : t.get? q = none) : t.Grows (t.put q .folder) := by
  have hne : q ≠ [] := by
    intro he
    simp [he, get?] at hq
  have hother : ∀ p, t.get? p ≠ none → (t.put q .folder).get? p = t.get? p := by
    intro p hp
    have hpq : p ≠ q := fun he => hp (he ▸ hq)
    rw [get?_put t q p _ hne, if_neg hpq]
  refine ⟨rfl, ?_, ?_, ?_⟩
  · intro p hp
    rwa [hother p (by simp [hp])]
  · intro p target hp
    rwa [hother p (by simp [hp])]
  · intro p c hp
    rw [hother p (by simp [hp])]
    exact ⟨c, hp⟩

/-- A file is written where neither a directory nor a link is. -/
theorem put_file (c : Content) (hq : t.get? q ≠ some .folder)
    (hl : ∀ target, t.get? q ≠ some (.link target)) : t.Grows (t.put q (.file c)) := by
  have hne : q ≠ [] := by
    intro he
    simp [he, get?] at hq
  refine ⟨rfl, ?_, ?_, ?_⟩
  · intro p hp
    have hpq : p ≠ q := fun he => hq (he ▸ hp)
    rwa [get?_put t q p _ hne, if_neg hpq]
  · intro p target hp
    have hpq : p ≠ q := fun he => hl target (he ▸ hp)
    rwa [get?_put t q p _ hne, if_neg hpq]
  · intro p c' hp
    rw [get?_put t q p _ hne]
    split
    · exact ⟨c, rfl⟩
    · exact ⟨c', hp⟩

theorem descend (h : t.Grows t') {follow follow' : Place → List String → Except OsError Spot}
    (hfollow : ∀ p ss, follow p ss = .ok (.found q) → follow' p ss = .ok (.found q))
    {ss : List String} (hp : t.descend follow p ss = .ok (.found q)) :
    t'.descend follow' p ss = .ok (.found q) := by
  induction ss generalizing p with
  | nil => exact hp
  | cons s ss ih =>
    obtain ⟨hfolder, rfl | rfl | ⟨hs, he | ⟨target, hl⟩⟩⟩ := descend_cases hp
    · rw [descend_current hfolder] at hp
      rw [descend_current (h.folder p hfolder)]
      exact ih hp
    · rw [descend_parent hfolder] at hp
      rw [descend_parent (h.folder p hfolder)]
      exact ih hp
    · rw [descend_entry hfolder hs he] at hp
      rw [descend_entry (h.folder p hfolder) hs (h.solid he)]
      exact ih hp
    · rw [descend_link hfolder hs hl] at hp
      rw [descend_link (h.folder p hfolder) hs (h.link _ target hl)]
      exact hfollow _ _ hp

theorem resolve (h : t.Grows t') {links : Nat} {ss : List String}
    (hp : t.resolve links p ss = .ok (.found q)) : t'.resolve links p ss = .ok (.found q) := by
  induction links generalizing p ss with
  | zero =>
    refine h.descend ?_ hp
    intro p ss hp
    cases hp
  | succ links ih => exact h.descend (fun p ss hp => ih hp) hp

/-- A path still leads to the entry it led to. -/
theorem locate (h : t.Grows t') (hp : t.locate path = .ok (.found q)) :
    t'.locate path = .ok (.found q) := by
  unfold Tree.locate at hp ⊢
  split at hp
  · cases hp
  · next hne =>
    rw [if_neg hne, locateSteps, h.here]
    exact h.resolve hp

end Grows

theorem isFolder_iff : t.isFolder path = true ↔
    ∃ q, t.locate path = .ok (.found q) ∧ t.get? q = some .folder := by
  unfold isFolder
  constructor
  · intro h
    split at h
    · next q hq => exact ⟨q, hq, by simpa using h⟩
    · cases h
  · rintro ⟨q, hq, hfolder⟩
    simp [hq, hfolder]

theorem resolve_add_current {links : Nat} {ss : List String}
    (h : t.resolve links p ss = .ok (.found q)) (hq : t.get? q = some .folder) :
    t.resolve links p (ss ++ ["."]) = .ok (.found q) := by
  rw [← List.append_nil ss] at h
  refine resolve_behind ?_ h
  intro follow p h
  obtain rfl : p = q := by simpa [descend] using h
  rw [descend_current hq, descend]

/-- What a directory that is made has been missing. -/
theorem makeFolder_cases (h : t.makeFolder path = .ok t') :
    ∃ front last q, ((Path.segments path.toList).filter (· ≠ [])).map String.ofList =
        front ++ [last] ∧
      (last ≠ "." ∧ last ≠ "..") ∧ path.isEmpty = false ∧
      t.locateSteps path front = .ok (.found q) ∧ t.get? q = some .folder ∧
      t.get? (q ++ [last]) = none ∧ t' = t.put (q ++ [last]) .folder := by
  simp only [makeFolder] at h
  split at h
  · cases h
  · next hne =>
    split at h
    · cases h
    · next last hlast =>
      obtain ⟨front, hfront⟩ := List.getLast?_eq_some_iff.mp hlast
      rw [hfront, List.dropLast_concat] at h
      split at h
      · cases h
      · cases h
      · next q hq =>
        split at h
        · cases h
        · next hfolder =>
          split at h
          · cases h
          · next hdots =>
            split at h
            · cases h
            · next hnone =>
              have hmade := (Except.ok.inj h).symm
              exact ⟨front, last, q, hfront, not_or.mp hdots, by simpa using hne, hq,
                not_not.mp hfolder, hnone, hmade⟩

/-- A directory that is made was not there, and its path leads to it from then on. -/
theorem makeFolder_ok (h : t.makeFolder path = .ok t') :
    ∃ q, t.get? q = none ∧ t' = t.put q .folder ∧ t'.locate path = .ok (.found q) := by
  obtain ⟨front, last, q, hpath, hdots, hne, hq, hfolder, hnone, rfl⟩ := makeFolder_cases h
  have hgrows := Grows.put_folder hnone
  have hget : (t.put (q ++ [last]) .folder).get? (q ++ [last]) = some .folder := by
    rw [get?_put t _ _ _ (by simp), if_pos rfl]
  have hname : IsName last := by
    have hmem : last ∈ front ++ [last] := by simp
    rw [← hpath] at hmem
    obtain ⟨s, hs, rfl⟩ := List.mem_map.mp hmem
    obtain ⟨hs, hfull⟩ := List.mem_filter.mp hs
    exact isName_of_mem_segments hs (by simpa using hfull) hdots
  have hthere := resolve_name (hgrows.resolve hq) (hgrows.folder q hfolder) hname (Or.inl hget)
  refine ⟨q ++ [last], hnone, rfl, ?_⟩
  rw [Tree.locate, if_neg (by simp [hne]), locateSteps, steps, hpath]
  by_cases hslash : path.toList.getLast? = some '/'
  · simp only [hslash, if_true]
    exact resolve_add_current hthere hget
  · simp only [hslash, if_false, List.append_nil]
    exact hthere

/-- `t'` is `t` with directories made that were missing at some of the paths. -/
structure Made (t : Tree) (paths : List String) (t' : Tree) : Prop where
  grows : t.Grows t'
  only : ∀ q, t'.get? q = t.get? q ∨ t.get? q = none ∧ t'.get? q = some .folder ∧
    ∃ p ∈ paths, t'.locate p = .ok (.found q)

namespace Made

variable {paths : List String}

theorem refl (t : Tree) (paths : List String) : t.Made paths t :=
  ⟨.refl t, fun _ => Or.inl rfl⟩

theorem trans (h : t.Made paths t') (h' : t'.Made paths t'') : t.Made paths t'' := by
  refine ⟨h.grows.trans h'.grows, ?_⟩
  intro q
  obtain hq' | ⟨hnone', hfolder', p', hp', hq'⟩ := h'.only q
  · rw [hq']
    obtain hq | ⟨hnone, hfolder, p, hp, hq⟩ := h.only q
    · exact Or.inl hq
    · exact Or.inr ⟨hnone, hfolder, p, hp, h'.grows.locate hq⟩
  · obtain hq | ⟨_, hfolder, _⟩ := h.only q
    · exact Or.inr ⟨hq ▸ hnone', hfolder', p', hp', hq'⟩
    · rw [hfolder] at hnone'
      cases hnone'

theorem cons (path : String) (h : t.Made paths t') : t.Made (path :: paths) t' := by
  refine ⟨h.grows, ?_⟩
  intro q
  obtain hq | ⟨hnone, hfolder, p, hp, hq⟩ := h.only q
  · exact Or.inl hq
  · exact Or.inr ⟨hnone, hfolder, p, List.mem_cons_of_mem path hp, hq⟩

theorem of_makeFolder (paths : List String) (h : t.makeFolder path = .ok t') :
    t.Made (path :: paths) t' ∧ t'.isFolder path = true := by
  obtain ⟨q, hnone, rfl, hq⟩ := makeFolder_ok h
  have hne : q ≠ [] := by
    intro he
    simp [he, get?] at hnone
  have hget : (t.put q .folder).get? q = some .folder := by
    rw [get?_put t q q _ hne, if_pos rfl]
  refine ⟨⟨Grows.put_folder hnone, ?_⟩, isFolder_iff.mpr ⟨q, hq, hget⟩⟩
  intro r
  by_cases hr : r = q
  · subst hr
    exact Or.inr ⟨hnone, hget, path, List.mem_cons_self, hq⟩
  · exact Or.inl (by rw [get?_put t q r _ hne, if_neg hr])

end Made

/-- What is left of an attempt to make a directory. -/
theorem makeFolder_made (t : Tree) (path : String) (above : List String)
    {made : Tree × Option OsError}
    (h : made = match t.makeFolder path with
      | .ok t => (t, none)
      | .error e => (t, if t.isFolder path then none else some e)) :
    t.Made (path :: above) made.1 ∧ (made.2 = none → made.1.isFolder path = true) := by
  subst h
  cases hmade : t.makeFolder path with
  | ok t' =>
    obtain ⟨hgrown, hfolder⟩ := Made.of_makeFolder above hmade
    exact ⟨hgrown, fun _ => hfolder⟩
  | error e =>
    refine ⟨.refl t _, ?_⟩
    intro hnone
    by_contra hfolder
    simp [hfolder] at hnone

/-- Making a chain of directories makes nothing else, and if it succeeds the first is there. -/
theorem makeChain_made (t : Tree) (paths : List String) :
    t.Made paths (t.makeChain paths).1 ∧
      ((t.makeChain paths).2 = none →
        ∀ p, paths.head? = some p → (t.makeChain paths).1.isFolder p = true) := by
  induction paths generalizing t with
  | nil =>
    refine ⟨.refl t [], ?_⟩
    intro _ p hp
    cases hp
  | cons path above ih =>
    obtain ⟨habove, _⟩ := ih t
    suffices hboth : t.Made (path :: above) (t.makeChain (path :: above)).1 ∧
        ((t.makeChain (path :: above)).2 = none →
          (t.makeChain (path :: above)).1.isFolder path = true) by
      refine ⟨hboth.1, ?_⟩
      intro hnone p hp
      obtain rfl : path = p := Option.some.inj hp
      exact hboth.2 hnone
    by_cases hmissing : t.makeFolder path = .error .notFound
    · cases hchain : t.makeChain above with
      | mk t' failed =>
        rw [hchain] at habove
        cases failed with
        | some e => simp [makeChain, hmissing, hchain, habove.cons]
        | none =>
          have hretry : t.makeChain (path :: above) = match t'.makeFolder path with
              | .ok t => (t, none)
              | .error e => (t', if t'.isFolder path then none else some e) := by
            cases hagain : t'.makeFolder path with
            | ok made => simp [makeChain, hmissing, hchain, hagain]
            | error e => simp [makeChain, hmissing, hchain, hagain]
          obtain ⟨hmade, hfolder⟩ := makeFolder_made t' path above hretry
          exact ⟨(habove.cons path).trans hmade, hfolder⟩
    · apply makeFolder_made t path above
      rw [makeChain]
      cases hmade : t.makeFolder path with
      | ok t' => rfl
      | error e =>
        rw [hmade] at hmissing
        cases e with
        | notFound => exact absurd rfl hmissing
        | _ => rfl

def Linkless (t : Tree) : Prop := ∀ p target, t.get? p ≠ some (.link target)

theorem linkless_of_entries (h : ∀ x ∈ t.entries, ∀ target, x.2 ≠ .link target) : t.Linkless := by
  intro p target hp
  unfold get? at hp
  split at hp
  · cases hp
  · obtain ⟨before, after, he, _⟩ := List.lookup_eq_some_iff.mp hp
    exact h (p, .link target) (he ▸ List.mem_append_right before List.mem_cons_self) target rfl

theorem Linkless.put (h : t.Linkless) (hq : q ≠ []) {e : Entry} (he : ∀ target, e ≠ .link target) :
    (t.put q e).Linkless := by
  intro p target hp
  rw [get?_put t q p e hq] at hp
  split at hp
  · exact he target (Option.some.inj hp)
  · exact h p target hp

theorem Linkless.made {paths : List String} (h : t.Linkless) (hmade : t.Made paths t') :
    t'.Linkless := by
  intro p target hp
  obtain he | ⟨_, he, _⟩ := hmade.only p
  · exact h p target (he ▸ hp)
  · rw [he] at hp
    cases hp

theorem resolve_one (hl : t.Linkless) (hfolder : t.get? d = some .folder) (hname : IsName name)
    (links : Nat) : t.resolve links d [name] =
      .ok (if t.get? (d ++ [name]) = none then .vacant (d ++ [name])
        else .found (d ++ [name])) := by
  have hstep : ∀ follow, t.descend follow d [name] =
      .ok (if t.get? (d ++ [name]) = none then .vacant (d ++ [name])
        else .found (d ++ [name])) := by
    intro follow
    cases he : t.get? (d ++ [name]) with
    | none => simp [descend, hfolder, hname.2.2.1, hname.2.2.2, he]
    | some e =>
      cases e with
      | folder => simp [descend, hfolder, hname.2.2.1, hname.2.2.2, he]
      | file c => simp [descend, hfolder, hname.2.2.1, hname.2.2.2, he]
      | link target => exact absurd he (hl _ target)
  cases links with
  | zero => exact hstep _
  | succ links => exact hstep _

/-- In a tree without links a path right below a directory leads to the one place with its name. -/
theorem locate_below (hl : t.Linkless) {dir : String} (hd : t.locate (rootOf dir) = .ok (.found d))
    (hfolder : t.get? d = some .folder) (hname : IsName name) :
    t.locate (Path.join dir name) =
      .ok (if t.get? (d ++ [name]) = none then .vacant (d ++ [name])
        else .found (d ++ [name])) := by
  have hnames : ∀ n ∈ [name], IsName n := by simpa using hname
  have hspell : spell [name] = name := by simp [spell, Path.unsegments]
  obtain ⟨start, ss, hlocate, hroot⟩ := locate_join_eq t dir (by simp) hnames
  have hss : t.resolve maxLinks start ss = .ok (.found d) := by
    have hleads := leads_of_locate hd
    unfold Leads at hleads
    obtain hsame | hdot := hroot
    · rwa [hsame, List.append_nil] at hleads
    · rw [hdot] at hleads
      have hdrop := resolve_drop_current hleads
      rwa [List.append_nil] at hdrop
  obtain ⟨left, hleft⟩ := resolve_append [name] hss
  rw [← hspell, hlocate, hspell, hleft, resolve_one hl hfolder hname]

/-- A file can be written right below a directory unless a directory has its name. -/
theorem write_below (hl : t.Linkless) {dir : String} (hd : t.locate (rootOf dir) = .ok (.found d))
    (hfolder : t.get? d = some .folder) (hname : IsName name) (s : String) :
    t.write (Path.join dir name) s =
      if t.get? (d ++ [name]) = some .folder then .error .isFolder
      else .ok (t.put (d ++ [name]) (.file (.text s))) := by
  rw [write, locate_below hl hd hfolder hname]
  cases he : t.get? (d ++ [name]) with
  | none => simp
  | some e => simp [he]

theorem read_below (hl : t.Linkless) {dir : String} (hd : t.locate (rootOf dir) = .ok (.found d))
    (hfolder : t.get? d = some .folder) (hname : IsName name) {s : String}
    (hfile : t.get? (d ++ [name]) = some (.file (.text s))) :
    t.read (Path.join dir name) = .ok s := by
  rw [read, locate_below hl hd hfolder hname]
  simp [hfile]

end Inspector.Tree
