import Inspector.Proofs.Resolution
import Mathlib.Data.List.Induction
import Mathlib.Data.List.Nodup
import Mathlib.Data.List.Perm.Subperm
import Mathlib.Tactic.Linarith

/-! A walk misses nothing. If it comes to an end without a fault, every regular file that some names
lead to is among its routes, however deep it lies: each directory below is one level further down,
and a link opens a directory that was not open before, so the bound on the depth is never met. -/
namespace Inspector.Tree

variable {t : Tree} {root : String} {route : List String} {p q : Place} {name : String}

theorem mem_places_of_get? {e : Entry} (h : t.get? p = some e) (hp : p ≠ []) :
    p ∈ t.entries.map Prod.fst := by
  rw [get?, if_neg hp] at h
  obtain ⟨before, after, he, _⟩ := List.lookup_eq_some_iff.mp h
  rw [he]
  simp

theorem mem_names {e : Entry} (h : t.get? (p ++ [name]) = some e) : name ∈ t.names p := by
  obtain ⟨x, hx, hplace⟩ := List.mem_map.mp (mem_places_of_get? h (by simp))
  refine List.mem_filterMap.mpr ⟨x, hx, ?_⟩
  simp [hplace]

section Descend

variable {follow : Place → List String → Except OsError Spot} {ss a : List String}

/-- The first steps of a path that leads to an entry lead to one too. -/
theorem descend_front (hfollow : ∀ p ss, follow p (ss ++ a) = .ok (.found q) →
      ∃ r, follow p ss = .ok (.found r))
    (h : t.descend follow p (ss ++ a) = .ok (.found q)) :
    ∃ r, t.descend follow p ss = .ok (.found r) := by
  induction ss generalizing p with
  | nil => exact ⟨p, rfl⟩
  | cons s ss ih =>
    rw [List.cons_append] at h
    obtain ⟨hfolder, rfl | rfl | ⟨hs, he | ⟨target, hl⟩⟩⟩ := descend_cases h
    · rw [descend_current hfolder] at h ⊢
      exact ih h
    · rw [descend_parent hfolder] at h ⊢
      exact ih h
    · rw [descend_entry hfolder hs he] at h ⊢
      exact ih h
    · rw [descend_link hfolder hs hl] at h ⊢
      rw [← List.append_assoc] at h
      exact hfollow _ _ h

/-- Behind the place that the first steps lead to, the others go on as a path of their own. -/
theorem descend_append
    (hfollow : ∀ p ss, follow p ss = .ok (.found q) →
      ∃ links, follow p (ss ++ a) = t.resolve links q a)
    (hhere : ∃ links, t.descend follow q a = t.resolve links q a)
    (h : t.descend follow p ss = .ok (.found q)) :
    ∃ links, t.descend follow p (ss ++ a) = t.resolve links q a := by
  induction ss generalizing p with
  | nil =>
    obtain rfl : p = q := by simpa [descend] using h
    exact hhere
  | cons s ss ih =>
    rw [List.cons_append]
    obtain ⟨hfolder, rfl | rfl | ⟨hs, he | ⟨target, hl⟩⟩⟩ := descend_cases h
    · rw [descend_current hfolder] at h ⊢
      exact ih h
    · rw [descend_parent hfolder] at h ⊢
      exact ih h
    · rw [descend_entry hfolder hs he] at h ⊢
      exact ih h
    · rw [descend_link hfolder hs hl] at h ⊢
      rw [← List.append_assoc]
      exact hfollow _ _ h

end Descend

section Resolve

variable {links : Nat} {ss a : List String}

theorem resolve_front (h : t.resolve links p (ss ++ a) = .ok (.found q)) :
    ∃ r, t.resolve links p ss = .ok (.found r) := by
  induction links generalizing p ss with
  | zero =>
    refine descend_front ?_ h
    intro p ss h
    cases h
  | succ links ih => exact descend_front (fun p ss h => ih h) h

theorem resolve_append (a : List String) (h : t.resolve links p ss = .ok (.found q)) :
    ∃ left, t.resolve links p (ss ++ a) = t.resolve left q a := by
  induction links generalizing p ss with
  | zero =>
    refine descend_append ?_ ⟨0, rfl⟩ h
    intro p ss h
    cases h
  | succ links ih => exact descend_append (fun p ss h => ih h) ⟨links + 1, rfl⟩ h

/-- A name on the way to an entry is the name of an entry. -/
theorem entry_of_resolve {s : String} (hs : s ≠ "." ∧ s ≠ "..")
    (h : t.resolve links p (s :: ss) = .ok (.found q)) : ∃ e, t.get? (p ++ [s]) = some e := by
  have hstep : ∃ follow, t.descend follow p (s :: ss) = .ok (.found q) := by
    cases links with
    | zero => exact ⟨_, h⟩
    | succ links => exact ⟨_, h⟩
  obtain ⟨follow, hstep⟩ := hstep
  obtain ⟨_, rfl | rfl | ⟨_, (he | ⟨c, he⟩) | ⟨target, he⟩⟩⟩ := descend_cases hstep
  · exact absurd rfl hs.1
  · exact absurd rfl hs.2
  · exact ⟨_, he⟩
  · exact ⟨_, he⟩
  · exact ⟨_, he⟩

theorem hasName_of_resolve (h : t.resolve links p ss = .ok (.found q)) {s : String} (hs : s ∈ ss)
    (hname : s ≠ "." ∧ s ≠ "..") : t.HasName s := by
  obtain ⟨front, back, rfl⟩ := List.append_of_mem hs
  obtain ⟨r, hr⟩ := resolve_front h
  obtain ⟨left, hleft⟩ := resolve_append (s :: back) hr
  obtain ⟨e, he⟩ := entry_of_resolve hname (hleft.symm.trans h)
  exact hasName_of_mem_names (mem_names he)

end Resolve

namespace Leads

variable {names : List String}

theorem unique (h : t.Leads root route p) (h' : t.Leads root route q) : p = q := by
  unfold Leads at h h'
  rw [h] at h'
  simpa using h'

/-- Further names go on from the place that a route leads to. -/
theorem behind (h : t.Leads root route p) (h' : t.Leads root (route ++ names) q) :
    ∃ links, t.resolve links p names = .ok (.found q) := by
  obtain ⟨links, hlinks⟩ := resolve_append names h
  rw [List.append_assoc] at hlinks
  exact ⟨links, hlinks.symm.trans h'⟩

end Leads

namespace LeadsToFile

variable {names : List String}

/-- The next name on the way to a file is that of an entry. -/
theorem entry (h : t.LeadsToFile root (route ++ name :: names)) (hroute : t.Leads root route p)
    (hname : name ≠ "." ∧ name ≠ "..") : ∃ e, t.get? (p ++ [name]) = some e := by
  obtain ⟨q, c, hq, _⟩ := h
  obtain ⟨links, hlinks⟩ := hroute.behind hq
  exact entry_of_resolve hname hlinks

/-- Nothing is below a regular file. -/
theorem last (h : t.LeadsToFile root (route ++ names)) (hroute : t.Leads root route p)
    (hp : t.get? p ≠ some .folder) : names = [] := by
  obtain ⟨q, c, hq, _⟩ := h
  obtain ⟨links, hlinks⟩ := hroute.behind hq
  cases names with
  | nil => rfl
  | cons n ns => exact absurd (folder_of_resolve hlinks) hp

end LeadsToFile

/-- What a walk does at a name on the way to a file: the file is there, or the walk enters a
directory that is one level further down or was not open before. -/
theorem visitName_finds
    {into : List String → Place → Except WalkFault (List (List String))} {above : List Place}
    {found : List (List String)} {names : List String} (hroute : t.Leads root route p)
    (hp : t.get? p = some .folder) (hname : IsName name)
    (hfile : t.LeadsToFile root (route ++ name :: names))
    (h : t.visitName root into above route p name = .ok found) :
    names = [] ∧ route ++ [name] ∈ found ∨
      ∃ q, t.Leads root (route ++ [name]) q ∧ t.get? q = some .folder ∧
        (q = p ++ [name] ∨ q ∉ above) ∧ into (route ++ [name]) q = .ok found := by
  have hstep : route ++ name :: names = (route ++ [name]) ++ names := by simp
  obtain ⟨e, he⟩ := hfile.entry hroute hname.2.2
  rw [hstep] at hfile
  unfold visitName at h
  cases e with
  | folder =>
    simp only [he] at h
    exact Or.inr ⟨_, hroute.further hp hname (Or.inl he), he, Or.inl rfl, h⟩
  | file c =>
    simp only [he] at h
    obtain rfl := Except.ok.inj h
    have hleads := hroute.further hp hname (Or.inr ⟨c, he⟩)
    exact Or.inl ⟨hfile.last hleads (by simp [he]), List.mem_singleton.mpr rfl⟩
  | link target =>
    simp only [he] at h
    cases hq : t.target root (route ++ [name]) with
    | error e =>
      simp only [hq] at h
      cases h
    | ok q =>
      have hleads := leads_of_target hq
      simp only [hq] at h
      by_cases hfolder : t.get? q = some .folder
      · rw [if_pos hfolder] at h
        by_cases hloop : q ∈ above
        · rw [if_pos hloop] at h
          cases h
        · rw [if_neg hloop] at h
          exact Or.inr ⟨q, hleads, hfolder, Or.inr hloop, h⟩
      · rw [if_neg hfolder] at h
        obtain rfl := Except.ok.inj h
        exact Or.inl ⟨hfile.last hleads hfolder, List.mem_singleton.mpr rfl⟩

section Room

def unopened (t : Tree) (above : List Place) : List Place :=
  ([] :: t.entries.map Prod.fst).filter fun p => !above.contains p

/-- How many levels a walk can go down from `p`: as many as there are below it, and for each link to
a directory that is not open yet all levels anew. -/
def room (t : Tree) (above : List Place) (p : Place) : Nat :=
  (t.unopened above).length * (t.entries.length + 1) + (t.entries.length - p.length)

theorem get?_front (ht : t.WellFormed) {e : Entry} (h : t.get? p = some e) (hq : q <+: p) :
    ∃ d, t.get? q = some d := by
  induction p using List.reverseRecOn generalizing e with
  | nil =>
    obtain rfl : q = [] := List.prefix_nil.mp hq
    exact ⟨e, h⟩
  | append_singleton p name ih =>
    obtain rfl | hq := List.prefix_concat_iff.mp hq
    · exact ⟨e, h⟩
    · have hparent := ht.parent h
      rw [List.dropLast_concat] at hparent
      exact ih hparent hq

/-- No place lies deeper than there are entries. -/
theorem length_le_of_get? (ht : t.WellFormed) {e : Entry} (h : t.get? p = some e) :
    p.length ≤ t.entries.length := by
  have hinj : ∀ i ∈ List.range p.length, ∀ j ∈ List.range p.length,
      p.take (i + 1) = p.take (j + 1) → i = j := by
    intro i hi j hj he
    have hlen := congrArg List.length he
    rw [List.mem_range] at hi hj
    simp only [List.length_take] at hlen
    omega
  have hnodup := List.nodup_range.map_on hinj
  have hsub : (List.range p.length).map (fun k => p.take (k + 1)) ⊆ t.entries.map Prod.fst := by
    intro q hq
    obtain ⟨k, hk, rfl⟩ := List.mem_map.mp hq
    obtain ⟨d, hd⟩ := get?_front ht h (List.take_prefix (k + 1) p)
    refine mem_places_of_get? hd ?_
    have hpos := List.mem_range.mp hk
    intro hnil
    have hlen := congrArg List.length hnil
    simp only [List.length_take, List.length_nil] at hlen
    omega
  have hlen := (List.subperm_of_subset hnodup hsub).length_le
  simpa using hlen

theorem unopened_cons (above : List Place) (q : Place) :
    t.unopened (q :: above) = (t.unopened above).filter (· ≠ q) := by
  simp [unopened, List.filter_filter]

theorem length_unopened_le (above : List Place) :
    (t.unopened above).length ≤ t.entries.length + 1 := by
  have h := List.length_filter_le (fun p => !above.contains p) ([] :: t.entries.map Prod.fst)
  simpa [unopened] using h

theorem length_unopened_cons_le (above : List Place) (q : Place) :
    (t.unopened (q :: above)).length ≤ (t.unopened above).length := by
  rw [unopened_cons]
  exact List.length_filter_le _ _

theorem length_unopened_lt {above : List Place} {e : Entry} (hq : t.get? q = some e)
    (hnew : q ∉ above) : (t.unopened (q :: above)).length < (t.unopened above).length := by
  have hplace : q ∈ [] :: t.entries.map Prod.fst := by
    by_cases hroot : q = []
    · simp [hroot]
    · exact List.mem_cons_of_mem _ (mem_places_of_get? hq hroot)
  have hmem : q ∈ t.unopened above := List.mem_filter.mpr ⟨hplace, by simpa using hnew⟩
  rw [unopened_cons]
  exact List.length_filter_lt_length_iff_exists.mpr ⟨q, hmem, by simp⟩

theorem room_below (ht : t.WellFormed) (above : List Place) {e : Entry}
    (h : t.get? (p ++ [name]) = some e) :
    t.room ((p ++ [name]) :: above) (p ++ [name]) < t.room above p := by
  have hdeep := length_le_of_get? ht h
  have hopen := Nat.mul_le_mul_right (t.entries.length + 1)
    (length_unopened_cons_le (t := t) above (p ++ [name]))
  rw [List.length_append, List.length_singleton] at hdeep
  simp only [room, List.length_append, List.length_singleton]
  omega

theorem room_link {above : List Place} {e : Entry} (p : Place) (hq : t.get? q = some e)
    (hnew : q ∉ above) : t.room (q :: above) q < t.room above p := by
  have hopen := Nat.mul_le_mul_right (t.entries.length + 1) (length_unopened_lt hq hnew)
  rw [Nat.succ_mul] at hopen
  simp only [room]
  omega

/-- Every directory that a walk enters leaves less room. -/
theorem room_entered (ht : t.WellFormed) {above : List Place} {e : Entry}
    (hq : t.get? q = some e) (hfresh : q = p ++ [name] ∨ q ∉ above) :
    t.room (q :: above) q < t.room above p := by
  obtain rfl | hnew := hfresh
  · exact room_below ht above hq
  · exact room_link p hq hnew

/-- The bound on the depth is more than a walk has room for. -/
theorem room_lt_maxDepth (above : List Place) (p : Place) : t.room above p < t.maxDepth := by
  have hopen := length_unopened_le (t := t) above
  have hmul := Nat.mul_le_mul_right (t.entries.length + 1) hopen
  simp only [room, maxDepth]
  nlinarith [Nat.sub_le t.entries.length p.length]

end Room

/-- A walk that has room for its depth finds every file below. -/
theorem walk_finds (ht : t.WellFormed) {depth : Nat} {above : List Place}
    {files : List (List String)} {names : List String} (hroute : t.Leads root route p)
    (hp : t.get? p = some .folder) (hroom : t.room above p < depth)
    (h : t.walk root depth above route p = .ok files) (hne : names ≠ [])
    (hnames : ∀ n ∈ names, IsName n) (hfile : t.LeadsToFile root (route ++ names)) :
    route ++ names ∈ files := by
  -- Every directory that is entered leaves less room, so the depth does not run out on the way.
  induction depth generalizing above route p files names with
  | zero => omega
  | succ depth ih =>
    cases names with
    | nil => exact absurd rfl hne
    | cons name names =>
      obtain ⟨hname, hnames⟩ := List.forall_mem_cons.mp hnames
      obtain ⟨found, hfound, rfl⟩ := walk_ok_iff.mp h
      obtain ⟨e, he⟩ := hfile.entry hroute hname.2.2
      obtain ⟨inner, hinner, hvisit⟩ := exists_left_of_forall₂ hfound.flip (mem_names he)
      refine List.mem_flatten.mpr ⟨inner, hinner, ?_⟩
      obtain ⟨rfl, hmem⟩ | ⟨q, hleads, hfolder, hfresh, hwalk⟩ :=
        visitName_finds hroute hp hname hfile hvisit
      · exact hmem
      · have hless : t.room (q :: above) q < t.room above p := room_entered ht hfolder hfresh
        have hstep : route ++ name :: names = (route ++ [name]) ++ names := by simp
        rw [hstep] at hfile ⊢
        have hrest : names ≠ [] := by
          rintro rfl
          rw [List.append_nil] at hfile
          obtain ⟨q', c, hq', hc⟩ := hfile
          rw [hleads.unique hq', hc] at hfolder
          cases hfolder
        exact ih hleads hfolder (by omega) hwalk hrest hnames hfile

/-- Every regular file below a directory is found, at any depth and behind any links. -/
theorem filesBelow_finds (ht : t.WellFormed) (hroot : t.isFolder root = true)
    {files : List (List String)} (h : t.filesBelow root none = .ok files) {names : List String}
    (hne : names ≠ []) (hnames : ∀ n ∈ names, IsName n) (hfile : t.LeadsToFile root names) :
    names ∈ files := by
  unfold isFolder at hroot
  split at hroot
  · next q hloc =>
    have hfolder : t.get? q = some .folder := by simpa using hroot
    simp only [filesBelow, hloc, hfolder, if_true, Option.getD_none] at h
    exact walk_finds ht (leads_of_locate hloc) hfolder (room_lt_maxDepth _ q) h hne hnames hfile
  · cases hroot

end Inspector.Tree
