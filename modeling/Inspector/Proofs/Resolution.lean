import Inspector.Tree.Walk
import Mathlib.Data.List.Forall2

/-! Where paths lead in a tree, and which files a walk finds. Whatever route a walk reports, the
same names lead from its root to a regular file, with every link on the way followed again. -/
namespace Inspector.Tree

def IsName (s : String) : Prop := s ≠ "" ∧ '/' ∉ s.toList ∧ s ≠ "." ∧ s ≠ ".."

instance (s : String) : Decidable (IsName s) := inferInstanceAs (Decidable (_ ∧ _))

structure WellFormed (t : Tree) : Prop where
  names : ∀ x ∈ t.entries, ∀ n ∈ x.1, IsName n
  parents : ∀ x ∈ t.entries, t.get? x.1.dropLast = some .folder

def HasName (t : Tree) (n : String) : Prop := ∃ x ∈ t.entries, n ∈ x.1

def Solid (t : Tree) (p : Place) : Prop :=
  t.get? p = some .folder ∨ ∃ c, t.get? p = some (.file c)

variable {t : Tree} {root : String} {route : List String} {p q : Place} {name : String}

theorem WellFormed.parent (ht : t.WellFormed) {e : Entry} (h : t.get? p = some e) :
    t.get? p.dropLast = some .folder := by
  unfold get? at h
  split at h
  · next hp =>
    subst hp
    rfl
  · obtain ⟨before, after, he, _⟩ := List.lookup_eq_some_iff.mp h
    exact ht.parents (p, e) (he ▸ List.mem_append_right before List.mem_cons_self)

theorem WellFormed.isName (ht : t.WellFormed) (h : t.HasName name) : IsName name := by
  obtain ⟨x, hx, hname⟩ := h
  exact ht.names x hx name hname

theorem hasName_of_mem_names (h : name ∈ t.names p) : t.HasName name := by
  obtain ⟨⟨q, e⟩, hx, hlast⟩ := List.mem_filterMap.mp h
  obtain ⟨_, hlast⟩ := Option.ite_none_right_eq_some.mp hlast
  exact ⟨(q, e), hx, List.mem_of_getLast? hlast⟩

section Descend

variable {follow : Place → List String → Except OsError Spot} {s : String} {rest : List String}

theorem descend_current (hp : t.get? p = some .folder) :
    t.descend follow p ("." :: rest) = t.descend follow p rest := by
  simp [descend, hp]

theorem descend_parent (hp : t.get? p = some .folder) :
    t.descend follow p (".." :: rest) = t.descend follow p.dropLast rest := by
  simp [descend, hp]

theorem descend_link (hp : t.get? p = some .folder) (hs : s ≠ "." ∧ s ≠ "..") {target : String}
    (hl : t.get? (p ++ [s]) = some (.link target)) :
    t.descend follow p (s :: rest) =
      follow (if Path.isAbsolute target then [] else p) (steps target ++ rest) := by
  simp [descend, hp, hs.1, hs.2, hl]

theorem descend_entry (hp : t.get? p = some .folder) (hs : s ≠ "." ∧ s ≠ "..")
    (he : t.Solid (p ++ [s])) :
    t.descend follow p (s :: rest) = t.descend follow (p ++ [s]) rest := by
  obtain he | ⟨c, he⟩ := he
  · simp [descend, hp, hs.1, hs.2, he]
  · simp [descend, hp, hs.1, hs.2, he]

/-- What the first step of a path can be that leads to an entry. -/
theorem descend_cases (h : t.descend follow p (s :: rest) = .ok (.found q)) :
    t.get? p = some .folder ∧ (s = "." ∨ s = ".." ∨ (s ≠ "." ∧ s ≠ "..") ∧
      (t.Solid (p ++ [s]) ∨ ∃ target, t.get? (p ++ [s]) = some (.link target))) := by
  by_cases hp : t.get? p = some .folder
  · refine ⟨hp, ?_⟩
    by_cases hdot : s = "."
    · exact Or.inl hdot
    · by_cases hdots : s = ".."
      · exact Or.inr (Or.inl hdots)
      · refine Or.inr (Or.inr ⟨⟨hdot, hdots⟩, ?_⟩)
        cases he : t.get? (p ++ [s]) with
        | none =>
          simp only [descend, hp, hdot, hdots, he] at h
          by_cases hrest : rest = [] <;> simp [hrest] at h
        | some e =>
          cases e with
          | folder => exact Or.inl (Or.inl he)
          | file c => exact Or.inl (Or.inr ⟨c, he⟩)
          | link target => exact Or.inr ⟨target, rfl⟩
  · simp [descend, hp] at h

/-- A path leads to a directory or a file. -/
theorem solid_of_descend (ht : t.WellFormed)
    (hfollow : ∀ p ss, t.Solid p → follow p ss = .ok (.found q) → t.Solid q) {ss : List String}
    (hp : t.Solid p) (h : t.descend follow p ss = .ok (.found q)) : t.Solid q := by
  induction ss generalizing p with
  | nil =>
    obtain rfl : p = q := by simpa [descend] using h
    exact hp
  | cons s rest ih =>
    obtain ⟨hfolder, rfl | rfl | ⟨hs, he | ⟨target, hl⟩⟩⟩ := descend_cases h
    · rw [descend_current hfolder] at h
      exact ih hp h
    · rw [descend_parent hfolder] at h
      exact ih (Or.inl (ht.parent hfolder)) h
    · rw [descend_entry hfolder hs he] at h
      exact ih he h
    · rw [descend_link hfolder hs hl] at h
      refine hfollow _ _ ?_ h
      split
      · exact Or.inl rfl
      · exact hp

/-- The last steps of a path can be exchanged for others that lead on from the same places. -/
theorem descend_behind {q' : Place} {a b : List String}
    (hstart : ∀ p, t.descend follow p a = .ok (.found q) → t.descend follow p b = .ok (.found q'))
    (hfollow : ∀ p ss, follow p (ss ++ a) = .ok (.found q) → follow p (ss ++ b) = .ok (.found q'))
    {ss : List String} (h : t.descend follow p (ss ++ a) = .ok (.found q)) :
    t.descend follow p (ss ++ b) = .ok (.found q') := by
  induction ss generalizing p with
  | nil => exact hstart p h
  | cons s ss ih =>
    rw [List.cons_append] at h ⊢
    obtain ⟨hfolder, rfl | rfl | ⟨hs, he | ⟨target, hl⟩⟩⟩ := descend_cases h
    · rw [descend_current hfolder] at h ⊢
      exact ih h
    · rw [descend_parent hfolder] at h ⊢
      exact ih h
    · rw [descend_entry hfolder hs he] at h ⊢
      exact ih h
    · rw [descend_link hfolder hs hl, ← List.append_assoc] at h ⊢
      exact hfollow _ _ h

end Descend

section Resolve

variable {links : Nat} {ss : List String}

theorem solid_of_resolve (ht : t.WellFormed) (hp : t.Solid p)
    (h : t.resolve links p ss = .ok (.found q)) : t.Solid q := by
  induction links generalizing p ss with
  | zero =>
    refine solid_of_descend ht ?_ hp h
    intro p ss _ h
    cases h
  | succ links ih => exact solid_of_descend ht (fun p ss hp h => ih hp h) hp h

theorem resolve_behind {q' : Place} {a b : List String}
    (hstart : ∀ follow p, t.descend follow p a = .ok (.found q) →
      t.descend follow p b = .ok (.found q'))
    (h : t.resolve links p (ss ++ a) = .ok (.found q)) :
    t.resolve links p (ss ++ b) = .ok (.found q') := by
  induction links generalizing p ss with
  | zero =>
    refine descend_behind (hstart _) ?_ h
    intro p ss h
    cases h
  | succ links ih => exact descend_behind (hstart _) (fun p ss h => ih h) h

theorem folder_of_resolve {s : String} (h : t.resolve links p (s :: ss) = .ok (.found q)) :
    t.get? p = some .folder := by
  cases links with
  | zero => exact (descend_cases h).1
  | succ links => exact (descend_cases h).1

/-- A dot in a path changes nothing. -/
theorem resolve_drop_current {a : List String}
    (h : t.resolve links p (ss ++ "." :: a) = .ok (.found q)) :
    t.resolve links p (ss ++ a) = .ok (.found q) := by
  refine resolve_behind ?_ h
  intro follow p h
  rwa [descend_current (descend_cases h).1] at h

/-- One more name leads on to the entry it names. -/
theorem resolve_name (h : t.resolve links p ss = .ok (.found q)) (hq : t.get? q = some .folder)
    (hname : IsName name) (he : t.Solid (q ++ [name])) :
    t.resolve links p (ss ++ [name]) = .ok (.found (q ++ [name])) := by
  rw [← List.append_nil ss] at h
  refine resolve_behind ?_ h
  intro follow p h
  obtain rfl : p = q := by simpa [descend] using h
  rw [descend_entry hq hname.2.2 he, descend]

end Resolve

def Leads (t : Tree) (root : String) (route : List String) (p : Place) : Prop :=
  t.locateSteps root (steps root ++ route) = .ok (.found p)

theorem leads_of_locate (h : t.locate root = .ok (.found p)) : t.Leads root [] p := by
  unfold locate at h
  split at h
  · cases h
  · rwa [Leads, List.append_nil]

theorem leads_of_target (h : t.target root route = .ok q) : t.Leads root route q := by
  unfold target at h
  split at h
  · next hq =>
    obtain rfl := Except.ok.inj h
    exact hq
  · cases h
  · cases h

theorem Leads.further (h : t.Leads root route p) (hp : t.get? p = some .folder)
    (hname : IsName name) (he : t.Solid (p ++ [name])) :
    t.Leads root (route ++ [name]) (p ++ [name]) := by
  have hstep := resolve_name h hp hname he
  rwa [List.append_assoc] at hstep

theorem Leads.solid (ht : t.WellFormed) (h : t.Leads root (route ++ [name]) q) : t.Solid q := by
  unfold Leads locateSteps at h
  generalize hss : steps root ++ (route ++ [name]) = ss at h
  cases ss with
  | nil => simp at hss
  | cons s ss => exact solid_of_resolve ht (Or.inl (folder_of_resolve h)) h

def LeadsToFile (t : Tree) (root : String) (route : List String) : Prop :=
  ∃ q c, t.Leads root route q ∧ t.get? q = some (.file c)

/-- What a walk finds at a name: the file there, or what is found in the directory there. -/
theorem visitName_leads (ht : t.WellFormed)
    {into : List String → Place → Except WalkFault (List (List String))} {above : List Place}
    {found : List (List String)} (hroute : t.Leads root route p) (hp : t.get? p = some .folder)
    (hname : IsName name) (h : t.visitName root into above route p name = .ok found)
    {r : List String} (hr : r ∈ found) :
    r = route ++ [name] ∧ t.LeadsToFile root r ∨
      ∃ q, t.Leads root (route ++ [name]) q ∧ t.get? q = some .folder ∧
        ∃ files, into (route ++ [name]) q = .ok files ∧ r ∈ files := by
  unfold visitName at h
  cases he : t.get? (p ++ [name]) with
  | none =>
    simp only [he] at h
    obtain rfl := Except.ok.inj h
    cases hr
  | some e =>
    cases e with
    | folder =>
      simp only [he] at h
      exact Or.inr ⟨_, hroute.further hp hname (Or.inl he), he, _, h, hr⟩
    | file c =>
      simp only [he] at h
      obtain rfl := Except.ok.inj h
      obtain rfl := List.mem_singleton.mp hr
      exact Or.inl ⟨rfl, _, c, hroute.further hp hname (Or.inr ⟨c, he⟩), he⟩
    | link target =>
      simp only [he] at h
      cases hq : t.target root (route ++ [name]) with
      | error e =>
        simp only [hq] at h
        cases h
      | ok q =>
        have hleads := leads_of_target hq
        simp only [hq] at h
        obtain hfolder | ⟨c, hfile⟩ := hleads.solid ht
        · rw [if_pos hfolder] at h
          by_cases hloop : q ∈ above
          · rw [if_pos hloop] at h
            cases h
          · rw [if_neg hloop] at h
            exact Or.inr ⟨q, hleads, hfolder, _, h, hr⟩
        · rw [if_neg (by simp [hfile])] at h
          obtain rfl := Except.ok.inj h
          obtain rfl := List.mem_singleton.mp hr
          exact Or.inl ⟨rfl, q, c, hleads, hfile⟩

theorem forall₂_of_mapM_ok {ε α β : Type} {f : α → Except ε β} {xs : List α} {ys : List β}
    (h : xs.mapM f = .ok ys) : List.Forall₂ (fun x y => f x = .ok y) xs ys := by
  induction xs generalizing ys with
  | nil =>
    obtain rfl := Except.ok.inj h
    exact .nil
  | cons x xs ih =>
    rw [List.mapM_cons] at h
    cases hx : f x with
    | error e => simp [hx, bind, Except.bind] at h
    | ok z =>
      cases hxs : xs.mapM f with
      | error e => simp [hx, hxs, bind, Except.bind] at h
      | ok zs =>
        simp only [hx, hxs, bind, Except.bind, pure, Except.pure] at h
        obtain rfl := Except.ok.inj h
        exact .cons hx (ih hxs)

theorem mapM_ok_of_forall₂ {ε α β : Type} {f : α → Except ε β} {xs : List α} {ys : List β}
    (h : List.Forall₂ (fun x y => f x = .ok y) xs ys) : xs.mapM f = .ok ys := by
  induction h with
  | nil => rfl
  | cons hx _ ih => simp [List.mapM_cons, hx, ih, bind, Except.bind, pure, Except.pure]

theorem exists_left_of_forall₂ {α β : Type} {R : α → β → Prop} {xs : List α} {ys : List β}
    (h : List.Forall₂ R xs ys) {y : β} (hy : y ∈ ys) : ∃ x ∈ xs, R x y := by
  induction h with
  | nil => cases hy
  | cons hx _ ih =>
    obtain rfl | hy := List.mem_cons.mp hy
    · exact ⟨_, List.mem_cons_self, hx⟩
    · obtain ⟨x', hx', hr⟩ := ih hy
      exact ⟨x', List.mem_cons_of_mem _ hx', hr⟩

/-- A walk finds what it finds at each name of the directory. -/
theorem walk_ok_iff {above : List Place} {depth : Nat} {files : List (List String)} :
    t.walk root (depth + 1) above route p = .ok files ↔
      ∃ found, List.Forall₂ (fun name fs => t.visitName root
          (fun route q => t.walk root depth (q :: above) route q) above route p name = .ok fs)
        (t.names p) found ∧ found.flatten = files := by
  rw [walk]
  constructor
  · intro h
    cases hfound : (t.names p).mapM (t.visitName root
        (fun route q => t.walk root depth (q :: above) route q) above route p) with
    | error e => simp [hfound, bind, Except.bind] at h
    | ok found =>
      simp only [hfound, bind, Except.bind, pure, Except.pure] at h
      exact ⟨found, forall₂_of_mapM_ok hfound, Except.ok.inj h⟩
  · rintro ⟨found, hfound, rfl⟩
    simp [mapM_ok_of_forall₂ hfound, bind, Except.bind, pure, Except.pure]

/-- A walk goes on from its route by at least one name and at most `depth`, and comes to a file. -/
theorem walk_leads (ht : t.WellFormed) {depth : Nat} {above : List Place}
    {files : List (List String)} (hroute : t.Leads root route p)
    (hp : t.get? p = some .folder) (h : t.walk root depth above route p = .ok files)
    {r : List String} (hr : r ∈ files) :
    ∃ names, r = route ++ names ∧ names ≠ [] ∧ names.length ≤ depth ∧
      (∀ n ∈ names, t.HasName n) ∧ t.LeadsToFile root r := by
  induction depth generalizing above route p files with
  | zero =>
    obtain rfl := Except.ok.inj h
    cases hr
  | succ depth ih =>
    obtain ⟨found, hfound, rfl⟩ := walk_ok_iff.mp h
    obtain ⟨inner, hinner, hr⟩ := List.mem_flatten.mp hr
    obtain ⟨name, hmem, hvisit⟩ := exists_left_of_forall₂ hfound hinner
    have hown := hasName_of_mem_names hmem
    obtain ⟨rfl, hfile⟩ | ⟨q, hleads, hfolder, files, hwalk, hr⟩ :=
      visitName_leads ht hroute hp (ht.isName hown) hvisit hr
    · exact ⟨[name], rfl, by simp, by simp, by simpa using hown, hfile⟩
    · obtain ⟨names, rfl, _, hlen, hnames, hfile⟩ := ih hleads hfolder hwalk hr
      refine ⟨name :: names, by simp, by simp, ?_, ?_, hfile⟩
      · rw [List.length_cons]
        omega
      · exact List.forall_mem_cons.mpr ⟨hown, hnames⟩

/-- Every file below a directory is reached from there by its route. -/
theorem filesBelow_leads (ht : t.WellFormed) {depth : Option Nat} {files : List (List String)}
    (h : t.filesBelow root depth = .ok files) {r : List String} (hr : r ∈ files) :
    r ≠ [] ∧ (∀ d ∈ depth, r.length ≤ d) ∧ (∀ n ∈ r, t.HasName n) ∧ t.LeadsToFile root r := by
  unfold filesBelow at h
  cases hloc : t.locate root with
  | error e =>
    simp only [hloc] at h
    obtain rfl := Except.ok.inj h
    cases hr
  | ok spot =>
    cases spot with
    | vacant p =>
      simp only [hloc] at h
      obtain rfl := Except.ok.inj h
      cases hr
    | found p =>
      simp only [hloc] at h
      by_cases hp : t.get? p = some .folder
      · rw [if_pos hp] at h
        obtain ⟨names, rfl, hne, hlen, hnames, hfile⟩ :=
          walk_leads ht (leads_of_locate hloc) hp h hr
        refine ⟨hne, ?_, hnames, hfile⟩
        intro d hd
        obtain rfl : depth = some d := hd
        exact hlen
      · rw [if_neg hp] at h
        obtain rfl := Except.ok.inj h
        cases hr

end Inspector.Tree
