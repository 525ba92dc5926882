import Inspector.Command
import Inspector.Proofs.InputOrder
import Mathlib.Order.Bounds.Basic

/-! Loading and adding in turns. A command adds the unit of a file before it looks at the next file,
yet the table is the one of all units resolved together, and of all that can go wrong the first in
the order of the files is reported. -/
namespace Inspector

open Inspector.Log (Traced)

/-- The unit declares a name again that is taken, by a unit before it or by `own`, its own
declarations up to there. -/
structure SourceUnit.Redeclares (before : List SourceUnit) (u : SourceUnit)
    (own : List Declaration) (r : Redeclaration) : Prop where
  place : ∃ later, declarations [u] = own ++ r.later :: later
  earlier : r.earlier ∈ declarations before ++ own
  name : r.earlier.decl.name = r.later.decl.name

theorem declarations_append (us vs : List SourceUnit) :
    declarations (us ++ vs) = declarations us ++ declarations vs :=
  List.flatMap_append

theorem declarations_cons (u : SourceUnit) (us : List SourceUnit) :
    declarations (u :: us) = declarations [u] ++ declarations us :=
  declarations_append [u] us

/-- Nothing is redeclared where no name is declared twice. -/
theorem SourceUnit.not_redeclares {before after : List SourceUnit} {u : SourceUnit}
    {own : List Declaration} {r : Redeclaration}
    (h : ((declarations (before ++ u :: after)).map (·.decl.name)).Nodup) :
    ¬ u.Redeclares before own r := by
  intro hr
  obtain ⟨later, hplace⟩ := hr.place
  have hcut : declarations (before ++ u :: after) =
      (declarations before ++ own) ++ r.later :: (later ++ declarations after) := by
    rw [declarations_append, declarations_cons, hplace]
    simp
  rw [hcut, List.map_append, List.nodup_append] at h
  have hearlier := List.mem_map_of_mem (f := (·.decl.name)) hr.earlier
  exact h.2.2 _ hearlier _ List.mem_cons_self hr.name

namespace Resolver

variable {r r' : Resolver} {d : Declaration} {ds : List Declaration} {e : Redeclaration}

/-- A declaration is added, or it is refused because its name is taken. -/
theorem add_cases (r : Resolver) (d : Declaration) :
    (∃ events, r.add d = ⟨.ok { r with declared := r.declared.insert d }, events⟩ ∧
      (r.policy = .error → d.decl.name ∉ r.declared.names)) ∨
    ∃ earlier, r.policy = .error ∧ r.declared.get? d.decl.name = some earlier ∧
      r.add d = ⟨.error ⟨earlier, d⟩, []⟩ := by
  unfold add
  cases hd : r.declared.get? d.decl.name with
  | none =>
    refine Or.inl ⟨_, rfl, ?_⟩
    intro _ hmem
    obtain ⟨a, ha, hname⟩ := List.mem_map.mp hmem
    have hget := Register.get?_name ha
    rw [hname, hd] at hget
    cases hget
  | some earlier =>
    cases hpolicy : r.policy with
    | overwrite => exact Or.inl ⟨_, rfl, nofun⟩
    | warn => exact Or.inl ⟨_, rfl, nofun⟩
    | error => exact Or.inr ⟨earlier, rfl, rfl, rfl⟩

structure Keeps (r : Resolver) (ds : List Declaration) (r' : Resolver) : Prop where
  policy : r'.policy = r.policy
  entries : r.policy = .error → r'.declared.entries = r.declared.entries ++ ds

theorem Keeps.refl (r : Resolver) : r.Keeps [] r :=
  ⟨rfl, fun _ => (List.append_nil _).symm⟩

theorem Keeps.trans {r'' : Resolver} {ds' : List Declaration} (h : r.Keeps ds r')
    (h' : r'.Keeps ds' r'') : r.Keeps (ds ++ ds') r'' := by
  refine ⟨h'.policy.trans h.policy, ?_⟩
  intro hp
  rw [h'.entries (h.policy.trans hp), h.entries hp, List.append_assoc]

theorem keeps_insert (h : r.policy = .error → d.decl.name ∉ r.declared.names) :
    r.Keeps [d] { r with declared := r.declared.insert d } :=
  ⟨rfl, fun hp => Register.put_of_fresh (h hp)⟩

theorem keeps_of_addAll (h : (r.addAll ds).2.result = .ok ()) : r.Keeps ds (r.addAll ds).1 := by
  induction ds generalizing r with
  | nil => exact .refl r
  | cons d ds ih =>
    obtain ⟨events, hadd, hfresh⟩ | ⟨earlier, _, _, hadd⟩ := add_cases r d
    · simp only [addAll, hadd] at h ⊢
      exact (keeps_insert hfresh).trans (ih h)
    · simp [addAll, hadd] at h

/-- What is refused is the first declaration of a name that is taken. -/
theorem refused_of_addAll (h : (r.addAll ds).2.result = .error e) :
    r.policy = .error ∧ ∃ own later, ds = own ++ e.later :: later ∧
      ((r.declared.entries ++ own).map (·.decl.name)).Nodup ∧
      e.earlier ∈ r.declared.entries ++ own ∧ e.earlier.decl.name = e.later.decl.name := by
  induction ds generalizing r with
  | nil => cases h
  | cons d ds ih =>
    obtain ⟨events, hadd, hfresh⟩ | ⟨earlier, hpolicy, hget, hadd⟩ := add_cases r d
    · simp only [addAll, hadd] at h
      obtain ⟨hpolicy, own, later, rfl, hnodup, hearlier, hname⟩ := ih h
      have hentries := (keeps_insert hfresh).entries hpolicy
      rw [hentries, List.append_assoc] at hnodup hearlier
      exact ⟨hpolicy, d :: own, later, rfl, hnodup, hearlier, hname⟩
    · simp only [addAll, hadd] at h
      obtain rfl := Except.error.inj h
      obtain ⟨hmem, hname⟩ := Register.mem_of_get? hget
      have hnodup := r.declared.nodup
      exact ⟨hpolicy, [], ds, rfl, by rwa [List.append_nil], by simpa using hmem, hname⟩

theorem addUnit_fst (r : Resolver) (u : SourceUnit) :
    (r.addUnit u).1 = (r.addAll (declarations [u])).1 := by
  simp [addUnit, declarations]

theorem addUnit_result (r : Resolver) (u : SourceUnit) :
    (r.addUnit u).2.result = (r.addAll (declarations [u])).2.result := by
  simp [addUnit, declarations]

theorem addUnits_ok {u : SourceUnit} (us : List SourceUnit) (h : (r.addUnit u).2.result = .ok ()) :
    (r.addUnits (u :: us)).1 = ((r.addUnit u).1.addUnits us).1 ∧
      (r.addUnits (u :: us)).2.result = ((r.addUnit u).1.addUnits us).2.result := by
  rcases hu : r.addUnit u with ⟨r', result, events⟩
  obtain rfl : result = .ok () := by simpa [hu] using h
  simp [addUnits, hu]

theorem addUnits_error {u : SourceUnit} (us : List SourceUnit)
    (h : (r.addUnit u).2.result = .error e) : (r.addUnits (u :: us)).2.result = .error e := by
  rcases hu : r.addUnit u with ⟨r', result, events⟩
  obtain rfl : result = .error e := by simpa [hu] using h
  simp [addUnits, hu]

theorem keeps_of_addUnits {us : List SourceUnit} (h : (r.addUnits us).2.result = .ok ()) :
    r.Keeps (declarations us) (r.addUnits us).1 := by
  induction us generalizing r with
  | nil => exact .refl r
  | cons u us ih =>
    cases hu : (r.addUnit u).2.result with
    | error e =>
      rw [addUnits_error us hu] at h
      cases h
    | ok =>
      obtain ⟨hr, hresult⟩ := addUnits_ok us hu
      rw [hresult] at h
      rw [addUnit_result] at hu
      rw [hr, declarations_cons]
      have hfirst := keeps_of_addAll hu
      rw [← addUnit_fst] at hfirst
      exact hfirst.trans (ih h)

end Resolver

theorem resolveUnits_ok_iff {policy : Policy} {units : List SourceUnit} {t : Table} :
    (resolveUnits policy units).result = .ok t ↔
      (({ policy } : Resolver).addUnits units).2.result = .ok () ∧
        (({ policy } : Resolver).addUnits units).1.table = t := by
  unfold resolveUnits
  rcases h : ({ policy } : Resolver).addUnits units with ⟨r, result, events⟩
  cases result with
  | ok => simp
  | error e => simp

namespace Command

variable {source : String → Traced LoadError SourceUnit} {r r' : Resolver} {paths : List String}
  {path : String} {u : SourceUnit}

def Loads (source : String → Traced LoadError SourceUnit) (path : String) (u : SourceUnit) : Prop :=
  (source path).result = .ok u

theorem addFiles_unloaded {e : LoadError} (paths : List String)
    (h : (source path).result = .error e) :
    addFiles source r (path :: paths) = ⟨.error (.load e), (source path).events⟩ := by
  have hload : ((source path).mapError Failure.load).result = .error (.load e) :=
    congrArg (Except.mapError Failure.load) h
  rw [addFiles, Traced.bind_error hload]
  rfl

/-- A loaded unit is added, and the next file comes only if it was not refused. -/
theorem addFiles_loaded (paths : List String) (h : Loads source path u) :
    addFiles source r (path :: paths) =
      ⟨(((r.addUnit u).2.mapError (.resolve path)) >>= fun _ =>
          addFiles source (r.addUnit u).1 paths).result,
        (source path).events ++ (((r.addUnit u).2.mapError (.resolve path)) >>= fun _ =>
          addFiles source (r.addUnit u).1 paths).events⟩ := by
  have hload : ((source path).mapError Failure.load).result = .ok u :=
    congrArg (Except.mapError Failure.load) h
  rw [addFiles, Traced.bind_ok hload]
  rfl

theorem addFiles_refused {e : Redeclaration} (paths : List String) (h : Loads source path u)
    (hu : (r.addUnit u).2.result = .error e) :
    addFiles source r (path :: paths) =
      ⟨.error (.resolve path e), (source path).events ++ (r.addUnit u).2.events⟩ := by
  have hadd : ((r.addUnit u).2.mapError (Failure.resolve path)).result = .error (.resolve path e) :=
    congrArg (Except.mapError (Failure.resolve path)) hu
  rw [addFiles_loaded paths h, Traced.bind_error hadd]
  rfl

theorem addFiles_added (paths : List String) (h : Loads source path u)
    (hu : (r.addUnit u).2.result = .ok ()) :
    addFiles source r (path :: paths) =
      ⟨(addFiles source (r.addUnit u).1 paths).result, (source path).events ++
        ((r.addUnit u).2.events ++ (addFiles source (r.addUnit u).1 paths).events)⟩ := by
  have hadd : ((r.addUnit u).2.mapError (Failure.resolve path)).result = .ok () :=
    congrArg (Except.mapError (Failure.resolve path)) hu
  rw [addFiles_loaded paths h, Traced.bind_ok hadd]
  rfl

/-- Taking turns comes to the same resolver as adding all units at once. -/
theorem addFiles_ok_iff : (addFiles source r paths).result = .ok r' ↔
    ∃ units, List.Forall₂ (Loads source) paths units ∧ (r.addUnits units).2.result = .ok () ∧
      (r.addUnits units).1 = r' := by
  induction paths generalizing r with
  | nil =>
    constructor
    · intro h
      obtain rfl : r = r' := Except.ok.inj h
      exact ⟨[], .nil, rfl, rfl⟩
    · rintro ⟨units, hunits, _, rfl⟩
      cases hunits
      rfl
  | cons path paths ih =>
    cases hload : (source path).result with
    | error e =>
      rw [addFiles_unloaded paths hload]
      constructor
      · intro h
        cases h
      · rintro ⟨units, hunits, _⟩
        cases hunits with
        | cons hu _ =>
          rw [Loads, hload] at hu
          cases hu
    | ok u =>
      have hone : ∀ {units : List SourceUnit}, List.Forall₂ (Loads source) (path :: paths) units ↔
          ∃ us, List.Forall₂ (Loads source) paths us ∧ units = u :: us := by
        intro units
        rw [List.forall₂_cons_left_iff]
        simp [Loads, hload]
      cases hu : (r.addUnit u).2.result with
      | error e =>
        rw [addFiles_refused paths hload hu]
        constructor
        · intro h
          cases h
        · rintro ⟨units, hunits, hadd, _⟩
          obtain ⟨us, _, rfl⟩ := hone.mp hunits
          rw [Resolver.addUnits_error us hu] at hadd
          cases hadd
      | ok =>
        rw [addFiles_added paths hload hu, ih]
        constructor
        · rintro ⟨us, hus, hadd, hr⟩
          obtain ⟨hfst, hresult⟩ := Resolver.addUnits_ok us hu
          exact ⟨u :: us, hone.mpr ⟨us, hus, rfl⟩, hresult.trans hadd, hfst.trans hr⟩
        · rintro ⟨units, hunits, hadd, hr⟩
          obtain ⟨us, hus, rfl⟩ := hone.mp hunits
          obtain ⟨hfst, hresult⟩ := Resolver.addUnits_ok us hu
          exact ⟨us, hus, hresult.symm.trans hadd, hfst.symm.trans hr⟩

inductive Breaks (source : String → Traced LoadError SourceUnit) (r : Resolver) (path : String) :
    Failure → Prop where
  | unloaded {e : LoadError} (h : (source path).result = .error e) : Breaks source r path (.load e)
  | refused {u : SourceUnit} {e : Redeclaration} (h : Loads source path u)
      (hu : (r.addUnit u).2.result = .error e) : Breaks source r path (.resolve path e)

/-- A run that breaks off has added all units in front of the path at which it does, and has not
looked at what comes behind. -/
theorem addFiles_breaks {f : Failure} (h : (addFiles source r paths).result = .error f) :
    ∃ front path behind units, paths = front ++ path :: behind ∧
      List.Forall₂ (Loads source) front units ∧ (r.addUnits units).2.result = .ok () ∧
      Breaks source (r.addUnits units).1 path f ∧
      ∀ source', (∀ p ∈ front ++ [path], source' p = source p) →
        addFiles source' r paths = addFiles source r paths := by
  induction paths generalizing r with
  | nil => cases h
  | cons path paths ih =>
    cases hload : (source path).result with
    | error e =>
      rw [addFiles_unloaded paths hload] at h
      obtain rfl : Failure.load e = f := Except.error.inj h
      refine ⟨[], path, paths, [], rfl, .nil, rfl, .unloaded hload, ?_⟩
      intro source' hsame
      have hpath := hsame path List.mem_cons_self
      rw [addFiles_unloaded paths hload, addFiles_unloaded paths (by rwa [hpath]), hpath]
    | ok u =>
      cases hu : (r.addUnit u).2.result with
      | error e =>
        rw [addFiles_refused paths hload hu] at h
        obtain rfl : Failure.resolve path e = f := Except.error.inj h
        refine ⟨[], path, paths, [], rfl, .nil, rfl, .refused hload hu, ?_⟩
        intro source' hsame
        have hpath := hsame path List.mem_cons_self
        have hload' : Loads source' path u := by rwa [Loads, hpath]
        rw [addFiles_refused paths hload hu, addFiles_refused paths hload' hu, hpath]
      | ok =>
        rw [addFiles_added paths hload hu] at h
        obtain ⟨front, stop, behind, units, rfl, hunits, hadd, hbreaks, hrest⟩ := ih h
        obtain ⟨hfst, hresult⟩ := Resolver.addUnits_ok units hu
        rw [← hfst] at hbreaks
        refine ⟨path :: front, stop, behind, u :: units, rfl, .cons hload hunits,
          hresult.trans hadd, hbreaks, ?_⟩
        intro source' hsame
        have hpath := hsame path List.mem_cons_self
        have hload' : Loads source' path u := by rwa [Loads, hpath]
        have hlater := hrest source' fun p hp => hsame p (List.mem_cons_of_mem path hp)
        rw [addFiles_added _ hload hu, addFiles_added _ hload' hu, hpath, hlater]

theorem result_loadAndResolve (source : String → Traced LoadError SourceUnit)
    (paths : List String) (policy : Policy) (verbose : Bool) :
    (loadAndResolve source paths policy verbose).result =
      (addFiles source { policy } paths).result.map Resolver.table := by
  unfold loadAndResolve
  cases h : (addFiles source { policy } paths).result with
  | error e =>
    rw [Traced.bind_error h]
    rfl
  | ok r =>
    rw [Traced.bind_ok h]
    cases verbose <;> rfl

theorem addFiles_of_error {policy : Policy} {verbose : Bool} {f : Failure}
    (h : (loadAndResolve source paths policy verbose).result = .error f) :
    (addFiles source { policy } paths).result = .error f := by
  rw [result_loadAndResolve] at h
  cases hr : (addFiles source { policy } paths).result with
  | ok r =>
    rw [hr] at h
    cases h
  | error e =>
    rw [hr] at h
    rw [Except.error.inj h]

def loaded (source : String → Traced LoadError SourceUnit) (paths : List String) :
    List SourceUnit :=
  paths.filterMap fun p => (source p).result.toOption

theorem loaded_eq {units : List SourceUnit} (h : List.Forall₂ (Loads source) paths units) :
    loaded source paths = units := by
  induction h with
  | nil => rfl
  | cons hu _ ih =>
    rw [loaded, List.filterMap_cons, hu]
    exact congrArg _ ih

/-- What stands in the way at the path with the given index: it does not load, or its unit
redeclares a name and that is not allowed. -/
def Obstructed (source : String → Traced LoadError SourceUnit) (policy : Policy)
    (paths : List String) (i : Nat) : Prop :=
  ∃ path, paths[i]? = some path ∧ ((∃ e, (source path).result = .error e) ∨
    policy = .error ∧ ∃ u own r, Loads source path u ∧
      u.Redeclares (loaded source (paths.take i)) own r)

theorem not_obstructed {policy : Policy} {front behind : List String} {units : List SourceUnit}
    (hunits : List.Forall₂ (Loads source) front units)
    (hfresh : policy = .error → ((declarations units).map (·.decl.name)).Nodup) {j : Nat}
    (hj : j < front.length) : ¬ Obstructed source policy (front ++ behind) j := by
  rintro ⟨path, hpath, hstop⟩
  rw [List.getElem?_append_left hj] at hpath
  obtain ⟨_, rfl⟩ := List.getElem?_eq_some_iff.mp hpath
  have hj' : j < units.length := hunits.length_eq ▸ hj
  have hloads : Loads source front[j] units[j] := hunits.get hj hj'
  obtain ⟨e, he⟩ | ⟨hpolicy, u, own, r, hu, hr⟩ := hstop
  · rw [Loads, he] at hloads
    cases hloads
  · obtain rfl : units[j] = u := by
      rw [Loads, hloads] at hu
      exact Except.ok.inj hu
    have hbefore : loaded source ((front ++ behind).take j) = units.take j := by
      rw [List.take_append_of_le_length (Nat.le_of_lt hj)]
      exact loaded_eq (List.forall₂_take j hunits)
    rw [hbefore] at hr
    have hcut : units.take j ++ units[j] :: units.drop (j + 1) = units := by
      rw [List.getElem_cons_drop, List.take_append_drop]
    have hnodup := hfresh hpolicy
    rw [← hcut] at hnodup
    exact SourceUnit.not_redeclares hnodup hr

theorem loadAndResolve_ok_iff {policy : Policy} {verbose : Bool} {t : Table} :
    (loadAndResolve source paths policy verbose).result = .ok t ↔
      ∃ units, List.Forall₂ (Loads source) paths units ∧
        (resolveUnits policy units).result = .ok t := by
  rw [result_loadAndResolve]
  constructor
  · intro h
    cases hr : (addFiles source { policy } paths).result with
    | error e =>
      rw [hr] at h
      cases h
    | ok r =>
      rw [hr] at h
      obtain ⟨units, hunits, hadd, rfl⟩ := addFiles_ok_iff.mp hr
      exact ⟨units, hunits, resolveUnits_ok_iff.mpr ⟨hadd, Except.ok.inj h⟩⟩
  · rintro ⟨units, hunits, h⟩
    obtain ⟨hadd, rfl⟩ := resolveUnits_ok_iff.mp h
    rw [addFiles_ok_iff.mpr ⟨units, hunits, hadd, rfl⟩]
    rfl

/-- Where no name may be declared again, units that were all added declare different names. -/
theorem nodup_of_added {policy : Policy} {units : List SourceUnit}
    (hadd : (({ policy } : Resolver).addUnits units).2.result = .ok ()) (hpolicy : policy = .error) :
    ((declarations units).map (·.decl.name)).Nodup := by
  have hentries := (Resolver.keeps_of_addUnits hadd).entries hpolicy
  have hnodup := (({ policy } : Resolver).addUnits units).1.declared.nodup
  rw [hentries] at hnodup
  exact hnodup

/-- A unit is refused behind others for the first name of all that is declared again. -/
theorem redeclares_of_refused {policy : Policy} {units : List SourceUnit} {e : Redeclaration}
    (hadd : (({ policy } : Resolver).addUnits units).2.result = .ok ())
    (h : ((({ policy } : Resolver).addUnits units).1.addUnit u).2.result = .error e) :
    policy = .error ∧ ∃ own, u.Redeclares units own e ∧
      ((declarations units ++ own).map (·.decl.name)).Nodup := by
  have hkeeps := Resolver.keeps_of_addUnits hadd
  rw [Resolver.addUnit_result] at h
  obtain ⟨hpolicy, own, later, hplace, hnodup, hearlier, hname⟩ := Resolver.refused_of_addAll h
  rw [hkeeps.policy] at hpolicy
  have hentries : (({ policy } : Resolver).addUnits units).1.declared.entries =
      declarations units := hkeeps.entries hpolicy
  rw [hentries] at hnodup hearlier
  exact ⟨hpolicy, own, ⟨⟨later, hplace⟩, hearlier, hname⟩, hnodup⟩

/-- Loading and adding in turns comes to a table just if all paths load and their units resolve
together, and then to the same one. If it fails, then for the first path at which something stands
in the way, and no path behind that one has a say in it. -/
theorem loadAndResolve_in_turns (source : String → Traced LoadError SourceUnit)
    (paths : List String) (policy : Policy) (verbose : Bool) :
    (∀ t, (loadAndResolve source paths policy verbose).result = .ok t ↔
      ∃ units, List.Forall₂ (Loads source) paths units ∧
        (resolveUnits policy units).result = .ok t) ∧
    ∀ f, (loadAndResolve source paths policy verbose).result = .error f →
      ∃ i path, IsLeast {j | Obstructed source policy paths j} i ∧ paths[i]? = some path ∧
        ((∃ e, (source path).result = .error e ∧ f = .load e ∧
            f.chain = e.message :: e.cause?.toList) ∨
          ∃ u own r, Loads source path u ∧ u.Redeclares (loaded source (paths.take i)) own r ∧
            ((declarations (loaded source (paths.take i)) ++ own).map (·.decl.name)).Nodup ∧
            f = .resolve path r ∧
            f.chain = ["Failed to resolve structs of '" ++ path ++ "'", r.message]) ∧
        ∀ source', (∀ p ∈ paths.take (i + 1), source' p = source p) →
          loadAndResolve source' paths policy verbose =
            loadAndResolve source paths policy verbose := by
  refine ⟨fun t => loadAndResolve_ok_iff, ?_⟩
  intro f h
  obtain ⟨front, path, behind, units, rfl, hunits, hadd, hbreaks, hsame⟩ :=
    addFiles_breaks (addFiles_of_error h)
  have hpath : (front ++ path :: behind)[front.length]? = some path := by simp
  have hbefore : loaded source ((front ++ path :: behind).take front.length) = units := by
    rw [List.take_left]
    exact loaded_eq hunits
  have hupto : (front ++ path :: behind).take (front.length + 1) = front ++ [path] := by
    simp [List.take_append, List.take_of_length_le]
  have hleast : ∀ j, Obstructed source policy (front ++ path :: behind) j → front.length ≤ j := by
    intro j hj
    by_contra hlt
    exact not_obstructed hunits (nodup_of_added hadd) (Nat.lt_of_not_le hlt) hj
  refine ⟨front.length, path, ⟨⟨path, hpath, ?_⟩, hleast⟩, hpath, ?_, ?_⟩
  · cases hbreaks with
    | unloaded he => exact Or.inl ⟨_, he⟩
    | refused hu he =>
      obtain ⟨hpolicy, own, hr, _⟩ := redeclares_of_refused hadd he
      rw [hbefore]
      exact Or.inr ⟨hpolicy, _, own, _, hu, hr⟩
  · cases hbreaks with
    | unloaded he => exact Or.inl ⟨_, he, rfl, rfl⟩
    | refused hu he =>
      obtain ⟨_, own, hr, hnodup⟩ := redeclares_of_refused hadd he
      rw [hbefore]
      exact Or.inr ⟨_, own, _, hu, hr, hnodup, rfl, rfl⟩
  · intro source' hagree
    rw [hupto] at hagree
    simp only [loadAndResolve, hsame source' hagree]

end Command

end Inspector
