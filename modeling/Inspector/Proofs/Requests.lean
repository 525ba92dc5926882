import Inspector.Proofs.Interleaving

/-! A resolver that serves one request after the other, whole units and single declarations, and
goes on behind one that it refuses. Where nothing may be declared again, a unit is taken up to its
first taken name. Where a warning is enough, there is one for each declaration of a taken name. -/
namespace Inspector

open Inspector.Log (Event Traced)

inductive Request where
  | unit (u : SourceUnit)
  | single (d : Declaration)
  deriving DecidableEq, Inhabited, Repr

def Request.declarations : Request → List Declaration
  | .unit u => Inspector.declarations [u]
  | .single d => [d]

def Request.allDeclarations (requests : List Request) : List Declaration :=
  requests.flatMap Request.declarations

/-- The message tells name, unit and place of the later declaration, then unit and place of the
earlier one. -/
theorem Redeclaration.message_eq (e : Redeclaration) {unit : String} {s : StructDecl}
    (h : e.later = ⟨unit, s⟩) :
    e.message = "struct '" ++ s.name ++ "' redeclared in '" ++ unit ++ "' at "
      ++ s.location.text ++ " (first declared in '" ++ e.earlier.unit ++ "' at "
      ++ e.earlier.decl.location.text ++ ")" := by
  cases e with
  | mk earlier later =>
    obtain rfl : later = ⟨unit, s⟩ := h
    rfl

namespace Resolver

variable {r : Resolver} {d : Declaration} {ds : List Declaration} {e : Redeclaration}

def serve (r : Resolver) : Request → Resolver × Traced Redeclaration Unit
  | .unit u => r.addUnit u
  | .single d => r.addAll [d]

/-- The resolver behind all requests and what they reported. A request that is refused does not keep
the next ones from being served. -/
def serveAll (r : Resolver) : List Request → Resolver × List Event
  | [] => (r, [])
  | q :: qs =>
    let (r, x) := r.serve q
    let (r, events) := serveAll r qs
    (r, x.events ++ events)

def Reached (policy : Policy) (r : Resolver) : Prop :=
  ∃ requests, (({ policy } : Resolver).serveAll requests).1 = r

theorem serve_fst (r : Resolver) (q : Request) : (r.serve q).1 = (r.addAll q.declarations).1 := by
  cases q with
  | unit u => exact r.addUnit_fst u
  | single d => rfl

theorem policy_addAll (r : Resolver) (ds : List Declaration) :
    (r.addAll ds).1.policy = r.policy := by
  induction ds generalizing r with
  | nil => rfl
  | cons d ds ih =>
    obtain ⟨events, hadd, _⟩ | ⟨earlier, _, _, hadd⟩ := add_cases r d
    · simp only [addAll, hadd]
      exact ih _
    · simp only [addAll, hadd]

theorem policy_serveAll (r : Resolver) (requests : List Request) :
    (r.serveAll requests).1.policy = r.policy := by
  induction requests generalizing r with
  | nil => rfl
  | cons q qs ih =>
    calc
      ((r.serve q).1.serveAll qs).1.policy = (r.serve q).1.policy := ih _
      _ = (r.addAll q.declarations).1.policy := by rw [serve_fst]
      _ = r.policy := r.policy_addAll _

theorem Reached.policy_eq {policy : Policy} (h : r.Reached policy) : r.policy = policy := by
  obtain ⟨requests, rfl⟩ := h
  exact policy_serveAll _ requests

/-- Behind declarations that were all added the others are added to what has come of them. -/
theorem addAll_append (ds' : List Declaration) (h : (r.addAll ds).2.result = .ok ()) :
    r.addAll (ds ++ ds') = (((r.addAll ds).1.addAll ds').1,
      ⟨((r.addAll ds).1.addAll ds').2.result,
        (r.addAll ds).2.events ++ ((r.addAll ds).1.addAll ds').2.events⟩) := by
  induction ds generalizing r with
  | nil => rfl
  | cons d ds ih =>
    obtain ⟨events, hadd, _⟩ | ⟨earlier, _, _, hadd⟩ := add_cases r d
    · simp only [addAll, hadd] at h
      simp only [List.cons_append, addAll, hadd, ih h, List.append_assoc]
    · simp [addAll, hadd] at h

section Refusal

variable (hr : r.policy = .error)

include hr

theorem addAll_ok_iff :
    (r.addAll ds).2.result = .ok () ↔ (r.declared.names ++ ds.map (·.decl.name)).Nodup := by
  constructor
  · intro h
    have hentries := (keeps_of_addAll h).entries hr
    have hnodup := (r.addAll ds).1.declared.nodup
    rw [hentries, List.map_append] at hnodup
    exact hnodup
  · intro h
    have htakes : r.Takes (ds ++ []) := Or.inr (by rwa [List.append_nil])
    obtain ⟨⟨events, hadd⟩, _⟩ := addAll_taken ds htakes
    rw [hadd]

theorem addAll_taken_name {earlier : Declaration} (ds : List Declaration)
    (h : r.declared.get? d.decl.name = some earlier) :
    r.addAll (d :: ds) = (r, ⟨.error ⟨earlier, d⟩, []⟩) := by
  have hadd : r.add d = ⟨.error ⟨earlier, d⟩, []⟩ := by
    unfold add
    rw [h, hr]
    rfl
  rw [addAll, hadd]

/-- If declarations are refused, those in front of the refused one have been added, and nothing
else has happened. -/
theorem addAll_error (h : (r.addAll ds).2.result = .error e) :
    ∃ own later, ds = own ++ e.later :: later ∧ (r.addAll own).2.result = .ok () ∧
      (r.addAll own).1.declared.get? e.later.decl.name = some e.earlier ∧
      (r.addAll ds).1 = (r.addAll own).1 := by
  obtain ⟨_, own, later, rfl, hnodup, hearlier, hname⟩ := refused_of_addAll h
  rw [List.map_append] at hnodup
  have hown : (r.addAll own).2.result = .ok () := (addAll_ok_iff hr).mpr hnodup
  rw [← (keeps_of_addAll hown).entries hr] at hearlier
  have hget : (r.addAll own).1.declared.get? e.later.decl.name = some e.earlier := by
    rw [← hname]
    exact Register.get?_name hearlier
  have hpolicy := (r.policy_addAll own).trans hr
  refine ⟨own, later, rfl, hown, hget, ?_⟩
  rw [addAll_append _ hown, addAll_taken_name hpolicy later hget]

end Refusal

theorem declarations_singleton (u : SourceUnit) :
    declarations [u] = u.structs.map fun s => ⟨u.name, s⟩ := by
  simp [declarations]

def Fresh (r : Resolver) (structs : List StructDecl) : Prop :=
  (∀ s ∈ structs, s.name ∉ r.declared.names) ∧ (structs.map (·.name)).Nodup

theorem addUnit_ok_iff (hr : r.policy = .error) (u : SourceUnit) :
    (r.addUnit u).2.result = .ok () ↔ r.Fresh u.structs := by
  have hnames : (declarations [u]).map (·.decl.name) = u.structs.map (·.name) := by
    rw [declarations_singleton, List.map_map]
    rfl
  rw [addUnit_result, addAll_ok_iff hr, hnames, List.nodup_append, Fresh]
  constructor
  · rintro ⟨_, hunit, hapart⟩
    exact ⟨fun s hs hold => hapart _ hold _ (List.mem_map_of_mem hs) rfl, hunit⟩
  · rintro ⟨hapart, hunit⟩
    refine ⟨r.declared.nodup, hunit, ?_⟩
    rintro n hold _ hmem rfl
    obtain ⟨s, hs, rfl⟩ := List.mem_map.mp hmem
    exact hapart s hs hold

/-- A unit that is refused is taken up to the first of its structs whose name is taken. -/
theorem addUnit_error (hr : r.policy = .error) {u : SourceUnit}
    (h : (r.addUnit u).2.result = .error e) :
    ∃ before s after, u.structs = before ++ s :: after ∧ e.later = ⟨u.name, s⟩ ∧
      (r.addUnit { u with structs := before }).2.result = .ok () ∧
      (r.addUnit { u with structs := before }).1.declared.get? s.name = some e.earlier ∧
      (r.addUnit u).1 = (r.addUnit { u with structs := before }).1 := by
  rw [addUnit_result] at h
  obtain ⟨own, later, hcut, hown, hget, hstate⟩ := addAll_error hr h
  rw [declarations_singleton] at hcut
  obtain ⟨before, rest, hrest, rfl, hmap⟩ := List.map_eq_append_iff.mp hcut
  obtain ⟨s, after, rfl, hlater, rfl⟩ := List.map_eq_cons_iff.mp hmap
  rw [← hlater] at hget
  refine ⟨before, s, after, hrest, hlater.symm, ?_, ?_, ?_⟩
  · rw [addUnit_result, declarations_singleton]
    exact hown
  · rw [addUnit_fst, declarations_singleton]
    exact hget
  · rw [addUnit_fst, addUnit_fst, hstate, declarations_singleton]

/-- The structs of a unit that is added come behind the entries from before. -/
theorem entries_addUnit (hr : r.policy = .error) {u : SourceUnit}
    (h : (r.addUnit u).2.result = .ok ()) :
    (r.addUnit u).1.declared.entries =
      r.declared.entries ++ u.structs.map fun s => ⟨u.name, s⟩ := by
  rw [addUnit_result] at h
  rw [addUnit_fst, (keeps_of_addAll h).entries hr, declarations_singleton]

end Resolver

/-- The policies differ only where something is declared again. -/
theorem resolveUnits_of_error {units : List SourceUnit} {t : Table}
    (h : (resolveUnits .error units).result = .ok t) (policy : Policy) :
    (resolveUnits policy units).result = .ok t := by
  have hnodup := Command.nodup_of_added (resolveUnits_ok_iff.mp h).1 rfl
  rw [resolveUnits_fresh .error hnodup] at h
  rw [resolveUnits_fresh policy hnodup, ← h]
  rfl

/-- Where nothing may be declared again, a unit is added just if none of its names is taken, be it
by what earlier requests have left behind or within the unit. If one is, the first such struct is
reported with the one declaration that has its name, and only the structs in front of it are added.
A batch of units that is added as a whole has the same table under every policy. -/
theorem addUnit_refuses_taken_names {r : Resolver} (hr : r.Reached .error) (u : SourceUnit) :
    ((r.addUnit u).2.result = .ok () ↔
      (∀ s ∈ u.structs, s.name ∉ r.declared.names) ∧ (u.structs.map (·.name)).Nodup) ∧
    (∀ e, (r.addUnit u).2.result = .error e → ∃ before s after,
      u.structs = before ++ s :: after ∧
      (∀ b ∈ before, b.name ∉ r.declared.names) ∧ (before.map (·.name)).Nodup ∧
      (∀ d, d ∈ r.declared.entries ++ before.map (fun b => ⟨u.name, b⟩) ∧ d.decl.name = s.name ↔
        d = e.earlier) ∧
      e.later = ⟨u.name, s⟩ ∧
      e.message = "struct '" ++ s.name ++ "' redeclared in '" ++ u.name ++ "' at "
        ++ s.location.text ++ " (first declared in '" ++ e.earlier.unit ++ "' at "
        ++ e.earlier.decl.location.text ++ ")" ∧
      (r.addUnit u).1 = (r.addUnit { u with structs := before }).1) ∧
    ∀ units t, (resolveUnits .error units).result = .ok t →
      (resolveUnits .overwrite units).result = .ok t ∧
      (resolveUnits .warn units).result = .ok t := by
  have hpolicy := hr.policy_eq
  refine ⟨Resolver.addUnit_ok_iff hpolicy u, ?_, ?_⟩
  · intro e h
    obtain ⟨before, s, after, hcut, hlater, hadded, hget, hstate⟩ :=
      Resolver.addUnit_error hpolicy h
    obtain ⟨hapart, hunit⟩ := (Resolver.addUnit_ok_iff hpolicy _).mp hadded
    refine ⟨before, s, after, hcut, hapart, hunit, ?_, hlater, ?_, hstate⟩
    · intro d
      rw [← Resolver.entries_addUnit hpolicy hadded]
      constructor
      · rintro ⟨hd, hname⟩
        have hfound := Register.get?_name hd
        rw [show Named.name d = s.name from hname, hget] at hfound
        exact (Option.some.inj hfound).symm
      · rintro rfl
        exact Register.mem_of_get? hget
    · exact e.message_eq hlater
  · intro units t h
    exact ⟨resolveUnits_of_error h .overwrite, resolveUnits_of_error h .warn⟩

def brokenOff : List Request := [
  .unit { name := "a.h", structs := [{ name := "Point" }, { name := "Line" }] },
  .unit { name := "b.h", structs := [
      { name := "Shape" }, { name := "Point" }, { name := "Body" }] },
  .single ⟨"c.h", { name := "Body" }⟩]

def lateUnit : SourceUnit where
  name := "d.h"
  structs := [{ name := "World" }, { name := "Shape" }, { name := "World" }]

theorem addUnit_refuses_taken_names_late :
    (({ policy := .error } : Resolver).serveAll brokenOff).1.declared.names =
      ["Point", "Line", "Shape", "Body"] ∧
    ((({ policy := .error } : Resolver).serveAll brokenOff).1.addUnit lateUnit).2.result =
      .error ⟨⟨"b.h", { name := "Shape" }⟩, ⟨"d.h", { name := "Shape" }⟩⟩ ∧
    ∃ before s after, lateUnit.structs = before ++ s :: after ∧ s = { name := "Shape" } ∧
      ((({ policy := .error } : Resolver).serveAll brokenOff).1.addUnit lateUnit).1 =
        ((({ policy := .error } : Resolver).serveAll brokenOff).1.addUnit
          { lateUnit with structs := before }).1 := by
  have hrefused :
      ((({ policy := .error } : Resolver).serveAll brokenOff).1.addUnit lateUnit).2.result =
        .error ⟨⟨"b.h", { name := "Shape" }⟩, ⟨"d.h", { name := "Shape" }⟩⟩ := rfl
  obtain ⟨_, herror, _⟩ := addUnit_refuses_taken_names ⟨brokenOff, rfl⟩ lateUnit
  obtain ⟨before, s, after, hcut, _, _, _, hlater, _, hstate⟩ := herror _ hrefused
  refine ⟨by decide, hrefused, before, s, after, hcut, ?_, hstate⟩
  exact (congrArg Declaration.decl hlater).symm

def Redeclaration.warning (e : Redeclaration) : Event where
  level := .warn
  message := e.message ++ "; keeping the later declaration"

def latest? (ds : List Declaration) (name : String) : Option Declaration :=
  ds.findRev? (·.decl.name == name)

def repeats (ds : List Declaration) : List Nat :=
  (List.range ds.length).filter fun i =>
    ds[i]?.any fun d => ((ds.take i).map (·.decl.name)).contains d.decl.name

/-- The event is the warning of the declaration at `i` against the latest one before it. -/
def WarnsAt (ds : List Declaration) (i : Nat) (e : Event) : Prop :=
  ∃ earlier later, ds[i]? = some later ∧ latest? (ds.take i) later.decl.name = some earlier ∧
    e = (⟨earlier, later⟩ : Redeclaration).warning

section Repeats

variable {ds : List Declaration} {d : Declaration} {i : Nat}

theorem latest?_isSome_iff {name : String} :
    (latest? ds name).isSome = true ↔ name ∈ ds.map (·.decl.name) := by
  simp [latest?, List.findRev?_eq_find?_reverse]

theorem repeats_concat (ds : List Declaration) (d : Declaration) : repeats (ds ++ [d]) =
    repeats ds ++ if d.decl.name ∈ ds.map (·.decl.name) then [ds.length] else [] := by
  have hfront : ∀ i ∈ List.range ds.length,
      ((ds ++ [d])[i]?.any fun x => (((ds ++ [d]).take i).map (·.decl.name)).contains x.decl.name) =
        ds[i]?.any fun x => ((ds.take i).map (·.decl.name)).contains x.decl.name := by
    intro i hi
    have hlt := List.mem_range.mp hi
    rw [List.getElem?_append_left hlt, List.take_append_of_le_length (Nat.le_of_lt hlt)]
  rw [repeats, List.length_append, List.length_singleton, List.range_succ, List.filter_append,
    List.filter_congr hfront, ← repeats]
  congr 1
  by_cases hd : d.decl.name ∈ ds.map (·.decl.name)
  · rw [if_pos hd]
    simpa using hd
  · rw [if_neg hd]
    simpa using hd

theorem WarnsAt.append {e : Event} (h : WarnsAt ds i e) (d : Declaration) :
    WarnsAt (ds ++ [d]) i e := by
  obtain ⟨earlier, later, hlater, hearlier, he⟩ := h
  have hlt := (List.getElem?_eq_some_iff.mp hlater).1
  refine ⟨earlier, later, ?_, ?_, he⟩
  · rwa [List.getElem?_append_left hlt]
  · rwa [List.take_append_of_le_length (Nat.le_of_lt hlt)]

/-- A name that was declared once before was first declared there. -/
theorem latest?_eq_find? {name : String}
    (h : (ds.take i).countP (·.decl.name == name) = 1) :
    latest? (ds.take i) name = ds.find? (·.decl.name == name) := by
  rw [List.countP_eq_length_filter, List.length_eq_one_iff] at h
  obtain ⟨x, hx⟩ := h
  have hfirst : (ds.take i).find? (·.decl.name == name) = some x := by
    rw [← List.head?_filter, hx]
    rfl
  have hlast : (ds.take i).reverse.find? (·.decl.name == name) = some x := by
    rw [← List.head?_filter, List.filter_reverse, hx]
    rfl
  have hwhole : ds.find? (·.decl.name == name) = some x := by
    rw [← List.take_append_drop i ds, List.find?_append, hfirst]
    rfl
  rw [latest?, List.findRev?_eq_find?_reverse, hlast, hwhole]

end Repeats

namespace Resolver

variable {r : Resolver}

theorem add_warn (hr : r.policy = .warn) (d : Declaration) :
    r.add d = ⟨.ok { r with declared := r.declared.insert d },
      ((r.declared.get? d.decl.name).map fun x => Redeclaration.warning ⟨x, d⟩).toList⟩ := by
  unfold add
  cases r.declared.get? d.decl.name with
  | none => rfl
  | some earlier =>
    rw [hr]
    rfl

theorem addAll_warn (hr : r.policy = .warn) (ds : List Declaration) :
    (r.addAll ds).1 = { r with declared := ds.foldl .insert r.declared } ∧
      (r.addAll ds).2.result = .ok () := by
  have htakes : r.Takes (ds ++ []) := Or.inl (by simp [hr])
  obtain ⟨⟨events, hadd⟩, _⟩ := addAll_taken ds htakes
  rw [hadd]
  exact ⟨rfl, rfl⟩

/-- One more declaration adds one warning if its name is declared before, and none otherwise. -/
theorem events_concat (ds : List Declaration) (d : Declaration) :
    (({ policy := .warn } : Resolver).addAll (ds ++ [d])).2.events =
      (({ policy := .warn } : Resolver).addAll ds).2.events ++
        ((latest? ds d.decl.name).map fun x => Redeclaration.warning ⟨x, d⟩).toList := by
  obtain ⟨hstate, hok⟩ := addAll_warn (r := { policy := .warn }) rfl ds
  have hlast : (ds.foldl Register.insert Register.empty).get? d.decl.name =
      latest? ds d.decl.name := Register.get?_ofList ds d.decl.name
  have hadd := add_warn (r := ⟨.warn, ds.foldl .insert .empty⟩) rfl d
  rw [hlast] at hadd
  rw [addAll_append [d] hok, hstate, addAll, hadd]
  simp [addAll, pure]

/-- The warnings stand in the order of the declarations of which they warn. -/
theorem forall₂_warnsAt (ds : List Declaration) : List.Forall₂ (WarnsAt ds) (repeats ds)
    (({ policy := .warn } : Resolver).addAll ds).2.events := by
  induction ds using List.reverseRecOn with
  | nil => exact .nil
  | append_singleton ds d ih =>
    rw [events_concat, repeats_concat]
    apply List.rel_append (ih.imp fun _ _ h => h.append d)
    cases hd : latest? ds d.decl.name with
    | none =>
      have hnew : d.decl.name ∉ ds.map (·.decl.name) := by
        rw [← latest?_isSome_iff, hd]
        simp
      rw [if_neg hnew]
      exact .nil
    | some earlier =>
      have hold : d.decl.name ∈ ds.map (·.decl.name) := by
        rw [← latest?_isSome_iff, hd]
        rfl
      rw [if_pos hold]
      refine .cons ⟨earlier, d, ?_, ?_, rfl⟩ .nil
      · simp
      · rwa [List.take_left]

theorem level_addAll_warn (ds : List Declaration) {e : Event}
    (he : e ∈ (({ policy := .warn } : Resolver).addAll ds).2.events) : e.level = .warn := by
  induction ds using List.reverseRecOn with
  | nil => cases he
  | append_singleton ds d ih =>
    rw [events_concat, List.mem_append, Option.mem_toList, Option.map_eq_some_iff] at he
    obtain he | ⟨earlier, _, rfl⟩ := he
    · exact ih he
    · rfl

theorem filter_warn_serve (r : Resolver) (q : Request) :
    Event.filter .warn (r.serve q).2.events =
      Event.filter .warn (r.addAll q.declarations).2.events := by
  cases q with
  | unit u =>
    rw [serve, Request.declarations, declarations_singleton]
    rfl
  | single d => rfl

/-- However the declarations are spread over requests, the warnings are the same. -/
theorem filter_warn_serveAll (hr : r.policy = .warn) (requests : List Request) :
    Event.filter .warn (r.serveAll requests).2 =
      Event.filter .warn (r.addAll (Request.allDeclarations requests)).2.events := by
  induction requests generalizing r with
  | nil => rfl
  | cons q qs ih =>
    have hok := (addAll_warn hr q.declarations).2
    have hpolicy : (r.serve q).1.policy = .warn := by rw [serve_fst, policy_addAll, hr]
    have hrest := ih hpolicy
    have hfirst := r.filter_warn_serve q
    rw [serve_fst] at hrest
    have hcut : Request.allDeclarations (q :: qs) =
        q.declarations ++ Request.allDeclarations qs := List.flatMap_cons
    rw [hcut, addAll_append _ hok]
    simp only [Event.filter, serveAll, List.filter_append, serve_fst] at hfirst hrest ⊢
    rw [hfirst, hrest]

end Resolver

/-- Where a warning is enough, requests lead to one warning for each declaration whose name is
declared before, in the order of these declarations. It names the new declaration and the latest one
before it, which is the first one of all if the name was declared only once before. -/
theorem serveAll_warns_of_repeats (requests : List Request) :
    List.Forall₂ (fun i e => ∃ earlier later,
        (Request.allDeclarations requests)[i]? = some later ∧
        latest? ((Request.allDeclarations requests).take i) later.decl.name = some earlier ∧
        (((Request.allDeclarations requests).take i).countP
            (·.decl.name == later.decl.name) = 1 →
          (Request.allDeclarations requests).find? (·.decl.name == later.decl.name) =
            some earlier) ∧
        e.level = .warn ∧
        e.message = "struct '" ++ later.decl.name ++ "' redeclared in '" ++ later.unit ++ "' at "
          ++ later.decl.location.text ++ " (first declared in '" ++ earlier.unit ++ "' at "
          ++ earlier.decl.location.text ++ ")" ++ "; keeping the later declaration")
      (repeats (Request.allDeclarations requests))
      (Event.filter .warn (({ policy := .warn } : Resolver).serveAll requests).2) := by
  rw [Resolver.filter_warn_serveAll rfl]
  have hwarns := Resolver.forall₂_warnsAt (Request.allDeclarations requests)
  have hall : Event.filter .warn
      (({ policy := .warn } : Resolver).addAll (Request.allDeclarations requests)).2.events =
        (({ policy := .warn } : Resolver).addAll (Request.allDeclarations requests)).2.events := by
    apply List.filter_eq_self.mpr
    intro e he
    rw [Resolver.level_addAll_warn _ he]
    rfl
  rw [hall]
  refine hwarns.imp ?_
  rintro i e ⟨earlier, later, hlater, hearlier, rfl⟩
  refine ⟨earlier, later, hlater, hearlier, ?_, rfl, rfl⟩
  intro honce
  rw [← latest?_eq_find? honce, hearlier]

def thrice : List Declaration := [
  ⟨"a.h", { name := "Point", location := ⟨"a.h", 1, 1⟩ }⟩,
  ⟨"b.h", { name := "Point", location := ⟨"b.h", 2, 1⟩ }⟩,
  ⟨"c.h", { name := "Point", location := ⟨"c.h", 3, 1⟩ }⟩]

theorem third_warning_names_second :
    (({ policy := .warn } : Resolver).serveAll (thrice.map .single)).2.map Event.message = [
      "struct 'Point' redeclared in 'b.h' at b.h:2:1 (first declared in 'a.h' at a.h:1:1)"
        ++ "; keeping the later declaration",
      "struct 'Point' redeclared in 'c.h' at c.h:3:1 (first declared in 'b.h' at b.h:2:1)"
        ++ "; keeping the later declaration"] ∧
    ¬ List.Forall₂ (fun i e => ∃ first later, thrice[i]? = some later ∧
        thrice.find? (·.decl.name == later.decl.name) = some first ∧
        e = (⟨first, later⟩ : Redeclaration).warning)
      (repeats thrice)
      (Event.filter .warn (({ policy := .warn } : Resolver).serveAll (thrice.map .single)).2) := by
  refine ⟨by decide +kernel, ?_⟩
  have hrepeats : repeats thrice = [1, 2] := by decide +kernel
  have hevents : Event.filter .warn
      (({ policy := .warn } : Resolver).serveAll (thrice.map .single)).2 =
        [Redeclaration.warning ⟨thrice[0], thrice[1]⟩,
          Redeclaration.warning ⟨thrice[1], thrice[2]⟩] := by
    decide +kernel
  rw [hrepeats, hevents]
  intro h
  cases h with
  | cons _ h =>
    cases h with
    | cons h _ =>
      obtain ⟨first, later, hlater, hfirst, he⟩ := h
      obtain rfl : thrice[2] = later := Option.some.inj hlater
      obtain rfl : thrice[0] = first := Option.some.inj hfirst
      exact absurd he (by decide +kernel)

end Inspector
