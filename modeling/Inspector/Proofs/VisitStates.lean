import Inspector.Proofs.Banner

/-! The states of structs during a walk. A memo tells of each struct whether its visit has not
begun, is going on or is over, and a visit decides by the memo alone. At every call the memo mirrors
the visits that are going on. That is why the recursion ends, with or without a bound on how deep
visits are nested, and why it emits what a run emits. -/
namespace Inspector

open scoped List

inductive VisitState where
  | notVisited
  | inProgress
  | done
  deriving DecidableEq, Repr

structure Fragment where
  name : String
  text : String
  deriving DecidableEq, Repr

instance : Named Fragment := ⟨Fragment.name⟩

/-- What a walk keeps: how far each struct has come, the finished texts, and the edges left out. -/
structure Memo where
  states : Std.HashMap String VisitState := ∅
  fragments : Register Fragment := .empty
  backEdges : List BackEdge := []

namespace Memo

def state (m : Memo) (name : String) : VisitState := m.states.getD name .notVisited

def begin (m : Memo) (name : String) : Memo :=
  { m with states := m.states.insert name .inProgress }

def finish (m : Memo) (name text : String) : Memo :=
  { m with states := m.states.insert name .done, fragments := m.fragments.insert ⟨name, text⟩ }

def cut (m : Memo) (source target : String) : Memo :=
  { m with backEdges := m.backEdges ++ [⟨source, target⟩] }

/-- Visits a struct that `parent` led to. There is no result when visits are nested deeper than the
first number says. -/
def visit (g : Generator) (t : Table) : Nat → Option String → Memo → Struct → Option Memo
  | 0, _, _, _ => none
  | depth + 1, parent, m, s =>
    match m.state s.name with
    | .done => some m
    | .inProgress => some (m.cut (parent.getD s.name) s.name)
    | .notVisited => do
      let m ← (t.below s).foldlM (visit g t depth (some s.name)) (m.begin s.name)
      some (m.finish s.name (g s t))

def visitAll (g : Generator) (t : Table) (depth : Nat) (parent : Option String) (ss : List Struct)
    (m : Memo) : Option Memo :=
  ss.foldlM (visit g t depth parent) m

def generate (g : Generator) (t : Table) (depth : Nat) : Option Memo :=
  visitAll g t depth none t.marked {}

def emission (m : Memo) : Emission where
  fragments := m.fragments.entries.map fun f => (f.name, f.text)
  backEdges := m.backEdges

variable {g : Generator} {t : Table} {callers : List String} {depth depth' : Nat}
  {parent : Option String} {m m' m₁ m₂ : Memo} {s : Struct} {ss : List Struct} {n : String}

@[simp] theorem state_empty (n : String) : ({} : Memo).state n = .notVisited := by
  simp [state]

@[simp] theorem state_begin (m : Memo) (name n : String) :
    (m.begin name).state n = if name = n then .inProgress else m.state n := by
  simp [state, begin, Std.HashMap.getD_insert]

@[simp] theorem state_finish (m : Memo) (name text n : String) :
    (m.finish name text).state n = if name = n then .done else m.state n := by
  simp [state, finish, Std.HashMap.getD_insert]

@[simp] theorem fragments_begin (m : Memo) (name : String) :
    (m.begin name).fragments = m.fragments := rfl

theorem order_emission (m : Memo) : m.emission.order = m.fragments.names := by
  simp [emission, Emission.order, Register.names, Named.name]

theorem emission_finish (text : String) (h : n ∉ m.fragments.names) :
    (m.finish n text).emission = m.emission.finish n text := by
  have hput : (m.fragments.insert ⟨n, text⟩).entries = m.fragments.entries ++ [⟨n, text⟩] :=
    Register.put_of_fresh h
  simp [emission, finish, Emission.finish, hput]

theorem visit_done (depth : Nat) (parent : Option String) (h : m.state s.name = .done) :
    visit g t (depth + 1) parent m s = some m := by
  simp only [visit, h]

theorem visit_inProgress (depth : Nat) (parent : Option String)
    (h : m.state s.name = .inProgress) :
    visit g t (depth + 1) parent m s = some (m.cut (parent.getD s.name) s.name) := by
  simp only [visit, h]

theorem visit_notVisited (depth : Nat) (parent : Option String)
    (h : m.state s.name = .notVisited) :
    visit g t (depth + 1) parent m s =
      (visitAll g t depth (some s.name) (t.below s) (m.begin s.name)).map
        (·.finish s.name (g s t)) := by
  simp only [visit, visitAll, h, Option.map_eq_bind, Option.bind_eq_bind, Function.comp_def]

theorem visitAll_cons (h : visit g t depth parent m s = some m') (ss : List Struct) :
    visitAll g t depth parent (s :: ss) m = visitAll g t depth parent ss m' := by
  simp [visitAll, h]

theorem visitAll_singleton : visitAll g t depth parent [s] m = visit g t depth parent m s := by
  simp [visitAll]

theorem visitAll_mono_of
    (hvisit : ∀ m s m₁, visit g t depth parent m s = some m₁ →
      visit g t depth' parent m s = some m₁)
    (h : visitAll g t depth parent ss m = some m') :
    visitAll g t depth' parent ss m = some m' := by
  induction ss generalizing m with
  | nil => exact h
  | cons s ss ih =>
    obtain ⟨m₁, hs, hss⟩ := Option.bind_eq_some_iff.mp h
    rw [visitAll_cons (hvisit m s m₁ hs)]
    exact ih hss

/-- Visits that have a result have the same result when they may be nested deeper. -/
theorem visit_mono (hd : depth ≤ depth') (h : visit g t depth parent m s = some m') :
    visit g t depth' parent m s = some m' := by
  induction depth generalizing depth' parent m s m' with
  | zero => cases h
  | succ depth ih =>
    obtain ⟨depth', rfl⟩ := Nat.exists_eq_add_of_lt hd
    cases hs : m.state s.name with
    | done => rwa [visit_done _ _ hs] at h ⊢
    | inProgress => rwa [visit_inProgress _ _ hs] at h ⊢
    | notVisited =>
      rw [visit_notVisited _ _ hs] at h ⊢
      obtain ⟨m₁, hbelow, rfl⟩ := Option.map_eq_some_iff.mp h
      rw [visitAll_mono_of (fun m s m' => ih (Nat.le_add_right depth depth')) hbelow]
      rfl

theorem visitAll_mono (hd : depth ≤ depth') (h : visitAll g t depth parent ss m = some m') :
    visitAll g t depth' parent ss m = some m' :=
  visitAll_mono_of (fun _ _ _ => visit_mono hd) h

theorem visitAll_unique (h₁ : visitAll g t depth parent ss m = some m₁)
    (h₂ : visitAll g t depth' parent ss m = some m₂) : m₁ = m₂ := by
  have h₁' := visitAll_mono (Nat.le_max_left depth depth') h₁
  have h₂' := visitAll_mono (Nat.le_max_right depth depth') h₂
  exact Option.some.inj (h₁'.symm.trans h₂')

structure Mirrors (m : Memo) (callers : List String) : Prop where
  inProgress : ∀ n, m.state n = .inProgress ↔ n ∈ callers
  done : ∀ n, m.state n = .done ↔ n ∈ m.fragments.names

namespace Mirrors

theorem empty : Mirrors {} [] where
  inProgress n := by simp
  done n := by
    rw [state_empty]
    simp [Register.names, Register.empty]

theorem not_finished (h : m.Mirrors callers) (hn : n ∈ callers) : n ∉ m.fragments.names := by
  intro hdone
  have hstate := (h.inProgress n).mpr hn
  rw [(h.done n).mpr hdone] at hstate
  cases hstate

theorem notVisited_iff (h : m.Mirrors callers) :
    m.state n = .notVisited ↔ n ∉ m.fragments.names ∧ n ∉ callers := by
  rw [← h.done, ← h.inProgress]
  cases m.state n <;> simp

theorem begin (h : m.Mirrors callers) (hn : n ∉ m.fragments.names) :
    (m.begin n).Mirrors (n :: callers) where
  inProgress k := by
    by_cases hk : n = k
    · simp [hk]
    · simp [hk, Ne.symm hk, h.inProgress]
  done k := by
    by_cases hk : n = k
    · subst hk
      simpa using hn
    · simpa [hk] using h.done k

theorem cut (h : m.Mirrors callers) (a b : String) : (m.cut a b).Mirrors callers :=
  ⟨h.inProgress, h.done⟩

theorem finish (h : m.Mirrors (n :: callers)) (hn : n ∉ callers) (text : String) :
    (m.finish n text).Mirrors callers where
  inProgress k := by
    by_cases hk : n = k
    · subst hk
      simpa using hn
    · simp [hk, Ne.symm hk, h.inProgress]
  done k := by
    have hfree := h.not_finished List.mem_cons_self
    have hnames : (m.finish n text).fragments.names = m.fragments.names ++ [n] := by
      rw [← order_emission, emission_finish text hfree, Emission.order_finish, order_emission]
    rw [hnames]
    by_cases hk : n = k
    · simp [hk]
    · simp [hk, Ne.symm hk, h.done]

end Mirrors

def KeepsStep (g : Generator) (t : Table) (depth : Nat) (callers : List String) (ss : List Struct)
    (m : Memo) : Prop :=
  ∃ m', visitAll g t depth callers.head? ss m = some m' ∧ m'.Mirrors callers ∧
    m'.emission = ss.foldl (fun e s => Emission.visit g t depth callers s e) m.emission

theorem KeepsStep.cons (h : KeepsStep g t depth callers [s] m)
    (hrest : ∀ m', m'.Mirrors callers → KeepsStep g t depth callers ss m') :
    KeepsStep g t depth callers (s :: ss) m := by
  obtain ⟨m₁, hvisit, hm₁, he₁⟩ := h
  obtain ⟨m₂, hvisits, hm₂, he₂⟩ := hrest m₁ hm₁
  rw [visitAll_singleton] at hvisit
  refine ⟨m₂, ?_, hm₂, ?_⟩
  · rw [visitAll_cons hvisit, hvisits]
  · rw [he₂, he₁]
    rfl

/-- One visit keeps step if those of the dependencies do. The state of the struct decides what is
done with it; in a run the emission and the callers decide, and they agree. -/
theorem keepsStep_one (hm : m.Mirrors callers)
    (hbelow : s.name ∉ callers → (m.begin s.name).Mirrors (s.name :: callers) →
      KeepsStep g t depth (s.name :: callers) (t.below s) (m.begin s.name)) :
    KeepsStep g t (depth + 1) callers [s] m := by
  unfold KeepsStep
  rw [visitAll_singleton, List.foldl_cons, List.foldl_nil]
  by_cases hdone : s.name ∈ m.fragments.names
  · have hisDone : m.emission.isDone s.name = true := by
      rwa [Emission.isDone_iff, order_emission]
    rw [visit_done _ _ ((hm.done _).mpr hdone), Emission.visit_done g t _ callers s hisDone]
    exact ⟨m, rfl, hm, rfl⟩
  · have hfree : m.emission.isDone s.name = false := by
      rwa [← Bool.not_eq_true, Emission.isDone_iff, order_emission]
    by_cases hcaller : s.name ∈ callers
    · rw [visit_inProgress _ _ ((hm.inProgress _).mpr hcaller),
        Emission.visit_inProgress g t depth hfree hcaller]
      cases callers with
      | nil => cases hcaller
      | cons p callers => exact ⟨_, rfl, hm.cut p s.name, rfl⟩
    · obtain ⟨m', hvisit, hm', he⟩ := hbelow hcaller (hm.begin hdone)
      have hnew := hm'.not_finished List.mem_cons_self
      rw [visit_notVisited _ _ (hm.notVisited_iff.mpr ⟨hdone, hcaller⟩),
        Emission.visit_fresh g t depth hfree hcaller]
      refine ⟨m'.finish s.name (g s t), ?_, hm'.finish hcaller _, ?_⟩
      · rw [List.head?_cons] at hvisit
        rw [hvisit]
        rfl
      · rw [emission_finish _ hnew, he]
        rfl

/-- Visits keep step as long as the callers and the bound together exceed the table: the callers are
distinct structs of the table, so the bound cannot run out. -/
theorem keepsStep_of_room (g : Generator) (depth : Nat) (hn : callers.Nodup)
    (hsub : callers ⊆ t.names) (hd : t.size < callers.length + depth)
    (hss : ∀ s ∈ ss, s ∈ t.entries) (hm : m.Mirrors callers) :
    KeepsStep g t depth callers ss m := by
  induction depth generalizing callers ss m with
  | zero =>
    have hlen := Table.length_le_size hn hsub
    omega
  | succ depth ih =>
    induction ss generalizing m with
    | nil => exact ⟨m, rfl, hm, rfl⟩
    | cons s ss ihs =>
      obtain ⟨hs, hrest⟩ := List.forall_mem_cons.mp hss
      refine (keepsStep_one hm ?_).cons fun m' hm' => ihs hrest hm'
      intro hcaller hbegun
      apply ih (List.nodup_cons.mpr ⟨hcaller, hn⟩) _ _ _ hbegun
      · exact List.cons_subset.mpr ⟨Table.name_mem_names hs, hsub⟩
      · rw [List.length_cons]
        omega
      · intro d hd
        exact (Table.mem_below hd).1

/-- Below distinct structs of the table visits have a result, the same for every bound that exceeds
the table together with the callers. They emit what the visits of a run emit there, and leave the
finished texts as they are. -/
theorem visitAll_returns (g : Generator) (hn : callers.Nodup) (hsub : callers ⊆ t.names)
    (hss : ∀ s ∈ ss, s ∈ t.entries) (hm : m.Mirrors callers) :
    ∃ m', (∀ depth, t.size < callers.length + depth →
        visitAll g t depth callers.head? ss m = some m') ∧
      m'.Mirrors callers ∧
      m'.emission = ss.foldl
        (fun e s => Emission.visit g t (t.size + 1 - callers.length) callers s e) m.emission ∧
      m.emission.fragments <+: m'.emission.fragments := by
  have hlen := Table.length_le_size hn hsub
  have hroom : t.size < callers.length + (t.size + 1 - callers.length) := by omega
  have hwalks := Emission.walks_foldl g t _ callers ss m.emission hn hsub hroom hss
  obtain ⟨m', hvisit, hm', he⟩ := keepsStep_of_room g _ hn hsub hroom hss hm
  refine ⟨m', ?_, hm', he, ?_⟩
  · intro depth hd
    exact visitAll_mono (by omega) hvisit
  · rw [he]
    exact hwalks.fragments_prefix

theorem generate_returns (g : Generator) (t : Table) :
    ∃ m, (∀ depth, t.size < depth → generate g t depth = some m) ∧
      m.emission = Emission.run g t := by
  obtain ⟨m, hm, _, he, _⟩ := visitAll_returns g List.nodup_nil (List.nil_subset t.names)
    (fun _ => Table.entry_of_marked) .empty
  refine ⟨m, ?_, he⟩
  intro depth hd
  exact hm depth (by rwa [List.length_nil, Nat.zero_add])

end Memo

/-- A call of a visit: of which struct, for which parent, with the memo as it is then. `callers` are
the structs whose visits are going on, the innermost first. -/
structure Call where
  callers : List String
  parent : Option String
  struct : Struct
  memo : Memo

namespace Call

open Memo (visitAll)

def depth (k : Call) : Nat := k.callers.length + 1

/-- The calls that are made when the marked structs are visited, with no bound on how deep visits
are nested. A marked struct is visited when the visits of those before it are over. A struct that
has not been visited calls for its dependencies one after the other, and is a caller as long as they
are visited. -/
inductive Made (g : Generator) (t : Table) : Call → Prop where
  | outer {s m} (before after : List Struct) (hs : t.marked = before ++ s :: after)
      (depth : Nat) (hm : visitAll g t depth none before {} = some m) : Made g t ⟨[], none, s, m⟩
  | inner {k s m} (call : Made g t k) (hk : k.memo.state k.struct.name = .notVisited)
      (before after : List Struct) (hs : t.below k.struct = before ++ s :: after) (depth : Nat)
      (hm : visitAll g t depth (some k.struct.name) before (k.memo.begin k.struct.name) = some m) :
      Made g t ⟨k.struct.name :: k.callers, some k.struct.name, s, m⟩

structure Stacked (t : Table) (k : Call) : Prop where
  nodup : k.callers.Nodup
  known : k.callers ⊆ t.names
  entry : k.struct ∈ t.entries
  depends : (k.struct.name :: k.callers).IsChain fun b a => t.Depends a b
  parent : k.parent = k.callers.head?

variable {g : Generator} {t : Table} {k : Call} {s : Struct} {ss : List Struct}

namespace Stacked

theorem depth_le (h : k.Stacked t) : k.depth ≤ t.size + 1 :=
  Nat.succ_le_succ (Table.length_le_size h.nodup h.known)

theorem below (h : k.Stacked t) (hk : k.struct.name ∉ k.callers) (hs : s ∈ t.below k.struct)
    (m : Memo) : Stacked t ⟨k.struct.name :: k.callers, some k.struct.name, s, m⟩ where
  nodup := List.nodup_cons.mpr ⟨hk, h.nodup⟩
  known := List.cons_subset.mpr ⟨Table.name_mem_names h.entry, h.known⟩
  entry := (Table.mem_below hs).1
  depends := h.depends.cons_cons ((Table.depends_iff h.entry _).mpr (Table.mem_below hs).2)
  parent := rfl

theorem visits_below (h : k.Stacked t) (g : Generator) (hm : k.memo.Mirrors k.callers)
    (hk : k.memo.state k.struct.name = .notVisited) (hss : ∀ s ∈ ss, s ∈ t.below k.struct) :
    ∃ m, (∀ depth, t.size < k.depth + depth →
        visitAll g t depth (some k.struct.name) ss (k.memo.begin k.struct.name) = some m) ∧
      m.Mirrors (k.struct.name :: k.callers) := by
  obtain ⟨hdone, hcaller⟩ := hm.notVisited_iff.mp hk
  have hnodup := List.nodup_cons.mpr ⟨hcaller, h.nodup⟩
  have hknown := List.cons_subset.mpr ⟨Table.name_mem_names h.entry, h.known⟩
  obtain ⟨m, hvisits, hm', _⟩ := Memo.visitAll_returns g hnodup hknown
    (fun s hs => (Table.mem_below (hss s hs)).1) (hm.begin hdone)
  exact ⟨m, hvisits, hm'⟩

end Stacked

namespace Made

theorem invariant (h : Made g t k) : k.memo.Mirrors k.callers ∧ k.Stacked t := by
  induction h with
  | @outer s m before after hs depth hm =>
    have hentries : ∀ x ∈ before ++ s :: after, x ∈ t.entries := by
      intro x hx
      exact Table.entry_of_marked (hs ▸ hx)
    obtain ⟨hbefore, hrest⟩ := List.forall_mem_append.mp hentries
    obtain ⟨m', hvisits, hmirrors, _⟩ :=
      Memo.visitAll_returns g List.nodup_nil (List.nil_subset _) hbefore .empty
    obtain rfl := Memo.visitAll_unique hm (hvisits (t.size + 1) (by simp))
    have hentry := hrest s List.mem_cons_self
    exact ⟨hmirrors, List.nodup_nil, List.nil_subset _, hentry, .singleton _, rfl⟩
  | @inner k s m _ hk before after hs depth hm ih =>
    obtain ⟨hmirrors, hstack⟩ := ih
    have hbelow : ∀ x ∈ before ++ s :: after, x ∈ t.below k.struct := by
      intro x hx
      exact hs ▸ hx
    obtain ⟨hbefore, hrest⟩ := List.forall_mem_append.mp hbelow
    obtain ⟨m', hvisits, hmirrors'⟩ := hstack.visits_below g hmirrors hk hbefore
    obtain rfl := Memo.visitAll_unique hm (hvisits (t.size + 1) (by omega))
    have hcaller := (hmirrors.notVisited_iff.mp hk).2
    exact ⟨hmirrors', hstack.below hcaller (hrest s List.mem_cons_self) m⟩

theorem returns (h : Made g t k) :
    ∃ m, (∀ depth, t.size < k.depth + depth →
        Memo.visit g t (depth + 1) k.parent k.memo k.struct = some m) ∧
      m.emission = Emission.visit g t (t.size + 1 - k.callers.length) k.callers k.struct
        k.memo.emission ∧
      k.memo.emission.fragments <+: m.emission.fragments := by
  obtain ⟨hmirrors, hstack⟩ := h.invariant
  have hentry : ∀ s ∈ [k.struct], s ∈ t.entries := List.forall_mem_singleton.mpr hstack.entry
  obtain ⟨m, hvisit, _, he, hkept⟩ :=
    Memo.visitAll_returns g hstack.nodup hstack.known hentry hmirrors
  refine ⟨m, ?_, he, hkept⟩
  intro depth hd
  rw [hstack.parent, ← Memo.visitAll_singleton]
  apply hvisit
  unfold Call.depth at hd
  omega

/-- When the dependencies are done with, the struct has no text yet. -/
theorem unfinished (h : Made g t k) (hk : k.memo.state k.struct.name = .notVisited) :
    ∃ m, (∀ depth, t.size < k.depth + depth → visitAll g t depth (some k.struct.name)
        (t.below k.struct) (k.memo.begin k.struct.name) = some m) ∧
      k.struct.name ∉ m.fragments.names := by
  obtain ⟨hmirrors, hstack⟩ := h.invariant
  obtain ⟨m, hvisits, hm⟩ := hstack.visits_below g hmirrors hk fun _ hs => hs
  exact ⟨m, hvisits, hm.not_finished List.mem_cons_self⟩

theorem none_inProgress (h : Made g t k) (hk : k.parent = none) (n : String) :
    k.memo.state n ≠ .inProgress := by
  obtain ⟨hmirrors, hstack⟩ := h.invariant
  rw [hstack.parent, List.head?_eq_none_iff] at hk
  rw [Ne, hmirrors.inProgress, hk]
  exact List.not_mem_nil

theorem parent_of_inProgress (h : Made g t k) (hk : k.memo.state k.struct.name = .inProgress) :
    k.parent.isSome := by
  obtain ⟨hmirrors, hstack⟩ := h.invariant
  have hcaller := (hmirrors.inProgress _).mp hk
  rw [hstack.parent]
  exact List.isSome_head?.mpr (List.ne_nil_of_mem hcaller)

end Made

end Call

/-- The walk by states comes to an end, with what a run emits. At every call on its way the structs
in progress are the callers and those that are done are the ones with a text; the callers are
distinct structs of the table that lead to each other, so visits are never nested deeper than one
more than the table has structs. Nothing is in progress when a visit is called for from outside, so
an edge that is left out has a parent. Every call returns, with the emission that the visit of a run
gives there, and no finished text is replaced: the earlier ones stay, and that of the struct is
new. -/
theorem states_mirror_calls (g : Generator) (t : Table) :
    (∃ m, (∀ depth, t.size < depth → Memo.generate g t depth = some m) ∧
      m.emission = Emission.run g t) ∧
    ∀ k, Call.Made g t k →
      k.memo.Mirrors k.callers ∧ k.Stacked t ∧ k.depth ≤ t.size + 1 ∧
      (k.parent = none → ∀ n, k.memo.state n ≠ .inProgress) ∧
      (k.memo.state k.struct.name = .inProgress → k.parent.isSome) ∧
      (k.memo.state k.struct.name = .notVisited →
        ∃ m, (∀ depth, t.size < k.depth + depth → Memo.visitAll g t depth (some k.struct.name)
            (t.below k.struct) (k.memo.begin k.struct.name) = some m) ∧
          k.struct.name ∉ m.fragments.names) ∧
      ∃ m, (∀ depth, t.size < k.depth + depth →
          Memo.visit g t (depth + 1) k.parent k.memo k.struct = some m) ∧
        m.emission = Emission.visit g t (t.size + 1 - k.callers.length) k.callers k.struct
          k.memo.emission ∧
        k.memo.emission.fragments <+: m.emission.fragments := by
  refine ⟨Memo.generate_returns g t, ?_⟩
  intro k hk
  obtain ⟨hmirrors, hstack⟩ := hk.invariant
  exact ⟨hmirrors, hstack, hstack.depth_le, hk.none_inProgress, hk.parent_of_inProgress,
    hk.unfinished, hk.returns⟩

/-- The node is visited again below itself and the ring, as deep as the bound allows. -/
theorem states_mirror_calls_ring : ∃ k, Call.Made (fun s _ => s.name) ring k ∧
    k.struct.name = "Node" ∧ k.callers = ["Node", "Ring"] ∧ k.depth = ring.size + 1 ∧
    k.memo.state "Node" = .inProgress ∧ k.parent = some "Node" := by
  have houter := Call.Made.outer (g := fun s _ => s.name) (t := ring) [] [] rfl 0 rfl
  have hring := houter.inner (by simp) [] [] rfl 0 rfl
  have hnode := hring.inner (by simp) [] [_] rfl 0 rfl
  obtain ⟨_, hcalls⟩ := states_mirror_calls (fun s _ => s.name) ring
  obtain ⟨hmirrors, hstack, _⟩ := hcalls _ hnode
  exact ⟨_, hnode, rfl, rfl, rfl, (hmirrors.inProgress _).mpr List.mem_cons_self, hstack.parent⟩

end Inspector
