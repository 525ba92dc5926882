import Inspector.Glob.Expand
import Inspector.Proofs.Matching
import Inspector.Proofs.Segments

/-! Patterns and paths part by part. The slashes of a pattern divide it into parts, and as long as
no class reaches over one of them the parts can be read one by one. A path then goes with the parts
name by name, unless a class of the pattern stands for a slash. -/
namespace Inspector.Glob

open Inspector.Path (segments unsegments)

def deepPart : List Char := ['*', '*']

/-- Whether no class reaches over a slash; `inside` tells if the text starts in a class. -/
def classesWithinParts : (inside : Bool) → List Char → Bool
  | _, [] => true
  | true, c :: cs =>
    if c = ']' then classesWithinParts false cs else c ≠ '/' && classesWithinParts true cs
  | false, c :: cs => classesWithinParts (decide (c = '[' ∧ ']' ∈ cs)) cs

theorem hasDeep_of_cons {c : Char} {cs : List Char} (h : hasDeep (c :: cs) = false) :
    hasDeep cs = false := by
  unfold hasDeep at h
  split at h
  · cases h
  · next he =>
    obtain ⟨rfl, rfl⟩ := List.cons.inj he
    exact h
  · next he => cases he

theorem hasDeep_of_mem_segments {cs : List Char} (h : deepPart ∈ segments cs) :
    hasDeep cs = true := by
  obtain ⟨u, v, rfl⟩ := Path.infix_of_mem_segments h
  clear h
  induction u with
  | nil => rfl
  | cons c u ih =>
    cases hc : hasDeep (c :: u ++ deepPart ++ v) with
    | true => rfl
    | false =>
      have htail : hasDeep (u ++ deepPart ++ v) = false := hasDeep_of_cons hc
      rw [htail] at ih
      cases ih

/-- A class that is open at the start of a part ends there. -/
theorem close_mem_of_within {part cs : List Char} (hslash : '/' ∉ part)
    (h : classesWithinParts true (part ++ '/' :: cs) = true) : ']' ∈ part := by
  induction part with
  | nil => simp [classesWithinParts] at h
  | cons c part ih =>
    rw [List.mem_cons, not_or] at hslash
    by_cases hc : c = ']'
    · exact hc ▸ List.mem_cons_self
    · simp only [List.cons_append, classesWithinParts, if_neg hc, Bool.and_eq_true] at h
      exact List.mem_cons_of_mem c (ih hslash.2 h.2)

theorem within_rest {inside : Bool} {part cs : List Char} (hslash : '/' ∉ part)
    (h : classesWithinParts inside (part ++ '/' :: cs) = true) :
    classesWithinParts false cs = true := by
  induction part generalizing inside with
  | nil =>
    cases inside with
    | false => simpa [classesWithinParts] using h
    | true => simp [classesWithinParts] at h
  | cons c part ih =>
    rw [List.mem_cons, not_or] at hslash
    cases inside with
    | false => exact ih hslash.2 h
    | true =>
      rw [List.cons_append, classesWithinParts] at h
      split at h
      · exact ih hslash.2 h
      · exact ih hslash.2 (Bool.and_eq_true _ _ ▸ h).2

namespace Pattern

theorem parse_star {cs : List Char} (h : cs.head? ≠ some '*') :
    parse none ('*' :: cs) = (parse none cs).map (.star :: ·) := by
  cases cs with
  | nil => simp [parse]
  | cons d ds =>
    have hd : d ≠ '*' := fun he => h (by simp [he])
    simp [parse, hd]

theorem parse_close (body cs : List Char) : parse (some body) (']' :: cs) =
    (CharClass.ofBody? body.reverse).bind fun k => (parse none cs).map (.cls k :: ·) := by
  rw [parse, if_pos rfl]
  cases CharClass.ofBody? body.reverse with
  | none => rfl
  | some k => cases parse none cs <;> rfl

theorem parse_open {cs : List Char} (h : ']' ∈ cs) :
    parse none ('[' :: cs) = parse (some []) cs := by
  simp [parse, h]

theorem parse_char {c : Char} {cs : List Char} (hstar : c ≠ '*') (hone : c ≠ '?')
    (hopen : ¬ (c = '[' ∧ ']' ∈ cs)) :
    parse none (c :: cs) = (parse none cs).map (.char c :: ·) := by
  simp [parse, hstar, hone, hopen]

theorem map_cons_bind (i : Item) (x y : Option Pattern) :
    (x.bind fun q => y.map fun p => q ++ .char '/' :: p).map (i :: ·) =
      (x.map (i :: ·)).bind fun q => y.map fun p => q ++ .char '/' :: p := by
  cases x <;> cases y <;> rfl

/-- A part without `**` and the rest behind its slash are read independently. -/
theorem parse_part (body : Option (List Char)) {part cs : List Char} (hslash : '/' ∉ part)
    (hdeep : hasDeep part = false)
    (hwithin : classesWithinParts body.isSome (part ++ '/' :: cs) = true) :
    parse body (part ++ '/' :: cs) =
      (parse body part).bind fun q => (parse none cs).map fun p => q ++ .char '/' :: p := by
  fun_induction parse body part with
  | case1 body =>
    cases body with
    | none => simp [parse]
    | some body => simp [classesWithinParts] at hwithin
  | case2 body part ih =>
    have hrest := ih (mt (List.mem_cons_of_mem _) hslash) (hasDeep_of_cons hdeep) hwithin
    rw [List.cons_append, parse_close, hrest]
    cases CharClass.ofBody? body.reverse with
    | none => rfl
    | some k => cases parse none part <;> cases parse none cs <;> rfl
  | case3 body c part hc ih =>
    simp only [List.cons_append, classesWithinParts, Option.isSome_some, if_neg hc,
      Bool.and_eq_true] at hwithin
    rw [List.cons_append, parse, if_neg hc]
    exact ih (mt (List.mem_cons_of_mem _) hslash) (hasDeep_of_cons hdeep) hwithin.2
  | case4 part ih => simp [hasDeep] at hdeep
  | case5 part hnext ih => simp [hasDeep] at hdeep
  | case6 part _ hnext ih =>
    have hhead : (part ++ '/' :: cs).head? ≠ some '*' := by
      cases part with
      | nil => simp
      | cons d ds =>
        intro he
        exact hnext ds rfl (by simpa using he)
    have hrest := ih (mt (List.mem_cons_of_mem _) hslash) (hasDeep_of_cons hdeep) hwithin
    rw [List.cons_append, parse_star hhead, hrest, map_cons_bind]
  | case7 part _ _ _ ih =>
    have hrest := ih (mt (List.mem_cons_of_mem _) hslash) (hasDeep_of_cons hdeep) hwithin
    rw [← map_cons_bind, ← hrest]
    simp [parse]
  | case8 c part _ _ hstar hone hopen ih =>
    obtain ⟨rfl, hclose⟩ := hopen
    have hmem : ']' ∈ part ++ '/' :: cs := List.mem_append_left _ hclose
    have hinside : classesWithinParts true (part ++ '/' :: cs) = true := by
      simpa [classesWithinParts, hmem] using hwithin
    rw [List.cons_append, parse_open hmem]
    exact ih (mt (List.mem_cons_of_mem _) hslash) (hasDeep_of_cons hdeep) hinside
  | case9 c part _ _ hstar hone hopen ih =>
    have hopen' : ¬ (c = '[' ∧ ']' ∈ part ++ '/' :: cs) := by
      rintro ⟨rfl, hmem⟩
      have hinside : classesWithinParts true (part ++ '/' :: cs) = true := by
        simpa [classesWithinParts, hmem] using hwithin
      exact hopen ⟨rfl, close_mem_of_within (mt (List.mem_cons_of_mem _) hslash) hinside⟩
    have hout : classesWithinParts false (part ++ '/' :: cs) = true := by
      rwa [Option.isSome_none, List.cons_append, classesWithinParts, decide_eq_false hopen']
        at hwithin
    have hrest := ih (mt (List.mem_cons_of_mem _) hslash) (hasDeep_of_cons hdeep) hout
    rw [List.cons_append, parse_char hstar hone hopen', hrest, map_cons_bind]

end Pattern

def Item.avoidsSlash : Item → Bool
  | .char c => c ≠ '/'
  | .one => true
  | .star => true
  | .deep => false
  | .folders => false
  | .cls k => !k.admits '/'

theorem Item.no_slash_of_takes {i : Item} {u : List Char} (h : i.Takes u)
    (hi : i.avoidsSlash = true) : '/' ∉ u := by
  cases h with
  | char c =>
    have hc : c ≠ '/' := of_decide_eq_true hi
    exact mt List.mem_singleton.mp hc.symm
  | one hc => exact mt List.mem_singleton.mp hc.symm
  | star hu => exact hu
  | deep => cases hi
  | noFolders => cases hi
  | folders => cases hi
  | @cls k c hc =>
    rw [List.mem_singleton]
    rintro rfl
    simp [avoidsSlash, hc] at hi

namespace Pattern

theorem no_slash_of_takes {p : Pattern} {u : List Char} (h : p.Takes u)
    (hp : ∀ i ∈ p, i.avoidsSlash = true) : '/' ∉ u := by
  induction h with
  | nil => exact List.not_mem_nil
  | cons hi _ ih =>
    obtain ⟨hhead, htail⟩ := List.forall_mem_cons.mp hp
    rw [List.mem_append, not_or]
    exact ⟨Item.no_slash_of_takes hi hhead, ih htail⟩

def ClassesAvoidSlash (p : Pattern) : Prop := ∀ k, Item.cls k ∈ p → k.admits '/' = false

theorem ClassesAvoidSlash.of_subset {p q : Pattern} (h : p.ClassesAvoidSlash) (hsub : q ⊆ p) :
    q.ClassesAvoidSlash :=
  fun k hk => h k (hsub hk)

/-- In a part without `**` only a class can stand for a slash. -/
theorem parse_items {body : Option (List Char)} {part : List Char} {q : Pattern}
    (hslash : '/' ∉ part) (hdeep : hasDeep part = false) (h : parse body part = some q) :
    ∀ i ∈ q, i.avoidsSlash = true ∨ ∃ k, i = .cls k := by
  fun_induction parse body part generalizing q with
  | case1 body =>
    obtain rfl := Option.some.inj h
    exact fun i hi => absurd hi List.not_mem_nil
  | case2 body part ih =>
    change (CharClass.ofBody? body.reverse).bind _ = some q at h
    obtain ⟨k, _, h⟩ := Option.bind_eq_some_iff.mp h
    obtain ⟨q', hq', h⟩ := Option.bind_eq_some_iff.mp h
    obtain rfl := Option.some.inj h
    have hrest := ih (mt (List.mem_cons_of_mem _) hslash) (hasDeep_of_cons hdeep) hq'
    exact List.forall_mem_cons.mpr ⟨Or.inr ⟨k, rfl⟩, hrest⟩
  | case3 body c part hc ih =>
    exact ih (mt (List.mem_cons_of_mem _) hslash) (hasDeep_of_cons hdeep) h
  | case4 part ih => simp [hasDeep] at hdeep
  | case5 part hnext ih => simp [hasDeep] at hdeep
  | case6 part _ hnext ih =>
    obtain ⟨q', hq', rfl⟩ := Option.map_eq_some_iff.mp h
    have hrest := ih (mt (List.mem_cons_of_mem _) hslash) (hasDeep_of_cons hdeep) hq'
    exact List.forall_mem_cons.mpr ⟨Or.inl rfl, hrest⟩
  | case7 part _ _ _ ih =>
    obtain ⟨q', hq', rfl⟩ := Option.map_eq_some_iff.mp h
    have hrest := ih (mt (List.mem_cons_of_mem _) hslash) (hasDeep_of_cons hdeep) hq'
    exact List.forall_mem_cons.mpr ⟨Or.inl rfl, hrest⟩
  | case8 c part _ _ hstar hone hopen ih =>
    exact ih (mt (List.mem_cons_of_mem _) hslash) (hasDeep_of_cons hdeep) h
  | case9 c part _ _ hstar hone hopen ih =>
    obtain ⟨q', hq', rfl⟩ := Option.map_eq_some_iff.mp h
    have hrest := ih (mt (List.mem_cons_of_mem _) hslash) (hasDeep_of_cons hdeep) hq'
    have hc : c ≠ '/' := fun he => hslash (he ▸ List.mem_cons_self)
    exact List.forall_mem_cons.mpr ⟨Or.inl (decide_eq_true hc), hrest⟩

end Pattern

structure Says (part : List Char) (q : Pattern) : Prop where
  plain : part ≠ deepPart
  parsed : Pattern.parse? part = some q
  items : ∀ i ∈ q, i.avoidsSlash = true ∨ ∃ k, i = .cls k

theorem Says.no_slash {part u : List Char} {q : Pattern} (h : Says part q)
    (hq : q.ClassesAvoidSlash) (hu : q.Takes u) : '/' ∉ u := by
  apply Pattern.no_slash_of_takes hu
  intro i hi
  obtain h | ⟨k, rfl⟩ := h.items i hi
  · exact h
  · simp [Item.avoidsSlash, hq k hi]

inductive Composed : List (List Char) → Pattern → Prop where
  | lastDeep : Composed [deepPart] [.deep]
  | last {part : List Char} {q : Pattern} (hq : Says part q) : Composed [part] q
  | deep {parts : List (List Char)} {p : Pattern} (hp : Composed parts p) :
      Composed (deepPart :: parts) (.folders :: p)
  | part {part : List Char} {q : Pattern} {parts : List (List Char)} {p : Pattern}
      (hq : Says part q) (hp : Composed parts p) : Composed (part :: parts) (q ++ .char '/' :: p)

theorem says_of_parse {part : List Char} {q : Pattern} (hslash : '/' ∉ part)
    (hdeep : hasDeep part = false) (h : Pattern.parse? part = some q) : Says part q := by
  refine ⟨?_, h, Pattern.parse_items hslash hdeep h⟩
  rintro rfl
  simp [deepPart, hasDeep] at hdeep

/-- A pattern whose classes stay within its parts is put together from them. -/
theorem composed_of_parse {parts : List (List Char)} (hne : parts ≠ [])
    (hslash : ∀ part ∈ parts, '/' ∉ part)
    (hparts : ∀ part ∈ parts, part = deepPart ∨ hasDeep part = false)
    (hwithin : classesWithinParts false (unsegments parts) = true) {p : Pattern}
    (h : Pattern.parse? (unsegments parts) = some p) : Composed parts p := by
  induction parts generalizing p with
  | nil => exact absurd rfl hne
  | cons part parts ih =>
    obtain ⟨hsl, hslash⟩ := List.forall_mem_cons.mp hslash
    obtain ⟨hkind, hparts⟩ := List.forall_mem_cons.mp hparts
    by_cases hlast : parts = []
    · subst hlast
      obtain rfl | hplain := hkind
      · obtain rfl : [Item.deep] = p := Option.some.inj h
        exact .lastDeep
      · exact .last (says_of_parse hsl hplain h)
    · rw [Path.unsegments_cons part hlast] at hwithin h
      have hrest := fun {p'} => @ih hlast hslash hparts (within_rest hsl hwithin) p'
      obtain rfl | hplain := hkind
      · obtain ⟨p', hp', rfl⟩ : ∃ p', Pattern.parse? (unsegments parts) = some p' ∧
            .folders :: p' = p := Option.map_eq_some_iff.mp h
        exact .deep (hrest hp')
      · have hread := Pattern.parse_part none hsl hplain hwithin
        rw [Pattern.parse?, hread] at h
        obtain ⟨q, hq, h⟩ := Option.bind_eq_some_iff.mp h
        obtain ⟨p', hp', rfl⟩ := Option.map_eq_some_iff.mp h
        exact .part (says_of_parse hsl hplain hq) (hrest hp')

/-- How names go with the parts of a pattern: `**` stands for any number of them, and every other
part for one name, which it takes as a pattern of its own. -/
inductive Componentwise : List (List Char) → List (List Char) → Prop where
  | nil : Componentwise [] []
  | deep {parts rest : List (List Char)} (between : List (List Char))
      (h : Componentwise parts rest) : Componentwise (deepPart :: parts) (between ++ rest)
  | part {part name : List Char} {parts rest : List (List Char)} {q : Pattern}
      (hpart : part ≠ deepPart) (hq : Pattern.parse? part = some q) (hname : q.Takes name)
      (h : Componentwise parts rest) : Componentwise (part :: parts) (name :: rest)

/-- A last part other than `**` takes the last name. -/
theorem Componentwise.last_part (parts : List (List Char)) {part : List Char}
    {names : List (List Char)} (hpart : part ≠ deepPart)
    (h : Componentwise (parts ++ [part]) names) :
    ∃ before name q, names = before ++ [name] ∧ Pattern.parse? part = some q ∧ q.Takes name := by
  generalize hps : parts ++ [part] = ps at h
  induction h generalizing parts with
  | nil => simp at hps
  | deep between _ ih =>
    obtain ⟨rfl, he⟩ | ⟨parts', rfl, he⟩ := List.append_eq_cons_iff.mp hps
    · exact absurd (List.cons.inj he).1 hpart
    · obtain ⟨before, name, q, rfl, hq, hname⟩ := ih parts' he.symm
      exact ⟨between ++ before, name, q, by simp, hq, hname⟩
  | part hown hq hname h ih =>
    obtain ⟨rfl, he⟩ | ⟨parts', rfl, he⟩ := List.append_eq_cons_iff.mp hps
    · obtain ⟨rfl, rfl⟩ := List.cons.inj he
      cases h
      exact ⟨[], _, _, rfl, hq, hname⟩
    · obtain ⟨before, name, q, rfl, hq, hname⟩ := ih parts' he.symm
      exact ⟨_ :: before, name, q, rfl, hq, hname⟩

namespace Composed

variable {parts : List (List Char)} {p : Pattern} {cs : List Char}

theorem takes_behind {q : Pattern} (h : Pattern.Takes (q ++ .char '/' :: p) cs) :
    ∃ u v, q.Takes u ∧ p.Takes v ∧ cs = u ++ '/' :: v := by
  obtain ⟨u, w, hu, hw, rfl⟩ := Pattern.takes_append_iff.mp h
  obtain ⟨x, v, hx, hv, rfl⟩ := Pattern.takes_cons_iff.mp hw
  cases hx
  exact ⟨u, v, hu, hv, rfl⟩

/-- Every part other than `**` takes at least one name. -/
theorem length_le (hp : Composed parts p) (hplain : ∀ part ∈ parts, part ≠ deepPart)
    (h : p.Takes cs) : parts.length ≤ (segments cs).length := by
  induction hp generalizing cs with
  | lastDeep => exact absurd rfl (hplain deepPart List.mem_cons_self)
  | last => exact List.length_pos_iff.mpr (Path.segments_ne_nil cs)
  | deep => exact absurd rfl (hplain deepPart List.mem_cons_self)
  | part _ _ ih =>
    obtain ⟨u, v, _, hv, rfl⟩ := takes_behind h
    have hrest := ih (List.forall_mem_cons.mp hplain).2 hv
    have hfirst := List.length_pos_iff.mpr (Path.segments_ne_nil u)
    rw [Path.segments_append_slash, List.length_append, List.length_cons]
    omega

/-- A path goes with the parts of a pattern that takes it, if no class stands for a slash or if
there are no more names than parts. -/
theorem componentwise (hp : Composed parts p) (h : p.Takes cs)
    (hroom : (∀ part ∈ parts, part ≠ deepPart) ∧ (segments cs).length ≤ parts.length ∨
      p.ClassesAvoidSlash) :
    Componentwise parts (segments cs) := by
  induction hp generalizing cs with
  | lastDeep =>
    rw [← List.append_nil (segments cs)]
    exact .deep _ .nil
  | last hq =>
    have hcs : segments cs = [cs] := by
      obtain ⟨_, hlen⟩ | havoid := hroom
      · exact Path.segments_eq_of_length_le hlen
      · exact Path.segments_of_no_slash (hq.no_slash havoid h)
    rw [hcs]
    exact .part hq.plain hq.parsed h .nil
  | @deep parts p _ ih =>
    have havoid : Pattern.ClassesAvoidSlash p := by
      obtain ⟨hplain, _⟩ | havoid := hroom
      · exact absurd rfl (hplain deepPart List.mem_cons_self)
      · exact havoid.of_subset (List.subset_cons_self _ _)
    obtain ⟨u, v, hu, hv, rfl⟩ := Pattern.takes_cons_iff.mp h
    have hrest := ih hv (Or.inr havoid)
    cases hu with
    | noFolders => exact .deep [] hrest
    | @folders u =>
      rw [List.append_assoc, List.singleton_append, Path.segments_append_slash]
      exact .deep _ hrest
  | @part part q parts p hq hp ih =>
    obtain ⟨u, v, hu, hv, rfl⟩ := takes_behind h
    rw [Path.segments_append_slash] at hroom ⊢
    rw [List.length_append, List.length_cons] at hroom
    -- What is left for the other parts is no less than they need, so this part has one name.
    have hsplit : segments u = [u] ∧ Componentwise parts (segments v) := by
      obtain ⟨hplain, hlen⟩ | havoid := hroom
      · have hplain := (List.forall_mem_cons.mp hplain).2
        have hneed := hp.length_le hplain hv
        have hfirst := List.length_pos_iff.mpr (Path.segments_ne_nil u)
        exact ⟨Path.segments_eq_of_length_le (by omega), ih hv (Or.inl ⟨hplain, by omega⟩)⟩
      · have hq' := havoid.of_subset (List.subset_append_left q _)
        have hp' : Pattern.ClassesAvoidSlash p := havoid.of_subset (by simp)
        exact ⟨Path.segments_of_no_slash (hq.no_slash hq' hu), ih hv (Or.inr hp')⟩
    rw [hsplit.1]
    exact .part hq.plain hq.parsed hu hsplit.2

end Composed

end Inspector.Glob
