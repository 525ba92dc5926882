import Inspector.Proofs.DeepPattern
import Inspector.Proofs.Tokens

/-! The limit on the depth of a search. Without `**` a pattern stands for no more slashes than it is
written with, so a file that lies deeper than the pattern has parts cannot match. A walk that stops
at this depth therefore finds what a walk without a limit finds. -/
namespace Inspector

namespace Tree

variable {t : Tree} {root : String} {route : List String} {p : Place} {above : List Place}

/-- At a name a walk enters a directory, which is one level further down or was not open before, or
it ends there whatever it does in directories. -/
theorem visitName_cases (t : Tree) (root : String) (above : List Place) (route : List String)
    (p : Place) (name : String) :
    (∃ q, t.get? q = some .folder ∧ (q = p ++ [name] ∨ q ∉ above) ∧
      ∀ into, t.visitName root into above route p name = into (route ++ [name]) q) ∨
    ∃ x, (∀ into, t.visitName root into above route p name = x) ∧
      ∀ files, x = .ok files → ∀ r ∈ files, r = route ++ [name] := by
  unfold visitName
  cases he : t.get? (p ++ [name]) with
  | none => exact Or.inr ⟨_, fun _ => rfl, by simp⟩
  | some e =>
    cases e with
    | folder => exact Or.inl ⟨_, he, Or.inl rfl, fun _ => rfl⟩
    | file c => exact Or.inr ⟨_, fun _ => rfl, by simp⟩
    | link target =>
      cases hq : t.target root (route ++ [name]) with
      | error e => exact Or.inr ⟨_, fun _ => rfl, by simp⟩
      | ok q =>
        by_cases hfolder : t.get? q = some .folder
        · by_cases hloop : q ∈ above
          · exact Or.inr ⟨.error .loop, by simp [hfolder, hloop], by simp⟩
          · exact Or.inl ⟨q, hfolder, Or.inr hloop, by simp [hfolder, hloop]⟩
        · exact Or.inr ⟨.ok [route ++ [name]], by simp [hfolder], by simp⟩

theorem length_lt_of_walk {depth : Nat} {files : List (List String)}
    (h : t.walk root depth above route p = .ok files) {r : List String} (hr : r ∈ files) :
    route.length < r.length := by
  induction depth generalizing above route p files with
  | zero =>
    obtain rfl := Except.ok.inj h
    cases hr
  | succ depth ih =>
    obtain ⟨found, hfound, rfl⟩ := walk_ok_iff.mp h
    obtain ⟨fs, hfs, hr⟩ := List.mem_flatten.mp hr
    obtain ⟨name, _, hvisit⟩ := exists_left_of_forall₂ hfound hfs
    obtain ⟨q, _, _, henter⟩ | ⟨x, hstay, hx⟩ := visitName_cases t root above route p name
    · rw [henter] at hvisit
      have hlonger := ih hvisit hr
      simp only [List.length_append, List.length_singleton] at hlonger
      omega
    · rw [hstay] at hvisit
      simp [hx fs hvisit r hr]

def near (n : Nat) (files : List (List String)) : List (List String) :=
  files.filter fun r => r.length ≤ n

/-- A walk that stops earlier comes to the near ones of the files, in the same order. -/
theorem walk_near {depth more : Nat} {files : List (List String)}
    (h : t.walk root (depth + more) above route p = .ok files) :
    t.walk root depth above route p = .ok (near (route.length + depth) files) := by
  induction depth generalizing above route p files with
  | zero =>
    have hfar : near (route.length + 0) files = [] := by
      apply List.filter_eq_nil_iff.mpr
      intro r hr
      have hlonger := length_lt_of_walk h hr
      simpa using hlonger
    rw [hfar]
    rfl
  | succ depth ih =>
    rw [Nat.add_right_comm] at h
    obtain ⟨found, hfound, rfl⟩ := walk_ok_iff.mp h
    refine walk_ok_iff.mpr ⟨found.map (near (route.length + (depth + 1))), ?_, ?_⟩
    · apply List.forall₂_map_right_iff.mpr
      refine hfound.imp ?_
      intro name fs hvisit
      obtain ⟨q, _, _, henter⟩ | ⟨x, hstay, hx⟩ := visitName_cases t root above route p name
      · rw [henter] at hvisit ⊢
        have hinner := ih hvisit
        rwa [List.length_append, List.length_singleton, Nat.add_assoc, Nat.add_comm 1] at hinner
      · rw [hstay] at hvisit ⊢
        have hall : near (route.length + (depth + 1)) fs = fs := by
          apply List.filter_eq_self.mpr
          intro r hr
          simp [hx fs hvisit r hr]
        rwa [hall]
    · exact (List.filter_flatten).symm

/-- Walks that have room for their depth do not differ. -/
theorem walk_of_room (ht : t.WellFormed) {depth depth' : Nat} (h : t.room above p < depth)
    (h' : t.room above p < depth') :
    t.walk root depth above route p = t.walk root depth' above route p := by
  induction depth generalizing depth' above route p with
  | zero => omega
  | succ depth ih =>
    obtain ⟨depth', rfl⟩ : ∃ d, depth' = d + 1 := ⟨depth' - 1, by omega⟩
    have hvisit :
        t.visitName root (fun route q => t.walk root depth (q :: above) route q) above route p =
          t.visitName root (fun route q => t.walk root depth' (q :: above) route q) above
            route p := by
      funext name
      obtain ⟨q, hfolder, hfresh, henter⟩ | ⟨x, hstay, _⟩ :=
        visitName_cases t root above route p name
      · have hless : t.room (q :: above) q < t.room above p := room_entered ht hfolder hfresh
        rw [henter, henter]
        exact ih (by omega) (by omega)
      · rw [hstay, hstay]
    rw [walk, walk, hvisit]

/-- If a walk without a limit meets no fault, one with a limit meets none either and finds those of
the files that are near enough. -/
theorem filesBelow_near (ht : t.WellFormed) {files : List (List String)}
    (h : t.filesBelow root none = .ok files) (n : Nat) :
    t.filesBelow root (some n) = .ok (near n files) := by
  unfold filesBelow at h ⊢
  split
  · next p hloc =>
    rw [hloc] at h
    by_cases hp : t.get? p = some .folder
    · simp only [hp, if_true, Option.getD_none, Option.getD_some] at h ⊢
      have hroom := room_lt_maxDepth (t := t) [p] p
      rw [walk_of_room ht hroom (Nat.lt_add_left n hroom)] at h
      simpa using walk_near h
    · simp only [hp, if_false] at h ⊢
      obtain rfl := Except.ok.inj h
      rfl
  · next hnone =>
    split at h
    · next p hloc => exact absurd hloc (hnone p)
    · obtain rfl := Except.ok.inj h
      rfl

end Tree

namespace Path

theorem length_segments (cs : List Char) : (segments cs).length = cs.count '/' + 1 := by
  induction cs with
  | nil => rfl
  | cons c cs ih =>
    by_cases hc : c = '/'
    · simp [segments, hc, ih]
    · cases hs : segments cs with
      | nil => exact absurd hs (segments_ne_nil cs)
      | cons s ss =>
        rw [hs] at ih
        simpa [segments, hc, hs] using ih

theorem length_le_count_unsegments (ss : List (List Char)) :
    ss.length ≤ (unsegments ss).count '/' + 1 := by
  induction ss with
  | nil => simp
  | cons s ss ih =>
    by_cases hss : ss = []
    · simp [hss]
    · rw [unsegments_cons s hss, List.count_append, List.count_cons_self, List.length_cons]
      omega

end Path

namespace Glob

open Inspector.Path (segments)
open Inspector.Glob.CharClass (bodyAdmits inside)

/-- A file that lies `n` directories down has at least as many slashes in its path. -/
theorem length_le_count_relative (names : List String) :
    names.length ≤ (relative names).count '/' + 1 := by
  have hslashes := Path.length_le_count_unsegments (names.map String.toList)
  have hkept : (Path.unsegments (names.map String.toList)).count '/' ≤ (relative names).count '/' :=
    List.count_le_count_map (f := slashed) (x := '/')
  rw [List.length_map] at hslashes
  omega

theorem hasDeep_iff {cs : List Char} : hasDeep cs = true ↔ ['*', '*'] <:+: cs := by
  fun_induction hasDeep cs with
  | case1 cs => simpa using (List.prefix_append ['*', '*'] cs).isInfix
  | case2 c cs hnext ih =>
    rw [ih, List.infix_cons_iff]
    refine ⟨Or.inr, fun h => h.resolve_left ?_⟩
    rintro ⟨ds, hds⟩
    obtain ⟨rfl, rfl⟩ := List.cons.inj hds
    exact hnext ds rfl rfl
  | case3 => simp

def Token.text : Token → List Char
  | .char c => [c]
  | .one => ['?']
  | .star => ['*']
  | .deep => ['*', '*']
  | .folders => ['*', '*', '/']
  | .cls negated body => '[' :: inside negated body ++ [']']

theorem Token.text_ofInside (inner : List Char) :
    (Token.ofInside inner).text = '[' :: inner ++ [']'] := by
  unfold Token.ofInside
  split
  · rfl
  · rfl

/-- A scan leaves nothing out. -/
theorem flatMap_text_tokens (cs : List Char) : (tokens cs).flatMap Token.text = cs := by
  fun_induction tokens cs with
  | case1 => rfl
  | case6 cs hclose ih =>
    obtain ⟨inner, rest, rfl, hinner⟩ := List.eq_append_cons_of_mem hclose
    have hpass : ∀ c ∈ inner, decide (c ≠ ']') = true :=
      fun c hc => decide_eq_true fun he => hinner (he ▸ hc)
    rw [List.flatMap_cons, ih, Token.text_ofInside, List.takeWhile_append_of_pos hpass,
      List.dropWhile_append_of_pos hpass]
    simp
  | _ => simp_all [Token.text]

/-- A class that stands for a slash is written with one. -/
def Token.ShowsSlash : Token → Prop
  | .cls negated body => bodyAdmits body '/' ≠ negated → '/' ∈ body
  | _ => True

theorem Token.count_slash_le {tok : Token} {u : List Char} (h : tok.Takes u)
    (hflat : hasDeep tok.text = false) (hshows : tok.ShowsSlash) :
    u.count '/' ≤ tok.text.count '/' := by
  cases tok with
  | char c =>
    obtain rfl : u = [c] := h
    exact le_rfl
  | one =>
    obtain ⟨c, rfl, hc⟩ := h
    simp [hc]
  | star =>
    rw [List.count_eq_zero_of_not_mem h]
    exact Nat.zero_le _
  | deep => cases hflat
  | folders => cases hflat
  | cls negated body =>
    obtain ⟨c, rfl, hc⟩ := h
    by_cases hslash : c = '/'
    · subst hslash
      have hbody : '/' ∈ body := hshows hc
      have htext : '/' ∈ (Token.cls negated body).text := by
        cases negated <;> simp [text, inside, hbody]
      simpa using List.count_pos_iff.mpr htext
    · simp [hslash]

theorem count_slash_le_of_pieces {ts : List Token} {pieces : List (List Char)}
    (h : List.Forall₂ Token.Takes ts pieces) (hflat : ∀ tok ∈ ts, hasDeep tok.text = false)
    (hshows : ∀ tok ∈ ts, tok.ShowsSlash) :
    pieces.flatten.count '/' ≤ (ts.flatMap Token.text).count '/' := by
  induction h with
  | nil => exact le_rfl
  | cons htok _ ih =>
    obtain ⟨hflat, hflats⟩ := List.forall_mem_cons.mp hflat
    obtain ⟨hshows, hshowss⟩ := List.forall_mem_cons.mp hshows
    rw [List.flatten_cons, List.flatMap_cons, List.count_append, List.count_append]
    exact Nat.add_le_add (Token.count_slash_le htok hflat hshows) (ih hflats hshowss)

variable {cs : List Char} {p : Pattern}

/-- No text that a pattern accepts has more slashes than the pattern. -/
theorem count_slash_le_of_accepts (hp : Pattern.parse? cs = some p) (hflat : hasDeep cs = false)
    (hshows : ∀ tok ∈ tokens cs, tok.ShowsSlash) {text : List Char}
    (h : p.accepts text = true) : text.count '/' ≤ cs.count '/' := by
  have hmeans : List.Forall₂ Token.Means (tokens cs) p := Pattern.means_of_parse hp
  obtain ⟨pieces, hpieces, rfl⟩ :=
    Pattern.takes_iff_pieces.mp ((Pattern.accepts_iff p text).mp h)
  have hflats : ∀ tok ∈ tokens cs, hasDeep tok.text = false := by
    intro tok htok
    have hpart : tok.text <:+: (tokens cs).flatMap Token.text :=
      List.infix_of_mem_flatten (List.mem_map_of_mem htok)
    rw [flatMap_text_tokens] at hpart
    rw [Bool.eq_false_iff] at hflat ⊢
    exact fun hdeep => hflat (hasDeep_iff.mpr ((hasDeep_iff.mp hdeep).trans hpart))
  have hcount :=
    count_slash_le_of_pieces ((forall₂_takes_iff hmeans pieces).mp hpieces) hflats hshows
  rwa [flatMap_text_tokens] at hcount

theorem not_accepts_of_deeper (hp : Pattern.parse? cs = some p) (hflat : hasDeep cs = false)
    (hshows : ∀ tok ∈ tokens cs, tok.ShowsSlash) {names : List String}
    (h : (segments cs).length < names.length) : p.accepts (relative names) = false := by
  rw [Bool.eq_false_iff]
  intro haccepts
  have hcount := count_slash_le_of_accepts hp hflat hshows haccepts
  have hnames := length_le_count_relative names
  rw [Path.length_segments] at h
  omega

/-- Files that are too far away to match may be left out. -/
theorem Split.matches_near (s : Split) {n : Nat} {files : List (List String)}
    (h : ∀ names ∈ files, n < names.length → p.accepts (relative names) = false) :
    s.matches p (Tree.near n files) = s.matches p files := by
  have hsame : ((Tree.near n files).map relative).filter p.accepts =
      (files.map relative).filter p.accepts := by
    rw [List.filter_map, List.filter_map, Tree.near, List.filter_filter]
    congr 1
    apply List.filter_congr
    intro names hnames
    by_cases hn : names.length ≤ n
    · simp [hn]
    · simp [h names hnames (Nat.lt_of_not_le hn)]
  simp only [Split.matches, hsame]

/-- Without `**`, and with no class that stands for a slash unseen, a pattern accepts no text with
more slashes than it has itself, so no file that lies deeper than it has parts. Wherever a walk
without a limit meets no fault, the walk down to that depth meets none either and gives the same
matches. -/
theorem depth_limit_loses_no_match {pattern : String} {p : Pattern}
    (hp : Pattern.parse? (Split.ofPattern pattern).rest = some p)
    (hflat : hasDeep (Split.ofPattern pattern).rest = false)
    (hshows : ∀ tok ∈ tokens (Split.ofPattern pattern).rest, tok.ShowsSlash) :
    (∀ text, p.accepts text = true →
      text.count '/' ≤ (Split.ofPattern pattern).rest.count '/') ∧
    (∀ names : List String, (segments (Split.ofPattern pattern).rest).length < names.length →
      p.accepts (relative names) = false) ∧
    ∀ t : Tree, t.WellFormed →
      ∀ all, t.filesBelow (Split.ofPattern pattern).root none = .ok all →
        ∃ files, t.filesBelow (Split.ofPattern pattern).root (Split.ofPattern pattern).depth =
            .ok files ∧
          (Split.ofPattern pattern).matches p files = (Split.ofPattern pattern).matches p all := by
  refine ⟨fun text => count_slash_le_of_accepts hp hflat hshows,
    fun names => not_accepts_of_deeper hp hflat hshows, ?_⟩
  intro t ht all hall
  have hdepth : (Split.ofPattern pattern).depth =
      some (segments (Split.ofPattern pattern).rest).length := if_neg (by simp [hflat])
  rw [hdepth]
  refine ⟨_, Tree.filesBelow_near ht hall _, Split.matches_near _ ?_⟩
  exact fun names _ => not_accepts_of_deeper hp hflat hshows

def twoLevelTree : Tree where
  entries := [(["d"], .folder), (["d", "f"], .file (.text "")), (["d", "e"], .folder),
    (["d", "e", "f"], .file (.text ""))]

theorem depth_limit_loses_no_match_class :
    tokens (Split.ofPattern "d[/x][e-g]").rest =
      [.char 'd', .cls false "/x".toList, .cls false "e-g".toList] ∧
    twoLevelTree.filesBelow "." none = .ok [["d", "f"], ["d", "e", "f"]] ∧
    ∃ p, Pattern.parse? (Split.ofPattern "d[/x][e-g]").rest = some p ∧
      p.accepts (relative ["d", "f"]) = true ∧ p.accepts (relative ["d", "e", "f"]) = false ∧
      ∃ files, twoLevelTree.filesBelow "." (some 2) = .ok files ∧
        (Split.ofPattern "d[/x][e-g]").matches p files =
          (Split.ofPattern "d[/x][e-g]").matches p [["d", "f"], ["d", "e", "f"]] := by
  have hrest : (Split.ofPattern "d[/x][e-g]").rest = "d[/x][e-g]".toList := by decide +kernel
  have hroot : (Split.ofPattern "d[/x][e-g]").root = "." := by decide +kernel
  have hdepth : (Split.ofPattern "d[/x][e-g]").depth = some 2 := by decide +kernel
  have htokens : tokens (Split.ofPattern "d[/x][e-g]").rest =
      [.char 'd', .cls false "/x".toList, .cls false "e-g".toList] := by
    rw [hrest]
    simp [tokens, Token.ofInside]
  have hslash : bodyAdmits ['e', '-', 'g'] '/' = false := by decide +kernel
  have hshows : ∀ tok ∈ tokens (Split.ofPattern "d[/x][e-g]").rest, tok.ShowsSlash := by
    rw [htokens]
    simp [Token.ShowsSlash, hslash]
  have hparse : Pattern.parse? (Split.ofPattern "d[/x][e-g]").rest = some
      [.char 'd', .cls ⟨false, [.single '/', .single 'x'], []⟩,
        .cls ⟨false, [⟨'e', 'g'⟩], []⟩] := by
    decide +kernel
  have hall : twoLevelTree.filesBelow "." none = .ok [["d", "f"], ["d", "e", "f"]] := by
    decide +kernel
  obtain ⟨_, hdeeper, hwalk⟩ := depth_limit_loses_no_match hparse (by decide +kernel) hshows
  rw [hroot, hdepth] at hwalk
  refine ⟨htokens, hall, _, hparse, by decide +kernel, hdeeper _ (by decide +kernel), ?_⟩
  exact hwalk twoLevelTree ⟨by decide, by decide⟩ _ hall

end Glob

end Inspector
