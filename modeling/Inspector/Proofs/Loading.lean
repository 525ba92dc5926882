import Inspector.Load

/-! Why loading fails. A file that cannot be read is one of those to load, and reading it fails in
the same way. -/
namespace Inspector

instance decidableEqExcept {ε α : Type} [DecidableEq ε] [DecidableEq α] :
    DecidableEq (Except ε α)
  | .ok a, .ok b => decidable_of_iff (a = b) ⟨congrArg Except.ok, Except.ok.inj⟩
  | .error d, .error e => decidable_of_iff (d = e) ⟨congrArg Except.error, Except.error.inj⟩
  | .ok _, .error _ => isFalse nofun
  | .error _, .ok _ => isFalse nofun

theorem error_of_mapError {ε δ α : Type} {x : Except ε α} {f : ε → δ} {d : δ}
    (h : x.mapError f = .error d) : ∃ e, x = .error e ∧ f e = d := by
  cases x with
  | error e => exact ⟨e, rfl, Except.error.inj h⟩
  | ok a => cases h

namespace Log.Traced

variable {ε α β : Type} {x : Traced ε α} {f : α → Traced ε β}

theorem ok_of_bind_ok {b : β} (h : (x >>= f).result = .ok b) :
    ∃ a, x.result = .ok a ∧ (f a).result = .ok b := by
  cases hx : x.result with
  | error e =>
    rw [bind_error hx] at h
    cases h
  | ok a =>
    rw [bind_ok hx] at h
    exact ⟨a, rfl, h⟩

theorem error_of_bind_error {e : ε} (h : (x >>= f).result = .error e) :
    x.result = .error e ∨ ∃ a, x.result = .ok a ∧ (f a).result = .error e := by
  cases hx : x.result with
  | error d =>
    rw [bind_error hx] at h
    obtain rfl := Except.error.inj h
    exact Or.inl rfl
  | ok a =>
    rw [bind_ok hx] at h
    exact Or.inr ⟨a, rfl, h⟩

end Log.Traced

namespace Load

open Inspector.Log.Traced (error_of_bind_error)

variable {threshold : Severity} {t : Tree} {path : String} {e : ReadError}

theorem gate_ne_io (ds : List Diagnostic) (own : String) :
    (gate threshold own ds).result ≠ .error (.io path e) := by
  unfold gate
  intro h
  obtain h | ⟨_, _, h⟩ := error_of_bind_error h
  · cases h
  · cases hs : severe threshold ds with
    | nil =>
      simp only [hs] at h
      cases h
    | cons first more =>
      simp only [hs] at h
      cases h

/-- A text that has been read is refused for what it says only. -/
theorem text_ne_io (own contents : String) :
    (text threshold own contents).result ≠ .error (.io path e) := by
  intro h
  obtain h | ⟨file, _, h⟩ := error_of_bind_error h
  · have h : parse (.ofPath own) own contents = .error (.io path e) := h
    unfold parse at h
    split at h
    · obtain ⟨_, _, h⟩ := error_of_mapError h
      cases h
    · obtain ⟨_, _, h⟩ := error_of_mapError h
      cases h
  · obtain h | ⟨_, _, h⟩ := error_of_bind_error h
    · exact gate_ne_io _ _ h
    · obtain h | ⟨_, _, h⟩ := error_of_bind_error h
      · cases h
      · cases h

theorem read_of_file_io {own : String} (h : (file threshold t own).result = .error (.io path e)) :
    path = own ∧ t.read own = .error e := by
  obtain h | ⟨_, _, h⟩ := error_of_bind_error h
  · cases h
  · obtain h | ⟨contents, _, h⟩ := error_of_bind_error h
    · obtain ⟨d, hread, h⟩ := error_of_mapError h
      obtain ⟨rfl, rfl⟩ := LoadError.io.inj h
      exact ⟨rfl, hread⟩
    · exact absurd h (text_ne_io _ _)

theorem read_of_files_io {paths : List String}
    (h : (files threshold t paths).result = .error (.io path e)) :
    path ∈ paths ∧ t.read path = .error e := by
  induction paths with
  | nil => cases h
  | cons p ps ih =>
    obtain h | ⟨_, _, h⟩ := error_of_bind_error h
    · obtain ⟨rfl, hread⟩ := read_of_file_io h
      exact ⟨List.mem_cons_self, hread⟩
    · obtain h | ⟨_, _, h⟩ := error_of_bind_error h
      · exact ⟨List.mem_cons_of_mem p (ih h).1, (ih h).2⟩
      · cases h

end Load

end Inspector
