import Inspector.Proofs.Output

/-! The bound that generated routines fall back to. It comes from the settings, which refuse zero,
and stands as a constant in the guard of every routine. There it is assigned to an `int`, so a bound
that an `int` cannot hold is accepted and does not do its work. -/
namespace Inspector

namespace Printer

/-- The bound of a call behind a guard that assigns `n`. A constant that the `int` cannot hold is
taken modulo its size, as compilers do. -/
def boundOfCall (n : Nat) (maxDepth : Int32) : Int32 :=
  if maxDepth = 0 then .ofNat n else maxDepth

def Proceeds (n : Nat) (recDepth maxDepth : Int32) : Prop := ¬ recDepth > boundOfCall n maxDepth

def prologue (struct : String) (n : Nat) : String :=
  prototype struct ++ " \x7b\n" ++ "  if (max_depth == 0) max_depth = " ++ toString n ++ ";\n"
    ++ "  if (rec_depth > max_depth) \x7b return; \x7d\n"

theorem proceeds_zero_iff {n : Nat} (h : n < Int32.size) :
    Proceeds n 0 0 ↔ n ≤ 2147483647 := by
  rw [Proceeds, boundOfCall, if_pos rfl, gt_iff_lt, Int32.lt_iff_toInt_lt, Int32.toInt_ofNat']
  simp only [Int.bmod, Int32.size, Int32.toInt_zero] at h ⊢
  omega

theorem body_prologue (maxDepth : UInt32) (s : Struct) (t : Table) :
    ∃ rest, (Backend.printer maxDepth).body s t = prologue s.name maxDepth.toNat ++ rest := by
  refine ⟨Text.unlines ((bodyLines maxDepth s t).drop 3), ?_⟩
  simp [Backend.printer, bodyLines, prologue, Text.unlines, ← String.toList_inj]

end Printer

/-- The command line goes before the file and that before the default, and a bound of zero is
refused wherever it comes from. -/
theorem Settings.maxDepth_of_resolve {flags : Preferences} {file : Option Preferences}
    {settings : Settings} (h : resolve flags file = .ok settings) :
    settings.maxDepth = (flags.maxDepth <|> file.bind (·.maxDepth)).getD 2 ∧
      settings.maxDepth ≠ 0 := by
  have hfile : (file.getD {}).maxDepth = file.bind (·.maxDepth) := by
    cases file <;> rfl
  unfold resolve ofPreferences at h
  dsimp only at h
  split at h
  · cases h
  · next hne =>
    cases h
    rw [← hfile]
    exact ⟨rfl, hne⟩

/-- In every run with accepted settings the guard of a routine assigns the bound that the command
line, the file or the default gives. It is at least one, and a call without depths gets past the
test behind the guard exactly if the bound fits into an `int`. -/
theorem routines_fall_back_to_bound {flags : Preferences} {file : Option Preferences}
    {settings : Settings} (h : Settings.resolve flags file = .ok settings) (t : Table)
    {a : Artifact} (ha : a ∈ generateArtifacts t settings.chosen) {n : String}
    (hname : a.name = "print_" ++ n ++ ".c") :
    ∃ files N rest, a.contents = Artifact.banner files ++ Printer.prologue n N ++ rest ∧
      N = ((flags.maxDepth <|> file.bind (·.maxDepth)).getD 2).toNat ∧ 1 ≤ N ∧
      (N ≤ 2147483647 ↔ Printer.Proceeds N 0 0) := by
  obtain ⟨hbound, hne⟩ := Settings.maxDepth_of_resolve h
  have hfile : "print_" ++ n ++ ".c" = (Backend.printer settings.maxDepth).file .body n := by
    simp [Backend.file, Backend.bodyFile, Backend.fileName, Backend.printer, ← String.toList_inj]
  rw [hfile] at hname
  obtain ⟨b, hb, s, hs, k, rfl⟩ := mem_generateArtifacts.mp ha
  obtain rfl | rfl := Backend.mem_backends hb
  · obtain ⟨-, rfl, rfl⟩ := Backend.file_inj hb hb hname
    obtain ⟨rest, hrest⟩ := Printer.body_prologue settings.maxDepth s t
    refine ⟨(t.dependencies s).map ((Backend.printer settings.maxDepth).file .body),
      settings.maxDepth.toNat, rest, ?_, by rw [hbound], ?_, ?_⟩
    · rw [String.append_assoc, ← hrest]
      rfl
    · have hpos : settings.maxDepth.toNat ≠ 0 := fun hzero => hne (UInt32.toNat_inj.mp hzero)
      omega
    · exact (Printer.proceeds_zero_iff (UInt32.toNat_lt _)).symm
  · exact absurd hname.symm (Backend.printer_file_ne_editor_file _ _ _ _)

def point : Struct where
  name := "Point"
  options := { generate := true }

def lonePoint : Table where
  entries := [point]
  nodup := by decide

theorem point_emitted : point ∈ lonePoint.emitted :=
  Table.mem_emitted.mpr ⟨List.mem_cons_self, point, List.mem_cons_self, .refl⟩

theorem routine_of_point {settings : Settings} (h : .printer settings.maxDepth ∈ settings.chosen) :
    ∃ a ∈ generateArtifacts lonePoint settings.chosen, a.name = "print_" ++ "Point" ++ ".c" ∧
      ∃ rest, a.contents = Printer.prologue "Point" settings.maxDepth.toNat ++ rest := by
  obtain ⟨rest, hrest⟩ := Printer.body_prologue settings.maxDepth point lonePoint
  exact ⟨_, mem_generateArtifacts.mpr ⟨_, h, point, point_emitted, .body, rfl⟩, rfl, rest, hrest⟩

/-- The bound of the command line stands in the routine, and the zero in the file does no harm. -/
theorem routines_fall_back_to_bound_flag :
    ∃ settings, Settings.resolve { maxDepth := some 7 } (some { maxDepth := some 0 }) =
        .ok settings ∧
      ∃ a ∈ generateArtifacts lonePoint settings.chosen, a.name = "print_" ++ "Point" ++ ".c" ∧
        ∃ files rest, a.contents = Artifact.banner files ++ Printer.prologue "Point" 7 ++ rest ∧
          Printer.Proceeds 7 0 0 := by
  have hresolve : Settings.resolve { maxDepth := some 7 } (some { maxDepth := some 0 }) =
      .ok { maxDepth := 7 } := rfl
  obtain ⟨a, ha, hname, -⟩ := @routine_of_point { maxDepth := 7 }
    (List.mem_cons_of_mem _ List.mem_cons_self)
  obtain ⟨files, N, rest, hcontents, rfl, -, hproceeds⟩ :=
    routines_fall_back_to_bound hresolve lonePoint ha hname
  exact ⟨_, hresolve, a, ha, hname, files, rest, hcontents, hproceeds.mp (by decide)⟩

/-- A bound that an `int` cannot hold is accepted, and the routine returns at once. -/
theorem bound_beyond_int :
    ∃ settings, Settings.resolve { maxDepth := some 2147483648 } none = .ok settings ∧
      (∃ a ∈ generateArtifacts lonePoint settings.chosen, a.name = "print_" ++ "Point" ++ ".c" ∧
        ∃ rest, a.contents = Printer.prologue "Point" 2147483648 ++ rest) ∧
      ¬ 2147483648 ≤ 2147483647 ∧ ¬ Printer.Proceeds 2147483648 0 0 := by
  refine ⟨{ maxDepth := 2147483648 }, rfl,
    @routine_of_point { maxDepth := 2147483648 } (List.mem_cons_of_mem _ List.mem_cons_self),
    by decide, ?_⟩
  rw [Printer.proceeds_zero_iff (by decide)]
  decide

end Inspector
