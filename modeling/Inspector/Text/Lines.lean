/-! Texts that are built line by line. -/
namespace Inspector.Text

def unlines : List String → String
  | [] => ""
  | l :: ls => l ++ "\n" ++ unlines ls

theorem unlines_append (ks ls : List String) : unlines (ks ++ ls) = unlines ks ++ unlines ls := by
  induction ks with
  | nil => simp [unlines]
  | cons k ks ih => simp [unlines, ih, String.append_assoc]

end Inspector.Text
