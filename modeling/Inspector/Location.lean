/-! Positions in the C sources that the descriptors speak of. -/
namespace Inspector

structure Location where
  file : String := ""
  line : UInt32 := 0
  column : UInt32 := 0
  deriving DecidableEq, Inhabited, Repr

def Location.text (l : Location) : String :=
  l.file ++ ":" ++ toString l.line.toNat ++ ":" ++ toString l.column.toNat

end Inspector
