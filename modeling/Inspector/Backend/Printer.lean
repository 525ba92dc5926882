import Inspector.Backend
import Inspector.Text.Lines

/-! C routines that print a struct and, up to a bound, what it refers to. -/
namespace Inspector.Printer

def conversion? : Primitive → Option String
  | .char => some "%c"
  | .signedChar => some "%hhd"
  | .unsignedChar => some "%hhu"
  | .cString => some "%s"
  | .short => some "%hd"
  | .unsignedShort => some "%hu"
  | .int => some "%d"
  | .signed => some "%d"
  | .bool => some "%d"
  | .unsignedInt => some "%u"
  | .unsigned => some "%u"
  | .long => some "%ld"
  | .unsignedLong => some "%lu"
  | .longLong => some "%lld"
  | .unsignedLongLong => some "%llu"
  | .float => some "%f"
  | .double => some "%f"
  | .void => none

def routine (struct : String) : String := "print_" ++ struct

def prototype (struct : String) : String :=
  "void " ++ routine struct ++ "(const " ++ struct ++ " *data, int rec_depth, int max_depth)"

def indentTo (depth : String) : String :=
  "  for (int i = 0; i < " ++ depth ++ "; i++) \x7b printf(\"  \"); \x7d"

def say (text : String) : String := "  printf(\"" ++ text ++ "\\n\");"

def guarded (field : String) (lines : List String) : List String :=
  ["  if (data->" ++ field ++ ") \x7b"] ++ lines.map ("  " ++ ·)
    ++ ["  \x7d else \x7b", "  " ++ say (field ++ ": NULL"), "  \x7d"]

def sayValue (field format value : String) : String :=
  "  printf(\"" ++ field ++ ": " ++ format ++ "\\n\", " ++ value ++ ");"

def primitiveLines (field : String) (indirection : UInt32) (p : Primitive) : List String :=
  match conversion? p with
  | none => [say (field ++ ": void")]
  | some format =>
    let cast := if p = .bool then "(int)" else ""
    if indirection = 0 then [sayValue field format (cast ++ "data->" ++ field)]
    else guarded field [sayValue field format (cast ++ "*data->" ++ field)]

def call (struct argument : String) : String :=
  "  " ++ routine struct ++ "(" ++ argument ++ ", rec_depth+1, max_depth);"

def structLines (field : String) (indirection : UInt32) (struct : String) : List String :=
  if indirection = 0 then [say (field ++ ":"), call struct ("&data->" ++ field)]
  else guarded field [say (field ++ ":"), call struct ("&*data->" ++ field)]

def valueLines (t : Table) (f : Field) : List String :=
  if 1 < f.indirection then [say (f.name ++ ": " ++ Backend.arrayOf f.type.spelling)]
  else
    match f.type with
    | .primitive p => primitiveLines f.name f.indirection p
    | .struct name =>
      if t.contains name then structLines f.name f.indirection name
      else [say (f.name ++ ": Unsupported type")]
    | .unknown _ => [say (f.name ++ ": Unsupported type")]

def fieldLines (t : Table) (f : Field) : List String := indentTo "rec_depth+1" :: valueLines t f

/-- The routine falls back to `maxDepth` when it is called without a bound. -/
def bodyLines (maxDepth : UInt32) (s : Struct) (t : Table) : List String :=
  [prototype s.name ++ " \x7b",
    "  if (max_depth == 0) max_depth = " ++ toString maxDepth.toNat ++ ";",
    "  if (rec_depth > max_depth) \x7b return; \x7d",
    indentTo "rec_depth",
    say (s.name ++ " \x7b")]
  ++ s.fields.flatMap (fieldLines t)
  ++ [indentTo "rec_depth", say "\x7d", "\x7d", ""]

end Inspector.Printer

namespace Inspector.Backend

def printer (maxDepth : UInt32) : Backend where
  id := "printer"
  stem := "print"
  bodyExtension := "c"
  headerExtension := "h"
  body s t := Text.unlines (Printer.bodyLines maxDepth s t)
  header s _ := Text.unlines [Printer.prototype s.name ++ ";"]

end Inspector.Backend
