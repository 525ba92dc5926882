import Inspector.Table
import Inspector.Text.Quoted

/-! A struct spelled out over many lines, for readers of verbose logs. -/
namespace Inspector

namespace Dump

def comma : List String → List String
  | [] => []
  | [l] => [l ++ ","]
  | l :: ls => l :: comma ls

def nest (opening : String) (parts : List (List String)) (closing : String) : List String :=
  opening :: (parts.flatMap comma).map ("    " ++ ·) ++ [closing]

def field (name : String) : List String → List String
  | [] => []
  | l :: ls => (name ++ ": " ++ l) :: ls

def record (name : String) (fields : List (List String)) : List String :=
  nest (name ++ " \x7b") fields "\x7d"

def list : List (List String) → List String
  | [] => ["[]"]
  | items => nest "[" items "]"

def variant (name argument : String) : List String := nest (name ++ "(") [[argument]] ")"

end Dump

open Dump

def Location.dump (l : Location) : List String :=
  record "SourceLocation" [
    field "file" [Text.quoted l.file],
    field "line" [toString l.line.toNat],
    field "column" [toString l.column.toNat]]

def Options.dump (o : Options) : List String :=
  record "StructOptions" [field "generate" [if o.generate then "true" else "false"]]

def TypeClass.dump : TypeClass → List String
  | primitive p => variant "Primitive" p.title
  | struct name => variant "StructRef" (Text.quoted name)
  | unknown s => variant "Unknown" (Text.quoted s)

def Field.dump (f : Field) : List String :=
  record "ResolvedField" [
    field "name" [Text.quoted f.name],
    field "class" f.type.dump,
    field "indirection" [toString f.indirection.toNat],
    field "location" f.location.dump]

def Struct.dump (s : Struct) : List String :=
  record "ResolvedStruct" [
    field "name" [Text.quoted s.name],
    field "fields" (list (s.fields.map Field.dump)),
    field "options" s.options.dump,
    field "location" s.location.dump,
    field "unit" [Text.quoted s.unit]]

end Inspector
