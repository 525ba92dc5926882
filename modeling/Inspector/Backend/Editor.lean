import Inspector.Backend
import Inspector.Text.Lines

/-! Forms that show a struct and let its plain fields be changed. -/
namespace Inspector.Editor

inductive Control where
  | intBox
  | scalarBox (dataType : String)
  | floatBox
  | doubleBox
  | checkbox
  | textBox
  | label
  deriving DecidableEq, Inhabited, Repr

def Control.title : Control → String
  | intBox => "IntBox"
  | scalarBox dataType => "ScalarBox(" ++ dataType ++ ")"
  | floatBox => "FloatBox"
  | doubleBox => "DoubleBox"
  | checkbox => "Checkbox"
  | textBox => "TextBox"
  | label => "Label"

def control : Primitive → Control
  | .int => .intBox
  | .signed => .intBox
  | .char => .scalarBox "ImGuiDataType_S8"
  | .signedChar => .scalarBox "ImGuiDataType_S8"
  | .unsignedChar => .scalarBox "ImGuiDataType_U8"
  | .short => .scalarBox "ImGuiDataType_S16"
  | .unsignedShort => .scalarBox "ImGuiDataType_U16"
  | .unsignedInt => .scalarBox "ImGuiDataType_U32"
  | .unsigned => .scalarBox "ImGuiDataType_U32"
  | .long => .scalarBox "ImGuiDataType_S64"
  | .longLong => .scalarBox "ImGuiDataType_S64"
  | .unsignedLong => .scalarBox "ImGuiDataType_U64"
  | .unsignedLongLong => .scalarBox "ImGuiDataType_U64"
  | .float => .floatBox
  | .double => .doubleBox
  | .bool => .checkbox
  | .cString => .textBox
  | .void => .label

def routine (struct : String) : String := "Show" ++ struct ++ "Editor"

def prototype (struct : String) : String :=
  "void " ++ routine struct ++ "(" ++ struct ++ "& data)"

def say (field text : String) : String :=
  "    ImGui::Text(\"" ++ field ++ ": " ++ text ++ "\");"

def input (widget field arguments : String) : String :=
  "    ImGui::" ++ widget ++ "(\"" ++ field ++ "\", " ++ arguments ++ ");"

def primitiveLine (field : String) (p : Primitive) : String :=
  match control p with
  | .intBox => input "InputInt" field ("&data." ++ field)
  | .scalarBox dataType => input "InputScalar" field (dataType ++ ", &data." ++ field)
  | .floatBox => input "InputFloat" field ("&data." ++ field)
  | .doubleBox => input "InputDouble" field ("&data." ++ field)
  | .checkbox => input "Checkbox" field ("&data." ++ field)
  | .textBox => input "InputText" field ("data." ++ field ++ ", sizeof(data." ++ field ++ ")")
  | .label => say field p.spelling

def structLines (field struct : String) : List String :=
  ["    if (ImGui::TreeNode(\"" ++ field ++ "\")) \x7b",
    "        " ++ routine struct ++ "(data." ++ field ++ ");",
    "        ImGui::TreePop();",
    "    \x7d"]

/-- A field behind a pointer is only named. -/
def fieldLines (t : Table) (f : Field) : List String :=
  if 0 < f.indirection then [say f.name (Backend.arrayOf f.type.spelling)]
  else
    match f.type with
    | .primitive p => [primitiveLine f.name p]
    | .struct name =>
      if t.contains name then structLines f.name name else [say f.name "Unsupported Type"]
    | .unknown _ => [say f.name "Unsupported Type"]

def bodyLines (s : Struct) (t : Table) : List String :=
  ["// ImGui form for " ++ s.name, prototype s.name ++ " \x7b"]
    ++ s.fields.flatMap (fieldLines t) ++ ["\x7d"]

end Inspector.Editor

namespace Inspector.Backend

def editor : Backend where
  id := "editor"
  stem := "imgui"
  bodyExtension := "cpp"
  headerExtension := "h"
  body s t := Text.unlines (Editor.bodyLines s t)
  header s _ := Text.unlines [Editor.prototype s.name ++ ";"]

end Inspector.Backend
