/-! The primitive types that descriptors can name. -/
namespace Inspector

inductive Primitive where
  | char
  | signedChar
  | unsignedChar
  | cString
  | short
  | unsignedShort
  | int
  | unsignedInt
  | long
  | unsignedLong
  | longLong
  | unsignedLongLong
  | signed
  | unsigned
  | float
  | double
  | bool
  | void
  deriving DecidableEq, Inhabited, Repr

namespace Primitive

def all : List Primitive :=
  [char, signedChar, unsignedChar, cString, short, unsignedShort, int, unsignedInt, long,
    unsignedLong, longLong, unsignedLongLong, signed, unsigned, float, double, bool, void]

/-- The spelling in C. A pointer to characters is spelled as one word. -/
def spelling : Primitive → String
  | char => "char"
  | signedChar => "signed char"
  | unsignedChar => "unsigned char"
  | cString => "cstring"
  | short => "short"
  | unsignedShort => "unsigned short"
  | int => "int"
  | unsignedInt => "unsigned int"
  | long => "long"
  | unsignedLong => "unsigned long"
  | longLong => "long long"
  | unsignedLongLong => "unsigned long long"
  | signed => "signed"
  | unsigned => "unsigned"
  | float => "float"
  | double => "double"
  | bool => "bool"
  | void => "void"

def ofSpelling? (s : String) : Option Primitive :=
  if s = "_Bool" then some bool else all.find? (·.spelling == s)

theorem ofSpelling?_spelling (p : Primitive) : ofSpelling? p.spelling = some p := by
  cases p <;> decide

def kind : Primitive → String
  | char => "char"
  | signedChar => "signed-char"
  | unsignedChar => "unsigned-char"
  | cString => "c-string"
  | short => "short"
  | unsignedShort => "unsigned-short"
  | int => "int"
  | unsignedInt => "unsigned-int"
  | long => "long"
  | unsignedLong => "unsigned-long"
  | longLong => "long-long"
  | unsignedLongLong => "unsigned-long-long"
  | signed => "signed"
  | unsigned => "unsigned"
  | float => "float"
  | double => "double"
  | bool => "bool"
  | void => "void"

def title : Primitive → String
  | char => "Char"
  | signedChar => "SignedChar"
  | unsignedChar => "UnsignedChar"
  | cString => "CString"
  | short => "Short"
  | unsignedShort => "UnsignedShort"
  | int => "Int"
  | unsignedInt => "UnsignedInt"
  | long => "Long"
  | unsignedLong => "UnsignedLong"
  | longLong => "LongLong"
  | unsignedLongLong => "UnsignedLongLong"
  | signed => "Signed"
  | unsigned => "Unsigned"
  | float => "Float"
  | double => "Double"
  | bool => "Bool"
  | void => "Void"

end Primitive

end Inspector
