import Inspector.Glob.Expand
import Inspector.Load
import Inspector.Settings

/-! Why a command failed, and how that is told. -/
namespace Inspector

inductive Failure where
  | noInputs
  | expand (e : Glob.Error)
  | load (e : LoadError)
  | resolve (path : String) (e : Redeclaration)
  | settings (e : SettingsError)
  | write (e : WriteError)
  deriving DecidableEq, Inhabited, Repr

namespace Failure

def message : Failure → String
  | noInputs => "Please provide a filename or glob pattern"
  | expand e => e.message
  | load e => e.message
  | resolve path _ => "Failed to resolve structs of '" ++ path ++ "'"
  | settings e => e.message
  | write e => e.message

def cause? : Failure → Option String
  | noInputs => none
  | expand e => e.cause?
  | load e => e.cause?
  | resolve _ e => some e.message
  | settings e => e.cause?
  | write e => some e.cause.message

/-- All messages, the outermost first. -/
def chain (f : Failure) : List String := f.message :: f.cause?.toList

def indented (cs : List Char) : List Char :=
  cs.flatMap fun c => if c = '\n' then "\n    ".toList else [c]

def text (f : Failure) : String :=
  match f.cause? with
  | none => f.message
  | some cause => f.message ++ "\n\nCaused by:\n    " ++ String.ofList (indented cause.toList)

end Failure

end Inspector
