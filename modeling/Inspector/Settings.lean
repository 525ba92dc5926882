import Inspector.Artifact
import Inspector.Resolver
import Inspector.Yaml.Decode

/-! The settings of a generating run: the command line goes before the configuration file, and that
before the defaults. -/
namespace Inspector

structure Preferences where
  outputDir : Option String := none
  backends : Option BackendChoice := none
  policy : Option Policy := none
  maxDepth : Option UInt32 := none
  deriving DecidableEq, Inhabited, Repr

inductive SettingsError where
  | io (path : String) (e : ReadError)
  | parse (path : String) (f : Yaml.Fault)
  | zeroMaxDepth
  deriving DecidableEq, Inhabited, Repr

namespace SettingsError

def cause? : SettingsError → Option String
  | io _ e => some e.message
  | parse _ f => some f.message
  | zeroMaxDepth => none

def message : SettingsError → String
  | io path e => "failed to read config '" ++ path ++ "': " ++ e.message
  | parse path f => "failed to parse config '" ++ path ++ "': " ++ f.message
  | zeroMaxDepth => "max-depth-default must be at least 1"

end SettingsError

namespace Preferences

structure Part where
  outputDir : Option (Option String) := none
  backends : Option (Option BackendChoice) := none
  policy : Option (Option Policy) := none
  maxDepth : Option (Option UInt32) := none

def yamlShape : Yaml.Shape Part Preferences where
  slots := [
    .of "output-dir" (·.outputDir) (Yaml.optional Yaml.text) fun r a =>
      { r with outputDir := some a },
    .of "backends" (·.backends) (Yaml.optional (Yaml.variant BackendChoice.ofName?)) fun r a =>
      { r with backends := some a },
    .of "on-redeclare" (·.policy) (Yaml.optional (Yaml.variant Policy.ofName?)) fun r a =>
      { r with policy := some a },
    .of "max-depth-default" (·.maxDepth) (Yaml.optional Yaml.word) fun r a =>
      { r with maxDepth := some a }]
  closed := true
  empty := {}
  build r := .ok ⟨r.outputDir.join, r.backends.join, r.policy.join, r.maxDepth.join⟩

def parse (path text : String) : Except SettingsError Preferences :=
  (Yaml.decode yamlShape.decode text).mapError (.parse path)

def load (t : Tree) (path : String) : Except SettingsError Preferences :=
  match t.read path with
  | .error e => .error (.io path e)
  | .ok text => parse path text

def orElse (p q : Preferences) : Preferences where
  outputDir := p.outputDir <|> q.outputDir
  backends := p.backends <|> q.backends
  policy := p.policy <|> q.policy
  maxDepth := p.maxDepth <|> q.maxDepth

end Preferences

structure Settings where
  /-- Without a directory the files are shown. -/
  outputDir : Option String := none
  backends : BackendChoice := .all
  policy : Policy := .warn
  maxDepth : UInt32 := 2
  deriving DecidableEq, Inhabited, Repr

namespace Settings

/-- Fills in the defaults. A bound of zero is refused: to generated routines it means none. -/
def ofPreferences (p : Preferences) : Except SettingsError Settings :=
  let maxDepth := p.maxDepth.getD 2
  if maxDepth = 0 then .error .zeroMaxDepth
  else .ok ⟨p.outputDir, p.backends.getD .all, p.policy.getD .warn, maxDepth⟩

def resolve (flags : Preferences) (file : Option Preferences) : Except SettingsError Settings :=
  ofPreferences (flags.orElse (file.getD {}))

end Settings

end Inspector
