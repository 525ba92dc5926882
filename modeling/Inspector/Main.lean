import Inspector.CommandLine

/-! The program. It takes in the files that the arguments speak of, runs on them, and writes out
what has changed. -/
namespace Inspector.Main

def place (here : Place) (path : String) : Place :=
  (Path.components path).foldl (fun p c =>
    match c with
    | .root => []
    | .current => p
    | .parent => p.dropLast
    | .name s => p ++ [s]) here

def pathOf (p : Place) : String := "/" ++ "/".intercalate p

def nowhere : Entry := .link "/\x00"

/-- Takes in what stands at a place, and what is at most `depth` names below it. -/
def takeIn : Nat → Tree → Place → IO Tree
  | depth, t, p => do
    let path := (← IO.currentDir) / pathOf p
    if ← path.isDir then
      let t := if p.isEmpty then t else t.put p .folder
      match depth with
      | 0 => return t
      | depth + 1 => (← path.readDir).foldlM (fun t e => takeIn depth t (p ++ [e.fileName])) t
    else if ← path.pathExists then
      return t.put p (.file (.ofBytes (← IO.FS.readBinFile path).toList))
    else return t.put p nowhere

def takeInPath (depth : Nat) (t : Tree) (path : String) : IO Tree := do
  let p := place t.here path
  let above := (List.range p.length).map p.take
  let t ← above.foldlM (fun t q => do
    if ← ((← IO.currentDir) / pathOf q).isDir then takeIn 0 t q else return t) t
  if ← ((← IO.currentDir) / pathOf p).pathExists then takeIn depth t p else return t

def maxDepth : Nat := 64

def takeInInput (t : Tree) (input : String) : IO Tree :=
  if Glob.isPattern input then
    takeInPath maxDepth t (Glob.Split.of (Glob.normalize input.toList)).root
  else takeInPath 0 t input

def surroundings (i : CommandLine.Invocation) : IO Tree := do
  let here := place [] (toString (← IO.currentDir))
  let t ← takeInPath 0 { here } "."
  match i.action with
  | .analyze inputs _ _ => inputs.foldlM takeInInput t
  | .codegen inputs flags config =>
    let t ← inputs.foldlM takeInInput t
    let t ← config.toList.foldlM (takeInPath 0) t
    let file := (config.mapM (Preferences.load t)).toOption.join.getD {}
    (flags.orElse file).outputDir.toList.foldlM (takeInPath 1) t

def writeOut (before after : Tree) : IO Unit :=
  after.entries.forM fun (p, e) => do
    if before.get? p ≠ some e then
      match e with
      | .folder => IO.FS.createDirAll (pathOf p)
      | .file (.text s) => IO.FS.writeFile (pathOf p) s
      | _ => pure ()

def fieldText : String × Log.Value → String
  | (k, .count n) => " " ++ k ++ "=" ++ toString n
  | (k, .text s) => " " ++ k ++ "=" ++ s

def logLine (e : Log.Event) : String :=
  e.level.name ++ ": " ++ e.message ++ String.join (e.fields.map fieldText)

end Inspector.Main

open Inspector in
def main (args : List String) : IO UInt32 := do
  let parsed := CommandLine.parse args
  let before ←
    match parsed with
    | .ok i => Main.surroundings i
    | .error _ => pure {}
  let exit := CommandLine.run before args
  let verbose := parsed.toOption.any (·.verbose)
  for e in Log.Event.filter (if verbose then .debug else .info) exit.events do
    IO.eprintln (Main.logLine e)
  Main.writeOut before exit.tree
  IO.print exit.stdout
  if exit.code = 2 then IO.eprint CommandLine.usageText
  if let some text := exit.error then IO.eprintln ("Error: " ++ text)
  return exit.code.toUInt32
