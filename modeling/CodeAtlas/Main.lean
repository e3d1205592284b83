import CodeAtlas.Command.Outcome

/-!
# The program

The arguments are those of `CodeAtlas.Command`. The files of the tree are named on standard input, one path a line,
seen from the working directory; only these are there for a scan. Settings are read from `config.toml` in the
directory that `ARCHVIZ_HOME` names, or else in `.config/archviz` of the home directory.
-/

namespace CodeAtlas.Program

open CodeAtlas.Command

/-- Add the files that are named line by line to a tree. -/
partial def readTree (input : IO.FS.Stream) (t : Tree) : IO Tree := do
  let line ← input.getLine
  if line.isEmpty then return t
  let path := String.ofList (line.toList.filter (· != '\n'))
  if path.isEmpty then readTree input t
  else
    let content ← IO.FS.readBinFile path
    readTree input (t.write path content 0)

/-- The text of the settings file, if there is one. -/
def readSettingsText : IO (Option String) := do
  let home ← match ← IO.getEnv "ARCHVIZ_HOME" with
    | some home => pure home
    | none => pure (((← IO.getEnv "HOME").getD "") ++ "/.config/archviz")
  try
    let text ← IO.FS.readFile (home ++ "/config.toml")
    return some text
  catch _ => return none

/-- Run the program and print what comes of it. -/
def run (args : List String) : IO UInt32 := do
  let mount := (← IO.getEnv "PWD").getD "/"
  let tree ← readTree (← IO.getStdin) ⟨mount, .directory []⟩
  let surroundings : Surroundings := { tree, settings := ← readSettingsText }
  let outcome := surroundings.run args
  IO.print outcome.output
  match outcome.failure with
  | some f => IO.eprint f.line
  | none => if outcome.status != 0 then IO.eprint helpText
  return outcome.status.toUInt32

end CodeAtlas.Program

def main (args : List String) : IO UInt32 := CodeAtlas.Program.run args
