import CodeAtlas.Command.Arguments
import CodeAtlas.Json.Printer
import CodeAtlas.Service.Api

/-!
# Running a command

A command ends with a status, with what it prints, and with what went wrong, if anything did. Settings are read
before anything else.
-/

namespace CodeAtlas.Command

open CodeAtlas.Facts CodeAtlas.Query CodeAtlas.Tree

/-- Why a command failed. -/
inductive Failure where
  | root (e : RootError)
  | settings (e : SettingsError)
  /-- The server could not listen at an address. -/
  | unbound (address reason : String)
  deriving DecidableEq, Repr, Inhabited

namespace Failure

/-- What went wrong. -/
def message : Failure → String
  | root e => e.message
  | settings e => e.message
  | unbound address reason => s!"Server error: Failed to bind {address}: {reason}"

/-- Whether the caller is to blame. -/
def isUserError : Failure → Bool
  | root _ => true
  | _ => false

/-- The status with which the program ends. -/
def status (f : Failure) : Nat := if f.isUserError then 2 else 1

/-- The line that says what went wrong. -/
def line (f : Failure) : String := "\x1b[31m>\x1b[0m " ++ f.message ++ "\n"

end Failure

/-- How the program ends. -/
structure Outcome where
  status : Nat
  output : String := ""
  failure : Option Failure := none
  deriving Inhabited

/-- The surroundings of a run. -/
structure Surroundings where
  /-- The tree of files; the program stands at its top. -/
  tree : Tree
  /-- The text of the settings file, if there is one. -/
  settings : Option String
  /-- Why no address can be listened at. -/
  unboundReason : String := "Permission denied (os error 13)"

/-- The name of the program. -/
def programName : String := "archviz"

/-- The text that tells the version of the program or of a command. -/
def versionText (of : Option CommandName) : String :=
  let name := match of with
    | some c => programName ++ "-" ++ c.word
    | none => programName
  name ++ " " ++ Service.version ++ "\n"

/-- The text that helps. -/
def helpText : String :=
  "Architecture facts and call graphs for Python repositories\n\n" ++
  "Usage: " ++ programName ++ " <COMMAND>\n\n" ++
  "Commands:\n" ++
  "  analyze    Analyze a repository and print facts + summaries JSON\n" ++
  "  facts      Print the module/package graph used for visualization\n" ++
  "  callgraph  Show everything a declaration calls, up to a depth\n" ++
  "  paths      List call paths between two declarations\n" ++
  "  serve      Run the HTTP API server\n"

/-- A text that ends with a line end. -/
def withLineEnd (text : String) : String := if text.endsWith "\n" then text else text ++ "\n"

namespace Surroundings

/-- The settings : those of the file, or else the usual ones. -/
def readSettings (s : Surroundings) : Except Failure Settings :=
  match s.settings with
  | none => .ok {}
  | some text => (Settings.ofToml text).mapError .settings

/-- An absolute path for a path that is read at the top of the tree. -/
def absolute (s : Surroundings) (path : Path) : Path :=
  if s.tree.isAbsolute path then path else Path.join [s.tree.mount, path]

/-- The analysis of a path, which is never empty. -/
def analysisOf (s : Surroundings) (settings : Settings) (path : Path) : Except Failure Analysis :=
  (analyzeRepository s.tree settings.scan (s.absolute path) path).mapError .root

/-- What a job prints. -/
def execute (s : Surroundings) (job : Job) : Except Failure String := do
  let settings ← s.readSettings
  let depth (given : Option Nat) : Nat := given.getD settings.query.defaultMaxDepth
  match job with
  | .analyze path =>
    let a ← s.analysisOf settings path
    return withLineEnd a.report.toJson.pretty
  | .facts path =>
    let a ← s.analysisOf settings path
    return withLineEnd a.report.facts.diagram.toJson.pretty
  | .callGraph path symbol maxDepth json =>
    let a ← s.analysisOf settings path
    let view := reachView a.graph symbol (depth maxDepth)
    return withLineEnd (if json then view.toJson.pretty else view.text)
  | .paths path start target maxDepth json =>
    let a ← s.analysisOf settings path
    let view := pathView a.graph start target (depth maxDepth) settings.query.maxPaths
    return withLineEnd (if json then view.toJson.pretty else view.text)
  | .serve _ host port =>
    let host := host.getD settings.server.host
    let port := port.getD settings.server.port
    throw (.unbound s!"{host}:{port}" s.unboundReason)

/-- Run the program with its arguments. -/
def run (s : Surroundings) (args : List String) : Outcome :=
  match ofArguments args with
  | .misuse => { status := 2 }
  | .help => { status := 0, output := helpText }
  | .version of => { status := 0, output := versionText of }
  | .run job =>
    match s.execute job with
    | .ok output => { status := 0, output }
    | .error f => { status := f.status, failure := some f }

end Surroundings

end CodeAtlas.Command
