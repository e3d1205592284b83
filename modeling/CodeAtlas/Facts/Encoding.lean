import CodeAtlas.Facts.Diagram
import CodeAtlas.Facts.Report
import CodeAtlas.Json.Record

/-!
# Facts as JSON

Every kind of facts is written as a JSON value and read back from one. Lists that are empty and flags that
are false may be missing where they are read.
-/

namespace CodeAtlas.Facts

open CodeAtlas (Json)
open CodeAtlas.Json

/-! ## Modules -/

namespace FunctionFacts

def toJson (f : FunctionFacts) : Json :=
  .object
    [ ("name", .string f.name), ("signature", .string f.signature), ("decorators", .strings f.decorators),
      ("is_async", .bool f.isAsync), ("start_line", .nat f.startLine), ("end_line", .nat f.endLine) ]

def ofJson? (j : Json) : Option FunctionFacts := do
  let r ← j.record? 6
  return {
    name := ← r.required 0 "name" asString?
    signature := ← r.required 1 "signature" asString?
    decorators := ← r.defaulted 2 "decorators" [] (asList? asString?)
    isAsync := ← r.defaulted 3 "is_async" false asBool?
    startLine := ← r.required 4 "start_line" asNat32?
    endLine := ← r.required 5 "end_line" asNat32? }

end FunctionFacts

namespace ClassFacts

def toJson (c : ClassFacts) : Json :=
  .object
    [ ("name", .string c.name), ("bases", .strings c.bases), ("decorators", .strings c.decorators),
      ("methods", .array (c.methods.map (·.toJson))), ("start_line", .nat c.startLine),
      ("end_line", .nat c.endLine) ]

def ofJson? (j : Json) : Option ClassFacts := do
  let r ← j.record? 6
  return {
    name := ← r.required 0 "name" asString?
    bases := ← r.defaulted 1 "bases" [] (asList? asString?)
    decorators := ← r.defaulted 2 "decorators" [] (asList? asString?)
    methods := ← r.defaulted 3 "methods" [] (asList? FunctionFacts.ofJson?)
    startLine := ← r.required 4 "start_line" asNat32?
    endLine := ← r.required 5 "end_line" asNat32? }

end ClassFacts

namespace ModuleFacts

def toJson (m : ModuleFacts) : Json :=
  .object
    [ ("module", .string m.module), ("path", .string m.path), ("imports", .strings m.imports),
      ("classes", .array (m.classes.map (·.toJson))),
      ("functions", .array (m.functions.map (·.toJson))) ]

def ofJson? (j : Json) : Option ModuleFacts := do
  let r ← j.record? 5
  return {
    module := ← r.required 0 "module" asString?
    path := ← r.required 1 "path" asString?
    imports := ← r.defaulted 2 "imports" [] (asList? asString?)
    classes := ← r.defaulted 3 "classes" [] (asList? ClassFacts.ofJson?)
    functions := ← r.defaulted 4 "functions" [] (asList? FunctionFacts.ofJson?) }

end ModuleFacts

/-! ## Repositories -/

namespace Language

def toJson (l : Language) : Json := .string l.word

def ofJson? : Json → Option Language := asWord? all word

end Language

namespace FileFacts

def toJson (f : FileFacts) : Json :=
  .object
    [ ("path", .string f.path), ("rel_path", .string f.relPath), ("language", f.language.toJson),
      ("package", .optString f.package), ("module", .optString f.module) ]

def ofJson? (j : Json) : Option FileFacts := do
  let r ← j.record? 5
  return {
    path := ← r.required 0 "path" asString?
    relPath := ← r.required 1 "rel_path" asString?
    language := ← r.required 2 "language" Language.ofJson?
    package := ← r.optional 3 "package" asString?
    module := ← r.optional 4 "module" asString? }

end FileFacts

namespace PackageFacts

def toJson (p : PackageFacts) : Json :=
  .object [("package", .string p.package), ("modules", .array (p.modules.map (·.toJson)))]

def ofJson? (j : Json) : Option PackageFacts := do
  let r ← j.record? 2
  return {
    package := ← r.required 0 "package" asString?
    modules := ← r.required 1 "modules" (asList? ModuleFacts.ofJson?) }

end PackageFacts

namespace Dependency

def toJson (d : Dependency) : Json :=
  .object [("from_module", .string d.source), ("to_module", .string d.target)]

def ofJson? (j : Json) : Option Dependency := do
  let r ← j.record? 2
  return {
    source := ← r.required 0 "from_module" asString?
    target := ← r.required 1 "to_module" asString? }

end Dependency

namespace RepoFacts

def toJson (f : RepoFacts) : Json :=
  .object
    [ ("root", .string f.root), ("files", .array (f.files.map (·.toJson))),
      ("modules", .array (f.modules.map (·.toJson))), ("packages", ofMap PackageFacts.toJson f.packages),
      ("dependencies", .array (f.dependencies.map (·.toJson))) ]

def ofJson? (j : Json) : Option RepoFacts := do
  let r ← j.record? 5
  return {
    root := ← r.required 0 "root" asString?
    files := ← r.required 1 "files" (asList? FileFacts.ofJson?)
    modules := ← r.required 2 "modules" (asList? ModuleFacts.ofJson?)
    packages := ← r.required 3 "packages" (asMap? PackageFacts.ofJson?)
    dependencies := ← r.required 4 "dependencies" (asList? Dependency.ofJson?) }

end RepoFacts

/-! ## Reports -/

namespace Summaries

def toJson (s : Summaries) : Json :=
  .object
    [ ("global_overview", .string s.overview), ("per_package", ofMap .string s.perPackage),
      ("per_module", ofMap .string s.perModule) ]

def ofJson? (j : Json) : Option Summaries := do
  let r ← j.record? 3
  return {
    overview := ← r.required 0 "global_overview" asString?
    perPackage := ← r.required 1 "per_package" (asMap? asString?)
    perModule := ← r.required 2 "per_module" (asMap? asString?) }

end Summaries

namespace UnitFailure

/-- A failure whose line is not known has no field for it. -/
def toJson (f : UnitFailure) : Json :=
  let line := match f.line with
    | some n => [("line", Json.nat n)]
    | none => []
  .object
    ([("module", .string f.module), ("path", .string f.path), ("kind", .string f.kind.word)] ++ line ++
      [("message", .string f.message)])

def ofJson? (j : Json) : Option UnitFailure := do
  let r ← j.record? 5
  return {
    module := ← r.required 0 "module" asString?
    path := ← r.required 1 "path" asString?
    kind := ← r.required 2 "kind" (asWord? FailureKind.all FailureKind.word)
    line := ← r.optional 3 "line" asNat32?
    message := ← r.required 4 "message" asString? }

end UnitFailure

namespace Diagnostics

def toJson (d : Diagnostics) : Json :=
  .object
    [ ("units_analyzed", .nat d.unitsAnalyzed), ("units_failed", .nat d.unitsFailed),
      ("symbol_collisions", .nat d.symbolCollisions), ("call_sites", .nat d.callSites),
      ("unresolved_calls", .nat d.unresolvedCalls), ("call_edges", .nat d.callEdges) ]

def ofJson? (j : Json) : Option Diagnostics := do
  let r ← j.record? 6
  return {
    unitsAnalyzed := ← r.required 0 "units_analyzed" asNat64?
    unitsFailed := ← r.required 1 "units_failed" asNat64?
    symbolCollisions := ← r.required 2 "symbol_collisions" asNat64?
    callSites := ← r.required 3 "call_sites" asNat64?
    unresolvedCalls := ← r.required 4 "unresolved_calls" asNat64?
    callEdges := ← r.required 5 "call_edges" asNat64? }

end Diagnostics

namespace Report

def toJson (a : Report) : Json :=
  .object
    [ ("facts", a.facts.toJson), ("summaries", a.summaries.toJson),
      ("failures", .array (a.failures.map (·.toJson))), ("diagnostics", a.diagnostics.toJson) ]

def ofJson? (j : Json) : Option Report := do
  let r ← j.record? 4
  return {
    facts := ← r.required 0 "facts" RepoFacts.ofJson?
    summaries := ← r.required 1 "summaries" Summaries.ofJson?
    failures := ← r.defaulted 2 "failures" [] (asList? UnitFailure.ofJson?)
    diagnostics := ← r.defaulted 3 "diagnostics" {} Diagnostics.ofJson? }

end Report

/-! ## Diagrams -/

namespace DiagramNode

def toJson : DiagramNode → Json
  | module id name fullName classes functions imports =>
    .object
      [ ("type", .string "module"), ("id", .string id), ("name", .string name),
        ("full_name", .string fullName), ("classes", .nat classes), ("functions", .nat functions),
        ("imports", .nat imports) ]
  | package id name fullName modules =>
    .object
      [ ("type", .string "package"), ("id", .string id), ("name", .string name),
        ("full_name", .string fullName), ("modules", .nat modules) ]

/-- The type of a node and the value its fields are read from. In an array the type comes first. -/
def tagged? : Json → Option (String × Json)
  | .object fields => do
    let tag ← ((Json.object fields).field? "type").bind asString?
    return (tag, .object fields)
  | .array (tag :: items) => tag.asString?.map fun t => (t, .array items)
  | _ => none

def moduleOfJson? (j : Json) : Option DiagramNode := do
  let r ← j.record? 6
  return .module (← r.required 0 "id" asString?) (← r.required 1 "name" asString?)
    (← r.required 2 "full_name" asString?) (← r.required 3 "classes" asNat64?)
    (← r.required 4 "functions" asNat64?) (← r.required 5 "imports" asNat64?)

def packageOfJson? (j : Json) : Option DiagramNode := do
  let r ← j.record? 4
  return .package (← r.required 0 "id" asString?) (← r.required 1 "name" asString?)
    (← r.required 2 "full_name" asString?) (← r.required 3 "modules" asNat64?)

def ofJson? (j : Json) : Option DiagramNode :=
  match tagged? j with
  | some ("module", fields) => moduleOfJson? fields
  | some ("package", fields) => packageOfJson? fields
  | _ => none

end DiagramNode

namespace DiagramEdgeKind

def all : List DiagramEdgeKind := [imports, contains]

/-- The word for a kind of edge. -/
def word : DiagramEdgeKind → String
  | imports => "import"
  | contains => "contains"

end DiagramEdgeKind

namespace DiagramEdge

def toJson (e : DiagramEdge) : Json :=
  .object [("source", .string e.source), ("target", .string e.target), ("type", .string e.kind.word)]

def ofJson? (j : Json) : Option DiagramEdge := do
  let r ← j.record? 3
  return {
    source := ← r.required 0 "source" asString?
    target := ← r.required 1 "target" asString?
    kind := ← r.required 2 "type" (asWord? DiagramEdgeKind.all DiagramEdgeKind.word) }

end DiagramEdge

namespace DiagramStats

def toJson (s : DiagramStats) : Json :=
  .object
    [ ("total_files", .nat s.totalFiles), ("python_files", .nat s.pythonFiles),
      ("modules", .nat s.modules), ("packages", .nat s.packages) ]

def ofJson? (j : Json) : Option DiagramStats := do
  let r ← j.record? 4
  return {
    totalFiles := ← r.required 0 "total_files" asNat64?
    pythonFiles := ← r.required 1 "python_files" asNat64?
    modules := ← r.required 2 "modules" asNat64?
    packages := ← r.required 3 "packages" asNat64? }

end DiagramStats

namespace Diagram

def toJson (d : Diagram) : Json :=
  .object
    [ ("nodes", .array (d.nodes.map (·.toJson))), ("edges", .array (d.edges.map (·.toJson))),
      ("stats", d.stats.toJson) ]

def ofJson? (j : Json) : Option Diagram := do
  let r ← j.record? 3
  return {
    nodes := ← r.required 0 "nodes" (asList? DiagramNode.ofJson?)
    edges := ← r.required 1 "edges" (asList? DiagramEdge.ofJson?)
    stats := ← r.required 2 "stats" DiagramStats.ofJson? }

end Diagram

end CodeAtlas.Facts
