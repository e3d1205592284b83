import CodeAtlas.Cache
import CodeAtlas.Facts.Encoding
import CodeAtlas.Query.Encoding
import CodeAtlas.Service.FormData
import CodeAtlas.Service.MediaType
import CodeAtlas.Service.RequestBody

/-!
# The HTTP interface

Requests are answered from the cache of analyses. A request that has no route, the wrong method, the wrong kind of
body or a query that cannot be read is refused without a body in the answer.
-/

namespace CodeAtlas.Service

open CodeAtlas.Facts CodeAtlas.Query CodeAtlas.Tree

/-- A request. -/
structure Request where
  method : String
  uri : String
  body : String := ""
  contentType : Option String := none
  deriving Repr, Inhabited

/-- An answer; the body is absent where a request is refused before it is looked at. -/
structure Response where
  status : Nat
  body : Option Json := none
  deriving Inhabited

/-- The state of the service. -/
structure State where
  settings : Settings
  cache : AnalysisCache
  /-- The root of queries that give none. -/
  defaultRoot : Option String

/-- The version of the program. -/
def version : String := "0.1.0"

def State.new (s : Settings) (defaultRoot : Option String) : State := ⟨s, .new s.cache, defaultRoot⟩

/-! ## Routes -/

/-- What can be asked for. -/
inductive Route where
  | health
  | analyze
  | facts
  | callGraph
  | paths
  deriving DecidableEq, Repr, Inhabited

namespace Route

def all : List Route := [health, analyze, facts, callGraph, paths]

def path : Route → String
  | health => "/health"
  | analyze => "/analyze"
  | facts => "/facts"
  | callGraph => "/callgraph"
  | paths => "/callgraph/paths"

def method : Route → String
  | analyze => "POST"
  | facts => "POST"
  | _ => "GET"

def ofPath? (path : String) : Option Route := all.find? fun r => r.path == path

end Route

/-- The path and the query string of a request's target. What follows `#` does not belong to it. -/
def splitTarget (uri : String) : String × String :=
  let target := uri.toList.takeWhile (· != '#')
  (String.ofList (target.takeWhile (· != '?')), String.ofList ((target.dropWhile (· != '?')).drop 1))

/-! ## Answers -/

/-- An answer that says what is wrong. -/
def complaint (status : Nat) (text : String) : Response := ⟨status, some (.object [("error", .string text)])⟩

/-- Answer from the analysis of a root. -/
def State.withAnalysis (s : State) (t : Tree) (root : String) (write : Analysis → Json) : Response × State :=
  let (found, cache) := s.cache.getOrAnalyze t s.settings.scan root
  let response := match found with
    | .ok c => ⟨200, some (write c.analysis)⟩
    | .error e => complaint 400 e.message
  (response, { s with cache })

/-- Answer from the analysis of the root that a body asks for. -/
def State.fromBody (s : State) (t : Tree) (r : Request) (write : Analysis → Json) : Response × State :=
  if !r.contentType.any isJsonType then (⟨415, none⟩, s)
  else
    match readRoot r.body with
    | .error .malformed => (⟨400, none⟩, s)
    | .error .mismatched => (⟨422, none⟩, s)
    | .ok root => s.withAnalysis t root write

/-- Answer from the analysis of the root of a query, or else of the default root. -/
def State.fromQuery (s : State) (t : Tree) (root : Option String) (write : Analysis → Json) :
    Response × State :=
  match root <|> s.defaultRoot with
  | none => (complaint 400 "No root given and the server has no default root", s)
  | some root => s.withAnalysis t root write

/-- A query for what a symbol reaches. -/
structure ReachQuery where
  symbol : String
  maxDepth : Option Nat
  root : Option String

def ReachQuery.ofPairs? (pairs : List (String × String)) : Option ReachQuery := do
  return {
    symbol := ← required? pairs "symbol"
    maxDepth := ← optionalNumber? pairs "maxDepth"
    root := ← optional? pairs "root" }

/-- A query for the paths between two symbols. -/
structure PathQuery where
  start : String
  target : String
  maxDepth : Option Nat
  root : Option String

def PathQuery.ofPairs? (pairs : List (String × String)) : Option PathQuery := do
  return {
    start := ← required? pairs "start"
    target := ← required? pairs "end"
    maxDepth := ← optionalNumber? pairs "maxDepth"
    root := ← optional? pairs "root" }

/-- Answer a request that has come to its route. -/
def State.answer (s : State) (t : Tree) (route : Route) (query : String) (r : Request) : Response × State :=
  let limits := s.settings.query
  match route with
  | .health => (⟨200, some (.object [("status", .string "ok"), ("version", .string version)])⟩, s)
  | .analyze => s.fromBody t r fun a => a.report.toJson
  | .facts => s.fromBody t r fun a => a.report.facts.diagram.toJson
  | .callGraph =>
    match ReachQuery.ofPairs? (formPairs query) with
    | none => (⟨400, none⟩, s)
    | some q => s.fromQuery t q.root fun a =>
        (reachView a.graph q.symbol (q.maxDepth.getD limits.defaultMaxDepth)).toJson
  | .paths =>
    match PathQuery.ofPairs? (formPairs query) with
    | none => (⟨400, none⟩, s)
    | some q => s.fromQuery t q.root fun a =>
        (pathView a.graph q.start q.target (q.maxDepth.getD limits.defaultMaxDepth) limits.maxPaths).toJson

/-- Answer a request. `HEAD` is answered like `GET`, without the body. -/
def State.handle (s : State) (t : Tree) (r : Request) : Response × State :=
  let (path, query) := splitTarget r.uri
  match Route.ofPath? path with
  | none => (⟨404, none⟩, s)
  | some route =>
    if r.method == route.method then s.answer t route query r
    else if r.method == "HEAD" && route.method == "GET" then
      let (response, s) := s.answer t route query r
      ({ response with body := none }, s)
    else (⟨405, none⟩, s)

end CodeAtlas.Service
