import CodeAtlas.Json.Record
import CodeAtlas.Query.Paths
import CodeAtlas.Toml.Document

/-!
# Settings

What can be set for scanning, queries, the cache and the server. Settings are read from TOML text; whatever
is not set there keeps its value.
-/

namespace CodeAtlas

/-- How a repository is scanned. -/
structure ScanSettings where
  /-- Names of directories that are not entered. -/
  ignoreDirs : List String := [".git", "node_modules", "dist", "build", "__pycache__"]
  /-- The size in bytes above which files are not read. -/
  maxFileSize : Nat := 1048576
  /-- Whether ignore files count. -/
  respectIgnoreFiles : Bool := true
  deriving DecidableEq, Repr, Inhabited

/-- The limits of queries. -/
structure QuerySettings where
  /-- The depth of a query that gives none. -/
  defaultMaxDepth : Nat := 5
  maxPaths : Nat := Query.defaultMaxPaths
  deriving DecidableEq, Repr, Inhabited

/-- The size of the cache. -/
structure CacheSettings where
  maxEntries : Nat := 16
  deriving DecidableEq, Repr, Inhabited

/-- Where the server listens. -/
structure ServerSettings where
  host : String := "127.0.0.1"
  port : Nat := 8000
  deriving DecidableEq, Repr, Inhabited

/-- All settings. -/
structure Settings where
  scan : ScanSettings := {}
  query : QuerySettings := {}
  cache : CacheSettings := {}
  server : ServerSettings := {}
  deriving DecidableEq, Repr, Inhabited

open Json

/-! ## As JSON -/

/-- The fields of a section. One that is written as an array in TOML may be too long. -/
def sectionRecord? (strict : Bool) (size : Nat) (j : Json) : Option Record :=
  match strict, j with
  | false, .array items => some (.listed items)
  | _, j => j.record? size

namespace ScanSettings

def toJson (s : ScanSettings) : Json :=
  .object
    [ ("ignore_dirs", .strings s.ignoreDirs), ("max_file_size", .nat s.maxFileSize),
      ("respect_gitignore", .bool s.respectIgnoreFiles) ]

def ofJson? (j : Json) (strict : Bool := true) : Option ScanSettings := do
  let r ← sectionRecord? strict 3 j
  let d : ScanSettings := {}
  return {
    ignoreDirs := ← r.defaulted 0 "ignore_dirs" d.ignoreDirs (asList? asString?)
    maxFileSize := ← r.defaulted 1 "max_file_size" d.maxFileSize asNat64?
    respectIgnoreFiles := ← r.defaulted 2 "respect_gitignore" d.respectIgnoreFiles asBool? }

end ScanSettings

namespace QuerySettings

def toJson (s : QuerySettings) : Json :=
  .object [("default_max_depth", .nat s.defaultMaxDepth), ("max_paths", .nat s.maxPaths)]

def ofJson? (j : Json) (strict : Bool := true) : Option QuerySettings := do
  let r ← sectionRecord? strict 2 j
  let d : QuerySettings := {}
  return {
    defaultMaxDepth := ← r.defaulted 0 "default_max_depth" d.defaultMaxDepth asNat64?
    maxPaths := ← r.defaulted 1 "max_paths" d.maxPaths asNat64? }

end QuerySettings

namespace CacheSettings

def toJson (s : CacheSettings) : Json := .object [("max_entries", .nat s.maxEntries)]

def ofJson? (j : Json) (strict : Bool := true) : Option CacheSettings := do
  let r ← sectionRecord? strict 1 j
  let d : CacheSettings := {}
  return { maxEntries := ← r.defaulted 0 "max_entries" d.maxEntries asNat64? }

end CacheSettings

namespace ServerSettings

def toJson (s : ServerSettings) : Json := .object [("host", .string s.host), ("port", .nat s.port)]

def ofJson? (j : Json) (strict : Bool := true) : Option ServerSettings := do
  let r ← sectionRecord? strict 2 j
  let d : ServerSettings := {}
  return {
    host := ← r.defaulted 0 "host" d.host asString?
    port := ← r.defaulted 1 "port" d.port asNat16? }

end ServerSettings

namespace Settings

def toJson (s : Settings) : Json :=
  .object
    [ ("scan", s.scan.toJson), ("query", s.query.toJson), ("cache", s.cache.toJson),
      ("server", s.server.toJson) ]

def ofJson? (j : Json) (strict : Bool := true) : Option Settings := do
  let r ← sectionRecord? strict 4 j
  return {
    scan := ← r.defaulted 0 "scan" {} (ScanSettings.ofJson? · strict)
    query := ← r.defaulted 1 "query" {} (QuerySettings.ofJson? · strict)
    cache := ← r.defaulted 2 "cache" {} (CacheSettings.ofJson? · strict)
    server := ← r.defaulted 3 "server" {} (ServerSettings.ofJson? · strict) }

end Settings

/-! ## From text -/

/-- Why settings are refused. -/
inductive SettingsError where
  /-- The text is no TOML, or has a value of the wrong kind. -/
  | malformed
  | noCacheEntries
  | noPaths
  deriving DecidableEq, Repr, Inhabited

namespace SettingsError

/-- What is wrong with settings. -/
def message : SettingsError → String
  | malformed => "Configuration error: malformed settings"
  | noCacheEntries => "Configuration error: cache.max_entries must be at least 1"
  | noPaths => "Configuration error: query.max_paths must be at least 1"

end SettingsError

/-- The settings of a TOML text. -/
def Settings.ofToml (text : String) : Except SettingsError Settings :=
  match (Toml.parse? text).bind (Settings.ofJson? · false) with
  | none => .error .malformed
  | some s =>
    if s.cache.maxEntries = 0 then .error .noCacheEntries
    else if s.query.maxPaths = 0 then .error .noPaths
    else .ok s

end CodeAtlas
