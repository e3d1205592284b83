import CodeAtlas.Facts.Encoding
import CodeAtlas.Proofs.JsonCodec
import CodeAtlas.Settings

/-!
# Facts and settings written and read back

Lines are numbers of 32 bits, a port is one of 16 and all other numbers are of 64 bits. Facts
and settings whose numbers are in range are read back as they were, whatever their texts,
their empty lists and their missing parts, and no others are read
(`json_round_trip`).
-/

namespace CodeAtlas.Facts

open CodeAtlas.Json CodeAtlas.Json.Codec

/-! ## Modules -/

namespace FunctionFacts

/-- The lines of a function are of 32 bits. -/
def InRange (f : FunctionFacts) : Prop := f.startLine < UInt32.size ∧ f.endLine < UInt32.size

theorem codec : Codec InRange toJson ofJson? where
  read_write f hf := by
    refine reading rfl ?_
    refine reading (string.required rfl trivial) ?_
    refine reading (string.required rfl trivial) ?_
    refine reading (strings.defaulted rfl trivial) ?_
    refine reading (bool.defaulted rfl trivial) ?_
    refine reading (nat32.required rfl hf.1) ?_
    exact reading (nat32.required rfl hf.2) rfl
  inRange_of_read j f hread := by
    simp only [ofJson?, reading_iff, Option.pure_def, Option.some.injEq] at hread
    obtain ⟨r, -, _, -, _, -, _, -, _, -, first, hfirst, last, hlast, rfl⟩ := hread
    exact ⟨nat32.inRange_of_required hfirst, nat32.inRange_of_required hlast⟩

end FunctionFacts

namespace ClassFacts

/-- The lines of a class and of its methods are of 32 bits. -/
def InRange (c : ClassFacts) : Prop :=
  (∀ f ∈ c.methods, f.InRange) ∧ c.startLine < UInt32.size ∧ c.endLine < UInt32.size

theorem codec : Codec InRange toJson ofJson? where
  read_write c hc := by
    refine reading rfl ?_
    refine reading (string.required rfl trivial) ?_
    refine reading (strings.defaulted rfl trivial) ?_
    refine reading (strings.defaulted rfl trivial) ?_
    refine reading (FunctionFacts.codec.list.defaulted rfl hc.1) ?_
    refine reading (nat32.required rfl hc.2.1) ?_
    exact reading (nat32.required rfl hc.2.2) rfl
  inRange_of_read j c hread := by
    simp only [ofJson?, reading_iff, Option.pure_def, Option.some.injEq] at hread
    obtain ⟨r, -, _, -, _, -, _, -, methods, hmethods, first, hfirst, last, hlast, rfl⟩ := hread
    exact ⟨FunctionFacts.codec.list.inRange_of_defaulted (List.forall_mem_nil _) hmethods,
      nat32.inRange_of_required hfirst, nat32.inRange_of_required hlast⟩

end ClassFacts

namespace ModuleFacts

/-- All lines of a module are of 32 bits. -/
def InRange (m : ModuleFacts) : Prop :=
  (∀ c ∈ m.classes, c.InRange) ∧ ∀ f ∈ m.functions, f.InRange

theorem codec : Codec InRange toJson ofJson? where
  read_write m hm := by
    refine reading rfl ?_
    refine reading (string.required rfl trivial) ?_
    refine reading (string.required rfl trivial) ?_
    refine reading (strings.defaulted rfl trivial) ?_
    refine reading (ClassFacts.codec.list.defaulted rfl hm.1) ?_
    exact reading (FunctionFacts.codec.list.defaulted rfl hm.2) rfl
  inRange_of_read j m hread := by
    simp only [ofJson?, reading_iff, Option.pure_def, Option.some.injEq] at hread
    obtain ⟨r, -, _, -, _, -, _, -, classes, hclasses, functions, hfunctions, rfl⟩ := hread
    exact ⟨ClassFacts.codec.list.inRange_of_defaulted (List.forall_mem_nil _) hclasses,
      FunctionFacts.codec.list.inRange_of_defaulted (List.forall_mem_nil _) hfunctions⟩

end ModuleFacts

/-! ## Repositories -/

theorem Language.codec : Codec (fun _ => True) toJson ofJson? :=
  Codec.word fun l => by cases l <;> rfl

/-- A file has no numbers, and so nothing that could be out of range. -/
theorem FileFacts.codec : Codec (fun _ => True) toJson ofJson? where
  read_write f _ := by
    refine reading rfl ?_
    refine reading (string.required rfl trivial) ?_
    refine reading (string.required rfl trivial) ?_
    refine reading (Language.codec.required rfl trivial) ?_
    refine reading (optString rfl) ?_
    exact reading (optString rfl) rfl
  inRange_of_read _ _ _ := trivial

namespace PackageFacts

/-- All lines of the modules of a package are of 32 bits. -/
def InRange (p : PackageFacts) : Prop := ∀ m ∈ p.modules, m.InRange

theorem codec : Codec InRange toJson ofJson? where
  read_write p hp := by
    refine reading rfl ?_
    refine reading (string.required rfl trivial) ?_
    exact reading (ModuleFacts.codec.list.required rfl hp) rfl
  inRange_of_read j p hread := by
    simp only [ofJson?, reading_iff, Option.pure_def, Option.some.injEq] at hread
    obtain ⟨r, -, _, -, modules, hmodules, rfl⟩ := hread
    exact ModuleFacts.codec.list.inRange_of_required hmodules

end PackageFacts

theorem Dependency.codec : Codec (fun _ => True) toJson ofJson? where
  read_write d _ := by
    refine reading rfl ?_
    refine reading (string.required rfl trivial) ?_
    exact reading (string.required rfl trivial) rfl
  inRange_of_read _ _ _ := trivial

namespace RepoFacts

/-- All lines are of 32 bits, those of the modules and those of the packages. -/
def InRange (r : RepoFacts) : Prop :=
  (∀ m ∈ r.modules, m.InRange) ∧
    ∀ (name : String) p, r.packages[name]? = some p → p.InRange

theorem codec : Codec InRange toJson ofJson? where
  read_write f hf := by
    refine reading rfl ?_
    refine reading (string.required rfl trivial) ?_
    refine reading (FileFacts.codec.list.required rfl fun _ _ => trivial) ?_
    refine reading (ModuleFacts.codec.list.required rfl hf.1) ?_
    refine reading (PackageFacts.codec.map.required rfl hf.2) ?_
    exact reading (Dependency.codec.list.required rfl fun _ _ => trivial) rfl
  inRange_of_read j f hread := by
    simp only [ofJson?, reading_iff, Option.pure_def, Option.some.injEq] at hread
    obtain ⟨r, -, _, -, _, -, modules, hmodules, packages, hpackages, _, -, rfl⟩ := hread
    exact ⟨ModuleFacts.codec.list.inRange_of_required hmodules,
      PackageFacts.codec.map.inRange_of_required hpackages⟩

end RepoFacts

/-! ## Reports -/

theorem Summaries.codec : Codec (fun _ => True) toJson ofJson? where
  read_write s _ := by
    refine reading rfl ?_
    refine reading (string.required rfl trivial) ?_
    refine reading (string.map.required rfl fun _ _ _ => trivial) ?_
    exact reading (string.map.required rfl fun _ _ _ => trivial) rfl
  inRange_of_read _ _ _ := trivial

/-- A kind is written as a word, and no two kinds have the same. -/
theorem FailureKind.codec :
    Codec (fun _ => True) (fun k => .string (word k)) (asWord? FailureKind.all word) :=
  Codec.word fun k => by cases k <;> rfl

namespace UnitFailure

/-- The line of a failure, if it has one, is of 32 bits. -/
def InRange (x : UnitFailure) : Prop := ∀ n ∈ x.line, n < UInt32.size

theorem codec : Codec InRange toJson ofJson? where
  read_write x hx := by
    obtain ⟨module, path, kind, line, message⟩ := x
    -- what the fields are depends on the line
    cases line with
    | none =>
      refine reading rfl ?_
      refine reading (string.required rfl trivial) ?_
      refine reading (string.required rfl trivial) ?_
      refine reading (FailureKind.codec.required rfl trivial) ?_
      refine reading (a := none) rfl ?_
      exact reading (string.required rfl trivial) rfl
    | some n =>
      refine reading rfl ?_
      refine reading (string.required rfl trivial) ?_
      refine reading (string.required rfl trivial) ?_
      refine reading (FailureKind.codec.required rfl trivial) ?_
      refine reading (nat32.optional rfl (hx n rfl) nofun) ?_
      exact reading (string.required rfl trivial) rfl
  inRange_of_read j x hread := by
    simp only [ofJson?, reading_iff, Option.pure_def, Option.some.injEq] at hread
    obtain ⟨r, -, _, -, _, -, _, -, line, hline, _, -, rfl⟩ := hread
    exact nat32.inRange_of_optional hline

end UnitFailure

namespace Diagnostics

/-- The counts of an analysis are of 64 bits. -/
def InRange (d : Diagnostics) : Prop :=
  d.unitsAnalyzed < UInt64.size ∧ d.unitsFailed < UInt64.size ∧
    d.symbolCollisions < UInt64.size ∧ d.callSites < UInt64.size ∧
    d.unresolvedCalls < UInt64.size ∧ d.callEdges < UInt64.size

theorem codec : Codec InRange toJson ofJson? where
  read_write d hd := by
    obtain ⟨hanalyzed, hfailed, hcollisions, hsites, hunresolved, hedges⟩ := hd
    refine reading rfl ?_
    refine reading (nat64.required rfl hanalyzed) ?_
    refine reading (nat64.required rfl hfailed) ?_
    refine reading (nat64.required rfl hcollisions) ?_
    refine reading (nat64.required rfl hsites) ?_
    refine reading (nat64.required rfl hunresolved) ?_
    exact reading (nat64.required rfl hedges) rfl
  inRange_of_read j d hread := by
    simp only [ofJson?, reading_iff, Option.pure_def, Option.some.injEq] at hread
    obtain ⟨r, -, _, hanalyzed, _, hfailed, _, hcollisions, _, hsites, _, hunresolved, _, hedges,
      rfl⟩ := hread
    exact ⟨nat64.inRange_of_required hanalyzed, nat64.inRange_of_required hfailed,
      nat64.inRange_of_required hcollisions, nat64.inRange_of_required hsites,
      nat64.inRange_of_required hunresolved, nat64.inRange_of_required hedges⟩

end Diagnostics

namespace Report

/-- All lines and counts of a report are in range. -/
def InRange (a : Report) : Prop :=
  a.facts.InRange ∧ (∀ x ∈ a.failures, x.InRange) ∧ a.diagnostics.InRange

theorem codec : Codec InRange toJson ofJson? where
  read_write a ha := by
    refine reading rfl ?_
    refine reading (RepoFacts.codec.required rfl ha.1) ?_
    refine reading (Summaries.codec.required rfl trivial) ?_
    refine reading (UnitFailure.codec.list.defaulted rfl ha.2.1) ?_
    exact reading (Diagnostics.codec.defaulted rfl ha.2.2) rfl
  inRange_of_read j a hread := by
    simp only [ofJson?, reading_iff, Option.pure_def, Option.some.injEq] at hread
    obtain ⟨r, -, facts, hfacts, _, -, failures, hfailures, diagnostics, hdiagnostics, rfl⟩ := hread
    have hdefault : Diagnostics.InRange {} := by unfold Diagnostics.InRange; decide
    exact ⟨RepoFacts.codec.inRange_of_required hfacts,
      UnitFailure.codec.list.inRange_of_defaulted (List.forall_mem_nil _) hfailures,
      Diagnostics.codec.inRange_of_defaulted hdefault hdiagnostics⟩

end Report

/-! ## Diagrams -/

namespace DiagramNode

/-- The counts that a node shows are of 64 bits. -/
def InRange : DiagramNode → Prop
  | module _ _ _ classes functions imports =>
    classes < UInt64.size ∧ functions < UInt64.size ∧ imports < UInt64.size
  | package _ _ _ modules => modules < UInt64.size

theorem codec : Codec InRange toJson ofJson? where
  read_write n hn := by
    -- the tag says which fields are read, and is a field itself
    cases n with
    | module id name fullName classes functions imports =>
      obtain ⟨hclasses, hfunctions, himports⟩ := hn
      refine reading rfl ?_
      refine reading (string.required rfl trivial) ?_
      refine reading (string.required rfl trivial) ?_
      refine reading (string.required rfl trivial) ?_
      refine reading (nat64.required rfl hclasses) ?_
      refine reading (nat64.required rfl hfunctions) ?_
      exact reading (nat64.required rfl himports) rfl
    | package id name fullName modules =>
      refine reading rfl ?_
      refine reading (string.required rfl trivial) ?_
      refine reading (string.required rfl trivial) ?_
      refine reading (string.required rfl trivial) ?_
      exact reading (nat64.required rfl hn) rfl
  inRange_of_read j n hread := by
    unfold ofJson? at hread
    split at hread
    · simp only [moduleOfJson?, reading_iff, Option.pure_def, Option.some.injEq] at hread
      obtain ⟨r, -, _, -, _, -, _, -, _, hclasses, _, hfunctions, _, himports, rfl⟩ := hread
      exact ⟨nat64.inRange_of_required hclasses, nat64.inRange_of_required hfunctions,
        nat64.inRange_of_required himports⟩
    · simp only [packageOfJson?, reading_iff, Option.pure_def, Option.some.injEq] at hread
      obtain ⟨r, -, _, -, _, -, _, -, _, hmodules, rfl⟩ := hread
      exact nat64.inRange_of_required hmodules
    · cases hread

end DiagramNode

/-- A kind of edges is written as a word. -/
theorem DiagramEdgeKind.codec :
    Codec (fun _ => True) (fun k => .string (word k)) (asWord? DiagramEdgeKind.all word) :=
  Codec.word fun k => by cases k <;> rfl

theorem DiagramEdge.codec : Codec (fun _ => True) toJson ofJson? where
  read_write e _ := by
    refine reading rfl ?_
    refine reading (string.required rfl trivial) ?_
    refine reading (string.required rfl trivial) ?_
    exact reading (DiagramEdgeKind.codec.required rfl trivial) rfl
  inRange_of_read _ _ _ := trivial

namespace DiagramStats

/-- The counts of a diagram are of 64 bits. -/
def InRange (s : DiagramStats) : Prop :=
  s.totalFiles < UInt64.size ∧ s.pythonFiles < UInt64.size ∧ s.modules < UInt64.size ∧
    s.packages < UInt64.size

theorem codec : Codec InRange toJson ofJson? where
  read_write s hs := by
    obtain ⟨htotal, hpython, hmodules, hpackages⟩ := hs
    refine reading rfl ?_
    refine reading (nat64.required rfl htotal) ?_
    refine reading (nat64.required rfl hpython) ?_
    refine reading (nat64.required rfl hmodules) ?_
    exact reading (nat64.required rfl hpackages) rfl
  inRange_of_read j s hread := by
    simp only [ofJson?, reading_iff, Option.pure_def, Option.some.injEq] at hread
    obtain ⟨r, -, _, htotal, _, hpython, _, hmodules, _, hpackages, rfl⟩ := hread
    exact ⟨nat64.inRange_of_required htotal, nat64.inRange_of_required hpython,
      nat64.inRange_of_required hmodules, nat64.inRange_of_required hpackages⟩

end DiagramStats

namespace Diagram

/-- All counts that a diagram shows are of 64 bits. -/
def InRange (d : Diagram) : Prop := (∀ n ∈ d.nodes, n.InRange) ∧ d.stats.InRange

theorem codec : Codec InRange toJson ofJson? where
  read_write d hd := by
    refine reading rfl ?_
    refine reading (DiagramNode.codec.list.required rfl hd.1) ?_
    refine reading (DiagramEdge.codec.list.required rfl fun _ _ => trivial) ?_
    exact reading (DiagramStats.codec.required rfl hd.2) rfl
  inRange_of_read j d hread := by
    simp only [ofJson?, reading_iff, Option.pure_def, Option.some.injEq] at hread
    obtain ⟨r, -, nodes, hnodes, _, -, stats, hstats, rfl⟩ := hread
    exact ⟨DiagramNode.codec.list.inRange_of_required hnodes,
      DiagramStats.codec.inRange_of_required hstats⟩

end Diagram

end CodeAtlas.Facts

namespace CodeAtlas

open CodeAtlas.Facts CodeAtlas.Json CodeAtlas.Json.Codec

/-! ## Settings -/

variable (strict : Bool)

/-- An object is read as a section whether or not a section may be too long. -/
theorem sectionRecord?_object (size : Nat) (fields : List (String × Json)) :
    sectionRecord? strict size (.object fields) = some (.named fields) := by
  cases strict <;> rfl

namespace ScanSettings

/-- The size limit is of 64 bits. -/
def InRange (s : ScanSettings) : Prop := s.maxFileSize < UInt64.size

theorem codec : Codec InRange toJson (ofJson? · strict) where
  read_write s hs := by
    refine reading (sectionRecord?_object ..) ?_
    refine reading (strings.defaulted rfl trivial) ?_
    refine reading (nat64.defaulted rfl hs) ?_
    exact reading (bool.defaulted rfl trivial) rfl
  inRange_of_read j s hread := by
    simp only [ofJson?, reading_iff, Option.pure_def, Option.some.injEq] at hread
    obtain ⟨r, -, _, -, _, hsize, _, -, rfl⟩ := hread
    exact nat64.inRange_of_defaulted (by decide) hsize

end ScanSettings

namespace QuerySettings

/-- The depth and the number of paths are of 64 bits. -/
def InRange (s : QuerySettings) : Prop :=
  s.defaultMaxDepth < UInt64.size ∧ s.maxPaths < UInt64.size

theorem codec : Codec InRange toJson (ofJson? · strict) where
  read_write s hs := by
    refine reading (sectionRecord?_object ..) ?_
    refine reading (nat64.defaulted rfl hs.1) ?_
    exact reading (nat64.defaulted rfl hs.2) rfl
  inRange_of_read j s hread := by
    simp only [ofJson?, reading_iff, Option.pure_def, Option.some.injEq] at hread
    obtain ⟨r, -, _, hdepth, _, hpaths, rfl⟩ := hread
    exact ⟨nat64.inRange_of_defaulted (by decide) hdepth,
      nat64.inRange_of_defaulted (by decide) hpaths⟩

end QuerySettings

namespace CacheSettings

/-- The number of entries is of 64 bits. -/
def InRange (s : CacheSettings) : Prop := s.maxEntries < UInt64.size

theorem codec : Codec InRange toJson (ofJson? · strict) where
  read_write s hs := by
    refine reading (sectionRecord?_object ..) ?_
    exact reading (nat64.defaulted rfl hs) rfl
  inRange_of_read j s hread := by
    simp only [ofJson?, reading_iff, Option.pure_def, Option.some.injEq] at hread
    obtain ⟨r, -, _, hentries, rfl⟩ := hread
    exact nat64.inRange_of_defaulted (by decide) hentries

end CacheSettings

namespace ServerSettings

/-- The port is of 16 bits. -/
def InRange (s : ServerSettings) : Prop := s.port < UInt16.size

theorem codec : Codec InRange toJson (ofJson? · strict) where
  read_write s hs := by
    refine reading (sectionRecord?_object ..) ?_
    refine reading (string.defaulted rfl trivial) ?_
    exact reading (nat16.defaulted rfl hs) rfl
  inRange_of_read j s hread := by
    simp only [ofJson?, reading_iff, Option.pure_def, Option.some.injEq] at hread
    obtain ⟨r, -, _, -, _, hport, rfl⟩ := hread
    exact nat16.inRange_of_defaulted (by decide) hport

end ServerSettings

namespace Settings

/-- All numbers of the settings are in range. -/
def InRange (s : Settings) : Prop :=
  s.scan.InRange ∧ s.query.InRange ∧ s.cache.InRange ∧ s.server.InRange

/-- The settings of no text are in range. -/
theorem inRange_default : InRange {} := by
  unfold InRange ScanSettings.InRange QuerySettings.InRange CacheSettings.InRange
    ServerSettings.InRange
  decide

theorem codec : Codec InRange toJson (ofJson? · strict) where
  read_write s hs := by
    obtain ⟨hscan, hquery, hcache, hserver⟩ := hs
    refine reading (sectionRecord?_object ..) ?_
    refine reading ((ScanSettings.codec strict).defaulted rfl hscan) ?_
    refine reading ((QuerySettings.codec strict).defaulted rfl hquery) ?_
    refine reading ((CacheSettings.codec strict).defaulted rfl hcache) ?_
    exact reading ((ServerSettings.codec strict).defaulted rfl hserver) rfl
  inRange_of_read j s hread := by
    simp only [ofJson?, reading_iff, Option.pure_def, Option.some.injEq] at hread
    obtain ⟨r, -, _, hscan, _, hquery, _, hcache, _, hserver, rfl⟩ := hread
    obtain ⟨hscan₀, hquery₀, hcache₀, hserver₀⟩ := inRange_default
    exact ⟨(ScanSettings.codec strict).inRange_of_defaulted hscan₀ hscan,
      (QuerySettings.codec strict).inRange_of_defaulted hquery₀ hquery,
      (CacheSettings.codec strict).inRange_of_defaulted hcache₀ hcache,
      (ServerSettings.codec strict).inRange_of_defaulted hserver₀ hserver⟩

end Settings

/-- Reports, diagrams, the facts of modules and files, and settings are read back from JSON as
they were written, and settings so whether or not a section may be too long. -/
theorem json_round_trip :
    RoundTrips Report.InRange Report.toJson Report.ofJson? ∧
    RoundTrips Diagram.InRange Diagram.toJson Diagram.ofJson? ∧
    RoundTrips ModuleFacts.InRange ModuleFacts.toJson ModuleFacts.ofJson? ∧
    RoundTrips (fun _ => True) FileFacts.toJson FileFacts.ofJson? ∧
    ∀ strict, RoundTrips Settings.InRange Settings.toJson (Settings.ofJson? · strict) := by
  refine ⟨?_, ?_, ?_, ?_, fun strict => ?_⟩
  · exact Report.codec.roundTrips
  · exact Diagram.codec.roundTrips
  · exact ModuleFacts.codec.roundTrips
  · exact FileFacts.codec.roundTrips
  · exact (Settings.codec strict).roundTrips

end CodeAtlas
