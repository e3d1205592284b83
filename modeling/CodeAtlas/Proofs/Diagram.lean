import CodeAtlas.Facts.Diagram
import CodeAtlas.Proofs.Dependencies
import CodeAtlas.Proofs.Packages
import Mathlib.Data.List.Nodup

/-!
# Diagrams are closed

The nodes of a diagram come from modules and packages, its edges from imports of known
modules and from the members of packages. Each package has one node, so a module is a
member of one package node at most and once for each time it occurs (`containing_diagram`),
and no edge leads to an id that no node has (`diagram_closed`).

Ids need not tell nodes apart. Those of modules are their names, those of packages have a
mark before the name, and a module may bear a name with that mark. Apart from that the ids
differ (`node_ids_distinct_iff`).
-/

namespace CodeAtlas.Facts

open CodeAtlas.Source

/-! ## Nodes and edges -/

/-- Whether a node stands for a module. -/
def DiagramNode.isModule : DiagramNode → Bool
  | module .. => true
  | package .. => false

@[simp] theorem ModuleFacts.isModule_diagramNode (m : ModuleFacts) : m.diagramNode.isModule :=
  rfl

@[simp] theorem ModuleFacts.id_diagramNode (m : ModuleFacts) : m.diagramNode.id = m.module :=
  rfl

@[simp] theorem PackageFacts.isModule_diagramNode (p : PackageFacts) :
    p.diagramNode.isModule = false :=
  rfl

@[simp] theorem PackageFacts.id_diagramNode (p : PackageFacts) :
    p.diagramNode.id = packageId p.package :=
  rfl

/-- The edges that say which packages contain a module. -/
def Diagram.containing (d : Diagram) (name : String) : List DiagramEdge :=
  d.edges.filter fun e => e.kind == .contains && e.target == name

/-- The names of the packages that have a node. -/
def packageKeys (ms : List ModuleFacts) : List String :=
  (packages ms).keys.filter fun key => !key.isEmpty

variable (root : String) (files : List FileFacts) (ms : List ModuleFacts)

theorem mem_packageKeys {ms : List ModuleFacts} {key : String} :
    key ∈ packageKeys ms ↔ key ≠ "" ∧ ∃ m ∈ ms, packageName m.module = key := by
  rw [packageKeys, List.mem_filter, mem_keys_packages, and_comm]
  simp

theorem nodup_packageKeys : (packageKeys ms).Nodup :=
  Std.ExtTreeMap.nodup_keys.filter _

theorem namedPackages_ofModules : (RepoFacts.ofModules root files ms).namedPackages =
    (packageKeys ms).map fun key => ⟨key, membersOf ms key⟩ := by
  have hpackages : (RepoFacts.ofModules root files ms).packages.toList = _ := toList_packages ms
  rw [RepoFacts.namedPackages, hpackages, List.map_map, List.filter_map]
  rfl

theorem nodes_diagram : (RepoFacts.ofModules root files ms).diagram.nodes =
    ms.map (·.diagramNode) ++
      (packageKeys ms).map fun key => PackageFacts.diagramNode ⟨key, membersOf ms key⟩ := by
  rw [RepoFacts.diagram, namedPackages_ofModules, List.map_map]
  rfl

theorem edges_diagram : (RepoFacts.ofModules root files ms).diagram.edges =
    (dependencies ms).map (fun d => ⟨d.source, d.target, .imports⟩) ++
      (packageKeys ms).flatMap fun key =>
        (membersOf ms key).map fun m => ⟨packageId key, m.module, .contains⟩ := by
  rw [RepoFacts.diagram, namedPackages_ofModules, List.flatMap_map]
  rfl

theorem moduleNode_mem {ms : List ModuleFacts} {m : ModuleFacts} (h : m ∈ ms) :
    m.diagramNode ∈ (RepoFacts.ofModules root files ms).diagram.nodes := by
  rw [nodes_diagram]
  exact List.mem_append_left _ (List.mem_map_of_mem h)

theorem packageNode_mem {ms : List ModuleFacts} {key : String} (h : key ∈ packageKeys ms) :
    PackageFacts.diagramNode ⟨key, membersOf ms key⟩ ∈
      (RepoFacts.ofModules root files ms).diagram.nodes := by
  rw [nodes_diagram]
  exact List.mem_append_right _ (List.mem_map.mpr ⟨key, h, rfl⟩)

/-- An edge is an import of a known module or leads from a package to a member. -/
theorem mem_edges_diagram {ms : List ModuleFacts} {e : DiagramEdge} :
    e ∈ (RepoFacts.ofModules root files ms).diagram.edges ↔
      (∃ d ∈ dependencies ms, e = ⟨d.source, d.target, .imports⟩) ∨
      ∃ m ∈ ms, packageName m.module ≠ "" ∧
        e = ⟨packageId (packageName m.module), m.module, .contains⟩ := by
  rw [edges_diagram, List.mem_append, List.mem_map, List.mem_flatMap]
  refine or_congr (by simp only [eq_comm]) ⟨?_, ?_⟩
  · rintro ⟨key, hkey, he⟩
    obtain ⟨m, hm, rfl⟩ := List.mem_map.mp he
    obtain ⟨hmem, rfl⟩ := mem_membersOf.mp hm
    exact ⟨m, hmem, (mem_packageKeys.mp hkey).1, rfl⟩
  · rintro ⟨m, hm, hne, rfl⟩
    exact ⟨packageName m.module, mem_packageKeys.mpr ⟨hne, m, hm, rfl⟩,
      List.mem_map.mpr ⟨m, mem_membersOf.mpr ⟨hm, rfl⟩, rfl⟩⟩

/-! ## Which package contains a module -/

/-- A package has an edge to a module for each time the module occurs in it. -/
theorem filter_memberEdges (key name : String) :
    ((membersOf ms key).map fun m => (⟨packageId key, m.module, .contains⟩ : DiagramEdge)).filter
        (fun e => e.kind == .contains && e.target == name) =
      if packageName name = key then
        List.replicate (ms.countP (·.module == name)) ⟨packageId key, name, .contains⟩
      else [] := by
  rw [List.filter_map, membersOf, List.filter_filter]
  have hmembers : ms.filter (fun m => ((fun e : DiagramEdge =>
      e.kind == .contains && e.target == name) ∘ fun m => ⟨packageId key, m.module, .contains⟩) m &&
      packageName m.module == key) =
      ms.filter fun m => m.module == name && packageName name == key := by
    refine List.filter_congr fun m _ => ?_
    by_cases h : m.module = name
    · simp [h]
    · simp [beq_eq_false_iff_ne.mpr h]
  rw [hmembers]
  by_cases hkey : packageName name = key
  · rw [if_pos hkey, List.countP_eq_length_filter]
    refine List.eq_replicate_iff.mpr ⟨by simp [hkey], fun e he => ?_⟩
    obtain ⟨m, hm, rfl⟩ := List.mem_map.mp he
    obtain ⟨-, hm⟩ := List.mem_filter.mp hm
    obtain ⟨hname, -⟩ := Bool.and_eq_true_iff.mp hm
    rw [beq_iff_eq.mp hname]
  · simp [hkey]

/-- A module is contained in its own package, once for each time it occurs. -/
theorem containing_diagram (name : String) :
    (RepoFacts.ofModules root files ms).diagram.containing name =
      if packageName name = "" then []
      else List.replicate (ms.countP (·.module == name))
        ⟨packageId (packageName name), name, .contains⟩ := by
  have himports : ((dependencies ms).map fun d =>
      (⟨d.source, d.target, .imports⟩ : DiagramEdge)).filter
        (fun e => e.kind == .contains && e.target == name) = [] := by
    rw [List.filter_eq_nil_iff]
    intro e he
    obtain ⟨d, -, rfl⟩ := List.mem_map.mp he
    exact Bool.false_ne_true
  rw [Diagram.containing, edges_diagram, List.filter_append, himports, List.nil_append,
    List.filter_flatMap, flatMap_eq_of_nodup (nodup_packageKeys ms) (packageName name)
      fun key _ hne => by rw [filter_memberEdges, if_neg hne.symm],
    filter_memberEdges, if_pos rfl]
  by_cases hnone : packageName name = ""
  · rw [if_pos hnone, if_neg fun hmem => (mem_packageKeys.mp hmem).1 hnone]
  · rw [if_neg hnone]
    split_ifs with hmem
    · rfl
    · -- no module of that name, or its package would have a node
      have hzero : ms.countP (·.module == name) = 0 := by
        rw [List.countP_eq_zero]
        intro m hm hname
        exact hmem (mem_packageKeys.mpr ⟨hnone, m, hm, by rw [beq_iff_eq.mp hname]⟩)
      rw [hzero, List.replicate_zero]

/-! ## Closed diagrams -/

/-- No edge of the diagram leads nowhere, imports join modules, and each module is contained
in its package and in no other; all nodes are counted. -/
structure Diagram.Closed (d : Diagram) (ms : List ModuleFacts) : Prop where
  ends : ∀ e ∈ d.edges,
    (∃ n ∈ d.nodes, n.id = e.source) ∧ ∃ n ∈ d.nodes, n.id = e.target
  imports : ∀ e ∈ d.edges, e.kind = .imports →
    (∃ n ∈ d.nodes, n.isModule ∧ n.id = e.source) ∧ ∃ n ∈ d.nodes, n.isModule ∧ n.id = e.target
  contained : ∀ m ∈ ms, packageName m.module ≠ "" →
    d.containing m.module = List.replicate (ms.countP (·.module == m.module))
      ⟨packageId (packageName m.module), m.module, .contains⟩ ∧
    .package (packageId (packageName m.module)) (lastSegment (packageName m.module))
      (packageName m.module) (ms.countP (packageName ·.module == packageName m.module)) ∈ d.nodes
  outside : ∀ m ∈ ms, packageName m.module = "" → d.containing m.module = []
  modules : d.stats.modules = d.nodes.countP (·.isModule)
  packages : d.stats.packages = d.nodes.countP (!·.isModule)

theorem closed_diagram : (RepoFacts.ofModules root files ms).diagram.Closed ms := by
  have hmodule : ∀ m ∈ ms, ∃ n ∈ (RepoFacts.ofModules root files ms).diagram.nodes,
      n.isModule ∧ n.id = m.module :=
    fun m hm => ⟨m.diagramNode, moduleNode_mem root files hm, rfl, rfl⟩
  have himports : ∀ d ∈ dependencies ms,
      (∃ n ∈ (RepoFacts.ofModules root files ms).diagram.nodes, n.isModule ∧ n.id = d.source) ∧
        ∃ n ∈ (RepoFacts.ofModules root files ms).diagram.nodes, n.isModule ∧ n.id = d.target := by
    intro d hd
    obtain ⟨⟨m, hm, hsource, -⟩, hknown⟩ := mem_dependencies.mp hd
    obtain ⟨m', hm', htarget⟩ := List.mem_map.mp hknown
    exact ⟨hsource ▸ hmodule m hm, htarget ▸ hmodule m' hm'⟩
  refine ⟨fun e he => ?_, fun e he hkind => ?_, fun m hm hne => ⟨?_, ?_⟩, fun m hm hnone => ?_, ?_, ?_⟩
  · rcases (mem_edges_diagram root files).mp he with ⟨d, hd, rfl⟩ | ⟨m, hm, hne, rfl⟩
    · obtain ⟨⟨n, hn, -, hid⟩, n', hn', -, hid'⟩ := himports d hd
      exact ⟨⟨n, hn, hid⟩, n', hn', hid'⟩
    · refine ⟨⟨_, packageNode_mem root files (mem_packageKeys.mpr ⟨hne, m, hm, rfl⟩), rfl⟩, ?_⟩
      exact ⟨_, moduleNode_mem root files hm, rfl⟩
  · rcases (mem_edges_diagram root files).mp he with ⟨d, hd, rfl⟩ | ⟨m, hm, hne, rfl⟩
    · exact himports d hd
    · cases hkind
  · rw [containing_diagram, if_neg hne]
  · have hnode := packageNode_mem root files (mem_packageKeys.mpr ⟨hne, m, hm, rfl⟩)
    rwa [PackageFacts.diagramNode, membersOf, ← List.countP_eq_length_filter] at hnode
  · rw [containing_diagram, if_pos hnone]
  · rw [nodes_diagram, List.countP_append, List.countP_map, List.countP_map]
    simp [Function.comp_def, RepoFacts.diagram, RepoFacts.ofModules]
  · rw [nodes_diagram, List.countP_append, List.countP_map, List.countP_map]
    simp [Function.comp_def, RepoFacts.diagram, namedPackages_ofModules]

/-! ## Ids -/

theorem packageId_injective : Function.Injective packageId := fun _ _ h =>
  (String.append_right_inj _).mp h

theorem ids_modules :
    ((RepoFacts.ofModules root files ms).diagram.nodes.filter (·.isModule)).map (·.id) =
      ms.map (·.module) := by
  rw [nodes_diagram, List.filter_append, List.filter_map, List.filter_map]
  simp [Function.comp_def]

theorem ids_packages :
    ((RepoFacts.ofModules root files ms).diagram.nodes.filter (!·.isModule)).map (·.id) =
      (packageKeys ms).map packageId := by
  rw [nodes_diagram, List.filter_append, List.filter_map, List.filter_map]
  simp [Function.comp_def]

theorem ids_diagram : (RepoFacts.ofModules root files ms).diagram.nodes.map (·.id) =
    ms.map (·.module) ++ (packageKeys ms).map packageId := by
  rw [nodes_diagram, List.map_append, List.map_map, List.map_map]
  rfl

theorem nodup_ids_packages : ((packageKeys ms).map packageId).Nodup :=
  (nodup_packageKeys ms).map packageId_injective

/-- Of different ids of modules none may be that of a package. -/
theorem nodup_ids_iff {ms : List ModuleFacts} (hnames : (ms.map (·.module)).Nodup) :
    ((RepoFacts.ofModules root files ms).diagram.nodes.map (·.id)).Nodup ↔
      ∀ m ∈ ms, ∀ m' ∈ ms, packageName m'.module ≠ "" →
        m.module ≠ packageId (packageName m'.module) := by
  rw [ids_diagram, List.nodup_append]
  constructor
  · rintro ⟨-, -, hapart⟩ m hm m' hm' hne
    exact hapart _ (List.mem_map_of_mem hm) _
      (List.mem_map_of_mem (mem_packageKeys.mpr ⟨hne, m', hm', rfl⟩))
  · intro h
    refine ⟨hnames, nodup_ids_packages ms, fun a ha b hb => ?_⟩
    obtain ⟨m, hm, rfl⟩ := List.mem_map.mp ha
    obtain ⟨key, hkey, rfl⟩ := List.mem_map.mp hb
    obtain ⟨hne, m', hm', rfl⟩ := mem_packageKeys.mp hkey
    exact h m hm m' hm' hne

end CodeAtlas.Facts

namespace CodeAtlas

open CodeAtlas.Facts CodeAtlas.Source

-- nothing below looks into a text
attribute [local irreducible] extract

/-- In the diagram of an analysis no edge leads nowhere, imports join modules, each module
inside a package is contained in it once for each time it occurs and the others in none,
and the nodes are counted right. -/
theorem diagram_closed (root : String) (files : List FileFacts) (units : List SourceUnit) :
    (analyze root files units).report.facts.diagram.Closed
      (analyze root files units).report.facts.modules := by
  rw [facts_analyze]
  exact closed_diagram root files _

/-- The modules of an analysis have names of its units, in their order. -/
theorem module_names_sublist (root : String) (files : List FileFacts) (units : List SourceUnit) :
    ((analyze root files units).report.facts.modules.map (·.module)).Sublist
      (units.map (·.module)) := by
  have hmodules : (analyze root files units).report.facts.modules.map (·.module) =
      (parsable units).map (·.module) := by
    rw [facts_analyze, ← map_module_parsed]
    exact List.map_map
  rw [hmodules]
  exact List.filter_sublist.map _

/-- Units with different names have nodes with different ids, and so have packages. A module
and a package share an id exactly if the module bears the name of a package of the analysis
with the mark for packages before it. -/
theorem node_ids_distinct_iff {units : List SourceUnit} (hnames : (units.map (·.module)).Nodup)
    (root : String) (files : List FileFacts) :
    (((analyze root files units).report.facts.diagram.nodes.filter (·.isModule)).map
      (·.id)).Nodup ∧
    (((analyze root files units).report.facts.diagram.nodes.filter (!·.isModule)).map
      (·.id)).Nodup ∧
    (((analyze root files units).report.facts.diagram.nodes.map (·.id)).Nodup ↔
      ∀ m ∈ (analyze root files units).report.facts.modules,
        ∀ m' ∈ (analyze root files units).report.facts.modules, packageName m'.module ≠ "" →
          m.module ≠ packageId (packageName m'.module)) := by
  have hmodules := hnames.sublist (module_names_sublist root files units)
  rw [facts_analyze] at hmodules ⊢
  rw [ids_modules, ids_packages]
  exact ⟨hmodules, nodup_ids_packages _, nodup_ids_iff root files hmodules⟩

/-- A package with the name of a module, and a module with the mark for packages. -/
def alikeUnits : List SourceUnit :=
  [⟨"a", "a/__init__.py", ""⟩, ⟨"a.b", "a/b.py", ""⟩, ⟨"pkg_c", "pkg_c.py", ""⟩]

theorem node_ids_distinct_alikeUnits : (alikeUnits.map (·.module)).Nodup ∧
    ((analyze "/r" [] alikeUnits).report.facts.diagram.nodes.map (·.id)).Nodup := by
  have hnames : (alikeUnits.map (·.module)).Nodup := by decide
  refine ⟨hnames, (node_ids_distinct_iff hnames "/r" []).2.2.mpr ?_⟩
  have happart : ∀ name ∈ alikeUnits.map (·.module), ∀ name' ∈ alikeUnits.map (·.module),
      packageName name' ≠ "" → name ≠ packageId (packageName name') := by
    decide +kernel
  have hunit : ∀ m ∈ (analyze "/r" [] alikeUnits).report.facts.modules,
      m.module ∈ alikeUnits.map (·.module) := fun m hm =>
    (module_names_sublist "/r" [] alikeUnits).subset (List.mem_map_of_mem hm)
  exact fun m hm m' hm' => happart _ (hunit m hm) _ (hunit m' hm')

end CodeAtlas
