import CodeAtlas.Proofs.Spans
import CodeAtlas.Proofs.UnitOrder
import Mathlib.Algebra.GroupWithZero.Nat

/-!
# Every declaration is a name or a collision

The declarations of a module are its classes, its methods and its functions, sorted by their
first lines, and the sort keeps the order of those that share one
(`ModuleFacts.filter_startLine_declarations`). A table of modules enters all of them, so its
names and its collisions add up to the numbers of classes, methods and functions
(`size_add_collisions_eq_sum`). An analysis has a node for each name of its table
(`nodeCount_analyze`), so its nodes and its collisions add up to the same.
-/

namespace CodeAtlas

open CodeAtlas.Facts CodeAtlas.Graph CodeAtlas.Source

/-! ## The declarations of a module -/

namespace Facts.ModuleFacts

variable (m : ModuleFacts)

/-- A module declares its classes, their methods under qualified names, and its functions. -/
theorem declarations_perm_parts : m.declarations.Perm
    (m.classes.map m.classDeclaration ++
      m.classes.flatMap (fun c => c.methods.map (m.methodDeclaration c)) ++
      m.ofFunctions .function (·.name) m.functions) := by
  refine m.declarations_perm.trans (List.Perm.append_right _ ?_)
  exact (List.map_append_flatMap_perm m.classes m.classDeclaration
    fun c => c.methods.map (m.methodDeclaration c)).symm

theorem length_declarations : m.declarations.length = m.declarationCount := by
  rw [m.declarations_perm_parts.length_eq, declarationCount]
  simp only [ofFunctions, List.length_append, List.length_map, List.length_flatMap]

theorem pairwise_startLine_declarations :
    m.declarations.Pairwise fun d e => d.startLine ≤ e.startLine :=
  pairwise_mergeSort_key (·.startLine) m.unsortedDeclarations

/-- Declarations that start on one line stay as they were. -/
theorem filter_startLine_declarations (line : Nat) :
    (m.declarations.filter fun d => d.startLine == line) =
      m.unsortedDeclarations.filter fun d => d.startLine == line :=
  keyed_mergeSort Declaration.startLine line m.unsortedDeclarations

end Facts.ModuleFacts

/-! ## Names and collisions -/

namespace Graph

theorem SymbolTable.size_add_collisions_eq_sum (ms : List ModuleFacts) :
    (ofModules ms).size + (ofModules ms).collisions = (ms.map (·.declarationCount)).sum := by
  rw [size_add_collisions, List.length_flatMap]
  simp only [ModuleFacts.length_declarations]

/-- A graph with the names of a table has as many nodes as the table has names. -/
theorem nodeCount_eq_size {g : CallGraph} {table : SymbolTable}
    (h : ∀ name, g.contains name = table.contains name) : g.nodeCount = table.size := by
  have hkeys : g.nodes.keys.Perm table.entries.keys := by
    rw [List.perm_ext_iff_of_nodup Std.ExtTreeMap.nodup_keys Std.ExtTreeMap.nodup_keys]
    intro name
    rw [Std.ExtTreeMap.mem_keys, Std.ExtTreeMap.mem_keys, ← Std.ExtTreeMap.contains_iff_mem,
      ← Std.ExtTreeMap.contains_iff_mem]
    exact Bool.eq_iff_iff.mp (h name)
  rw [CallGraph.nodeCount, SymbolTable.size, ← Std.ExtTreeMap.length_keys, hkeys.length_eq,
    Std.ExtTreeMap.length_keys]

end Graph

-- nothing below looks into a text
attribute [local irreducible] extract

theorem nodeCount_analyze (root : String) (files : List FileFacts) (units : List SourceUnit) :
    (analyze root files units).graph.nodeCount = (analyze root files units).symbols.size :=
  nodeCount_eq_size (contains_analyze root files units)

/-- A table of modules has a name or a collision for each class, method and function, and its
entry for a name is that of the last declaration of it. The declarations of a module are its
classes, its methods under the names of their classes, and its functions, by their first lines;
those that share one stay in the order of the facts. In an analysis the collisions and the
nodes of the graph add up to the declarations of the units that are accepted. -/
theorem declarations_all_counted :
    (∀ ms : List ModuleFacts,
      (SymbolTable.ofModules ms).size + (SymbolTable.ofModules ms).collisions =
        (ms.map (·.declarationCount)).sum ∧
      ∀ name, (SymbolTable.ofModules ms).get? name =
        (lastNamed (ms.flatMap (·.declarations)) name).map .ofDeclaration) ∧
    (∀ m : ModuleFacts,
      m.declarations.Perm (m.classes.map m.classDeclaration ++
        m.classes.flatMap (fun c => c.methods.map (m.methodDeclaration c)) ++
        m.ofFunctions .function (·.name) m.functions) ∧
      (m.declarations.Pairwise fun d e => d.startLine ≤ e.startLine) ∧
      ∀ line, (m.declarations.filter fun d => d.startLine == line) =
        m.unsortedDeclarations.filter fun d => d.startLine == line) ∧
    ∀ (root : String) (files : List FileFacts) (units : List SourceUnit),
      (analyze root files units).report.diagnostics.symbolCollisions +
        (analyze root files units).graph.nodeCount =
          ((parsed units).map (·.facts.declarationCount)).sum := by
  refine ⟨fun ms => ⟨SymbolTable.size_add_collisions_eq_sum ms, SymbolTable.get?_ofModules ms⟩,
    fun m => ⟨m.declarations_perm_parts, m.pairwise_startLine_declarations,
      m.filter_startLine_declarations⟩, fun root files units => ?_⟩
  have hcount := SymbolTable.size_add_collisions_eq_sum ((parsed units).map (·.facts))
  rw [nodeCount_analyze, symbols_analyze, diagnostics_analyze, Nat.add_comm, hcount, List.map_map]
  rfl

end CodeAtlas
