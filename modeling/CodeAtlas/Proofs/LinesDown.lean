import CodeAtlas.Proofs.OwnNames

/-!
# Graphs further down

What a graph says of a module does not depend on where in its file the module stands. If all
lines of its facts and calls are `k` further down, so are those of its declarations, which stay
in their order (`declarations_down`), and every call has the same owner as before
(`nearest?_down`). The graph of the module alone then has the same edges and the same nodes,
with their lines `k` further down (`edges_unitGraph_down`, `node?_unitGraph_down`).
-/

namespace CodeAtlas.Facts

/-! ## Facts with other lines -/

/-- A function that is `k` lines further down. -/
def FunctionFacts.down (f : FunctionFacts) (k : Nat) : FunctionFacts :=
  { f with startLine := f.startLine + k, endLine := f.endLine + k }

/-- A class that is `k` lines further down, with its methods. -/
def ClassFacts.down (c : ClassFacts) (k : Nat) : ClassFacts :=
  { c with
    methods := c.methods.map (·.down k)
    startLine := c.startLine + k
    endLine := c.endLine + k }

/-- The facts of a module that is `k` lines further down. -/
def ModuleFacts.down (m : ModuleFacts) (k : Nat) : ModuleFacts :=
  { m with classes := m.classes.map (·.down k), functions := m.functions.map (·.down k) }

/-- A call that is `k` lines further down. -/
def CallSite.down (s : CallSite) (k : Nat) : CallSite := { s with line := s.line + k }

/-- A module and its calls, `k` lines further down. -/
def ExtractedUnit.down (u : ExtractedUnit) (k : Nat) : ExtractedUnit :=
  ⟨u.facts.down k, u.sites.map (·.down k)⟩

/-- A declaration that is `k` lines further down. -/
def Declaration.down (d : Declaration) (k : Nat) : Declaration :=
  { d with startLine := d.startLine + k, endLine := d.endLine + k }

namespace ModuleFacts

variable (m : ModuleFacts) (k : Nat)

theorem ofClass_down (c : ClassFacts) :
    (m.down k).ofClass (c.down k) = (m.ofClass c).map (·.down k) := by
  simp only [ofClass, ClassFacts.down, List.map_cons, List.map_map]
  rfl

theorem unsortedDeclarations_down :
    (m.down k).unsortedDeclarations = m.unsortedDeclarations.map (·.down k) := by
  simp only [unsortedDeclarations, List.map_append, List.map_flatMap, ← ofClass_down]
  simp only [down, List.flatMap_map, List.map_map]
  rfl

/-- The declarations keep their order. -/
theorem declarations_down : (m.down k).declarations = m.declarations.map (·.down k) := by
  rw [declarations, unsortedDeclarations_down, declarations]
  refine (List.map_mergeSort fun d _ e _ => ?_).symm
  simp [Declaration.down]

end ModuleFacts

end CodeAtlas.Facts

namespace CodeAtlas.Graph

open CodeAtlas.Facts CallGraph

/-- A node of the graph whose declaration is `k` lines further down. -/
def CallNode.down (n : CallNode) (k : Nat) : CallNode := { n with line := n.line + k }

/-! ## Owners -/

/-- A declaration further down, in its place. -/
def Placed.down (a : Placed) (k : Nat) : Placed := (a.1.down k, a.2)

theorem Placed.nearer_down {a b : Placed} {k : Nat} :
    (a.down k).Nearer (b.down k) ↔ a.Nearer b := by
  simp [Nearer, Placed.down, Declaration.down]

theorem around_down (ds : List Declaration) (line k : Nat) :
    around (ds.map (·.down k)) (line + k) = (around ds line).map (·.down k) := by
  rw [around, List.zipIdx_map, List.filter_map, around]
  congr 1
  refine List.filter_congr fun d _ => ?_
  simp [Declaration.containsLine, Declaration.down]

/-- A line belongs to the same declaration. -/
theorem nearest?_down (ds : List Declaration) (line k : Nat) :
    nearest? (ds.map (·.down k)) (line + k) = (nearest? ds line).map (·.down k) := by
  rw [nearest?, around_down, List.find?_map, nearest?]
  congr 2
  funext a
  simp [List.all_map, Function.comp_def, Placed.nearer_down]

theorem siteEdge?_down (known : String → Bool) (facts : ModuleFacts) (s : CallSite) (k : Nat) :
    siteEdge? known (facts.down k) (s.down k) = siteEdge? known facts s := by
  rw [siteEdge?, siteEdge?, ModuleFacts.declarations_down]
  simp only [CallSite.down, nearest?_down, Option.map_map]
  rfl

/-! ## The graph of a module -/

theorem lastNamed_down (ds : List Declaration) (name : String) (k : Nat) :
    lastNamed (ds.map (·.down k)) name = (lastNamed ds name).map (·.down k) := by
  rw [lastNamed, ← List.map_reverse, List.find?_map]
  rfl

theorem label?_unitGraph_down (u : ExtractedUnit) (k : Nat) (name : String) :
    (unitGraph (u.down k)).label? name = ((unitGraph u).label? name).map (·.down k) := by
  rw [label?_unitGraph, label?_unitGraph, Option.map_map]
  simp only [ExtractedUnit.down, ModuleFacts.declarations_down, lastNamed_down, Option.map_map]
  rfl

theorem edges_unitGraph_down (u : ExtractedUnit) (k : Nat) :
    (unitGraph (u.down k)).edges = (unitGraph u).edges := by
  have hknown : knows ∅ (u.facts.down k) = knows ∅ u.facts := by
    funext name
    rw [Bool.eq_iff_iff, knows, knows, Bool.or_eq_true, Bool.or_eq_true, contains_declared,
      contains_declared, ModuleFacts.declarations_down]
    simp [Declaration.down]
  rw [unitGraph_eq_fragment_empty, unitGraph_eq_fragment_empty, edges_fragment, edges_fragment]
  simp only [ExtractedUnit.down, hknown, List.filterMap_map]
  exact List.filterMap_congr fun s _ => siteEdge?_down _ u.facts s k

theorem consistent_unitGraph (u : ExtractedUnit) : (unitGraph u).Consistent :=
  (fragment_spec _ u.facts u.sites).1.consistent

/-- The nodes have the same calls and callers. -/
theorem node?_unitGraph_down (u : ExtractedUnit) (k : Nat) (name : String) :
    (unitGraph (u.down k)).node? name = ((unitGraph u).node? name).map (·.down k) := by
  rw [(consistent_unitGraph _).node?_eq, (consistent_unitGraph u).node?_eq,
    label?_unitGraph_down, edges_unitGraph_down, Option.map_map, Option.map_map]
  rfl

end CodeAtlas.Graph
