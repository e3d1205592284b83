import CodeAtlas.Proofs.CallGraph
import CodeAtlas.Proofs.Reachable

/-!
# Paths of a graph and distances along them

A path lists nodes of which each is joined to the next by an edge (`CallGraph.IsPath`), and
the distance of a name is the number of edges of a shortest path to it
(`CallGraph.IsDistance`). The queries do not look at edges : they follow the callees that
each node lists. In a consistent graph both are the same, so the chains of calls are the
paths read backwards (`isPath_reverse_iff`) and what `reachable` records are distances in
this sense too (`reachable_records_distances`).
-/

namespace CodeAtlas.Graph.CallGraph

/-- The nodes of a way through the graph, each joined to the next by an edge. -/
structure IsPath (g : CallGraph) (start target : String) (p : List String) : Prop where
  nodes : ∀ v ∈ p, g.contains v
  joined : p.IsChain fun a b => ⟨a, b⟩ ∈ g.edges
  first : p.head? = some start
  last : p.getLast? = some target

/-- The number of edges of a shortest path; a path has one node more than edges. -/
def IsDistance (g : CallGraph) (start target : String) (d : Nat) : Prop :=
  (∃ p, g.IsPath start target p ∧ p.length = d + 1) ∧
    ∀ p, g.IsPath start target p → d + 1 ≤ p.length

namespace IsPath

variable {g : CallGraph} {start target : String} {p : List String}

theorem contains_first (h : g.IsPath start target p) : g.contains start :=
  h.nodes start (List.mem_of_mem_head? h.first)

theorem contains_last (h : g.IsPath start target p) : g.contains target :=
  h.nodes target (List.mem_of_mem_getLast? h.last)

/-- A path is not empty, and backwards it begins with its last node. -/
theorem exists_reverse_eq_cons (h : g.IsPath start target p) :
    ∃ q, p = (target :: q).reverse := by
  obtain ⟨q, rfl⟩ := List.getLast?_eq_some_iff.mp h.last
  exact ⟨q.reverse, by simp⟩

end IsPath

theorem isPath_single {g : CallGraph} {v : String} (h : g.contains v) : g.IsPath v v [v] where
  nodes u hu := by rwa [List.mem_singleton.mp hu]
  joined := List.isChain_singleton v
  first := rfl
  last := rfl

end CodeAtlas.Graph.CallGraph

namespace CodeAtlas.Query

open CodeAtlas.Graph

variable {g : CallGraph} {start : String}

/-! ## Chains of calls are paths -/

theorem Walk.contains_of_mem (hg : g.Consistent) (hstart : g.contains start) {p : List String}
    (h : Walk g start p) {v : String} (hv : v ∈ p) : g.contains v := by
  induction h with
  | single => rwa [List.mem_singleton.mp hv]
  | step _ hb ih =>
    rcases List.mem_cons.mp hv with rfl | hv
    · exact hg.contains_of_mem_callees hb
    · exact ih hv

/-- Chains of calls are the paths of the graph, the last node first. -/
theorem isPath_reverse_iff (hg : g.Consistent) (hstart : g.contains start) {v : String}
    {q : List String} : g.IsPath start v (v :: q).reverse ↔ Walk g start (v :: q) := by
  have hcall : ∀ {a b}, b ∈ g.callees a ↔ ⟨a, b⟩ ∈ g.edges := by
    intro a b
    rw [hg.callees_eq, mem_calleesIn]
  constructor
  · intro h
    have hchain := (List.isChain_reverse.mp h.joined).imp fun _ _ he => hcall.mpr he
    exact walk_iff_isChain.mpr ⟨hchain, List.head?_reverse.symm.trans h.first⟩
  · intro h
    obtain ⟨hchain, hfirst⟩ := walk_iff_isChain.mp h
    refine ⟨fun u hu => h.contains_of_mem hg hstart (List.mem_reverse.mp hu),
      List.isChain_reverse.mpr (hchain.imp fun _ _ hb => hcall.mp hb),
      List.head?_reverse.trans hfirst, ?_⟩
    rw [List.getLast?_reverse, List.head?_cons]

theorem Steps.exists_walk {n : Nat} {v : String} (h : Steps g start n v) :
    ∃ q, Walk g start (v :: q) ∧ q.length = n := by
  induction h with
  | zero => exact ⟨[], Walk.single, rfl⟩
  | succ _ hcall ih =>
    obtain ⟨q, hq, hlen⟩ := ih
    exact ⟨_ :: q, hq.step hcall, by simp [hlen]⟩

/-- A name is met after so many calls as a path to it has edges. -/
theorem exists_isPath_iff_steps (hg : g.Consistent) (hstart : g.contains start) {n : Nat}
    {v : String} : (∃ p, g.IsPath start v p ∧ p.length = n + 1) ↔ Steps g start n v := by
  constructor
  · rintro ⟨p, hp, hlen⟩
    obtain ⟨q, rfl⟩ := hp.exists_reverse_eq_cons
    obtain rfl : q.length = n := by simpa using hlen
    exact ((isPath_reverse_iff hg hstart).mp hp).steps
  · intro h
    obtain ⟨q, hq, rfl⟩ := h.exists_walk
    exact ⟨_, (isPath_reverse_iff hg hstart).mpr hq, by simp⟩

theorem isDistance_iff_isDist (hg : g.Consistent) (hstart : g.contains start) {n : Nat}
    {v : String} : g.IsDistance start v n ↔ IsDist g start n v := by
  refine and_congr (exists_isPath_iff_steps hg hstart) ⟨fun h j hj => ?_, fun h p hp => ?_⟩
  · obtain ⟨p, hp, hlen⟩ := (exists_isPath_iff_steps hg hstart).mpr hj
    have := h p hp
    omega
  · obtain ⟨q, rfl⟩ := hp.exists_reverse_eq_cons
    have := h _ ((isPath_reverse_iff hg hstart).mp hp).steps
    simpa using this

/-! ## Names within reach -/

/-- What is recorded are distances up to the greatest depth, wherever the cap stops the
search. All that is nearer than something recorded is recorded, and what is near enough is
missing only if the cap is reached. -/
theorem reachable_records_distances (hg : g.Built) (start : String) (maxDepth : Nat) :
    (∀ (v : String) (d : Nat), (reachable g start maxDepth)[v]? = some d →
      g.IsDistance start v d ∧ d ≤ maxDepth) ∧
    (∀ (v : String) (d : Nat), (reachable g start maxDepth)[v]? = some d →
      ∀ u k, g.IsDistance start u k → k < d → (reachable g start maxDepth)[u]? = some k) ∧
    ∀ v k, g.IsDistance start v k → k ≤ maxDepth → v ∉ reachable g start maxDepth →
      reachCap ≤ (reachable g start maxDepth).size := by
  by_cases hstart : g.contains start
  · have hdistance : ∀ {v k}, g.IsDistance start v k ↔ IsDist g start k v :=
      isDistance_iff_isDist hg.consistent hstart
    have hcharted := charted_reachable hstart maxDepth
    refine ⟨fun v d hv => ?_, fun v d hv u k hu hlt => ?_, fun v k hv hk hmissing => ?_⟩
    · obtain ⟨hle, hdist⟩ := hcharted.sound hv
      exact ⟨hdistance.mpr hdist, hle⟩
    · have hdist := hdistance.mp hu
      have hmem := gapless_reachable hstart maxDepth v d hv u k hlt hdist.1
      obtain ⟨j, hj⟩ := Option.isSome_iff_exists.mp (Std.ExtTreeMap.mem_iff_isSome_getElem?.mp hmem)
      rwa [(hcharted.sound hj).2.unique hdist] at hj
    · by_contra hroom
      exact hmissing (hcharted.complete (Nat.lt_of_not_le hroom) v k hk (hdistance.mp hv).1)
  · have hempty : reachable g start maxDepth = ∅ := by simp [reachable, hstart]
    refine ⟨fun v d hv => ?_, fun v d hv => ?_, fun v k hv => ?_⟩
    · simp [hempty] at hv
    · simp [hempty] at hv
    · obtain ⟨⟨p, hp, -⟩, -⟩ := hv
      exact absurd hp.contains_first hstart

/-- A cycle with a loop and a call made twice, searched two calls deep : the third name has
distance 2, and the fourth one is too far away. -/
theorem reachable_records_distances_cycle :
    let node (id : String) : CallNode := ⟨id, .function, "m", 1, [], []⟩
    let nodes := ((((∅ : CallGraph).addNode (node "a")).addNode (node "b")).addNode
      (node "c")).addNode (node "d")
    let cycle := (((nodes.addEdge ⟨"a", "a"⟩).addEdge ⟨"a", "b"⟩).addEdge ⟨"a", "b"⟩).addEdge
      ⟨"b", "a"⟩
    let g := (cycle.addEdge ⟨"b", "c"⟩).addEdge ⟨"c", "d"⟩
    g.Built ∧ (reachable g "a" 2)["c"]? = some 2 ∧ g.IsDistance "a" "c" 2 ∧
      (∀ u, g.IsDistance "a" u 1 → (reachable g "a" 2)[u]? = some 1) ∧
      ∀ k, g.IsDistance "a" "d" k → 2 < k := by
  intro node nodes cycle g
  have hnodes : nodes.Built := (((CallGraph.Built.empty.addNode _).addNode _).addNode _).addNode _
  have hg : g.Built := (((((hnodes.addEdge _).addEdge _).addEdge _).addEdge _).addEdge _).addEdge _
  have hc : (reachable g "a" 2)["c"]? = some 2 := by decide
  have hd : "d" ∉ reachable g "a" 2 := by decide
  have hsize : (reachable g "a" 2).size < reachCap := by decide
  obtain ⟨hsound, hlevels, hmissing⟩ := reachable_records_distances hg "a" 2
  have hnear : ∀ u, g.IsDistance "a" u 1 → (reachable g "a" 2)[u]? = some 1 := by
    intro u hu
    exact hlevels "c" 2 hc u 1 hu Nat.one_lt_two
  have hfar : ∀ k, g.IsDistance "a" "d" k → 2 < k := by
    intro k hk
    by_contra hle
    exact Nat.not_le.mpr hsize (hmissing "d" k hk (Nat.le_of_not_lt hle) hd)
  exact ⟨hg, hc, (hsound "c" 2 hc).1, hnear, hfar⟩

end CodeAtlas.Query
