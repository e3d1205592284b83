import CodeAtlas.Proofs.RecentMap
import CodeAtlas.Proofs.Scan

/-!
# What a cache remembers of its calls

A cache is used by calls, one after the other and each with the files as it finds them,
and it may be cleared. Which analyses it keeps depends on nothing but the keys that
successful calls have used since it was last cleared (`usedKeys`) : it keeps those of the
keys used most recently, up to its capacity and in the order of their last uses
(`Remembers`). So a call finds an analysis exactly if its key is one of these, and else
makes a new one (`finds_recent_keys`).
-/

namespace CodeAtlas.CacheHistory

open CodeAtlas.Tree

-- what an analysis finds does not matter here
attribute [local irreducible] analyzeScanned

/-! ## Operations -/

/-- What is done to a cache. A call has the tree and the settings as it finds them. -/
inductive Operation where
  | call (t : Tree) (s : ScanSettings) (path : Path)
  | clear

/-- A cache, and the analyses that its calls have returned so far, the latest first. -/
structure Served where
  cache : AnalysisCache
  returned : List Computed := []

namespace Operation

/-- Do an operation. -/
def apply (c : Served) : Operation → Served
  | call t s path =>
    let (result, cache) := c.cache.getOrAnalyze t s path
    ⟨cache, result.toOption.toList ++ c.returned⟩
  | clear => { c with cache := c.cache.clear }

/-- The keys used so far, the latest first, after an operation : a call without a root
uses none. -/
def use (uses : List CacheKey) : Operation → List CacheKey
  | call t s path => (t.scan? s path).toOption.elim uses fun n => n.key :: uses
  | clear => []

end Operation

/-- Operations on an empty cache. -/
def serve (cs : CacheSettings) (ops : List Operation) : Served :=
  ops.foldl Operation.apply ⟨.new cs, []⟩

/-- The keys of the successful calls since the cache was last cleared, the latest first. -/
def usedKeys (ops : List Operation) : List CacheKey := ops.foldl Operation.use []

/-! ## The invariant -/

/-- The cache keeps the keys used most recently, in the order of their last uses, and
nothing that was not returned; what was returned has a number of its own. -/
structure Remembers (capacity : Nat) (uses : List CacheKey) (c : Served) : Prop where
  capacity_eq : c.cache.kept.capacity = capacity
  keys_eq : c.cache.kept.keys = RecentMap.recent capacity uses
  returned : ∀ e ∈ c.cache.kept.entries, e.2 ∈ c.returned
  number_lt : ∀ found ∈ c.returned, found.number < c.cache.made

namespace Remembers

variable {capacity : Nat} {uses : List CacheKey} {c : Served} {t : Tree} {s : ScanSettings}
  {path : Path} {n : Scan}

theorem start (cs : CacheSettings) : Remembers (max 1 cs.maxEntries) [] ⟨.new cs, []⟩ where
  capacity_eq := rfl
  keys_eq := (RecentMap.recent_nil _).symm
  returned _ he := nomatch he
  number_lt _ he := nomatch he

/-- A call with a recent key gets what is kept under it. -/
theorem hit (h : Remembers capacity uses c) (hscan : t.scan? s path = .ok n)
    (hkey : n.key ∈ RecentMap.recent capacity uses) :
    ∃ found kept, c.cache.kept.get? n.key = some (found, kept) ∧
      c.cache.getOrAnalyze t s path = (.ok found, { c.cache with kept }) := by
  rw [← h.keys_eq] at hkey
  cases hget : c.cache.kept.get? n.key with
  | none => exact absurd hkey (RecentMap.get?_eq_none_iff.mp hget)
  | some e => exact ⟨e.1, e.2, rfl, AnalysisCache.getOrAnalyze_of_hit hscan hget⟩

/-- A call with any other key makes an analysis and keeps it. -/
theorem miss (h : Remembers capacity uses c) (hscan : t.scan? s path = .ok n)
    (hkey : n.key ∉ RecentMap.recent capacity uses) :
    c.cache.getOrAnalyze t s path =
      (c.cache.insert n.key (analyzeScanned t n.root n.files)).map .ok id := by
  rw [← h.keys_eq] at hkey
  exact AnalysisCache.getOrAnalyze_of_miss hscan (RecentMap.get?_eq_none_iff.mpr hkey)

/-- What is found becomes the most recent one. -/
theorem found {found : Computed} {kept : RecentMap CacheKey Computed} {key : CacheKey}
    (h : Remembers capacity uses c) (hget : c.cache.kept.get? key = some (found, kept)) :
    Remembers capacity (key :: uses) ⟨{ c.cache with kept }, found :: c.returned⟩ := by
  obtain ⟨hmem, rfl⟩ := RecentMap.get?_eq_some hget
  have hkey : key ∈ c.cache.kept.keys := List.mem_map.mpr ⟨_, hmem, rfl⟩
  have hreturned := h.returned _ hmem
  refine ⟨h.capacity_eq, ?_, fun e he => ?_, fun r hr => ?_⟩
  · rw [h.keys_eq] at hkey
    rw [RecentMap.keys_get? hget, h.keys_eq, RecentMap.recent_cons_of_mem hkey]
  · rcases List.mem_cons.mp he with rfl | he
    · exact List.mem_cons_self
    · exact List.mem_cons_of_mem _ (h.returned e (RecentMap.mem_others.mp he).1)
  · rcases List.mem_cons.mp hr with rfl | hr
    · exact h.number_lt _ hreturned
    · exact h.number_lt r hr

/-- What is made becomes the most recent one, and has a new number. -/
theorem made (h : Remembers capacity uses c) (key : CacheKey) (a : Analysis) :
    Remembers capacity (key :: uses)
      ⟨(c.cache.insert key a).2, (c.cache.insert key a).1 :: c.returned⟩ := by
  refine ⟨h.capacity_eq, ?_, fun e he => ?_, fun r hr => ?_⟩
  · rw [← RecentMap.recent_cons, ← h.keys_eq, ← h.capacity_eq]
    exact RecentMap.keys_put _ _ _
  · rcases List.mem_cons.mp (List.mem_of_mem_take he) with rfl | he
    · exact List.mem_cons_self
    · exact List.mem_cons_of_mem _ (h.returned e (RecentMap.mem_others.mp he).1)
  · rcases List.mem_cons.mp hr with rfl | hr
    · exact Nat.lt_succ_self _
    · exact Nat.lt_succ_of_lt (h.number_lt r hr)

theorem clear (h : Remembers capacity uses c) :
    Remembers capacity [] { c with cache := c.cache.clear } where
  capacity_eq := h.capacity_eq
  keys_eq := (RecentMap.recent_nil _).symm
  returned _ he := nomatch he
  number_lt := h.number_lt

/-- Each operation keeps the invariant. -/
theorem apply (h : Remembers capacity uses c) (op : Operation) :
    Remembers capacity (op.use uses) (op.apply c) := by
  cases op with
  | clear => exact h.clear
  | call t s path =>
    cases hscan : t.scan? s path with
    | error e =>
      simp only [Operation.use, Operation.apply, hscan, AnalysisCache.getOrAnalyze_of_error hscan]
      exact h
    | ok n =>
      by_cases hkey : n.key ∈ RecentMap.recent capacity uses
      · obtain ⟨found, kept, hget, hcall⟩ := h.hit hscan hkey
        simp only [Operation.use, Operation.apply, hscan, hcall]
        exact h.found hget
      · simp only [Operation.use, Operation.apply, hscan, h.miss hscan hkey]
        exact h.made n.key _

/-- Every run of operations keeps it. -/
theorem foldl_apply (h : Remembers capacity uses c) (ops : List Operation) :
    Remembers capacity (ops.foldl Operation.use uses) (ops.foldl Operation.apply c) := by
  induction ops generalizing uses c with
  | nil => exact h
  | cons op ops ih => exact ih (h.apply op)

theorem of_serve (cs : CacheSettings) (ops : List Operation) :
    Remembers (max 1 cs.maxEntries) (usedKeys ops) (serve cs ops) :=
  (start cs).foldl_apply ops

end Remembers

/-! ## What a call finds -/

/-- After any operations, a call returns what an earlier one has returned exactly if its
key is among the keys used most recently, as many as the cache has room for : then it is
what the cache keeps under the key, and else a new analysis, which is kept. The cache keeps
these keys and no others, in the order of their last uses, and a call that fails changes
nothing. -/
theorem finds_recent_keys (cs : CacheSettings) (ops : List Operation) :
    let capacity := max 1 cs.maxEntries
    let recent := (usedKeys ops).eraseDups.take capacity
    let before := serve cs ops
    (∀ t s path n, t.scan? s path = .ok n → ∃ found after,
      before.cache.getOrAnalyze t s path = (.ok found, after) ∧
      (found ∈ before.returned ↔ n.key ∈ recent) ∧
      (n.key ∈ recent → (n.key, found) ∈ before.cache.kept.entries ∧
        after.made = before.cache.made) ∧
      (n.key ∉ recent → found = ⟨before.cache.made, analyzeScanned t n.root n.files⟩ ∧
        after.made = before.cache.made + 1) ∧
      after.kept.entries.head? = some (n.key, found)) ∧
    (∀ t s path e, t.scan? s path = .error e →
      before.cache.getOrAnalyze t s path = (.error e, before.cache)) ∧
    before.cache.kept.entries.map (·.1) = recent ∧
    before.cache.kept.size = min capacity (usedKeys ops).eraseDups.length := by
  intro capacity recent before
  have h : Remembers capacity (usedKeys ops) before := Remembers.of_serve cs ops
  refine ⟨fun t s path n hscan => ?_,
    fun t s path e hscan => AnalysisCache.getOrAnalyze_of_error hscan, h.keys_eq, ?_⟩
  · by_cases hkey : n.key ∈ recent
    · obtain ⟨found, kept, hget, hcall⟩ := h.hit hscan hkey
      obtain ⟨hmem, hkept⟩ := RecentMap.get?_eq_some hget
      refine ⟨found, _, hcall, iff_of_true (h.returned _ hmem) hkey, fun _ => ⟨hmem, rfl⟩,
        fun hold => absurd hkey hold, ?_⟩
      rw [hkept, List.head?_cons]
    · refine ⟨_, _, h.miss hscan hkey, iff_of_false (fun hmem => ?_) hkey,
        fun hnew => absurd hnew hkey, fun _ => ⟨rfl, rfl⟩, ?_⟩
      · exact Nat.lt_irrefl _ (h.number_lt _ hmem)
      · exact RecentMap.head?_put (h.capacity_eq ▸ Nat.le_max_left 1 _) _ _
  · rw [← RecentMap.length_recent, ← h.keys_eq, RecentMap.length_keys]

end CodeAtlas.CacheHistory
