import CodeAtlas.Proofs.Answers
import CodeAtlas.Proofs.RecentMap
import CodeAtlas.Proofs.Scan
import Mathlib.Logic.Function.Basic

/-!
# A cache that many calls share

A call scans its root, asks the cache, and if that does not have the analysis makes it
and puts it there. Asking and putting are one step each, and between the steps of a call
others may take theirs, the cache may be cleared and files may change. `Step` says what
each step does and `Run` chains them, in any order and for any number of calls; a call
that nobody interrupts is `AnalysisCache.getOrAnalyze` (`Run.alone`).

The key of an analysis has the root and the fingerprint of a scan. Where files are read
as their records say and scans of one root with other records have other fingerprints
(`Steady`), every entry is the analysis of each scan that has its key (`Sound`), so every
call returns the analysis of its own scan, whoever made it (`cache_transparent`).
-/

namespace CodeAtlas.Sharing

open CodeAtlas.Service CodeAtlas.Tree

-- what an analysis finds does not matter here
attribute [local irreducible] analyzeScanned

/-! ## Steps -/

/-- How far a call has come. -/
inductive Progress where
  /-- The root is scanned, and the cache not yet asked. -/
  | scanned (scan : Scan)
  /-- The cache did not have the analysis. -/
  | missed (scan : Scan)
  /-- The analysis is made, and not yet put into the cache. -/
  | analyzed (scan : Scan) (analysis : Analysis)
  | returned (result : Except RootError Computed)

/-- A step of a call, or of nobody in particular. A step that looks at files has the
tree as it finds it. -/
inductive Event where
  | scan (call : Nat) (t : Tree) (path : Path)
  | lookup (call : Nat)
  | analyze (call : Nat) (t : Tree)
  | insert (call : Nat)
  | clear

/-- The call that takes a step. -/
def Event.call? : Event → Option Nat
  | scan i _ _ => some i
  | lookup i => some i
  | analyze i _ => some i
  | insert i => some i
  | clear => none

/-- Where a scan leads to : a path that is no root ends the call. -/
def Progress.ofScan : Except RootError Scan → Progress
  | .ok n => scanned n
  | .error e => returned (.error e)

/-- The cache and the calls that have begun. -/
structure SharedCache where
  cache : AnalysisCache
  calls : Nat → Option Progress

namespace SharedCache

/-- A cache that no call has used. -/
def start (cache : AnalysisCache) : SharedCache := ⟨cache, fun _ => none⟩

/-- The calls stay where they are, and the cache is another one. -/
def withCache (c : SharedCache) (cache : AnalysisCache) : SharedCache := { c with cache }

/-- A call has come further. -/
def advance (c : SharedCache) (i : Nat) (p : Progress) : SharedCache :=
  { c with calls := Function.update c.calls i (some p) }

/-- The cache and the calls without one. -/
def forget (c : SharedCache) (i : Nat) : SharedCache :=
  { c with calls := Function.update c.calls i none }

@[simp] theorem cache_advance (c : SharedCache) (i : Nat) (p : Progress) :
    (c.advance i p).cache = c.cache :=
  rfl

@[simp] theorem calls_advance_self (c : SharedCache) (i : Nat) (p : Progress) :
    (c.advance i p).calls i = some p :=
  Function.update_self ..

theorem calls_advance_of_ne (c : SharedCache) {i j : Nat} (h : j ≠ i) (p : Progress) :
    (c.advance i p).calls j = c.calls j :=
  Function.update_of_ne h ..

@[simp] theorem advance_advance (c : SharedCache) (i : Nat) (p q : Progress) :
    (c.advance i p).advance i q = c.advance i q := by
  simp [advance]

@[simp] theorem withCache_advance (c : SharedCache) (i : Nat) (p : Progress)
    (cache : AnalysisCache) : (c.advance i p).withCache cache = (c.withCache cache).advance i p :=
  rfl

theorem calls_forget_of_ne (c : SharedCache) {i j : Nat} (h : j ≠ i) :
    (c.forget i).calls j = c.calls j :=
  Function.update_of_ne h ..

theorem forget_advance_self (c : SharedCache) (i : Nat) (p : Progress) :
    (c.advance i p).forget i = c.forget i := by
  simp [advance, forget]

theorem forget_advance_of_ne (c : SharedCache) {i j : Nat} (h : j ≠ i) (p : Progress) :
    (c.advance j p).forget i = (c.forget i).advance j p := by
  simp only [advance, forget]
  rw [Function.update_comm h]

theorem forget_start (cache : AnalysisCache) (i : Nat) : (start cache).forget i = start cache := by
  simp [start, forget]

end SharedCache

/-- What each step needs and does. -/
inductive Step (s : ScanSettings) : SharedCache → Event → SharedCache → Prop
  | scan {c : SharedCache} {i : Nat} (t : Tree) (path : Path) (hi : c.calls i = none) :
    Step s c (.scan i t path) (c.advance i (.ofScan (t.scan? s path)))
  | hit {c : SharedCache} {i : Nat} {n : Scan} {found : Computed}
    {kept : RecentMap CacheKey Computed} (hi : c.calls i = some (.scanned n))
    (hget : c.cache.kept.get? n.key = some (found, kept)) :
    Step s c (.lookup i) ((c.withCache { c.cache with kept }).advance i (.returned (.ok found)))
  | miss {c : SharedCache} {i : Nat} {n : Scan}
    (hi : c.calls i = some (.scanned n)) (hget : c.cache.kept.get? n.key = none) :
    Step s c (.lookup i) (c.advance i (.missed n))
  | analyze {c : SharedCache} {i : Nat} {n : Scan} (t : Tree) (hi : c.calls i = some (.missed n)) :
    Step s c (.analyze i t) (c.advance i (.analyzed n (analyzeScanned t n.root n.files)))
  | insert {c : SharedCache} {i : Nat} {n : Scan} {a : Analysis}
    (hi : c.calls i = some (.analyzed n a)) :
    Step s c (.insert i)
      ((c.withCache (c.cache.insert n.key a).2).advance i
        (.returned (.ok (c.cache.insert n.key a).1)))
  | clear {c : SharedCache} : Step s c .clear (c.withCache c.cache.clear)

theorem Step.scan_of_ok {s : ScanSettings} {c : SharedCache} {i : Nat} {t : Tree} {path : Path}
    {n : Scan} (hscan : t.scan? s path = .ok n) (hi : c.calls i = none) :
    Step s c (.scan i t path) (c.advance i (.scanned n)) := by
  have hstep : Step s c (.scan i t path) _ := .scan t path hi
  rwa [hscan] at hstep

/-- The steps that lead from an unused cache to a state, in their order. -/
inductive Run (s : ScanSettings) (cache : AnalysisCache) : List Event → SharedCache → Prop
  | start : Run s cache [] (.start cache)
  | next {events : List Event} {c c' : SharedCache} {e : Event} (h : Run s cache events c)
    (hstep : Step s c e c') : Run s cache (events ++ [e]) c'

variable {s : ScanSettings} {reading : Path → FileRecord → Option ByteArray}
  {events : List Event} {c c' : SharedCache} {e : Event} {cache : AnalysisCache}

/-- A call whose steps come one right after the other does what `getOrAnalyze` does. -/
theorem Run.alone (h : Run s cache events c) {i : Nat} (hi : c.calls i = none) (t : Tree)
    (path : Path) : ∃ more, (∀ e ∈ more, e.call? = some i) ∧ Run s cache (events ++ more)
      ((c.withCache (c.cache.getOrAnalyze t s path).2).advance i
        (.returned (c.cache.getOrAnalyze t s path).1)) := by
  have hscan := h.next (Step.scan t path hi)
  cases hr : t.scan? s path with
  | error e =>
    refine ⟨[.scan i t path], by simp [Event.call?], ?_⟩
    rw [hr] at hscan
    rw [AnalysisCache.getOrAnalyze_of_error hr]
    exact hscan
  | ok n =>
    rw [hr] at hscan
    cases hget : c.cache.kept.get? n.key with
    | some found =>
      refine ⟨[.scan i t path, .lookup i], by simp [Event.call?], ?_⟩
      rw [AnalysisCache.getOrAnalyze_of_hit hr hget]
      have hhit := hscan.next (Step.hit (SharedCache.calls_advance_self ..) hget)
      simpa using hhit
    | none =>
      refine ⟨[.scan i t path, .lookup i, .analyze i t, .insert i], by simp [Event.call?], ?_⟩
      rw [AnalysisCache.getOrAnalyze_of_miss hr hget]
      have hmiss := hscan.next (Step.miss (SharedCache.calls_advance_self ..) hget)
      have hinsert := (hmiss.next (Step.analyze t (SharedCache.calls_advance_self ..))).next
        (Step.insert (SharedCache.calls_advance_self ..))
      simpa using hinsert

/-- A call that asks right after the analysis of its scan was put gets it. -/
theorem Run.hit_of_put (h : Run s cache events c) {i : Nat} {n : Scan} {found : Computed}
    {m : RecentMap CacheKey Computed} (hi : c.calls i = some (.scanned n))
    (hkept : c.cache.kept = m.put n.key found) (hcap : 0 < m.capacity) :
    ∃ kept, Run s cache (events ++ [.lookup i])
      ((c.withCache { c.cache with kept }).advance i (.returned (.ok found))) := by
  obtain ⟨kept, hget⟩ := RecentMap.exists_get?_put hcap n.key found
  rw [← hkept] at hget
  exact ⟨kept, h.next (.hit hi hget)⟩

/-! ## Calls that fail -/

theorem Step.forget (h : Step s c e c') {i : Nat} (hi : e.call? ≠ some i) :
    Step s (c.forget i) e (c'.forget i) := by
  -- the call that takes the step is another one
  have hne : ∀ {j}, e.call? = some j → j ≠ i := fun hj hji => hi (hji ▸ hj)
  cases h with
  | scan t path hj =>
    rw [SharedCache.forget_advance_of_ne _ (hne rfl)]
    exact .scan t path ((SharedCache.calls_forget_of_ne _ (hne rfl)).trans hj)
  | hit hj hget =>
    rw [SharedCache.forget_advance_of_ne _ (hne rfl)]
    exact .hit ((SharedCache.calls_forget_of_ne _ (hne rfl)).trans hj) hget
  | miss hj hget =>
    rw [SharedCache.forget_advance_of_ne _ (hne rfl)]
    exact .miss ((SharedCache.calls_forget_of_ne _ (hne rfl)).trans hj) hget
  | analyze t hj =>
    rw [SharedCache.forget_advance_of_ne _ (hne rfl)]
    exact .analyze t ((SharedCache.calls_forget_of_ne _ (hne rfl)).trans hj)
  | insert hj =>
    rw [SharedCache.forget_advance_of_ne _ (hne rfl)]
    exact .insert ((SharedCache.calls_forget_of_ne _ (hne rfl)).trans hj)
  | clear => exact .clear

/-- A call that has not begun or has failed. -/
def SharedCache.Idle (c : SharedCache) (i : Nat) : Prop :=
  ∀ p, c.calls i = some p → ∃ e, p = .returned (.error e)

/-- An idle call can do nothing but begin. -/
theorem Step.scan_of_idle (h : Step s c e c') {i : Nat} (hidle : c.Idle i)
    (hi : e.call? = some i) :
    ∃ t path, e = .scan i t path ∧ c' = c.advance i (.ofScan (t.scan? s path)) := by
  cases h with
  | scan t path hj =>
    obtain rfl := Option.some.inj hi
    exact ⟨t, path, rfl, rfl⟩
  | hit hj _ | miss hj _ | analyze _ hj | insert hj =>
    obtain rfl := Option.some.inj hi
    obtain ⟨_, hp⟩ := hidle _ hj
    cases hp
  | clear => cases hi

theorem Step.calls_of_ne (h : Step s c e c') {i : Nat} (hi : e.call? ≠ some i) :
    c'.calls i = c.calls i := by
  have hne : ∀ {j}, e.call? = some j → i ≠ j := fun hj hij => hi (hij ▸ hj)
  cases h with
  | scan | hit | miss | analyze | insert => exact SharedCache.calls_advance_of_ne _ (hne rfl) _
  | clear => rfl

/-- The others, and the cache, get on in the same way without a call that finds no root. -/
theorem Run.forget (h : Run s cache events c) {i : Nat}
    (hfail : ∀ t path, .scan i t path ∈ events → ∃ e, t.scan? s path = .error e) :
    c.Idle i ∧ Run s cache (events.filter fun e => e.call? ≠ some i) (c.forget i) := by
  induction h with
  | start =>
    rw [SharedCache.forget_start]
    refine ⟨?_, .start⟩
    rintro _ ⟨⟩
  | @next events c c' e h hstep ih =>
    obtain ⟨hidle, hrun⟩ := ih fun t path hmem => hfail t path (List.mem_append_left _ hmem)
    rw [List.filter_append]
    by_cases hi : e.call? = some i
    · obtain ⟨t, path, rfl, rfl⟩ := hstep.scan_of_idle hidle hi
      obtain ⟨err, herr⟩ := hfail t path (by simp)
      rw [herr, SharedCache.forget_advance_self]
      refine ⟨fun p hp => ⟨err, ?_⟩, by simpa [Event.call?] using hrun⟩
      rw [SharedCache.calls_advance_self] at hp
      exact (Option.some.inj hp).symm
    · refine ⟨fun p hp => hidle p ((hstep.calls_of_ne hi).symm.trans hp), ?_⟩
      simpa [hi] using hrun.next (hstep.forget hi)

/-! ## What is kept -/

/-- The steps have a scan. -/
def Scanned (s : ScanSettings) (events : List Event) (n : Scan) : Prop :=
  ∃ i t path, .scan i t path ∈ events ∧ t.scan? s path = .ok n

/-- Files are read as the records of their scan say, when it is made and when it is analyzed,
and scans of one root with other records have other fingerprints. -/
structure Steady (s : ScanSettings) (reading : Path → FileRecord → Option ByteArray)
    (events : List Event) : Prop where
  reads : ∀ {i t path n}, .scan i t path ∈ events → t.scan? s path = .ok n → ReadsAs reading t n
  rereads : ∀ {i t path n t'}, .scan i t path ∈ events → t.scan? s path = .ok n →
    .analyze i t' ∈ events → ReadsAs reading t' n
  distinct : ∀ {n n'}, Scanned s events n → Scanned s events n' → n.root = n'.root →
    fingerprint n.files = fingerprint n'.files →
      n.files.map (·.record) = n'.files.map (·.record)

theorem Scanned.append {n : Scan} (h : Scanned s events n) (more : List Event) :
    Scanned s (events ++ more) n := by
  obtain ⟨i, t, path, hmem, hn⟩ := h
  exact ⟨i, t, path, List.mem_append_left _ hmem, hn⟩

theorem Steady.of_append {more : List Event} (h : Steady s reading (events ++ more)) :
    Steady s reading events where
  reads hmem := h.reads (List.mem_append_left _ hmem)
  rereads hmem hn hmem' := h.rereads (List.mem_append_left _ hmem) hn (List.mem_append_left _ hmem')
  distinct hn hn' := h.distinct (hn.append more) (hn'.append more)

/-- Scans with one key have one analysis. -/
theorem Steady.analyzedAs_of_key_eq (h : Steady s reading events) {n n' : Scan} {a : Analysis}
    (hn : Scanned s events n) (hn' : Scanned s events n') (hkey : n.key = n'.key)
    (ha : n.AnalyzedAs reading a) : n'.AnalyzedAs reading a := by
  obtain ⟨hroot, hprint⟩ := CacheKey.mk.inj hkey
  have hrecords := h.distinct hn hn' hroot hprint
  obtain ⟨_, _, _, -, hscan⟩ := hn
  obtain ⟨_, t', _, hmem, hscan'⟩ := hn'
  obtain ⟨t, ht, rfl⟩ := ha
  have hfiles := Scan.map_written_eq hscan hscan' hroot hrecords
  exact ⟨t', h.reads hmem hscan', ht.analyzeScanned_eq (h.reads hmem hscan') hroot hfiles⟩

/-- What a call has done so far fits what its scan gave. -/
def Progress.Follows (reading : Path → FileRecord → Option ByteArray)
    (r : Except RootError Scan) : Progress → Prop
  | scanned n => r = .ok n
  | missed n => r = .ok n
  | analyzed n a => r = .ok n ∧ n.AnalyzedAs reading a
  | returned (.ok found) => ∃ n, r = .ok n ∧ n.AnalyzedAs reading found.analysis
  | returned (.error e) => r = .error e

theorem Progress.follows_ofScan (r : Except RootError Scan) :
    (Progress.ofScan r).Follows reading r := by
  cases r <;> rfl

/-- A call without a root has failed. -/
theorem Progress.Follows.of_error {p : Progress} {e : RootError}
    (h : p.Follows reading (.error e)) : p = .returned (.error e) := by
  match p, h with
  | .returned (.error _), h => rw [Except.error.inj h]

/-- An entry is the analysis of a scan that was made and has its key. -/
def Keeps (s : ScanSettings) (reading : Path → FileRecord → Option ByteArray)
    (events : List Event) (key : CacheKey) (found : Computed) : Prop :=
  ∃ n, Scanned s events n ∧ n.key = key ∧ n.AnalyzedAs reading found.analysis

/-- The invariant : calls follow their own scans, the cache is within its capacity, and each
entry is the analysis of a scan with its key. -/
structure Sound (s : ScanSettings) (reading : Path → FileRecord → Option ByteArray)
    (capacity : Nat) (events : List Event) (c : SharedCache) : Prop where
  began : ∀ {i p}, c.calls i = some p → ∃ t path, .scan i t path ∈ events
  follows : ∀ {i t path}, .scan i t path ∈ events →
    ∃ p, c.calls i = some p ∧ p.Follows reading (t.scan? s path)
  kept : c.cache.kept.Fits (Keeps s reading events)
  capacity_eq : c.cache.kept.capacity = capacity

namespace Sound

variable {capacity : Nat}

theorem start (cs : CacheSettings) :
    Sound s reading (max 1 cs.maxEntries) [] (.start (.new cs)) where
  began h := nomatch h
  follows h := nomatch h
  kept := ⟨Nat.zero_le _, fun _ he => nomatch he⟩
  capacity_eq := rfl

/-- A call follows each of its scans. -/
theorem follows_of_calls (h : Sound s reading capacity events c) {i : Nat} {t : Tree}
    {path : Path} {p : Progress} (hmem : .scan i t path ∈ events) (hi : c.calls i = some p) :
    p.Follows reading (t.scan? s path) := by
  obtain ⟨p', hp', hfollows⟩ := h.follows hmem
  obtain rfl := Option.some.inj (hi.symm.trans hp')
  exact hfollows

/-- A call that has begun has a scan, and follows it. -/
theorem scan_of_calls (h : Sound s reading capacity events c) {i : Nat} {p : Progress}
    (hi : c.calls i = some p) :
    ∃ t path, .scan i t path ∈ events ∧ p.Follows reading (t.scan? s path) := by
  obtain ⟨t, path, hmem⟩ := h.began hi
  exact ⟨t, path, hmem, h.follows_of_calls hmem hi⟩

/-- Nothing depends on events other than scans. -/
theorem concat (h : Sound s reading capacity events c)
    (he : ∀ i t path, e ≠ .scan i t path) : Sound s reading capacity (events ++ [e]) c where
  began hi := by
    obtain ⟨t, path, hmem⟩ := h.began hi
    exact ⟨t, path, List.mem_append_left _ hmem⟩
  follows hmem := by
    rcases List.mem_append.mp hmem with hmem | hmem
    · exact h.follows hmem
    · exact absurd (List.mem_singleton.mp hmem).symm (he _ _ _)
  kept := h.kept.mono fun ⟨n, hn, hkey, ha⟩ => ⟨n, hn.append _, hkey, ha⟩
  capacity_eq := h.capacity_eq

/-- Another cache, as good as the old one. -/
theorem withCache (h : Sound s reading capacity events c) (cache : AnalysisCache)
    (hkept : cache.kept.Fits (Keeps s reading events)) (hcap : cache.kept.capacity = capacity) :
    Sound s reading capacity events (c.withCache cache) :=
  ⟨h.began, h.follows, hkept, hcap⟩

/-- A call goes on, and still follows its scan. -/
theorem advance (h : Sound s reading capacity events c) {i : Nat} {p p' : Progress}
    (hi : c.calls i = some p)
    (hp : ∀ {r}, p.Follows reading r → p'.Follows reading r) :
    Sound s reading capacity events (c.advance i p') where
  began {j q} hj := by
    by_cases hji : j = i
    · exact h.began (hji ▸ hi)
    · exact h.began ((SharedCache.calls_advance_of_ne c hji p').symm.trans hj)
  follows {j t path} hmem := by
    obtain ⟨q, hq, hfollows⟩ := h.follows hmem
    by_cases hji : j = i
    · subst hji
      obtain rfl := Option.some.inj (hi.symm.trans hq)
      exact ⟨p', SharedCache.calls_advance_self .., hp hfollows⟩
    · exact ⟨q, (SharedCache.calls_advance_of_ne c hji p').trans hq, hfollows⟩
  kept := h.kept
  capacity_eq := h.capacity_eq

/-- A call begins. -/
theorem scan (h : Sound s reading capacity events c) {i : Nat} (hi : c.calls i = none)
    (t : Tree) (path : Path) : Sound s reading capacity (events ++ [.scan i t path])
      (c.advance i (.ofScan (t.scan? s path))) where
  began {j q} hj := by
    by_cases hji : j = i
    · exact ⟨t, path, by simp [hji]⟩
    · rw [SharedCache.calls_advance_of_ne c hji] at hj
      obtain ⟨t', path', hmem⟩ := h.began hj
      exact ⟨t', path', List.mem_append_left _ hmem⟩
  follows {j t' path'} hmem := by
    rcases List.mem_append.mp hmem with hmem | hmem
    · obtain ⟨q, hq, hfollows⟩ := h.follows hmem
      have hji : j ≠ i := by
        rintro rfl
        cases hi.symm.trans hq
      exact ⟨q, (SharedCache.calls_advance_of_ne c hji _).trans hq, hfollows⟩
    · obtain ⟨rfl, rfl, rfl⟩ := Event.scan.inj (List.mem_singleton.mp hmem)
      exact ⟨_, SharedCache.calls_advance_self .., Progress.follows_ofScan _⟩
  kept := h.kept.mono fun ⟨n, hn, hkey, ha⟩ => ⟨n, hn.append _, hkey, ha⟩
  capacity_eq := h.capacity_eq

/-- Each step keeps the invariant. -/
theorem step (h : Sound s reading capacity events c)
    (hsteady : Steady s reading (events ++ [e])) (hstep : Step s c e c') :
    Sound s reading capacity (events ++ [e]) c' := by
  cases hstep with
  | scan t path hi => exact h.scan hi t path
  | @hit i n found kept hi hget =>
    -- what is found was made for a scan with the same key, and so for the scan of this call
    obtain ⟨hkept, hcap, n', hn', hkey, hmade⟩ := h.kept.get? hget
    obtain ⟨t, path, hmem, hscan⟩ := h.scan_of_calls hi
    have hanalyzed : n.AnalyzedAs reading found.analysis :=
      hsteady.of_append.analyzedAs_of_key_eq hn' ⟨i, t, path, hmem, hscan⟩ hkey hmade
    have hcache := h.withCache ⟨kept, c.cache.made⟩ hkept (hcap.trans h.capacity_eq)
    exact concat (hcache.advance hi fun hr => ⟨n, hr, hanalyzed⟩) (by simp)
  | miss hi _ => exact concat (h.advance hi id) (by simp)
  | @analyze i n t hi =>
    obtain ⟨t', path, hmem, hscan⟩ := h.scan_of_calls hi
    have hreads : ReadsAs reading t n :=
      hsteady.rereads (List.mem_append_left _ hmem) hscan (by simp)
    exact concat (h.advance hi fun hr => ⟨hr, t, hreads, rfl⟩) (by simp)
  | @insert i n a hi =>
    obtain ⟨t, path, hmem, hscan, hanalyzed⟩ := h.scan_of_calls hi
    have hkeeps : Keeps s reading events n.key (c.cache.insert n.key a).1 :=
      ⟨n, ⟨i, t, path, hmem, hscan⟩, rfl, hanalyzed⟩
    have hcache := h.withCache (c.cache.insert n.key a).2 (h.kept.put hkeeps) h.capacity_eq
    exact concat (hcache.advance hi fun hr => ⟨n, hr⟩) (by simp)
  | clear => exact concat (h.withCache c.cache.clear (.clear _) h.capacity_eq) (by simp)

/-- Every run keeps the invariant. -/
theorem of_run {cs : CacheSettings} (hrun : Run s (.new cs) events c)
    (hsteady : Steady s reading events) : Sound s reading (max 1 cs.maxEntries) events c := by
  induction hrun with
  | start => exact start cs
  | next _ hstep ih => exact (ih hsteady.of_append).step hsteady hstep

/-- A call that has returned found what its scan gives, analyzed or not. -/
theorem result_eq (h : Sound s reading capacity events c) (hsteady : Steady s reading events)
    {i : Nat} {t : Tree} {path : Path} {result : Except RootError Computed}
    (hmem : .scan i t path ∈ events) (hi : c.calls i = some (.returned result)) :
    result.map (·.analysis) = (t.scan? s path).map fun n => analyzeScanned t n.root n.files := by
  have hfollows := h.follows_of_calls hmem hi
  cases result with
  | error e =>
    have hscan : t.scan? s path = .error e := hfollows
    rw [hscan]
    rfl
  | ok found =>
    obtain ⟨n, hscan, hanalyzed⟩ := hfollows
    rw [hscan]
    exact congrArg Except.ok (hanalyzed.eq (hsteady.reads hmem hscan))

end Sound

/-! ## A race -/

/-- A tree that has only one file. -/
def singleTree (content : String) (changed : Int) : Tree :=
  ⟨"/r", .directory [("a.md", .file content.toUTF8 changed)]⟩

/-- What a scan finds there, if the file has one byte. -/
def singleScan (changed : Int) : Scan := ⟨"/r", [describeFile {} "/r" "a.md" 1 changed]⟩

theorem rootPlace_singleTree (content : String) (changed : Int) :
    (singleTree content changed).rootPlace "/r" "/r" = .ok [] :=
  Tree.rootPlace_mount (t := singleTree content changed) rfl "/r"

/-- Calls 0 and 1 both find nothing for the same scan, and the file changes before call 2. Call 3
comes when all three have put their analyses, and call 4 is for a path that leads nowhere. -/
def race (before after : Tree) : List Event :=
  [.scan 0 before "/r", .scan 1 before "/r", .lookup 0, .lookup 1, .scan 2 after "/r", .lookup 2,
    .analyze 0 before, .analyze 2 after, .insert 2, .analyze 1 before, .insert 0, .insert 1,
    .scan 3 before "/r", .scan 4 before "/q", .lookup 3, .clear]

section

variable {before after t : Tree} {i : Nat} {path : Path}

theorem scan_mem_race (h : .scan i t path ∈ race before after) :
    (i = 4 ∧ t = before ∧ path = "/q") ∨ (i ≠ 2 ∧ t = before ∧ path = "/r") ∨
      (i = 2 ∧ t = after ∧ path = "/r") := by
  simp only [race, List.mem_cons, Event.scan.injEq, reduceCtorEq, false_or, or_false,
    List.not_mem_nil] at h
  rcases h with ⟨rfl, rfl, rfl⟩ | ⟨rfl, rfl, rfl⟩ | ⟨rfl, rfl, rfl⟩ | ⟨rfl, rfl, rfl⟩ |
    ⟨rfl, rfl, rfl⟩ <;> simp

theorem analyze_mem_race (h : .analyze i t ∈ race before after) :
    (i ≠ 2 ∧ t = before) ∨ (i = 2 ∧ t = after) := by
  simp only [race, List.mem_cons, Event.analyze.injEq, reduceCtorEq, false_or, or_false,
    List.not_mem_nil] at h
  rcases h with ⟨rfl, rfl⟩ | ⟨rfl, rfl⟩ | ⟨rfl, rfl⟩ <;> simp

theorem steady_race {s : ScanSettings} {reading : Path → FileRecord → Option ByteArray}
    {n n' : Scan} {e : RootError} (hbefore : before.scan? s "/r" = .ok n)
    (hafter : after.scan? s "/r" = .ok n') (hlost : before.scan? s "/q" = .error e)
    (hreads : ReadsAs reading before n) (hreads' : ReadsAs reading after n')
    (hdistinct : fingerprint n.files ≠ fingerprint n'.files) :
    Steady s reading (race before after) := by
  have hscans : ∀ {i t path m}, .scan i t path ∈ race before after → t.scan? s path = .ok m →
      (i ≠ 2 ∧ t = before ∧ m = n) ∨ (i = 2 ∧ t = after ∧ m = n') := by
    intro i t path m hmem hm
    rcases scan_mem_race hmem with ⟨-, rfl, rfl⟩ | ⟨hi, rfl, rfl⟩ | ⟨hi, rfl, rfl⟩
    · cases hlost.symm.trans hm
    · exact .inl ⟨hi, rfl, Except.ok.inj (hm.symm.trans hbefore)⟩
    · exact .inr ⟨hi, rfl, Except.ok.inj (hm.symm.trans hafter)⟩
  refine ⟨fun hmem hm => ?_, fun hmem hm hmem' => ?_, ?_⟩
  · rcases hscans hmem hm with ⟨-, rfl, rfl⟩ | ⟨-, rfl, rfl⟩
    · exact hreads
    · exact hreads'
  · rcases hscans hmem hm with ⟨hi, -, rfl⟩ | ⟨hi, -, rfl⟩ <;>
      rcases analyze_mem_race hmem' with ⟨hi', rfl⟩ | ⟨hi', rfl⟩
    · exact hreads
    · exact absurd hi' hi
    · exact absurd hi hi'
    · exact hreads'
  · rintro m m' ⟨_, _, _, hmem, hm⟩ ⟨_, _, _, hmem', hm'⟩ - hprint
    rcases hscans hmem hm with ⟨-, -, rfl⟩ | ⟨-, -, rfl⟩ <;>
      rcases hscans hmem' hm' with ⟨-, -, rfl⟩ | ⟨-, -, rfl⟩
    · rfl
    · exact absurd hprint hdistinct
    · exact absurd hprint.symm hdistinct
    · rfl

end

/-! ## A cache that cannot be told from none -/

/-- Whatever the order of the steps : a call that nobody interrupts is `getOrAnalyze`; a
call that returns an analysis returns that of its own scan, in whatever tree its files are
read; a request answered from a call is answered as by a service that has kept nothing; a
call that finds no root fails, and all else is as if it had not been made; and the cache
stays within its capacity. -/
theorem cache_transparent {settings : Settings}
    {reading : Path → FileRecord → Option ByteArray} {events : List Event} {c : SharedCache}
    (hrun : Run settings.scan (.new settings.cache) events c)
    (hsteady : Steady settings.scan reading events) :
    (∀ i t path, c.calls i = none → ∃ more, (∀ e ∈ more, e.call? = some i) ∧
      Run settings.scan (.new settings.cache) (events ++ more)
        ((c.withCache (c.cache.getOrAnalyze t settings.scan path).2).advance i
          (.returned (c.cache.getOrAnalyze t settings.scan path).1))) ∧
    (∀ i found, c.calls i = some (.returned (.ok found)) →
      (∃ t path, .scan i t path ∈ events) ∧
      ∀ t path, .scan i t path ∈ events → ∃ n, t.scan? settings.scan path = .ok n ∧
        found.analysis = analyzeScanned t n.root n.files ∧
        ∀ t', ReadsAs reading t' n → found.analysis = analyzeScanned t' n.root n.files) ∧
    (∀ defaultRoot r,
      (∃ response, AtOnce settings defaultRoot (fun s t => s.handle t r) response) ∨
      ∃ path answer, FromAnalysis settings defaultRoot (fun s t => s.handle t r) path answer ∧
        ∀ i t result, .scan i t path ∈ events → c.calls i = some (.returned result) →
          answer (result.map (·.analysis)) = ((State.new settings defaultRoot).handle t r).1) ∧
    (∀ i t path e, .scan i t path ∈ events → t.scan? settings.scan path = .error e →
      c.calls i = some (.returned (.error e)) ∧
      Run settings.scan (.new settings.cache) (events.filter fun e => e.call? ≠ some i)
        (c.forget i)) ∧
    c.cache.kept.size ≤ max 1 settings.cache.maxEntries := by
  have hsound := Sound.of_run hrun hsteady
  refine ⟨fun i t path hi => hrun.alone hi t path, fun i found hi => ⟨hsound.began hi, ?_⟩,
    fun defaultRoot r => ?_, fun i t path e hmem hscan => ?_, ?_⟩
  · intro t path hmem
    obtain ⟨n, hscan, hanalyzed⟩ := hsound.follows_of_calls hmem hi
    exact ⟨n, hscan, hanalyzed.eq (hsteady.reads hmem hscan), fun t' ht' => hanalyzed.eq ht'⟩
  · refine (handle_cases settings defaultRoot r).imp_right ?_
    rintro ⟨path, answer, hfrom⟩
    refine ⟨path, answer, hfrom, fun i t result hmem hi => ?_⟩
    have hfresh := congrArg Prod.fst (hfrom (.new settings.cache) t)
    rw [AnalysisCache.getOrAnalyze_new, ← hsound.result_eq hsteady hmem hi] at hfresh
    exact hfresh.symm
  · obtain ⟨p, hi, hp⟩ := hsound.follows hmem
    rw [hscan] at hp
    obtain rfl := hp.of_error
    exact ⟨hi, (hrun.forget fun t' path' hmem' =>
      ⟨e, hsound.follows_of_calls hmem' hi⟩).2⟩
  · exact hsound.capacity_eq ▸ hsound.kept.size_le

/-- Call 3 finds what call 1 put for the scan that both made, after the analysis of a newer
one had gone in and out. -/
theorem cache_transparent_race :
    let settings : Settings := { scan := { respectIgnoreFiles := false }, cache := ⟨0⟩ }
    let before := singleTree "x" 1
    let after := singleTree "y" 2
    let reading := fun root (r : FileRecord) =>
      (if r.changed = 1 then before else after).contentOf? (.join [root, r.relPath])
    ∃ c, Run settings.scan (.new settings.cache) (race before after) c ∧
      Steady settings.scan reading (race before after) ∧
      c.calls 4 = some (.returned (.error (.notFound "/q"))) ∧ c.cache.kept.size ≤ 1 ∧
      ∃ found, c.calls 3 = some (.returned (.ok found)) ∧ found.number = 2 ∧
        found.analysis = analyzeScanned before "/r" (singleScan 1).files := by
  intro settings before after reading
  have hbefore : before.scan? settings.scan "/r" = .ok (singleScan 1) := by
    rw [Tree.scan?, rootPlace_singleTree]
    decide +kernel
  have hafter : after.scan? settings.scan "/r" = .ok (singleScan 2) := by
    rw [Tree.scan?, rootPlace_singleTree]
    decide +kernel
  have hlost : before.scan? settings.scan "/q" = .error (.notFound "/q") := by decide +kernel
  have hdistinct : fingerprint (singleScan 1).files ≠ fingerprint (singleScan 2).files := by
    decide +kernel
  have hsteady : Steady settings.scan reading (race before after) := by
    refine steady_race hbefore hafter hlost (fun f hf => ?_) (fun f hf => ?_) hdistinct
    · rw [List.mem_singleton.mp hf]
      rfl
    · rw [List.mem_singleton.mp hf]
      rfl
  have hput := (Run.start : Run settings.scan (.new settings.cache) [] _)
    |>.next (.scan_of_ok (i := 0) hbefore rfl) |>.next (.scan_of_ok (i := 1) hbefore rfl)
    |>.next (.miss (i := 0) rfl rfl) |>.next (.miss (i := 1) rfl rfl)
    |>.next (.scan_of_ok (i := 2) hafter rfl) |>.next (.miss (i := 2) rfl rfl)
    |>.next (.analyze (i := 0) before rfl) |>.next (.analyze (i := 2) after rfl)
    |>.next (.insert (i := 2) rfl) |>.next (.analyze (i := 1) before rfl)
    |>.next (.insert (i := 0) rfl) |>.next (.insert (i := 1) rfl)
    |>.next (.scan_of_ok (i := 3) hbefore rfl) |>.next (.scan (i := 4) before "/q" rfl)
  obtain ⟨kept, hhit⟩ := hput.hit_of_put (i := 3) rfl rfl (by decide)
  have hrun := hhit.next .clear
  simp only [List.nil_append, List.cons_append] at hrun
  obtain ⟨-, hreturned, -, hfailed, hsize⟩ := cache_transparent hrun hsteady
  have hlost' := (hfailed 4 before "/q" _ (by simp) hlost).1
  refine ⟨_, hrun, hsteady, hlost', hsize, _, rfl, rfl, ?_⟩
  obtain ⟨n, hn, hanalysis, -⟩ := (hreturned 3 _ rfl).2 before "/r" (by simp)
  obtain rfl := Except.ok.inj (hbefore.symm.trans hn)
  exact hanalysis

end CodeAtlas.Sharing
