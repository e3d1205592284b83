import CodeAtlas.Proofs.ByteOrder
import CodeAtlas.Proofs.Lists
import CodeAtlas.Proofs.ModuleNames
import Mathlib.Data.List.Pairwise
import Mathlib.Data.List.Sort

/-!
# Which files a scan finds

Without ignore files a scan finds the files that a directory has at some place below it, unless
a directory on the way has a name that is left out (`mem_filesOf_iff`). No two of them have the
same path (`pairwise_path`), so that each is listed once. They are sorted by the texts of their
paths, and these may be the same where names are not UTF-8 (`scan_unreadable`). Such files stay
in the order in which the directories list them. Where the texts differ (`TextsDiffer`), sorting
leaves no choice, and a scan is the same in whatever order the directories list their entries
(`scan_eq_of_reordered`). Ignore files only take files away (`filesOf_sublist`).
-/

set_option linter.unusedSectionVars false

namespace CodeAtlas.Tree

open CodeAtlas.Path

/-! ## Proper trees -/

mutual

/-- Whether each directory of an entry has its names once, and all are names of files. -/
def Entry.isProper : Entry → Bool
  | .file _ _ => true
  | .link _ => true
  | .directory entries => Entry.areProper entries

/-- Whether the entries of a directory have different names, and are proper themselves. -/
def Entry.areProper : List (Path × Entry) → Bool
  | [] => true
  | (name, e) :: rest =>
    decide (IsSegment name) && !(rest.map (·.1)).contains name && e.isProper && areProper rest

end

section

variable {name : Path} {e : Entry} {rest : List (Path × Entry)}

theorem Entry.areProper_cons :
    areProper ((name, e) :: rest) = true ↔
      IsSegment name ∧ name ∉ rest.map (·.1) ∧ e.isProper = true ∧ areProper rest = true := by
  simp [areProper, and_assoc]

theorem lookup_eq_none_of_not_mem {entries : List (Path × Entry)}
    (h : name ∉ entries.map (·.1)) : entries.lookup name = none := by
  rw [List.lookup_eq_none_iff]
  intro x hx
  simpa using fun heq : name = x.1 => h (heq ▸ List.mem_map_of_mem hx)

end

/-! ## Files and their places -/

/-- Whether a scan with these settings is to find a file at a place in an entry : no directory
on the way has a name that is left out. -/
structure Entry.Lists (s : ScanSettings) (e : Entry) (names : Place) (content : ByteArray)
    (changed : Int) : Prop where
  at_eq : e.at? names = some (.file content changed)
  entered : ∀ d ∈ names.dropLast, d.text ∉ s.ignoreDirs

namespace Entry.Lists

variable {s : ScanSettings} {e : Entry} {name n : Path} {names : Place}
  {entries rest : List (Path × Entry)} {content : ByteArray} {changed : Int}

/-- Whether a directory is left out by its name. -/
def leftOut (s : ScanSettings) (name : Path) (e : Entry) : Bool :=
  e.isDirectory && s.ignoreDirs.contains name.text

/-- A file in an entry is found from the directory of the entry, unless the entry is left out. -/
theorem entered_cons_iff (hat : e.at? names = some (.file content changed)) :
    (∀ d ∈ (name :: names).dropLast, d.text ∉ s.ignoreDirs) ↔
      leftOut s name e = false ∧ ∀ d ∈ names.dropLast, d.text ∉ s.ignoreDirs := by
  cases names with
  | nil =>
    have he : e = .file content changed := Option.some.inj hat
    simp [leftOut, he, Entry.isDirectory]
  | cons n names =>
    have he : e.isDirectory = true := by
      cases e with
      | directory entries => rfl
      | file content changed => cases hat
      | link target => cases hat
    rw [List.dropLast_cons_cons, List.forall_mem_cons, leftOut, he, Bool.true_and,
      List.contains_eq_mem, decide_eq_false_iff_not]

theorem directory_cons_iff (hname : name ∉ rest.map (·.1)) :
    (Entry.directory ((name, e) :: rest)).Lists s (n :: names) content changed ↔
      n = name ∧ leftOut s name e = false ∧ e.Lists s names content changed ∨
        (Entry.directory rest).Lists s (n :: names) content changed := by
  have hat : (Entry.directory ((name, e) :: rest)).at? (n :: names) =
      (if n == name then some e else rest.lookup n).bind (Entry.at? names) := by
    rw [Entry.at?, Entry.child?, List.lookup_cons]
    cases n == name <;> rfl
  by_cases hn : n = name
  · have hrest : ¬ (Entry.directory rest).Lists s (n :: names) content changed := by
      rintro ⟨hfile, -⟩
      rw [Entry.at?, Entry.child?, hn, lookup_eq_none_of_not_mem hname] at hfile
      cases hfile
    rw [if_pos (by simpa using hn), Option.bind_some] at hat
    rw [or_iff_left hrest]
    constructor
    · rintro ⟨hfile, hentered⟩
      rw [hat] at hfile
      obtain ⟨hleft, hnames⟩ := (entered_cons_iff hfile).mp hentered
      exact ⟨hn, hn ▸ hleft, hfile, hnames⟩
    · rintro ⟨-, hleft, hfile, hnames⟩
      exact ⟨hat.trans hfile, (entered_cons_iff hfile).mpr ⟨hn ▸ hleft, hnames⟩⟩
  · rw [if_neg (by simpa using hn)] at hat
    have hsame : (Entry.directory ((name, e) :: rest)).Lists s (n :: names) content changed ↔
        (Entry.directory rest).Lists s (n :: names) content changed :=
      ⟨fun h => ⟨hat.symm.trans h.at_eq, h.entered⟩, fun h => ⟨hat.trans h.at_eq, h.entered⟩⟩
    rw [hsame]
    exact (or_iff_right fun h => hn h.1).symm

theorem directory_ne_nil (h : (Entry.directory entries).Lists s names content changed) :
    names ≠ [] := by
  rintro rfl
  cases h.at_eq

end Entry.Lists

open Entry.Lists

section

variable {t : Tree} {s : ScanSettings}

theorem filesIn_cons (place : Place) (name : Path) (e : Entry) (rest : List (Path × Entry)) :
    filesIn t s [] place ((name, e) :: rest) =
      (if leftOut s name e then [] else filesOf t s [] (place ++ [name]) e) ++
        filesIn t s [] place rest := by
  have hkept : isIgnored [] (place ++ [name]) e.isDirectory = false := rfl
  rw [filesIn, hkept, Bool.or_false]
  rfl

variable (hs : s.respectIgnoreFiles = false)

include hs

theorem filesOf_directory (place : Place) (entries : List (Path × Entry)) :
    filesOf t s [] place (.directory entries) = filesIn t s [] place entries := by
  rw [filesOf, hs]
  rfl

mutual

theorem mem_filesOf_iff (place : Place) (f : PlacedFile) : ∀ e : Entry, e.isProper = true →
    (f ∈ filesOf t s [] place e ↔
      ∃ names, f.place = place ++ names ∧ e.Lists s names f.content f.changed)
  | .file content changed, _ => by
    rw [filesOf, List.mem_singleton]
    constructor
    · rintro rfl
      exact ⟨[], (List.append_nil _).symm, rfl, nofun⟩
    · rintro ⟨names, hplace, hat, -⟩
      cases names with
      | nil =>
        obtain ⟨rfl, rfl⟩ := Entry.file.inj (Option.some.inj hat)
        rw [← List.append_nil place, ← hplace]
      | cons n names => cases hat
  | .link target, _ => by
    rw [filesOf]
    refine iff_of_false List.not_mem_nil ?_
    rintro ⟨names, -, hat, -⟩
    cases names <;> cases hat
  | .directory entries, h => by
    rw [filesOf_directory hs, mem_filesIn_iff place f entries h]
    constructor
    · rintro ⟨name, names, hplace, hlists⟩
      exact ⟨name :: names, hplace, hlists⟩
    · rintro ⟨names, hplace, hlists⟩
      obtain ⟨name, names, rfl⟩ := List.exists_cons_of_ne_nil hlists.directory_ne_nil
      exact ⟨name, names, hplace, hlists⟩

theorem mem_filesIn_iff (place : Place) (f : PlacedFile) : ∀ entries : List (Path × Entry),
    Entry.areProper entries = true →
    (f ∈ filesIn t s [] place entries ↔ ∃ name names, f.place = place ++ name :: names ∧
      (Entry.directory entries).Lists s (name :: names) f.content f.changed)
  | [], _ => by
    rw [filesIn]
    refine iff_of_false List.not_mem_nil ?_
    rintro ⟨name, names, -, hat, -⟩
    cases hat
  | (name, e) :: rest, h => by
    obtain ⟨-, hname, he, hrest⟩ := Entry.areProper_cons.mp h
    have hfirst : (f ∈ if leftOut s name e then [] else filesOf t s [] (place ++ [name]) e) ↔
        ∃ names, f.place = place ++ name :: names ∧ leftOut s name e = false ∧
          e.Lists s names f.content f.changed := by
      cases hleft : leftOut s name e with
      | true => simp
      | false => simp [mem_filesOf_iff (place ++ [name]) f e he]
    rw [filesIn_cons, List.mem_append, hfirst, mem_filesIn_iff place f rest hrest]
    simp only [directory_cons_iff hname]
    constructor
    · rintro (⟨names, hplace, hleft, hlists⟩ | ⟨n, names, hplace, hlists⟩)
      · exact ⟨name, names, hplace, .inl ⟨rfl, hleft, hlists⟩⟩
      · exact ⟨n, names, hplace, .inr hlists⟩
    · rintro ⟨n, names, hplace, ⟨rfl, hleft, hlists⟩ | hlists⟩
      · exact .inl ⟨names, hplace, hleft, hlists⟩
      · exact .inr ⟨n, names, hplace, hlists⟩

end

mutual

/-- No two files have the same place. -/
theorem pairwise_filesOf (place : Place) : ∀ e : Entry, e.isProper = true →
    (filesOf t s [] place e).Pairwise fun f g => f.place ≠ g.place
  | .file content changed, _ => by
    rw [filesOf]
    exact List.pairwise_singleton ..
  | .link target, _ => by
    rw [filesOf]
    exact .nil
  | .directory entries, h => by
    rw [filesOf_directory hs]
    exact pairwise_filesIn place entries h

theorem pairwise_filesIn (place : Place) : ∀ entries : List (Path × Entry),
    Entry.areProper entries = true →
    (filesIn t s [] place entries).Pairwise fun f g => f.place ≠ g.place
  | [], _ => by
    rw [filesIn]
    exact .nil
  | (name, e) :: rest, h => by
    obtain ⟨-, hname, he, hrest⟩ := Entry.areProper_cons.mp h
    rw [filesIn_cons, List.pairwise_append]
    refine ⟨?_, pairwise_filesIn place rest hrest, fun f hf g hg => ?_⟩
    · split
      · exact .nil
      · exact pairwise_filesOf (place ++ [name]) e he
    · split at hf
      · cases hf
      obtain ⟨names, hfplace, -⟩ := (mem_filesOf_iff hs _ f e he).mp hf
      obtain ⟨n, others, hgplace, hlists⟩ := (mem_filesIn_iff hs _ g rest hrest).mp hg
      -- the two places part at the name of the entry
      intro hplace
      rw [hfplace, hgplace, List.append_assoc, List.append_cancel_left_eq, List.singleton_append,
        List.cons.injEq] at hplace
      have hat := hlists.at_eq
      rw [Entry.at?, Entry.child?, ← hplace.1, lookup_eq_none_of_not_mem hname] at hat
      cases hat

end

end

/-! ## Ignore files -/

section

variable {t : Tree} {s : ScanSettings}

mutual

/-- Ignore files only take files away. -/
theorem filesOf_sublist (rules : List IgnoreRules) (place : Place) : ∀ e : Entry,
    (filesOf t s rules place e).Sublist
      (filesOf t { s with respectIgnoreFiles := false } [] place e)
  | .file content changed => by
    rw [filesOf, filesOf]
  | .link target => by
    rw [filesOf, filesOf]
  | .directory entries => by
    rw [filesOf_directory rfl, filesOf]
    exact filesIn_sublist _ place entries

theorem filesIn_sublist (rules : List IgnoreRules) (place : Place) :
    ∀ entries : List (Path × Entry), (filesIn t s rules place entries).Sublist
      (filesIn t { s with respectIgnoreFiles := false } [] place entries)
  | [] => by
    rw [filesIn, filesIn]
  | (name, e) :: rest => by
    rw [filesIn_cons, filesIn]
    refine .append ?_ (filesIn_sublist rules place rest)
    rw [leftOut]
    split
    · exact List.nil_sublist _
    · rename_i hleft
      rw [Bool.not_eq_true, Bool.or_eq_false_iff] at hleft
      rw [hleft.1, if_neg Bool.false_ne_true]
      exact filesOf_sublist rules (place ++ [name]) e

end

end

/-! ## The order of entries -/

mutual

/-- Two entries that differ only in the order of the entries of directories, at any depth. -/
inductive Entry.Reordered : Entry → Entry → Prop where
  | file (content : ByteArray) (changed : Int) :
    Reordered (.file content changed) (.file content changed)
  | link (target : Path) : Reordered (.link target) (.link target)
  | directory {entries entries' : List (Path × Entry)}
    (h : Entry.ReorderedAll entries entries') :
    Reordered (.directory entries) (.directory entries')

/-- Entries of a directory in another order. -/
inductive Entry.ReorderedAll : List (Path × Entry) → List (Path × Entry) → Prop where
  | nil : ReorderedAll [] []
  | cons {name : Path} {e e' : Entry} {rest rest' : List (Path × Entry)}
    (he : Entry.Reordered e e') (hrest : ReorderedAll rest rest') :
    ReorderedAll ((name, e) :: rest) ((name, e') :: rest')
  | swap {name name' : Path} (hne : name ≠ name') (e e' : Entry)
    (rest : List (Path × Entry)) :
    ReorderedAll ((name, e) :: (name', e') :: rest) ((name', e') :: (name, e) :: rest)
  | trans {entries entries' entries'' : List (Path × Entry)}
    (h : ReorderedAll entries entries') (h' : ReorderedAll entries' entries'') :
    ReorderedAll entries entries''

end

namespace Entry

variable {e e' x : Entry}

theorem Reordered.isDirectory_eq (h : Reordered e e') : e.isDirectory = e'.isDirectory := by
  cases h <;> rfl

mutual

theorem Reordered.refl : ∀ e : Entry, Reordered e e
  | .file content changed => .file content changed
  | .link target => .link target
  | .directory entries => .directory (ReorderedAll.refl entries)

theorem ReorderedAll.refl : ∀ entries : List (Path × Entry), ReorderedAll entries entries
  | [] => .nil
  | (_, e) :: rest => .cons (Reordered.refl e) (ReorderedAll.refl rest)

end

theorem Reordered.trans {e'' : Entry} (h : Reordered e e') (h' : Reordered e' e'') :
    Reordered e e'' := by
  cases h with
  | file content changed => exact h'
  | link target => exact h'
  | directory h =>
    cases h' with
    | directory h' => exact .directory (h.trans h')

/-- Under a name there is the same entry, in its own other order. -/
theorem ReorderedAll.lookup {n : Path} : ∀ {entries entries' : List (Path × Entry)},
    ReorderedAll entries entries' → ∀ {x : Entry}, entries.lookup n = some x →
      ∃ x', entries'.lookup n = some x' ∧ Reordered x x'
  | _, _, .nil, x, hx => nomatch hx
  | _, _, @ReorderedAll.cons name _ e' _ _ he hrest, x, hx => by
    rw [List.lookup_cons] at hx ⊢
    cases hn : n == name with
    | true =>
      rw [hn] at hx
      exact ⟨e', rfl, Option.some.inj hx ▸ he⟩
    | false =>
      rw [hn] at hx
      exact ReorderedAll.lookup hrest hx
  | _, _, @ReorderedAll.swap name name' hne e e' rest, x, hx => by
    refine ⟨x, ?_, .refl x⟩
    rw [← hx, List.lookup_cons, List.lookup_cons, List.lookup_cons, List.lookup_cons]
    by_cases hn : n = name
    · have hn' : (n == name') = false := by simpa [hn] using hne
      simp [hn']
    · have hn' : (n == name) = false := by simpa using hn
      simp [hn']
  | _, _, .trans h h', x, hx => by
    obtain ⟨y, hy, hxy⟩ := ReorderedAll.lookup h hx
    obtain ⟨z, hz, hyz⟩ := ReorderedAll.lookup h' hy
    exact ⟨z, hz, hxy.trans hyz⟩

/-- At a place there is the same entry, in its own other order. -/
theorem Reordered.at? {place : Place} (h : Reordered e e') (hx : e.at? place = some x) :
    ∃ x', e'.at? place = some x' ∧ Reordered x x' := by
  induction place generalizing e e' with
  | nil =>
    obtain rfl := Option.some.inj hx
    exact ⟨e', rfl, h⟩
  | cons name place ih =>
    cases h with
    | file content changed => cases hx
    | link target => cases hx
    | directory h =>
      obtain ⟨y, hy, hx⟩ := Option.bind_eq_some_iff.mp hx
      obtain ⟨y', hy', hyy'⟩ := h.lookup hy
      obtain ⟨x', hx', hxx'⟩ := ih hyy' hx
      exact ⟨x', Option.bind_eq_some_iff.mpr ⟨y', hy', hx'⟩, hxx'⟩

end Entry

section

variable {t : Tree} {s : ScanSettings} (hs : s.respectIgnoreFiles = false)

include hs

mutual

/-- Without ignore files, what is found in an entry does not depend on the tree around it. -/
theorem filesOf_congr (t t' : Tree) (place : Place) : ∀ e : Entry,
    filesOf t s [] place e = filesOf t' s [] place e
  | .file content changed => by
    rw [filesOf, filesOf]
  | .link target => by
    rw [filesOf, filesOf]
  | .directory entries => by
    rw [filesOf_directory hs, filesOf_directory hs, filesIn_congr t t' place entries]

theorem filesIn_congr (t t' : Tree) (place : Place) : ∀ entries : List (Path × Entry),
    filesIn t s [] place entries = filesIn t' s [] place entries
  | [] => by
    rw [filesIn, filesIn]
  | (name, e) :: rest => by
    rw [filesIn_cons, filesIn_cons, filesOf_congr t t' (place ++ [name]) e,
      filesIn_congr t t' place rest]

end

mutual

/-- The same files are found, in some order. -/
theorem perm_filesOf (place : Place) : ∀ {e e' : Entry}, e.Reordered e' →
    (filesOf t s [] place e).Perm (filesOf t s [] place e')
  | _, _, .file content changed => .refl _
  | _, _, .link target => .refl _
  | _, _, .directory h => by
    rw [filesOf_directory hs, filesOf_directory hs]
    exact perm_filesIn place h

theorem perm_filesIn (place : Place) : ∀ {entries entries' : List (Path × Entry)},
    Entry.ReorderedAll entries entries' →
    (filesIn t s [] place entries).Perm (filesIn t s [] place entries')
  | _, _, .nil => .refl _
  | _, _, @Entry.ReorderedAll.cons name _ _ _ _ he hrest => by
    have hleft := congrArg (· && s.ignoreDirs.contains name.text) he.isDirectory_eq
    rw [filesIn_cons, filesIn_cons, leftOut, leftOut, hleft]
    refine .append ?_ (perm_filesIn place hrest)
    split
    · exact .refl _
    · exact perm_filesOf (place ++ [name]) he
  | _, _, .swap hne e e' rest => by
    rw [filesIn_cons, filesIn_cons, filesIn_cons, filesIn_cons, ← List.append_assoc,
      ← List.append_assoc]
    exact List.perm_append_comm.append_right _
  | _, _, .trans h h' => (perm_filesIn place h).trans (perm_filesIn place h')

end

end

/-! ## Scans -/

namespace Entry

variable {e x : Entry} {names : Place}

theorem of_areProper_of_lookup {entries : List (Path × Entry)} {name : Path}
    (h : areProper entries = true) (he : entries.lookup name = some e) :
    IsSegment name ∧ e.isProper = true := by
  induction entries with
  | nil => cases he
  | cons first rest ih =>
    obtain ⟨hsegment, -, hfirst, hrest⟩ := areProper_cons.mp h
    rw [List.lookup_cons] at he
    cases hname : name == first.1 with
    | true =>
      rw [hname] at he
      rw [eq_of_beq hname, ← Option.some.inj he]
      exact ⟨hsegment, hfirst⟩
    | false =>
      rw [hname] at he
      exact ih hrest he

/-- The way to an entry is one of segments, and the entry is proper. -/
theorem of_isProper_of_at? (h : e.isProper = true) (hx : e.at? names = some x) :
    (∀ n ∈ names, IsSegment n) ∧ x.isProper = true := by
  induction names generalizing e with
  | nil => exact ⟨nofun, Option.some.inj hx ▸ h⟩
  | cons name names ih =>
    obtain ⟨y, hy, hyx⟩ := Option.bind_eq_some_iff.mp hx
    cases e with
    | file content changed => cases hy
    | link target => cases hy
    | directory entries =>
      obtain ⟨hname, hproper⟩ := of_areProper_of_lookup h hy
      obtain ⟨hnames, hx⟩ := ih hproper hyx
      exact ⟨List.forall_mem_cons.mpr ⟨hname, hnames⟩, hx⟩

/-- The way to a file is told by the path that it makes. -/
theorem Lists.names_eq {s : ScanSettings} {names' : Place} {content content' : ByteArray}
    {changed changed' : Int} (he : e.isProper = true) (h : e.Lists s names content changed)
    (h' : e.Lists s names' content' changed') (hpath : join names = join names') :
    names = names' := by
  have hsegments {names : Place} {x : Entry} (hx : e.at? names = some x) (n : Path)
      (hn : n ∈ names) : n ≠ .empty ∧ slash ∉ n.bytes :=
    have hn := (of_isProper_of_at? he hx).1 n hn
    ⟨hn.ne_empty, hn.not_slash⟩
  exact (join_inj (hsegments h.at_eq) (hsegments h'.at_eq)).mp hpath

/-- Whether no two files that a scan is to find have paths with the same text. -/
def TextsDiffer (s : ScanSettings) (e : Entry) : Prop :=
  ∀ names names' content content' changed changed', e.Lists s names content changed →
    e.Lists s names' content' changed' → (join names).text = (join names').text → names = names'

/-- Paths that are texts differ in their texts. -/
theorem textsDiffer_of_isSome {s : ScanSettings} (he : e.isProper = true)
    (h : ∀ names content changed, e.Lists s names content changed →
      ∀ n ∈ names, n.text?.isSome) : e.TextsDiffer s := by
  have hwritten {names : Place} {content : ByteArray} {changed : Int}
      (hlists : e.Lists s names content changed) : (join names).written = join names := by
    rw [written_join]
    refine congrArg join ((List.map_congr_left fun n hn => ?_).trans (List.map_id _))
    obtain ⟨text, htext⟩ := Option.isSome_iff_exists.mp (h names content changed hlists n hn)
    rw [text?_eq_some_iff.mp htext, written_ofString, id]
  intro names names' content content' changed changed' hlists hlists' htext
  refine hlists.names_eq he hlists' ?_
  rw [← hwritten hlists, ← hwritten hlists', written_inj.mpr htext]

end Entry

section

variable {t : Tree} {s : ScanSettings} {place : Place}

/-- What a scan says of a file that it found. -/
def describe (t : Tree) (s : ScanSettings) (place : Place) (f : PlacedFile) : ScannedFile :=
  describeFile s (t.pathOf place) (.join (f.place.drop place.length)) f.content.size f.changed

/-- What a scan says of the files that it found, before they are sorted. -/
def found (t : Tree) (s : ScanSettings) (place : Place) : List ScannedFile :=
  (t.filesBelow s place).map (describe t s place)

theorem scan_eq (t : Tree) (s : ScanSettings) (place : Place) :
    t.scan s place = (t.found s place).mergeSort fun a b => decide (a.relPath ≤ b.relPath) :=
  rfl

theorem scan_perm (t : Tree) (s : ScanSettings) (place : Place) :
    (t.scan s place).Perm (t.found s place) :=
  List.mergeSort_perm ..

/-- A scan is in strict order exactly if no two of the files have the same text. -/
theorem pairwise_scan_iff :
    (t.scan s place).Pairwise (fun f g => f.relPath < g.relPath) ↔
      (t.found s place).Pairwise fun f g => f.relPath ≠ g.relPath := by
  rw [← (scan_perm t s place).pairwise_iff fun hxy => hxy.symm]
  have hle := pairwise_mergeSort_key ScannedFile.relPath (t.found s place)
  rw [← scan_eq] at hle
  exact ⟨fun h => h.imp Std.ne_of_lt, fun h => (hle.and h).imp fun h => Std.lt_of_le_of_ne h.1 h.2⟩

theorem filesBelow_eq {entries : List (Path × Entry)} (hs : s.respectIgnoreFiles = false)
    (hroot : t.top.at? place = some (.directory entries)) :
    t.filesBelow s place = filesOf t s [] place (.directory entries) := by
  unfold filesBelow
  rw [hroot, hs]
  rfl

section

variable {entries : List (Path × Entry)} (hproper : t.top.isProper = true)
  (hroot : t.top.at? place = some (.directory entries)) (hs : s.respectIgnoreFiles = false)

include hproper hroot hs

theorem mem_scan_iff {f : ScannedFile} : f ∈ t.scan s place ↔
    ∃ names content changed, (Entry.directory entries).Lists s names content changed ∧
      f = describeFile s (t.pathOf place) (.join names) content.size changed := by
  have hentries := (Entry.of_isProper_of_at? hproper hroot).2
  rw [(scan_perm t s place).mem_iff, found, filesBelow_eq hs hroot, List.mem_map]
  simp only [mem_filesOf_iff hs place _ _ hentries]
  constructor
  · rintro ⟨f, ⟨names, hplace, hlists⟩, rfl⟩
    refine ⟨names, f.content, f.changed, hlists, ?_⟩
    rw [describe, hplace, List.drop_left]
  · rintro ⟨names, content, changed, hlists, rfl⟩
    refine ⟨⟨place ++ names, content, changed⟩, ⟨names, rfl, hlists⟩, ?_⟩
    rw [describe, List.drop_left]

/-- What is said of the found files differs where it tells their places apart. -/
theorem pairwise_found {β : Type} {look : ScannedFile → β}
    (hlook : ∀ names names' content content' changed changed',
      (Entry.directory entries).Lists s names content changed →
      (Entry.directory entries).Lists s names' content' changed' →
      look (describeFile s (t.pathOf place) (.join names) content.size changed) =
        look (describeFile s (t.pathOf place) (.join names') content'.size changed') →
      names = names') :
    (t.found s place).Pairwise fun f g => look f ≠ look g := by
  have hentries := (Entry.of_isProper_of_at? hproper hroot).2
  rw [found, filesBelow_eq hs hroot, List.pairwise_map]
  refine (pairwise_filesOf hs place _ hentries).imp_of_mem fun {f g} hf hg hne hsame => ?_
  obtain ⟨names, hfplace, hflists⟩ := (mem_filesOf_iff hs place f _ hentries).mp hf
  obtain ⟨names', hgplace, hglists⟩ := (mem_filesOf_iff hs place g _ hentries).mp hg
  rw [describe, describe, hfplace, hgplace, List.drop_left, List.drop_left] at hsame
  rw [hfplace, hgplace, hlook _ _ _ _ _ _ hflists hglists hsame] at hne
  exact hne rfl

/-- The files that are found have different paths. -/
theorem pairwise_path : (t.found s place).Pairwise fun f g => f.path ≠ g.path :=
  pairwise_found hproper hroot hs fun _ _ _ _ _ _ hlists hlists' hpath =>
    hlists.names_eq (Entry.of_isProper_of_at? hproper hroot).2 hlists' (join_right_inj.mp hpath)

/-- Their texts are different exactly if those of all files to be found are. -/
theorem pairwise_relPath_iff :
    ((t.found s place).Pairwise fun f g => f.relPath ≠ g.relPath) ↔
      (Entry.directory entries).TextsDiffer s := by
  refine ⟨fun h names names' content content' changed changed' hlists hlists' htext => ?_,
    fun h => pairwise_found hproper hroot hs h⟩
  have hmem {names : Place} {content : ByteArray} {changed : Int}
      (hlists : (Entry.directory entries).Lists s names content changed) :
      describeFile s (t.pathOf place) (.join names) content.size changed ∈ t.found s place :=
    (scan_perm t s place).mem_iff.mp
      ((mem_scan_iff hproper hroot hs).mpr ⟨names, content, changed, hlists, rfl⟩)
  refine hlists.names_eq (Entry.of_isProper_of_at? hproper hroot).2 hlists' ?_
  by_contra hne
  have hfiles : describeFile s (t.pathOf place) (.join names) content.size changed ≠
      describeFile s (t.pathOf place) (.join names') content'.size changed' :=
    fun heq => hne (join_right_inj.mp (congrArg ScannedFile.path heq))
  have hsymm : Std.Symm fun f g : ScannedFile => f.relPath ≠ g.relPath := ⟨fun _ _ => Ne.symm⟩
  exact h.forall (hmem hlists) (hmem hlists') hfiles htext

theorem scan_perm_of_reordered {top : Entry} (h : t.top.Reordered top) :
    (Tree.scan ⟨t.mount, top⟩ s place).Perm (t.scan s place) := by
  obtain ⟨x, hx, hreordered⟩ := h.at? hroot
  cases hreordered with
  | @directory _ entries' hentries =>
    let t' : Tree := ⟨t.mount, top⟩
    have hfiles : (t'.found s place).Perm (t.found s place) := by
      rw [found, found, filesBelow_eq (t := t') hs hx, filesBelow_eq hs hroot,
        filesOf_congr hs t' t]
      exact (perm_filesOf hs place (.directory hentries)).symm.map _
    exact (scan_perm t' s place).trans (hfiles.trans (scan_perm t s place).symm)

/-- Files with different texts come in one order only. -/
theorem scan_eq_of_reordered (hdiffer : (Entry.directory entries).TextsDiffer s) {top : Entry}
    (h : t.top.Reordered top) : Tree.scan ⟨t.mount, top⟩ s place = t.scan s place := by
  have hperm := scan_perm_of_reordered hproper hroot hs h
  have hscan := pairwise_scan_iff.mpr ((pairwise_relPath_iff hproper hroot hs).mpr hdiffer)
  have hscan' : (Tree.scan ⟨t.mount, top⟩ s place).Pairwise fun f g => f.relPath < g.relPath := by
    rw [pairwise_scan_iff, ← (scan_perm _ s place).pairwise_iff fun hxy => hxy.symm]
    exact hperm.symm.pairwise (hscan.imp Std.ne_of_lt) fun hxy => hxy.symm
  refine List.Perm.eq_of_pairwise (fun f g _ _ hfg hgf => ?_) hscan' hscan hperm
  exact absurd hgf (String.lt_asymm hfg)

omit hproper in
theorem scan_sublist :
    (t.scan { s with respectIgnoreFiles := true } place).Sublist (t.scan s place) := by
  let s' : ScanSettings := { s with respectIgnoreFiles := true }
  have hsettings : { s' with respectIgnoreFiles := false } = s := by rw [← hs]
  have hfiles : (t.found s' place).Sublist (t.found s place) := by
    rw [found, found, filesBelow_eq hs hroot, filesBelow, hroot]
    have h := filesOf_sublist (t := t) (s := s') ((t.ignoreRulesDownTo place).drop 1) place
      (.directory entries)
    rw [hsettings] at h
    exact h.map _
  exact mergeSort_sublist hfiles

end

/-- Without ignore files, a scan of a directory finds the files at places below it such that no
directory on the way there is left out by the text of its name, and nothing else. Each of them
is listed once. They are in the order of the bytes of the texts of their paths, and those with
the same text in the order in which the directories list them. A file is marked exactly if its
size is over the limit.

The order is strict, and does not depend on the order in which directories list their entries,
if no two files have the same text, as it is where all names are UTF-8; otherwise it is the same
files that are found, whatever the order. With ignore files a scan lists some of the same
files. -/
theorem scan_exact (t : Tree) (s : ScanSettings) (place : Place)
    (entries : List (Path × Entry)) (hproper : t.top.isProper = true)
    (hroot : t.top.at? place = some (.directory entries)) (hs : s.respectIgnoreFiles = false) :
    (∀ f ∈ t.scan s place, ∃ names content changed,
      (Entry.directory entries).Lists s names content changed ∧
        f = describeFile s (t.pathOf place) (.join names) content.size changed) ∧
    (∀ names content changed, (Entry.directory entries).Lists s names content changed →
      ((t.scan s place).filter fun f => f.path == .join [t.pathOf place, .join names]) =
        [describeFile s (t.pathOf place) (.join names) content.size changed]) ∧
    ((t.scan s place).Pairwise fun f g => Text.bytes f.relPath ≤ Text.bytes g.relPath) ∧
    (∀ text, ((t.scan s place).filter fun f => f.relPath == text) =
      (t.found s place).filter fun f => f.relPath == text) ∧
    ((t.scan s place).Pairwise (fun f g => Text.bytes f.relPath < Text.bytes g.relPath) ↔
      (Entry.directory entries).TextsDiffer s) ∧
    ((∀ names content changed, (Entry.directory entries).Lists s names content changed →
      ∀ n ∈ names, n.text?.isSome) → (Entry.directory entries).TextsDiffer s) ∧
    (∀ f ∈ t.scan s place, f.oversized = true ↔ s.maxFileSize < f.size) ∧
    (∀ top, t.top.Reordered top →
      (Tree.scan ⟨t.mount, top⟩ s place).Perm (t.scan s place) ∧
        ((Entry.directory entries).TextsDiffer s →
          Tree.scan ⟨t.mount, top⟩ s place = t.scan s place)) ∧
    (t.scan { s with respectIgnoreFiles := true } place).Sublist (t.scan s place) := by
  have hsorted := pairwise_mergeSort_key ScannedFile.relPath (t.found s place)
  have hpaths := (scan_perm t s place).symm.pairwise (pairwise_path hproper hroot hs)
    fun hxy => hxy.symm
  refine ⟨fun f hf => (mem_scan_iff hproper hroot hs).mp hf, fun names content changed hlists => ?_,
    hsorted.imp Text.le_iff_bytes_le.mp, fun text => keyed_mergeSort ScannedFile.relPath text _, ?_,
    Entry.textsDiffer_of_isSome (Entry.of_isProper_of_at? hproper hroot).2, fun f hf => ?_,
    fun top htop => ⟨scan_perm_of_reordered hproper hroot hs htop, fun hdiffer =>
      scan_eq_of_reordered hproper hroot hs hdiffer htop⟩, scan_sublist hroot hs⟩
  · exact keyed_eq_singleton ScannedFile.path hpaths
      ((mem_scan_iff hproper hroot hs).mpr ⟨names, content, changed, hlists, rfl⟩)
  · simp only [← Text.lt_iff_bytes_lt]
    rw [pairwise_scan_iff, pairwise_relPath_iff hproper hroot hs]
  · obtain ⟨names, content, changed, -, rfl⟩ := (mem_scan_iff hproper hroot hs).mp hf
    exact decide_eq_true_iff

/-- A directory with the name of those that are left out, and in it another such directory, a
file of that name further down, a hidden file and a link. -/
def namedAlike : Tree :=
  ⟨"/r", .directory
    [ ("build", .directory
        [ ("deep", .directory [("build", .file "x".toUTF8 1)]),
          ("build", .directory [("left.py", .file "x".toUTF8 1)]),
          (".hidden.py", .file "xy".toUTF8 1), ("latest", .link "deep") ]) ]⟩

/-- Settings that leave out directories of that name. -/
def namedAlikeSettings : ScanSettings :=
  { ignoreDirs := ["build"], maxFileSize := 1, respectIgnoreFiles := false }

/-- The root of the scan is entered, and the file is found. -/
theorem scan_exact_namedAlike :
    ∃ entries, namedAlike.top.isProper = true ∧
      namedAlike.top.at? [ofString "build"] = some (.directory entries) ∧
      namedAlikeSettings.respectIgnoreFiles = false ∧
      ((namedAlike.scan namedAlikeSettings [ofString "build"]).filter fun f =>
          f.path == ofString "/r/build/deep/build") =
        [describeFile namedAlikeSettings "/r/build" "deep/build" 1 1] ∧
      (namedAlike.scan namedAlikeSettings [ofString "build"]).Pairwise fun f g =>
        Text.bytes f.relPath ≤ Text.bytes g.relPath := by
  have hproper : namedAlike.top.isProper = true := by decide +kernel
  refine ⟨_, hproper, rfl, rfl, ?_⟩
  obtain ⟨-, honce, horder, -⟩ :=
    scan_exact namedAlike namedAlikeSettings [ofString "build"] _ hproper rfl rfl
  exact ⟨honce [ofString "deep", ofString "build"] "x".toUTF8 1 ⟨rfl, by decide +kernel⟩, horder⟩

/-- Two files whose names differ in a byte that is not UTF-8. -/
def unreadableEntries : List (Path × Entry) :=
  [ (⟨[0x61, 0xFF]⟩, .file "x".toUTF8 1), (⟨[0x61, 0xFE]⟩, .file "x".toUTF8 1) ]

/-- A tree with these files. -/
def unreadableTree : Tree := ⟨"/r", .directory unreadableEntries⟩

/-- The files are listed under the same text, one after the other as the directory has them. -/
theorem scan_unreadable :
    ∃ (s : ScanSettings) (top : Entry), unreadableTree.top.isProper = true ∧
      unreadableTree.top.at? [] = some (.directory unreadableEntries) ∧
      s.respectIgnoreFiles = false ∧ unreadableTree.top.Reordered top ∧
      Tree.scan ⟨unreadableTree.mount, top⟩ s [] ≠ unreadableTree.scan s [] ∧
      ¬ (unreadableTree.scan s []).Pairwise fun f g =>
        Text.bytes f.relPath < Text.bytes g.relPath := by
  let s : ScanSettings := { respectIgnoreFiles := false }
  let first := describeFile s "/r" ⟨[0x61, 0xFF]⟩ 1 1
  let second := describeFile s "/r" ⟨[0x61, 0xFE]⟩ 1 1
  have hscan : unreadableTree.scan s [] = [first, second] := by
    rw [scan, List.mergeSort_of_pairwise (by decide +kernel)]
    decide +kernel
  let top := Entry.directory unreadableEntries.reverse
  have hscan' : Tree.scan ⟨unreadableTree.mount, top⟩ s [] = [second, first] := by
    rw [scan, List.mergeSort_of_pairwise (by decide +kernel)]
    decide +kernel
  refine ⟨s, top, by decide +kernel, rfl, rfl, .directory (.swap (by decide) _ _ _), ?_, ?_⟩
  · rw [hscan, hscan']
    decide +kernel
  · rw [hscan]
    decide +kernel

end

end CodeAtlas.Tree
