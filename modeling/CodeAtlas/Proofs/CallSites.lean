import CodeAtlas.Proofs.SyntaxTree
import CodeAtlas.Source.Extract
import Mathlib.Data.List.Forall2
import Mathlib.Data.List.Nodup

/-!
# One call site for each call

Nodes of a tree that look alike are told apart by their addresses, the numbers of the
children on the way down to them. `Node.addresses` lists the addresses of all nodes in the
order of `Node.preorder`, each once (`nodup_addresses`) and no other (`mem_addresses`), at
whatever depth.

A call is reported if what is called is a name or an attribute (`Calls`). The call sites of
a tree are those of its calls, entry by entry along a list of addresses without repetition
(`callSites_by_address`) : none is missed, none is reported twice, and each is reported with
its own name, line and flag.
-/

namespace CodeAtlas.Syntax.Node

/-! ## Addresses -/

/-- The node at an address : each number is the place of a child among its siblings. -/
def at? (n : Node) : List Nat → Option Node
  | [] => some n
  | i :: address => n.children[i]?.bind (·.at? address)

theorem at?_cons_eq_some {n m : Node} {i : Nat} {address : List Nat} :
    n.at? (i :: address) = some m ↔ ∃ c, n.children[i]? = some c ∧ c.at? address = some m :=
  Option.bind_eq_some_iff

mutual

/-- The addresses of all nodes, in the order of the nodes. -/
def addresses : Node → List (List Nat)
  | .mk _ cs => [] :: addressesFrom 0 cs

/-- The addresses of the nodes in children of which the first has the number `i`. -/
def addressesFrom (i : Nat) : List Node → List (List Nat)
  | [] => []
  | c :: cs => (addresses c).map (i :: ·) ++ addressesFrom (i + 1) cs

end

theorem mem_addressesFrom {address : List Nat} : ∀ {i : Nat} {cs : List Node},
    address ∈ addressesFrom i cs ↔
      ∃ j c rest, cs[j]? = some c ∧ rest ∈ c.addresses ∧ address = (i + j) :: rest
  | i, [] => by simp [addressesFrom]
  | i, c :: cs => by
    rw [addressesFrom, List.mem_append, List.mem_map, mem_addressesFrom]
    constructor
    · rintro (⟨rest, hrest, rfl⟩ | ⟨j, d, rest, hd, hrest, rfl⟩)
      · exact ⟨0, c, rest, rfl, hrest, rfl⟩
      · exact ⟨j + 1, d, rest, hd, hrest, by rw [Nat.add_right_comm, Nat.add_assoc]⟩
    · rintro ⟨j, d, rest, hd, hrest, rfl⟩
      cases j with
      | zero =>
        obtain rfl := Option.some.inj hd
        exact .inl ⟨rest, hrest, rfl⟩
      | succ j => exact .inr ⟨j, d, rest, hd, hrest, by rw [Nat.add_right_comm, Nat.add_assoc]⟩

theorem addresses_eq (n : Node) : n.addresses = [] :: addressesFrom 0 n.children := by
  cases n
  rfl

/-- The addresses are those at which there is a node. -/
theorem mem_addresses {n : Node} {address : List Nat} :
    address ∈ n.addresses ↔ ∃ m, n.at? address = some m := by
  induction address generalizing n with
  | nil => simp [addresses_eq, at?]
  | cons i address ih =>
    rw [addresses_eq, List.mem_cons, mem_addressesFrom]
    simp only [at?_cons_eq_some, reduceCtorEq, false_or, Nat.zero_add, List.cons.injEq]
    constructor
    · rintro ⟨j, c, rest, hc, hrest, rfl, rfl⟩
      obtain ⟨m, hm⟩ := ih.mp hrest
      exact ⟨m, c, hc, hm⟩
    · rintro ⟨m, c, hc, hm⟩
      exact ⟨i, c, address, hc, ih.mpr ⟨m, hm⟩, rfl, rfl⟩

mutual

/-- No address is listed twice. -/
theorem nodup_addresses : ∀ n : Node, n.addresses.Nodup
  | .mk _ cs => by
    rw [addresses, List.nodup_cons]
    refine ⟨fun h => ?_, nodup_addressesFrom 0 cs⟩
    obtain ⟨_, _, _, -, -, hne⟩ := mem_addressesFrom.mp h
    cases hne

theorem nodup_addressesFrom : ∀ (i : Nat) (cs : List Node), (addressesFrom i cs).Nodup
  | _, [] => List.nodup_nil
  | i, c :: cs => by
    rw [addressesFrom, List.nodup_append]
    refine ⟨(nodup_addresses c).map fun _ _ h => (List.cons.inj h).2,
      nodup_addressesFrom (i + 1) cs, ?_⟩
    rintro a ha b hb rfl
    obtain ⟨rest, -, rfl⟩ := List.mem_map.mp ha
    obtain ⟨j, _, _, -, -, heq⟩ := mem_addressesFrom.mp hb
    have := (List.cons.inj heq).1
    omega

end

mutual

/-- The nodes at the addresses of a tree are its nodes. -/
theorem map_at?_addresses : ∀ n : Node, n.addresses.map n.at? = n.preorder.map some
  | .mk i cs => by
    rw [addresses, preorder, List.map_cons, List.map_cons]
    exact congrArg (_ :: ·) (map_at?_addressesFrom (.mk i cs) 0 cs fun j => by simp [children])

/-- The same for the last children of a node, of which the first has the number `i`. -/
theorem map_at?_addressesFrom (n : Node) : ∀ (i : Nat) (cs : List Node),
    (∀ j, cs[j]? = n.children[i + j]?) → (addressesFrom i cs).map n.at? = (preorderAll cs).map some
  | _, [], _ => rfl
  | i, c :: cs, h => by
    have hfirst : n.children[i]? = some c := (h 0).symm
    have hbelow : (c.addresses.map (i :: ·)).map n.at? = c.addresses.map c.at? := by
      rw [List.map_map]
      refine List.map_congr_left fun address _ => ?_
      simp [at?, hfirst]
    rw [addressesFrom, preorderAll, List.map_append, List.map_append, hbelow, map_at?_addresses c,
      map_at?_addressesFrom n (i + 1) cs fun j => by rw [Nat.add_right_comm]; exact h (j + 1)]

end

end CodeAtlas.Syntax.Node

namespace CodeAtlas.Source

open CodeAtlas.Facts CodeAtlas.Syntax

/-! ## Calls -/

/-- Whether a node is a call of something that has a name, which makes the call site : a name
by itself, or the name of an attribute. -/
inductive Calls (n : Node) : CallSite → Prop where
  | ofName {f : Node} (hcall : n.kind = "call") (hfunction : n.field? "function" = some f)
      (hname : f.kind = "identifier") : Calls n ⟨f.text, startLine n, false⟩
  | ofAttribute {f name : Node} (hcall : n.kind = "call")
      (hfunction : n.field? "function" = some f) (haccess : f.kind = "attribute")
      (hattribute : f.field? "attribute" = some name) (hname : name.kind = "identifier") :
      Calls n ⟨name.text, startLine n, true⟩

theorem calls_of_callOf? {n : Node} {found : Nat × CallSite} (h : callOf? n = some found) :
    Calls n found.2 := by
  unfold callOf? at h
  split at h
  · rename_i hcall
    split at h
    · rename_i f hfunction
      split at h
      · rename_i hname
        rw [← Option.some.inj h]
        exact .ofName hcall hfunction hname
      · split at h
        · rename_i haccess
          split at h
          · rename_i name hattribute
            split at h
            · rename_i hname
              rw [← Option.some.inj h]
              exact .ofAttribute hcall hfunction haccess hattribute hname
            · cases h
          · cases h
        · cases h
    · cases h
  · cases h

theorem Calls.exists_callOf? {n : Node} {site : CallSite} (h : Calls n site) :
    ∃ place, callOf? n = some (place, site) := by
  cases h with
  | ofName hcall hfunction hname => simp [callOf?, hcall, hfunction, hname]
  | ofAttribute hcall hfunction haccess hattribute hname =>
    simp [callOf?, hcall, hfunction, haccess, hattribute, hname]

/-! ## Calls by address -/

/-- The call at an address, with the address. -/
def callAt? (root : Node) (address : List Nat) : Option (List Nat × Nat × CallSite) :=
  ((root.at? address).bind callOf?).map (address, ·)

theorem callAt?_eq_some {root : Node} {address : List Nat} {found : List Nat × Nat × CallSite}
    (h : callAt? root address = some found) :
    found.1 = address ∧ ∃ n, root.at? address = some n ∧ Calls n found.2.2 := by
  obtain ⟨call, hcall, rfl⟩ := Option.map_eq_some_iff.mp h
  obtain ⟨n, hn, hcall⟩ := Option.bind_eq_some_iff.mp hcall
  exact ⟨rfl, n, hn, calls_of_callOf? hcall⟩

/-- The calls of a tree with their addresses, in the order of the names that are called. -/
def locatedCalls (root : Node) : List (List Nat × Nat × CallSite) :=
  (root.addresses.filterMap (callAt? root)).mergeSort fun a b => decide (a.2.1 ≤ b.2.1)

theorem mem_locatedCalls {root : Node} {found : List Nat × Nat × CallSite} :
    found ∈ locatedCalls root ↔ ∃ address ∈ root.addresses, callAt? root address = some found := by
  rw [locatedCalls, List.mem_mergeSort, List.mem_filterMap]

theorem map_snd_filterMap_callAt? (root : Node) :
    (root.addresses.filterMap (callAt? root)).map (·.2) = root.preorder.filterMap callOf? := by
  have hsnd (address : List Nat) :
      (callAt? root address).map (·.2) = (root.at? address).bind callOf? := by
    simp [callAt?, Option.map_map, Function.comp_def]
  calc
    _ = root.addresses.filterMap fun address => (root.at? address).bind callOf? := by
      rw [List.map_filterMap]
      exact List.filterMap_congr fun address _ => hsnd address
    _ = (root.addresses.map root.at?).filterMap (·.bind callOf?) := by
      rw [List.filterMap_map]
      rfl
    _ = _ := by
      rw [Node.map_at?_addresses, List.filterMap_map]
      rfl

/-- The call sites are those of the calls at the addresses. -/
theorem callSites_eq_map (root : Node) : callSites root = (locatedCalls root).map (·.2.2) := by
  have hsort : (locatedCalls root).map (·.2) =
      (root.preorder.filterMap callOf?).mergeSort fun a b => decide (a.1 ≤ b.1) := by
    rw [← map_snd_filterMap_callAt?]
    exact List.map_mergeSort fun _ _ _ _ => rfl
  rw [callSites, ← hsort, List.map_map]
  rfl

theorem nodup_addresses_locatedCalls (root : Node) : ((locatedCalls root).map (·.1)).Nodup := by
  have hperm : (locatedCalls root).Perm (root.addresses.filterMap (callAt? root)) :=
    List.mergeSort_perm ..
  rw [(hperm.map _).nodup_iff]
  refine List.pairwise_map.mpr (List.pairwise_filterMap.mpr ?_)
  refine (Node.nodup_addresses root).imp fun hne a ha b hb heq => hne ?_
  rw [← (callAt?_eq_some ha).1, ← (callAt?_eq_some hb).1, heq]

/-- The call sites of a tree are those of its calls, one for each address at which there is a
call of something that has a name and none for any other, with the name that is called, the
first line of the call, and whether the name is that of an attribute. -/
theorem callSites_by_address (root : Node) :
    ∃ addresses : List (List Nat), addresses.Nodup ∧
      (∀ address, address ∈ addresses ↔
        ∃ n site, root.at? address = some n ∧ Calls n site) ∧
      List.Forall₂ (fun address site => ∃ n, root.at? address = some n ∧ Calls n site)
        addresses (callSites root) := by
  refine ⟨(locatedCalls root).map (·.1), nodup_addresses_locatedCalls root, fun address => ?_, ?_⟩
  · rw [List.mem_map]
    constructor
    · rintro ⟨found, hfound, rfl⟩
      obtain ⟨address, -, hcall⟩ := mem_locatedCalls.mp hfound
      obtain ⟨rfl, n, hn, hcalls⟩ := callAt?_eq_some hcall
      exact ⟨n, _, hn, hcalls⟩
    · rintro ⟨n, site, hn, hcalls⟩
      obtain ⟨place, hplace⟩ := hcalls.exists_callOf?
      refine ⟨(address, place, site), mem_locatedCalls.mpr ⟨address, ?_, ?_⟩, rfl⟩
      · exact Node.mem_addresses.mpr ⟨n, hn⟩
      · simp [callAt?, hn, hplace]
  · rw [callSites_eq_map, List.forall₂_map_left_iff, List.forall₂_map_right_iff, List.forall₂_same]
    intro found hfound
    obtain ⟨address, -, hcall⟩ := mem_locatedCalls.mp hfound
    obtain ⟨rfl, n, hn, hcalls⟩ := callAt?_eq_some hcall
    exact ⟨n, hn, hcalls⟩

end CodeAtlas.Source
