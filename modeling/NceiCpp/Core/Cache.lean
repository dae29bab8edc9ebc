import NceiCpp.Lib.LruInclusion

/-!
# The LRU cache

Model of `LruCache` (`include/ncei/cache.hpp`). `order_` is a list of nodes and a list
iterator is the number of a node, so that an iterator to an erased node can be told from a
valid one; what the standard library leaves undefined is `none`. `map_` is a
`Std.HashMap`: a lawful key type has an equivalence `==` that its hash respects. Clock
readings are nanoseconds, and durations are compared exactly.

* `Pairing`: the invariant. It pairs the nodes of `order_` with the entries of an LRU list.
* `step_simulates`: the cache does what the LRU list does.
* `run_refines`: so it does in every run.
* `run_inclusion`: a cache with more room holds and serves all that a smaller one does.
-/

namespace NceiCpp.Core

open LruList (Entry Op Outcome)

namespace LruCache

structure Config where
  maxEntries : ℕ := 1000
  ttl : ℤ := 3600

/-- A node of `order_`. -/
structure Node (Key : Type) where
  id : ℕ
  key : Key

structure CacheEntry (Value : Type) where
  value : Value
  insertedAt : ℤ
  listIt : ℕ

end LruCache

open LruCache

/-- `nextNode` is a number that no node had so far. -/
structure LruCache (Key Value : Type) [BEq Key] [Hashable Key] where
  config : LruCache.Config
  order : List (LruCache.Node Key) := []
  map : Std.HashMap Key (LruCache.CacheEntry Value) := ∅
  nextNode : ℕ := 0

namespace LruCache

/-- Nanoseconds in a `std::chrono::seconds{1}`. -/
def nsPerSecond : ℤ := 1000000000

variable {Key Value : Type} [BEq Key] [Hashable Key]

def new (config : Config) : LruCache Key Value := { config := config }

/-! ## `std::list` -/

/-- `order_.erase(it)`. -/
def eraseNode (order : List (Node Key)) (it : ℕ) : Option (List (Node Key)) :=
  if (order.find? fun n => n.id == it).isSome then some (order.eraseP fun n => n.id == it)
  else none

/-- `order_.splice(order_.begin(), order_, it)`. -/
def splice (order : List (Node Key)) (it : ℕ) : Option (List (Node Key)) :=
  (order.find? fun n => n.id == it).map fun n => n :: order.eraseP fun n => n.id == it

/-! ## Operations -/

/-- `get` (lines 27–47), with the reading of the clock. -/
def get (c : LruCache Key Value) (key : Key) (now : ℤ) :
    Option (Outcome Value × LruCache Key Value) :=
  match c.map[key]? with
  | none => some (.found none, c)
  | some entry =>
    if now - entry.insertedAt > c.config.ttl * nsPerSecond then do
      let order ← eraseNode c.order entry.listIt
      return (.found none, { c with order := order, map := c.map.erase key })
    else do
      let order ← splice c.order entry.listIt
      return (.found (some entry.value), { c with order := order })

/-- The loop of `put` (lines 73–76). -/
def evict (c : LruCache Key Value) : Option (LruCache Key Value) :=
  if c.map.size > c.config.maxEntries then
    match _h : c.order.getLast? with
    | none => none
    | some back => evict { c with order := c.order.dropLast, map := c.map.erase back.key }
  else some c
termination_by c.order.length
decreasing_by
  have hpos : 0 < c.order.length := by
    rw [List.length_pos_iff]
    rintro hnil
    simp [hnil] at _h
  rw [List.length_dropLast]
  omega

/-- `put` (lines 50–77), with the reading of the clock; `throws` says that `map_.emplace`
    throws. -/
def put (c : LruCache Key Value) (key : Key) (value : Value) (now : ℤ) (throws : Bool) :
    Option (Outcome Value × LruCache Key Value) :=
  if c.config.maxEntries = 0 ∨ c.config.ttl ≤ 0 then some (.done, c)
  else
    match c.map[key]? with
    | some entry => do
      let map := c.map.modify key fun e => { e with value := value, insertedAt := now }
      let order ← splice c.order entry.listIt
      return (.done, { c with order := order, map := map })
    | none => do
      let node : Node Key := { id := c.nextNode, key := key }
      let pushed := { c with order := node :: c.order, nextNode := c.nextNode + 1 }
      if throws then return (.failed, { pushed with order := pushed.order.tail })
      else
        let entry : CacheEntry Value := { value := value, insertedAt := now, listIt := node.id }
        let evicted ← evict { pushed with map := pushed.map.insertIfNew key entry }
        return (.done, evicted)

/-- `invalidate` (lines 80–87). -/
def invalidate (c : LruCache Key Value) (key : Key) :
    Option (Outcome Value × LruCache Key Value) :=
  match c.map[key]? with
  | none => some (.done, c)
  | some entry => do
    let order ← eraseNode c.order entry.listIt
    return (.done, { c with order := order, map := c.map.erase key })

/-- `clear` (lines 90–94). -/
def clear (c : LruCache Key Value) : LruCache Key Value := { c with order := [], map := ∅ }

/-- `size` (lines 97–100). -/
def size (c : LruCache Key Value) : ℕ := c.map.size

def step (c : LruCache Key Value) : Op Key Value → Option (Outcome Value × LruCache Key Value)
  | .put key value now throws => c.put key value now throws
  | .get key now => c.get key now
  | .invalidate key => c.invalidate key
  | .clear => some (.done, c.clear)
  | .size => some (.count c.size, c)

/-! ## The invariant -/

/-- `order_` and `map_` fit together. -/
structure Coherent (c : LruCache Key Value) : Prop where
  /-- `order_` has no repeated key. -/
  keys : c.order.Pairwise fun m n => (m.key == n.key) = false
  /-- The nodes of `order_` are different nodes. -/
  nodes : c.order.Pairwise fun m n => m.id ≠ n.id
  /-- The keys of `order_` are those of `map_`. -/
  same_keys : ∀ key, key ∈ c.map ↔ ∃ n ∈ c.order, (n.key == key) = true
  /-- The iterator of an entry points at the node of its key. -/
  iterators : ∀ key entry, c.map[key]? = some entry →
    ∃ n ∈ c.order, n.id = entry.listIt ∧ (n.key == key) = true
  size_le : c.size ≤ c.config.maxEntries

/-- The node belongs to the entry `e` of the LRU list, and its key is mapped to what `e` has. -/
def Linked (map : Std.HashMap Key (CacheEntry Value)) (p : Node Key × Entry Key Value) : Prop :=
  (p.1.key == p.2.key) = true ∧ map[p.1.key]? = some ⟨p.2.value, p.2.insertedAt, p.1.id⟩

/-- `pairs` lists the nodes of `order_`, each with its entry in the LRU list. -/
structure Pairing (c : LruCache Key Value) (pairs : List (Node Key × Entry Key Value)) : Prop where
  order_eq : c.order = pairs.map Prod.fst
  linked : ∀ p ∈ pairs, Linked c.map p
  keys : pairs.Pairwise fun p q => (p.1.key == q.1.key) = false
  nodes : pairs.Pairwise fun p q => p.1.id ≠ q.1.id
  fresh : ∀ p ∈ pairs, p.1.id < c.nextNode
  listed : ∀ key ∈ c.map, ∃ p ∈ pairs, (p.1.key == key) = true
  size_eq : c.map.size = pairs.length

/-- The cache with this configuration holds the LRU list `l`. -/
def Refines (config : Config) (c : LruCache Key Value) (l : List (Entry Key Value)) : Prop :=
  c.config = config ∧ ∃ pairs, c.Pairing pairs ∧ l = pairs.map Prod.snd

variable {c : LruCache Key Value} {pairs front back : List (Node Key × Entry Key Value)}
  {p : Node Key × Entry Key Value} {key : Key}

theorem new_refines (config : Config) : (new config : LruCache Key Value).Refines config [] :=
  ⟨rfl, [], ⟨rfl, by simp, .nil, .nil, by simp, by simp [new], rfl⟩, rfl⟩

theorem clear_refines {config : Config} {l : List (Entry Key Value)} (h : c.Refines config l) :
    c.clear.Refines config [] :=
  ⟨h.1, [], ⟨rfl, by simp, .nil, .nil, by simp, by simp [clear], rfl⟩, rfl⟩

/-! ## The place of a key -/

/-- The place of a key that is mapped. -/
structure Split (c : LruCache Key Value) (pairs : List (Node Key × Entry Key Value)) (key : Key)
    (front : List (Node Key × Entry Key Value)) (p : Node Key × Entry Key Value)
    (back : List (Node Key × Entry Key Value)) : Prop where
  pairs_eq : pairs = front ++ p :: back
  key_eq : (p.1.key == key) = true
  keys_ne : ∀ q ∈ front ++ back, (q.1.key == key) = false
  nodes_ne : ∀ q ∈ front ++ back, q.1.id ≠ p.1.id
  linked : Linked c.map p

theorem Split.find_node (hs : c.Split pairs key front p back) (h : c.Pairing pairs) :
    (c.order.find? fun n => n.id == p.1.id) = some p.1 := by
  rw [h.order_eq, hs.pairs_eq, List.map_append, List.map_cons, List.find?_append,
    List.find?_eq_none.mpr, Option.none_or, List.find?_cons, beq_self_eq_true]
  intro n hn
  obtain ⟨q, hq, rfl⟩ := List.mem_map.mp hn
  simpa using hs.nodes_ne q (List.mem_append_left _ hq)

theorem Split.erase_node (hs : c.Split pairs key front p back) (h : c.Pairing pairs) :
    (c.order.eraseP fun n => n.id == p.1.id) = (front ++ back).map Prod.fst := by
  rw [h.order_eq, hs.pairs_eq, List.map_append, List.map_cons, List.eraseP_append_right,
    List.eraseP_cons, beq_self_eq_true, List.map_append]
  · rfl
  · intro n hn
    obtain ⟨q, hq, rfl⟩ := List.mem_map.mp hn
    simpa using hs.nodes_ne q (List.mem_append_left _ hq)

theorem Split.eraseNode (hs : c.Split pairs key front p back) (h : c.Pairing pairs) :
    LruCache.eraseNode c.order p.1.id = some ((front ++ back).map Prod.fst) := by
  rw [LruCache.eraseNode, hs.find_node h, hs.erase_node h]
  rfl

theorem Split.splice (hs : c.Split pairs key front p back) (h : c.Pairing pairs) :
    LruCache.splice c.order p.1.id = some (p.1 :: (front ++ back).map Prod.fst) := by
  rw [LruCache.splice, hs.find_node h, hs.erase_node h]
  rfl

/-- Without `p` the pairs still have different keys and different nodes. -/
theorem Split.rest (hs : c.Split pairs key front p back) (h : c.Pairing pairs) :
    (front ++ back).Pairwise (fun q r => (q.1.key == r.1.key) = false) ∧
      (front ++ back).Pairwise (fun q r => q.1.id ≠ r.1.id) ∧
      (∀ q ∈ front ++ back, q ∈ pairs) ∧ (front ++ back).length + 1 = pairs.length := by
  have hsub : (front ++ back).Sublist pairs := by
    rw [hs.pairs_eq]
    exact (List.Sublist.refl front).append (List.sublist_cons_self p back)
  refine ⟨h.keys.sublist hsub, h.nodes.sublist hsub, fun q hq => hsub.subset hq, ?_⟩
  rw [hs.pairs_eq]
  simp only [List.length_append, List.length_cons]
  omega

section Equivalence

variable [EquivBEq Key]

theorem Pairing.split (h : c.Pairing pairs) (hkey : key ∈ c.map) :
    ∃ front p back, c.Split pairs key front p back := by
  obtain ⟨p, hp, heq⟩ := h.listed key hkey
  obtain ⟨front, back, rfl⟩ := List.append_of_mem hp
  have hkeys := h.keys
  have hnodes := h.nodes
  rw [List.pairwise_middle fun hxy => by rw [← hxy]; exact BEq.comm, List.pairwise_cons] at hkeys
  rw [List.pairwise_middle fun hxy => Ne.symm hxy, List.pairwise_cons] at hnodes
  refine ⟨front, p, back, rfl, heq, fun q hq => ?_, fun q hq => (hnodes.1 q hq).symm,
    h.linked p hp⟩
  rw [← BEq.congr_right heq, BEq.comm]
  exact hkeys.1 q hq

/-- The entries of other keys have other keys in the LRU list, too. -/
theorem Pairing.entries_ne (h : c.Pairing pairs) {part : List (Node Key × Entry Key Value)}
    (hsub : part ⊆ pairs) (hne : ∀ q ∈ part, (q.1.key == key) = false) :
    ∀ e ∈ part.map Prod.snd, (e.key == key) = false := by
  intro e he
  obtain ⟨q, hq, rfl⟩ := List.mem_map.mp he
  rw [← BEq.congr_left (h.linked q (hsub hq)).1]
  exact hne q hq

/-- The entry of `key` in the LRU list is the first one with that key. -/
theorem Split.entry_key (hs : c.Split pairs key front p back) (h : c.Pairing pairs) :
    (p.2.key == key) = true ∧ ∀ e ∈ front.map Prod.snd, (e.key == key) = false := by
  have hsub : front ⊆ pairs := by
    rw [hs.pairs_eq]
    exact List.subset_append_left _ _
  refine ⟨?_, h.entries_ne hsub fun q hq => hs.keys_ne q (List.mem_append_left _ hq)⟩
  rw [← BEq.congr_left hs.linked.1]
  exact hs.key_eq

theorem Split.find (hs : c.Split pairs key front p back) (h : c.Pairing pairs) :
    LruList.find key (pairs.map Prod.snd) = some p.2 := by
  obtain ⟨hkey, hne⟩ := hs.entry_key h
  rw [hs.pairs_eq, List.map_append, List.map_cons]
  exact LruList.find_split hkey hne

theorem Split.remove (hs : c.Split pairs key front p back) (h : c.Pairing pairs) :
    LruList.remove key (pairs.map Prod.snd) = (front ++ back).map Prod.snd := by
  obtain ⟨hkey, hne⟩ := hs.entry_key h
  rw [hs.pairs_eq, List.map_append, List.map_append, List.map_cons]
  exact LruList.remove_split hkey hne

/-- With the node of `key` in front and the entry `e` for it. -/
theorem Split.touched (hs : c.Split pairs key front p back) (h : c.Pairing pairs)
    {map : Std.HashMap Key (CacheEntry Value)} {e : Entry Key Value}
    (he : (p.1.key == e.key) = true) (hsize : map.size = c.map.size)
    (hmem : ∀ k, k ∈ map → k ∈ c.map)
    (hentry : ∀ k, (key == k) = true → map[k]? = some ⟨e.value, e.insertedAt, p.1.id⟩)
    (hother : ∀ k, (key == k) = false → map[k]? = c.map[k]?) :
    { c with order := p.1 :: (front ++ back).map Prod.fst, map := map }.Pairing
      ((p.1, e) :: (front ++ back)) := by
  obtain ⟨hkeys, hnodes, hsub, hlen⟩ := hs.rest h
  refine ⟨rfl, ?_, List.pairwise_cons.mpr ⟨fun q hq => ?_, hkeys⟩,
    List.pairwise_cons.mpr ⟨fun q hq => (hs.nodes_ne q hq).symm, hnodes⟩, ?_, fun k hk => ?_, ?_⟩
  · intro q hq
    rcases List.mem_cons.mp hq with rfl | hq
    · exact ⟨he, hentry _ (BEq.symm hs.key_eq)⟩
    · refine ⟨(h.linked q (hsub q hq)).1, ?_⟩
      rw [← (h.linked q (hsub q hq)).2]
      apply hother
      rw [BEq.comm]
      exact hs.keys_ne q hq
  · show (p.1.key == q.1.key) = false
    rw [BEq.congr_left hs.key_eq, BEq.comm]
    exact hs.keys_ne q hq
  · intro q hq
    rcases List.mem_cons.mp hq with rfl | hq
    · exact h.fresh p (by rw [hs.pairs_eq]; simp)
    · exact h.fresh q (hsub q hq)
  · obtain ⟨q, hq, heq⟩ := h.listed k (hmem k hk)
    rw [hs.pairs_eq, List.mem_append, List.mem_cons] at hq
    rcases hq with hq | rfl | hq
    · exact ⟨q, List.mem_cons_of_mem _ (List.mem_append_left _ hq), heq⟩
    · exact ⟨_, List.mem_cons_self, heq⟩
    · exact ⟨q, List.mem_cons_of_mem _ (List.mem_append_right _ hq), heq⟩
  · show map.size = _
    rw [hsize, h.size_eq, List.length_cons, hlen]

end Equivalence

variable [EquivBEq Key] [LawfulHashable Key]

theorem Split.entry (hs : c.Split pairs key front p back) :
    c.map[key]? = some ⟨p.2.value, p.2.insertedAt, p.1.id⟩ := by
  rw [← Std.HashMap.getElem?_congr hs.key_eq]
  exact hs.linked.2

/-- Without the entry of `key`. -/
theorem Split.erased (hs : c.Split pairs key front p back) (h : c.Pairing pairs) :
    { c with order := (front ++ back).map Prod.fst, map := c.map.erase key }.Pairing
      (front ++ back) := by
  obtain ⟨hkeys, hnodes, hsub, hlen⟩ := hs.rest h
  refine ⟨rfl, fun q hq => ⟨(h.linked q (hsub q hq)).1, ?_⟩, hkeys, hnodes,
    fun q hq => h.fresh q (hsub q hq), fun k hk => ?_, ?_⟩
  · have hne : (key == q.1.key) = false := by
      rw [BEq.comm]
      exact hs.keys_ne q hq
    rw [Std.HashMap.getElem?_erase, hne, if_neg Bool.false_ne_true]
    exact (h.linked q (hsub q hq)).2
  · obtain ⟨hne, hk⟩ := Std.HashMap.mem_erase.mp hk
    obtain ⟨q, hq, heq⟩ := h.listed k hk
    rw [hs.pairs_eq, List.mem_append, List.mem_cons] at hq
    rcases hq with hq | rfl | hq
    · exact ⟨q, List.mem_append_left _ hq, heq⟩
    · rw [BEq.congr_left (BEq.symm hs.key_eq), heq] at hne
      cases hne
    · exact ⟨q, List.mem_append_right _ hq, heq⟩
  · have hmem : key ∈ c.map := by
      rw [Std.HashMap.mem_iff_isSome_getElem?, hs.entry]
      rfl
    show (c.map.erase key).size = _
    rw [Std.HashMap.size_erase, if_pos hmem, h.size_eq]
    omega

theorem Pairing.coherent (h : c.Pairing pairs) (hsize : pairs.length ≤ c.config.maxEntries) :
    c.Coherent where
  keys := by
    rw [h.order_eq, List.pairwise_map]
    exact h.keys
  nodes := by
    rw [h.order_eq, List.pairwise_map]
    exact h.nodes
  same_keys := by
    intro key
    rw [h.order_eq]
    constructor
    · intro hkey
      obtain ⟨p, hp, heq⟩ := h.listed key hkey
      exact ⟨p.1, List.mem_map_of_mem hp, heq⟩
    · rintro ⟨n, hn, heq⟩
      obtain ⟨p, hp, rfl⟩ := List.mem_map.mp hn
      rw [← Std.HashMap.mem_congr heq, Std.HashMap.mem_iff_isSome_getElem?, (h.linked p hp).2]
      rfl
  iterators := by
    intro key entry hentry
    obtain ⟨p, hp, heq⟩ := h.listed key (by
      rw [Std.HashMap.mem_iff_isSome_getElem?, hentry]
      rfl)
    refine ⟨p.1, h.order_eq ▸ List.mem_map_of_mem hp, ?_, heq⟩
    rw [← Std.HashMap.getElem?_congr heq, (h.linked p hp).2] at hentry
    exact congrArg CacheEntry.listIt (Option.some.inj hentry)
  size_le := h.size_eq.trans_le hsize

/-! ## New entries -/

theorem Pairing.absent (h : c.Pairing pairs) (hkey : key ∉ c.map) :
    ∀ q ∈ pairs, (q.1.key == key) = false := by
  intro q hq
  by_contra hne
  rw [Bool.not_eq_false] at hne
  apply hkey
  rw [← Std.HashMap.mem_congr hne, Std.HashMap.mem_iff_isSome_getElem?, (h.linked q hq).2]
  rfl

/-- With a new node in front and the entry for it. -/
theorem Pairing.pushed (h : c.Pairing pairs) (hkey : key ∉ c.map) (value : Value) (now : ℤ) :
    { c with
      order := { id := c.nextNode, key := key } :: c.order
      nextNode := c.nextNode + 1
      map := c.map.insertIfNew key { value := value, insertedAt := now, listIt := c.nextNode }
    }.Pairing (({ id := c.nextNode, key := key }, ⟨key, value, now⟩) :: pairs) := by
  have habsent := h.absent hkey
  refine ⟨?_, ?_, List.pairwise_cons.mpr ⟨fun q hq => ?_, h.keys⟩,
    List.pairwise_cons.mpr ⟨fun q hq => ?_, h.nodes⟩, ?_, fun k hk => ?_, ?_⟩
  · rw [h.order_eq]
    rfl
  · intro q hq
    rcases List.mem_cons.mp hq with rfl | hq
    · refine ⟨BEq.rfl, ?_⟩
      rw [Std.HashMap.getElem?_insertIfNew, if_pos ⟨BEq.rfl, hkey⟩]
    · refine ⟨(h.linked q hq).1, ?_⟩
      rw [Std.HashMap.getElem?_insertIfNew, if_neg]
      · exact (h.linked q hq).2
      · rintro ⟨heq, -⟩
        rw [BEq.comm, habsent q hq] at heq
        cases heq
  · show (key == q.1.key) = false
    rw [BEq.comm]
    exact habsent q hq
  · exact (h.fresh q hq).ne'
  · intro q hq
    rcases List.mem_cons.mp hq with rfl | hq
    · exact Nat.lt_succ_self _
    · exact (h.fresh q hq).trans (Nat.lt_succ_self _)
  · rcases Std.HashMap.mem_insertIfNew.mp hk with heq | hk
    · exact ⟨_, List.mem_cons_self, heq⟩
    · obtain ⟨q, hq, heq⟩ := h.listed k hk
      exact ⟨q, List.mem_cons_of_mem _ hq, heq⟩
  · show (c.map.insertIfNew key _).size = _
    rw [Std.HashMap.size_insertIfNew, if_neg hkey, h.size_eq, List.length_cons]

/-- Eviction keeps the first `max_entries` entries. -/
theorem Pairing.evict (h : c.Pairing pairs) :
    ∃ c', c.evict = some c' ∧ c'.config = c.config ∧
      c'.Pairing (pairs.take c.config.maxEntries) := by
  induction pairs using List.reverseRecOn generalizing c with
  | nil =>
    refine ⟨c, ?_, rfl, by rwa [List.take_nil]⟩
    rw [LruCache.evict, if_neg]
    rw [h.size_eq]
    exact Nat.not_lt_zero _
  | append_singleton front p ih =>
    rw [LruCache.evict]
    split_ifs with hsize
    · rw [h.size_eq, List.length_append, List.length_singleton] at hsize
      have hlast : c.order.getLast? = some p.1 := by
        rw [h.order_eq, List.map_append, List.map_singleton, List.getLast?_concat]
      have hs : c.Split (front ++ [p]) p.1.key front p [] := by
        obtain ⟨-, hkeys, hcross⟩ := List.pairwise_append.mp h.keys
        obtain ⟨-, -, hnodes⟩ := List.pairwise_append.mp h.nodes
        refine ⟨rfl, BEq.rfl, fun q hq => ?_, fun q hq => ?_, h.linked p (by simp)⟩
        · rw [List.append_nil] at hq
          exact hcross q hq p List.mem_cons_self
        · rw [List.append_nil] at hq
          exact hnodes q hq p List.mem_cons_self
      have herased := hs.erased h
      rw [List.append_nil] at herased
      have hdrop : c.order.dropLast = front.map Prod.fst := by
        rw [h.order_eq, List.map_append, List.map_singleton, List.dropLast_concat]
      obtain ⟨c', hevict, hconfig, hpairing⟩ := ih herased
      refine ⟨c', ?_, hconfig, ?_⟩
      · split
        · next hnone => cases hlast.symm.trans hnone
        · next back hback =>
          obtain rfl := Option.some.inj (hlast.symm.trans hback)
          rw [hdrop]
          exact hevict
      · rwa [List.take_append_of_le_length (by omega)]
    · rw [h.size_eq] at hsize
      exact ⟨c, rfl, rfl, by rwa [List.take_of_length_le (by omega)]⟩

/-! ## The operations -/

variable {config : Config} {l : List (Entry Key Value)}

theorem get_simulates (h : c.Refines config l) (key : Key) (now : ℤ) :
    ∃ c', c.get key now = some ((LruList.get (config.ttl * nsPerSecond) l key now).1, c') ∧
      c'.Refines config (LruList.get (config.ttl * nsPerSecond) l key now).2 := by
  obtain ⟨rfl, pairs, hp, rfl⟩ := h
  unfold get LruList.get
  by_cases hkey : key ∈ c.map
  · obtain ⟨front, p, back, hs⟩ := hp.split hkey
    rw [hs.entry, hs.find hp, hs.remove hp]
    dsimp only
    split_ifs
    · rw [hs.eraseNode hp]
      exact ⟨_, rfl, rfl, _, hs.erased hp, rfl⟩
    · rw [hs.splice hp]
      refine ⟨_, rfl, rfl, _, hs.touched hp hs.linked.1 rfl (fun _ hk => hk) (fun k hk => ?_)
        fun _ _ => rfl, rfl⟩
      rw [← Std.HashMap.getElem?_congr hk, hs.entry]
  · rw [Std.HashMap.getElem?_eq_none hkey,
      LruList.find_absent (hp.entries_ne (List.Subset.refl _) (hp.absent hkey))]
    exact ⟨c, rfl, rfl, pairs, hp, rfl⟩

theorem put_simulates (h : c.Refines config l) (hlen : l.length ≤ config.maxEntries) (key : Key)
    (value : Value) (now : ℤ) (throws : Bool) :
    ∃ c', c.put key value now throws = some ((LruList.put config.maxEntries
        (config.ttl * nsPerSecond) l key value now throws).1, c') ∧
      c'.Refines config (LruList.put config.maxEntries
        (config.ttl * nsPerSecond) l key value now throws).2 := by
  obtain ⟨rfl, pairs, hp, rfl⟩ := h
  have httl : c.config.ttl * nsPerSecond ≤ 0 ↔ c.config.ttl ≤ 0 := by
    unfold nsPerSecond
    omega
  unfold put LruList.put
  simp only [httl]
  by_cases hoff : c.config.maxEntries = 0 ∨ c.config.ttl ≤ 0
  · rw [if_pos hoff, if_pos hoff]
    exact ⟨c, rfl, rfl, pairs, hp, rfl⟩
  · rw [if_neg hoff, if_neg hoff]
    by_cases hkey : key ∈ c.map
    · -- the entry is updated and its node moved
      obtain ⟨front, p, back, hs⟩ := hp.split hkey
      rw [hs.entry, hs.find hp, hs.remove hp]
      dsimp only
      rw [hs.splice hp, if_neg (by simp)]
      refine ⟨_, rfl, rfl, _, hs.touched hp (e := ⟨key, value, now⟩) hs.key_eq
        Std.HashMap.size_modify (fun _ hk => Std.HashMap.mem_modify.mp hk) (fun k hk => ?_)
        (fun k hk => ?_), ?_⟩
      · rw [Std.HashMap.getElem?_modify, if_pos hk, hs.entry]
        rfl
      · rw [Std.HashMap.getElem?_modify, if_neg (by simp [hk])]
      · rw [List.length_map, ← (hs.rest hp).2.2.2] at hlen
        rw [List.take_of_length_le]
        · rfl
        · rw [List.length_cons, List.length_map]
          exact hlen
    · have habsent := hp.entries_ne (List.Subset.refl _) (hp.absent hkey)
      rw [Std.HashMap.getElem?_eq_none hkey, LruList.find_absent habsent,
        LruList.remove_absent habsent]
      cases throws with
      | true => exact ⟨_, rfl, rfl, pairs, ⟨hp.order_eq, hp.linked, hp.keys, hp.nodes,
          fun q hq => (hp.fresh q hq).trans (Nat.lt_succ_self _), hp.listed, hp.size_eq⟩, rfl⟩
      | false =>
        obtain ⟨c', hevict, hconfig, hp'⟩ := (hp.pushed hkey value now).evict
        refine ⟨c', ?_, hconfig, _, hp', ?_⟩
        · dsimp only
          rw [if_neg Bool.false_ne_true, hevict]
          rfl
        · rw [if_neg (by simp), List.map_take]
          rfl

theorem invalidate_simulates (h : c.Refines config l) (key : Key) :
    ∃ c', c.invalidate key = some (.done, c') ∧ c'.Refines config (LruList.remove key l) := by
  obtain ⟨rfl, pairs, hp, rfl⟩ := h
  unfold invalidate
  by_cases hkey : key ∈ c.map
  · obtain ⟨front, p, back, hs⟩ := hp.split hkey
    rw [hs.entry, hs.remove hp]
    dsimp only
    rw [hs.eraseNode hp]
    exact ⟨_, rfl, rfl, _, hs.erased hp, rfl⟩
  · rw [Std.HashMap.getElem?_eq_none hkey,
      LruList.remove_absent (hp.entries_ne (List.Subset.refl _) (hp.absent hkey))]
    exact ⟨c, rfl, rfl, pairs, hp, rfl⟩

theorem step_simulates (config : Config) :
    Simulation.Simulates (step : LruCache Key Value → _)
      (LruList.step config.maxEntries (config.ttl * nsPerSecond))
      fun c l => c.Refines config l ∧ l.length ≤ config.maxEntries := by
  rintro c l op ⟨h, hlen⟩
  have hlen' := LruList.step_length_le (config.ttl * nsPerSecond) hlen op
  cases op with
  | put key value now throws =>
    obtain ⟨c', hput, hc'⟩ := put_simulates h hlen key value now throws
    exact ⟨c', hput, hc', hlen'⟩
  | get key now =>
    obtain ⟨c', hget, hc'⟩ := get_simulates h key now
    exact ⟨c', hget, hc', hlen'⟩
  | invalidate key =>
    obtain ⟨c', hinvalidate, hc'⟩ := invalidate_simulates h key
    exact ⟨c', hinvalidate, hc', hlen'⟩
  | clear => exact ⟨c.clear, rfl, clear_refines h, hlen'⟩
  | size =>
    refine ⟨c, ?_, h, hlen'⟩
    obtain ⟨-, pairs, hp, rfl⟩ := h
    simp only [step, size, LruList.step]
    rw [hp.size_eq, List.length_map]

/-! ## The result -/

/-- For every configuration and every sequence of operations: no operation has undefined
    behaviour, the results are those of the LRU list, and at the end, as after each
    operation before, `order_` and `map_` fit together. Then a put of a new key whose
    insertion throws changes neither of them. -/
theorem run_refines (config : Config) (ops : List (Op Key Value)) :
    ∃ c, Simulation.run step (new config) ops = some ((Simulation.runTotal (LruList.step
        config.maxEntries (config.ttl * nsPerSecond)) [] ops).1, c) ∧
      c.Coherent ∧ ∀ key value now, key ∉ c.map →
        (c.put key value now true).map (fun r => (r.2.order, r.2.map)) = some (c.order, c.map) := by
  have hstart : (new config : LruCache Key Value).Refines config [] ∧
      ([] : List (Entry Key Value)).length ≤ config.maxEntries :=
    ⟨new_refines config, Nat.zero_le _⟩
  obtain ⟨c, hrun, ⟨hconfig, pairs, hp, hl⟩, hlen⟩ :=
    Simulation.run_eq (step_simulates config) hstart ops
  refine ⟨c, hrun, hp.coherent ?_, fun key value now hkey => ?_⟩
  · rw [hl, List.length_map] at hlen
    rwa [hconfig]
  · rw [put, Std.HashMap.getElem?_eq_none hkey]
    by_cases hoff : c.config.maxEntries = 0 ∨ c.config.ttl ≤ 0
    · rw [if_pos hoff]
      rfl
    · rw [if_neg hoff]
      rfl

/-- The entry that was served is kept, the other one is evicted. -/
theorem run_refines_twoEntries :
    ∃ c : LruCache ℕ ℕ, Simulation.run step (new { maxEntries := 2 })
        [.put 1 10 0 false, .put 2 20 1 false, .get 1 2, .put 3 30 3 false, .get 2 4, .get 1 5,
          .size] =
        some ([.done, .done, .found (some 10), .done, .found none, .found (some 10), .count 2], c) ∧
      c.Coherent := by
  obtain ⟨c, hrun, hc, -⟩ := run_refines { maxEntries := 2 }
    [.put 1 10 0 false, .put 2 20 1 false, .get 1 2, .put 3 30 3 false, .get 2 4, .get 1 5, .size]
  exact ⟨c, hrun, hc⟩

/-! ## Two capacities -/

/-- The cache maps the key to this value, inserted at this time. -/
def Holds (c : LruCache Key Value) (key : Key) (value : Value) (insertedAt : ℤ) : Prop :=
  ∃ listIt, c.map[key]? = some ⟨value, insertedAt, listIt⟩

/-- The entries of the cache are those of the LRU list. -/
theorem Refines.holds_iff {config : Config} {c : LruCache Key Value} {l : List (Entry Key Value)}
    (h : c.Refines config l) (key : Key) (value : Value) (insertedAt : ℤ) :
    c.Holds key value insertedAt ↔
      ∃ e ∈ l, (e.key == key) = true ∧ e.value = value ∧ e.insertedAt = insertedAt := by
  obtain ⟨-, pairs, hp, rfl⟩ := h
  constructor
  · rintro ⟨listIt, hentry⟩
    have hkey : key ∈ c.map := by
      rw [Std.HashMap.mem_iff_isSome_getElem?, hentry]
      rfl
    obtain ⟨front, p, back, hs⟩ := hp.split hkey
    have heq := hs.entry.symm.trans hentry
    simp only [Option.some.injEq, CacheEntry.mk.injEq] at heq
    refine ⟨p.2, List.mem_map_of_mem ?_, (hs.entry_key hp).1, heq.1, heq.2.1⟩
    rw [hs.pairs_eq]
    simp
  · rintro ⟨e, he, hkey, rfl, rfl⟩
    obtain ⟨p, hp', rfl⟩ := List.mem_map.mp he
    obtain ⟨hkeys, hlinked⟩ := hp.linked p hp'
    refine ⟨p.1.id, ?_⟩
    rw [← hlinked]
    refine (Std.HashMap.getElem?_congr ?_).symm
    exact BEq.trans hkeys hkey

/-- A cache with room for `n` entries and one with room for `m ≤ n`, used in the same way. At
    the end, as after each operation before, the larger one has all that the smaller one has,
    with the same values and times, and every `get` that hits in the smaller one has hit in
    the larger one with the same value. -/
theorem run_inclusion (ttl : ℤ) {m n : ℕ} (hmn : m ≤ n) (ops : List (Op Key Value)) :
    ∃ (c d : LruCache Key Value) (results results' : List (Outcome Value)),
      Simulation.run step (new { maxEntries := m, ttl := ttl }) ops = some (results, c) ∧
      Simulation.run step (new { maxEntries := n, ttl := ttl }) ops = some (results', d) ∧
      (∀ key value insertedAt, c.Holds key value insertedAt → d.Holds key value insertedAt) ∧
      ∀ (i : ℕ) (value : Value), results[i]? = some (.found (some value)) →
        results'[i]? = some (.found (some value)) := by
  have hstart : ∀ config : Config, (new config : LruCache Key Value).Refines config [] ∧
      ([] : List (Entry Key Value)).length ≤ config.maxEntries :=
    fun config => ⟨new_refines config, Nat.zero_le _⟩
  obtain ⟨c, hc, hc', -⟩ := Simulation.run_eq
    (step_simulates { maxEntries := m, ttl := ttl }) (hstart _) ops
  obtain ⟨d, hd, hd', -⟩ := Simulation.run_eq
    (step_simulates { maxEntries := n, ttl := ttl }) (hstart _) ops
  obtain ⟨hserves, hincludes⟩ := LruList.runTotal_includes (LruList.includes_nil hmn) hmn
    (ttl * nsPerSecond) ops
  refine ⟨c, d, _, _, hc, hd, fun key value insertedAt h => ?_, fun i value h => ?_⟩
  · obtain ⟨e, he, hkey⟩ := (hc'.holds_iff key value insertedAt).mp h
    exact (hd'.holds_iff key value insertedAt).mpr ⟨e, hincludes.sublist.subset he, hkey⟩
  · obtain ⟨hi, hget⟩ := List.getElem?_eq_some_iff.mp h
    have hi' := hserves.length_eq ▸ hi
    rw [List.getElem?_eq_getElem hi']
    exact congrArg some ((List.forall₂_iff_get.mp hserves).2 i hi hi' value hget)

/-- A `get` that misses in the smaller cache reorders the larger one, which still serves what
    the smaller one does. -/
theorem run_inclusion_oneTwo :
    ∃ (c d : LruCache ℕ ℕ) (results results' : List (Outcome ℕ)),
      Simulation.run step (new { maxEntries := 1, ttl := 60 })
        [.put 1 10 0 false, .put 2 20 1 false, .get 1 2, .put 3 30 3 false, .get 3 4] =
          some (results, c) ∧
      Simulation.run step (new { maxEntries := 2, ttl := 60 })
        [.put 1 10 0 false, .put 2 20 1 false, .get 1 2, .put 3 30 3 false, .get 3 4] =
          some (results', d) ∧
      ∀ (i : ℕ) (value : ℕ), results[i]? = some (.found (some value)) →
        results'[i]? = some (.found (some value)) := by
  obtain ⟨c, d, results, results', hc, hd, -, hserves⟩ := run_inclusion 60
    (show 1 ≤ 2 by decide)
    [.put 1 10 0 false, .put 2 20 1 false, .get 1 2, .put 3 30 3 false, .get 3 4]
  exact ⟨c, d, results, results', hc, hd, hserves⟩

end LruCache

end NceiCpp.Core
