import HerbCache.Basic

/-!
# Nodes: prefixed views of a cache

A `cache.Node` puts its `Prefix` and the package's `KeyPrefix`, a parameter here since it is not
among the sources, in front of every key. Its keyed methods make the same request of its cache
under that raw key (`handle_eq`), so the namespaces are not isolated (`raw_keys_disjoint_iff`)
and the empty key is not rejected (`empty_key_forwarded`). Its batch methods add and cut the
prefix consistently (`batch_prefix_round_trip`). Where a statement is about one input, `[58]`
stands in for `KeyPrefix`.
-/

namespace HerbCache

/-- The keyed methods of the `Cacheable` interface, as requests carrying values of type `V`. -/
inductive Request (V : Type)
  | set (key : Key) (v : V) (ttl : Int)
  | update (key : Key) (v : V) (ttl : Int)
  | get (key : Key)
  | setBytesValue (key : Key) (bytes : Bytes) (ttl : Int)
  | getBytesValue (key : Key)
  | updateBytesValue (key : Key) (bytes : Bytes) (ttl : Int)
  | del (key : Key)
  | incrCounter (key : Key) (increment : Int) (ttl : Int)
  | setCounter (key : Key) (v : Int) (ttl : Int)
  | getCounter (key : Key)
  | delCounter (key : Key)
  | expire (key : Key) (ttl : Int)
  | expireCounter (key : Key) (ttl : Int)

namespace Request

variable {V : Type}

def key : Request V → Key
  | .set k _ _ | .update k _ _ | .get k | .setBytesValue k _ _ | .getBytesValue k
  | .updateBytesValue k _ _ | .del k | .incrCounter k _ _ | .setCounter k _ _ | .getCounter k
  | .delCounter k | .expire k _ | .expireCounter k _ => k

def withKey : Request V → Key → Request V
  | .set _ v ttl, k => .set k v ttl
  | .update _ v ttl, k => .update k v ttl
  | .get _, k => .get k
  | .setBytesValue _ b ttl, k => .setBytesValue k b ttl
  | .getBytesValue _, k => .getBytesValue k
  | .updateBytesValue _ b ttl, k => .updateBytesValue k b ttl
  | .del _, k => .del k
  | .incrCounter _ i ttl, k => .incrCounter k i ttl
  | .setCounter _ v ttl, k => .setCounter k v ttl
  | .getCounter _, k => .getCounter k
  | .delCounter _, k => .delCounter k
  | .expire _ ttl, k => .expire k ttl
  | .expireCounter _ ttl, k => .expireCounter k ttl

@[simp] theorem key_withKey (r : Request V) (k : Key) : (r.withKey k).key = k := by
  cases r <;> rfl

end Request

inductive Reply (V : Type)
  | done (err : Option Err)
  | value (r : Except Err V)
  | bytes (r : Except Err Bytes)
  | counter (r : Except Err Int)

def Reply.err {V : Type} : Reply V → Option Err
  | .done e => e
  | .value (.error e) | .bytes (.error e) | .counter (.error e) => some e
  | .value (.ok _) | .bytes (.ok _) | .counter (.ok _) => none

/-- A value of the `Cacheable` interface over its state `σ`: keyed requests and batch methods. -/
structure Cacheable (σ V : Type) where
  handle : Request V → σ → σ × Reply V
  mGetBytesValue : List Key → σ → σ × Except Err (AList fun _ : Key => Bytes)
  mSetBytesValue : (AList fun _ : Key => Bytes) → Int → σ → σ × Option Err

/-- The cache answers `ErrKeyUnavailable` exactly to the empty key, as `cache.Cache` does. -/
def Cacheable.RejectsEmptyKey {σ V : Type} (c : Cacheable σ V) : Prop :=
  ∀ r s, (c.handle r s).2.err = some .keyUnavailable ↔ r.key = []

/-- A cache whose batch operations act on the map `view s`. -/
structure Cacheable.BatchMap {σ V : Type} (c : Cacheable σ V)
    (view : σ → AList fun _ : Key => Bytes) : Prop where
  mSet : ∀ data ttl s, (c.mSetBytesValue data ttl s).2 = none ∧
    ∀ k, (view (c.mSetBytesValue data ttl s).1).lookup k = (data.lookup k).or ((view s).lookup k)
  mGet : ∀ keys s, ∃ d, c.mGetBytesValue keys s = (s, .ok d) ∧
    ∀ k, d.lookup k = if k ∈ keys then (view s).lookup k else none

abbrev Loader (V : Type) := Key → Except Err V

/-- Modelled from the spec: `loadFromCache`, as package `cache`'s source is not modelled. -/
def loadFromCache {σ V : Type} (c : Cacheable σ V) (key : Key) (ttl : Int) (loader : Loader V)
    (s : σ) : σ × Reply V :=
  if key = [] then (s, .value (.error .keyUnavailable))
  else
    match c.handle (.get key) s with
    | (s, .value (.error .notFound)) =>
      match c.handle (.get key) s with
      | (s, .value (.error .notFound)) =>
        match loader key with
        | .error e => (s, .value (.error e))
        | .ok v =>
          match c.handle (.set key v ttl) s with
          | (s, .done (some e)) =>
            if e = .entryTooLarge ∨ e = .notCacheable then (s, .value (.ok v))
            else (s, .value (.error e))
          | (s, _) => (s, .value (.ok v))
      | r => r
    | r => r

structure Node (σ V : Type) where
  Cache : Cacheable σ V
  Prefix : Key

variable {σ V : Type}

def newNode (c : Cacheable σ V) (p : Key) : Node σ V := ⟨c, p⟩

namespace Node

variable (KeyPrefix : Key)

/-- `GetCacheKey`: the raw key, with no error. -/
def getCacheKey (n : Node σ V) (key : Key) : Except Err Key := .ok (n.Prefix ++ KeyPrefix ++ key)

def mustGetCacheKey (n : Node σ V) (key : Key) : Key :=
  match n.getCacheKey KeyPrefix key with
  | .ok k => k
  | .error _ => []

/-- The keyed methods that take the raw key from `MustGetCacheKey`. -/
def call (n : Node σ V) (r : Request V) : σ → σ × Reply V :=
  n.Cache.handle (r.withKey (n.mustGetCacheKey KeyPrefix r.key))

/-- The keyed methods that take the raw key from `GetCacheKey` and return its error. -/
def callChecked (n : Node σ V) (r : Request V) (s : σ) : σ × Reply V :=
  match n.getCacheKey KeyPrefix r.key with
  | .error e => (s, .done (some e))
  | .ok k => n.Cache.handle (r.withKey k) s

def set (n : Node σ V) (key : Key) (v : V) (ttl : Int) := n.call KeyPrefix (.set key v ttl)
def update (n : Node σ V) (key : Key) (v : V) (ttl : Int) := n.call KeyPrefix (.update key v ttl)
def get (n : Node σ V) (key : Key) := n.call KeyPrefix (.get key)
def setBytesValue (n : Node σ V) (key : Key) (bytes : Bytes) (ttl : Int) :=
  n.call KeyPrefix (.setBytesValue key bytes ttl)
def getBytesValue (n : Node σ V) (key : Key) := n.call KeyPrefix (.getBytesValue key)
def updateBytesValue (n : Node σ V) (key : Key) (bytes : Bytes) (ttl : Int) :=
  n.call KeyPrefix (.updateBytesValue key bytes ttl)
def del (n : Node σ V) (key : Key) := n.call KeyPrefix (.del key)
def incrCounter (n : Node σ V) (key : Key) (increment : Int) (ttl : Int) :=
  n.call KeyPrefix (.incrCounter key increment ttl)
def setCounter (n : Node σ V) (key : Key) (v : Int) (ttl : Int) :=
  n.call KeyPrefix (.setCounter key v ttl)
def getCounter (n : Node σ V) (key : Key) := n.call KeyPrefix (.getCounter key)
def delCounter (n : Node σ V) (key : Key) := n.callChecked KeyPrefix (.delCounter key)
def expire (n : Node σ V) (key : Key) (ttl : Int) := n.callChecked KeyPrefix (.expire key ttl)
def expireCounter (n : Node σ V) (key : Key) (ttl : Int) :=
  n.callChecked KeyPrefix (.expireCounter key ttl)

/-- The node's answer to each keyed request, by the method of that name. -/
def handle (n : Node σ V) : Request V → σ → σ × Reply V
  | .set k v ttl => n.set KeyPrefix k v ttl
  | .update k v ttl => n.update KeyPrefix k v ttl
  | .get k => n.get KeyPrefix k
  | .setBytesValue k b ttl => n.setBytesValue KeyPrefix k b ttl
  | .getBytesValue k => n.getBytesValue KeyPrefix k
  | .updateBytesValue k b ttl => n.updateBytesValue KeyPrefix k b ttl
  | .del k => n.del KeyPrefix k
  | .incrCounter k i ttl => n.incrCounter KeyPrefix k i ttl
  | .setCounter k v ttl => n.setCounter KeyPrefix k v ttl
  | .getCounter k => n.getCounter KeyPrefix k
  | .delCounter k => n.delCounter KeyPrefix k
  | .expire k ttl => n.expire KeyPrefix k ttl
  | .expireCounter k ttl => n.expireCounter KeyPrefix k ttl

/-- `MGetBytesValue`: the keys asked prefixed, the answer's keys cut, a too-short one panics. -/
def mGetBytesValue (n : Node σ V) (keys : List Key) (s : σ) :
    σ × Except Err (AList fun _ : Key => Bytes) :=
  match n.Cache.mGetBytesValue (keys.map (n.mustGetCacheKey KeyPrefix)) s with
  | (s, .error e) => (s, .error e)
  | (s, .ok data) =>
    (s, data.entries.foldlM (fun result e =>
      if (n.Prefix ++ KeyPrefix).length ≤ e.1.length then
        .ok (result.insert (e.1.drop (n.Prefix ++ KeyPrefix).length) e.2)
      else .error .indexOutOfRange) ∅)

def mSetBytesValue (n : Node σ V) (data : AList fun _ : Key => Bytes) (ttl : Int) (s : σ) :
    σ × Option Err :=
  n.Cache.mSetBytesValue
    (data.entries.foldl (fun m e => m.insert (n.mustGetCacheKey KeyPrefix e.1) e.2) ∅) ttl s

def toCacheable (n : Node σ V) : Cacheable σ V :=
  ⟨n.handle KeyPrefix, n.mGetBytesValue KeyPrefix, n.mSetBytesValue KeyPrefix⟩

/-- `Load`: `loadFromCache` on the node itself, with the raw key. -/
def load (n : Node σ V) (key : Key) (ttl : Int) (loader : Loader V) (s : σ) : σ × Reply V :=
  match n.getCacheKey KeyPrefix key with
  | .error e => (s, .done (some e))
  | .ok k => loadFromCache (n.toCacheable KeyPrefix) k ttl loader s

def flush (_ : Node σ V) : Option Err := some .featureNotSupported

/-- `Node.Node(prefix)`: a node on the same cache, its prefix the raw key of `p`. -/
def node (n : Node σ V) (p : Key) : Node σ V := newNode n.Cache (n.mustGetCacheKey KeyPrefix p)

@[simp] theorem mustGetCacheKey_eq (n : Node σ V) (key : Key) :
    n.mustGetCacheKey KeyPrefix key = n.Prefix ++ KeyPrefix ++ key := rfl

/-- Every keyed method makes the same request of the cache, under the raw key. -/
theorem handle_eq (n : Node σ V) (r : Request V) (s : σ) :
    n.handle KeyPrefix r s = n.Cache.handle (r.withKey (n.Prefix ++ KeyPrefix ++ r.key)) s := by
  cases r <;> rfl

/-! ### Namespaces -/

def spy : Cacheable (List (Request Unit)) Unit where
  handle r log := (log ++ [r], .done none)
  mGetBytesValue _ log := (log, .ok ∅)
  mSetBytesValue _ _ log := (log, none)

/-- Under any `KeyPrefix`, a node and a node nested in it send one raw key for two keys. -/
theorem raw_key_collision (c : Cacheable σ V) :
    (newNode c [97]).Prefix ≠ ((newNode c [97]).node KeyPrefix [98]).Prefix ∧
    (newNode c [97]).mustGetCacheKey KeyPrefix ([98] ++ KeyPrefix ++ [99]) =
      ((newNode c [97]).node KeyPrefix [98]).mustGetCacheKey KeyPrefix [99] := by
  refine ⟨fun h => ?_, by simp [node, newNode]⟩
  simpa [node, newNode] using congrArg List.length h

theorem nodes_share_raw_key :
    (newNode spy [97]).Prefix ≠ ((newNode spy [97]).node [58] [98]).Prefix ∧
    (newNode spy [97]).mustGetCacheKey [58] [98, 58, 99] =
      ((newNode spy [97]).node [58] [98]).mustGetCacheKey [58] [99] :=
  raw_key_collision [58] spy

/-- Two nodes never share a raw key exactly when neither prefix begins the other's. -/
theorem raw_keys_disjoint_iff (n₁ n₂ : Node σ V) :
    (∀ k₁ k₂, n₁.mustGetCacheKey KeyPrefix k₁ ≠ n₂.mustGetCacheKey KeyPrefix k₂) ↔
      ∀ s, n₁.Prefix ++ KeyPrefix ++ s ≠ n₂.Prefix ++ KeyPrefix ∧
        n₂.Prefix ++ KeyPrefix ++ s ≠ n₁.Prefix ++ KeyPrefix := by
  simp only [mustGetCacheKey_eq]
  constructor
  · intro h s
    exact ⟨fun hs => h s [] (by simp [hs]), fun hs => h [] s (by simp [hs])⟩
  · intro h k₁ k₂ hk
    rcases List.append_eq_append_iff.1 hk with ⟨a, ha, -⟩ | ⟨a, ha, -⟩
    · exact (h a).1 ha.symm
    · exact (h a).2 ha.symm

/-! ### The empty key -/

theorem loadFromCache_nil (c : Cacheable σ V) (ttl : Int) (loader : Loader V) (s : σ) :
    loadFromCache c [] ttl loader s = (s, .value (.error .keyUnavailable)) := by
  simp [loadFromCache]

/-- A node does not reject the empty key: it asks its cache for `Prefix ++ KeyPrefix`. -/
theorem empty_key_forwarded (n : Node σ V) (hc : n.Cache.RejectsEmptyKey) (s : σ) :
    (∀ r : Request V, r.key = [] →
      n.handle KeyPrefix r s = n.Cache.handle (r.withKey (n.Prefix ++ KeyPrefix)) s ∧
      ((n.handle KeyPrefix r s).2.err = some .keyUnavailable ↔ n.Prefix ++ KeyPrefix = [])) ∧
    (∀ ttl loader, n.load KeyPrefix [] ttl loader s =
      loadFromCache (n.toCacheable KeyPrefix) (n.Prefix ++ KeyPrefix) ttl loader s) ∧
    (n.Prefix ++ KeyPrefix = [] → ∀ ttl loader,
      n.load KeyPrefix [] ttl loader s = (s, .value (.error .keyUnavailable))) := by
  have hload : ∀ ttl loader, n.load KeyPrefix [] ttl loader s =
      loadFromCache (n.toCacheable KeyPrefix) (n.Prefix ++ KeyPrefix) ttl loader s := by
    intro ttl loader; simp [load, getCacheKey]
  refine ⟨fun r hr => ?_, hload, fun h ttl loader => by rw [hload, h, loadFromCache_nil]⟩
  have hf : n.handle KeyPrefix r s = n.Cache.handle (r.withKey (n.Prefix ++ KeyPrefix)) s := by
    rw [handle_eq, hr, List.append_nil]
  exact ⟨hf, by rw [hf, hc]; simp⟩

def guard : Cacheable Unit Unit where
  handle r s := (s, .done (if r.key = [] then some .keyUnavailable else none))
  mGetBytesValue _ s := (s, .ok ∅)
  mSetBytesValue _ _ s := (s, none)

theorem guard_rejectsEmptyKey : guard.RejectsEmptyKey := fun r s => by
  by_cases h : r.key = [] <;> simp [guard, Reply.err, h]

theorem empty_key_set_returns_nil :
    (newNode guard [112]).set [58] [] () 0 () = guard.handle (.set [112, 58] () 0) () ∧
    ((newNode guard [112]).set [58] [] () 0 ()).2.err = none := by
  have h := ((empty_key_forwarded [58] (newNode guard [112]) guard_rejectsEmptyKey ()).1
    (.set [] () 0) rfl).1
  exact ⟨h, by rw [show (newNode guard [112]).set [58] [] () 0 () = _ from h]; rfl⟩

/-! ### Batch operations -/

theorem foldlM_strip (p : Key) :
    ∀ (es : List (Σ _ : Key, Bytes)) (m : AList fun _ : Key => Bytes),
      (∀ r ∈ es.keys, p.length ≤ r.length) →
      es.foldlM (fun result e => if p.length ≤ e.1.length then
          Except.ok (result.insert (e.1.drop p.length) e.2) else .error Err.indexOutOfRange) m =
        .ok (es.foldl (fun m e => m.insert (e.1.drop p.length) e.2) m) := by
  intro es
  induction es with
  | nil => intro m _; rfl
  | cons e es ih =>
    intro m h
    simp only [List.keys_cons, List.mem_cons, forall_eq_or_imp] at h
    rw [List.foldlM_cons, if_pos h.1]
    exact ih _ h.2

theorem lookup_foldl_strip (p : Key) {es : List (Σ _ : Key, Bytes)} (hnd : es.NodupKeys)
    (hp : ∀ r ∈ es.keys, ∃ k, r = p ++ k) (k : Key) :
    (es.foldl (fun (m : AList fun _ : Key => Bytes) e => m.insert (e.1.drop p.length) e.2) ∅).lookup k =
      es.dlookup (p ++ k) := by
  have hinj : ∀ r ∈ es.keys, r.drop p.length = (p ++ k).drop p.length → r = p ++ k := by
    intro r hr he
    obtain ⟨k', rfl⟩ := hp r hr
    rw [List.drop_left, List.drop_left] at he
    rw [he]
  have := lookup_foldl_insert (f := fun r => r.drop p.length) (g := id) (p ++ k) es ∅ hnd hinj
  dsimp only at this
  rw [List.drop_left] at this
  simpa only [id_eq, Option.map_id_fun, AList.lookup_empty, Option.or_none] using this

variable (n : Node σ V)

/-- `MSetBytesValue` hands its cache each entry of `data` under its raw key, and nothing else. -/
theorem mSetBytesValue_prefixed (data : AList fun _ : Key => Bytes) (ttl : Int) (s : σ) :
    ∃ prefixed : AList fun _ : Key => Bytes,
      n.mSetBytesValue KeyPrefix data ttl s = n.Cache.mSetBytesValue prefixed ttl s ∧
      (∀ k, prefixed.lookup (n.Prefix ++ KeyPrefix ++ k) = data.lookup k) ∧
      ∀ r ∈ prefixed, ∃ k ∈ data, r = n.Prefix ++ KeyPrefix ++ k := by
  refine ⟨_, rfl, fun k => ?_, fun r hr => ?_⟩
  · have := lookup_foldl_insert (f := n.mustGetCacheKey KeyPrefix) (g := id) k data.entries ∅
      data.nodupKeys fun _ _ h => List.append_cancel_left h
    simpa only [mustGetCacheKey_eq, id_eq, Option.map_id_fun, AList.lookup_empty, Option.or_none]
      using this
  · rcases (mem_foldl_insert (f := n.mustGetCacheKey KeyPrefix) (g := id) _ _).1 hr with
      h | ⟨k, hk, rfl⟩
    · exact absurd h (AList.not_mem_empty r)
    · exact ⟨k, hk, rfl⟩

/-- When the cache answers only raw keys asked, `MGetBytesValue` cuts them without panic. -/
theorem mGetBytesValue_stripped {keys : List Key} {s s' : σ} {data : AList fun _ : Key => Bytes}
    (h : n.Cache.mGetBytesValue (keys.map (n.mustGetCacheKey KeyPrefix)) s = (s', .ok data))
    (hkeys : ∀ r ∈ data.keys, r ∈ keys.map (n.mustGetCacheKey KeyPrefix)) :
    ∃ res, n.mGetBytesValue KeyPrefix keys s = (s', .ok res) ∧
      ∀ k, res.lookup k = data.lookup (n.Prefix ++ KeyPrefix ++ k) := by
  have hp : ∀ r ∈ data.keys, ∃ k, r = n.Prefix ++ KeyPrefix ++ k := fun r hr =>
    let ⟨k, _, hk⟩ := List.mem_map.1 (hkeys r hr)
    ⟨k, hk.symm⟩
  refine ⟨_, ?_, lookup_foldl_strip _ data.nodupKeys hp⟩
  rw [mGetBytesValue, h]
  dsimp only
  rw [foldlM_strip _ _ _ fun r hr => ?_]
  obtain ⟨k, rfl⟩ := hp r hr
  simp

def namespaceView (view : σ → AList fun _ : Key => Bytes) (s : σ) : AList fun _ : Key => Bytes :=
  ((view s).entries.filter fun e =>
      e.1.take (n.Prefix ++ KeyPrefix).length = n.Prefix ++ KeyPrefix).foldl
    (fun m e => m.insert (e.1.drop (n.Prefix ++ KeyPrefix).length) e.2) ∅

theorem lookup_namespaceView (view : σ → AList fun _ : Key => Bytes) (s : σ) (k : Key) :
    (n.namespaceView KeyPrefix view s).lookup k = (view s).lookup (n.Prefix ++ KeyPrefix ++ k) := by
  have hp : ∀ r ∈ ((view s).entries.filter fun e =>
      e.1.take (n.Prefix ++ KeyPrefix).length = n.Prefix ++ KeyPrefix).keys,
      ∃ k, r = n.Prefix ++ KeyPrefix ++ k := by
    intro r hr
    obtain ⟨e, he, rfl⟩ := List.mem_map.1 hr
    refine ⟨e.1.drop (n.Prefix ++ KeyPrefix).length, ?_⟩
    conv_lhs => rw [← List.take_append_drop (n.Prefix ++ KeyPrefix).length e.1]
    rw [of_decide_eq_true (List.mem_filter.1 he).2]
  rw [namespaceView, lookup_foldl_strip _ ((view s).nodupKeys.sublist (List.filter_sublist _)) hp]
  exact dlookup_filter_of_key
    (P := fun r => decide (r.take (n.Prefix ++ KeyPrefix).length = n.Prefix ++ KeyPrefix))
    (decide_eq_true (List.take_left _ _)) _

/-- A node over a cache acting as a map acts as the map of its namespace. -/
theorem toCacheable_batchMap {view : σ → AList fun _ : Key => Bytes} (hc : n.Cache.BatchMap view) :
    (n.toCacheable KeyPrefix).BatchMap (n.namespaceView KeyPrefix view) := by
  refine ⟨fun data ttl s => ?_, fun keys s => ?_⟩
  · obtain ⟨prefixed, hset, hlk, -⟩ := mSetBytesValue_prefixed KeyPrefix n data ttl s
    obtain ⟨herr, hview⟩ := hc.mSet prefixed ttl s
    show (n.mSetBytesValue KeyPrefix data ttl s).2 = none ∧ ∀ k,
      (n.namespaceView KeyPrefix view (n.mSetBytesValue KeyPrefix data ttl s).1).lookup k = _
    rw [hset]
    exact ⟨herr, fun k => by rw [lookup_namespaceView, lookup_namespaceView, hview, hlk]⟩
  · obtain ⟨d, hd, hdl⟩ := hc.mGet (keys.map (n.mustGetCacheKey KeyPrefix)) s
    have hmem : ∀ k, n.Prefix ++ KeyPrefix ++ k ∈ keys.map (n.mustGetCacheKey KeyPrefix) ↔
        k ∈ keys :=
      fun _ => List.mem_map_of_injective fun _ _ => List.append_cancel_left
    have hkeys : ∀ r ∈ d.keys, r ∈ keys.map (n.mustGetCacheKey KeyPrefix) := fun r hr => by
      have := AList.lookup_isSome.2 hr
      rw [hdl] at this
      split_ifs at this with h
      · exact h
      · simp at this
    obtain ⟨res, hres, hl⟩ := mGetBytesValue_stripped KeyPrefix n hd hkeys
    exact ⟨res, hres, fun k => by simp only [hl, hdl, hmem, lookup_namespaceView]⟩

theorem mGetBytesValue_after_mSetBytesValue {view : σ → AList fun _ : Key => Bytes}
    (hc : n.Cache.BatchMap view) (data : AList fun _ : Key => Bytes) (ttl : Int) (keys : List Key)
    (s : σ) :
    (n.mSetBytesValue KeyPrefix data ttl s).2 = none ∧
    ∃ res, n.mGetBytesValue KeyPrefix keys (n.mSetBytesValue KeyPrefix data ttl s).1 =
        ((n.mSetBytesValue KeyPrefix data ttl s).1, .ok res) ∧
      ∀ k, res.lookup k = if k ∈ keys then
        (data.lookup k).or ((view s).lookup (n.Prefix ++ KeyPrefix ++ k)) else none := by
  have hn := toCacheable_batchMap KeyPrefix n hc
  obtain ⟨herr, hview⟩ := hn.mSet data ttl s
  simp only [toCacheable] at herr hview
  obtain ⟨res, hres, hl⟩ := hn.mGet keys (n.mSetBytesValue KeyPrefix data ttl s).1
  exact ⟨herr, res, hres, fun k => by rw [hl, hview, lookup_namespaceView]⟩

/-- Batch operations add and cut the prefix consistently, for every node, nested nodes included. -/
theorem batch_prefix_round_trip :
    (∀ data ttl s, ∃ prefixed : AList fun _ : Key => Bytes,
      n.mSetBytesValue KeyPrefix data ttl s = n.Cache.mSetBytesValue prefixed ttl s ∧
      (∀ k, prefixed.lookup (n.Prefix ++ KeyPrefix ++ k) = data.lookup k) ∧
      ∀ r ∈ prefixed, ∃ k ∈ data, r = n.Prefix ++ KeyPrefix ++ k) ∧
    (∀ keys s s' data,
      n.Cache.mGetBytesValue (keys.map (n.mustGetCacheKey KeyPrefix)) s = (s', .ok data) →
      (∀ r ∈ data.keys, r ∈ keys.map (n.mustGetCacheKey KeyPrefix)) →
      ∃ res, n.mGetBytesValue KeyPrefix keys s = (s', .ok res) ∧
        ∀ k, res.lookup k = data.lookup (n.Prefix ++ KeyPrefix ++ k)) ∧
    (∀ view, n.Cache.BatchMap view → ∀ data ttl keys s,
      (n.mSetBytesValue KeyPrefix data ttl s).2 = none ∧
      ∃ res, n.mGetBytesValue KeyPrefix keys (n.mSetBytesValue KeyPrefix data ttl s).1 =
          ((n.mSetBytesValue KeyPrefix data ttl s).1, .ok res) ∧
        ∀ k, res.lookup k = if k ∈ keys then
          (data.lookup k).or ((view s).lookup (n.Prefix ++ KeyPrefix ++ k)) else none) :=
  ⟨mSetBytesValue_prefixed KeyPrefix n, fun _ _ _ _ => mGetBytesValue_stripped KeyPrefix n,
    fun _ hc => mGetBytesValue_after_mSetBytesValue KeyPrefix n hc⟩

/-- A cache that is a map for the batch operations, and supports no keyed request. -/
def mapCache : Cacheable (AList fun _ : Key => Bytes) Unit where
  handle _ s := (s, .done (some .featureNotSupported))
  mGetBytesValue keys s := (s, .ok (keys.foldl (fun m k => match s.lookup k with
    | some b => m.insert k b
    | none => m) ∅))
  mSetBytesValue data _ s := (data ∪ s, none)

theorem mapCache_batchMap : mapCache.BatchMap id := by
  refine ⟨fun data _ s => ⟨rfl, fun k => ?_⟩, fun keys s => ⟨_, rfl, fun k => ?_⟩⟩
  · by_cases hk : k ∈ data
    · obtain ⟨b, hb⟩ := Option.isSome_iff_exists.1 (AList.lookup_isSome.2 hk)
      simp [mapCache, AList.lookup_union_left hk, hb]
    · simp [mapCache, AList.lookup_union_right hk, AList.lookup_eq_none.2 hk]
  · exact (lookup_foldl_select (fun k => s.lookup k) k keys ∅).trans (by simp)

theorem batch_prefix_round_trip_map :
    let n := newNode mapCache [112]
    let held : AList fun _ : Key => Bytes := AList.singleton [112, 58, 1] [7]
    let written : AList fun _ : Key => Bytes := AList.singleton [2] [5]
    (∃ res, n.mGetBytesValue [58] [[1]] held = (held, .ok res) ∧
      ∀ k, res.lookup k = held.lookup ([112] ++ [58] ++ k)) ∧
    ((n.mSetBytesValue [58] written 1 held).2 = none ∧
      ∃ res, n.mGetBytesValue [58] [[1], [2]] (n.mSetBytesValue [58] written 1 held).1 =
          ((n.mSetBytesValue [58] written 1 held).1, .ok res) ∧
        ∀ k, res.lookup k = if k ∈ [[1], [2]] then
          (written.lookup k).or (held.lookup ([112] ++ [58] ++ k)) else none) :=
  ⟨(batch_prefix_round_trip [58] (newNode mapCache [112])).2.1 [[1]] _ _ _ rfl (by decide),
    (batch_prefix_round_trip [58] (newNode mapCache [112])).2.2 id mapCache_batchMap _ 1 _ _⟩

theorem batch_read_returns_held_entry :
    ((newNode mapCache [112]).mGetBytesValue [58] [[1]]
      ((newNode mapCache [112]).mSetBytesValue [58] ∅ 1 (AList.singleton [112, 58, 1] [7])).1).2 =
      .ok (AList.singleton [1] [7]) :=
  rfl

end Node

end HerbCache
