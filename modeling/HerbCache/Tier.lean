import HerbCache.Basic

/-!
# A tier: the sub-cache a group cache is built from

Modelled from the spec, as package `cache` is not among the sources: an expiring key-value store
whose backend may refuse a write (`refuse`) or fail a read, batch read, delete or flush, and then
stays unchanged. Every write goes through `put`; the group's proofs use its lemmas and
`setBytesValue_eq`, and never unfold a tier.
-/

namespace HerbCache

/-- What a tier holds for a key: the bytes, and when the store drops them (`none`: never). -/
structure Slot where
  bytes : Bytes
  deadline : Option Time

def Slot.alive (s : Slot) (now : Time) : Bool :=
  match s.deadline with
  | none => true
  | some d => decide (now.ns < d.ns)

theorem Slot.dead_of_dead {s : Slot} {τ t : Time} (h : s.alive τ = false) (ht : τ.ns ≤ t.ns) :
    s.alive t = false := by
  cases hd : s.deadline with
  | none => simp [Slot.alive, hd] at h
  | some d =>
    simp only [Slot.alive, hd, decide_eq_false_iff_not, not_lt] at h ⊢
    omega

/-- Modelled from the spec: a sub-cache (`*cache.Cache`), with the errors its backend answers. -/
structure Tier where
  /-- `cache.Cache.TTL`, the tier's default ttl. -/
  TTL : Int
  store : Key → Option Slot := fun _ => none
  refuse : Key → Bytes → Time → Option Err := fun _ _ _ => none
  readErr : Key → Time → Option Err := fun _ _ => none
  batchErr : List Key → Time → Option Err := fun _ _ => none
  delErr : Key → Option Err := fun _ => none
  flushErr : Option Err := none

namespace Tier

def deadline (c : Tier) (ttl : Int) (now : Time) : Option Time :=
  let ttl := if ttl = 0 then c.TTL else ttl
  if ttl < 0 then none else some (now.add ttl)

def put (c : Tier) (key : Key) (s : Option Slot) : Tier :=
  { c with store := Function.update c.store key s }

/-- The bytes held for `key` at `now`. -/
def lookup (c : Tier) (key : Key) (now : Time) : Option Bytes :=
  match c.store key with
  | some s => if s.alive now then some s.bytes else none
  | none => none

def getBytesValue (c : Tier) (key : Key) (now : Time) : Except Err Bytes :=
  match c.readErr key now with
  | some err => .error err
  | none =>
    match c.lookup key now with
    | some b => .ok b
    | none => .error .notFound

def setBytesValue (c : Tier) (key : Key) (bytes : Bytes) (ttl : Int) (now : Time) :
    Tier × Option Err :=
  match c.refuse key bytes now with
  | some err => (c, some err)
  | none => (c.put key (some ⟨bytes, c.deadline ttl now⟩), none)

def updateBytesValue (c : Tier) (key : Key) (bytes : Bytes) (ttl : Int) (now : Time) :
    Tier × Option Err :=
  if (c.lookup key now).isSome then c.setBytesValue key bytes ttl now else (c, none)

def del (c : Tier) (key : Key) : Tier × Option Err :=
  match c.delErr key with
  | some err => (c, some err)
  | none => (c.put key none, none)

/-- `MGetBytesValue`: the held keys among `keys`, with their bytes. -/
def mGetBytesValue (c : Tier) (keys : List Key) (now : Time) :
    Except Err (AList fun _ : Key => Bytes) :=
  match c.batchErr keys now with
  | some err => .error err
  | none =>
    .ok (keys.foldl (fun m k => match c.lookup k now with
      | some b => m.insert k b
      | none => m) ∅)

def mSetBytesValue (c : Tier) (data : AList fun _ : Key => Bytes) (ttl : Int) (now : Time) :
    Tier × Option Err :=
  data.entries.foldl (fun (c, err) e =>
    let (c, err') := c.setBytesValue e.1 e.2 ttl now
    (c, err' <|> err)) (c, none)

def flush (c : Tier) : Tier × Option Err :=
  match c.flushErr with
  | some err => (c, some err)
  | none => ({ c with store := fun _ => none }, none)

/-- The backend fails no read or batch read. -/
def Reads (c : Tier) : Prop :=
  (∀ key now, c.readErr key now = none) ∧ ∀ keys now, c.batchErr keys now = none

/-- The backend stores every write and fails no call. -/
def Faithful (c : Tier) : Prop :=
  (∀ key bytes now, c.refuse key bytes now = none) ∧ c.Reads ∧ (∀ key, c.delErr key = none) ∧
    c.flushErr = none

/-- The backend refuses writes only with the advisory errors, and fails no read. -/
def Advisory (c : Tier) : Prop :=
  (∀ key bytes now e, c.refuse key bytes now = some e → e = .entryTooLarge ∨ e = .notCacheable) ∧
    c.Reads

/-- The tier with nothing stored: what no call changes. -/
def settings (c : Tier) : Tier := { c with store := fun _ => none }

theorem Faithful.reads {c : Tier} (h : c.Faithful) : c.Reads := h.2.1

theorem Faithful.of_settings {c c' : Tier} (h : c'.settings = c.settings) (hc : c.Faithful) :
    c'.Faithful :=
  (h ▸ (hc : c.settings.Faithful) : c'.settings.Faithful)

theorem TTL_of_settings {c c' : Tier} (h : c'.settings = c.settings) : c'.TTL = c.TTL :=
  show c'.settings.TTL = c.settings.TTL from congrArg Tier.TTL h

/-! ### `put` -/

@[simp] theorem put_store_self (c : Tier) (key : Key) (s : Option Slot) :
    (c.put key s).store key = s := by
  simp [put]

@[simp] theorem put_store_ne (c : Tier) {key key' : Key} (s : Option Slot) (h : key' ≠ key) :
    (c.put key s).store key' = c.store key' := by
  simp [put, h]

@[simp] theorem TTL_put (c : Tier) (key : Key) (s : Option Slot) : (c.put key s).TTL = c.TTL := rfl

@[simp] theorem refuse_put (c : Tier) (key : Key) (s : Option Slot) :
    (c.put key s).refuse = c.refuse := rfl

@[simp] theorem readErr_put (c : Tier) (key : Key) (s : Option Slot) :
    (c.put key s).readErr = c.readErr := rfl

@[simp] theorem settings_put (c : Tier) (key : Key) (s : Option Slot) :
    (c.put key s).settings = c.settings := rfl

theorem lookup_put_self (c : Tier) (key : Key) (s : Slot) (now : Time) :
    (c.put key (some s)).lookup key now = if s.alive now then some s.bytes else none := by
  simp [lookup]

theorem deadline_of_pos (c : Tier) {ttl : Int} (h : 0 < ttl) (now : Time) :
    c.deadline ttl now = some (now.add ttl) := by
  simp [deadline, show ttl ≠ 0 by omega, show ¬ ttl < 0 by omega]

theorem lookup_put_ne (c : Tier) {key key' : Key} (s : Option Slot) (now : Time) (h : key' ≠ key) :
    (c.put key s).lookup key' now = c.lookup key' now := by
  simp [lookup, h]

/-! ### Reads -/

theorem getBytesValue_of_readErr {c : Tier} {key : Key} {now : Time} (h : c.readErr key now = none) :
    c.getBytesValue key now = match c.lookup key now with
      | some b => .ok b
      | none => .error .notFound := by
  simp [getBytesValue, h]

theorem lookup_of_getBytesValue {c : Tier} {key : Key} {now : Time} {b : Bytes}
    (h : c.getBytesValue key now = .ok b) : c.lookup key now = some b := by
  unfold getBytesValue at h
  split at h
  · cases h
  · split at h <;> simp_all

/-! ### Writes -/

/-- What a write does: it is refused, or it puts its slot. -/
theorem setBytesValue_eq (c : Tier) (key : Key) (bytes : Bytes) (ttl : Int) (now : Time) :
    (c.refuse key bytes now ≠ none ∧
      c.setBytesValue key bytes ttl now = (c, c.refuse key bytes now)) ∨
    (c.refuse key bytes now = none ∧
      c.setBytesValue key bytes ttl now = (c.put key (some ⟨bytes, c.deadline ttl now⟩), none)) := by
  unfold setBytesValue
  cases c.refuse key bytes now <;> simp

theorem setBytesValue_of_faithful {c : Tier} (hc : c.Faithful) (key : Key) (bytes : Bytes)
    (ttl : Int) (now : Time) :
    c.setBytesValue key bytes ttl now = (c.put key (some ⟨bytes, c.deadline ttl now⟩), none) := by
  simp [setBytesValue, hc.1 key bytes now]

theorem updateBytesValue_of_lookup_none {c : Tier} {key : Key} {now : Time}
    (h : c.lookup key now = none) (bytes : Bytes) (ttl : Int) :
    c.updateBytesValue key bytes ttl now = (c, none) := by
  simp [updateBytesValue, h]

theorem updateBytesValue_of_lookup_some {c : Tier} {key : Key} {now : Time} {b : Bytes}
    (h : c.lookup key now = some b) (bytes : Bytes) (ttl : Int) :
    c.updateBytesValue key bytes ttl now = c.setBytesValue key bytes ttl now := by
  simp [updateBytesValue, h]

theorem setBytesValue_frame (c : Tier) {key key' : Key} (bytes : Bytes) (ttl : Int)
    (now : Time) (h : key' ≠ key) :
    (c.setBytesValue key bytes ttl now).1.store key' = c.store key' := by
  rcases setBytesValue_eq c key bytes ttl now with ⟨-, he⟩ | ⟨-, he⟩ <;> simp [he, h]

@[simp] theorem settings_setBytesValue (c : Tier) (key : Key) (bytes : Bytes) (ttl : Int)
    (now : Time) : (c.setBytesValue key bytes ttl now).1.settings = c.settings := by
  rcases setBytesValue_eq c key bytes ttl now with ⟨-, he⟩ | ⟨-, he⟩ <;> simp [he]

@[simp] theorem settings_updateBytesValue (c : Tier) (key : Key) (bytes : Bytes) (ttl : Int)
    (now : Time) : (c.updateBytesValue key bytes ttl now).1.settings = c.settings := by
  unfold updateBytesValue
  split_ifs <;> simp

@[simp] theorem settings_mSetBytesValue (c : Tier) (data : AList fun _ : Key => Bytes) (ttl : Int)
    (now : Time) : (c.mSetBytesValue data ttl now).1.settings = c.settings := by
  unfold mSetBytesValue
  generalize data.entries = es
  generalize (none : Option Err) = err
  induction es generalizing c err with
  | nil => rfl
  | cons e es ih =>
    rcases hs : c.setBytesValue e.1 e.2 ttl now with ⟨c', err'⟩
    simp only [List.foldl, hs]
    rw [ih c' _, ← settings_setBytesValue c e.1 e.2 ttl now, hs]

@[simp] theorem settings_del (c : Tier) (key : Key) : (c.del key).1.settings = c.settings := by
  unfold del
  split <;> rfl

@[simp] theorem settings_flush (c : Tier) : c.flush.1.settings = c.settings := by
  unfold flush
  split <;> rfl

theorem setBytesValue_of_refuse {c : Tier} {key : Key} {bytes : Bytes} {now : Time} {e : Err}
    (h : c.refuse key bytes now = some e) (ttl : Int) :
    c.setBytesValue key bytes ttl now = (c, some e) := by
  simp [setBytesValue, h]

theorem setBytesValue_error {c : Tier} {key : Key} {bytes : Bytes} {ttl : Int} {now : Time}
    {e : Err} (h : (c.setBytesValue key bytes ttl now).2 = some e) :
    c.refuse key bytes now = some e := by
  rcases setBytesValue_eq c key bytes ttl now with ⟨-, he⟩ | ⟨-, he⟩ <;> simp_all

theorem updateBytesValue_error {c : Tier} {key : Key} {bytes : Bytes} {ttl : Int}
    {now : Time} {e : Err} (h : (c.updateBytesValue key bytes ttl now).2 = some e) :
    c.refuse key bytes now = some e := by
  unfold updateBytesValue at h
  split_ifs at h
  exact setBytesValue_error h

/-! ### Deletes -/

theorem del_snd (c : Tier) (key : Key) : (c.del key).2 = c.delErr key := by
  unfold del
  split <;> simp_all

/-- A `Del` leaves the tier holding nothing for `key`, or fails and leaves it as it was. -/
theorem store_del (c : Tier) (key k : Key) :
    (c.del key).1.store k = if c.delErr key = none ∧ k = key then none else c.store k := by
  unfold del
  split
  · simp_all
  · by_cases hk : k = key
    · subst hk; simp_all
    · simp [hk]

theorem flush_snd (c : Tier) : c.flush.2 = c.flushErr := by
  unfold flush
  split <;> simp_all

theorem store_flush (c : Tier) (k : Key) :
    c.flush.1.store k = if c.flushErr = none then none else c.store k := by
  unfold flush
  split <;> simp_all

end Tier

/-- A tier keeping copies for `T` whose backend fails no call is faithful, whatever it holds. -/
theorem faithful_mk (T : Int) (store : Key → Option Slot) : ({ TTL := T, store } : Tier).Faithful :=
  ⟨fun _ _ _ => rfl, ⟨fun _ _ => rfl, fun _ _ => rfl⟩, fun _ => rfl, rfl⟩

end HerbCache
