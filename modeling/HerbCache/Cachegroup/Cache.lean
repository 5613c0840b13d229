import HerbCache.Tier
import HerbCache.Cachegroup.Entry

/-!
# The group cache driver

`cachegroup.Cache` makes one cache of a list of tiers. A write frames its payload as an entry,
writes it to the last tier with the caller's ttl and then to the others with the ttl `capTTL`
computes, dropping the advisory errors (`fatal`). `GetBytesValue` asks the tiers in order, stops
at the first answer other than `ErrNotFound` (`scan`) and writes it back into the tiers before it.
Batch operations use only the last tier; an empty tier list panics (`indexOutOfRange`).
-/

namespace HerbCache.Cachegroup

inductive Mode
  | set
  | update
  deriving DecidableEq

/-- The group cache driver, `cachegroup.Cache`. -/
structure Cache where
  subCaches : List Tier

def writeTier : Mode → Tier → Key → Bytes → Int → Time → Tier × Option Err
  | .set, v => v.setBytesValue
  | .update, v => v.updateBytesValue

/-- An error the writes keep: not `nil`, `ErrNotCacheable` or `ErrEntryTooLarge`. -/
def fatal : Option Err → Bool
  | some e => e != .notCacheable && e != .entryTooLarge
  | none => false

def remaining (expired : Int) (now : Time) : Int := (Time.ofUnix expired).sub now

/-- The ttl `setBytesCaches` hands a tier of default ttl `tierTTL`, from the lifetime `t` left. -/
def capTTL (t tierTTL : Int) : Int :=
  if t < 0 then
    if tierTTL < 0 then -1 else tierTTL
  else if tierTTL < 0 then t
  else if tierTTL < t then tierTTL else t

/-- `setBytesCaches`: `bytes` written to each tier with its capped ttl, and the last fatal error. -/
def setBytesCaches (key : Key) (bytes : Bytes) (expired : Int) (mode : Mode) (now : Time) :
    List Tier → List Tier × Option Err
  | [] => ([], none)
  | v :: vs =>
    let (v', err) := writeTier mode v key bytes (capTTL (remaining expired now) v.TTL) now
    let (vs', finalErr) := setBytesCaches key bytes expired mode now vs
    (v' :: vs', finalErr <|> if fatal err then err else none)

/-- `SetBytesValue` and `UpdateBytesValue`, by `mode`: the last tier first, then the others. -/
def Cache.write (mode : Mode) (c : Cache) (key : Key) (bytes : Bytes) (ttl : Int)
    (now : Time) : Cache × Option Err :=
  let (e, expired) := Entry.set bytes ttl now
  match c.subCaches.getLast? with
  | none => (c, some .indexOutOfRange)
  | some last =>
    let (last', err) := writeTier mode last key e ttl now
    if fatal err then (⟨c.subCaches.dropLast ++ [last']⟩, err)
    else
      let (front, err) := setBytesCaches key e expired mode now c.subCaches.dropLast
      (⟨front ++ [last']⟩, err)

def Cache.setBytesValue (c : Cache) (key : Key) (bytes : Bytes) (ttl : Int) (now : Time) :
    Cache × Option Err :=
  c.write .set key bytes ttl now

def Cache.updateBytesValue (c : Cache) (key : Key) (bytes : Bytes) (ttl : Int) (now : Time) :
    Cache × Option Err :=
  c.write .update key bytes ttl now

/-- The loop of `GetBytesValue`: how many tiers answered `ErrNotFound`, and the next answer. -/
def scan (key : Key) (now : Time) (last : Except Err Bytes) : List Tier → Nat × Except Err Bytes
  | [] => (0, last)
  | v :: vs =>
    match v.getBytesValue key now with
    | .error .notFound => let (n, r) := scan key now (.error .notFound) vs; (n + 1, r)
    | r => (0, r)

/-- `GetBytesValue`. Before any tier answers, `bytes` and `err` are `nil`. -/
def Cache.getBytesValue (c : Cache) (key : Key) (now : Time) : Cache × Except Err Bytes :=
  let (n, r) := scan key now (.ok []) c.subCaches
  match r with
  | .error err => (c, .error err)
  | .ok bytes =>
    match Entry.get bytes now with
    | .error err => (c, .error err)
    | .ok (buf, expired) =>
      let (front, _) := setBytesCaches key bytes expired .set now (c.subCaches.take n)
      (⟨front ++ c.subCaches.drop n⟩, .ok buf)

def Cache.expire (c : Cache) (key : Key) (ttl : Int) (now : Time) : Cache × Option Err :=
  let (c, r) := c.getBytesValue key now
  match r with
  | .error err => (c, some err)
  | .ok b => c.setBytesValue key b ttl now

/-- The loop of `MGetBytesValue`: each entry decoded, `none` for one `entry.Get` reports missing. -/
def decodeEntries (now : Time) :
    List (Σ _ : Key, Bytes) → Except Err (AList fun _ : Key => Option Bytes)
  | [] => .ok ∅
  | e :: es => do
    let data ← decodeEntries now es
    match Entry.get e.2 now with
    | .ok (buf, _) => .ok (data.insert e.1 (some buf))
    | .error .notFound => .ok (data.insert e.1 none)
    | .error err => .error err

/-- `MGetBytesValue`: from the last tier only. -/
def Cache.mGetBytesValue (c : Cache) (keys : List Key) (now : Time) :
    Except Err (AList fun _ : Key => Option Bytes) :=
  match c.subCaches.getLast? with
  | none => .error .indexOutOfRange
  | some last => do
    let emap ← last.mGetBytesValue keys now
    decodeEntries now emap.entries

/-- `MSetBytesValue`: each value framed as an entry, all written to the last tier only. -/
def Cache.mSetBytesValue (c : Cache) (data : AList fun _ : Key => Bytes) (ttl : Int)
    (now : Time) : Cache × Option Err :=
  let emap : AList fun _ : Key => Bytes :=
    data.entries.foldl (fun m e => m.insert e.1 (Entry.set e.2 ttl now).1) ∅
  match c.subCaches.getLast? with
  | none => (c, some .indexOutOfRange)
  | some last =>
    let (last', err) := last.mSetBytesValue emap ttl now
    (⟨c.subCaches.dropLast ++ [last']⟩, err)

/-- The loops of `Del` and `Flush`: `f` on every tier, and the last error. -/
def forEach (f : Tier → Tier × Option Err) : List Tier → List Tier × Option Err
  | [] => ([], none)
  | v :: vs =>
    let (v', err) := f v
    let (vs', finalErr) := forEach f vs
    (v' :: vs', finalErr <|> err)

def Cache.del (c : Cache) (key : Key) : Cache × Option Err :=
  let (vs, err) := forEach (·.del key) c.subCaches
  (⟨vs⟩, err)

def Cache.flush (c : Cache) : Cache × Option Err :=
  let (vs, err) := forEach Tier.flush c.subCaches
  (⟨vs⟩, err)

end HerbCache.Cachegroup
