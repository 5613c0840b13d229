import HerbCache.Cachegroup.Write

/-!
# What a group read does

`GetBytesValue` stops at the first tier whose read answers other than `ErrNotFound`
(`firstAnswer`). On a copy it answers the copy's decoding and writes the copy unchanged into the
tiers before it (`getBytesValue_eq`). It never looks past an expired or too-short copy
(`getBytesValue_of_firstCopy_invalid`), which a short write leaves in the first tier for that
tier's whole `TTL` (`stale_copy_hides_valid`).
-/

namespace HerbCache.Cachegroup

variable {key : Key} {now : Time}

/-- The first tier whose read of `key` answers other than `ErrNotFound`: its index and answer. -/
def firstAnswer (key : Key) (now : Time) : List Tier → Option (Nat × Except Err Bytes)
  | [] => none
  | v :: vs =>
    match v.getBytesValue key now with
    | .error .notFound => (firstAnswer key now vs).map fun p => (p.1 + 1, p.2)
    | r => some (0, r)

def firstCopy (key : Key) (now : Time) (vs : List Tier) : Option (Nat × Bytes) :=
  match firstAnswer key now vs with
  | some (i, .ok b) => some (i, b)
  | _ => none

theorem firstAnswer_of_firstCopy {vs : List Tier} {i : Nat} {x : Bytes}
    (h : firstCopy key now vs = some (i, x)) : firstAnswer key now vs = some (i, .ok x) := by
  unfold firstCopy at h
  split at h
  · cases h; assumption
  · cases h

theorem scan_eq (key : Key) (now : Time) (last : Except Err Bytes) (vs : List Tier) :
    scan key now last vs =
      (firstAnswer key now vs).getD (vs.length, if vs.isEmpty then last else .error .notFound) := by
  induction vs generalizing last with
  | nil => rfl
  | cons v vs ih =>
    rcases hv : v.getBytesValue key now with e | b
    · cases e
      case notFound =>
        simp only [scan, firstAnswer, hv, ih]
        cases firstAnswer key now vs <;> simp
      all_goals simp [scan, firstAnswer, hv]
    · simp [scan, firstAnswer, hv]

theorem getBytesValue_eq (c : Cache) (key : Key) (now : Time) :
    c.getBytesValue key now =
      match firstAnswer key now c.subCaches with
      | some (i, .ok x) =>
        match Entry.get x now with
        | .error e => (c, .error e)
        | .ok (buf, expired) =>
          (⟨(setBytesCaches key x expired .set now (c.subCaches.take i)).1 ++ c.subCaches.drop i⟩,
            .ok buf)
      | some (_, .error e) => (c, .error e)
      | none => (c, .error .notFound) := by
  unfold Cache.getBytesValue
  rw [scan_eq]
  rcases firstAnswer key now c.subCaches with _ | ⟨i, e | x⟩
  · cases c.subCaches.isEmpty <;> simp [Entry.get]
  · rfl
  · rfl

/-- `GetBytesValue` stops at the first copy: an invalid one reads as `ErrNotFound`. -/
theorem getBytesValue_of_firstCopy_invalid {c : Cache} {key : Key} {now : Time} {i : Nat}
    {x : Bytes} (hfirst : firstCopy key now c.subCaches = some (i, x))
    (hx : Entry.get x now = .error .notFound) :
    c.getBytesValue key now = (c, .error .notFound) := by
  rw [getBytesValue_eq, firstAnswer_of_firstCopy hfirst]
  simp only [hx]

/-- An expired copy in the first tier hides a valid one in the last. -/
theorem stale_copy_hides_valid :
    let c := (((⟨[{ TTL := 3600000000000 }, { TTL := 3600000000000 }]⟩ : Cache).setBytesValue
      [107] [1] 100000000 (Time.ofNs 10500000000)).1.mSetBytesValue
        ((∅ : AList fun _ : Key => Bytes).insert [107] [2]) 3600000000000 (Time.ofNs 12000000000)).1
    (c.getBytesValue [107] (Time.ofNs 12000000000)).2 = .error .notFound ∧
    (c.subCaches.getLast?.bind (·.lookup [107] (Time.ofNs 12000000000))).map
      (fun x => (Entry.get x (Time.ofNs 12000000000)).map Prod.fst) = some (.ok [2]) :=
  ⟨by rw [getBytesValue_of_firstCopy_invalid (i := 0)
        (x := (Entry.set [1] 100000000 (Time.ofNs 10500000000)).1) (by decide) (by decide)],
    by decide⟩

end HerbCache.Cachegroup
