import HerbCache.Cachegroup.Read

/-!
# Keys the group cache reports missing

`GetBytesValue` reports a key missing both when no tier holds it and when the first copy's header
has expired, and the writes do not tell the two apart: an update sees the expired copy as present,
writes there, and the key reads back (`update_revives_expired_copy`). `Expire` returns the read's
`ErrNotFound`, where `Del` and `UpdateBytesValue` return `nil` (`missing_key_expire_update_del`).
-/

namespace HerbCache.Cachegroup

variable {key : Key} {now : Time}

theorem exists_concat_of_length_pos {c : Cache} (hN : 0 < c.subCaches.length) :
    ∃ front last, c.subCaches = front ++ [last] := by
  rcases List.eq_nil_or_concat c.subCaches with h | ⟨front, last, h⟩
  · simp [h] at hN
  · exact ⟨front, last, h.trans (List.concat_eq_append _ _)⟩

theorem alive_deadline (v : Tier) (x : Bytes) {ttl : Int} (h : 0 < ttl)
    (hsat : now.ns + ttl ≤ 9223372036854775807999999999) :
    (Slot.mk x (v.deadline ttl now)).alive now = true := by
  simp [Slot.alive, v.deadline_of_pos h, now.ns_add_of_le h.le hsat]
  omega

theorem getBytesValue_update_of_alive {v : Tier} (hv : v.Faithful) (key : Key) (x : Bytes)
    {ttl : Int} (halive : (Slot.mk x (v.deadline ttl now)).alive now = true) :
    (writeTier .update v key x ttl now).1.getBytesValue key now =
      (v.getBytesValue key now).map fun _ => x := by
  have hr := hv.reads.1 key now
  cases hl : v.lookup key now with
  | none =>
    simp [writeTier, Tier.updateBytesValue_of_lookup_none hl, Tier.getBytesValue, hl, hr, Except.map]
  | some b =>
    simp [writeTier, Tier.updateBytesValue_of_lookup_some hl, Tier.setBytesValue_of_faithful hv,
      Tier.getBytesValue, Tier.lookup_put_self, halive, hr, hl, Except.map]

theorem firstAnswer_of_forall₂ {y : Bytes} {vs ws : List Tier}
    (h : List.Forall₂ (fun v w => w.getBytesValue key now = (v.getBytesValue key now).map fun _ => y)
      vs ws) :
    firstAnswer key now ws = (firstAnswer key now vs).map fun p => (p.1, p.2.map fun _ => y) := by
  induction h with
  | nil => rfl
  | @cons v w vs ws hvw _ ih =>
    rcases hv : v.getBytesValue key now with e | b
    · cases e <;> simp [firstAnswer, hvw, hv, ih, Option.map_map, Function.comp_def, Except.map]
    · simp [firstAnswer, hvw, hv, Except.map]

/-- `UpdateBytesValue` writes into every tier holding a copy, even an expired one. -/
theorem update_revives_expired_copy {c : Cache} (hN : 0 < c.subCaches.length) (hc : c.Faithful)
    (hT : ∀ v ∈ c.subCaches, v.TTL ≠ 0) {i : Nat} {x : Bytes}
    (hfirst : firstCopy key now c.subCaches = some (i, x))
    (hx : Entry.get x now = .error .notFound) (b : Bytes) {ttl : Int}
    (httl : 1000000000 ≤ ttl) (hsat : now.ns + ttl ≤ 9223372036854775807999999999) :
    (c.getBytesValue key now).2 = .error .notFound ∧
    ((c.updateBytesValue key b ttl now).1.getBytesValue key now).2 = .ok b := by
  refine ⟨by rw [getBytesValue_of_firstCopy_invalid hfirst hx], ?_⟩
  obtain ⟨front, last, hfl⟩ := exists_concat_of_length_pos hN
  obtain ⟨rpos, rle⟩ := remaining_add_pos httl hsat
  obtain ⟨subs⟩ := c
  subst hfl
  have hfront : ∀ v ∈ front, (writeTier .update v key (Entry.set b ttl now).1
      (capTTL (remaining (now.add ttl).unix now) v.TTL) now).1.getBytesValue key now =
        (v.getBytesValue key now).map fun _ => (Entry.set b ttl now).1 := fun v hv =>
    getBytesValue_update_of_alive (hc v (List.mem_append_left _ hv)) key _
      (alive_deadline v _ (capTTL_pos_of_pos rpos _ (hT v (List.mem_append_left _ hv)))
        (by have := capTTL_le_of_pos rpos v.TTL; omega))
  have hlast := getBytesValue_update_of_alive (hc last (by simp)) key (Entry.set b ttl now).1
    (alive_deadline last _ (by omega) hsat)
  have hall : firstAnswer key now ((Cache.updateBytesValue ⟨front ++ [last]⟩ key b ttl now).1.subCaches) =
      some (i, .ok (Entry.set b ttl now).1) := by
    rw [Cache.updateBytesValue, write_of_faithful .update front last hc, setBytesCaches_fst,
      firstAnswer_of_forall₂ (y := (Entry.set b ttl now).1), firstAnswer_of_firstCopy hfirst]
    · rfl
    · refine List.rel_append ?_ (List.Forall₂.cons hlast List.Forall₂.nil)
      exact List.forall₂_map_right_iff.2 (List.forall₂_same.2 hfront)
  have hget := get_set b ttl now now
  rw [if_neg (by have := now.unix_le_unix (now.ns_le_add (d := ttl) (by omega)); omega)] at hget
  rw [getBytesValue_eq, hall]
  simp only [hget]

/-- An expired first-tier copy reads as missing, and reads back after an update. -/
theorem expired_copy_revived :
    let x : Bytes := (Entry.set [1] 100000000 (Time.ofNs 10500000000)).1
    let c : Cache := ⟨[
      { TTL := 3600000000000,
        store := Function.update (fun _ => none) [107] (some ⟨x, some (Time.ofNs 3610500000000)⟩) },
      { TTL := 3600000000000 }]⟩
    (c.getBytesValue [107] (Time.ofNs 12000000000)).2 = .error .notFound ∧
    ((c.updateBytesValue [107] [2] 3600000000000 (Time.ofNs 12000000000)).1.getBytesValue [107]
      (Time.ofNs 12000000000)).2 = .ok [2] :=
  update_revives_expired_copy (by decide)
    (by intro v hv; simp only [List.mem_cons, List.not_mem_nil, or_false] at hv
        rcases hv with rfl | rfl <;> exact faithful_mk _ _)
    (by intro v hv; simp only [List.mem_cons, List.not_mem_nil, or_false] at hv
        rcases hv with rfl | rfl <;> decide)
    (i := 0) (x := (Entry.set [1] 100000000 (Time.ofNs 10500000000)).1) (by decide) (by decide) [2]
    (by decide) (by decide)

/-! ### `Expire`, `UpdateBytesValue` and `Del` on a missing key -/

theorem expire_of_getBytesValue_error {c : Cache} {e : Err}
    (h : (c.getBytesValue key now).2 = .error e) (ttl : Int) :
    (c.expire key ttl now).2 = some e := by
  rcases hg : c.getBytesValue key now with ⟨c', r⟩
  rw [hg] at h
  subst h
  simp [Cache.expire, hg]

theorem forEach_snd (f : Tier → Tier × Option Err) (vs : List Tier) :
    (forEach f vs).2 = (vs.filterMap fun v => (f v).2).getLast? := by
  induction vs with
  | nil => rfl
  | cons v vs ih =>
    simp only [forEach, ih, List.filterMap_cons]
    cases hv : (f v).2 <;> cases hl : (vs.filterMap fun v => (f v).2).getLast? <;>
      simp only [hl, List.getLast?_cons, Option.orElse_none, Option.none_orElse, Option.some_orElse,
        Option.getD_none, Option.getD_some]

theorem del_snd_of_faithful {c : Cache} (hc : c.Faithful) (key : Key) : (c.del key).2 = none := by
  rw [Cache.del, forEach_snd, List.getLast?_eq_none_iff, List.filterMap_eq_nil_iff]
  exact fun v hv => (Tier.del_snd v key).trans ((hc v hv).2.2.1 key)

/-- On a missing key, `Expire` returns `ErrNotFound`; `UpdateBytesValue` and `Del` return `nil`. -/
theorem missing_key_expire_update_del {c : Cache} (hN : 0 < c.subCaches.length)
    (hc : c.Faithful) (hget : (c.getBytesValue key now).2 = .error .notFound) (b : Bytes)
    (ttl : Int) :
    (c.expire key ttl now).2 = some .notFound ∧ (c.updateBytesValue key b ttl now).2 = none ∧
      (c.del key).2 = none := by
  refine ⟨expire_of_getBytesValue_error hget ttl, ?_, del_snd_of_faithful hc key⟩
  obtain ⟨front, last, hfl⟩ := exists_concat_of_length_pos hN
  obtain ⟨subs⟩ := c
  subst hfl
  rw [Cache.updateBytesValue, write_of_faithful .update front last hc]

theorem expire_absent_key :
    (((⟨[{ TTL := 3600000000000 }]⟩ : Cache).expire [107] 3600000000000 (Time.ofNs 0)).2 =
      some .notFound ∧
    ((⟨[{ TTL := 3600000000000 }]⟩ : Cache).updateBytesValue [107] [1] 3600000000000
      (Time.ofNs 0)).2 = none ∧
    ((⟨[{ TTL := 3600000000000 }]⟩ : Cache).del [107]).2 = none) :=
  missing_key_expire_update_del (by decide)
    (by intro v hv; simp only [List.mem_cons, List.not_mem_nil, or_false] at hv
        subst hv; exact faithful_mk _ _)
    (by decide) [1] 3600000000000

end HerbCache.Cachegroup
