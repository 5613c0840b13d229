import HerbCache.Cachegroup.Cache

/-!
# What a group write does

`setBytesCaches_fst` gives each tier its own write, with the ttl `capTTL` computes from the
entry's remaining lifetime and the tier's `TTL`. That lifetime is computed from the header's whole
Unix second, so within the header's last second it is not positive and `capTTL` takes the branch
meant for an entry that never expires (`setBytesCaches_of_last_second`): a short write hands each
tier its own `TTL`, however little of the entry's life is left.
-/

namespace HerbCache.Cachegroup

/-- Every tier of the group stores every write. -/
def Cache.Faithful (c : Cache) : Prop := ∀ v ∈ c.subCaches, v.Faithful

/-! ### The ttl of a tier write -/

theorem remaining_eq {E : Int} (h₁ : -9223372036854775808 ≤ E) (h₂ : E < 9223372036854775808)
    (now : Time) :
    remaining E now =
      max (-9223372036854775808) (min 9223372036854775807 (E * 1000000000 - now.ns)) := by
  rw [remaining, Time.sub, Time.ns_ofUnix h₁ h₂]

theorem remaining_nonpos {E : Int} {now : Time} (hE : now.unix = E) :
    remaining E now ≤ 0 := by
  have := now.unix_mul_le
  rw [remaining_eq (hE ▸ now.le_unix) (hE ▸ now.unix_lt)]
  omega

theorem remaining_add_pos {now : Time} {ttl : Int} (httl : 1000000000 ≤ ttl)
    (hsat : now.ns + ttl ≤ 9223372036854775807999999999) :
    0 < remaining (now.add ttl).unix now ∧ remaining (now.add ttl).unix now ≤ ttl := by
  have hadd := now.ns_add_of_le (by omega) hsat
  have h₁ := (now.add ttl).unix_mul_le
  have h₂ := now.lt_unix_succ
  have h₃ : now.unix + 1 ≤ (now.add ttl).unix := by
    unfold Time.unix; rw [hadd]; omega
  rw [remaining_eq (now.add ttl).le_unix (now.add ttl).unix_lt]
  constructor <;> omega

theorem capTTL_pos_of_pos {t : Int} (ht : 0 < t) (T : Int) (hT : T ≠ 0) :
    0 < capTTL t T := by
  unfold capTTL; split_ifs <;> omega

theorem capTTL_le_of_pos {t : Int} (ht : 0 < t) (T : Int) : capTTL t T ≤ t := by
  unfold capTTL; split_ifs <;> omega

theorem capTTL_le_tierTTL {t : Int} (ht : 0 ≤ t) {T : Int} (hT : 0 ≤ T) :
    capTTL t T ≤ T := by
  unfold capTTL; split_ifs <;> omega

/-- Strictly inside the header's last second, the capped ttl is the tier's own, or `-1`. -/
theorem capTTL_of_last_second {E : Int} {now : Time} (hE : now.unix = E)
    (hmid : E * 1000000000 < now.ns) (T : Int) :
    capTTL (remaining E now) T = if T < 0 then -1 else T := by
  have hneg : remaining E now < 0 := by
    rw [remaining_eq (hE ▸ now.le_unix) (hE ▸ now.unix_lt)]
    omega
  simp [capTTL, hneg]

/-! ### `setBytesCaches` -/

variable {key : Key} {bytes : Bytes} {expired : Int} {mode : Mode} {now : Time}

theorem setBytesCaches_fst (vs : List Tier) :
    (setBytesCaches key bytes expired mode now vs).1 =
      vs.map fun v => (writeTier mode v key bytes (capTTL (remaining expired now) v.TTL) now).1 := by
  induction vs with
  | nil => rfl
  | cons v vs ih => simp [setBytesCaches, ih]

theorem setBytesCaches_snd {vs : List Tier} {e : Err}
    (h : (setBytesCaches key bytes expired mode now vs).2 = some e) :
    fatal (some e) ∧ ∃ v ∈ vs,
      (writeTier mode v key bytes (capTTL (remaining expired now) v.TTL) now).2 = some e := by
  induction vs with
  | nil => cases h
  | cons v vs ih =>
    simp only [setBytesCaches] at h
    cases hr : (setBytesCaches key bytes expired mode now vs).2 with
    | some e' =>
      rw [hr, Option.some_orElse] at h
      obtain ⟨hf, w, hw, hwe⟩ := ih (hr.trans h)
      exact ⟨hf, w, List.mem_cons_of_mem v hw, hwe⟩
    | none =>
      rw [hr, Option.none_orElse] at h
      split_ifs at h with hf
      exact ⟨h ▸ hf, v, List.mem_cons_self v vs, h⟩

theorem setBytesCaches_snd_eq_none {vs : List Tier}
    (h : ∀ v ∈ vs, (writeTier mode v key bytes (capTTL (remaining expired now) v.TTL) now).2 = none) :
    (setBytesCaches key bytes expired mode now vs).2 = none := by
  cases he : (setBytesCaches key bytes expired mode now vs).2 with
  | none => rfl
  | some e =>
    obtain ⟨hf, v, hv, hve⟩ := setBytesCaches_snd he
    simp [h v hv] at hve

/-- In the header's last second, `setBytesCaches` writes each tier with its own ttl, or `-1`. -/
theorem setBytesCaches_of_last_second (key : Key) (bytes : Bytes) (mode : Mode) (vs : List Tier)
    {E : Int} {now : Time} (hE : now.unix = E) (hmid : E * 1000000000 < now.ns) :
    (setBytesCaches key bytes E mode now vs).1 =
      vs.map fun v => (writeTier mode v key bytes (if v.TTL < 0 then -1 else v.TTL) now).1 := by
  simp only [setBytesCaches_fst, capTTL_of_last_second hE hmid]

theorem short_write_kept_an_hour :
    ((setBytesCaches [107] (Entry.set [1] 100000000 (Time.ofNs 10500000000)).1 10 .set
      (Time.ofNs 10500000000) [{ TTL := 3600000000000 }]).1.map
        fun v => (v.store [107]).map fun s => s.deadline.map Time.ns) =
      [some (some 3610500000000)] := by
  rw [setBytesCaches_of_last_second _ _ _ _ (by decide) (by decide)]
  decide

/-! ### `SetBytesValue` and `UpdateBytesValue` -/

theorem write_concat (mode : Mode) (front : List Tier) (last : Tier) (key : Key) (bytes : Bytes)
    (ttl : Int) (now : Time) :
    (⟨front ++ [last]⟩ : Cache).write mode key bytes ttl now =
      if fatal (writeTier mode last key (Entry.set bytes ttl now).1 ttl now).2 then
        (⟨front ++ [(writeTier mode last key (Entry.set bytes ttl now).1 ttl now).1]⟩,
          (writeTier mode last key (Entry.set bytes ttl now).1 ttl now).2)
      else
        (⟨(setBytesCaches key (Entry.set bytes ttl now).1 (Entry.set bytes ttl now).2 mode now
            front).1 ++ [(writeTier mode last key (Entry.set bytes ttl now).1 ttl now).1]⟩,
          (setBytesCaches key (Entry.set bytes ttl now).1 (Entry.set bytes ttl now).2 mode now
            front).2) := by
  simp only [Cache.write, List.getLast?_concat, List.dropLast_concat]

theorem writeTier_set_of_faithful {v : Tier} (hv : v.Faithful) (key : Key) (bytes : Bytes)
    (ttl : Int) (now : Time) :
    writeTier .set v key bytes ttl now = (v.put key (some ⟨bytes, v.deadline ttl now⟩), none) :=
  Tier.setBytesValue_of_faithful hv key bytes ttl now

theorem writeTier_snd_of_faithful {v : Tier} (hv : v.Faithful) (mode : Mode) (key : Key)
    (bytes : Bytes) (ttl : Int) (now : Time) : (writeTier mode v key bytes ttl now).2 = none := by
  cases mode with
  | set => simp [writeTier_set_of_faithful hv]
  | update =>
    by_cases h : (v.lookup key now).isSome
    · simp [writeTier, Tier.updateBytesValue, h, Tier.setBytesValue_of_faithful hv]
    · simp [writeTier, Tier.updateBytesValue, h]

/-- A group of faithful tiers writes each tier, and returns `nil`. -/
theorem write_of_faithful (mode : Mode) (front : List Tier) (last : Tier)
    (hc : (⟨front ++ [last]⟩ : Cache).Faithful) (key : Key) (bytes : Bytes) (ttl : Int)
    (now : Time) :
    (⟨front ++ [last]⟩ : Cache).write mode key bytes ttl now =
      (⟨(setBytesCaches key (Entry.set bytes ttl now).1 (Entry.set bytes ttl now).2 mode now
          front).1 ++ [(writeTier mode last key (Entry.set bytes ttl now).1 ttl now).1]⟩, none) := by
  have hlast := writeTier_snd_of_faithful (hc last (by simp)) mode key (Entry.set bytes ttl now).1
    ttl now
  rw [write_concat, hlast]
  simp only [fatal, Bool.false_eq_true, if_false, Prod.mk.injEq, true_and]
  exact setBytesCaches_snd_eq_none fun v hv =>
    writeTier_snd_of_faithful (hc v (List.mem_append_left _ hv)) mode key _ _ now

end HerbCache.Cachegroup
