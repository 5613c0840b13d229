import HerbCache.Cachegroup.Missing

/-!
# What a group operation can change

A group operation changes only the slots of the keys it names (`slots_write`, `slots_del`, ...).
On its own key a read writes only the tiers before its first answer, so the last tier keeps its
slot (`getBytesValue_getLast?`), and what it writes is the first copy
(`slot_getBytesValue_self`). The run invariants of `Run` are derived from these lemmas alone.
-/

namespace HerbCache

namespace Tier

theorem lookup_eq_some {c : Tier} {key : Key} {now : Time} {b : Bytes} :
    c.lookup key now = some b ↔ ∃ s, c.store key = some s ∧ s.alive now = true ∧ s.bytes = b := by
  unfold lookup
  cases c.store key with
  | none => simp
  | some s => by_cases h : s.alive now = true <;> simp [h]

@[simp] theorem deadline_put (c : Tier) (key : Key) (s : Option Slot) :
    (c.put key s).deadline = c.deadline := rfl

theorem store_setBytesValue_self (c : Tier) (key : Key) (bytes : Bytes) (ttl : Int) (now : Time) :
    (c.setBytesValue key bytes ttl now).1.store key = c.store key ∨
      (c.setBytesValue key bytes ttl now).1.store key = some ⟨bytes, c.deadline ttl now⟩ := by
  rcases setBytesValue_eq c key bytes ttl now with ⟨-, he⟩ | ⟨-, he⟩ <;> simp [he]

theorem store_updateBytesValue_ne (c : Tier) {key key' : Key} (bytes : Bytes) (ttl : Int)
    (now : Time) (h : key' ≠ key) :
    (c.updateBytesValue key bytes ttl now).1.store key' = c.store key' := by
  unfold updateBytesValue
  split_ifs
  · exact c.setBytesValue_frame bytes ttl now h
  · rfl

/-- The loop of `MSetBytesValue` writes only the keys of its entries. -/
theorem store_mSetBytesValue_of_not_mem (c : Tier) {data : AList fun _ : Key => Bytes} {k : Key}
    (h : k ∉ data) (ttl : Int) (now : Time) :
    (c.mSetBytesValue data ttl now).1.store k = c.store k := by
  have h' : k ∉ data.entries.keys := h
  unfold mSetBytesValue
  generalize data.entries = es at h'
  generalize (none : Option Err) = err
  induction es generalizing c err with
  | nil => rfl
  | cons e es ih =>
    rw [List.keys_cons, List.mem_cons, not_or] at h'
    rcases hs : c.setBytesValue e.1 e.2 ttl now with ⟨c', err'⟩
    simp only [List.foldl, hs]
    rw [ih c' h'.2 _, ← c.setBytesValue_frame e.2 ttl now h'.1, hs]

/-- On a faithful tier, `MSetBytesValue` gives each key its value with the batch's deadline. -/
theorem store_mSetBytesValue_of_faithful {c : Tier} (hc : c.Faithful)
    (data : AList fun _ : Key => Bytes) (k : Key) (ttl : Int) (now : Time) :
    (c.mSetBytesValue data ttl now).1.store k =
      ((data.lookup k).map fun b => ⟨b, c.deadline ttl now⟩).or (c.store k) := by
  unfold mSetBytesValue AList.lookup
  have hnd := data.nodupKeys
  generalize data.entries = es at hnd
  generalize (none : Option Err) = err
  induction es generalizing c err with
  | nil => rfl
  | cons e es ih =>
    obtain ⟨k₀, x⟩ := e
    obtain ⟨hfst, hnd⟩ := List.nodupKeys_cons.1 hnd
    have hc' : (c.put k₀ (some ⟨x, c.deadline ttl now⟩)).Faithful := hc
    simp only [List.foldl, setBytesValue_of_faithful hc]
    rw [ih hc' hnd _, deadline_put]
    by_cases hk : k = k₀
    · subst hk
      simp [List.dlookup_eq_none.2 hfst]
    · simp [List.dlookup_cons_ne es ⟨k₀, x⟩ hk, put_store_ne _ _ hk]

end Tier

namespace Cachegroup

/-- What each tier holds for `key`, in tier order. -/
def Cache.slots (c : Cache) (key : Key) : List (Option Slot) := c.subCaches.map fun v => v.store key

variable {key k : Key} {now : Time}

theorem store_writeTier_ne (mode : Mode) (v : Tier) (bytes : Bytes) (ttl : Int) (now : Time)
    (h : k ≠ key) : (writeTier mode v key bytes ttl now).1.store k = v.store k := by
  cases mode
  · exact v.setBytesValue_frame bytes ttl now h
  · exact v.store_updateBytesValue_ne bytes ttl now h

theorem slots_setBytesCaches (bytes : Bytes) (expired : Int) (mode : Mode) (vs : List Tier)
    (h : k ≠ key) :
    (setBytesCaches key bytes expired mode now vs).1.map (fun v => v.store k) =
      vs.map fun v => v.store k := by
  simp [setBytesCaches_fst, store_writeTier_ne _ _ _ _ _ h]

theorem slots_write (mode : Mode) (c : Cache) (bytes : Bytes) (ttl : Int) (h : k ≠ key) :
    (c.write mode key bytes ttl now).1.slots k = c.slots k := by
  obtain ⟨subs⟩ := c
  rcases List.eq_nil_or_concat subs with rfl | ⟨front, last, rfl⟩
  · rfl
  · rw [List.concat_eq_append, write_concat]
    split_ifs <;>
      simp [Cache.slots, slots_setBytesCaches _ _ _ _ h, store_writeTier_ne _ _ _ _ _ h]

theorem slots_getBytesValue (c : Cache) (h : k ≠ key) :
    (c.getBytesValue key now).1.slots k = c.slots k := by
  rw [getBytesValue_eq]
  rcases firstAnswer key now c.subCaches with _ | ⟨i, e | x⟩
  · rfl
  · rfl
  · dsimp only
    rcases Entry.get x now with e | ⟨buf, E⟩
    · rfl
    · simp only [Cache.slots]
      rw [List.map_append, slots_setBytesCaches _ _ _ _ h, ← List.map_append, List.take_append_drop]

theorem slots_expire (c : Cache) (ttl : Int) (h : k ≠ key) :
    (c.expire key ttl now).1.slots k = c.slots k := by
  unfold Cache.expire
  rcases hg : c.getBytesValue key now with ⟨c', r⟩
  have hc' : c'.slots k = c.slots k := by rw [← slots_getBytesValue c h, hg]
  cases r with
  | error e => exact hc'
  | ok b => exact (slots_write .set c' b ttl h).trans hc'

theorem forEach_fst (f : Tier → Tier × Option Err) (vs : List Tier) :
    (forEach f vs).1 = vs.map fun v => (f v).1 := by
  induction vs with
  | nil => rfl
  | cons v vs ih => simp [forEach, ih]

theorem slots_del (c : Cache) (h : k ≠ key) : (c.del key).1.slots k = c.slots k := by
  simp [Cache.del, Cache.slots, forEach_fst, Tier.store_del, h]

theorem slots_mSetBytesValue (c : Cache) {data : AList fun _ : Key => Bytes} (ttl : Int)
    (h : k ∉ data) : (c.mSetBytesValue data ttl now).1.slots k = c.slots k := by
  unfold Cache.mSetBytesValue
  rcases hl : c.subCaches.getLast? with _ | last
  · rfl
  · have hemap : k ∉ data.entries.foldl (fun (m : AList fun _ : Key => Bytes) e =>
        m.insert e.1 (Entry.set e.2 ttl now).1) ∅ :=
      fun hk => ((mem_foldl_insert (f := id) (g := fun b => (Entry.set b ttl now).1) _ _).1 hk).elim (AList.not_mem_empty k) fun ⟨_, hk', he⟩ =>
        h (he ▸ hk')
    conv_rhs => rw [Cache.slots, ← List.dropLast_append_getLast? last hl]
    simp [Cache.slots, Tier.store_mSetBytesValue_of_not_mem last hemap]

/-! ### A read on its own key -/

theorem firstAnswer_cons_of_ne {v : Tier} {vs : List Tier}
    (hv : v.getBytesValue key now ≠ .error .notFound) :
    firstAnswer key now (v :: vs) = some (0, v.getBytesValue key now) := by
  simp only [firstAnswer, hv]

theorem firstAnswer_cons_of_notFound {v : Tier} {vs : List Tier}
    (hv : v.getBytesValue key now = .error .notFound) :
    firstAnswer key now (v :: vs) = (firstAnswer key now vs).map fun p => (p.1 + 1, p.2) := by
  simp only [firstAnswer, hv]

/-- The first answer is tier `i`'s, and every tier before it answers `ErrNotFound`. -/
theorem firstAnswer_getElem? {vs : List Tier} {i : Nat} {r : Except Err Bytes}
    (h : firstAnswer key now vs = some (i, r)) :
    ∃ v, vs[i]? = some v ∧ v.getBytesValue key now = r ∧ r ≠ .error .notFound ∧
      ∀ w ∈ vs.take i, w.getBytesValue key now = .error .notFound := by
  induction vs generalizing i with
  | nil => cases h
  | cons v vs ih =>
    by_cases hv : v.getBytesValue key now = .error .notFound
    · rw [firstAnswer_cons_of_notFound hv, Option.map_eq_some'] at h
      obtain ⟨⟨j, y⟩, hj, he⟩ := h
      obtain ⟨rfl, rfl⟩ := Prod.mk.inj he
      obtain ⟨w, hw, hwr, hne, hfront⟩ := ih hj
      exact ⟨w, by simpa using hw, hwr, hne, by simpa [hv] using hfront⟩
    · rw [firstAnswer_cons_of_ne hv, Option.some.injEq, Prod.mk.injEq] at h
      obtain ⟨rfl, rfl⟩ := h
      exact ⟨v, List.getElem?_cons_zero, rfl, hv, by simp⟩

theorem firstAnswer_eq_none {vs : List Tier} (h : firstAnswer key now vs = none) :
    ∀ v ∈ vs, v.getBytesValue key now = .error .notFound := by
  induction vs with
  | nil => simp
  | cons v vs ih =>
    by_cases hv : v.getBytesValue key now = .error .notFound
    · rw [firstAnswer_cons_of_notFound hv, Option.map_eq_none'] at h
      exact List.forall_mem_cons.2 ⟨hv, ih h⟩
    · rw [firstAnswer_cons_of_ne hv] at h
      cases h

/-- On tiers that fail no read, the first answer is a copy. -/
theorem firstAnswer_ne_error {vs : List Tier} (hR : ∀ v ∈ vs, v.readErr key now = none) {i : Nat}
    {e : Err} : firstAnswer key now vs ≠ some (i, .error e) := fun h => by
  obtain ⟨v, hv, hve, hne, -⟩ := firstAnswer_getElem? h
  rw [Tier.getBytesValue_of_readErr (hR v (List.getElem?_mem hv))] at hve
  split at hve <;> cases hve
  exact hne rfl

theorem firstAnswer_drop {vs : List Tier} {i : Nat} {r : Except Err Bytes}
    (h : firstAnswer key now vs = some (i, r)) : firstAnswer key now (vs.drop i) = some (0, r) := by
  obtain ⟨v, hv, rfl, hne, -⟩ := firstAnswer_getElem? h
  obtain ⟨hi, rfl⟩ := List.getElem?_eq_some.1 hv
  rw [List.drop_eq_getElem_cons hi, firstAnswer_cons_of_ne hne]

theorem firstCopy_of_firstAnswer {vs : List Tier} {i : Nat} {x : Bytes}
    (h : firstAnswer key now vs = some (i, .ok x)) : firstCopy key now vs = some (i, x) := by
  simp [firstCopy, h]

theorem firstAnswer_lt {vs : List Tier} {i : Nat} {r : Except Err Bytes}
    (h : firstAnswer key now vs = some (i, r)) : i < vs.length :=
  let ⟨_, hv, _⟩ := firstAnswer_getElem? h
  (List.getElem?_eq_some.1 hv).1

theorem firstCopy_getElem? {vs : List Tier} {i : Nat} {x : Bytes}
    (h : firstCopy key now vs = some (i, x)) : ∃ v, vs[i]? = some v ∧ v.lookup key now = some x :=
  let ⟨v, hv, hr, _⟩ := firstAnswer_getElem? (firstAnswer_of_firstCopy h)
  ⟨v, hv, Tier.lookup_of_getBytesValue hr⟩

theorem firstCopy_slot {vs : List Tier} {i : Nat} {x : Bytes}
    (h : firstCopy key now vs = some (i, x)) :
    ∃ s, some s ∈ vs.map (fun v => v.store key) ∧ s.alive now = true ∧ s.bytes = x := by
  obtain ⟨v, hv, hl⟩ := firstCopy_getElem? h
  obtain ⟨s, hs, ha, rfl⟩ := Tier.lookup_eq_some.1 hl
  exact ⟨s, hs ▸ List.mem_map_of_mem _ (List.getElem?_mem hv), ha, rfl⟩

theorem firstAnswer_append_of_notFound {front rest : List Tier}
    (hfront : ∀ v ∈ front, v.getBytesValue key now = .error .notFound) :
    firstAnswer key now (front ++ rest) =
      (firstAnswer key now rest).map fun p => (p.1 + front.length, p.2) := by
  induction front with
  | nil => simp
  | cons v front ih =>
    rw [List.cons_append, firstAnswer_cons_of_notFound (hfront v (List.mem_cons_self _ _)),
      ih fun w hw => hfront w (List.mem_cons_of_mem _ hw), Option.map_map]
    congr 1

/-- A read writes no tier from its first answer on: the last tier is as it was. -/
theorem getBytesValue_getLast? (c : Cache) (key : Key) (now : Time) :
    (c.getBytesValue key now).1.subCaches.getLast? = c.subCaches.getLast? := by
  rw [getBytesValue_eq]
  rcases hf : firstAnswer key now c.subCaches with _ | ⟨i, e | x⟩
  · rfl
  · rfl
  · dsimp only
    rcases Entry.get x now with e | ⟨buf, E⟩
    · rfl
    · have hi := firstAnswer_lt hf
      cases hl : c.subCaches.getLast? with
      | none => simp [List.getLast?_eq_none_iff.1 hl] at hi
      | some last =>
        simp [List.getLast?_append, List.getLast?_drop, show ¬ c.subCaches.length ≤ i by omega, hl]

/-- After a read, each tier holds for its key what it held or the first copy's bytes. -/
theorem slot_getBytesValue_self {c : Cache} {o : Option Slot}
    (h : o ∈ (c.getBytesValue key now).1.slots key) :
    o ∈ c.slots key ∨ ∃ i x d, firstCopy key now c.subCaches = some (i, x) ∧ o = some ⟨x, d⟩ := by
  rw [getBytesValue_eq] at h
  revert h
  rcases hf : firstAnswer key now c.subCaches with _ | ⟨i, e | x⟩
  · exact .inl
  · exact .inl
  · dsimp only
    rcases Entry.get x now with e | ⟨buf, E⟩
    · exact .inl
    · intro h
      simp only [Cache.slots, List.map_append, List.mem_append, setBytesCaches_fst, List.map_map,
        List.mem_map, Function.comp_def] at h
      rcases h with ⟨v, hv, rfl⟩ | ⟨v, hv, rfl⟩
      · rcases Tier.store_setBytesValue_self v key x (capTTL (remaining E now) v.TTL) now with
          he | he
        · exact .inl (List.mem_map.2 ⟨v, List.mem_of_mem_take hv, he.symm⟩)
        · exact .inr ⟨i, x, _, firstCopy_of_firstAnswer hf, he⟩
      · exact .inl (List.mem_map.2 ⟨v, List.mem_of_mem_drop hv, rfl⟩)

/-! ### Batch reads -/

theorem decodeEntries_cons (now : Time) (k : Key) (x : Bytes) (es : List (Σ _ : Key, Bytes)) :
    decodeEntries now (⟨k, x⟩ :: es) =
      (decodeEntries now es).map fun d => d.insert k ((Entry.get x now).toOption.map Prod.fst) := by
  cases hd : decodeEntries now es with
  | error e => simp [decodeEntries, hd, bind, Except.bind, Except.map]
  | ok d =>
    rcases hg : Entry.get x now with e | ⟨buf, E⟩
    · obtain rfl := get_error hg
      simp [decodeEntries, hd, hg, bind, Except.bind, Except.map, Except.toOption]
    · simp [decodeEntries, hd, hg, bind, Except.bind, Except.map, Except.toOption]

theorem decodeEntries_lookup (now : Time) :
    ∀ es : List (Σ _ : Key, Bytes), ∃ d, decodeEntries now es = .ok d ∧
      ∀ k, d.lookup k = (es.dlookup k).map fun x => (Entry.get x now).toOption.map Prod.fst := by
  intro es
  induction es with
  | nil => exact ⟨∅, rfl, fun k => by simp⟩
  | cons e es ih =>
    obtain ⟨k₀, x⟩ := e
    obtain ⟨d, hd, hl⟩ := ih
    refine ⟨_, by rw [decodeEntries_cons, hd]; rfl, fun k => ?_⟩
    by_cases hk : k = k₀
    · subst hk; simp
    · simp [AList.lookup_insert_ne hk, hl, List.dlookup_cons_ne es ⟨k₀, x⟩ hk]

/-- A batch read the last tier answers gives each key asked the decoding of its copy. -/
theorem mGetBytesValue_lookup {c : Cache} {last : Tier} (hl : c.subCaches.getLast? = some last)
    {keys : List Key} {now : Time} (hb : last.batchErr keys now = none) :
    ∃ d, c.mGetBytesValue keys now = .ok d ∧ ∀ k, d.lookup k =
      if k ∈ keys then (last.lookup k now).map fun x => (Entry.get x now).toOption.map Prod.fst
      else none := by
  obtain ⟨d, hd, hlk⟩ := decodeEntries_lookup now
    (keys.foldl (fun (m : AList fun _ : Key => Bytes) k' => match last.lookup k' now with
      | some b => m.insert k' b
      | none => m) ∅).entries
  refine ⟨d, by simp only [Cache.mGetBytesValue, hl, Tier.mGetBytesValue, hb, bind, Except.bind]; exact hd,
    fun k => ?_⟩
  rw [hlk]
  refine (congrArg (Option.map _) (lookup_foldl_select (fun k' => last.lookup k' now) k keys ∅)).trans ?_
  split_ifs <;> simp

/-- A batch read that succeeds was answered by the last tier. -/
theorem mGetBytesValue_ok {c : Cache} {keys : List Key} {now : Time}
    {d : AList fun _ : Key => Option Bytes} (h : c.mGetBytesValue keys now = .ok d) :
    ∃ last, c.subCaches.getLast? = some last ∧ ∀ k, d.lookup k =
      if k ∈ keys then (last.lookup k now).map fun x => (Entry.get x now).toOption.map Prod.fst
      else none := by
  cases hl : c.subCaches.getLast? with
  | none => simp [Cache.mGetBytesValue, hl] at h
  | some last =>
    have hb : last.batchErr keys now = none := by
      cases hb : last.batchErr keys now
      · rfl
      · simp [Cache.mGetBytesValue, hl, Tier.mGetBytesValue, hb, bind, Except.bind] at h
    obtain ⟨d', hd', hlk⟩ := mGetBytesValue_lookup hl hb
    exact ⟨last, rfl, Except.ok.inj (h.symm.trans hd') ▸ hlk⟩

end Cachegroup

end HerbCache
