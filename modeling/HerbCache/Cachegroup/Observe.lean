import HerbCache.Cachegroup.Run

/-!
# What reads see along a run

A read's back-fill is invisible to reads at the same instant (`getBytesValue_getBytesValue`), and
so is every other call that does not write the key: at one instant no run of such calls changes
what a read of it answers (`getBytesValue_run_instant`). Reads never invent a payload: every
payload a read returns decodes a copy some tier held at the start (`reads_decode_initial_copies`),
and after a `Del` or `Flush` that no tier failed, none is returned (`reads_after_del_flush`).
-/

namespace HerbCache.Cachegroup

variable {key : Key} {now : Time}

/-! ### The back-fill -/

theorem getBytesValue_setBytesValue_of_notFound {v : Tier} {x : Bytes}
    (hv : v.getBytesValue key now = .error .notFound) (ttl : Int) :
    (v.setBytesValue key x ttl now).1.getBytesValue key now = .error .notFound ∨
      (v.setBytesValue key x ttl now).1.getBytesValue key now = .ok x := by
  rcases Tier.setBytesValue_eq v key x ttl now with ⟨-, he⟩ | ⟨-, he⟩ <;> rw [he]
  · exact .inl hv
  · cases hr : v.readErr key now with
    | some e =>
      simp only [Tier.getBytesValue, Tier.readErr_put, hr] at hv ⊢
      exact .inl hv
    | none =>
      simp only [Tier.getBytesValue, Tier.readErr_put, hr, Tier.lookup_put_self]
      split_ifs <;> simp

theorem firstAnswer_append_of_notFound_or {front rest : List Tier} {x : Bytes}
    (hfront : ∀ w ∈ front,
      w.getBytesValue key now = .error .notFound ∨ w.getBytesValue key now = .ok x)
    (hrest : firstAnswer key now rest = some (0, .ok x)) :
    ∃ j, firstAnswer key now (front ++ rest) = some (j, .ok x) := by
  induction front with
  | nil => exact ⟨0, hrest⟩
  | cons w front ih =>
    obtain ⟨j, hj⟩ := ih fun v hv => hfront v (List.mem_cons_of_mem _ hv)
    rcases hfront w (List.mem_cons_self _ _) with hw | hw
    · exact ⟨j + 1, by rw [List.cons_append, firstAnswer_cons_of_notFound hw, hj]; rfl⟩
    · exact ⟨0, by rw [List.cons_append, firstAnswer_cons_of_ne (by rw [hw]; nofun), hw]⟩

/-- Reading a key twice at one instant answers the same. -/
theorem getBytesValue_getBytesValue (c : Cache) (key : Key) (now : Time) :
    ((c.getBytesValue key now).1.getBytesValue key now).2 = (c.getBytesValue key now).2 := by
  rcases hf : firstAnswer key now c.subCaches with _ | ⟨i, e | x⟩
  · simp only [getBytesValue_eq, hf]
  · simp only [getBytesValue_eq, hf]
  · rcases hx : Entry.get x now with e | ⟨buf, E⟩
    · simp only [getBytesValue_eq, hf, hx]
    · obtain ⟨-, -, -, -, hfront⟩ := firstAnswer_getElem? hf
      have hnew : ∀ w ∈ (setBytesCaches key x E .set now (c.subCaches.take i)).1,
          w.getBytesValue key now = .error .notFound ∨ w.getBytesValue key now = .ok x := by
        rw [setBytesCaches_fst]
        intro w hw
        obtain ⟨v, hv, rfl⟩ := List.mem_map.1 hw
        exact getBytesValue_setBytesValue_of_notFound (hfront v hv) _
      obtain ⟨j, hj⟩ := firstAnswer_append_of_notFound_or hnew (firstAnswer_drop hf)
      simp only [getBytesValue_eq, hf, hx, hj]

/-! ### Answers depend on the slots and settings alone -/

theorem getBytesValue_congr {v w : Tier} (hs : v.store key = w.store key)
    (ht : v.settings = w.settings) : v.getBytesValue key now = w.getBytesValue key now := by
  have hr : v.readErr = w.readErr := show v.settings.readErr = w.settings.readErr from congrArg Tier.readErr ht
  simp only [Tier.getBytesValue, Tier.lookup, hs, hr]

theorem answers_of_slots : ∀ {vs ws : List Tier}, vs.map (·.store key) = ws.map (·.store key) →
    vs.map Tier.settings = ws.map Tier.settings →
    vs.map (·.getBytesValue key now) = ws.map (·.getBytesValue key now)
  | [], [], _, _ => rfl
  | v :: vs, w :: ws, hs, ht => by
    simp only [List.map_cons, List.cons.injEq] at hs ht ⊢
    exact ⟨getBytesValue_congr hs.1 ht.1, answers_of_slots hs.2 ht.2⟩
  | [], _ :: _, hs, _ | _ :: _, [], hs, _ => by simp at hs

theorem firstAnswer_congr {vs ws : List Tier}
    (h : vs.map (·.getBytesValue key now) = ws.map (·.getBytesValue key now)) :
    firstAnswer key now vs = firstAnswer key now ws := by
  induction vs generalizing ws with
  | nil => cases ws <;> simp_all
  | cons v vs ih =>
    cases ws with
    | nil => simp at h
    | cons w ws =>
      simp only [List.map_cons, List.cons.injEq] at h
      simp only [firstAnswer, h.1, ih h.2]

theorem getBytesValue_snd_of_answers {c c' : Cache}
    (h : c.subCaches.map (·.getBytesValue key now) = c'.subCaches.map (·.getBytesValue key now)) :
    (c.getBytesValue key now).2 = (c'.getBytesValue key now).2 := by
  rw [getBytesValue_eq, getBytesValue_eq, firstAnswer_congr h]
  rcases firstAnswer key now c'.subCaches with _ | ⟨i, e | x⟩
  · rfl
  · rfl
  · dsimp only
    rcases Entry.get x now with e | ⟨buf, E⟩ <;> rfl

/-- A call that does not write `key` leaves what a read of `key` answers at the same instant. -/
theorem getBytesValue_step (c : Cache) {op : Op} (h : op.writes key = false) :
    ((c.step now op).1.getBytesValue key now).2 = (c.getBytesValue key now).2 := by
  by_cases hget : op = .getBytesValue key
  · subst hget
    exact getBytesValue_getBytesValue c key now
  · exact getBytesValue_snd_of_answers
      (answers_of_slots (slots_step c now h hget) (settings_step c now op))

/-- At one instant, calls that do not write `key` leave what a read of `key` answers. -/
theorem getBytesValue_run_instant (now : Time) :
    ∀ (ops : List Op) (c : Cache), (∀ op ∈ ops, op.writes key = false) →
      ((c.run (ops.map fun op => (now, op))).1.getBytesValue key now).2 =
        (c.getBytesValue key now).2
  | [], _, _ => rfl
  | op :: ops, c, hops =>
    (getBytesValue_run_instant now ops (c.step now op).1 fun o ho => hops o (List.mem_cons_of_mem _ ho)).trans
      (getBytesValue_step c (hops op (List.mem_cons_self _ _)))

theorem read_stable_two_tiers :
    let c := ((⟨[{ TTL := 3600000000000 }, { TTL := 3600000000000 }]⟩ : Cache).setBytesValue
      [107] [1] 0 (Time.ofNs 0)).1
    let ops := [Op.getBytesValue [107], .del [1], .setBytesValue [1] [2] 0]
    (∀ op ∈ ops, op.writes [107] = false) ∧
    ((c.run (ops.map fun op => (Time.ofNs 0, op))).1.getBytesValue [107] (Time.ofNs 0)).2 =
      (c.getBytesValue [107] (Time.ofNs 0)).2 :=
  ⟨by decide, getBytesValue_run_instant (Time.ofNs 0) _ _ (by decide)⟩

/-! ### No invented payload -/

/-- Along calls not writing `key`, every payload a read returns decodes a copy held at the start. -/
theorem reads_decode_initial_copies (c : Cache) (ops : List (Time × Op))
    (hops : ∀ p ∈ ops, p.2.writes key = false) (r : Time) :
    (∀ buf, ((c.run ops).1.getBytesValue key r).2 = .ok buf →
      ∃ x, (∃ o ∈ c.slots key, ∃ s ∈ o, s.bytes = x) ∧ ∃ E, Entry.get x r = .ok (buf, E)) ∧
    ∀ keys d, (c.run ops).1.mGetBytesValue keys r = .ok d →
      d.lookup key = none ∨ ∃ x, (∃ o ∈ c.slots key, ∃ s ∈ o, s.bytes = x) ∧
        d.lookup key = some ((Entry.get x r).toOption.map Prod.fst) := by
  have hrun := held_run (Q := fun s' => ∃ o ∈ c.slots key, ∃ s ∈ o, s.bytes = s'.bytes) ops hops
    (fun _ _ _ hs _ _ => hs) fun o ho s hs => ⟨o, ho, s, hs, rfl⟩
  refine ⟨fun buf h => ?_, fun _ _ hd => ?_⟩
  · obtain ⟨s, hs, -, E, hE⟩ := getBytesValue_of_held hrun h
    exact ⟨s.bytes, hs, E, hE⟩
  · exact (mGetBytesValue_of_held hrun hd).imp_right fun ⟨s, hs, _, h⟩ => ⟨s.bytes, hs, h⟩

theorem reads_decode_write_two_tiers :
    let c := ((⟨[{ TTL := 3600000000000 }, { TTL := 3600000000000 }]⟩ : Cache).setBytesValue
      [107] [1] 0 (Time.ofNs 0)).1
    let ops := [(Time.ofNs 5, Op.getBytesValue [107]), (Time.ofNs 6, .setBytesValue [1] [2] 0)]
    (∀ p ∈ ops, p.2.writes [107] = false) ∧
    ((c.run ops).1.getBytesValue [107] (Time.ofNs 7)).2 = .ok [1] ∧
    (∃ x, (∃ o ∈ c.slots [107], ∃ s ∈ o, s.bytes = x) ∧ ∃ E, Entry.get x (Time.ofNs 7) = .ok ([1], E)) ∧
    ∀ keys d, (c.run ops).1.mGetBytesValue keys (Time.ofNs 7) = .ok d →
      d.lookup [107] = none ∨ ∃ x, (∃ o ∈ c.slots [107], ∃ s ∈ o, s.bytes = x) ∧
        d.lookup [107] = some ((Entry.get x (Time.ofNs 7)).toOption.map Prod.fst) := by
  intro c ops
  have hops : ∀ p ∈ ops, p.2.writes [107] = false := by decide
  have hread : ((c.run ops).1.getBytesValue [107] (Time.ofNs 7)).2 = .ok [1] := by decide
  have h := reads_decode_initial_copies c ops hops (Time.ofNs 7)
  exact ⟨hops, hread, h.1 [1] hread, h.2⟩

/-! ### After `Del` and `Flush` -/

theorem forEach_snd_eq_none {f : Tier → Tier × Option Err} {vs : List Tier}
    (h : (forEach f vs).2 = none) : ∀ v ∈ vs, (f v).2 = none := by
  rwa [forEach_snd, List.getLast?_eq_none_iff, List.filterMap_eq_nil_iff] at h

theorem held_del {c : Cache} (h : (c.del key).2 = none) : Held key (fun _ => False) (c.del key).1 := by
  have hv := forEach_snd_eq_none h
  intro o ho s hs
  simp only [Cache.del, Cache.slots, forEach_fst, List.map_map, List.mem_map,
    Function.comp_apply] at ho
  obtain ⟨v, hv', rfl⟩ := ho
  rw [Tier.store_del, if_pos ⟨(Tier.del_snd v key).symm.trans (hv v hv'), rfl⟩] at hs
  cases hs

theorem held_flush {c : Cache} (h : c.flush.2 = none) : Held key (fun _ => False) c.flush.1 := by
  have hv := forEach_snd_eq_none h
  intro o ho s hs
  simp only [Cache.flush, Cache.slots, forEach_fst, List.map_map, List.mem_map,
    Function.comp_apply] at ho
  obtain ⟨v, hv', rfl⟩ := ho
  rw [Tier.store_flush, if_pos ((Tier.flush_snd v).symm.trans (hv v hv'))] at hs
  cases hs

theorem reads_of_held_false {c : Cache} (hc : Held key (fun _ => False) c) (r : Time) :
    (∀ buf, (c.getBytesValue key r).2 ≠ .ok buf) ∧
      ∀ keys d, c.mGetBytesValue keys r = .ok d → d.lookup key = none :=
  ⟨fun _ h => let ⟨_, hs, _⟩ := getBytesValue_of_held hc h; hs,
    fun _ _ hd => (mGetBytesValue_of_held hc hd).resolve_right fun ⟨_, hs, _⟩ => hs⟩

/-- After a `Del(key)` or `Flush` that returned `nil`, no read finds `key` until it is written. -/
theorem reads_after_del_flush (c : Cache) (key : Key) (ops : List (Time × Op))
    (hops : ∀ p ∈ ops, p.2.writes key = false) (r : Time) :
    (c.del key).2 = (c.subCaches.filterMap fun v => v.delErr key).getLast? ∧
    c.flush.2 = (c.subCaches.filterMap fun v => v.flushErr).getLast? ∧
    ((c.del key).2 = none →
      (∀ buf, (((c.del key).1.run ops).1.getBytesValue key r).2 ≠ .ok buf) ∧
      ∀ keys d, ((c.del key).1.run ops).1.mGetBytesValue keys r = .ok d → d.lookup key = none) ∧
    (c.flush.2 = none →
      (∀ buf, ((c.flush.1.run ops).1.getBytesValue key r).2 ≠ .ok buf) ∧
      ∀ keys d, (c.flush.1.run ops).1.mGetBytesValue keys r = .ok d → d.lookup key = none) :=
  ⟨(forEach_snd (·.del key) c.subCaches).trans (by simp only [Tier.del_snd]),
    (forEach_snd Tier.flush c.subCaches).trans (by simp only [Tier.flush_snd]),
    fun h => reads_of_held_false (held_run ops hops (fun _ _ _ h _ _ => h) (held_del h)) r,
    fun h => reads_of_held_false (held_run ops hops (fun _ _ _ h _ _ => h) (held_flush h)) r⟩

theorem reads_after_del_flush_two_tiers :
    let c := ((⟨[{ TTL := 3600000000000 }, { TTL := 3600000000000 }]⟩ : Cache).setBytesValue
      [107] [1] 0 (Time.ofNs 0)).1
    let ops := [(Time.ofNs 5, Op.getBytesValue [107]), (Time.ofNs 6, .setBytesValue [1] [2] 0)]
    (∀ p ∈ ops, p.2.writes [107] = false) ∧ (c.del [107]).2 = none ∧ c.flush.2 = none ∧
    ((∀ buf, (((c.del [107]).1.run ops).1.getBytesValue [107] (Time.ofNs 7)).2 ≠ .ok buf) ∧
      ∀ keys d, ((c.del [107]).1.run ops).1.mGetBytesValue keys (Time.ofNs 7) = .ok d →
        d.lookup [107] = none) ∧
    ((∀ buf, ((c.flush.1.run ops).1.getBytesValue [107] (Time.ofNs 7)).2 ≠ .ok buf) ∧
      ∀ keys d, (c.flush.1.run ops).1.mGetBytesValue keys (Time.ofNs 7) = .ok d →
        d.lookup [107] = none) := by
  intro c ops
  have hops : ∀ p ∈ ops, p.2.writes [107] = false := by decide
  have h := reads_after_del_flush c [107] ops hops (Time.ofNs 7)
  have hd : (c.del [107]).2 = none := h.1.trans rfl
  have hf : c.flush.2 = none := h.2.1.trans rfl
  exact ⟨hops, hd, hf, h.2.2.1 hd, h.2.2.2 hf⟩

end HerbCache.Cachegroup
