import HerbCache.Cachegroup.Frame

/-!
# Runs of the group cache

A run is a list of calls, each at its clock time, made one after another (`Cache.run`). No call
changes a tier's settings, so tiers that fail no call stay so (`forall_run`). Every invariant here
is `Held key Q`, a fact about each copy of one key, which every call not writing the key keeps
(`held_run`). From it: batch reads answer the last tier's copy (`last_tier_reads`), and a write
stored by every tier holding a live copy leaves reads answering its payload or `ErrNotFound`
(`coherent_reads`).
-/

namespace HerbCache.Cachegroup

inductive Op
  | setBytesValue (key : Key) (bytes : Bytes) (ttl : Int)
  | updateBytesValue (key : Key) (bytes : Bytes) (ttl : Int)
  | getBytesValue (key : Key)
  | mGetBytesValue (keys : List Key)
  | mSetBytesValue (data : AList fun _ : Key => Bytes) (ttl : Int)
  | del (key : Key)
  | expire (key : Key) (ttl : Int)
  | flush

inductive Answer
  | err (e : Option Err)
  | bytes (r : Except Err Bytes)
  | batch (r : Except Err (AList fun _ : Key => Option Bytes))

/-- One call, at `now`. -/
def Cache.step (c : Cache) (now : Time) : Op → Cache × Answer
  | .setBytesValue key bytes ttl => let (c, e) := c.setBytesValue key bytes ttl now; (c, .err e)
  | .updateBytesValue key bytes ttl =>
    let (c, e) := c.updateBytesValue key bytes ttl now; (c, .err e)
  | .getBytesValue key => let (c, r) := c.getBytesValue key now; (c, .bytes r)
  | .mGetBytesValue keys => (c, .batch (c.mGetBytesValue keys now))
  | .mSetBytesValue data ttl => let (c, e) := c.mSetBytesValue data ttl now; (c, .err e)
  | .del key => let (c, e) := c.del key; (c, .err e)
  | .expire key ttl => let (c, e) := c.expire key ttl now; (c, .err e)
  | .flush => let (c, e) := c.flush; (c, .err e)

/-- The calls of a run, each at its time, one after another, and what they return. -/
def Cache.run (c : Cache) : List (Time × Op) → Cache × List Answer
  | [] => (c, [])
  | (now, op) :: ops =>
    let (c, a) := c.step now op
    let (c, as) := c.run ops
    (c, a :: as)

/-- The call may change `k`'s slot in some tier other than by a read's back-fill. -/
def Op.writes : Op → Key → Bool
  | .setBytesValue key _ _, k | .updateBytesValue key _ _, k | .del key, k | .expire key _, k =>
    decide (k = key)
  | .getBytesValue _, _ | .mGetBytesValue _, _ => false
  | .mSetBytesValue data _, k => decide (k ∈ data)
  | .flush, _ => true

/-- What each step of a kind keeps, every run of such steps keeps. -/
theorem run_invariant {I : Cache → Prop} {P : Time → Op → Prop}
    (hstep : ∀ c now op, P now op → I c → I (c.step now op).1) :
    ∀ (ops : List (Time × Op)) (c : Cache), (∀ p ∈ ops, P p.1 p.2) → I c → I (c.run ops).1
  | [], _, _, hc => hc
  | (now, op) :: ops, c, hops, hc =>
    run_invariant hstep ops _ (fun p hp => hops p (List.mem_cons_of_mem _ hp))
      (hstep c now op (hops _ (List.mem_cons_self _ _)) hc)


/-! ### What no call changes -/

/-- Each tier with nothing stored, in tier order. -/
def Cache.settings (c : Cache) : List Tier := c.subCaches.map Tier.settings

variable {key : Key} {now : Time}

@[simp] theorem settings_writeTier (mode : Mode) (v : Tier) (bytes : Bytes) (ttl : Int) :
    (writeTier mode v key bytes ttl now).1.settings = v.settings := by
  cases mode <;> simp [writeTier]

theorem settings_setBytesCaches (bytes : Bytes) (expired : Int) (mode : Mode) (vs : List Tier) :
    (setBytesCaches key bytes expired mode now vs).1.map Tier.settings = vs.map Tier.settings := by
  simp [setBytesCaches_fst, Function.comp_def]

variable (key now) in
theorem settings_getBytesValue (c : Cache) : (c.getBytesValue key now).1.settings = c.settings := by
  rw [getBytesValue_eq]
  rcases firstAnswer key now c.subCaches with _ | ⟨i, e | x⟩
  · rfl
  · rfl
  · dsimp only
    rcases Entry.get x now with e | ⟨buf, E⟩
    · rfl
    · simp only [Cache.settings]
      rw [List.map_append, settings_setBytesCaches, ← List.map_append, List.take_append_drop]

theorem settings_write (mode : Mode) (c : Cache) (bytes : Bytes) (ttl : Int) :
    (c.write mode key bytes ttl now).1.settings = c.settings := by
  obtain ⟨subs⟩ := c
  rcases List.eq_nil_or_concat subs with rfl | ⟨front, last, rfl⟩
  · rfl
  · rw [List.concat_eq_append, write_concat]
    split_ifs <;> simp [Cache.settings, settings_setBytesCaches]

theorem settings_forEach {f : Tier → Tier × Option Err} (hf : ∀ v, (f v).1.settings = v.settings)
    (vs : List Tier) : (forEach f vs).1.map Tier.settings = vs.map Tier.settings := by
  simp [forEach_fst, hf, Function.comp_def]

theorem settings_step (c : Cache) (now : Time) (op : Op) : (c.step now op).1.settings = c.settings := by
  cases op with
  | setBytesValue key b ttl => exact settings_write .set c b ttl
  | updateBytesValue key b ttl => exact settings_write .update c b ttl
  | getBytesValue key => exact settings_getBytesValue key now c
  | mGetBytesValue keys => rfl
  | mSetBytesValue data ttl =>
    simp only [Cache.step, Cache.mSetBytesValue]
    cases hl : c.subCaches.getLast? with
    | none => rfl
    | some last =>
      simp only [Cache.settings, List.map_append, List.map_singleton, Tier.settings_mSetBytesValue]
      rw [← List.map_singleton, ← List.map_append, List.dropLast_append_getLast? last hl]
  | del key => exact settings_forEach (fun v => v.settings_del key) c.subCaches
  | expire key ttl =>
    have hg := settings_getBytesValue key now c
    simp only [Cache.step, Cache.expire]
    revert hg
    rcases c.getBytesValue key now with ⟨c', _ | b⟩
    · exact id
    · exact (settings_write .set c' b ttl).trans
  | flush => exact settings_forEach Tier.settings_flush c.subCaches

theorem settings_run (ops : List (Time × Op)) (c : Cache) : (c.run ops).1.settings = c.settings :=
  run_invariant (I := fun c' => c'.settings = c.settings) (P := fun _ _ => True)
    (fun c now op _ h => (settings_step c now op).trans h) ops c (fun _ _ => trivial) rfl

theorem forall_of_settings {P : Tier → Prop} (hP : ∀ v, P v ↔ P v.settings) {c c' : Cache}
    (h : c'.settings = c.settings) (hc : ∀ v ∈ c.subCaches, P v) : ∀ v ∈ c'.subCaches, P v := by
  intro v' hv'
  obtain ⟨v, hv, he⟩ := List.mem_map.1 (h ▸ List.mem_map_of_mem Tier.settings hv' : v'.settings ∈ c.settings)
  rw [hP, ← he, ← hP]
  exact hc v hv

theorem forall_run {P : Tier → Prop} (hP : ∀ v, P v ↔ P v.settings) {c : Cache}
    (hc : ∀ v ∈ c.subCaches, P v) (ops : List (Time × Op)) : ∀ v ∈ (c.run ops).1.subCaches, P v :=
  forall_of_settings hP (settings_run ops c) hc

theorem slots_step (c : Cache) (now : Time) {op : Op} (h : op.writes key = false)
    (hget : op ≠ .getBytesValue key) : (c.step now op).1.slots key = c.slots key := by
  cases op with
  | setBytesValue k b ttl => exact slots_write .set c b ttl (by simpa [Op.writes] using h)
  | updateBytesValue k b ttl => exact slots_write .update c b ttl (by simpa [Op.writes] using h)
  | getBytesValue k => exact slots_getBytesValue c fun hk => hget (by rw [hk])
  | mGetBytesValue keys => rfl
  | mSetBytesValue data ttl => exact slots_mSetBytesValue c ttl (by simpa [Op.writes] using h)
  | del k => exact slots_del c (by simpa [Op.writes] using h)
  | expire k ttl => exact slots_expire c ttl (by simpa [Op.writes] using h)
  | flush => cases h

/-! ### The last tier's slot -/

def lastSlot (c : Cache) (key : Key) : Option (Option Slot) := (c.slots key).getLast?

theorem lastSlot_step (c : Cache) (now : Time) {op : Op} (h : op.writes key = false) :
    lastSlot (c.step now op).1 key = lastSlot c key := by
  by_cases hget : op = .getBytesValue key
  · subst hget
    simp only [lastSlot, Cache.slots, List.getLast?_map]
    exact congrArg (Option.map _) (getBytesValue_getLast? c key now)
  · rw [lastSlot, slots_step c now h hget, lastSlot]

theorem lastSlot_run (ops : List (Time × Op)) (hops : ∀ p ∈ ops, p.2.writes key = false)
    {c : Cache} {o : Option (Option Slot)} (hc : lastSlot c key = o) :
    lastSlot (c.run ops).1 key = o :=
  run_invariant (P := fun _ op => op.writes key = false)
    (fun c now _ h hc => (lastSlot_step c now h).trans hc) ops c hops hc

theorem lastSlot_setBytesValue {c : Cache} (hN : 0 < c.subCaches.length) (hc : c.Faithful)
    (key : Key) (b : Bytes) {ttl : Int} (httl : 0 < ttl) (τ : Time) :
    lastSlot (c.setBytesValue key b ttl τ).1 key =
      some (some ⟨(Entry.set b ttl τ).1, some (τ.add ttl)⟩) := by
  obtain ⟨front, last, hfl⟩ := exists_concat_of_length_pos hN
  obtain ⟨subs⟩ := c
  subst hfl
  rw [Cache.setBytesValue, write_of_faithful .set front last hc,
    writeTier_set_of_faithful (hc last (by simp))]
  simp [lastSlot, Cache.slots, Tier.deadline_of_pos _ httl]

theorem lastSlot_mSetBytesValue {c : Cache} (hN : 0 < c.subCaches.length) (hc : c.Faithful)
    {data : AList fun _ : Key => Bytes} {b : Bytes} (hk : data.lookup key = some b) {ttl : Int}
    (httl : 0 < ttl) (τ : Time) :
    lastSlot (c.mSetBytesValue data ttl τ).1 key =
      some (some ⟨(Entry.set b ttl τ).1, some (τ.add ttl)⟩) := by
  obtain ⟨front, last, hfl⟩ := exists_concat_of_length_pos hN
  obtain ⟨subs⟩ := c
  subst hfl
  have hemap := lookup_foldl_insert (f := id) (g := fun b => (Entry.set b ttl τ).1) key
    data.entries ∅ data.nodupKeys fun _ _ => id
  simp only [AList.lookup] at hk
  simp only [hk, id_eq, Option.map_some', AList.lookup_empty, Option.or_some] at hemap
  simp [Cache.mSetBytesValue, lastSlot, Cache.slots,
    Tier.store_mSetBytesValue_of_faithful (hc last (by simp)), hemap, Tier.deadline_of_pos _ httl]

theorem dropLast_mSetBytesValue (c : Cache) (data : AList fun _ : Key => Bytes) (ttl : Int)
    (now : Time) : (c.mSetBytesValue data ttl now).1.subCaches.dropLast = c.subCaches.dropLast := by
  unfold Cache.mSetBytesValue
  split <;> simp

theorem lookup_of_lastSlot {c : Cache} {x : Bytes} {dl : Time}
    (h : lastSlot c key = some (some ⟨x, some dl⟩)) (hnow : now.ns < dl.ns) :
    ∃ last, c.subCaches.getLast? = some last ∧ last.lookup key now = some x := by
  simp only [lastSlot, Cache.slots, List.getLast?_map, Option.map_eq_some'] at h
  obtain ⟨last, hl, hs⟩ := h
  exact ⟨last, hl, by simp [Tier.lookup, hs, Slot.alive, hnow]⟩

theorem mGetBytesValue_of_lastSlot {c : Cache} {x : Bytes} {dl : Time}
    (h : lastSlot c key = some (some ⟨x, some dl⟩)) (hR : ∀ v ∈ c.subCaches, v.Reads)
    (hnow : now.ns < dl.ns) {keys : List Key} (hk : key ∈ keys) :
    ∃ d, c.mGetBytesValue keys now = .ok d ∧
      d.lookup key = some ((Entry.get x now).toOption.map Prod.fst) := by
  obtain ⟨last, hl, hlast⟩ := lookup_of_lastSlot h hnow
  obtain ⟨d, hd, hlk⟩ := mGetBytesValue_lookup hl ((hR last (List.mem_of_getLast?_eq_some hl)).2 keys now)
  exact ⟨d, hd, by simp [hlk, hk, hlast]⟩

/-! ### Invariants of one key's copies -/

/-- Every copy of `key` a tier holds satisfies `Q`. -/
def Held (key : Key) (Q : Slot → Prop) (c : Cache) : Prop := ∀ o ∈ c.slots key, ∀ s ∈ o, Q s

variable {Q : Slot → Prop}

/-- A call not writing `key` keeps `Held key Q`, when `Q` of a live copy ignores its deadline. -/
theorem held_step (hQ : ∀ s, Q s → s.alive now = true → ∀ d, Q ⟨s.bytes, d⟩) (c : Cache)
    {op : Op} (h : op.writes key = false) (hc : Held key Q c) : Held key Q (c.step now op).1 := by
  by_cases hget : op = .getBytesValue key
  · subst hget
    intro o ho s hs
    rcases slot_getBytesValue_self ho with ho | ⟨i, y, d, hf, rfl⟩
    · exact hc o ho s hs
    · obtain ⟨t, ht, ha, rfl⟩ := firstCopy_slot hf
      cases hs
      exact hQ t (hc _ ht t rfl) ha d
  · rw [Held, slots_step c now h hget]
    exact hc

theorem held_run (ops : List (Time × Op)) (hops : ∀ p ∈ ops, p.2.writes key = false)
    (hQ : ∀ p ∈ ops, ∀ s, Q s → s.alive p.1 = true → ∀ d, Q ⟨s.bytes, d⟩) {c : Cache}
    (hc : Held key Q c) : Held key Q (c.run ops).1 :=
  run_invariant (P := fun now op => op.writes key = false ∧
      ∀ s, Q s → s.alive now = true → ∀ d, Q ⟨s.bytes, d⟩)
    (fun c _ _ h hc => held_step h.2 c h.1 hc) ops c (fun p hp => ⟨hops p hp, hQ p hp⟩) hc

theorem held_of_lastSlot {c : Cache} (hfront : ∀ v ∈ c.subCaches.dropLast, ∀ s ∈ v.store key, Q s)
    (hlast : ∀ o, lastSlot c key = some o → ∀ s ∈ o, Q s) : Held key Q c := by
  intro o ho s hs
  obtain ⟨v, hv, rfl⟩ := List.mem_map.1 ho
  obtain ⟨last, hl⟩ := Option.ne_none_iff_exists'.1 (mt List.getLast?_eq_none_iff.1 (List.ne_nil_of_mem hv))
  rw [← List.dropLast_append_getLast? last hl, List.mem_append, List.mem_singleton] at hv
  rcases hv with hv | rfl
  · exact hfront v hv s hs
  · exact hlast _ (by simp [lastSlot, Cache.slots, List.getLast?_map, hl]) s hs

theorem getBytesValue_of_held {c : Cache} (hc : Held key Q c) {buf : Bytes}
    (h : (c.getBytesValue key now).2 = .ok buf) :
    ∃ s, Q s ∧ s.alive now = true ∧ ∃ E, Entry.get s.bytes now = .ok (buf, E) := by
  rw [getBytesValue_eq] at h
  revert h
  rcases hf : firstAnswer key now c.subCaches with _ | ⟨i, e | x⟩
  · exact fun h => nomatch h
  · exact fun h => nomatch h
  · dsimp only
    rcases hx : Entry.get x now with e | ⟨b, E⟩
    · exact fun h => nomatch h
    · rintro ⟨⟩
      obtain ⟨s, hs, ha, rfl⟩ := firstCopy_slot (firstCopy_of_firstAnswer hf)
      exact ⟨s, hc _ hs s rfl, ha, E, hx⟩

theorem getBytesValue_of_held_reads {c : Cache} (hc : Held key Q c)
    (hR : ∀ v ∈ c.subCaches, v.Reads) (now : Time) :
    ((∀ v ∈ c.subCaches, v.lookup key now = none) ∧
        (c.getBytesValue key now).2 = .error .notFound) ∨
      ∃ s, Q s ∧ s.alive now = true ∧
        (c.getBytesValue key now).2 = (Entry.get s.bytes now).map Prod.fst := by
  rw [getBytesValue_eq]
  rcases hf : firstAnswer key now c.subCaches with _ | ⟨i, e | x⟩
  · refine .inl ⟨fun v hv => ?_, rfl⟩
    have hnf := firstAnswer_eq_none hf v hv
    rw [Tier.getBytesValue_of_readErr ((hR v hv).1 key now)] at hnf
    split at hnf
    · cases hnf
    · assumption
  · exact absurd hf (firstAnswer_ne_error fun v hv => (hR v hv).1 key now)
  · obtain ⟨s, hs, ha, rfl⟩ := firstCopy_slot (firstCopy_of_firstAnswer hf)
    refine .inr ⟨s, hc _ hs s rfl, ha, ?_⟩
    dsimp only
    rcases Entry.get s.bytes now with e | ⟨buf, E⟩ <;> rfl

theorem mGetBytesValue_of_held {c : Cache} (hc : Held key Q c) {keys : List Key}
    {d : AList fun _ : Key => Option Bytes} (hd : c.mGetBytesValue keys now = .ok d) :
    d.lookup key = none ∨ ∃ s, Q s ∧ s.alive now = true ∧
      d.lookup key = some ((Entry.get s.bytes now).toOption.map Prod.fst) := by
  obtain ⟨last, hl, hlk⟩ := mGetBytesValue_ok hd
  rw [hlk]
  cases hv : last.lookup key now with
  | none => split_ifs <;> simp
  | some y =>
    obtain ⟨s, hs, ha, rfl⟩ := Tier.lookup_eq_some.1 hv
    have hmem : some s ∈ c.slots key := hs ▸ List.mem_map_of_mem _ (List.mem_of_getLast?_eq_some hl)
    split_ifs
    · exact .inr ⟨s, hc _ hmem s rfl, ha, rfl⟩
    · exact .inl rfl

/-! ### After a write -/

theorem fatal_writeTier_of_advisory {v : Tier} (hv : v.Advisory) (mode : Mode) (key : Key)
    (x : Bytes) (ttl : Int) (now : Time) : fatal (writeTier mode v key x ttl now).2 = false := by
  cases he : (writeTier mode v key x ttl now).2 with
  | none => rfl
  | some e =>
    have hr : v.refuse key x now = some e := by
      cases mode
      exacts [Tier.setBytesValue_error he, Tier.updateBytesValue_error he]
    rcases hv.1 _ _ _ _ hr with rfl | rfl <;> rfl

theorem held_setBytesValue_tier {w : Tier} {x : Bytes} {ttl : Int} (hx : ∀ d, Q ⟨x, d⟩)
    (hw : w.refuse key x now ≠ none → ∀ s ∈ w.store key, Q s) :
    ∀ s ∈ (w.setBytesValue key x ttl now).1.store key, Q s := by
  intro s hs
  rcases Tier.setBytesValue_eq w key x ttl now with ⟨hr, he⟩ | ⟨-, he⟩ <;> rw [he] at hs
  · exact hw hr s hs
  · simp only [Tier.put_store_self, Option.mem_def, Option.some.injEq] at hs
    exact hs ▸ hx _

/-- On advisory tiers, a write returns `nil` and keeps `Held key Q` when the refusals do. -/
theorem held_setBytesValue {c : Cache} (hN : 0 < c.subCaches.length)
    (hadv : ∀ v ∈ c.subCaches, v.Advisory) {b : Bytes} {ttl : Int} {τ : Time}
    (hx : ∀ d, Q ⟨(Entry.set b ttl τ).1, d⟩)
    (hheld : ∀ v ∈ c.subCaches, v.refuse key (Entry.set b ttl τ).1 τ ≠ none → ∀ s ∈ v.store key, Q s) :
    (c.setBytesValue key b ttl τ).2 = none ∧ Held key Q (c.setBytesValue key b ttl τ).1 := by
  obtain ⟨front, last, hfl⟩ := exists_concat_of_length_pos hN
  obtain ⟨subs⟩ := c
  subst hfl
  rw [Cache.setBytesValue, write_concat, fatal_writeTier_of_advisory (hadv last (by simp)),
    if_neg Bool.false_ne_true]
  refine ⟨?_, fun o ho s hs => ?_⟩
  · cases he : (setBytesCaches key _ _ .set τ front).2 with
    | none => rfl
    | some e =>
      obtain ⟨hf, v, hv, hve⟩ := setBytesCaches_snd he
      rw [← hve, fatal_writeTier_of_advisory (hadv v (List.mem_append_left _ hv))] at hf
      cases hf
  · simp only [Cache.slots, List.map_append, List.mem_append, setBytesCaches_fst, List.map_map,
      List.mem_map, List.mem_singleton, Function.comp_def] at ho
    rcases ho with ⟨v, hv, rfl⟩ | ⟨_, rfl, rfl⟩
    · exact held_setBytesValue_tier hx (hheld v (List.mem_append_left _ hv)) s hs
    · exact held_setBytesValue_tier hx (hheld last (by simp)) s hs

/-- The copy holds the bytes `x`, or is dead from `τ` on. -/
def CopyOf (x : Bytes) (τ : Time) (s : Slot) : Prop :=
  s.bytes = x ∨ ∀ t : Time, τ.ns ≤ t.ns → s.alive t = false

theorem copyOf_of_lookup {v : Tier} {τ : Time} (h : v.lookup key τ = none) (x : Bytes) :
    ∀ s ∈ v.store key, CopyOf x τ s := by
  intro s hs
  rw [Option.mem_def] at hs
  have hd : s.alive τ = false := by simpa [Tier.lookup, hs] using h
  exact .inr fun t ht => Slot.dead_of_dead hd ht

theorem copyOf_closed {x : Bytes} {τ : Time} (hnow : τ.ns ≤ now.ns) :
    ∀ s, CopyOf x τ s → s.alive now = true → ∀ d, CopyOf x τ ⟨s.bytes, d⟩
  | _, .inl h, _, _ => .inl h
  | s, .inr h, ha, _ => absurd (h now hnow) (by rw [ha]; decide)

theorem bytes_of_copyOf {x : Bytes} {τ : Time} {s : Slot} (h : CopyOf x τ s)
    (ha : s.alive now = true) (hnow : τ.ns ≤ now.ns) : s.bytes = x :=
  h.resolve_right fun hd => absurd (hd now hnow) (by rw [ha]; decide)

theorem forall_step_run {P : Tier → Prop} (hP : ∀ v, P v ↔ P v.settings) {c : Cache}
    (hc : ∀ v ∈ c.subCaches, P v) (now : Time) (op : Op) (ops : List (Time × Op)) :
    ∀ v ∈ ((c.step now op).1.run ops).1.subCaches, P v :=
  forall_run hP (forall_of_settings hP (settings_step c now op) hc) ops

/-! ### What the reads answer -/

/-- Within a write's ttl, with no call writing its key, batch reads answer its value. -/
theorem last_tier_reads {c : Cache} (hN : 0 < c.subCaches.length) (hc : c.Faithful) {ttl : Int}
    (httl : 0 < ttl) (τ : Time) (ops : List (Time × Op)) (hops : ∀ p ∈ ops, p.2.writes key = false)
    {r : Time} (hr : r.ns < (τ.add ttl).ns) :
    (∀ (data : AList fun _ : Key => Bytes) (b : Bytes), data.lookup key = some b →
      (∀ keys, key ∈ keys → ∃ d,
        ((c.mSetBytesValue data ttl τ).1.run ops).1.mGetBytesValue keys r = .ok d ∧
          d.lookup key = some (some b)) ∧
      ((∀ v ∈ c.subCaches.dropLast, v.lookup key τ = none) → (∀ p ∈ ops, τ.ns ≤ p.1.ns) →
        τ.ns ≤ r.ns → (((c.mSetBytesValue data ttl τ).1.run ops).1.getBytesValue key r).2 = .ok b)) ∧
    ∀ (b : Bytes) (keys : List Key), key ∈ keys → ∃ d,
      ((c.setBytesValue key b ttl τ).1.run ops).1.mGetBytesValue keys r = .ok d ∧
        d.lookup key = some (some b) := by
  have hget : ∀ b, Entry.get (Entry.set b ttl τ).1 r = .ok (b, (τ.add ttl).unix) := fun b => by
    rw [get_set, if_neg (not_lt.2 (Time.unix_le_unix hr.le))]
  have hR : ∀ op, ∀ v ∈ ((c.step τ op).1.run ops).1.subCaches, v.Reads := fun op =>
    forall_step_run (P := Tier.Reads) (fun _ => Iff.rfl) (fun v hv => (hc v hv).reads) τ op ops
  have hbatch : ∀ op b, lastSlot (c.step τ op).1 key =
      some (some ⟨(Entry.set b ttl τ).1, some (τ.add ttl)⟩) → ∀ keys, key ∈ keys →
        ∃ d, ((c.step τ op).1.run ops).1.mGetBytesValue keys r = .ok d ∧
          d.lookup key = some (some b) := fun op b hl keys hk => by
    obtain ⟨d, hd, hlk⟩ := mGetBytesValue_of_lastSlot (lastSlot_run ops hops hl) (hR op) hr hk
    exact ⟨d, hd, by rw [hlk, hget]; rfl⟩
  refine ⟨fun data b hk => ⟨hbatch (.mSetBytesValue data ttl) b
    (lastSlot_mSetBytesValue hN hc hk httl τ), fun hfront hτ hrτ => ?_⟩,
    fun b => hbatch (.setBytesValue key b ttl) b (lastSlot_setBytesValue hN hc key b httl τ)⟩
  have hlast := lastSlot_mSetBytesValue hN hc hk httl τ
  have hheld : Held key (CopyOf (Entry.set b ttl τ).1 τ) (c.mSetBytesValue data ttl τ).1 :=
    held_of_lastSlot
      (fun v hv => copyOf_of_lookup (hfront v (dropLast_mSetBytesValue c data ttl τ ▸ hv)) _)
      fun o ho s hs => by
        rw [hlast, Option.some.injEq] at ho
        subst ho
        cases hs
        exact .inl rfl
  rcases getBytesValue_of_held_reads (held_run ops hops (fun p hp => copyOf_closed (hτ p hp)) hheld)
    (hR (.mSetBytesValue data ttl)) r with ⟨hnone, -⟩ | ⟨s, hs, ha, h⟩
  · obtain ⟨last, hl, hlk⟩ := lookup_of_lastSlot (lastSlot_run ops hops hlast) hr
    exact absurd (hnone last (List.mem_of_getLast?_eq_some hl)) (by rw [hlk]; simp)
  · rw [h, bytes_of_copyOf hs ha hrτ, hget]
    rfl

theorem last_tier_reads_two_tiers :
    let c : Cache := ⟨[{ TTL := 3600000000000 }, { TTL := 3600000000000 }]⟩
    let m := (∅ : AList fun _ : Key => Bytes).insert [107] [2]
    let ops := [(Time.ofNs 1, Op.getBytesValue [107])]
    (∀ v ∈ c.subCaches.dropLast, v.lookup [107] (Time.ofNs 0) = none) ∧
    (((c.mSetBytesValue m 3600000000000 (Time.ofNs 0)).1.run ops).1.getBytesValue [107]
      (Time.ofNs 2)).2 = .ok [2] ∧
    ∃ d, ((c.mSetBytesValue m 3600000000000 (Time.ofNs 0)).1.run ops).1.mGetBytesValue [[107]]
      (Time.ofNs 2) = .ok d ∧ d.lookup [107] = some (some [2]) := by
  intro c m ops
  have hfront : ∀ v ∈ c.subCaches.dropLast, v.lookup [107] (Time.ofNs 0) = none := by decide
  have h := (last_tier_reads (c := c) (by decide)
    (fun v hv => by
      simp only [c, List.mem_cons, List.not_mem_nil, or_false] at hv
      rcases hv with rfl | rfl <;> exact faithful_mk _ _)
    (show (0 : Int) < 3600000000000 by decide) (Time.ofNs 0) ops (show ∀ p ∈ ops, p.2.writes [107] = false by decide)
    (r := Time.ofNs 2) (by decide)).1 m [2] rfl
  exact ⟨hfront, h.2 hfront (by decide) (by decide), h.1 [[107]] (List.mem_singleton_self _)⟩

/-- A batch write returns `nil` yet a read still answers the older copy the first tier keeps. -/
theorem batch_write_hidden_by_first_tier :
    let c := ((⟨[{ TTL := 3600000000000 }, { TTL := 3600000000000 }]⟩ : Cache).setBytesValue
      [107] [1] 3600000000000 (Time.ofNs 0)).1
    let m := (∅ : AList fun _ : Key => Bytes).insert [107] [2]
    (c.mSetBytesValue m 3600000000000 (Time.ofNs 0)).2 = none ∧
    ((c.mSetBytesValue m 3600000000000 (Time.ofNs 0)).1.getBytesValue [107] (Time.ofNs 0)).2 =
      .ok [1] ∧
    ((c.mSetBytesValue m 3600000000000 (Time.ofNs 0)).1.mGetBytesValue [[107]] (Time.ofNs 0)).map
      (·.lookup [107]) = .ok (some (some [2])) := by
  decide

/-- After a write that every refusing tier held no copy of, reads answer it or `ErrNotFound`. -/
theorem coherent_reads {c : Cache} (hN : 0 < c.subCaches.length)
    (hadv : ∀ v ∈ c.subCaches, v.Advisory) {b : Bytes} {ttl : Int} {τ : Time}
    (hheld : ∀ v ∈ c.subCaches, v.refuse key (Entry.set b ttl τ).1 τ ≠ none → v.lookup key τ = none)
    (ops : List (Time × Op)) (hops : ∀ p ∈ ops, p.2.writes key = false)
    (hτ : ∀ p ∈ ops, τ.ns ≤ p.1.ns) (r : Time) (hr : τ.ns ≤ r.ns) :
    (c.setBytesValue key b ttl τ).2 = none ∧
    ((((c.setBytesValue key b ttl τ).1.run ops).1.getBytesValue key r).2 = .ok b ∨
      (((c.setBytesValue key b ttl τ).1.run ops).1.getBytesValue key r).2 = .error .notFound) ∧
    ∀ keys d, ((c.setBytesValue key b ttl τ).1.run ops).1.mGetBytesValue keys r = .ok d →
      d.lookup key = none ∨ d.lookup key = some none ∨ d.lookup key = some (some b) := by
  obtain ⟨hnil, hwrite⟩ := held_setBytesValue (Q := CopyOf (Entry.set b ttl τ).1 τ) hN hadv
    (fun _ => .inl rfl) fun v hv hr => copyOf_of_lookup (hheld v hv hr) _
  have hrun := held_run ops hops (fun p hp => copyOf_closed (hτ p hp)) hwrite
  have hR := forall_step_run (P := Tier.Reads) (fun _ => Iff.rfl) (fun v hv => (hadv v hv).2) τ
    (.setBytesValue key b ttl) ops
  refine ⟨hnil, ?_, fun keys d hd => ?_⟩
  · rcases getBytesValue_of_held_reads hrun hR r with ⟨-, h⟩ | ⟨s, hs, ha, h⟩
    · exact .inr h
    · rw [h, bytes_of_copyOf hs ha hr, get_set]
      split_ifs
      exacts [.inr rfl, .inl rfl]
  · rcases mGetBytesValue_of_held hrun hd with h | ⟨s, hs, ha, h⟩
    · exact .inl h
    · rw [h, bytes_of_copyOf hs ha hr, get_set]
      split_ifs
      exacts [.inr (.inl rfl), .inr (.inr rfl)]

/-- A tier keeping copies for an hour that refuses entries longer than 9 bytes as too large. -/
def smallTier : Tier where
  TTL := 3600000000000
  refuse _ bytes _ := if 9 < bytes.length then some .entryTooLarge else none

theorem coherent_reads_small_tier :
    ((⟨[smallTier]⟩ : Cache).setBytesValue [107] [2, 2] 3600000000000 (Time.ofNs 0)).2 = none ∧
    (((((⟨[smallTier]⟩ : Cache).setBytesValue [107] [2, 2] 3600000000000 (Time.ofNs 0)).1.run
        []).1.getBytesValue [107] (Time.ofNs 1000000000)).2 = .ok [2, 2] ∨
      ((((⟨[smallTier]⟩ : Cache).setBytesValue [107] [2, 2] 3600000000000 (Time.ofNs 0)).1.run
        []).1.getBytesValue [107] (Time.ofNs 1000000000)).2 = .error .notFound) ∧
    ∀ keys d, (((⟨[smallTier]⟩ : Cache).setBytesValue [107] [2, 2] 3600000000000
        (Time.ofNs 0)).1.run []).1.mGetBytesValue keys (Time.ofNs 1000000000) = .ok d →
      d.lookup [107] = none ∨ d.lookup [107] = some none ∨ d.lookup [107] = some (some [2, 2]) :=
  coherent_reads (by decide)
    (by intro v hv
        simp only [List.mem_singleton] at hv
        subst hv
        refine ⟨fun _ bytes _ e he => ?_, fun _ _ => rfl, fun _ _ => rfl⟩
        simp only [smallTier] at he
        split_ifs at he
        exact .inl (Option.some.inj he).symm)
    (by intro v hv _; simp only [List.mem_singleton] at hv; subst hv; rfl)
    [] (by simp) (by simp) (Time.ofNs 1000000000) (by decide)

theorem rejected_write_keeps_old_copy :
    let c := ((⟨[smallTier]⟩ : Cache).setBytesValue [107] [1] 3600000000000 (Time.ofNs 0)).1
    (c.setBytesValue [107] [2, 2] 3600000000000 (Time.ofNs 0)).2 = none ∧
    ((c.setBytesValue [107] [2, 2] 3600000000000 (Time.ofNs 0)).1.getBytesValue [107]
      (Time.ofNs 0)).2 = .ok [1] ∧
    ((c.setBytesValue [107] [2, 2] 3600000000000 (Time.ofNs 0)).1.mGetBytesValue [[107]]
      (Time.ofNs 0)).map (·.lookup [107]) = .ok (some (some [1])) := by
  decide

/-- A write with a negative ttl is not found by any read in a later Unix second. -/
theorem never_expiring_write_unreadable {c : Cache} (hN : 0 < c.subCaches.length)
    (hc : c.Faithful) (b : Bytes) {ttl : Int} (httl : ttl < 0) (τ : Time)
    (ops : List (Time × Op)) (hops : ∀ p ∈ ops, p.2.writes key = false) {r : Time}
    (hr : τ.unix < r.unix) :
    (((c.setBytesValue key b ttl τ).1.run ops).1.getBytesValue key r).2 = .error .notFound := by
  have hadv : ∀ v ∈ c.subCaches, v.Advisory := fun v hv =>
    ⟨fun key bytes now e he => absurd ((hc v hv).1 key bytes now ▸ he) nofun, (hc v hv).reads⟩
  have hwrite : Held key (·.bytes = (Entry.set b ttl τ).1) (c.setBytesValue key b ttl τ).1 :=
    (held_setBytesValue (Q := (·.bytes = (Entry.set b ttl τ).1)) hN hadv (fun _ => rfl) fun v hv hr => absurd ((hc v hv).1 _ _ _) hr).2
  have hE : (τ.add ttl).unix < r.unix := lt_of_le_of_lt (Time.unix_le_unix (by
    simp only [Time.add, Time.ns_ofNs]; have := τ.ge_min; omega)) hr
  rcases getBytesValue_of_held_reads (held_run ops hops (fun _ _ _ hs _ _ => hs) hwrite)
    (forall_step_run (P := Tier.Reads) (fun _ => Iff.rfl) (fun v hv => (hc v hv).reads) τ (.setBytesValue key b ttl)
      ops) r with ⟨-, h⟩ | ⟨s, hs, -, h⟩
  · exact h
  · rw [h, hs, get_set, if_pos hE]
    rfl

theorem negative_ttl_write_lost :
    ((((⟨[{ TTL := 3600000000000 }]⟩ : Cache).setBytesValue [107] [1] (-1000000000)
      (Time.ofNs 0)).1.run []).1.getBytesValue [107] (Time.ofNs 1000000000)).2 = .error .notFound :=
  never_expiring_write_unreadable (by decide)
    (by intro v hv; simp only [List.mem_singleton] at hv; subst hv; exact faithful_mk _ _)
    [1] (by decide) (Time.ofNs 0) [] (by simp) (by decide)

end HerbCache.Cachegroup
