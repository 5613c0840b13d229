import HerbCache.Cachegroup.Observe

/-!
# Group calls run concurrently

The group cache takes no lock. Here each call is a process: a read takes two steps, its loop over
the tiers with `entry.Get` (`readLoop`) and its back-fill (`backFill`); every other call takes one.
Run without interleaving, the processes are the sequential run of `Run` (`serial_schedule_run`).
Interleaved, a back-fill writes back what its loop found whatever ran since, so a deleted or
overwritten payload can be read back (`backFill_restores_copy`); yet no schedule makes a read
return a payload that no tier held at the start (`interleaved_reads_decode_initial_copies`).
-/

namespace HerbCache.Cachegroup

/-- Where a group call run as a process is; a read past its loop holds what the loop found. -/
inductive Phase
  | start
  | found (key : Key) (n : Nat) (bytes : Bytes) (expired : Int) (buf : Bytes)
  | done (a : Answer)

/-- The first half of `GetBytesValue`: the loop over the tiers, and `entry.Get`. -/
def readLoop (c : Cache) (key : Key) (now : Time) : Phase :=
  let (n, r) := scan key now (.ok []) c.subCaches
  match r with
  | .error err => .done (.bytes (.error err))
  | .ok bytes =>
    match Entry.get bytes now with
    | .error err => .done (.bytes (.error err))
    | .ok (buf, expired) => .found key n bytes expired buf

/-- The second half of `GetBytesValue`: `setBytesCaches` into the first `n` tiers as they are. -/
def backFill (c : Cache) (key : Key) (n : Nat) (bytes : Bytes) (expired : Int) (now : Time) :
    Cache :=
  let (front, _) := setBytesCaches key bytes expired .set now (c.subCaches.take n)
  ⟨front ++ c.subCaches.drop n⟩

def Op.advance (op : Op) (c : Cache) (now : Time) : Phase → Cache × Phase
  | .start =>
    match op with
    | .getBytesValue key => (c, readLoop c key now)
    | op => let r := c.step now op; (r.1, .done r.2)
  | .found key n bytes expired buf => (backFill c key n bytes expired now, .done (.bytes (.ok buf)))
  | .done a => (c, .done a)

@[simp] theorem advance_getBytesValue_start (key : Key) (c : Cache) (now : Time) :
    (Op.getBytesValue key).advance c now .start = (c, readLoop c key now) := rfl

@[simp] theorem advance_found (op : Op) (c : Cache) (now : Time) (key : Key) (n : Nat) (bytes : Bytes)
    (expired : Int) (buf : Bytes) :
    op.advance c now (.found key n bytes expired buf) =
      (backFill c key n bytes expired now, .done (.bytes (.ok buf))) := rfl

structure Sys where
  cache : Cache
  procs : List (Op × Phase)

namespace Sys

def step (s : Sys) (i : Nat) (now : Time) : Sys :=
  match s.procs[i]? with
  | none => s
  | some (op, ph) =>
    let r := op.advance s.cache now ph
    ⟨r.1, s.procs.set i (op, r.2)⟩

def run (s : Sys) (sched : List (Nat × Time)) : Sys := sched.foldl (fun s p => s.step p.1 p.2) s

/-- From process `i` on, each process in turn runs to its end at the time of its call. -/
def serial : Nat → List Time → List (Nat × Time)
  | _, [] => []
  | i, now :: ts => (i, now) :: (i, now) :: serial (i + 1) ts

end Sys

/-! ### Without interleaving -/

theorem advance_advance (op : Op) (c : Cache) (now : Time) :
    op.advance (op.advance c now .start).1 now (op.advance c now .start).2 =
      ((c.step now op).1, .done (c.step now op).2) := by
  cases op with
  | getBytesValue key =>
    simp only [Op.advance, readLoop, Cache.step, Cache.getBytesValue]
    rcases scan key now (.ok []) c.subCaches with ⟨n, err | bytes⟩
    · rfl
    · dsimp only
      rcases Entry.get bytes now with err | ⟨buf, expired⟩ <;> rfl
  | _ => rfl

theorem step_append (c : Cache) (done : List (Op × Phase)) (op : Op) (ph : Phase)
    (rest : List (Op × Phase)) (now : Time) :
    Sys.step ⟨c, done ++ (op, ph) :: rest⟩ done.length now =
      ⟨(op.advance c now ph).1, done ++ (op, (op.advance c now ph).2) :: rest⟩ := by
  simp [Sys.step, List.set_append_right, List.getElem_append_right]

theorem run_serial : ∀ (ops : List (Time × Op)) (c : Cache) (done : List (Op × Phase)),
    Sys.run ⟨c, done ++ ops.map fun p => (p.2, .start)⟩ (Sys.serial done.length (ops.map Prod.fst)) =
      ⟨(c.run ops).1, done ++ (ops.map Prod.snd).zipWith (fun op a => (op, .done a)) (c.run ops).2⟩
  | [], c, done => by simp [Sys.run, Sys.serial, Cache.run]
  | (now, op) :: ops, c, done => by
    have ih := run_serial ops (c.step now op).1 (done ++ [(op, .done (c.step now op).2)])
    simp only [List.length_append, List.length_singleton, List.append_assoc,
      List.singleton_append] at ih
    simp only [List.map_cons, Sys.serial, Sys.run, List.foldl_cons, step_append, advance_advance]
    exact ih

/-- Run without interleaving, the processes are the sequential run of their calls. -/
theorem serial_schedule_run (c : Cache) (ops : List (Time × Op)) :
    Sys.run ⟨c, ops.map fun p => (p.2, .start)⟩ (Sys.serial 0 (ops.map Prod.fst)) =
      ⟨(c.run ops).1, (ops.map Prod.snd).zipWith (fun op a => (op, .done a)) (c.run ops).2⟩ :=
  run_serial ops c []

variable {key : Key} {now : Time}

/-! ### A back-fill after another call -/

theorem readLoop_eq (c : Cache) (key : Key) (now : Time) :
    readLoop c key now =
      match firstAnswer key now c.subCaches with
      | some (i, .ok x) =>
        match Entry.get x now with
        | .error e => .done (.bytes (.error e))
        | .ok (buf, expired) => .found key i x expired buf
      | some (_, .error e) => .done (.bytes (.error e))
      | none => .done (.bytes (.error .notFound)) := by
  unfold readLoop
  rw [scan_eq]
  rcases firstAnswer key now c.subCaches with _ | ⟨i, e | x⟩
  · cases c.subCaches.isEmpty <;> simp [Entry.get]
  · rfl
  · rfl

theorem alive_capTTL {v : Tier} (hT : v.TTL ≠ 0) {expired : Int} (hrem : 0 < remaining expired now)
    (x : Bytes) : (Slot.mk x (v.deadline (capTTL (remaining expired now) v.TTL) now)).alive now = true := by
  have hpos := capTTL_pos_of_pos hrem v.TTL hT
  have hlt : now.ns < 9223372036854775807999999999 := by
    have := (Time.ofUnix expired).le_max
    unfold remaining Time.sub at hrem
    omega
  simp only [Slot.alive, v.deadline_of_pos hpos, Time.add, Time.ns_ofNs, decide_eq_true_eq]
  omega

theorem firstAnswer_backFill {c : Cache} {v : Tier} {vs : List Tier} (hc : c.subCaches = v :: vs)
    (hv : v.Faithful) (hT : v.TTL ≠ 0) {expired : Int} (hrem : 0 < remaining expired now)
    (n : Nat) (x : Bytes) :
    firstAnswer key now (backFill c key (n + 1) x expired now).subCaches = some (0, .ok x) := by
  have hw : (writeTier .set v key x (capTTL (remaining expired now) v.TTL) now).1.getBytesValue key
      now = .ok x := by
    rw [writeTier_set_of_faithful hv, Tier.getBytesValue_of_readErr (c := v.put key _)
      (hv.reads.1 key now), Tier.lookup_put_self, if_pos (alive_capTTL hT hrem x)]
  simp only [backFill, hc, setBytesCaches_fst, List.map_cons, List.take_succ_cons, List.cons_append]
  rw [firstAnswer_cons_of_ne (by rw [hw]; nofun), hw]

variable {P : Bytes → Prop}

/-- An answer whose payload, if any, is that of an entry satisfying `P`. -/
def Decodes (P : Bytes → Prop) (a : Answer) : Prop :=
  ∀ buf, a = .bytes (.ok buf) → ∃ x t E, P x ∧ Entry.get x t = .ok (buf, E)

/-- What a process is about to write or has returned of `key` satisfies `P`. -/
def ProcHeldBy (key : Key) (P : Bytes → Prop) : Op × Phase → Prop
  | (_, .start) => True
  | (op, .found k _ bytes E buf) =>
    op = .getBytesValue k ∧ (k = key → P bytes ∧ ∃ t, Entry.get bytes t = .ok (buf, E))
  | (op, .done a) => op = .getBytesValue key → Decodes P a

def Sys.HeldBy (key : Key) (P : Bytes → Prop) (s : Sys) : Prop :=
  Held key (fun s => P s.bytes) s.cache ∧ ∀ p ∈ s.procs, ProcHeldBy key P p

theorem advance_start_of_ne {op : Op} (h : ∀ k, op ≠ .getBytesValue k) (c : Cache) (now : Time) :
    op.advance c now .start = ((c.step now op).1, .done (c.step now op).2) := by
  cases op <;> first | rfl | exact absurd rfl (h _)

theorem readLoop_cases (c : Cache) (key : Key) (now : Time) :
    (∃ e, readLoop c key now = .done (.bytes (.error e))) ∨
      ∃ n x E buf, firstCopy key now c.subCaches = some (n, x) ∧ Entry.get x now = .ok (buf, E) ∧
        readLoop c key now = .found key n x E buf := by
  rw [readLoop_eq]
  rcases hf : firstAnswer key now c.subCaches with _ | ⟨n, e | x⟩
  · exact .inl ⟨_, rfl⟩
  · exact .inl ⟨e, rfl⟩
  · dsimp only
    rcases hx : Entry.get x now with e | ⟨buf, E⟩
    · exact .inl ⟨e, rfl⟩
    · exact .inr ⟨n, x, E, buf, firstCopy_of_firstAnswer hf, hx, rfl⟩

theorem heldBy_backFill {c : Cache} (hc : Held key (fun s => P s.bytes) c) {k : Key} {bytes : Bytes}
    (hb : k = key → P bytes) (n : Nat) (E : Int) (now : Time) :
    Held key (fun s => P s.bytes) (backFill c k n bytes E now) := by
  intro o ho s hs
  simp only [backFill, Cache.slots, List.map_append, List.mem_append, setBytesCaches_fst,
    List.map_map, List.mem_map, Function.comp_def] at ho
  rcases ho with ⟨v, hv, rfl⟩ | ⟨v, hv, rfl⟩
  · have hold : ∀ o, o = v.store key → ∀ s ∈ o, P s.bytes := fun o he =>
      hc o (List.mem_map.2 ⟨v, List.mem_of_mem_take hv, he.symm⟩)
    by_cases hk : k = key
    · subst hk
      rcases Tier.store_setBytesValue_self v k bytes (capTTL (remaining E now) v.TTL) now with he | he
      · exact hold _ he s hs
      · rw [show (writeTier .set v k bytes _ now).1.store k = _ from he] at hs
        cases hs
        exact hb rfl
    · exact hold _ (store_writeTier_ne .set v bytes _ now (Ne.symm hk)) s hs
  · exact hc _ (List.mem_map.2 ⟨v, List.mem_of_mem_drop hv, rfl⟩) s hs

theorem advance_heldBy {op : Op} (hw : op.writes key = false) {c : Cache} {ph : Phase}
    (now : Time) (hc : Held key (fun s => P s.bytes) c) (hp : ProcHeldBy key P (op, ph)) :
    Held key (fun s => P s.bytes) (op.advance c now ph).1 ∧ ProcHeldBy key P (op, (op.advance c now ph).2) := by
  cases ph with
  | start =>
    by_cases hr : ∃ k, op = .getBytesValue k
    · obtain ⟨k, rfl⟩ := hr
      rw [advance_getBytesValue_start]
      refine ⟨hc, ?_⟩
      rcases readLoop_cases c k now with ⟨e, he⟩ | ⟨n, x, E, buf, hf, hx, he⟩ <;> rw [he]
      · exact fun _ _ h => nomatch h
      · refine ⟨rfl, fun hk => ⟨?_, now, hx⟩⟩
        subst hk
        obtain ⟨s, hs, -, rfl⟩ := firstCopy_slot hf
        exact hc _ hs s rfl
    · rw [advance_start_of_ne (fun k h => hr ⟨k, h⟩)]
      exact ⟨held_step (fun _ hs _ _ => hs) c hw hc, fun h => (hr ⟨key, h⟩).elim⟩
  | found k n bytes E buf =>
    obtain ⟨rfl, hb⟩ := hp
    refine ⟨heldBy_backFill hc (fun hk => (hb hk).1) n E now, fun h => ?_⟩
    obtain ⟨hP, t, ht⟩ := hb (Op.getBytesValue.inj h)
    rintro _ ⟨⟩
    exact ⟨bytes, t, E, hP, ht⟩
  | done a => exact ⟨hc, hp⟩

theorem heldBy_sys_step {s : Sys} (hw : ∀ p ∈ s.procs, p.1.writes key = false)
    (hs : s.HeldBy key P) (i : Nat) (now : Time) :
    (s.step i now).HeldBy key P ∧ ∀ p ∈ (s.step i now).procs, p.1.writes key = false := by
  unfold Sys.step
  rcases hi : s.procs[i]? with _ | ⟨op, ph⟩
  · exact ⟨hs, hw⟩
  · have hmem := List.getElem?_mem hi
    obtain ⟨hc', hp'⟩ := advance_heldBy (hw _ hmem) now hs.1 (hs.2 _ hmem)
    refine ⟨⟨hc', fun p hp => ?_⟩, fun p hp => ?_⟩ <;>
      rcases List.mem_or_eq_of_mem_set hp with hp | rfl
    · exact hs.2 p hp
    · exact hp'
    · exact hw p hp
    · exact hw (op, ph) hmem

theorem heldBy_sys_run : ∀ (sched : List (Nat × Time)) {s : Sys},
    (∀ p ∈ s.procs, p.1.writes key = false) → s.HeldBy key P → (s.run sched).HeldBy key P
  | [], _, _, hs => hs
  | (i, now) :: sched, _, hw, hs =>
    let h := heldBy_sys_step hw hs i now
    heldBy_sys_run sched h.2 h.1

/-- Under any schedule of calls not writing `key`, every payload read decodes an initial copy. -/
theorem interleaved_reads_decode_initial_copies (c : Cache) (ops : List Op)
    (hops : ∀ op ∈ ops, op.writes key = false) (sched : List (Nat × Time)) (r : Time) :
    let s := Sys.run ⟨c, ops.map (·, .start)⟩ sched
    (∀ a, (.getBytesValue key, .done a) ∈ s.procs →
      Decodes (fun x => ∃ o ∈ c.slots key, ∃ s ∈ o, s.bytes = x) a) ∧
    (∀ buf, (s.cache.getBytesValue key r).2 = .ok buf →
      ∃ x, (∃ o ∈ c.slots key, ∃ s ∈ o, s.bytes = x) ∧ ∃ E, Entry.get x r = .ok (buf, E)) ∧
    ∀ keys d, s.cache.mGetBytesValue keys r = .ok d →
      d.lookup key = none ∨ ∃ x, (∃ o ∈ c.slots key, ∃ s ∈ o, s.bytes = x) ∧
        d.lookup key = some ((Entry.get x r).toOption.map Prod.fst) := by
  intro s
  have hrun := heldBy_sys_run (P := fun x => ∃ o ∈ c.slots key, ∃ s ∈ o, s.bytes = x) sched
    (s := ⟨c, ops.map (·, .start)⟩)
    (fun _ hp => let ⟨op, hop, he⟩ := List.mem_map.1 hp; he ▸ hops op hop)
    ⟨fun o ho s hs => ⟨o, ho, s, hs, rfl⟩, fun _ hp => let ⟨_, _, he⟩ := List.mem_map.1 hp; he ▸ trivial⟩
  refine ⟨fun a ha => hrun.2 _ ha rfl, fun buf h => ?_, fun _ _ hd => ?_⟩
  · obtain ⟨t, ht, -, E, hE⟩ := getBytesValue_of_held hrun.1 h
    exact ⟨t.bytes, ht, E, hE⟩
  · exact (mGetBytesValue_of_held hrun.1 hd).imp_right fun ⟨t, ht, _, h⟩ => ⟨t.bytes, ht, h⟩

theorem interleaved_reads_two_tiers :
    let v : Tier := { TTL := 3600000000000 }
    let c : Cache := ⟨[v, v.put [107] (some ⟨(Entry.set [1] 3600000000000 (Time.ofNs 0)).1,
      some (Time.ofNs 3600000000000)⟩)]⟩
    let ops := [Op.getBytesValue [107], .setBytesValue [1] [2] 0, .getBytesValue [107]]
    let sched := [(0, Time.ofNs 5), (2, Time.ofNs 6), (1, Time.ofNs 7), (2, Time.ofNs 8), (0, Time.ofNs 9)]
    let s := Sys.run ⟨c, ops.map (·, .start)⟩ sched
    (∀ op ∈ ops, op.writes [107] = false) ∧
    (∀ a, (.getBytesValue [107], .done a) ∈ s.procs →
      Decodes (fun x => ∃ o ∈ c.slots [107], ∃ s ∈ o, s.bytes = x) a) ∧
    (∀ buf, (s.cache.getBytesValue [107] (Time.ofNs 10)).2 = .ok buf →
      ∃ x, (∃ o ∈ c.slots [107], ∃ s ∈ o, s.bytes = x) ∧
        ∃ E, Entry.get x (Time.ofNs 10) = .ok (buf, E)) ∧
    ∀ keys d, s.cache.mGetBytesValue keys (Time.ofNs 10) = .ok d →
      d.lookup [107] = none ∨ ∃ x, (∃ o ∈ c.slots [107], ∃ s ∈ o, s.bytes = x) ∧
        d.lookup [107] = some ((Entry.get x (Time.ofNs 10)).toOption.map Prod.fst) :=
  ⟨by decide, interleaved_reads_decode_initial_copies _ _ (by decide) _ (Time.ofNs 10)⟩

end Cachegroup

end HerbCache
