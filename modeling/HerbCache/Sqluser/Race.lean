import HerbCache.Sqluser.Run

/-!
# Account calls run concurrently

`Bind`, `Insert` and `FindOrInsert` select the account's binding outside their transaction and
insert one if there was none. Each call is here a process that first reads the committed tables
(`Proc.check`) and later writes and commits (`Proc.write`). Under every schedule no committed
binding is lost (`committed_bindings_kept`) and calls of distinct accounts are serializable, but
calls of one account that all select before any commits all bind it.
-/

namespace HerbCache.Sqluser

open AccountMapper

/-- An account mapper call run as a process: its clock second, and its arguments. -/
inductive Proc
  | bind (now : Int) (uid : String) (account : Account)
  | insert (now : Int) (uid keyword account : String)
  | findOrInsert (now : Int) (gen : String × Option Err) (account : Account)
  | unbind (uid : String) (account : Account)

/-- Where a process is: not started, past its select and about to write, or returned. -/
inductive Phase
  | start
  | checked
  | done (a : Answer)
  deriving DecidableEq

namespace Proc

def call : Proc → Int × Call
  | .bind now uid account => (now, .bind uid account)
  | .insert now uid keyword account => (now, .insert uid keyword account)
  | .findOrInsert now gen account => (now, .findOrInsert gen account)
  | .unbind uid account => (0, .unbind uid account)

variable (e : Engine) (g : Globals) (u : User)

/-- The first step: `Begin`, and the select through `DB()` on the committed tables. -/
def check : Proc → DB → Phase
  | .bind _ _ account, db =>
    match bindCheck e db account with
    | some err => .done (.err (some err))
    | none => .checked
  | .insert _ _ keyword account, db =>
    match insertCheck e db keyword account with
    | some err => .done (.err (some err))
    | none => .checked
  | .findOrInsert _ _ account, db =>
    match lookup e db account.Keyword account.Account with
    | .error err => .done (.registered "" false (some err))
    | .ok (some result) => .done (.registered result.UID false none)
    | .ok none => .checked
  | .unbind _ _, db =>
    match e.beginErr db with
    | some err => .done (.err (some err))
    | none => .checked

/-- The second step: the statements and `Commit`, on the committed tables as they are now. -/
def write : Proc → DB → DB × Answer
  | .bind now uid account, db => let r := bindWrite e now uid account db; (r.1, .err r.2)
  | .insert now uid keyword account, db =>
    let r := insertWrite e u g.StatusNormal now uid keyword account db; (r.1, .err r.2)
  | .findOrInsert now gen account, db =>
    let r := findOrInsertWrite e u g.StatusNormal now gen.1 account db; (r.1, .registered r.2.1 r.2.2.1 r.2.2.2)
  | .unbind uid account, db => let r := unbindWrite e uid account db; (r.1, .err r.2)

def advance (p : Proc) (db : DB) : Phase → DB × Phase
  | .start => (db, p.check e db)
  | .checked => let r := p.write e g u db; (r.1, .done r.2)
  | .done a => (db, .done a)

/-- The binding a returned process reports made. -/
def committed : Proc → Phase → Option AccountModel
  | .bind now uid account, .done (.err none) => some (.binding uid account.Keyword account.Account now)
  | .insert now uid keyword account, .done (.err none) => some (.binding uid keyword account now)
  | .findOrInsert now _ account, .done (.registered uid true none) =>
    some (.binding uid account.Keyword account.Account now)
  | _, _ => none

def account : Proc → String × String
  | .bind _ _ account | .findOrInsert _ _ account | .unbind _ account => (account.Keyword, account.Account)
  | .insert _ _ keyword account => (keyword, account)

/-- What a process answers when its select finds what it finds in `db`. -/
def answerOn (p : Proc) (db : DB) : Answer :=
  match p.check e db with
  | .done a => a
  | _ => (p.write e g u db).2

end Proc

structure Sys where
  db : DB
  procs : List (Proc × Phase)

namespace Sys

variable (e : Engine) (g : Globals) (u : User)

def step (s : Sys) (i : Nat) : Sys :=
  match s.procs[i]? with
  | none => s
  | some (p, ph) =>
    let r := p.advance e g u s.db ph
    ⟨r.1, s.procs.set i (p, r.2)⟩

def run (s : Sys) (sched : List Nat) : Sys := sched.foldl (step e g u) s

def serial (n : Nat) : List Nat := (List.range n).flatMap fun i => [i, i]

end Sys

variable {e : Engine} {g : Globals} {u : User}

/-! ### Without interleaving -/

theorem advance_advance (p : Proc) (db : DB) :
    let r := p.advance e g u db .start
    p.advance e g u r.1 r.2 = ((step e g u db p.call.1 p.call.2).1, .done (step e g u db p.call.1 p.call.2).2) := by
  cases p with
  | bind now uid account =>
    rcases hc : bindCheck e db account with _ | err <;>
      simp [Proc.advance, Proc.check, Proc.write, Proc.call, step, AccountMapper.bind, hc]
  | insert now uid keyword account =>
    rcases hc : insertCheck e db keyword account with _ | err <;>
      simp [Proc.advance, Proc.check, Proc.write, Proc.call, step, AccountMapper.insert, hc]
  | findOrInsert now gen account =>
    rcases hc : lookup e db account.Keyword account.Account with err | _ | r <;>
      simp [Proc.advance, Proc.check, Proc.write, Proc.call, step, AccountMapper.findOrInsert, hc]
  | unbind uid account =>
    rcases hc : e.beginErr db with _ | err <;>
      simp [Proc.advance, Proc.check, Proc.write, Proc.call, step, AccountMapper.unbind, hc]

theorem sys_step_append (db : DB) (done : List (Proc × Phase)) (p : Proc) (ph : Phase) (rest : List (Proc × Phase)) :
    Sys.step e g u ⟨db, done ++ (p, ph) :: rest⟩ done.length =
      ⟨(p.advance e g u db ph).1, done ++ (p, (p.advance e g u db ph).2) :: rest⟩ := by
  simp [Sys.step, List.set_append_right, List.getElem_append_right]

theorem run_cons (db : DB) (pc : Int × Call) (cs : List (Int × Call)) :
    run e g u db (pc :: cs) =
      ((run e g u (step e g u db pc.1 pc.2).1 cs).1, (step e g u db pc.1 pc.2).2 :: (run e g u (step e g u db pc.1 pc.2).1 cs).2) :=
  rfl

theorem run_serial_eq (s : Sys) (n : Nat) :
    Sys.run e g u s (Sys.serial n) = (List.range' 0 n).foldl (fun s i => Sys.step e g u (Sys.step e g u s i) i) s := by
  rw [Sys.run, Sys.serial, List.range_eq_range', List.flatMap, List.foldl_flatten, List.foldl_map]
  rfl

theorem foldl_serial : ∀ (done : List (Proc × Phase)) (db : DB) (ps : List Proc),
    (List.range' done.length ps.length).foldl
        (fun s i => Sys.step e g u (Sys.step e g u s i) i) ⟨db, done ++ ps.map (·, .start)⟩ =
      ⟨(run e g u db (ps.map Proc.call)).1,
        done ++ ps.zipWith (fun p a => (p, .done a)) (run e g u db (ps.map Proc.call)).2⟩
  | done, db, [] => by simp [run]
  | done, db, p :: ps => by
    rw [List.length_cons, List.range'_succ, List.foldl_cons, List.map_cons, sys_step_append,
      sys_step_append, advance_advance]
    have := foldl_serial (done ++ [(p, .done (step e g u db p.call.1 p.call.2).2)]) (step e g u db p.call.1 p.call.2).1 ps
    simp only [List.length_append, List.length_singleton, List.append_assoc, List.singleton_append] at this
    rw [this, List.map_cons, run_cons]
    rfl

/-- Run each to its end in turn, the processes are the sequential run of their calls. -/
theorem serial_run (db : DB) (ps : List Proc) :
    Sys.run e g u ⟨db, ps.map (·, .start)⟩ (Sys.serial ps.length) =
      ⟨(run e g u db (ps.map Proc.call)).1,
        ps.zipWith (fun p a => (p, .done a)) (run e g u db (ps.map Proc.call)).2⟩ := by
  rw [run_serial_eq]
  simpa using foldl_serial (e := e) (g := g) (u := u) [] db ps

/-! ### Under every schedule -/

namespace Proc

@[simp] theorem committed_start (p : Proc) : p.committed .start = none := by
  cases p <;> rfl

theorem committed_check (p : Proc) (db : DB) : p.committed (p.check e db) = none := by
  cases p <;> simp only [check] <;> split <;> rfl

theorem committed_err {p : Proc} {err : Option Err} (h : err ≠ none) : p.committed (.done (.err err)) = none := by
  obtain ⟨err, rfl⟩ := Option.ne_none_iff_exists'.1 h
  cases p <;> rfl

theorem committed_registered {p : Proc} {uid : String} {created : Bool} {err : Option Err} (h : err ≠ none) :
    p.committed (.done (.registered uid created err)) = none := by
  obtain ⟨err, rfl⟩ := Option.ne_none_iff_exists'.1 h
  cases p <;> cases created <;> rfl

/-- A step other than `Unbind`'s leaves the account table, or appends the binding it reports. -/
theorem advance_cases {p : Proc} (hp : ∀ uid account, p ≠ .unbind uid account) (db : DB) (ph : Phase) :
    let r := p.advance e g u db ph
    (r.1.account = db.account ∧ p.committed r.2 = p.committed ph) ∨
      ∃ row, r.1.account = db.account ++ [row] ∧ p.committed ph = none ∧ p.committed r.2 = some row := by
  cases ph with
  | start => exact .inl ⟨rfl, by simp [advance, committed_check]⟩
  | done a => exact .inl ⟨rfl, rfl⟩
  | checked =>
    cases p with
    | bind now uid account =>
      rcases e.finish_exec_cases db db (db.insertAccount (.binding uid account.Keyword account.Account now)) with
        ⟨herr, h⟩ | h
      · exact .inl ⟨congrArg DB.account h, committed_err herr⟩
      · exact .inr ⟨_, congrArg (·.1.account) h, rfl, by simp only [advance, write, bindWrite, h]; rfl⟩
    | insert now uid keyword account =>
      rcases finish_insertRows_cases e u g.StatusNormal now uid keyword account db
        with ⟨herr, h⟩ | h
      · exact .inl ⟨congrArg DB.account h, committed_err herr⟩
      · exact .inr ⟨_, (congrArg (·.1.account) h).trans (registered_account ..), rfl,
          by simp only [advance, write, insertWrite, h]; rfl⟩
    | findOrInsert now gen account =>
      rcases findOrInsertWrite_cases e u g.StatusNormal now gen.1 account db
        with ⟨herr, h⟩ | h
      · exact .inl ⟨congrArg DB.account h, committed_registered herr⟩
      · exact .inr ⟨_, (congrArg (·.1.account) h).trans (registered_account ..), rfl,
          by simp only [advance, write, h]; rfl⟩
    | unbind uid account => exact absurd rfl (hp uid account)

end Proc

theorem filterMap_cons_eq {α β : Type} (f : α → Option β) (a : α) (l : List α) :
    (a :: l).filterMap f = (f a).toList ++ l.filterMap f := by
  cases h : f a <;> simp [List.filterMap_cons, h]

theorem filterMap_set_perm {α β : Type} [DecidableEq β] (f : α → Option β) :
    ∀ (l : List α) (i : Nat) {x : α} (y : α), l[i]? = some x →
      ((l.set i y).filterMap f ++ (f x).toList).Perm (l.filterMap f ++ (f y).toList)
  | [], _, _, _, h => nomatch h
  | a :: l, 0, x, y, h => by
    obtain rfl : a = x := by simpa using h
    simp only [List.set_cons_zero, filterMap_cons_eq]
    exact List.perm_iff_count.2 fun b => by simp only [List.count_append]; omega
  | a :: l, i + 1, _, y, h => by
    simp only [List.set_cons_succ, filterMap_cons_eq, List.append_assoc]
    exact (filterMap_set_perm f l i y (by simpa using h)).append_left _

/-- No process is an `Unbind`, and the account table gained exactly the bindings reported. -/
def Sys.Kept (db : DB) (s : Sys) : Prop :=
  (∀ x ∈ s.procs, ∀ uid account, x.1 ≠ .unbind uid account) ∧
    ∃ rows, s.db.account = db.account ++ rows ∧ rows.Perm (s.procs.filterMap fun x => x.1.committed x.2)

theorem kept_step {db : DB} {s : Sys} (hs : s.Kept db) (i : Nat) : (Sys.step e g u s i).Kept db := by
  unfold Sys.step
  split
  · exact hs
  · next p ph h =>
    obtain ⟨hun, rows, hdb, hrows⟩ := hs
    have hp := hun _ (List.getElem?_mem h)
    have hset := filterMap_set_perm (fun x : Proc × Phase => x.1.committed x.2) s.procs i
      (p, (p.advance e g u s.db ph).2) h
    refine ⟨fun x hx => ?_, ?_⟩
    · rcases List.mem_or_eq_of_mem_set hx with hx | rfl
      exacts [hun x hx, hp]
    · rcases Proc.advance_cases (e := e) (g := g) (u := u) hp s.db ph with ⟨ha, hc⟩ | ⟨row, ha, hc₀, hc⟩
      · simp only [hc] at hset
        exact ⟨rows, ha.trans hdb, hrows.trans ((List.perm_append_right_iff _).1 hset).symm⟩
      · simp only [hc₀, hc, Option.toList_none, Option.toList_some, List.append_nil] at hset
        exact ⟨rows ++ [row], by rw [ha, hdb, List.append_assoc], (hrows.append_right _).trans hset.symm⟩

theorem kept_run {db : DB} : ∀ (sched : List Nat) {s : Sys}, s.Kept db → (Sys.run e g u s sched).Kept db
  | [], _, hs => hs
  | i :: sched, _, hs => kept_run sched (kept_step hs i)

theorem kept_init (db : DB) {ps : List Proc} (hps : ∀ p ∈ ps, ∀ uid account, p ≠ .unbind uid account) :
    Sys.Kept db ⟨db, ps.map (·, .start)⟩ :=
  ⟨fun _ hx => let ⟨p, hp, he⟩ := List.mem_map.1 hx; he ▸ hps p hp, [], by simp,
    by simp [List.filterMap_map, Function.comp_def]⟩

/-- Under every schedule, and whatever the database fails, no binding is lost or made unreported. -/
theorem committed_bindings_kept (db : DB) (ps : List Proc)
    (hps : ∀ p ∈ ps, ∀ uid account, p ≠ .unbind uid account) (sched : List Nat) :
    let s := Sys.run e g u ⟨db, ps.map (·, .start)⟩ sched
    ∃ rows, s.db.account = db.account ++ rows ∧ rows.Perm (s.procs.filterMap fun x => x.1.committed x.2) :=
  (kept_run sched (kept_init db hps)).2

theorem committed_bindings_kept_three_calls :
    let ps : List Proc := [.bind 1 "u1" ⟨"k", "a"⟩, .insert 2 "u2" "k" "b", .findOrInsert 3 ("u3", none) ⟨"k", "a"⟩]
    (∀ p ∈ ps, ∀ uid account, p ≠ .unbind uid account) ∧
      let s := Sys.run (Engine.reliable true asciiFold) ⟨fun _ => none, 0⟩ (new 8) ⟨DB.empty, ps.map (·, .start)⟩ [2, 0, 1, 0, 2, 1]
      ∃ rows, s.db.account = DB.empty.account ++ rows ∧ rows.Perm (s.procs.filterMap fun x => x.1.committed x.2) := by
  intro ps
  have hps : ∀ p ∈ ps, ∀ uid account, p ≠ .unbind uid account := by simp [ps]
  exact ⟨hps, committed_bindings_kept DB.empty ps hps [2, 0, 1, 0, 2, 1]⟩

/-! ### Calls of distinct accounts -/

theorem set_of_getElem? {α : Type} {l : List α} {i : Nat} {x : α} (h : l[i]? = some x) : l.set i x = l :=
  List.ext_getElem? fun j => by
    rw [List.getElem?_set]
    split_ifs with hij hi
    · subst hij; exact h.symm
    · exact absurd (List.getElem?_eq_some_iff.1 h).1 hi
    · rfl

theorem procs_fst_step (s : Sys) (i : Nat) : (Sys.step e g u s i).procs.map Prod.fst = s.procs.map Prod.fst := by
  unfold Sys.step
  split
  · rfl
  · next p ph h =>
    rw [List.map_set]
    exact (List.map_set (f := Prod.fst) (a := (p, ph))).symm.trans (congrArg _ (set_of_getElem? h))

theorem procs_fst_run : ∀ (sched : List Nat) (s : Sys),
    (Sys.run e g u s sched).procs.map Prod.fst = s.procs.map Prod.fst
  | [], _ => rfl
  | i :: sched, s => (procs_fst_run sched (Sys.step e g u s i)).trans (procs_fst_step s i)

theorem run_length : ∀ (db : DB) (cs : List (Int × Call)), (run e g u db cs).2.length = cs.length
  | _, [] => rfl
  | db, pc :: cs => by rw [run_cons, List.length_cons, List.length_cons, run_length]

namespace Proc

section Reliable

variable (he : e.Reliable) {p : Proc} (hp : ∀ uid account, p ≠ .unbind uid account)
include he hp

theorem check_congr {db db' : DB}
    (h : db.account.find? (AccountModel.binds p.account.1 p.account.2) =
      db'.account.find? (AccountModel.binds p.account.1 p.account.2)) :
    p.check e db = p.check e db' := by
  cases p with
  | bind now uid account =>
    simp only [Proc.account] at h
    simp only [check, bindCheck, checkUnbound, lookup_of_reliable he, h]
  | insert now uid keyword account =>
    simp only [Proc.account] at h
    simp only [check, insertCheck, checkUnbound, lookup_of_reliable he, h]
  | findOrInsert now gen account =>
    simp only [Proc.account] at h
    simp only [check, lookup_of_reliable he, h]
  | unbind uid account => exact absurd rfl (hp uid account)

theorem write_answer (db db' : DB) : (p.write e g u db).2 = (p.write e g u db').2 := by
  cases p with
  | bind now uid account =>
    simp [write, bindWrite, Engine.exec_of_reliable he, Engine.finish, Engine.commit_of_reliable he]
  | insert now uid keyword account =>
    simp [write, insertWrite, insertRows_of_reliable he, Engine.finish, Engine.commit_of_reliable he]
  | findOrInsert now gen account =>
    simp [write, findOrInsertWrite, insertRows_of_reliable he, Engine.commit_of_reliable he]
  | unbind uid account => exact absurd rfl (hp uid account)

theorem committed_write (db : DB) : p.committed (.done (p.write e g u db).2) ≠ none := by
  cases p with
  | bind now uid account =>
    simp [write, bindWrite, Engine.exec_of_reliable he, Engine.finish, Engine.commit_of_reliable he,
      committed]
  | insert now uid keyword account =>
    simp [write, insertWrite, insertRows_of_reliable he, Engine.finish, Engine.commit_of_reliable he,
      committed]
  | findOrInsert now gen account =>
    simp [write, findOrInsertWrite, insertRows_of_reliable he, Engine.commit_of_reliable he, committed]
  | unbind uid account => exact absurd rfl (hp uid account)

end Reliable

theorem committed_binds {p : Proc} {ph : Phase} {r : AccountModel} (h : p.committed ph = some r) :
    r.binds p.account.1 p.account.2 = true := by
  unfold committed at h
  split at h <;> cases h <;> simp [Proc.account, AccountModel.binding]

end Proc

/-- The processes are where a run whose selects see `db` takes them. -/
def Sys.OnTrack (e : Engine) (g : Globals) (u : User) (db : DB) (ps : List Proc) (s : Sys) : Prop :=
  s.procs.map Prod.fst = ps ∧ s.Kept db ∧
    ∀ x ∈ s.procs, x.2 = .start ∨ x.2 = x.1.check e db ∨ x.2 = .done (x.1.answerOn e g u db)

section OnTrack

variable {db : DB} {ps : List Proc} (hd : (ps.map Proc.account).Nodup)
include hd

theorem find?_of_start {s : Sys} (hs : s.OnTrack e g u db ps) {p : Proc} (hp : (p, Phase.start) ∈ s.procs) :
    s.db.account.find? (AccountModel.binds p.account.1 p.account.2) =
      db.account.find? (AccountModel.binds p.account.1 p.account.2) := by
  obtain ⟨hfst, ⟨-, rows, hdb, hrows⟩, -⟩ := hs
  have hnd : (s.procs.map fun x => x.1.account).Nodup := by
    rwa [← hfst, List.map_map] at hd
  have hnone : rows.find? (AccountModel.binds p.account.1 p.account.2) = none :=
    List.find?_eq_none.2 fun r hr hb => by
      obtain ⟨y, hy, hc⟩ := List.mem_filterMap.1 (hrows.subset hr)
      have hyb := AccountModel.binds_eq_true.1 (Proc.committed_binds hc)
      rw [AccountModel.binds_eq_true] at hb
      obtain rfl := List.inj_on_of_nodup_map hnd hy hp (Prod.ext (hyb.1.symm.trans hb.1) (hyb.2.symm.trans hb.2))
      simp at hc
  rw [hdb, List.find?_append, hnone, Option.or_none]

theorem onTrack_step (he : e.Reliable) {s : Sys} (hs : s.OnTrack e g u db ps) (i : Nat) :
    (Sys.step e g u s i).OnTrack e g u db ps := by
  refine ⟨(procs_fst_step s i).trans hs.1, kept_step hs.2.1 i, ?_⟩
  unfold Sys.step
  split
  · exact hs.2.2
  · next p ph h =>
    have hmem := List.getElem?_mem h
    have hp := hs.2.1.1 _ hmem
    intro x hx
    rcases List.mem_or_eq_of_mem_set hx with hx | rfl
    · exact hs.2.2 x hx
    cases ph with
    | start => exact .inr (.inl (Proc.check_congr he hp (find?_of_start hd hs hmem)))
    | checked =>
      have hc : p.check e db = .checked := by
        rcases hs.2.2 _ hmem with h0 | h0 | h0 <;> first | exact h0.symm | cases h0
      refine .inr (.inr ?_)
      simp only [Proc.advance, Proc.answerOn, hc]
      rw [Proc.write_answer he hp s.db db]
    | done a => exact hs.2.2 _ hmem

theorem onTrack_run (he : e.Reliable) : ∀ (sched : List Nat) {s : Sys}, s.OnTrack e g u db ps →
    (Sys.run e g u s sched).OnTrack e g u db ps
  | [], _, hs => hs
  | i :: sched, _, hs => onTrack_run he sched (onTrack_step hd he hs i)

omit hd in
theorem onTrack_init (hps : ∀ p ∈ ps, ∀ uid account, p ≠ .unbind uid account) :
    Sys.OnTrack e g u db ps ⟨db, ps.map (·, .start)⟩ :=
  ⟨by simp [Function.comp_def], kept_init db hps, fun x hx => .inl (by obtain ⟨p, -, rfl⟩ := List.mem_map.1 hx; rfl)⟩

omit hd in
theorem answer_of_onTrack {s : Sys} (hs : s.OnTrack e g u db ps) {p : Proc} {a : Answer}
    (h : (p, Phase.done a) ∈ s.procs) : a = p.answerOn e g u db := by
  rcases hs.2.2 _ h with h0 | h0 | h0
  · cases h0
  · simp only [Proc.answerOn, ← h0]
  · exact Phase.done.inj h0

end OnTrack

/-- On a database that does not fail, processes of pairwise distinct accounts are serializable. -/
theorem distinct_accounts_serializable (he : e.Reliable) (db : DB) (ps : List Proc)
    (hps : ∀ p ∈ ps, ∀ uid account, p ≠ .unbind uid account) (hd : (ps.map Proc.account).Nodup)
    (sched : List Nat) :
    let s := Sys.run e g u ⟨db, ps.map (·, .start)⟩ sched
    let r := run e g u db (ps.map Proc.call)
    (∀ (i : Nat) (p : Proc) (a : Answer), s.procs[i]? = some (p, .done a) → r.2[i]? = some a) ∧
      ((∀ x ∈ s.procs, ∃ a, x.2 = .done a) →
        s.procs = ps.zipWith (fun p a => (p, .done a)) r.2 ∧ s.db.account.Perm r.1.account) := by
  intro s r
  have hs : s.OnTrack e g u db ps := onTrack_run hd he sched (onTrack_init hps)
  have hser : Sys.OnTrack e g u db ps ⟨r.1, ps.zipWith (fun p a => (p, .done a)) r.2⟩ := by
    have h : (Sys.run e g u ⟨db, ps.map (·, .start)⟩ (Sys.serial ps.length)).OnTrack e g u db ps :=
      onTrack_run hd he _ (onTrack_init hps)
    have hf := foldl_serial (e := e) (g := g) (u := u) [] db ps
    simp only [List.length_nil, List.nil_append] at hf
    rwa [run_serial_eq, hf] at h
  have hlen : r.2.length = ps.length := by rw [run_length, List.length_map]
  have hans : ∀ (i : Nat) (p : Proc) (a : Answer), s.procs[i]? = some (p, .done a) → r.2[i]? = some a := by
    intro i p a h
    have hi : ps[i]? = some p := by rw [← hs.1, List.getElem?_map, h]; rfl
    obtain ⟨hlt, -⟩ := List.getElem?_eq_some_iff.1 hi
    have hz : (ps.zipWith (fun p a => (p, Phase.done a)) r.2)[i]? = some (p, .done r.2[i]) := by
      rw [List.getElem?_zipWith, hi, List.getElem?_eq_getElem (hlen ▸ hlt)]
    rw [List.getElem?_eq_getElem (hlen ▸ hlt), answer_of_onTrack hs (List.getElem?_mem h),
      answer_of_onTrack hser (List.getElem?_mem hz)]
  refine ⟨hans, fun hall => ?_⟩
  have hprocs : s.procs = ps.zipWith (fun p a => (p, .done a)) r.2 := by
    refine List.ext_getElem? fun i => ?_
    rcases hi : s.procs[i]? with _ | ⟨p, ph⟩
    · have : ps.length ≤ i := by rw [← hs.1, List.length_map]; exact List.getElem?_eq_none_iff.1 hi
      rw [List.getElem?_eq_none (by simp [List.length_zipWith, hlen, this])]
    · obtain ⟨a, rfl⟩ := hall _ (List.getElem?_mem hi)
      have hp : ps[i]? = some p := by rw [← hs.1, List.getElem?_map, hi]; rfl
      rw [List.getElem?_zipWith, hp, hans i p a hi]
  obtain ⟨rows, hdb, hrows⟩ := hs.2.1.2
  obtain ⟨rows', hdb', hrows'⟩ := hser.2.1.2
  refine ⟨hprocs, ?_⟩
  rw [hdb, show r.1.account = db.account ++ rows' from hdb']
  exact (hrows.trans (by rw [hprocs]; exact hrows'.symm)).append_left _

theorem distinct_accounts_three_calls :
    let ps : List Proc := [.bind 1 "u1" ⟨"k", "a"⟩, .findOrInsert 2 ("u2", none) ⟨"k", "b"⟩, .insert 3 "u3" "k" "c"]
    let e := Engine.reliable true asciiFold
    let g : Globals := ⟨fun _ => none, 0⟩
    e.Reliable ∧ (∀ p ∈ ps, ∀ uid account, p ≠ .unbind uid account) ∧ (ps.map Proc.account).Nodup ∧
      let s := Sys.run e g (new 8) ⟨DB.empty, ps.map (·, .start)⟩ [2, 0, 1, 1, 0, 2]
      let r := run e g (new 8) DB.empty (ps.map Proc.call)
      (∀ (i : Nat) (p : Proc) (a : Answer), s.procs[i]? = some (p, .done a) → r.2[i]? = some a) ∧
        ((∀ x ∈ s.procs, ∃ a, x.2 = .done a) →
          s.procs = ps.zipWith (fun p a => (p, .done a)) r.2 ∧ s.db.account.Perm r.1.account) := by
  intro ps e g
  have he : e.Reliable := Engine.reliable_reliable true asciiFold
  have hps : ∀ p ∈ ps, ∀ uid account, p ≠ .unbind uid account := by simp [ps]
  have hd : (ps.map Proc.account).Nodup := by decide
  exact ⟨he, hps, hd, distinct_accounts_serializable (g := g) (u := new 8) he DB.empty ps hps hd
    [2, 0, 1, 1, 0, 2]⟩

/-! ### Calls of one account -/

/-- Every process has selected and not yet written, or has returned reporting its binding made. -/
def Sys.Committing (s : Sys) : Prop := ∀ x ∈ s.procs, x.2 = .checked ∨ x.1.committed x.2 ≠ none

theorem committing_step (he : e.Reliable) {db : DB} {s : Sys} (hk : s.Kept db) (hs : s.Committing)
    (i : Nat) : (Sys.step e g u s i).Committing := by
  unfold Sys.step
  split
  · exact hs
  · next p ph h =>
    have hmem := List.getElem?_mem h
    intro x hx
    rcases List.mem_or_eq_of_mem_set hx with hx | rfl
    · exact hs x hx
    cases ph with
    | start => exact absurd (Proc.committed_start p) ((hs _ hmem).resolve_left nofun)
    | checked => exact .inr (Proc.committed_write he (hk.1 _ hmem) s.db)
    | done a => exact hs _ hmem

theorem committing_run (he : e.Reliable) {db : DB} : ∀ (sched : List Nat) {s : Sys}, s.Kept db →
    s.Committing → (Sys.run e g u s sched).Committing
  | [], _, _, hs => hs
  | i :: sched, _, hk, hs => committing_run he sched (kept_step hk i) (committing_step he hk hs i)

end HerbCache.Sqluser
