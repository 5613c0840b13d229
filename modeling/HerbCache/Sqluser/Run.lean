import HerbCache.Sqluser.Account
import HerbCache.Sqluser.Mappers

/-!
# Runs of the sqluser mappers

A run is a list of the mapper calls that may write, each at its clock second and with the outcome
of the generator it calls (`run`). Every call is atomic (`step_unchanged_of_error`) and writes only
the rows of its user id (`password_step`, ...). Run one at a time, the calls keep one binding per
account and, when `RowsAffected` counts the rows matched, one token and one password row per user
id; what a call writes is read back after any run of calls that do not write it again.
-/

namespace HerbCache.Sqluser

open AccountMapper

/-- A call of a mapper method that may write, with the outcome of the generator it calls. -/
inductive Call
  | bind (uid : String) (account : Account)
  | unbind (uid : String) (account : Account)
  | insert (uid keyword account : String)
  | findOrInsert (gen : String × Option Err) (account : Account)
  | register (gen : String × Option Err) (account : Account)
  | passwordInsertOrUpdate (model : PasswordModel)
  | updatePassword (salt : String × Option Err) (uid password : String)
  | tokenInsertOrUpdate (uid token : String)
  | revoke (token : String × Option Err) (uid : String)
  | setStatus (uid : String) (status : Int)
  deriving DecidableEq

inductive Answer
  | err (err : Option Err)
  | registered (uid : String) (created : Bool) (err : Option Err)
  | uid (uid : String) (err : Option Err)
  | token (token : String) (err : Option Err)
  deriving DecidableEq

def Answer.error : Answer → Option Err
  | .err e | .registered _ _ e | .uid _ e | .token _ e => e

section Step

variable (e : Engine) (g : Globals) (u : User)

/-- One call, at the clock's second `now`. -/
def step (db : DB) (now : Int) : Call → DB × Answer
  | .bind uid account => let r := bind e db now uid account; (r.1, .err r.2)
  | .unbind uid account => let r := unbind e db uid account; (r.1, .err r.2)
  | .insert uid keyword account =>
    let r := insert e u g.StatusNormal db now uid keyword account; (r.1, .err r.2)
  | .findOrInsert gen account =>
    let r := findOrInsert e u g.StatusNormal db now gen account; (r.1, .registered r.2.1 r.2.2.1 r.2.2.2)
  | .register gen account => let r := register e u g.StatusNormal db now gen account; (r.1, .uid r.2.1 r.2.2)
  | .passwordInsertOrUpdate model => let r := PasswordMapper.insertOrUpdate e db model; (r.1, .err r.2)
  | .updatePassword salt uid password =>
    let r := PasswordMapper.updatePassword e g u db now salt uid password; (r.1, .err r.2)
  | .tokenInsertOrUpdate uid token => let r := TokenMapper.insertOrUpdate e db now uid token; (r.1, .err r.2)
  | .revoke token uid => let r := TokenMapper.revoke e db now token uid; (r.1, .token r.2.1 r.2.2)
  | .setStatus uid status => let r := UserMapper.setStatus e db now uid status; (r.1, .err r.2)

/-- The calls of a run, each at its second, one after another, and what they return. -/
def run (db : DB) : List (Int × Call) → DB × List Answer
  | [] => (db, [])
  | (now, c) :: cs =>
    let r := step e g u db now c
    let rs := run r.1 cs
    (rs.1, r.2 :: rs.2)

end Step

/-- The call may write password rows of user id `k`, whose user ids compare under the collation. -/
def Call.writesPassword (e : Engine) (k : String) : Call → Bool
  | .passwordInsertOrUpdate model => e.fold model.UID = e.fold k
  | .updatePassword _ uid _ => e.fold uid = e.fold k
  | _ => false

def Call.writesToken (k : String) : Call → Bool
  | .tokenInsertOrUpdate uid _ | .revoke _ uid => uid = k
  | _ => false

def Call.writesUser (u : User) (k : String) : Call → Bool
  | .insert uid _ _ => u.hasFlag flagWithUser && uid = k
  | .findOrInsert gen _ | .register gen _ => u.hasFlag flagWithUser && gen.1 = k
  | .setStatus uid _ => uid = k
  | _ => false

variable {e : Engine} {g : Globals} {u : User}

theorem run_invariant {I : DB → Prop} {P : Call → Prop}
    (hstep : ∀ db now c, P c → I db → I (step e g u db now c).1) :
    ∀ (cs : List (Int × Call)) (db : DB), (∀ p ∈ cs, P p.2) → I db → I (run e g u db cs).1
  | [], _, _, h => h
  | (now, c) :: cs, db, hcs, h =>
    run_invariant hstep cs _ (fun p hp => hcs p (List.mem_cons_of_mem _ hp))
      (hstep db now c (hcs _ (List.mem_cons_self _ _)) h)

/-! ### Atomicity -/

theorem revoke_fst_of_error {db : DB} {now : Int} {token : String × Option Err} {uid : String}
    (h : (TokenMapper.revoke e db now token uid).2.2 ≠ none) : (TokenMapper.revoke e db now token uid).1 = db := by
  obtain ⟨token, _ | err⟩ := token
  · rcases insertOrUpdate_cases e tokenTable uid (fun r => { r with Token := token, UpdatedTime := now })
      ⟨uid, token, now⟩ db with ⟨-, h'⟩ | h'
    · exact h'
    · simp [TokenMapper.revoke, TokenMapper.insertOrUpdate, h'] at h
  · rfl

/-- A call that returns an error leaves every table as it was. -/
theorem step_unchanged_of_error (db : DB) (now : Int) (c : Call) (h : (step e g u db now c).2.error ≠ none) :
    (step e g u db now c).1 = db := by
  cases c with
  | bind uid account =>
    rcases bind_cases (e := e) db now uid account with ⟨-, h'⟩ | ⟨-, h'⟩
    exacts [h', by simp [step, Answer.error, h'] at h]
  | unbind uid account =>
    rcases unbind_cases (e := e) db uid account with ⟨-, h'⟩ | h'
    exacts [h', by simp [step, Answer.error, h'] at h]
  | insert uid keyword account =>
    rcases insert_cases e u g.StatusNormal db now uid keyword account with ⟨-, h'⟩ | ⟨-, h'⟩
    exacts [h', by simp [step, Answer.error, h'] at h]
  | findOrInsert gen account =>
    rcases findOrInsert_cases e u g.StatusNormal db now gen account with ⟨-, h'⟩ | ⟨-, h'⟩ | ⟨-, h'⟩
    exacts [h', h', by simp [step, Answer.error, h'] at h]
  | register gen account =>
    rcases register_cases e u g.StatusNormal db now gen account with ⟨-, h'⟩ | ⟨-, -, h'⟩
    exacts [h', by simp [step, Answer.error, h'] at h]
  | passwordInsertOrUpdate model =>
    rcases insertOrUpdate_cases e passwordTable model.UID _ model db with ⟨-, h'⟩ | h'
    exacts [h', by simp [step, Answer.error, PasswordMapper.insertOrUpdate, h'] at h]
  | updatePassword salt uid password => exact updatePassword_fst_of_error h
  | tokenInsertOrUpdate uid token =>
    rcases insertOrUpdate_cases e tokenTable uid _ ⟨uid, token, now⟩ db with ⟨-, h'⟩ | h'
    exacts [h', by simp [step, Answer.error, TokenMapper.insertOrUpdate, h'] at h]
  | revoke token uid => exact revoke_fst_of_error h
  | setStatus uid status =>
    rcases insertOrUpdate_cases e userTable uid _ ⟨uid, now, now, status⟩ db with ⟨-, h'⟩ | h'
    exacts [h', by simp [step, Answer.error, UserMapper.setStatus, UserMapper.insertOrUpdate, h'] at h]

theorem bind_of_bound_account_unchanged :
    let db : DB := ⟨[⟨"u1", "k", "a", 0⟩], [], [], []⟩
    let r := step (Engine.reliable true asciiFold) ⟨fun _ => none, 0⟩ (new 8) db 1 (.bind "u2" ⟨"k", "a"⟩)
    r.2.error ≠ none ∧ r.1 = db := by
  intro db r
  exact ⟨by decide, step_unchanged_of_error db 1 _ (by decide)⟩

/-! ### What each call leaves -/

section Frame

variable (db : DB) (now : Int) {k : String}

theorem password_step {c : Call} (hc : c.writesPassword e k = false) :
    passwordTable.rowsOf e k (step e g u db now c).1.password = passwordTable.rowsOf e k db.password := by
  let F := fun d : DB => passwordTable.rowsOf e k d.password
  cases c with
  | bind uid account => exact (congrArg F (bind_frame db now uid account) :)
  | unbind uid account => exact (congrArg F (unbind_frame db uid account) :)
  | insert uid keyword account => exact (congrArg F (insert_frame db now uid keyword account) :)
  | findOrInsert gen account => exact (congrArg F (findOrInsert_frame db now gen account) :)
  | register gen account => exact (congrArg F (register_frame db now gen account) :)
  | passwordInsertOrUpdate model =>
    refine rowsOf_insertOrUpdate_ne (t := passwordTable) ?_ ?_ db (k := k) ?_
    exacts [fun _ => rfl, rfl, fun h => by simp [Call.writesPassword, show e.fold k = e.fold model.UID from h] at hc]
  | updatePassword salt uid password =>
    exact (updatePassword_frame db now salt uid password).2 k fun h => by
      simp [Call.writesPassword, h] at hc
  | tokenInsertOrUpdate uid token => exact (congrArg F (insertOrUpdate_frame (t := tokenTable) db) :)
  | revoke token uid => exact (congrArg F (revoke_frame db now token uid).1 :)
  | setStatus uid status => exact (congrArg F (insertOrUpdate_frame (t := userTable) db) :)

theorem token_step {c : Call} (hc : c.writesToken k = false) :
    tokenTable.rowsOf e k (step e g u db now c).1.token = tokenTable.rowsOf e k db.token := by
  let F := fun d : DB => tokenTable.rowsOf e k d.token
  cases c with
  | bind uid account => exact (congrArg F (bind_frame db now uid account) :)
  | unbind uid account => exact (congrArg F (unbind_frame db uid account) :)
  | insert uid keyword account => exact (congrArg F (insert_frame db now uid keyword account) :)
  | findOrInsert gen account => exact (congrArg F (findOrInsert_frame db now gen account) :)
  | register gen account => exact (congrArg F (register_frame db now gen account) :)
  | passwordInsertOrUpdate model => exact (congrArg F (insertOrUpdate_frame (t := passwordTable) db) :)
  | updatePassword salt uid password => exact (congrArg F (updatePassword_frame db now salt uid password).1 :)
  | tokenInsertOrUpdate uid token =>
    refine rowsOf_insertOrUpdate_ne (t := tokenTable) ?_ ?_ db (k := k) ?_
    exacts [fun _ => rfl, rfl, fun h => by simp [Call.writesToken, show k = uid from h] at hc]
  | revoke token uid => exact (revoke_frame db now token uid).2 k fun h => by simp [Call.writesToken, h] at hc
  | setStatus uid status => exact (congrArg F (insertOrUpdate_frame (t := userTable) db) :)

theorem registered_user_rowsOf {statusNormal now : Int} {uid keyword account : String}
    (hc : (u.hasFlag flagWithUser && decide (uid = k)) = false) :
    userTable.rowsOf e k (registered u statusNormal now uid keyword account db).user =
      userTable.rowsOf e k db.user := by
  rw [registered_eq]
  dsimp only
  rw [Table.rowsOf, Table.rowsOf, List.filter_append]
  split_ifs with hflag
  · simp only [hflag, Bool.true_and, decide_eq_false_iff_not] at hc
    simp [hc]
  · simp

theorem user_step {c : Call} (hc : c.writesUser u k = false) :
    userTable.rowsOf e k (step e g u db now c).1.user = userTable.rowsOf e k db.user := by
  let F := fun d : DB => userTable.rowsOf e k d.user
  cases c with
  | bind uid account => exact (congrArg F (bind_frame db now uid account) :)
  | unbind uid account => exact (congrArg F (unbind_frame db uid account) :)
  | insert uid keyword account =>
    rcases insert_cases e u g.StatusNormal db now uid keyword account with ⟨-, h⟩ | ⟨-, h⟩
    exacts [(congrArg F h :), (congrArg F (congrArg Prod.fst h) :).trans (registered_user_rowsOf db hc)]
  | findOrInsert gen account =>
    rcases findOrInsert_cases e u g.StatusNormal db now gen account with ⟨-, h⟩ | ⟨-, h⟩ | ⟨-, h⟩
    exacts [(congrArg F h :), (congrArg F h :),
      (congrArg F (congrArg Prod.fst h) :).trans (registered_user_rowsOf db hc)]
  | register gen account =>
    rcases register_cases e u g.StatusNormal db now gen account with ⟨-, h⟩ | ⟨-, -, h⟩
    exacts [(congrArg F h :), (congrArg F (congrArg Prod.fst h) :).trans (registered_user_rowsOf db hc)]
  | passwordInsertOrUpdate model => exact (congrArg F (insertOrUpdate_frame (t := passwordTable) db) :)
  | updatePassword salt uid password => exact (congrArg F (updatePassword_frame db now salt uid password).1 :)
  | tokenInsertOrUpdate uid token => exact (congrArg F (insertOrUpdate_frame (t := tokenTable) db) :)
  | revoke token uid => exact (congrArg F (revoke_frame db now token uid).1 :)
  | setStatus uid status =>
    refine rowsOf_insertOrUpdate_ne (t := userTable) ?_ ?_ db (k := k) ?_
    exacts [fun _ => rfl, rfl, fun h => by simp [Call.writesUser, show k = uid from h] at hc]

def Call.writesAccount : Call → Bool
  | .bind .. | .unbind .. | .insert .. | .findOrInsert .. | .register .. => true
  | _ => false

theorem account_step {c : Call} (hc : c.writesAccount = false) : (step e g u db now c).1.account = db.account := by
  cases c with
  | passwordInsertOrUpdate model => exact (congrArg DB.account (insertOrUpdate_frame (t := passwordTable) db) :)
  | updatePassword salt uid password => exact (congrArg DB.account (updatePassword_frame db now salt uid password).1 :)
  | tokenInsertOrUpdate uid token => exact (congrArg DB.account (insertOrUpdate_frame (t := tokenTable) db) :)
  | revoke token uid => exact (congrArg DB.account (revoke_frame db now token uid).1 :)
  | setStatus uid status => exact (congrArg DB.account (insertOrUpdate_frame (t := userTable) db) :)
  | _ => cases hc

end Frame

/-! ### One binding per account, one row per user id -/

theorem bindingsUnique_of_account_eq {db db' : DB} (h : db'.account = db.account) (hu : BindingsUnique db) :
    BindingsUnique db' := by
  unfold BindingsUnique
  rwa [h]

/-- Run one at a time, the calls keep every account bound to at most one user id. -/
theorem bindings_unique_run (cs : List (Int × Call)) {db : DB} (h : BindingsUnique db) :
    BindingsUnique (run e g u db cs).1 := by
  refine run_invariant (P := fun _ => True) (fun db now c _ h => ?_) cs db (fun _ _ => trivial) h
  cases c with
  | bind uid account => exact bindings_unique_bind h now uid account
  | unbind uid account => exact bindings_unique_unbind h uid account
  | insert uid keyword account => exact bindings_unique_insert h now uid keyword account
  | findOrInsert gen account => exact bindings_unique_findOrInsert h now gen account
  | register gen account => exact bindings_unique_register h now gen account
  | _ => exact bindingsUnique_of_account_eq (account_step db now rfl) h

theorem bindings_unique_after_binds :
    BindingsUnique DB.empty ∧
      BindingsUnique (run (Engine.reliable true asciiFold) ⟨fun _ => none, 0⟩ (new 8) DB.empty
        [(1, .bind "u1" ⟨"k", "a"⟩), (2, .bind "u2" ⟨"k", "a"⟩), (3, .register ("u3", none) ⟨"k", "a"⟩)]).1 :=
  ⟨List.nodup_nil, bindings_unique_run _ List.nodup_nil⟩

section Unique

variable (hf : e.foundRows = true) (db : DB) (now : Int)
include hf

theorem uidsUnique_token_step (c : Call) (h : UidsUnique tokenTable db) :
    UidsUnique tokenTable (step e g u db now c).1 := by
  cases c with
  | tokenInsertOrUpdate uid token =>
    refine uidsUnique_insertOrUpdate (t := tokenTable) ?_ hf ?_ h
    exacts [fun _ => rfl, rfl]
  | revoke token uid =>
    obtain ⟨token, _ | err⟩ := token
    · refine uidsUnique_insertOrUpdate (t := tokenTable) ?_ hf ?_ h
      exacts [fun _ => rfl, rfl]
    · exact h
  | _ => exact uidsUnique_of_rowsOf (fun k => token_step db now rfl) h

theorem uidsUnique_password_step (c : Call) (h : UidsUnique passwordTable db) :
    UidsUnique passwordTable (step e g u db now c).1 := by
  cases c with
  | passwordInsertOrUpdate model =>
    refine uidsUnique_insertOrUpdate (t := passwordTable) ?_ hf ?_ h
    exacts [fun _ => rfl, rfl]
  | updatePassword salt uid password =>
    show UidsUnique passwordTable (PasswordMapper.updatePassword e g u db now salt uid password).1
    by_cases hs : (PasswordMapper.updatePassword e g u db now salt uid password).2 = none
    · obtain ⟨hash, hashed, -, -, heq⟩ := updatePassword_cases hs
      rw [heq]
      refine uidsUnique_insertOrUpdate (t := passwordTable) ?_ hf ?_ h
      exacts [fun _ => rfl, rfl]
    · rwa [updatePassword_fst_of_error hs]
  | _ => exact uidsUnique_of_rowsOf (fun k => password_step db now rfl) h

end Unique

/-- When `RowsAffected` counts rows matched, the calls keep one token and password row per id. -/
theorem uidsUnique_run (hf : e.foundRows = true) (cs : List (Int × Call)) {db : DB}
    (h : UidsUnique tokenTable db ∧ UidsUnique passwordTable db) :
    UidsUnique tokenTable (run e g u db cs).1 ∧ UidsUnique passwordTable (run e g u db cs).1 :=
  run_invariant (I := fun db => UidsUnique tokenTable db ∧ UidsUnique passwordTable db) (P := fun _ => True)
    (fun db now c _ h => ⟨uidsUnique_token_step hf db now c h.1, uidsUnique_password_step hf db now c h.2⟩)
    cs db (fun _ _ => trivial) h

theorem uids_unique_after_revokes :
    (Engine.reliable true asciiFold).foundRows = true ∧ (UidsUnique tokenTable DB.empty ∧ UidsUnique passwordTable DB.empty) ∧
      let db := (run (Engine.reliable true asciiFold) ⟨fun _ => none, 0⟩ (new 4) DB.empty
        [(1, .revoke ("t1", none) "u"), (1, .revoke ("t1", none) "u"), (2, .tokenInsertOrUpdate "u" "t2")]).1
      UidsUnique tokenTable db ∧ UidsUnique passwordTable db :=
  ⟨rfl, ⟨List.nodup_nil, List.nodup_nil⟩, uidsUnique_run rfl _ ⟨List.nodup_nil, List.nodup_nil⟩⟩

/-! ### Reading back what a call wrote -/

/-- The account is bound, and only to `uid`. -/
def BoundTo (uid : String) (account : Account) (rows : List AccountModel) : Prop :=
  (∃ r ∈ rows, r.binds account.Keyword account.Account) ∧
    ∀ r ∈ rows, r.binds account.Keyword account.Account → r.UID = uid

section Bound

variable {uid : String} {account : Account}

theorem boundTo_append {rows : List AccountModel} (h : BoundTo uid account rows) {r : AccountModel}
    (hr : ∀ r' ∈ rows, r'.binds r.Keyword r.Account = false) : BoundTo uid account (rows ++ [r]) := by
  obtain ⟨⟨r₀, hr₀, hb₀⟩, hall⟩ := h
  refine ⟨⟨r₀, List.mem_append_left _ hr₀, hb₀⟩, fun r' hr' hb => ?_⟩
  rcases List.mem_append.1 hr' with hr' | hr'
  · exact hall r' hr' hb
  · rw [List.mem_singleton] at hr'
    subst hr'
    rw [AccountModel.binds_eq_true] at hb hb₀
    have := hr r₀ hr₀
    simp [AccountModel.binds, hb₀.1, hb₀.2, hb.1, hb.2] at this

theorem boundTo_delete {rows : List AccountModel} (h : BoundTo uid account rows) {uid' : String}
    {account' : Account} (hc : ¬(uid' = uid ∧ account' = account)) :
    BoundTo uid account (rows.filter fun r =>
      !decide (r.UID = uid' ∧ r.Keyword = account'.Keyword ∧ r.Account = account'.Account)) := by
  obtain ⟨⟨r₀, hr₀, hb₀⟩, hall⟩ := h
  refine ⟨⟨r₀, List.mem_filter.2 ⟨hr₀, ?_⟩, hb₀⟩, fun r hr hb => hall r (List.mem_filter.1 hr).1 hb⟩
  have hu := hall r₀ hr₀ hb₀
  rw [AccountModel.binds_eq_true] at hb₀
  simp only [Bool.not_eq_true', decide_eq_false_iff_not]
  rintro ⟨h₁, h₂, h₃⟩
  obtain ⟨k', a'⟩ := account'
  exact hc ⟨h₁.symm.trans hu, by rw [Account.mk.injEq]; exact ⟨h₂.symm.trans hb₀.1, h₃.symm.trans hb₀.2⟩⟩

/-- A call other than `Unbind` of the binding keeps an account bound to `uid` alone. -/
theorem boundTo_step (db : DB) (now : Int) {c : Call} (hc : c ≠ .unbind uid account)
    (h : BoundTo uid account db.account) : BoundTo uid account (step e g u db now c).1.account := by
  cases c with
  | bind uid' account' =>
    show BoundTo uid account (bind e db now uid' account').1.account
    rcases bind_cases (e := e) db now uid' account' with ⟨-, h'⟩ | ⟨hl, h'⟩ <;> rw [h']
    · exact h
    · exact boundTo_append h (lookup_eq_ok_none hl)
  | unbind uid' account' =>
    show BoundTo uid account (unbind e db uid' account').1.account
    rcases unbind_cases (e := e) db uid' account' with ⟨-, h'⟩ | h' <;> rw [h']
    · exact h
    · exact boundTo_delete h fun ⟨h₁, h₂⟩ => hc (h₁ ▸ h₂ ▸ rfl)
  | insert uid' keyword account' =>
    show BoundTo uid account (insert e u g.StatusNormal db now uid' keyword account').1.account
    rcases insert_cases e u g.StatusNormal db now uid' keyword account' with
      ⟨-, h'⟩ | ⟨hl, h'⟩ <;> rw [h']
    · exact h
    · rw [registered_account]
      exact boundTo_append h (lookup_eq_ok_none hl)
  | findOrInsert gen account' =>
    show BoundTo uid account (findOrInsert e u g.StatusNormal db now gen account').1.account
    rcases findOrInsert_cases e u g.StatusNormal db now gen account' with
      ⟨-, h'⟩ | ⟨-, h'⟩ | ⟨hl, h'⟩
    · rwa [h']
    · rwa [h']
    · rw [h', registered_account]
      exact boundTo_append h (lookup_eq_ok_none hl)
  | register gen account' =>
    show BoundTo uid account (register e u g.StatusNormal db now gen account').1.account
    rcases register_cases e u g.StatusNormal db now gen account' with
      ⟨-, h'⟩ | ⟨-, hl, h'⟩ <;> rw [h']
    · exact h
    · rw [registered_account]
      exact boundTo_append h (lookup_eq_ok_none hl)
  | _ =>
    refine (congrArg (BoundTo uid account) (account_step db now ?_)).mpr h
    rfl

theorem accountToUID_of_boundTo {db : DB} (h : BoundTo uid account db.account) (hq : e.queryErr db = none) :
    accountToUID e db account = if account.Keyword = "" ∨ account.Account = "" then ("", none) else (uid, none) := by
  obtain ⟨⟨r₀, hr₀, hb₀⟩, hall⟩ := h
  obtain ⟨r, hr⟩ : ∃ r, db.account.find? (AccountModel.binds account.Keyword account.Account) = some r := by
    rcases hf : db.account.find? (AccountModel.binds account.Keyword account.Account) with _ | r
    · exact absurd hb₀ (List.find?_eq_none.1 hf r₀ hr₀)
    · exact ⟨r, rfl⟩
  have hu := hall r (List.mem_of_find?_eq_some hr) (List.find?_some hr)
  unfold accountToUID find
  split_ifs
  · rfl
  · simp [Engine.queryRow, hq, hr, hu]

/-- After `Bind` returns nil, `AccountToUID` answers the user id until the account is unbound. -/
theorem accountToUID_after_bind {db : DB} {now : Int} (h : (step e g u db now (.bind uid account)).2.error = none)
    (cs : List (Int × Call)) (hcs : ∀ p ∈ cs, p.2 ≠ .unbind uid account)
    (hq : e.queryErr (run e g u (step e g u db now (.bind uid account)).1 cs).1 = none) :
    accountToUID e (run e g u (step e g u db now (.bind uid account)).1 cs).1 account =
      if account.Keyword = "" ∨ account.Account = "" then ("", none) else (uid, none) := by
  refine accountToUID_of_boundTo (run_invariant (I := fun d => BoundTo uid account d.account)
    (P := fun c => c ≠ .unbind uid account) (fun db now c hc h => boundTo_step db now hc h) cs _ hcs ?_) hq
  show BoundTo uid account (bind e db now uid account).1.account
  rcases bind_cases (e := e) db now uid account with ⟨hne, -⟩ | ⟨hl, h'⟩
  · exact absurd h hne
  · rw [h']
    refine ⟨⟨_, List.mem_append_right _ (List.mem_singleton_self _), by simp [AccountModel.binding]⟩, fun r hr hb => ?_⟩
    rcases List.mem_append.1 hr with hr | hr
    · rw [lookup_eq_ok_none hl r hr] at hb; cases hb
    · rw [List.mem_singleton.1 hr]; rfl

theorem accountToUID_after_bind_and_unbind :
    let e := Engine.reliable true asciiFold
    let g : Globals := ⟨fun _ => none, 0⟩
    let r := step e g (new 8) DB.empty 1 (.bind "u" ⟨"k", "a"⟩)
    let cs : List (Int × Call) := [(2, .bind "v" ⟨"k", "b"⟩), (3, .unbind "v" ⟨"k", "a"⟩)]
    r.2.error = none ∧ (∀ p ∈ cs, p.2 ≠ .unbind "u" ⟨"k", "a"⟩) ∧ e.queryErr (run e g (new 8) r.1 cs).1 = none ∧
      accountToUID e (run e g (new 8) r.1 cs).1 ⟨"k", "a"⟩ = ("u", none) := by
  intro e g r cs
  have h : r.2.error = none := rfl
  exact ⟨h, by decide, rfl, (accountToUID_after_bind h cs (by decide) rfl).trans (by decide)⟩

end Bound

/-- After `UpdatePassword` returns nil, `VerifyPassword` accepts the password until rewritten. -/
theorem verifyPassword_after_updatePassword {db : DB} {now : Int} {salt : String × Option Err}
    {uid password : String} (h : (step e g u db now (.updatePassword salt uid password)).2.error = none)
    (cs : List (Int × Call)) (hcs : ∀ p ∈ cs, p.2.writesPassword e uid = false)
    (hq : e.queryErr (run e g u (step e g u db now (.updatePassword salt uid password)).1 cs).1 = none) :
    PasswordMapper.verifyPassword e g u (run e g u (step e g u db now (.updatePassword salt uid password)).1 cs).1
      uid password = if uid = "" then (false, some .userNotFound) else (true, none) := by
  split_ifs with huid
  · subst huid
    exact verifyPassword_empty _ _
  · exact verifyPassword_of_holds (run_invariant (I := Holds e passwordTable uid (Accepts g u.PasswordKey password))
      (P := fun c => c.writesPassword e uid = false) (fun db now c hc hh => Holds.of_rowsOf_eq (password_step db now hc) hh)
      cs _ hcs (holds_updatePassword h)) huid hq

theorem verifyPassword_after_updatePassword_and_others :
    let e := Engine.reliable true asciiFold
    let g : Globals := ⟨defaultHashFuncMap fun _ salt password => .ok [(salt ++ password).length.toUInt8], 0⟩
    let r := step e g (new 2) DB.empty 1 (.updatePassword ("s", none) "u" "pw")
    let cs : List (Int × Call) := [(2, .setStatus "u" 0), (3, .updatePassword ("t", none) "v" "qw")]
    r.2.error = none ∧ (∀ p ∈ cs, p.2.writesPassword e "u" = false) ∧ e.queryErr (run e g (new 2) r.1 cs).1 = none ∧
      PasswordMapper.verifyPassword e g (new 2) (run e g (new 2) r.1 cs).1 "u" "pw" = (true, none) := by
  intro e g r cs
  have h : r.2.error = none := rfl
  exact ⟨h, by decide, rfl, (verifyPassword_after_updatePassword h cs (by decide) rfl).trans (by decide)⟩

/-- After `Revoke` returns a token, `Tokens` maps the user to it until rewritten. -/
theorem tokens_after_revoke {db : DB} {now : Int} {token : String × Option Err} {uid : String}
    (h : (step e g u db now (.revoke token uid)).2.error = none) (cs : List (Int × Call))
    (hcs : ∀ p ∈ cs, p.2.writesToken uid = false) {uids : List String} (hk : uid ∈ uids) {m : Tokens}
    (hm : TokenMapper.tokens e (run e g u (step e g u db now (.revoke token uid)).1 cs).1 uids = .ok m) :
    (step e g u db now (.revoke token uid)).2 = .token token.1 none ∧ m.lookup uid = some token.1 := by
  obtain ⟨token, _ | err⟩ := token
  · have h' : (TokenMapper.insertOrUpdate e db now uid token).2 = none := h
    refine ⟨by simp only [step, TokenMapper.revoke, h'], lookup_tokens hm hk ?_⟩
    refine run_invariant (I := Holds e tokenTable uid fun r => r.Token = token) (P := fun c => c.writesToken uid = false)
      (fun db now c hc hh => Holds.of_rowsOf_eq (token_step db now hc) hh) cs _ hcs ?_
    refine holds_insertOrUpdate (t := tokenTable) (P := fun r => r.Token = token) ?_ ?_ ?_ h'
    exacts [fun _ => rfl, fun _ => rfl, ⟨rfl, rfl⟩]
  · cases h

theorem tokens_after_revoke_and_others :
    let e := Engine.reliable true asciiFold
    let g : Globals := ⟨fun _ => none, 0⟩
    let r := step e g (new 4) DB.empty 1 (.revoke ("t", none) "u")
    let cs : List (Int × Call) := [(2, .setStatus "u" 0), (3, .revoke ("w", none) "v")]
    let m := collect TokenModel.UID TokenModel.Token [⟨"u", "t", 0⟩, ⟨"v", "w", 0⟩] ∅
    r.2.error = none ∧ (∀ p ∈ cs, p.2.writesToken "u" = false) ∧ "u" ∈ ["u", "v"] ∧
      TokenMapper.tokens e (run e g (new 4) r.1 cs).1 ["u", "v"] = .ok m ∧
      r.2 = .token "t" none ∧ m.lookup "u" = some "t" := by
  intro e g r cs m
  have h : r.2.error = none := rfl
  have hk : "u" ∈ ["u", "v"] := by decide
  have hm : TokenMapper.tokens e (run e g (new 4) r.1 cs).1 ["u", "v"] = .ok m := by
    have hL : TokenMapper.findAllByUID e (run e g (new 4) r.1 cs).1 ["u", "v"] =
        .ok [⟨"u", "t", 0⟩, ⟨"v", "w", 0⟩] := by decide
    rw [TokenMapper.tokens, hL]
    rfl
  exact ⟨h, by decide, hk, hm, tokens_after_revoke h cs (by decide) hk hm⟩

/-- After `SetStatus` returns nil, `Statuses` maps the user to it until rewritten. -/
theorem statuses_after_setStatus {db : DB} {now : Int} {uid : String} {status : Int}
    (h : (step e g u db now (.setStatus uid status)).2.error = none) (cs : List (Int × Call))
    (hcs : ∀ p ∈ cs, p.2.writesUser u uid = false) {uids : List String} (hk : uid ∈ uids) {m : StatusMap}
    (hm : UserMapper.statuses e (run e g u (step e g u db now (.setStatus uid status)).1 cs).1 uids = .ok m) :
    m.lookup uid = some status := by
  refine lookup_statuses hm hk ?_
  refine run_invariant (I := Holds e userTable uid fun r => r.Status = status) (P := fun c => c.writesUser u uid = false)
    (fun db now c hc hh => Holds.of_rowsOf_eq (user_step db now hc) hh) cs _ hcs ?_
  refine holds_insertOrUpdate (t := userTable) (P := fun r => r.Status = status) ?_ ?_ ?_ h
  exacts [fun _ => rfl, fun _ => rfl, ⟨rfl, rfl⟩]

theorem statuses_after_setStatus_and_others :
    let e := Engine.reliable true asciiFold
    let g : Globals := ⟨fun _ => none, 0⟩
    let r := step e g (new 0) DB.empty 1 (.setStatus "u" 2)
    let cs : List (Int × Call) := [(2, .revoke ("t", none) "u"), (3, .setStatus "v" 1)]
    let m := collect UserModel.UID UserModel.Status [⟨"u", 0, 0, 2⟩, ⟨"v", 0, 0, 1⟩] ∅
    r.2.error = none ∧ (∀ p ∈ cs, p.2.writesUser (new 0) "u" = false) ∧ "u" ∈ ["u", "v"] ∧
      UserMapper.statuses e (run e g (new 0) r.1 cs).1 ["u", "v"] = .ok m ∧ m.lookup "u" = some 2 := by
  intro e g r cs m
  have h : r.2.error = none := rfl
  have hk : "u" ∈ ["u", "v"] := by decide
  have hm : UserMapper.statuses e (run e g (new 0) r.1 cs).1 ["u", "v"] = .ok m := by
    have hL : UserMapper.findAllByUID e (run e g (new 0) r.1 cs).1 ["u", "v"] =
        .ok [⟨"u", 0, 0, 2⟩, ⟨"v", 0, 0, 1⟩] := by decide
    rw [UserMapper.statuses, hL]
    rfl
  exact ⟨h, by decide, hk, hm, statuses_after_setStatus h cs (by decide) hk hm⟩

end HerbCache.Sqluser
