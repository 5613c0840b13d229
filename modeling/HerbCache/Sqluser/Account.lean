import HerbCache.Sqluser.Tables

/-!
# sqluser: the account mapper

`AccountMapper` binds accounts to user ids. `Bind`, `Insert` and `FindOrInsert` each select the
row binding the account outside their transaction and insert a binding only if there is none;
each is split where it stops reading and starts writing (`bindCheck` and `bindWrite`, ...), so
that `Race` can interleave the halves of different calls. Run one at a time, the calls keep every
account bound to at most one user id (`bindings_unique_bind`, ...), and `Accounts` groups the rows
of the user ids asked (`lookup_accounts`).
-/

namespace HerbCache.Sqluser

/-- The condition `keyword = ? AND account = ?` of the account table's selects. -/
def AccountModel.binds (keyword account : String) (r : AccountModel) : Bool :=
  decide (r.Keyword = keyword ∧ r.Account = account)

@[simp] theorem AccountModel.binds_eq_true {keyword account : String} {r : AccountModel} :
    r.binds keyword account = true ↔ r.Keyword = keyword ∧ r.Account = account := by
  simp [AccountModel.binds]

def AccountModel.binding (uid keyword account : String) (now : Int) : AccountModel :=
  ⟨uid, keyword, account, now⟩

abbrev Accounts := AList fun _ : String => List Account

namespace AccountMapper

variable (e : Engine)

/-- `Begin`, and the select of the account's binding through `DB()`. -/
def lookup (db : DB) (keyword account : String) : Except Err (Option AccountModel) :=
  match e.beginErr db with
  | some err => .error err
  | none => e.queryRow db db.account (AccountModel.binds keyword account)

/-- What `Bind` and `Insert` make of the select: its error, `bound`, or no error. -/
def checkUnbound (bound : Err) (db : DB) (keyword account : String) : Option Err :=
  match lookup e db keyword account with
  | .error err => some err
  | .ok (some _) => some bound
  | .ok none => none

/-- `Bind` up to its insert. -/
def bindCheck (db : DB) (account : Account) : Option Err :=
  checkUnbound e .accountBindingExists db account.Keyword account.Account

/-- `Bind` from its insert on: the binding created at `now`, and `Commit`. -/
def bindWrite (now : Int) (uid : String) (account : Account) (db : DB) : DB × Option Err :=
  e.finish db (e.exec db (db.insertAccount (.binding uid account.Keyword account.Account now)))

def bind (db : DB) (now : Int) (uid : String) (account : Account) : DB × Option Err :=
  match bindCheck e db account with
  | some err => (db, some err)
  | none => bindWrite e now uid account db

def bindAccount (db : DB) (now : Int) (uid : String) (account : Account) : DB × Option Err :=
  bind e db now uid account

/-- `Unbind` after its `Begin`: the delete of the binding, and `Commit`. -/
def unbindWrite (uid : String) (account : Account) (db : DB) : DB × Option Err :=
  e.finish db (e.exec db (db.deleteAccount uid account.Keyword account.Account))

def unbind (db : DB) (uid : String) (account : Account) : DB × Option Err :=
  match e.beginErr db with
  | some err => (db, some err)
  | none => unbindWrite e uid account db

def unbindAccount (db : DB) (uid : String) (account : Account) : DB × Option Err :=
  unbind e db uid account

variable (u : User) (statusNormal : Int)

/-- The statements of `Insert` and `FindOrInsert` after their select. -/
def insertRows (now : Int) (uid keyword account : String) (db : DB) : Except Err DB := do
  let tx ← e.exec db (db.insertAccount (.binding uid keyword account now))
  if u.hasFlag flagWithUser then e.exec tx (tx.insertUser ⟨uid, now, now, statusNormal⟩) else pure tx

def insertCheck (db : DB) (keyword account : String) : Option Err :=
  checkUnbound e .accountRegisterExists db keyword account

def insertWrite (now : Int) (uid keyword account : String) (db : DB) : DB × Option Err :=
  e.finish db (insertRows e u statusNormal now uid keyword account db)

def insert (db : DB) (now : Int) (uid keyword account : String) : DB × Option Err :=
  match insertCheck e db keyword account with
  | some err => (db, some err)
  | none => insertWrite e u statusNormal now uid keyword account db

/-- `FindOrInsert` from its first statement on, with the user id `uid` the generator returned. -/
def findOrInsertWrite (now : Int) (uid : String) (account : Account) (db : DB) :
    DB × (String × Bool × Option Err) :=
  match insertRows e u statusNormal now uid account.Keyword account.Account db with
  | .error err => (db, "", false, some err)
  | .ok tx => let r := e.commit db tx; (r.1, uid, true, r.2)

/-- `FindOrInsert`, with `gen` the outcome of `UIDGenerater()`. -/
def findOrInsert (db : DB) (now : Int) (gen : String × Option Err) (account : Account) :
    DB × (String × Bool × Option Err) :=
  match lookup e db account.Keyword account.Account with
  | .error err => (db, "", false, some err)
  | .ok (some result) => (db, result.UID, false, none)
  | .ok none => findOrInsertWrite e u statusNormal now gen.1 account db

/-- `AccountToUIDOrRegister`, with `gen` the outcome of the user's `UIDGenerater`. -/
def accountToUIDOrRegister (db : DB) (now : Int) (gen : String × Option Err) (account : Account) :
    DB × (String × Bool × Option Err) :=
  findOrInsert e u statusNormal db now gen account

def register (db : DB) (now : Int) (gen : String × Option Err) (account : Account) :
    DB × String × Option Err :=
  match gen with
  | (uid, some err) => (db, uid, some err)
  | (uid, none) =>
    let r := insert e u statusNormal db now uid account.Keyword account.Account
    (r.1, uid, r.2)

def zero : AccountModel := ⟨"", "", "", 0⟩

def find (db : DB) (keyword account : String) : AccountModel × Option Err :=
  if keyword = "" ∨ account = "" then (zero, some .noRows)
  else match e.queryRow db db.account (AccountModel.binds keyword account) with
    | .error err => (zero, some err)
    | .ok none => (zero, some .noRows)
    | .ok (some r) => (r, none)

def findAllByUID (db : DB) (uids : List String) : Except Err (List AccountModel) :=
  e.selectByUID db db.account AccountModel.UID (fun r => ⟨r.UID, r.Keyword, r.Account, 0⟩) uids

/-- The loop of `Accounts`: each row's account appended to its user id's. -/
def groupAccounts (models : List AccountModel) (result : Accounts) : Accounts :=
  models.foldl (fun result v => result.insert v.UID ((result.lookup v.UID).getD [] ++ [⟨v.Keyword, v.Account⟩]))
    result

def accounts (db : DB) (uids : List String) : Except Err Accounts :=
  (findAllByUID e db uids).map fun models => groupAccounts models ∅

/-- `AccountToUID`: `""` with no error for an account `Find` does not find. -/
def accountToUID (db : DB) (account : Account) : String × Option Err :=
  let (model, err) := find e db account.Keyword account.Account
  if err = some .noRows then ("", none) else (model.UID, err)

/-! ### What each call writes -/

/-- `Insert` and `FindOrInsert`'s statements as a function of the tables. -/
def registered (now : Int) (uid keyword account : String) (db : DB) : DB :=
  let tx := db.insertAccount (.binding uid keyword account now)
  if u.hasFlag flagWithUser then tx.insertUser ⟨uid, now, now, statusNormal⟩ else tx

@[simp] theorem registered_account (now : Int) (uid keyword account : String) (db : DB) :
    (registered u statusNormal now uid keyword account db).account =
      db.account ++ [.binding uid keyword account now] := by
  unfold registered; split <;> rfl

variable {e u statusNormal}

theorem registered_eq (now : Int) (uid keyword account : String) (db : DB) :
    registered u statusNormal now uid keyword account db =
      { db with
        account := db.account ++ [.binding uid keyword account now]
        user := db.user ++ if u.hasFlag flagWithUser then [⟨uid, now, now, statusNormal⟩] else [] } := by
  unfold registered; split <;> simp [*, DB.insertAccount, DB.insertUser]

theorem insertRows_eq_ok {now : Int} {uid keyword account : String} {db tx : DB}
    (h : insertRows e u statusNormal now uid keyword account db = .ok tx) :
    tx = registered u statusNormal now uid keyword account db := by
  unfold insertRows at h
  rcases hx : e.exec db (db.insertAccount (.binding uid keyword account now)) with err | tx₁ <;>
    rw [hx] at h
  · cases h
  · obtain ⟨rfl, -⟩ := e.exec_eq_ok hx
    unfold registered
    split at h
    · rw [if_pos ‹_›]; exact (e.exec_eq_ok h).1
    · rw [if_neg ‹_›]; cases h; rfl

theorem insertRows_of_reliable (he : e.Reliable) (now : Int) (uid keyword account : String) (db : DB) :
    insertRows e u statusNormal now uid keyword account db = .ok (registered u statusNormal now uid keyword account db) := by
  simp only [insertRows, registered, Engine.exec_of_reliable he, bind, Except.bind]
  split <;> rfl

variable (e u statusNormal) in
theorem finish_insertRows_cases (now : Int) (uid keyword account : String) (db : DB) :
    let r := e.finish db (insertRows e u statusNormal now uid keyword account db)
    (r.2 ≠ none ∧ r.1 = db) ∨ r = (registered u statusNormal now uid keyword account db, none) := by
  rcases e.finish_cases db (insertRows e u statusNormal now uid keyword account db) with h | ⟨tx, hx, h⟩
  · exact .inl h
  · rw [← insertRows_eq_ok hx]
    exact .inr h

theorem lookup_eq_ok_none {db : DB} {keyword account : String} (h : lookup e db keyword account = .ok none) :
    ∀ r ∈ db.account, r.binds keyword account = false := by
  unfold lookup Engine.queryRow at h
  split at h
  · cases h
  · split at h
    · cases h
    · exact fun r hr => Bool.eq_false_iff.2 (List.find?_eq_none.1 (Except.ok.inj h) r hr)

theorem lookup_of_reliable (he : e.Reliable) (db : DB) (keyword account : String) :
    lookup e db keyword account = .ok (db.account.find? (AccountModel.binds keyword account)) := by
  simp only [lookup, he.1, Engine.queryRow_of_reliable he]

theorem checkUnbound_eq_none {bound : Err} {db : DB} {keyword account : String}
    (h : checkUnbound e bound db keyword account = none) : lookup e db keyword account = .ok none := by
  unfold checkUnbound at h
  split at h <;> first | assumption | cases h

/-- `Bind` fails and leaves the tables, or binds the account, which was unbound. -/
theorem bind_cases (db : DB) (now : Int) (uid : String) (account : Account) :
    let r := bind e db now uid account
    (r.2 ≠ none ∧ r.1 = db) ∨
      (lookup e db account.Keyword account.Account = .ok none ∧
        r = (db.insertAccount (.binding uid account.Keyword account.Account now), none)) := by
  unfold bind
  split
  · exact .inl ⟨by simp, rfl⟩
  · rcases e.finish_exec_cases db db (db.insertAccount (.binding uid account.Keyword account.Account now))
      with h | h
    · exact .inl h
    · exact .inr ⟨checkUnbound_eq_none ‹_›, h⟩

variable (e u statusNormal) in
theorem insert_cases (db : DB) (now : Int) (uid keyword account : String) :
    let r := insert e u statusNormal db now uid keyword account
    (r.2 ≠ none ∧ r.1 = db) ∨
      (lookup e db keyword account = .ok none ∧ r = (registered u statusNormal now uid keyword account db, none)) := by
  unfold insert
  split
  · exact .inl ⟨by simp, rfl⟩
  · rcases finish_insertRows_cases e u statusNormal now uid keyword account db
      with h | h
    · exact .inl h
    · exact .inr ⟨checkUnbound_eq_none ‹_›, h⟩

variable (e u statusNormal) in
theorem findOrInsertWrite_cases (now : Int) (uid : String) (account : Account) (db : DB) :
    let r := findOrInsertWrite e u statusNormal now uid account db
    (r.2.2.2 ≠ none ∧ r.1 = db) ∨
      r = (registered u statusNormal now uid account.Keyword account.Account db, uid, true, none) := by
  unfold findOrInsertWrite
  split
  · exact .inl ⟨by simp, rfl⟩
  · next tx h =>
    rw [insertRows_eq_ok h]
    rcases e.commit_cases db (registered u statusNormal now uid account.Keyword account.Account db) with
      ⟨err, hc⟩ | hc
    · exact .inl ⟨by simp [hc], by simp [hc]⟩
    · exact .inr (by simp [hc])

variable (e u statusNormal) in
/-- `FindOrInsert` fails and leaves the tables, finds the binding, or binds a new user id. -/
theorem findOrInsert_cases (db : DB) (now : Int) (gen : String × Option Err) (account : Account) :
    let r := findOrInsert e u statusNormal db now gen account
    (r.2.2.2 ≠ none ∧ r.1 = db) ∨ (r.2.2 = (false, none) ∧ r.1 = db) ∨
      (lookup e db account.Keyword account.Account = .ok none ∧
        r = (registered u statusNormal now gen.1 account.Keyword account.Account db, gen.1, true, none)) := by
  unfold findOrInsert
  split
  · exact .inl ⟨by simp, rfl⟩
  · exact .inr (.inl ⟨rfl, rfl⟩)
  · next hl =>
    rcases findOrInsertWrite_cases e u statusNormal now gen.1 account db with h | h
    · exact .inl h
    · exact .inr (.inr ⟨hl, h⟩)

variable (e u statusNormal) in
theorem register_cases (db : DB) (now : Int) (gen : String × Option Err) (account : Account) :
    let r := register e u statusNormal db now gen account
    (r.2.2 ≠ none ∧ r.1 = db) ∨
      (gen.2 = none ∧ lookup e db account.Keyword account.Account = .ok none ∧
        r = (registered u statusNormal now gen.1 account.Keyword account.Account db, gen.1, none)) := by
  obtain ⟨uid, _ | err⟩ := gen
  · rcases insert_cases e u statusNormal db now uid account.Keyword account.Account
      with ⟨h, hdb⟩ | ⟨hl, h⟩
    · exact .inl ⟨h, hdb⟩
    · exact .inr ⟨rfl, hl, by simp only [register, h]⟩
  · exact .inl ⟨by simp [register], rfl⟩

theorem unbind_cases (db : DB) (uid : String) (account : Account) :
    let r := unbind e db uid account
    (r.2 ≠ none ∧ r.1 = db) ∨ r = (db.deleteAccount uid account.Keyword account.Account, none) := by
  unfold unbind
  split
  · exact .inl ⟨by simp, rfl⟩
  · exact e.finish_exec_cases db db _

/-! ### The tables each call writes -/

theorem bind_frame (db : DB) (now : Int) (uid : String) (account : Account) :
    (bind e db now uid account).1 = { db with account := (bind e db now uid account).1.account } := by
  rcases bind_cases (e := e) db now uid account with ⟨-, h⟩ | ⟨-, h⟩ <;> rw [h]
  rfl

theorem unbind_frame (db : DB) (uid : String) (account : Account) :
    (unbind e db uid account).1 = { db with account := (unbind e db uid account).1.account } := by
  rcases unbind_cases (e := e) db uid account with ⟨-, h⟩ | h <;> rw [h]
  rfl

theorem insert_frame (db : DB) (now : Int) (uid keyword account : String) :
    (insert e u statusNormal db now uid keyword account).1 =
      { db with
        account := (insert e u statusNormal db now uid keyword account).1.account
        user := (insert e u statusNormal db now uid keyword account).1.user } := by
  rcases insert_cases e u statusNormal db now uid keyword account with
    ⟨-, h⟩ | ⟨-, h⟩ <;> rw [h]
  rw [registered_eq]

theorem findOrInsert_frame (db : DB) (now : Int) (gen : String × Option Err) (account : Account) :
    (findOrInsert e u statusNormal db now gen account).1 =
      { db with
        account := (findOrInsert e u statusNormal db now gen account).1.account
        user := (findOrInsert e u statusNormal db now gen account).1.user } := by
  rcases findOrInsert_cases e u statusNormal db now gen account with
    ⟨-, h⟩ | ⟨-, h⟩ | ⟨-, h⟩ <;> rw [h]
  rw [registered_eq]

theorem register_frame (db : DB) (now : Int) (gen : String × Option Err) (account : Account) :
    (register e u statusNormal db now gen account).1 =
      { db with
        account := (register e u statusNormal db now gen account).1.account
        user := (register e u statusNormal db now gen account).1.user } := by
  rcases register_cases e u statusNormal db now gen account with
    ⟨-, h⟩ | ⟨-, -, h⟩ <;> rw [h]
  rw [registered_eq]

/-! ### One binding per account -/

/-- Every account is bound to at most one user id. -/
def BindingsUnique (db : DB) : Prop :=
  (db.account.map fun r => (r.Keyword, r.Account)).Nodup

theorem bindingsUnique_append {db : DB} (h : BindingsUnique db) {r : AccountModel}
    (hr : ∀ r' ∈ db.account, r'.binds r.Keyword r.Account = false) :
    (db.account ++ [r]).map (fun r => (r.Keyword, r.Account)) |>.Nodup := by
  rw [List.map_append, List.nodup_append]
  refine ⟨h, List.nodup_singleton _, fun p hp hp' => ?_⟩
  obtain ⟨r', hr', rfl⟩ := List.mem_map.1 hp
  obtain ⟨hk, ha⟩ := Prod.mk.inj (List.mem_singleton.1 hp')
  simpa [AccountModel.binds, hk, ha] using hr r' hr'

theorem bindingsUnique_registered {db : DB} (h : BindingsUnique db) {now : Int} {uid keyword account : String}
    (hl : lookup e db keyword account = .ok none) :
    BindingsUnique (registered u statusNormal now uid keyword account db) := by
  unfold BindingsUnique
  rw [registered_account]
  exact bindingsUnique_append h (lookup_eq_ok_none hl)

theorem bindings_unique_bind {db : DB} (h : BindingsUnique db) (now : Int) (uid : String) (account : Account) :
    BindingsUnique (bind e db now uid account).1 := by
  rcases bind_cases (e := e) db now uid account with ⟨-, hdb⟩ | ⟨hl, hr⟩
  · rwa [hdb]
  · rw [hr]; exact bindingsUnique_append h (lookup_eq_ok_none hl)

theorem bindings_unique_insert {db : DB} (h : BindingsUnique db) (now : Int) (uid keyword account : String) :
    BindingsUnique (insert e u statusNormal db now uid keyword account).1 := by
  rcases insert_cases e u statusNormal db now uid keyword account with
    ⟨-, hdb⟩ | ⟨hl, hr⟩
  · rwa [hdb]
  · rw [hr]; exact bindingsUnique_registered h hl

theorem bindings_unique_findOrInsert {db : DB} (h : BindingsUnique db) (now : Int) (gen : String × Option Err)
    (account : Account) : BindingsUnique (findOrInsert e u statusNormal db now gen account).1 := by
  rcases findOrInsert_cases e u statusNormal db now gen account with
    ⟨-, hdb⟩ | ⟨-, hdb⟩ | ⟨hl, hr⟩
  · rwa [hdb]
  · rwa [hdb]
  · rw [hr]; exact bindingsUnique_registered h hl

theorem bindings_unique_register {db : DB} (h : BindingsUnique db) (now : Int) (gen : String × Option Err)
    (account : Account) : BindingsUnique (register e u statusNormal db now gen account).1 := by
  rcases register_cases e u statusNormal db now gen account with
    ⟨-, hdb⟩ | ⟨-, hl, hr⟩
  · rwa [hdb]
  · rw [hr]; exact bindingsUnique_registered h hl

theorem bindings_unique_unbind {db : DB} (h : BindingsUnique db) (uid : String) (account : Account) :
    BindingsUnique (unbind e db uid account).1 := by
  rcases unbind_cases (e := e) db uid account with ⟨-, hdb⟩ | hr
  · rwa [hdb]
  · rw [hr]
    exact h.sublist ((List.filter_sublist _).map _)

/-! ### `Accounts` -/

theorem lookup_groupAccounts (k : String) : ∀ (models : List AccountModel) (result : Accounts),
    (groupAccounts models result).lookup k =
      if models.filter (fun v => v.UID = k) = [] then result.lookup k
      else some ((result.lookup k).getD [] ++ (models.filter fun v => v.UID = k).map fun v => ⟨v.Keyword, v.Account⟩)
  | [], result => by simp [groupAccounts]
  | v :: vs, result => by
    rw [groupAccounts, List.foldl_cons, ← groupAccounts, lookup_groupAccounts k vs, List.filter_cons]
    by_cases hv : v.UID = k
    · subst hv
      by_cases hvs : vs.filter (fun w => w.UID = v.UID) = [] <;> simp [hvs, AList.lookup_insert]
    · simp [hv, AList.lookup_insert_ne (Ne.symm hv)]

/-- `Accounts` answers each user id asked the accounts of its bindings, in query order. -/
theorem lookup_accounts {db : DB} {uids : List String} {m : Accounts} (h : accounts e db uids = .ok m)
    (k : String) :
    m.lookup k = if k ∈ uids ∧ ∃ r ∈ db.account, r.UID = k then
      some ((db.account.filter fun r => r.UID = k).map fun r => ⟨r.Keyword, r.Account⟩) else none := by
  obtain ⟨models, hm, rfl⟩ : ∃ models, findAllByUID e db uids = .ok models ∧ m = groupAccounts models ∅ := by
    unfold accounts at h
    cases hf : findAllByUID e db uids with
    | error err => rw [hf] at h; cases h
    | ok models => rw [hf] at h; cases h; exact ⟨models, rfl, rfl⟩
  rw [e.selectByUID_eq_ok hm, lookup_groupAccounts]
  by_cases hk : k ∈ uids
  · rw [filter_scan_of_mem _ AccountModel.UID (fun r => ⟨r.UID, r.Keyword, r.Account, 0⟩)
      (fun _ => rfl) hk]
    by_cases hr : ∃ r ∈ db.account, r.UID = k
    · have hne : (db.account.filter fun r => r.UID = k) ≠ [] := by simpa [List.filter_eq_nil_iff] using hr
      simp [hk, hr, hne, Function.comp_def]
    · have he : (db.account.filter fun r => r.UID = k) = [] := by simpa [List.filter_eq_nil_iff] using hr
      simp [hr, he]
  · rw [filter_scan_of_not_mem _ AccountModel.UID (fun r => ⟨r.UID, r.Keyword, r.Account, 0⟩)
      (fun _ => rfl) hk]
    simp [hk]

theorem accounts_of_one_user :
    let db : DB := ⟨[⟨"u1", "k", "a", 1⟩, ⟨"u2", "k", "b", 2⟩, ⟨"u1", "k", "c", 3⟩], [], [], []⟩
    let m := groupAccounts [⟨"u1", "k", "a", 0⟩, ⟨"u1", "k", "c", 0⟩] ∅
    accounts (Engine.reliable true asciiFold) db ["u1"] = .ok m ∧ m.lookup "u1" = some [⟨"k", "a"⟩, ⟨"k", "c"⟩] ∧
      m.lookup "u2" = none := by
  intro db m
  have h : accounts (Engine.reliable true asciiFold) db ["u1"] = .ok m := rfl
  exact ⟨h, (lookup_accounts h "u1").trans (by decide), (lookup_accounts h "u2").trans (by decide)⟩

end AccountMapper

end HerbCache.Sqluser
