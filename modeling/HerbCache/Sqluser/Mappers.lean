import HerbCache.Sqluser.Tables

/-!
# sqluser: the password, token and user mappers

The three `InsertOrUpdate` methods are one algorithm on three tables (`insertOrUpdate`): in one
transaction, `UPDATE` the rows of a user id and, if `RowsAffected` is 0, `INSERT` a row for it.
The password table compares user ids under its collation and has `uid` as primary key, so its
`INSERT` of a user id it holds fails with `ER_DUP_ENTRY`; the schemas of the token and user tables
are not among the sources, and the model compares their user ids exactly, with no key.
-/

namespace HerbCache.Sqluser

/-- A table with a `uid` column that an `InsertOrUpdate` method writes. -/
structure Table (ρ : Type) where
  rows : DB → List ρ
  setRows : List ρ → DB → DB
  uid : ρ → String
  /-- The string a user id compares as under the column's collation. -/
  key : Engine → String → String
  primary : Bool
  rows_setRows : ∀ l db, rows (setRows l db) = l
  setRows_setRows : ∀ l l' db, setRows l (setRows l' db) = setRows l db
  setRows_rows : ∀ db, setRows (rows db) db = db

/-- The password table: `PRIMARY KEY(uid)`, compared under `utf8_general_ci`. -/
def passwordTable : Table PasswordModel :=
  ⟨DB.password, fun l db => { db with password := l }, PasswordModel.UID, Engine.fold, true,
    fun _ _ => rfl, fun _ _ _ => rfl, fun _ => rfl⟩

def tokenTable : Table TokenModel :=
  ⟨DB.token, fun l db => { db with token := l }, TokenModel.UID, fun _ => id, false, fun _ _ => rfl,
    fun _ _ _ => rfl, fun _ => rfl⟩

def userTable : Table UserModel :=
  ⟨DB.user, fun l db => { db with user := l }, UserModel.UID, fun _ => id, false, fun _ _ => rfl,
    fun _ _ _ => rfl, fun _ => rfl⟩

@[simp] theorem passwordTable_key (e : Engine) (s : String) : passwordTable.key e s = e.fold s := rfl

@[simp] theorem tokenTable_key (e : Engine) (s : String) : tokenTable.key e s = s := rfl

@[simp] theorem userTable_key (e : Engine) (s : String) : userTable.key e s = s := rfl

@[simp] theorem userTable_uid : userTable.uid = UserModel.UID := rfl

/-- The loop of `Tokens` and `Statuses`: each row's value under its user id, the last one kept. -/
def collect {ρ β : Type} (key : ρ → String) (val : ρ → β) (models : List ρ)
    (result : AList fun _ : String => β) : AList fun _ : String => β :=
  models.foldl (fun result v => result.insert (key v) (val v)) result

/-- The rows of `t` whose user id equals `k` under the column's collation. -/
def Table.rowsOf {ρ : Type} (t : Table ρ) (e : Engine) (k : String) (rows : List ρ) : List ρ :=
  rows.filter fun r => t.key e (t.uid r) = t.key e k

/-- The table holds a row of user id `k`, and every row of `k` satisfies `P`. -/
def Holds {ρ : Type} (e : Engine) (t : Table ρ) (k : String) (P : ρ → Prop) (db : DB) : Prop :=
  t.rowsOf e k (t.rows db) ≠ [] ∧ ∀ r ∈ t.rowsOf e k (t.rows db), P r

theorem Holds.of_rowsOf_eq {ρ : Type} {e : Engine} {t : Table ρ} {k : String} {P : ρ → Prop}
    {db db' : DB} (h : t.rowsOf e k (t.rows db') = t.rowsOf e k (t.rows db)) (hh : Holds e t k P db) :
    Holds e t k P db' := by
  unfold Holds
  rwa [h]

def UidsUnique {ρ : Type} (t : Table ρ) (db : DB) : Prop := ((t.rows db).map t.uid).Nodup

theorem uidsUnique_iff {ρ : Type} (t : Table ρ) (db : DB) :
    UidsUnique t db ↔ ∀ k, ((t.rows db).filter fun r => t.uid r = k).length ≤ 1 := by
  rw [UidsUnique, List.nodup_iff_count_le_one]
  refine forall_congr' fun k => ?_
  rw [List.count, List.countP_map, List.countP_eq_length_filter]
  rfl

theorem Table.filter_uid_eq {ρ : Type} (t : Table ρ) (e : Engine) (k : String) (rows : List ρ) :
    rows.filter (fun r => t.uid r = k) = (t.rowsOf e k rows).filter fun r => t.uid r = k := by
  rw [Table.rowsOf, List.filter_filter]
  exact List.filter_congr fun r _ => by by_cases h : t.uid r = k <;> simp [h]

theorem uidsUnique_of_rowsOf {ρ : Type} {t : Table ρ} {e : Engine} {db db' : DB}
    (h : ∀ k, t.rowsOf e k (t.rows db') = t.rowsOf e k (t.rows db)) (hu : UidsUnique t db) :
    UidsUnique t db' := by
  refine (uidsUnique_iff t db').2 fun k => ?_
  rw [t.filter_uid_eq e k, h k, ← t.filter_uid_eq e k]
  exact (uidsUnique_iff t db).1 hu k

/-- The rows `VerifyPassword` accepts `password` with. -/
def Accepts (g : Globals) (key password : String) (r : PasswordModel) : Prop :=
  ∃ hash, g.HashFuncMap r.HashMethod = some hash ∧ hash key r.Salt password = .ok r.Password

variable {ρ : Type} [DecidableEq ρ]

/-- `UPDATE ... WHERE uid = ?` under the collation, and its `RowsAffected`. -/
def updateWhere (e : Engine) (t : Table ρ) (uid : String) (set : ρ → ρ) (rows : List ρ) :
    List ρ × Nat :=
  (rows.map fun r => if t.key e (t.uid r) = t.key e uid then set r else r,
    (rows.filter fun r => t.key e (t.uid r) = t.key e uid ∧ (e.foundRows ∨ set r ≠ r)).length)

/-- `INSERT` of `row`: `ER_DUP_ENTRY` when `uid` is the key and a row has its user id. -/
def insertRow (e : Engine) (t : Table ρ) (tx : DB) (row : ρ) : Except Err DB :=
  if t.primary ∧ (t.rows tx).any fun r => t.key e (t.uid r) = t.key e (t.uid row) then .error .dupEntry
  else e.exec tx (t.setRows (t.rows tx ++ [row]) tx)

/-- The `InsertOrUpdate` methods: `UPDATE`, and `INSERT` if `RowsAffected` is 0. -/
def insertOrUpdate (e : Engine) (t : Table ρ) (uid : String) (set : ρ → ρ) (row : ρ) (db : DB) :
    DB × Option Err :=
  match e.beginErr db with
  | some err => (db, some err)
  | none =>
    let upd := updateWhere e t uid set (t.rows db)
    match e.exec db (t.setRows upd.1 db) with
    | .error err => (db, some err)
    | .ok tx =>
      if upd.2 ≠ 0 then e.commit db tx
      else e.finish db (insertRow e t tx row)

/-! ### The three mappers -/

namespace PasswordMapper

variable (e : Engine)

def insertOrUpdate (db : DB) (model : PasswordModel) : DB × Option Err :=
  Sqluser.insertOrUpdate e passwordTable model.UID
    (fun r => { r with
      HashMethod := model.HashMethod
      Salt := model.Salt
      Password := model.Password
      UpdatedTime := model.UpdatedTime })
    model db

def zero : PasswordModel := ⟨"", "", "", [], 0⟩

def find (db : DB) (uid : String) : PasswordModel × Option Err :=
  if uid = "" then (zero, some .noRows)
  else match e.queryRow db db.password fun r => e.fold r.UID = e.fold uid with
    | .error err => ({ zero with UID := uid }, some err)
    | .ok none => ({ zero with UID := uid }, some .noRows)
    | .ok (some r) => ({ r with UID := uid }, none)

variable (g : Globals) (u : User)

def verifyPassword (db : DB) (uid password : String) : Bool × Option Err :=
  match find e db uid with
  | (_, some .noRows) => (false, some .userNotFound)
  | (_, some err) => (false, some err)
  | (model, none) =>
    match g.HashFuncMap model.HashMethod with
    | none => (false, some .hashMethodNotFound)
    | some hash =>
      match hash u.PasswordKey model.Salt password with
      | .error err => (false, some err)
      | .ok hashed => (decide (hashed = model.Password), none)

/-- `UpdatePassword`, with `salt` the outcome of `SaltGenerater()` and `now` the clock's second. -/
def updatePassword (db : DB) (now : Int) (salt : String × Option Err) (uid password : String) :
    DB × Option Err :=
  match salt with
  | (_, some err) => (db, some err)
  | (salt, none) =>
    match g.HashFuncMap u.HashMethod with
    | none => (db, some .hashMethodNotFound)
    | some hash =>
      match hash u.PasswordKey salt password with
      | .error err => (db, some err)
      | .ok hashed => insertOrUpdate e db ⟨uid, u.HashMethod, salt, hashed, now⟩

end PasswordMapper

abbrev Tokens := AList fun _ : String => String

namespace TokenMapper

variable (e : Engine)

def insertOrUpdate (db : DB) (now : Int) (uid token : String) : DB × Option Err :=
  Sqluser.insertOrUpdate e tokenTable uid (fun r => { r with Token := token, UpdatedTime := now })
    ⟨uid, token, now⟩ db

def findAllByUID (db : DB) (uids : List String) : Except Err (List TokenModel) :=
  e.selectByUID db db.token TokenModel.UID (fun r => ⟨r.UID, r.Token, 0⟩) uids

def tokens (db : DB) (uids : List String) : Except Err Tokens :=
  (findAllByUID e db uids).map fun models => collect TokenModel.UID TokenModel.Token models ∅

/-- `Revoke`, with `token` the outcome of `TokenGenerater()`. -/
def revoke (db : DB) (now : Int) (token : String × Option Err) (uid : String) : DB × String × Option Err :=
  match token with
  | (_, some err) => (db, "", some err)
  | (token, none) =>
    let r := insertOrUpdate e db now uid token
    (r.1, token, r.2)

end TokenMapper

abbrev StatusMap := AList fun _ : String => Int

namespace UserMapper

variable (e : Engine)

def insertOrUpdate (db : DB) (now : Int) (uid : String) (status : Int) : DB × Option Err :=
  Sqluser.insertOrUpdate e userTable uid (fun r => { r with Status := status, UpdateTIme := now })
    ⟨uid, now, now, status⟩ db

def setStatus (db : DB) (now : Int) (uid : String) (status : Int) : DB × Option Err :=
  insertOrUpdate e db now uid status

def findAllByUID (db : DB) (uids : List String) : Except Err (List UserModel) :=
  e.selectByUID db db.user UserModel.UID (fun r => ⟨r.UID, 0, 0, r.Status⟩) uids

def statuses (db : DB) (uids : List String) : Except Err StatusMap :=
  (findAllByUID e db uids).map fun models => collect UserModel.UID UserModel.Status models ∅

end UserMapper

/-! ### What `InsertOrUpdate` writes -/

variable {e : Engine} {t : Table ρ} {uid : String} {set : ρ → ρ} {row : ρ}

/-- The rows an `InsertOrUpdate` that succeeds leaves. -/
def upserted (e : Engine) (t : Table ρ) (uid : String) (set : ρ → ρ) (row : ρ) (db : DB) : List ρ :=
  let upd := updateWhere e t uid set (t.rows db)
  upd.1 ++ if upd.2 = 0 then [row] else []

omit [DecidableEq ρ] in
theorem insertRow_eq_ok {tx tx' : DB} (h : insertRow e t tx row = .ok tx') :
    tx' = t.setRows (t.rows tx ++ [row]) tx := by
  unfold insertRow at h
  split_ifs at h
  exact (e.exec_eq_ok h).1

variable (e t uid set row) in
theorem insertOrUpdate_cases (db : DB) :
    let r := insertOrUpdate e t uid set row db
    (r.2 ≠ none ∧ r.1 = db) ∨ r = (t.setRows (upserted e t uid set row db) db, none) := by
  unfold insertOrUpdate
  split
  · exact .inl ⟨by simp, rfl⟩
  · dsimp only
    split
    · exact .inl ⟨by simp, rfl⟩
    · next tx hx =>
      obtain ⟨rfl, -⟩ := e.exec_eq_ok hx
      split
      · next hne =>
        rcases e.commit_cases db (t.setRows (updateWhere e t uid set (t.rows db)).1 db) with
          ⟨err, hc⟩ | hc <;> rw [hc]
        · exact .inl ⟨by simp, rfl⟩
        · exact .inr (by simp [upserted, hne])
      · next h0 =>
        rw [not_not] at h0
        rcases e.finish_cases db (insertRow e t _ row) with h | ⟨tx', hx, h⟩
        · exact .inl h
        · rw [h, insertRow_eq_ok hx, t.rows_setRows, t.setRows_setRows]
          exact .inr (by simp [upserted, h0])

theorem insertOrUpdate_frame (db : DB) :
    (insertOrUpdate e t uid set row db).1 = t.setRows (t.rows (insertOrUpdate e t uid set row db).1) db := by
  rcases insertOrUpdate_cases e t uid set row db with ⟨-, h⟩ | h <;> rw [h]
  · rw [t.setRows_rows]
  · rw [t.rows_setRows]

section Upsert

variable (hset : ∀ r, t.uid (set r) = t.uid r)
include hset

theorem map_uid_updateWhere (rows : List ρ) :
    (updateWhere e t uid set rows).1.map t.uid = rows.map t.uid := by
  simp only [updateWhere, List.map_map]
  congr 1
  funext r
  by_cases h : t.key e (t.uid r) = t.key e uid <;> simp [h, hset]

theorem holds_upserted {P : ρ → Prop} (hP : ∀ r, P (set r)) (hrow : t.uid row = uid ∧ P row) (db : DB) :
    t.rowsOf e uid (upserted e t uid set row db) ≠ [] ∧
      ∀ r ∈ t.rowsOf e uid (upserted e t uid set row db), P r := by
  unfold upserted updateWhere Table.rowsOf
  dsimp only
  constructor
  · split_ifs with h0
    · exact List.ne_nil_of_mem (a := row) (List.mem_filter.2 ⟨by simp, by simp [hrow.1]⟩)
    · obtain ⟨r, hr⟩ := List.exists_mem_of_length_pos (Nat.pos_of_ne_zero h0)
      obtain ⟨hr, hu⟩ := List.mem_filter.1 hr
      simp only [decide_eq_true_eq] at hu
      refine List.ne_nil_of_mem (a := set r) (List.mem_filter.2 ⟨List.mem_append_left _
        (List.mem_map.2 ⟨r, hr, by simp [hu.1]⟩), by simp [hset, hu.1]⟩)
  · intro r hr
    obtain ⟨hr, hu⟩ := List.mem_filter.1 hr
    rcases List.mem_append.1 hr with hr | hr
    · obtain ⟨r', -, rfl⟩ := List.mem_map.1 hr
      split_ifs with h
      · exact hP r'
      · simp [if_neg h, h] at hu
    · split_ifs at hr
      · rw [List.mem_singleton.1 hr]; exact hrow.2
      · cases hr

theorem rowsOf_upserted_ne (hrow : t.uid row = uid) (db : DB) {k : String}
    (hk : t.key e k ≠ t.key e uid) :
    t.rowsOf e k (upserted e t uid set row db) = t.rowsOf e k (t.rows db) := by
  unfold upserted updateWhere Table.rowsOf
  dsimp only
  rw [List.filter_append]
  have hnil : (if (List.filter (fun r => decide (t.key e (t.uid r) = t.key e uid ∧
      (e.foundRows = true ∨ set r ≠ r))) (t.rows db)).length = 0
      then [row] else []).filter (fun r => t.key e (t.uid r) = t.key e k) = [] := by
    split_ifs <;> simp [hrow, Ne.symm hk]
  rw [hnil, List.append_nil]
  induction t.rows db with
  | nil => rfl
  | cons r rs ih =>
    rw [List.map_cons, List.filter_cons, List.filter_cons, ih]
    by_cases h : t.key e (t.uid r) = t.key e uid
    · simp [h, hset, Ne.symm hk]
    · simp [h]

theorem holds_insertOrUpdate {P : ρ → Prop} (hP : ∀ r, P (set r)) (hrow : t.uid row = uid ∧ P row)
    {db : DB} (h : (insertOrUpdate e t uid set row db).2 = none) :
    Holds e t uid P (insertOrUpdate e t uid set row db).1 := by
  rcases insertOrUpdate_cases e t uid set row db with ⟨hne, -⟩ | hr
  · exact absurd h hne
  · rw [hr, Holds, t.rows_setRows]
    exact holds_upserted hset hP hrow db

theorem rowsOf_insertOrUpdate_ne (hrow : t.uid row = uid) (db : DB) {k : String}
    (hk : t.key e k ≠ t.key e uid) :
    t.rowsOf e k (t.rows (insertOrUpdate e t uid set row db).1) = t.rowsOf e k (t.rows db) := by
  rcases insertOrUpdate_cases e t uid set row db with ⟨-, hdb⟩ | hr
  · rw [hdb]
  · rw [hr, t.rows_setRows, rowsOf_upserted_ne hset hrow db hk]

/-- When `RowsAffected` counts rows matched, `InsertOrUpdate` keeps one row per user id. -/
theorem uidsUnique_insertOrUpdate (hf : e.foundRows = true) (hrow : t.uid row = uid) {db : DB}
    (hu : UidsUnique t db) : UidsUnique t (insertOrUpdate e t uid set row db).1 := by
  rcases insertOrUpdate_cases e t uid set row db with ⟨-, hdb⟩ | hr
  · rwa [hdb]
  · rw [hr, UidsUnique, t.rows_setRows]
    unfold upserted
    dsimp only
    rw [List.map_append, map_uid_updateWhere hset]
    split_ifs with h0
    · have hnone : ∀ r ∈ t.rows db, t.uid r ≠ uid := fun r hr hu =>
        List.filter_eq_nil_iff.1 (List.length_eq_zero.1 h0) r hr (by simp [hu, hf])
      rw [List.nodup_append]
      refine ⟨hu, List.nodup_singleton _, fun x hx hx' => ?_⟩
      obtain ⟨r, hr, rfl⟩ := List.mem_map.1 hx
      rw [List.map_singleton, List.mem_singleton, hrow] at hx'
      exact hnone r hr hx'
    · simpa using hu

end Upsert

/-! ### Reading back -/

omit [DecidableEq ρ] in
theorem lookup_collect {β : Type} (key : ρ → String) (val : ρ → β) (k : String) :
    ∀ (models : List ρ) (result : AList fun _ : String => β),
      (collect key val models result).lookup k =
        ((models.filter fun v => key v = k).getLast?.map val).or (result.lookup k)
  | [], result => by simp [collect]
  | v :: vs, result => by
    rw [collect, List.foldl_cons, ← collect, lookup_collect key val k vs, List.filter_cons]
    by_cases hv : key v = k
    · subst hv
      cases hl : (vs.filter fun w => key w = key v).getLast? <;> simp [hl, AList.lookup_insert, List.getLast?_cons]
    · simp [hv, AList.lookup_insert_ne (Ne.symm hv)]

omit [DecidableEq ρ] in
/-- `Tokens` and `Statuses` map a user id whose rows all hold one value to it. -/
theorem lookup_collect_of_holds {β : Type} (hkey : ∀ s, t.key e s = s) (val : ρ → β) {v : β}
    (scan : ρ → ρ) (hscan : ∀ r, t.uid (scan r) = t.uid r) (hval : ∀ r, val (scan r) = val r)
    {db : DB} {uids : List String} {k : String} (hk : k ∈ uids) (hh : Holds e t k (fun r => val r = v) db) :
    (collect t.uid val (((t.rows db).filter fun r => decide (t.uid r ∈ uids)).map scan) ∅).lookup k = some v := by
  obtain ⟨hne, hall⟩ := hh
  simp only [Table.rowsOf, hkey] at hne hall
  rw [lookup_collect, filter_scan_of_mem _ t.uid scan hscan hk, List.getLast?_map, List.getLast?_eq_getLast _ hne,
    Option.map_some', Option.map_some', Option.or_some]
  exact congrArg some ((hval _).trans (hall _ (List.getLast_mem hne)))

theorem lookup_tokens {db : DB} {uids : List String} {m : Tokens} (h : TokenMapper.tokens e db uids = .ok m)
    {k token : String} (hk : k ∈ uids) (hh : Holds e tokenTable k (fun r => r.Token = token) db) :
    m.lookup k = some token := by
  unfold TokenMapper.tokens at h
  cases hf : TokenMapper.findAllByUID e db uids with
  | error err => rw [hf] at h; cases h
  | ok models =>
    rw [hf] at h
    cases h
    rw [e.selectByUID_eq_ok hf]
    exact lookup_collect_of_holds (t := tokenTable) (fun _ => rfl) TokenModel.Token (fun r => ⟨r.UID, r.Token, 0⟩)
      (fun _ => rfl)
      (fun _ => rfl) hk hh

theorem lookup_statuses {db : DB} {uids : List String} {m : StatusMap} (h : UserMapper.statuses e db uids = .ok m)
    {k : String} {status : Int} (hk : k ∈ uids) (hh : Holds e userTable k (fun r => r.Status = status) db) :
    m.lookup k = some status := by
  unfold UserMapper.statuses at h
  cases hf : UserMapper.findAllByUID e db uids with
  | error err => rw [hf] at h; cases h
  | ok models =>
    rw [hf] at h
    cases h
    rw [e.selectByUID_eq_ok hf]
    exact lookup_collect_of_holds (t := userTable) (fun _ => rfl) UserModel.Status (fun r => ⟨r.UID, 0, 0, r.Status⟩)
      (fun _ => rfl)
      (fun _ => rfl) hk hh

variable {g : Globals} {u : User}

theorem updatePassword_cases {db : DB} {now : Int} {salt : String × Option Err} {uid password : String}
    (h : (PasswordMapper.updatePassword e g u db now salt uid password).2 = none) :
    ∃ hash hashed, g.HashFuncMap u.HashMethod = some hash ∧ hash u.PasswordKey salt.1 password = .ok hashed ∧
      PasswordMapper.updatePassword e g u db now salt uid password =
        PasswordMapper.insertOrUpdate e db ⟨uid, u.HashMethod, salt.1, hashed, now⟩ := by
  obtain ⟨s, _ | err⟩ := salt
  · rcases hm : g.HashFuncMap u.HashMethod with _ | hash
    · simp [PasswordMapper.updatePassword, hm] at h
    · rcases hh : hash u.PasswordKey s password with err | hashed
      · simp [PasswordMapper.updatePassword, hm, hh] at h
      · exact ⟨hash, hashed, rfl, hh, by simp [PasswordMapper.updatePassword, hm, hh]⟩
  · simp [PasswordMapper.updatePassword] at h

theorem updatePassword_fst_of_error {db : DB} {now : Int} {salt : String × Option Err} {uid password : String}
    (h : (PasswordMapper.updatePassword e g u db now salt uid password).2 ≠ none) :
    (PasswordMapper.updatePassword e g u db now salt uid password).1 = db := by
  obtain ⟨s, _ | err⟩ := salt
  · rcases hm : g.HashFuncMap u.HashMethod with _ | hash
    · simp [PasswordMapper.updatePassword, hm]
    · rcases hh : hash u.PasswordKey s password with err | hashed
      · simp [PasswordMapper.updatePassword, hm, hh]
      · have heq : PasswordMapper.updatePassword e g u db now (s, none) uid password =
            PasswordMapper.insertOrUpdate e db ⟨uid, u.HashMethod, s, hashed, now⟩ := by
          simp [PasswordMapper.updatePassword, hm, hh]
        rw [heq, PasswordMapper.insertOrUpdate] at h ⊢
        rcases insertOrUpdate_cases e passwordTable _ _ _ db with ⟨-, h'⟩ | h'
        · exact h'
        · rw [h'] at h; exact absurd rfl h
  · rfl

/-- `UpdatePassword` writes the password table only, and of it the rows of its user id only. -/
theorem updatePassword_frame (db : DB) (now : Int) (salt : String × Option Err) (uid password : String) :
    (PasswordMapper.updatePassword e g u db now salt uid password).1 =
      passwordTable.setRows (PasswordMapper.updatePassword e g u db now salt uid password).1.password db ∧
    ∀ k, e.fold k ≠ e.fold uid → passwordTable.rowsOf e k
      (PasswordMapper.updatePassword e g u db now salt uid password).1.password =
        passwordTable.rowsOf e k db.password := by
  by_cases h : (PasswordMapper.updatePassword e g u db now salt uid password).2 = none
  · obtain ⟨hash, hashed, -, -, heq⟩ := updatePassword_cases h
    rw [heq, PasswordMapper.insertOrUpdate]
    refine ⟨insertOrUpdate_frame db, fun k hk => ?_⟩
    refine rowsOf_insertOrUpdate_ne (t := passwordTable) ?_ ?_ db hk
    exacts [fun _ => rfl, rfl]
  · rw [updatePassword_fst_of_error h]
    exact ⟨rfl, fun _ _ => rfl⟩

theorem holds_updatePassword {db : DB} {now : Int} {salt : String × Option Err} {uid password : String}
    (h : (PasswordMapper.updatePassword e g u db now salt uid password).2 = none) :
    Holds e passwordTable uid (Accepts g u.PasswordKey password)
      (PasswordMapper.updatePassword e g u db now salt uid password).1 := by
  obtain ⟨hash, hashed, hm, hh, heq⟩ := updatePassword_cases h
  rw [heq, PasswordMapper.insertOrUpdate] at h ⊢
  refine holds_insertOrUpdate (t := passwordTable) (P := Accepts g u.PasswordKey password) ?_ ?_ ?_ h
  exacts [fun _ => rfl, fun _ => ⟨hash, hm, hh⟩, ⟨rfl, hash, hm, hh⟩]

/-- `VerifyPassword` answers true when the rows of a non-empty user id accept the password. -/
theorem verifyPassword_of_holds {db : DB} {uid password : String}
    (hh : Holds e passwordTable uid (Accepts g u.PasswordKey password) db) (huid : uid ≠ "")
    (hq : e.queryErr db = none) : PasswordMapper.verifyPassword e g u db uid password = (true, none) := by
  obtain ⟨hne, hall⟩ := hh
  obtain ⟨r, hr⟩ : ∃ r, db.password.find? (fun r => decide (e.fold r.UID = e.fold uid)) = some r := by
    rcases hf : db.password.find? (fun r => decide (e.fold r.UID = e.fold uid)) with _ | r
    · exact absurd (List.filter_eq_nil_iff.2 fun r hr => List.find?_eq_none.1 hf r hr) hne
    · exact ⟨r, hf⟩
  obtain ⟨hash, hm, hhash⟩ := hall r (List.mem_filter.2 ⟨List.mem_of_find?_eq_some hr,
    by simpa using List.find?_some hr⟩)
  simp [PasswordMapper.verifyPassword, PasswordMapper.find, huid, Engine.queryRow, hq, hr, hm, hhash]

theorem revoke_frame (db : DB) (now : Int) (token : String × Option Err) (uid : String) :
    (TokenMapper.revoke e db now token uid).1 = tokenTable.setRows (TokenMapper.revoke e db now token uid).1.token db ∧
    ∀ k ≠ uid, (TokenMapper.revoke e db now token uid).1.token.filter (fun r => r.UID = k) =
      db.token.filter fun r => r.UID = k := by
  obtain ⟨token, _ | err⟩ := token
  · refine ⟨insertOrUpdate_frame db, fun k hk => ?_⟩
    refine rowsOf_insertOrUpdate_ne (t := tokenTable) ?_ ?_ db hk
    exacts [fun _ => rfl, rfl]
  · exact ⟨rfl, fun _ _ => rfl⟩

/-- `VerifyPassword` of the empty user id answers `ErrUserNotFound`, whatever the tables hold. -/
theorem verifyPassword_empty (db : DB) (password : String) :
    PasswordMapper.verifyPassword e g u db "" password = (false, some .userNotFound) := rfl

end HerbCache.Sqluser
