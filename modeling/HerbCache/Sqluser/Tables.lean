import HerbCache.Basic

/-!
# sqluser: the tables and the database

Package `sqluser` keeps users in four SQL tables, each the list of its committed rows in query
order. What the database does besides storing rows is an `Engine`: which calls fail, how
`RowsAffected` counts, and how the `uid` column of the password table compares under its
collation (`fold`). A call writes only inside a transaction, and a `Commit` that fails is assumed
to commit nothing, the database's contract for a transaction.
-/

namespace HerbCache.Sqluser

/-- The error values the package returns or compares against. -/
inductive Err
  | noRows
  | accountBindingExists
  | accountRegisterExists
  | userNotFound
  | hashMethodNotFound
  /-- Any other error: of the database, of a generator or of a hash function. -/
  | other (code : Nat)
  deriving DecidableEq, Repr

/-- MySQL's `ER_DUP_ENTRY` (1062): an `INSERT` of a key the table holds. -/
def Err.dupEntry : Err := .other 1062

set_option linter.dupNamespace false in
/-- `user.Account`: the account's keyword (its kind) and its name. -/
structure Account where
  Keyword : String
  Account : String
  deriving DecidableEq, Repr

structure AccountModel where
  UID : String
  Keyword : String
  Account : String
  CreatedTime : Int
  deriving DecidableEq, Repr

structure PasswordModel where
  UID : String
  HashMethod : String
  Salt : String
  Password : Bytes
  UpdatedTime : Int
  deriving DecidableEq, Repr

structure TokenModel where
  UID : String
  Token : String
  UpdatedTime : Int
  deriving DecidableEq, Repr

structure UserModel where
  UID : String
  CreatedTime : Int
  UpdateTIme : Int
  Status : Int
  deriving DecidableEq, Repr

/-- The committed rows of the four tables. -/
structure DB where
  account : List AccountModel
  password : List PasswordModel
  token : List TokenModel
  user : List UserModel
  deriving DecidableEq, Repr

def DB.empty : DB := ⟨[], [], [], []⟩

/-- Which calls of the database fail, and how `RowsAffected` counts. -/
structure Engine where
  beginErr : DB → Option Err
  queryErr : DB → Option Err
  /-- The error of a statement taking a transaction from the first state to the second. -/
  execErr : DB → DB → Option Err
  commitErr : DB → Option Err
  /-- `RowsAffected` counts the rows an `UPDATE` matched, not only those it changed. -/
  foundRows : Bool
  /-- User ids are equal under the password table's collation when `fold` makes them equal. -/
  fold : String → String

/-- Folds ASCII letters to lower case: the part of `utf8_general_ci` that the examples use. -/
def asciiFold (s : String) : String := ⟨s.data.map Char.toLower⟩

namespace Engine

def reliable (foundRows : Bool) (fold : String → String) : Engine :=
  ⟨fun _ => none, fun _ => none, fun _ _ => none, fun _ => none, foundRows, fold⟩

def Reliable (e : Engine) : Prop :=
  (∀ db, e.beginErr db = none) ∧ (∀ db, e.queryErr db = none) ∧ (∀ tx tx', e.execErr tx tx' = none) ∧
    ∀ tx, e.commitErr tx = none

theorem reliable_reliable (foundRows : Bool) (fold : String → String) :
    (reliable foundRows fold).Reliable :=
  ⟨fun _ => rfl, fun _ => rfl, fun _ _ => rfl, fun _ => rfl⟩

variable (e : Engine)

def exec (tx tx' : DB) : Except Err DB :=
  match e.execErr tx tx' with
  | some err => .error err
  | none => .ok tx'

/-- `QueryRow` and `Scan`: the error, or the first row `p` selects (`none`: `sql.ErrNoRows`). -/
def queryRow {ρ : Type} (db : DB) (rows : List ρ) (p : ρ → Bool) : Except Err (Option ρ) :=
  match e.queryErr db with
  | some err => .error err
  | none => .ok (rows.find? p)

def queryRows {ρ : Type} (db : DB) (rows : List ρ) (p : ρ → Bool) : Except Err (List ρ) :=
  match e.queryErr db with
  | some err => .error err
  | none => .ok (rows.filter p)

/-- The `FindAllByUID` methods: no query for no user id, else the rows of the ids asked. -/
def selectByUID {ρ : Type} (db : DB) (rows : List ρ) (uid : ρ → String) (scan : ρ → ρ)
    (uids : List String) : Except Err (List ρ) :=
  if uids.length = 0 then .ok []
  else (e.queryRows db rows fun r => decide (uid r ∈ uids)).map (List.map scan)

/-- `tx.Commit()` of a transaction begun on `db`; one that fails commits nothing. -/
def commit (db tx : DB) : DB × Option Err :=
  match e.commitErr tx with
  | some err => (db, some err)
  | none => (tx, none)

/-- The end of a transaction: an error rolls it back, else it commits. -/
def finish (db : DB) : Except Err DB → DB × Option Err
  | .error err => (db, some err)
  | .ok tx => e.commit db tx

theorem exec_eq_ok {tx tx' tx'' : DB} (h : e.exec tx tx' = .ok tx'') :
    tx'' = tx' ∧ e.execErr tx tx' = none := by
  unfold exec at h
  split at h <;> cases h
  exact ⟨rfl, by assumption⟩

theorem exec_of_reliable {e : Engine} (he : e.Reliable) (tx tx' : DB) : e.exec tx tx' = .ok tx' := by
  simp only [exec, he.2.2.1]

theorem queryRow_of_reliable {e : Engine} (he : e.Reliable) {ρ : Type} (db : DB) (rows : List ρ)
    (p : ρ → Bool) : e.queryRow db rows p = .ok (rows.find? p) := by
  simp only [queryRow, he.2.1]

theorem queryRows_of_reliable {e : Engine} (he : e.Reliable) {ρ : Type} (db : DB) (rows : List ρ)
    (p : ρ → Bool) : e.queryRows db rows p = .ok (rows.filter p) := by
  simp only [queryRows, he.2.1]

theorem commit_of_reliable {e : Engine} (he : e.Reliable) (db tx : DB) : e.commit db tx = (tx, none) := by
  simp only [commit, he.2.2.2]

theorem selectByUID_eq_ok {ρ : Type} {db : DB} {rows : List ρ} {uid : ρ → String} {scan : ρ → ρ}
    {uids : List String} {models : List ρ} (h : e.selectByUID db rows uid scan uids = .ok models) :
    models = (rows.filter fun r => decide (uid r ∈ uids)).map scan := by
  unfold selectByUID at h
  split at h
  · next hu =>
    rw [List.length_eq_zero] at hu
    subst hu
    cases h
    simp
  · unfold queryRows at h
    split at h <;> cases h
    rfl

theorem commit_cases (db tx : DB) :
    (∃ err, e.commit db tx = (db, some err)) ∨ e.commit db tx = (tx, none) := by
  unfold commit
  split
  · exact .inl ⟨_, rfl⟩
  · exact .inr rfl

theorem finish_cases (db : DB) (r : Except Err DB) :
    ((e.finish db r).2 ≠ none ∧ (e.finish db r).1 = db) ∨ ∃ tx, r = .ok tx ∧ e.finish db r = (tx, none) := by
  cases r with
  | error err => exact .inl ⟨by simp [finish], rfl⟩
  | ok tx =>
    rcases e.commit_cases db tx with ⟨err, hc⟩ | hc
    · exact .inl ⟨by simp [finish, hc], by simp [finish, hc]⟩
    · exact .inr ⟨tx, rfl, hc⟩

theorem finish_exec_cases (db tx₀ tx : DB) :
    ((e.finish db (e.exec tx₀ tx)).2 ≠ none ∧ (e.finish db (e.exec tx₀ tx)).1 = db) ∨
      e.finish db (e.exec tx₀ tx) = (tx, none) := by
  rcases e.finish_cases db (e.exec tx₀ tx) with h | ⟨tx', hx, h⟩
  · exact .inl h
  · obtain ⟨rfl, -⟩ := e.exec_eq_ok hx
    exact .inr h

end Engine

section Select

variable {ρ : Type} (rows : List ρ) (uid : ρ → String) (scan : ρ → ρ) (hscan : ∀ r, uid (scan r) = uid r)
  {uids : List String} {k : String}
include hscan

theorem filter_scan_of_mem (hk : k ∈ uids) :
    ((rows.filter fun r => decide (uid r ∈ uids)).map scan).filter (fun v => uid v = k) =
      (rows.filter fun r => uid r = k).map scan := by
  rw [List.filter_map, List.filter_filter]
  congr 1
  refine List.filter_congr fun r _ => ?_
  by_cases hr : uid r = k <;> simp [hr, hscan, hk]

theorem filter_scan_of_not_mem (hk : k ∉ uids) :
    ((rows.filter fun r => decide (uid r ∈ uids)).map scan).filter (fun v => uid v = k) = [] := by
  rw [List.filter_map, List.filter_filter, List.filter_eq_nil_iff.2, List.map_nil]
  intro r _ hr
  simp only [Function.comp_apply, hscan, Bool.and_eq_true, decide_eq_true_eq] at hr
  exact hk (hr.1 ▸ hr.2)

end Select

/-- The fields of `sqluser.User` the mappers read. -/
structure User where
  Flag : Nat
  HashMethod : String
  PasswordKey : String
  deriving DecidableEq, Repr

def flagWithAccount : Nat := 1

def flagWithPassword : Nat := 2

def flagWithToken : Nat := 4

def flagWithUser : Nat := 8

def defaultHashMethod : String := "sha256"

/-- `New(db, uidgenerater, flag)`: the default hash method and an empty `PasswordKey`. -/
def new (flag : Nat) : User := ⟨flag, defaultHashMethod, ""⟩

def User.hasFlag (u : User) (flag : Nat) : Bool := u.Flag &&& flag != 0

abbrev HashFunc := String → String → String → Except Err Bytes

/-- The package-level values the mappers read. -/
structure Globals where
  HashFuncMap : String → Option HashFunc
  StatusNormal : Int

/-- `HashFuncMap` as the package declares it, with the `"sha256"` function given. -/
def defaultHashFuncMap (sha256 : HashFunc) : String → Option HashFunc :=
  fun method => if method = defaultHashMethod then some sha256 else none

theorem defaultHashFuncMap_new (sha256 : HashFunc) (flag : Nat) :
    defaultHashFuncMap sha256 (new flag).HashMethod = some sha256 := rfl

/-! ### The statements on the tables -/

namespace DB

def insertAccount (r : AccountModel) (db : DB) : DB := { db with account := db.account ++ [r] }

def deleteAccount (uid keyword account : String) (db : DB) : DB :=
  { db with
    account := db.account.filter fun r => !decide (r.UID = uid ∧ r.Keyword = keyword ∧ r.Account = account) }

def insertUser (r : UserModel) (db : DB) : DB := { db with user := db.user ++ [r] }

@[simp] theorem insertAccount_account (r : AccountModel) (db : DB) :
    (db.insertAccount r).account = db.account ++ [r] := rfl

@[simp] theorem insertUser_user (r : UserModel) (db : DB) : (db.insertUser r).user = db.user ++ [r] := rfl

@[simp] theorem insertUser_account (r : UserModel) (db : DB) : (db.insertUser r).account = db.account :=
  rfl

@[simp] theorem deleteAccount_account (uid keyword account : String) (db : DB) :
    (db.deleteAccount uid keyword account).account =
      db.account.filter fun r => !decide (r.UID = uid ∧ r.Keyword = keyword ∧ r.Account = account) := rfl

end DB

end HerbCache.Sqluser
