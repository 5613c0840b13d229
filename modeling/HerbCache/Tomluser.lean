import HerbCache.Basic

/-!
# tomluser: users and their passwords

`Clone` makes the clone's accounts with the length of the new user's, which is `0`, so it copies
no account, while it copies the roles in full (`clone_eq`). `UpdatePassword` writes that clone
back, so every password change drops all of the user's accounts
(`eq_cleared_of_updatePassword`). `Hash` and `getSalt` are not modelled: they are parameters.
Dereferencing a nil `Roles` in `Clone` panics: the outcome `none`.
-/

namespace HerbCache.Tomluser

section Slices

variable {α : Type}

/-- `make([]T, n)`: `n` nil elements. -/
def make [Inhabited α] (n : Nat) : List α := List.replicate n default

/-- `copy(dst, src)`: the first `min(len(dst), len(src))` elements of `dst` replaced by `src`'s. -/
def copy (dst src : List α) : List α := src.take dst.length ++ dst.drop src.length

@[simp] theorem length_copy (dst src : List α) : (copy dst src).length = dst.length := by
  simp only [copy, List.length_append, List.length_take, List.length_drop]
  omega

@[simp] theorem copy_make_length [Inhabited α] (l : List α) : copy (make l.length) l = l := by
  simp [copy, make]

@[simp] theorem copy_nil (src : List α) : copy [] src = [] := by
  simp [copy]

@[simp] theorem make_zero [Inhabited α] : (make 0 : List α) = [] := rfl

end Slices

/-- `tomluser.User`; `Roles` is a pointer, `none` for nil. -/
structure User (A R : Type) where
  UID : String
  Password : String
  HashMode : String
  Salt : String
  Accounts : List A
  Banned : Bool
  Roles : Option (List R)
  deriving DecidableEq

variable {A R : Type}

def newUser : User A R := ⟨"", "", "", "", [], false, some []⟩

abbrev Hash (A R : Type) := String → String → User A R → Except Err String

namespace User

/-- `SetTo`: every field of `u` written into `newuser`. -/
def setTo (u newuser : User A R) : User A R :=
  { newuser with
    UID := u.UID, Password := u.Password, HashMode := u.HashMode, Salt := u.Salt,
    Accounts := u.Accounts, Banned := u.Banned, Roles := u.Roles }

def verifyPassword (hash : Hash A R) (u : User A R) (password : String) : Except Err Bool :=
  if u.Password = "" then .ok false
  else do
    let hashed ← hash u.HashMode password u
    pure (decide (hashed = u.Password))

/-- `u` as `UpdatePassword` writes it back: password cleared and no account. -/
def cleared (u : User A R) (hashmode salt : String) : User A R :=
  { u with Password := "", HashMode := hashmode, Salt := salt, Accounts := [] }

@[simp] theorem setTo_eq (u newuser : User A R) : u.setTo newuser = u := rfl

variable [Inhabited A] [Inhabited R]

/-- `Clone`: the accounts made with the new user's length `0`; a nil `Roles` panics. -/
def clone (u : User A R) : Option (User A R) :=
  let newuser : User A R := newUser
  let newuser := { newuser with UID := u.UID, HashMode := u.HashMode, Salt := u.Salt }
  let newuser := { newuser with Accounts := copy (make newuser.Accounts.length) u.Accounts }
  let newuser := { newuser with Banned := u.Banned }
  u.Roles.map fun roles => { newuser with Roles := some (copy (make roles.length) roles) }

/-- `UpdatePassword`, with `salt` from `getSalt(saltlength)`; `none` for the panic of `Clone`. -/
def updatePassword (hash : Hash A R) (salt : String) (u : User A R) (hashmode password : String) :
    Option (User A R × Option Err) :=
  u.clone.map fun newuser =>
    let newuser := { newuser with HashMode := hashmode }
    let newuser := { newuser with Salt := salt }
    match hash hashmode password newuser with
    | .error e => (u, some e)
    | .ok hashed =>
      let newuser := { newuser with Password := hashed }
      (newuser.setTo u, none)

theorem clone_eq (u : User A R) :
    u.clone = u.Roles.map fun _ => { u with Password := "", Accounts := [] } := by
  obtain ⟨uid, pw, hm, s, acc, b, _ | roles⟩ := u <;> simp [clone, newUser]

theorem updatePassword_eq (hash : Hash A R) (salt : String) (u : User A R)
    (hashmode password : String) :
    updatePassword hash salt u hashmode password = u.Roles.map fun _ =>
      match hash hashmode password (u.cleared hashmode salt) with
      | .error e => (u, some e)
      | .ok hashed => ({ u.cleared hashmode salt with Password := hashed }, none) := by
  rw [updatePassword, clone_eq, Option.map_map]
  rfl

theorem eq_cleared_of_updatePassword {hash : Hash A R} {salt : String} {u u' : User A R}
    {hashmode password : String} (h : updatePassword hash salt u hashmode password = some (u', none)) :
    hash hashmode password (u.cleared hashmode salt) = .ok u'.Password ∧
      u' = { u.cleared hashmode salt with Password := u'.Password } := by
  rw [updatePassword_eq] at h
  obtain ⟨_, -, h⟩ := Option.map_eq_some'.1 h
  split at h
  · cases h
  · next hashed hh =>
    cases h
    exact ⟨hh, rfl⟩

/-- `UpdatePassword` on success hashes the password and drops every account. -/
theorem updatePassword_drops_accounts {hash : Hash A R} {salt : String} {u u' : User A R}
    {hashmode password : String} (h : updatePassword hash salt u hashmode password = some (u', none)) :
    u'.UID = u.UID ∧ u'.Banned = u.Banned ∧ u'.Roles = u.Roles ∧ u'.HashMode = hashmode ∧
      u'.Salt = salt ∧ hash hashmode password (u.cleared hashmode salt) = .ok u'.Password ∧
      u'.Accounts = [] := by
  obtain ⟨hh, hu⟩ := eq_cleared_of_updatePassword h
  rw [hu]
  exact ⟨rfl, rfl, rfl, rfl, rfl, hh, rfl⟩

theorem update_password_drops_account :
    let hash : Hash Nat Nat := fun _ password _ => .ok password
    let u : User Nat Nat := ⟨"u", "", "md5", "", [1], false, some [2]⟩
    let u' : User Nat Nat := ⟨"u", "pw", "sha256", "abcdefgh", [], false, some [2]⟩
    updatePassword hash "abcdefgh" u "sha256" "pw" = some (u', none) ∧
      u'.UID = u.UID ∧ u'.Banned = u.Banned ∧ u'.Roles = u.Roles ∧ u'.HashMode = "sha256" ∧
      u'.Salt = "abcdefgh" ∧ hash "sha256" "pw" (u.cleared "sha256" "abcdefgh") = .ok u'.Password ∧
      u'.Accounts = [] := by
  intro hash u u'
  have h : updatePassword hash "abcdefgh" u "sha256" "pw" = some (u', none) := rfl
  exact ⟨h, updatePassword_drops_accounts h⟩

end User

end HerbCache.Tomluser
