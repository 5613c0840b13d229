import Mathlib.Algebra.Group.Nat.Basic
import HerbCache.Basic

/-!
# The group cache's entry framing

`entry.Set` frames a payload behind an 8-byte header holding its expiry, an int64 Unix second
written by `binary.BigEndian.PutUint64`; `entry.Get` reads it back and answers `ErrNotFound` for
bytes too short for a header or an expiry already past. `entry_framing` is the round trip: an
entry reads back as its payload until its second has passed, and every accepted string is a
header followed by a payload.
-/

namespace HerbCache.Cachegroup

def leBytes : Nat → Nat → Bytes
  | 0, _ => []
  | w + 1, n => UInt8.ofNat (n % 256) :: leBytes w (n / 256)

def ofLeBytes : Bytes → Nat
  | [] => 0
  | b :: bs => b.toNat + 256 * ofLeBytes bs

/-- `binary.BigEndian.PutUint64`: the eight bytes of `v`, most significant first. -/
def putUint64 (v : BitVec 64) : Bytes := (leBytes 8 v.toNat).reverse

/-- `binary.BigEndian.Uint64`: the number whose big-endian bytes are the first eight of `b`. -/
def uint64 (b : Bytes) : BitVec 64 := BitVec.ofNat 64 (ofLeBytes (b.take 8).reverse)

/-- `entry.Set`: the header `uint64(expired)` and `bytes`, with `expired = now.Add(ttl).Unix()`. -/
def Entry.set (bytes : Bytes) (ttl : Int) (now : Time) : Bytes × Int :=
  let expired := (now.add ttl).unix
  (putUint64 (BitVec.ofInt 64 expired) ++ bytes, expired)

/-- `entry.Get` at `now`: the payload and the expiry `int64(...)` of the header. -/
def Entry.get (e : Bytes) (now : Time) : Except Err (Bytes × Int) :=
  if e.length < 8 then .error .notFound
  else
    let expired := (uint64 (e.take 8)).toInt
    if expired < now.unix then .error .notFound
    else .ok (e.drop 8, expired)

/-! ### Digits -/

@[simp] theorem length_leBytes (w n : Nat) : (leBytes w n).length = w := by
  induction w generalizing n with
  | zero => rfl
  | succ w ih => simp [leBytes, ih]

theorem ofLeBytes_leBytes (w n : Nat) : ofLeBytes (leBytes w n) = n % 256 ^ w := by
  induction w generalizing n with
  | zero => exact (Nat.mod_one n).symm
  | succ w ih =>
    show (n % 256) % 256 + 256 * ofLeBytes (leBytes w (n / 256)) = _
    rw [ih, Nat.pow_succ', Nat.mod_mul, Nat.mod_mod]

theorem leBytes_ofLeBytes (l : Bytes) : leBytes l.length (ofLeBytes l) = l := by
  induction l with
  | nil => rfl
  | cons b bs ih =>
    have hb : b.toNat < 256 := b.toBitVec.isLt
    simp only [List.length_cons, leBytes, ofLeBytes]
    congr 1
    · exact UInt8.eq_of_toBitVec_eq (BitVec.eq_of_toNat_eq
        (show (b.toNat + 256 * ofLeBytes bs) % 256 % 256 = b.toNat by omega))
    · rwa [show (b.toNat + 256 * ofLeBytes bs) / 256 = ofLeBytes bs by omega]

theorem ofLeBytes_lt (l : Bytes) : ofLeBytes l < 256 ^ l.length := by
  induction l with
  | nil => exact Nat.one_pos
  | cons b bs ih =>
    have hb : b.toNat < 256 := b.toBitVec.isLt
    rw [ofLeBytes, List.length_cons, Nat.pow_succ']
    omega

/-! ### `PutUint64` and `Uint64` -/

@[simp] theorem length_putUint64 (v : BitVec 64) : (putUint64 v).length = 8 := by
  simp [putUint64]

theorem uint64_putUint64_append (v : BitVec 64) (p : Bytes) : uint64 (putUint64 v ++ p) = v := by
  have hv := v.isLt
  apply BitVec.eq_of_toNat_eq
  rw [uint64, List.take_left' (length_putUint64 v), putUint64, List.reverse_reverse,
    BitVec.toNat_ofNat, ofLeBytes_leBytes, show (256 : Nat) ^ 8 = 2 ^ 64 by rfl, Nat.mod_mod,
    Nat.mod_eq_of_lt hv]

@[simp] theorem uint64_putUint64 (v : BitVec 64) : uint64 (putUint64 v) = v := by
  simpa using uint64_putUint64_append v []

theorem putUint64_uint64 {b : Bytes} (h : b.length = 8) : putUint64 (uint64 b) = b := by
  have hlt : ofLeBytes b.reverse < 2 ^ 64 := by
    simpa [h] using ofLeBytes_lt b.reverse
  rw [putUint64, uint64, List.take_of_length_le (by omega), BitVec.toNat_ofNat,
    Nat.mod_eq_of_lt hlt, ← List.reverse_reverse b]
  simpa [h] using congrArg List.reverse (leBytes_ofLeBytes b.reverse)

/-- Go's `int64(uint64(x))` is `x` for every int64 `x`. -/
theorem toInt_ofInt_of_le {x : Int} (h₁ : -9223372036854775808 ≤ x)
    (h₂ : x < 9223372036854775808) : (BitVec.ofInt 64 x).toInt = x := by
  rw [BitVec.toInt_ofInt, Int.bmod_def]
  split <;> omega

theorem ofInt_toInt (v : BitVec 64) : BitVec.ofInt 64 v.toInt = v := by
  rw [← BitVec.toInt_inj, BitVec.toInt_ofInt, BitVec.toInt_eq_toNat_bmod, Int.bmod_bmod]

/-! ### The framing -/

@[simp] theorem length_set (b : Bytes) (d : Int) (τ : Time) :
    (Entry.set b d τ).1.length = 8 + b.length := by
  simp [Entry.set]

theorem get_putUint64_append (v : BitVec 64) (p : Bytes) (now : Time) :
    Entry.get (putUint64 v ++ p) now =
      if v.toInt < now.unix then .error .notFound else .ok (p, v.toInt) := by
  simp only [Entry.get, List.length_append, length_putUint64, List.take_left' (length_putUint64 v),
    List.drop_left' (length_putUint64 v), uint64_putUint64]
  simp

theorem get_set (b : Bytes) (d : Int) (τ τ' : Time) :
    Entry.get (Entry.set b d τ).1 τ' =
      if (τ.add d).unix < τ'.unix then .error .notFound else .ok (b, (τ.add d).unix) := by
  rw [Entry.set, get_putUint64_append,
    toInt_ofInt_of_le (Time.le_unix (τ.add d)) (Time.unix_lt (τ.add d))]

/-- `entry.Get` fails only with `ErrNotFound`. -/
theorem get_error {x : Bytes} {now : Time} {e : Err} (h : Entry.get x now = .error e) :
    e = .notFound := by
  simp only [Entry.get] at h
  split_ifs at h <;> exact (Except.error.inj h).symm

theorem eq_of_get {x p : Bytes} {E : Int} {now : Time} (h : Entry.get x now = .ok (p, E)) :
    x = putUint64 (BitVec.ofInt 64 E) ++ p ∧ now.unix ≤ E := by
  simp only [Entry.get] at h
  split_ifs at h with h₁ h₂
  obtain ⟨rfl, rfl⟩ := Prod.mk.inj (Except.ok.inj h)
  have h8 : (x.take 8).length = 8 := by simp; omega
  refine ⟨?_, by omega⟩
  rw [ofInt_toInt, putUint64_uint64 h8, List.take_append_drop]

theorem entry_framing (b : Bytes) (d : Int) (τ τ' : Time) :
    (Entry.set b d τ).1.length = 8 + b.length ∧
    (Entry.set b d τ).2 = (τ.add d).unix ∧
    Entry.get (Entry.set b d τ).1 τ' =
      (if τ'.unix ≤ (Entry.set b d τ).2 then .ok (b, (Entry.set b d τ).2) else .error .notFound) ∧
    (∀ E : Int, -9223372036854775808 ≤ E → E < 9223372036854775808 →
      (uint64 (putUint64 (BitVec.ofInt 64 E))).toInt = E) ∧
    (∀ (x p : Bytes) (E : Int), Entry.get x τ' = .ok (p, E) →
      x = putUint64 (BitVec.ofInt 64 E) ++ p) ∧
    (∀ x : Bytes, x.length < 8 → Entry.get x τ' = .error .notFound) := by
  refine ⟨length_set b d τ, rfl, ?_, fun E h₁ h₂ => ?_, fun x p E h => (eq_of_get h).1,
    fun x h => by simp [Entry.get, h]⟩
  · rw [get_set]
    show _ = if τ'.unix ≤ (τ.add d).unix then _ else _
    split_ifs <;> first | rfl | omega
  · rw [uint64_putUint64, toInt_ofInt_of_le h₁ h₂]

theorem entry_framing_examples :
    (uint64 (putUint64 (BitVec.ofInt 64 (-1)))).toInt = -1 ∧
    (Entry.set [5] 1000000000 (Time.ofNs 0)).1 = putUint64 (BitVec.ofInt 64 1) ++ [5] ∧
    Entry.get [0, 0, 1] (Time.ofNs 0) = .error .notFound :=
  ⟨(entry_framing [] 0 (Time.ofNs 0) (Time.ofNs 0)).2.2.2.1 (-1) (by decide) (by decide),
    (entry_framing [] 0 (Time.ofNs 0) (Time.ofNs 0)).2.2.2.2.1 _ [5] 1 (by decide),
    (entry_framing [] 0 (Time.ofNs 0) (Time.ofNs 0)).2.2.2.2.2 [0, 0, 1] (by decide)⟩

end HerbCache.Cachegroup
