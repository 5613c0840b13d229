import Mathlib.Data.List.AList

/-!
# Bytes, errors and clock time

A Go `[]byte` and a Go `string` are both `Bytes`; `Err` holds the error values the code compares
against. A `Time` is Go's `time.Time` in nanoseconds, with its Unix second held to an int64, and
`Time.add` and `Time.sub` saturate as Go's `Add` and `Sub` do. A Go `map[string][]byte` is an
`AList`, built key by key by the two loops of `lookup_foldl_insert` and `lookup_foldl_select`.
-/

namespace HerbCache

/-- A Go `[]byte`, and a Go `string`, which is a byte sequence. -/
abbrev Bytes := List UInt8

abbrev Key := Bytes

/-- The error values the code compares against. -/
inductive Err
  | notFound
  | keyUnavailable
  | entryTooLarge
  | notCacheable
  | featureNotSupported
  /-- Not an error value of the source: the runtime panic `index out of range`. -/
  | indexOutOfRange
  | other (code : Nat)
  deriving DecidableEq, Repr

instance instDecidableEqExcept {ε α : Type} [DecidableEq ε] [DecidableEq α] :
    DecidableEq (Except ε α)
  | .error a, .error b => decidable_of_iff (a = b) (by simp)
  | .ok a, .ok b => decidable_of_iff (a = b) (by simp)
  | .error _, .ok _ => isFalse (by simp)
  | .ok _, .error _ => isFalse (by simp)

/-- A Go `time.Time`, in nanoseconds since the Unix epoch; its Unix second fits in an int64. -/
structure Time where
  ns : Int
  ge_min : -9223372036854775808000000000 ≤ ns
  le_max : ns ≤ 9223372036854775807999999999

namespace Time

def ofNs (ns : Int) : Time :=
  ⟨max (-9223372036854775808000000000) (min 9223372036854775807999999999 ns), by omega, by omega⟩

/-- `t.Add(d)`. -/
def add (t : Time) (d : Int) : Time := ofNs (t.ns + d)

def unix (t : Time) : Int := t.ns / 1000000000

def ofUnix (sec : Int) : Time := ofNs (sec * 1000000000)

/-- `t.Sub(u)`, held to the int64 range of a duration. -/
def sub (t u : Time) : Int :=
  max (-9223372036854775808) (min 9223372036854775807 (t.ns - u.ns))

theorem ns_ofNs (ns : Int) :
    (ofNs ns).ns = max (-9223372036854775808000000000) (min 9223372036854775807999999999 ns) :=
  rfl

theorem ns_ofNs_of_le {ns : Int} (h₁ : -9223372036854775808000000000 ≤ ns)
    (h₂ : ns ≤ 9223372036854775807999999999) : (ofNs ns).ns = ns := by
  rw [ns_ofNs]; omega

theorem unix_lt (t : Time) : t.unix < 9223372036854775808 := by
  have := t.le_max; unfold unix; omega

theorem le_unix (t : Time) : -9223372036854775808 ≤ t.unix := by
  have := t.ge_min; unfold unix; omega

theorem unix_le_unix {t u : Time} (h : t.ns ≤ u.ns) : t.unix ≤ u.unix :=
  Int.ediv_le_ediv (by decide) h

theorem lt_unix_succ (t : Time) : t.ns < (t.unix + 1) * 1000000000 := by
  unfold unix; omega

theorem unix_mul_le (t : Time) : t.unix * 1000000000 ≤ t.ns := by
  unfold unix; omega

theorem ns_add_of_le (t : Time) {d : Int} (h₀ : 0 ≤ d) (h : t.ns + d ≤ 9223372036854775807999999999) :
    (t.add d).ns = t.ns + d :=
  ns_ofNs_of_le (by have := t.ge_min; omega) h

theorem ns_le_add (t : Time) {d : Int} (h₀ : 0 ≤ d) : t.ns ≤ (t.add d).ns := by
  have := t.le_max; rw [add, ns_ofNs]; omega

theorem ns_ofUnix {sec : Int} (h₁ : -9223372036854775808 ≤ sec) (h₂ : sec < 9223372036854775808) :
    (ofUnix sec).ns = sec * 1000000000 :=
  ns_ofNs_of_le (by omega) (by omega)

end Time

/-! ### Maps built key by key -/

section Maps

variable {f : Key → Key} {g : Bytes → Bytes}

theorem mem_foldl_insert {r : Key} :
    ∀ (es : List (Σ _ : Key, Bytes)) (m : AList fun _ : Key => Bytes),
      r ∈ es.foldl (fun m e => m.insert (f e.1) (g e.2)) m ↔ r ∈ m ∨ ∃ k ∈ es.keys, r = f k := by
  intro es
  induction es with
  | nil => simp
  | cons e es ih =>
    intro m
    rw [List.foldl, ih, AList.mem_insert, List.keys_cons]
    simp only [List.mem_cons, exists_eq_or_imp, or_assoc]
    exact or_left_comm

/-- Inserting entries with renamed keys: a key renamed from one entry only holds that entry. -/
theorem lookup_foldl_insert (k : Key) :
    ∀ (es : List (Σ _ : Key, Bytes)) (m : AList fun _ : Key => Bytes), es.NodupKeys →
      (∀ k' ∈ es.keys, f k' = f k → k' = k) →
      (es.foldl (fun m e => m.insert (f e.1) (g e.2)) m).lookup (f k) =
        ((es.dlookup k).map g).or (m.lookup (f k)) := by
  intro es
  induction es with
  | nil => simp
  | cons e es ih =>
    obtain ⟨k₀, x⟩ := e
    intro m hnd hf
    obtain ⟨hfst, hnd⟩ := List.nodupKeys_cons.1 hnd
    rw [List.foldl, ih _ hnd fun k' hk' => hf k' (List.mem_cons_of_mem _ hk')]
    by_cases hk : k = k₀
    · subst hk
      simp [List.dlookup_eq_none.2 hfst]
    · have hfk : f k ≠ f k₀ := fun h => hk (hf k₀ (List.mem_cons_self _ _) h.symm).symm
      simp [List.dlookup_cons_ne es ⟨k₀, x⟩ hk, AList.lookup_insert_ne hfk]

theorem lookup_foldl_select (get : Key → Option Bytes) (k : Key) :
    ∀ (keys : List Key) (m : AList fun _ : Key => Bytes),
      (keys.foldl (fun m k' => match get k' with
        | some b => m.insert k' b
        | none => m) m).lookup k =
        if k ∈ keys then (get k).or (m.lookup k) else m.lookup k := by
  intro keys
  induction keys with
  | nil => simp
  | cons k' keys ih =>
    intro m
    have hstep : (match get k' with
        | some b => m.insert k' b
        | none => m).lookup k = if k = k' then (get k).or (m.lookup k) else m.lookup k := by
      by_cases hk : k = k'
      · subst hk; cases get k <;> simp
      · cases get k' <;> simp [hk, AList.lookup_insert_ne hk]
    simp only [List.foldl, ih, hstep, List.mem_cons]
    by_cases hk : k = k'
    · subst hk
      cases get k <;> by_cases hks : k ∈ keys <;> simp [hks]
    · simp [hk]

theorem dlookup_filter_of_key {P : Key → Bool} {a : Key} (ha : P a = true) :
    ∀ es : List (Σ _ : Key, Bytes), (es.filter fun e => P e.1).dlookup a = es.dlookup a
  | [] => rfl
  | ⟨k₀, x⟩ :: es => by
    by_cases hk : a = k₀
    · subst hk
      simp only [List.filter_cons, ha, if_true, List.dlookup_cons_eq]
    · have hne : ∀ l : List (Σ _ : Key, Bytes), (⟨k₀, x⟩ :: l).dlookup a = l.dlookup a :=
        fun l => List.dlookup_cons_ne l ⟨k₀, x⟩ hk
      rw [List.filter_cons, hne]
      split_ifs <;> simp only [hne, dlookup_filter_of_key ha es]

end Maps

end HerbCache
