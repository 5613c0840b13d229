import HerbCache.Basic

/-!
# Random tokens

`RandomBytes` fills a slice with crypto/rand's `Read`, and `RandMaskedBytes` maps each random byte
`v` to `mask[int(v) % len(mask)]`, which panics over the empty mask (`randMaskedBytes_spec`).
A call of `Read` is a `Draw`, and every byte string is a possible draw. The retry loops
`NewRandomBytes` and `NewRandMaskedBytes` are functions of their draws (`Loop`), and keep running
exactly while every draw gives the token `origin` (`retry_loops_exit_iff`).
-/

namespace HerbCache

/-- An outcome of `Read` into a slice of `length` bytes: the bytes written and the error. -/
structure Draw (length : Nat) where
  bytes : Bytes
  err : Option Err
  length_eq : bytes.length = length

variable {length : Nat}

def randomBytes (d : Draw length) : Bytes × Option Err := (d.bytes, d.err)

/-- `mask[int(v) % len(mask)]`; the modulo by the empty mask's length panics. -/
def maskByte (mask : Bytes) (v : UInt8) : Option UInt8 :=
  if h : 0 < mask.length then some (mask.get ⟨v.toNat % mask.length, Nat.mod_lt _ h⟩) else none

/-- `RandMaskedBytes(mask, length)`: each random byte masked, `none` for the panic. -/
def randMaskedBytes (mask : Bytes) (d : Draw length) : Option (Bytes × Option Err) :=
  match d.err with
  | some e => some (List.replicate length 0, some e)
  | none => (d.bytes.mapM (maskByte mask)).map fun masked => (masked, none)

inductive Loop
  | returned (token : Bytes) (err : Option Err)
  | panicked
  | running
  deriving DecidableEq

/-- `NewRandomBytes(length, origin)`, over the draws of its iterations. -/
def newRandomBytes (origin : Bytes) : List (Draw length) → Loop
  | [] => .running
  | d :: ds =>
    match randomBytes d with
    | (token, some e) => .returned token (some e)
    | (token, none) => if token = origin then newRandomBytes origin ds else .returned token none

def newRandMaskedBytes (mask origin : Bytes) : List (Draw length) → Loop
  | [] => .running
  | d :: ds =>
    match randMaskedBytes mask d with
    | none => .panicked
    | some (token, some e) => .returned token (some e)
    | some (token, none) =>
      if token = origin then newRandMaskedBytes mask origin ds else .returned token none

/-! ### Masking -/

theorem get_mod_mem_take (mask : Bytes) (v : UInt8) (h : 0 < mask.length) :
    mask.get ⟨v.toNat % mask.length, Nat.mod_lt _ h⟩ ∈ mask.take 256 := by
  have hi : v.toNat % mask.length < 256 := (Nat.mod_le _ _).trans_lt v.toBitVec.isLt
  rw [List.get_eq_getElem, List.getElem_take' mask _ hi]
  exact List.getElem_mem _

theorem mapM_maskByte_of_pos {mask : Bytes} (h : 0 < mask.length) :
    ∀ l : List UInt8, l.mapM (maskByte mask) =
      some (l.map fun v => mask.get ⟨v.toNat % mask.length, Nat.mod_lt _ h⟩)
  | [] => rfl
  | v :: l => by
    rw [List.mapM_cons, mapM_maskByte_of_pos h l]
    simp [maskByte, h]

theorem mapM_maskByte_nil : ∀ l : List UInt8, l.mapM (maskByte []) = if l = [] then some [] else none
  | [] => rfl
  | v :: l => by
    rw [List.mapM_cons]
    simp [maskByte]

theorem randMaskedBytes_of_err (mask : Bytes) {d : Draw length} {e : Err} (h : d.err = some e) :
    randMaskedBytes mask d = some (List.replicate length 0, some e) := by
  simp only [randMaskedBytes, h]

theorem randMaskedBytes_of_pos {mask : Bytes} {d : Draw length} (h : d.err = none)
    (hm : 0 < mask.length) :
    randMaskedBytes mask d =
      some (d.bytes.map fun v => mask.get ⟨v.toNat % mask.length, Nat.mod_lt _ hm⟩, none) := by
  simp only [randMaskedBytes, h, mapM_maskByte_of_pos hm, Option.map_some']

theorem randMaskedBytes_nil_mask {d : Draw length} (h : d.err = none) :
    randMaskedBytes [] d = if length = 0 then some ([], none) else none := by
  obtain ⟨bytes, err, rfl⟩ := d
  cases h
  simp only [randMaskedBytes]
  rw [mapM_maskByte_nil]
  cases bytes <;> simp

/-- `RandMaskedBytes` completes unless the mask is empty, with `length` bytes and `Read`'s error. -/
theorem randMaskedBytes_spec (mask : Bytes) (d : Draw length) :
    ((randMaskedBytes mask d).isSome ↔ mask ≠ [] ∨ length = 0 ∨ d.err ≠ none) ∧
    ∀ token err, randMaskedBytes mask d = some (token, err) →
      err = d.err ∧ token.length = length ∧ (err ≠ none → token = List.replicate length 0) ∧
        (err = none → ∀ b ∈ token, b ∈ mask) := by
  cases he : d.err with
  | some e =>
    rw [randMaskedBytes_of_err mask he]
    refine ⟨by simp, ?_⟩
    rintro _ _ ⟨⟩
    exact ⟨rfl, List.length_replicate _ _, fun _ => rfl, nofun⟩
  | none =>
    by_cases hm : 0 < mask.length
    · rw [randMaskedBytes_of_pos he hm]
      refine ⟨by simp [← List.length_pos, hm], ?_⟩
      rintro _ _ ⟨⟩
      refine ⟨rfl, by simp [d.length_eq], fun h => absurd rfl h, fun _ b hb => ?_⟩
      obtain ⟨v, -, rfl⟩ := List.mem_map.1 hb
      exact List.get_mem _ _ _
    · obtain rfl : mask = [] := List.length_eq_zero.1 (Nat.eq_zero_of_not_pos hm)
      rw [randMaskedBytes_nil_mask he]
      split_ifs with hl
      · refine ⟨by simp [hl], ?_⟩
        rintro _ _ ⟨⟩
        exact ⟨rfl, hl.symm, fun h => absurd rfl h, fun _ => nofun⟩
      · simp [hl]

theorem empty_mask_panics : randMaskedBytes [] (⟨[0], none, rfl⟩ : Draw 1) = none :=
  rfl

theorem rand_masked_bytes_two_bytes :
    randMaskedBytes [97, 98] (⟨[0, 255], none, rfl⟩ : Draw 2) = some ([97, 98], none) ∧
      ([97, 98] : Bytes).length = 2 ∧ (∀ b ∈ ([97, 98] : Bytes), b ∈ ([97, 98] : Bytes)) ∧
    randMaskedBytes [] (⟨[7, 7], some (.other 5), rfl⟩ : Draw 2) = some ([0, 0], some (.other 5)) ∧
      ([0, 0] : Bytes) = List.replicate 2 0 :=
  have h : randMaskedBytes [97, 98] (⟨[0, 255], none, rfl⟩ : Draw 2) = some ([97, 98], none) := rfl
  have h' : randMaskedBytes [] (⟨[7, 7], some (.other 5), rfl⟩ : Draw 2) =
      some ([0, 0], some (.other 5)) := rfl
  ⟨h, ((randMaskedBytes_spec _ _).2 _ _ h).2.1, ((randMaskedBytes_spec _ _).2 _ _ h).2.2.2 rfl, h',
    ((randMaskedBytes_spec _ _).2 _ _ h').2.2.1 nofun⟩

theorem mem_take_of_randMaskedBytes {mask token : Bytes} {d : Draw length}
    (h : randMaskedBytes mask d = some (token, none)) :
    token.length = length ∧ ∀ b ∈ token, b ∈ mask.take 256 := by
  cases he : d.err with
  | some e => rw [randMaskedBytes_of_err mask he] at h; cases h
  | none =>
    rcases Nat.eq_zero_or_pos mask.length with hm | hm
    · obtain rfl : mask = [] := List.length_eq_zero.1 hm
      rw [randMaskedBytes_nil_mask he] at h
      split_ifs at h with hl
      cases h
      exact ⟨hl.symm, nofun⟩
    · rw [randMaskedBytes_of_pos he hm] at h
      cases h
      refine ⟨by simp [d.length_eq], fun b hb => ?_⟩
      obtain ⟨v, -, rfl⟩ := List.mem_map.1 hb
      exact get_mod_mem_take mask v hm

theorem get_indexOf_take {mask : Bytes} (hm : 0 < mask.length) {b : UInt8}
    (hb : b ∈ mask.take 256) :
    mask.get ⟨(UInt8.ofNat ((mask.take 256).indexOf b)).toNat % mask.length, Nat.mod_lt _ hm⟩ =
      b := by
  have hj := List.indexOf_lt_length.2 hb
  rw [List.length_take] at hj
  have h256 : (mask.take 256).indexOf b < 256 := lt_of_lt_of_le hj (min_le_left _ _)
  simp only [List.get_eq_getElem, UInt8.toNat_ofNat_of_lt h256,
    Nat.mod_eq_of_lt (lt_of_lt_of_le hj (min_le_right _ _))]
  rw [List.getElem_take' mask _ h256]
  exact List.getElem_indexOf _

/-- The tokens `RandMaskedBytes` can return are the strings of the mask's first 256 bytes. -/
theorem exists_draw_iff {mask token : Bytes} :
    (∃ d : Draw length, randMaskedBytes mask d = some (token, none)) ↔
      token.length = length ∧ ∀ b ∈ token, b ∈ mask.take 256 := by
  refine ⟨fun ⟨_, h⟩ => mem_take_of_randMaskedBytes h, fun ⟨htl, hmem⟩ => ?_⟩
  refine ⟨⟨token.map fun b => UInt8.ofNat ((mask.take 256).indexOf b), none, by simp [htl]⟩, ?_⟩
  rcases Nat.eq_zero_or_pos mask.length with hm | hm
  · obtain rfl : mask = [] := List.length_eq_zero.1 hm
    obtain rfl : token = [] := List.eq_nil_iff_forall_not_mem.2 fun b hb => by simpa using hmem b hb
    rw [randMaskedBytes_nil_mask rfl, if_pos (by simpa using htl.symm)]
  · rw [randMaskedBytes_of_pos rfl hm, List.map_map]
    congr
    exact (List.map_congr_left fun b hb => get_indexOf_take hm (hmem b hb)).trans (List.map_id token)

/-! ### The retry loops -/

theorem newRandomBytes_running_iff (origin : Bytes) :
    ∀ ds : List (Draw length),
      newRandomBytes origin ds = .running ↔ ∀ d ∈ ds, d.err = none ∧ d.bytes = origin
  | [] => by simp [newRandomBytes]
  | ⟨bytes, err, _⟩ :: ds => by
    cases err with
    | some e => simp [newRandomBytes, randomBytes]
    | none =>
      by_cases h : bytes = origin
      · simp [newRandomBytes, randomBytes, h, newRandomBytes_running_iff origin ds]
      · simp [newRandomBytes, randomBytes, h]

theorem newRandMaskedBytes_running_iff (mask origin : Bytes) :
    ∀ ds : List (Draw length), newRandMaskedBytes mask origin ds = .running ↔
      ∀ d ∈ ds, randMaskedBytes mask d = some (origin, none)
  | [] => by simp [newRandMaskedBytes]
  | d :: ds => by
    simp only [newRandMaskedBytes, List.forall_mem_cons,
      ← newRandMaskedBytes_running_iff mask origin ds]
    rcases randMaskedBytes mask d with _ | ⟨token, _ | e⟩
    · simp
    · by_cases h : token = origin <;> simp [h]
    · simp

theorem exists_draw_ne_iff {origin : Bytes} :
    (∃ d : Draw length, d.err = none ∧ d.bytes ≠ origin) ↔ length ≠ 0 ∨ origin ≠ [] := by
  constructor
  · rintro ⟨⟨bytes, _, hl⟩, -, hne⟩
    by_contra h
    obtain ⟨rfl, rfl⟩ := not_or.1 h |>.imp not_not.1 not_not.1
    exact hne (List.length_eq_zero.1 hl)
  · intro h
    by_cases ho : origin = List.replicate length 0
    · refine ⟨⟨List.replicate length 1, none, List.length_replicate _ _⟩, rfl, ?_⟩
      have hl : length ≠ 0 := fun hl => h.elim (· hl) (· (by simp [ho, hl]))
      simp [ho, hl]
    · exact ⟨⟨List.replicate length 0, none, List.length_replicate _ _⟩, rfl, fun h' => ho h'.symm⟩

/-- The retry loops run on exactly while every draw gives `origin`. -/
theorem retry_loops_exit_iff (origin : Bytes) :
    (∀ ds : List (Draw length),
      newRandomBytes origin ds = .running ↔ ∀ d ∈ ds, d.err = none ∧ d.bytes = origin) ∧
    ((∃ d : Draw length, d.err = none ∧ d.bytes ≠ origin) ↔ length ≠ 0 ∨ origin ≠ []) ∧
    ∀ mask, (∀ ds : List (Draw length), newRandMaskedBytes mask origin ds = .running ↔
        ∀ d ∈ ds, randMaskedBytes mask d = some (origin, none)) ∧
      ((∃ (d : Draw length) (token : Bytes), randMaskedBytes mask d = some (token, none) ∧
          token ≠ origin) ↔
        ∃ token : Bytes, token.length = length ∧ (∀ b ∈ token, b ∈ mask.take 256) ∧
          token ≠ origin) := by
  refine ⟨newRandomBytes_running_iff origin, exists_draw_ne_iff, fun mask =>
    ⟨newRandMaskedBytes_running_iff mask origin, ⟨?_, ?_⟩⟩⟩
  · rintro ⟨d, token, hd, hne⟩
    exact ⟨token, (exists_draw_iff.1 ⟨d, hd⟩).1, (exists_draw_iff.1 ⟨d, hd⟩).2, hne⟩
  · rintro ⟨token, htl, hmem, hne⟩
    obtain ⟨d, hd⟩ := exists_draw_iff.2 ⟨htl, hmem⟩
    exact ⟨d, token, hd, hne⟩

theorem retry_loops_never_exit :
    newRandomBytes [] (List.replicate 3 (⟨[], none, rfl⟩ : Draw 0)) = .running ∧
    newRandMaskedBytes [97, 97] [97] (List.replicate 3 (⟨[5], none, rfl⟩ : Draw 1)) = .running :=
  ⟨rfl, rfl⟩

theorem retry_loops_exit_one_byte :
    (∃ d : Draw 1, d.err = none ∧ d.bytes ≠ [0]) ∧
    ∃ (d : Draw 1) (token : Bytes), randMaskedBytes [97, 98] d = some (token, none) ∧ token ≠ [0] :=
  ⟨(retry_loops_exit_iff [0]).2.1.2 (.inl Nat.one_ne_zero),
    ((retry_loops_exit_iff [0]).2.2 [97, 98]).2.2 ⟨[97], rfl, by decide, by decide⟩⟩

end HerbCache
