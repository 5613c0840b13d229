import Mathlib.Data.List.AList
import Mathlib.Data.List.Sort
import Mathlib.Data.String.Basic

/-!
# The marshaler registry

`marshalerFactories` maps a name to a `MarshalerFactory`. Each call holds the registry's mutex, so
each is one step on the map, and a panic is the `error` of that step. A run of registrations
returns exactly when no factory is nil and no name is registered twice
(`registerMarshalers_ok_iff`), and then `MarshalerFactories` lists every name once, sorted
whatever the order of the registrations (`registerMarshalers_spec`).
-/

namespace HerbCache

/-- A `MarshalerFactory`: called, it returns a marshaler of a type `μ` it does not look into, or an error. -/
abbrev MarshalerFactory (μ : Type) := Unit → Except String μ

abbrev Registry (μ : Type) := AList fun _ : String => MarshalerFactory μ

variable {μ : Type}

/-- `RegisterMarshaler`, with `none` for a nil factory: the panic, or the registry extended. -/
def registerMarshaler (name : String) (f : Option (MarshalerFactory μ)) (r : Registry μ) :
    Except String (Registry μ) :=
  match f with
  | none => .error "cache: Register marshaler factory is nil"
  | some f =>
    if (r.lookup name).isSome then .error ("cache: Register marshaler twice for factory " ++ name)
    else .ok (r.insert name f)

def unregisterAllMarshalers : Registry μ := ∅

/-- `MarshalerFactories`: the names, sorted as `sort.Strings` sorts them. -/
def marshalerFactories (r : Registry μ) : List String := r.keys.insertionSort (· ≤ ·)

def unknownMarshaler (quote : String → String) (name : String) : String :=
  "cache: unknown marshaler " ++ quote name ++ " (forgotten import?)" ++
    if name = "msgpack" then
      "\nYou should add \n\timport _ \"github.com/herb-go/deprecated/cache/marshalers/msgpackmarshaler\" \nto your code."
    else ""

/-- `NewMarshaler`: the result of the factory registered under `name`, or the error. -/
def newMarshaler (quote : String → String) (name : String) (r : Registry μ) : Except String μ :=
  match r.lookup name with
  | none => .error (unknownMarshaler quote name)
  | some f => f ()

def initRegistry (json : MarshalerFactory μ) : Except String (Registry μ) :=
  registerMarshaler "json" (some json) unregisterAllMarshalers

/-- `RegisterMarshaler` of each pair in turn, stopping at the first panic. -/
def registerMarshalers (regs : List (String × Option (MarshalerFactory μ))) (r : Registry μ) :
    Except String (Registry μ) :=
  regs.foldlM (fun r p => registerMarshaler p.1 p.2 r) r

/-! ### One registration -/

theorem registerMarshaler_eq_ok {name : String} {f : Option (MarshalerFactory μ)} {r r' : Registry μ} :
    registerMarshaler name f r = .ok r' ↔ ∃ g, f = some g ∧ name ∉ r ∧ r' = r.insert name g := by
  cases f with
  | none => simp [registerMarshaler]
  | some g =>
    by_cases hn : name ∈ r
    · simp [registerMarshaler, AList.lookup_isSome.2 hn, hn]
    · simp [registerMarshaler, AList.lookup_eq_none.2 hn, hn, eq_comm]

theorem keys_insert_of_not_mem {name : String} {g : MarshalerFactory μ} {r : Registry μ} (hn : name ∉ r) :
    (r.insert name g).keys = name :: r.keys := by
  rw [AList.keys_insert, List.erase_of_not_mem (AList.mem_keys.not.1 hn)]

theorem marshalerFactories_sorted (r : Registry μ) : (marshalerFactories r).Sorted (· < ·) :=
  (List.sorted_insertionSort _ _).lt_of_le ((List.perm_insertionSort _ _).nodup_iff.2 r.nodupKeys)

/-! ### Runs of registrations -/

theorem registerMarshalers_cons (name : String) (f : Option (MarshalerFactory μ))
    (regs : List (String × Option (MarshalerFactory μ))) (r : Registry μ) :
    registerMarshalers ((name, f) :: regs) r = (registerMarshaler name f r).bind (registerMarshalers regs) :=
  rfl

/-- Registrations return exactly when no factory is nil and no name is registered twice. -/
theorem registerMarshalers_ok_iff :
    ∀ (regs : List (String × Option (MarshalerFactory μ))) (r : Registry μ),
      (∃ r', registerMarshalers regs r = .ok r') ↔
        (∀ p ∈ regs, p.2 ≠ none) ∧ (r.keys ++ regs.map Prod.fst).Nodup
  | [], r => ⟨fun _ => ⟨fun _ h => (nomatch h), by simpa using r.keys_nodup⟩, fun _ => ⟨r, rfl⟩⟩
  | (name, f) :: regs, r => by
    rw [registerMarshalers_cons]
    rcases hs : registerMarshaler name f r with msg | r₁
    · refine ⟨fun ⟨_, h⟩ => (by cases h), fun ⟨hf, hnd⟩ => ?_⟩
      obtain ⟨g, rfl⟩ := Option.ne_none_iff_exists'.1 (hf _ (List.mem_cons_self _ _))
      have hn : name ∉ r := fun hn =>
        (List.nodup_cons.1 (List.nodup_middle.1 hnd)).1 (List.mem_append_left _ (AList.mem_keys.1 hn))
      rw [registerMarshaler_eq_ok.2 ⟨g, rfl, hn, rfl⟩] at hs
      cases hs
    · obtain ⟨g, rfl, hn, rfl⟩ := registerMarshaler_eq_ok.1 hs
      show (∃ r', registerMarshalers regs (r.insert name g) = .ok r') ↔ _
      rw [registerMarshalers_ok_iff regs, keys_insert_of_not_mem hn]
      simp [List.nodup_middle]

theorem keys_registerMarshalers : ∀ {regs : List (String × Option (MarshalerFactory μ))} {r r' : Registry μ},
    registerMarshalers regs r = .ok r' → r'.keys.Perm (r.keys ++ regs.map Prod.fst)
  | [], r, r', h => by cases h; simp
  | (name, f) :: regs, r, r', h => by
    rw [registerMarshalers_cons] at h
    rcases hs : registerMarshaler name f r with msg | r₁ <;> rw [hs] at h
    · cases h
    · obtain ⟨g, rfl, hn, rfl⟩ := registerMarshaler_eq_ok.1 hs
      have hk := keys_registerMarshalers h
      rw [keys_insert_of_not_mem hn] at hk
      exact hk.trans List.perm_middle.symm

theorem lookup_registerMarshalers : ∀ {regs : List (String × Option (MarshalerFactory μ))} {r r' : Registry μ},
    registerMarshalers regs r = .ok r' →
      (∀ p ∈ regs, r'.lookup p.1 = p.2) ∧ ∀ name ∉ regs.map Prod.fst, r'.lookup name = r.lookup name
  | [], r, r', h => by cases h; simp
  | (name, f) :: regs, r, r', h => by
    rw [registerMarshalers_cons] at h
    rcases hs : registerMarshaler name f r with msg | r₁ <;> rw [hs] at h
    · cases h
    · obtain ⟨g, rfl, hn, rfl⟩ := registerMarshaler_eq_ok.1 hs
      obtain ⟨ih₁, ih₂⟩ := lookup_registerMarshalers h
      have hfresh : name ∉ regs.map Prod.fst := by
        have hnd := ((registerMarshalers_ok_iff regs _).1 ⟨_, h⟩).2
        rw [keys_insert_of_not_mem hn] at hnd
        exact fun hm => (List.nodup_cons.1 hnd).1 (List.mem_append_right _ hm)
      refine ⟨fun p hp => ?_, fun k hk => ?_⟩
      · rcases List.mem_cons.1 hp with rfl | hp
        · rw [ih₂ _ hfresh, AList.lookup_insert]
        · exact ih₁ p hp
      · simp only [List.map_cons, List.mem_cons, not_or] at hk
        rw [ih₂ k hk.2, AList.lookup_insert_ne hk.1]

/-- After registrations that return, `MarshalerFactories` is every name registered, sorted. -/
theorem registerMarshalers_spec {regs : List (String × Option (MarshalerFactory μ))} {r r' : Registry μ}
    (h : registerMarshalers regs r = .ok r') :
    marshalerFactories r' = (r.keys ++ regs.map Prod.fst).insertionSort (· ≤ ·) ∧
      (∀ p ∈ regs, r'.lookup p.1 = p.2) ∧ ∀ name ∉ regs.map Prod.fst, r'.lookup name = r.lookup name := by
  refine ⟨List.eq_of_perm_of_sorted ?_ (List.sorted_insertionSort _ _) (List.sorted_insertionSort _ _),
    lookup_registerMarshalers h⟩
  exact (List.perm_insertionSort _ _).trans ((keys_registerMarshalers h).trans (List.perm_insertionSort _ _).symm)

theorem registerMarshalers_msgpack_json :
    let msgpack : MarshalerFactory Nat := fun _ => .ok 1
    let json : MarshalerFactory Nat := fun _ => .ok 0
    let regs := [("msgpack", some msgpack), ("json", some json)]
    let r' := ((∅ : Registry Nat).insert "msgpack" msgpack).insert "json" json
    registerMarshalers regs ∅ = .ok r' ∧
      marshalerFactories r' = ((∅ : Registry Nat).keys ++ regs.map Prod.fst).insertionSort (· ≤ ·) ∧
      (∀ p ∈ regs, r'.lookup p.1 = p.2) ∧ ∀ name ∉ regs.map Prod.fst, r'.lookup name = (∅ : Registry Nat).lookup name := by
  intro msgpack json regs r'
  have h : registerMarshalers regs ∅ = .ok r' := rfl
  exact ⟨h, registerMarshalers_spec h⟩

end HerbCache
