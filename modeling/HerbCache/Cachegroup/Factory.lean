import HerbCache.Cachegroup.Run

/-!
# The registered driver factory

`init` registers the factory `"cachegroup"`, which makes each configuration its loader yields a
tier with `cache.NewSubCache`, a parameter here since neither is among the sources. It accepts
the empty list, and the group with no tier it builds is a fixed point of every call: the writes
and batch calls panic on `SubCaches[len(SubCaches)-1]`, `GetBytesValue` and `Expire` answer
`ErrNotFound`, and `Del` and `Flush` answer `nil`.
-/

namespace HerbCache.Cachegroup

variable {α : Type}

/-- The factory `"cachegroup"`: each configuration made a tier; the first error stops it. -/
def factory (newSubCache : α → Except Err Tier) (loader : Except Err (List α)) :
    Except Err Cache := do
  let caches ← loader
  let subCaches ← caches.mapM newSubCache
  pure ⟨subCaches⟩

theorem length_mapM_of_ok {newSubCache : α → Except Err Tier} :
    ∀ {caches : List α} {subCaches : List Tier}, caches.mapM newSubCache = .ok subCaches →
      subCaches.length = caches.length
  | [], _, h => by cases h; rfl
  | c :: caches, _, h => by
    rw [List.mapM_cons] at h
    rcases hc : newSubCache c with e | v <;> rw [hc] at h
    · cases h
    · rcases hcs : caches.mapM newSubCache with e | vs <;> rw [hcs] at h
      · cases h
      · cases h
        simp [length_mapM_of_ok hcs]

theorem factory_subCaches_length {newSubCache : α → Except Err Tier} {caches : List α} {c : Cache}
    (h : factory newSubCache (.ok caches) = .ok c) : c.subCaches.length = caches.length := by
  rcases hs : caches.mapM newSubCache with e | subCaches <;>
    simp only [factory, hs, bind, Except.bind, pure, Except.pure] at h <;> cases h
  exact length_mapM_of_ok hs

/-- What the group with no tier answers to each call. -/
def emptyAnswer : Op → Answer
  | .setBytesValue .. | .updateBytesValue .. | .mSetBytesValue .. => .err (some .indexOutOfRange)
  | .mGetBytesValue _ => .batch (.error .indexOutOfRange)
  | .getBytesValue _ => .bytes (.error .notFound)
  | .expire .. => .err (some .notFound)
  | .del _ | .flush => .err none

theorem step_empty (now : Time) (op : Op) :
    (⟨[]⟩ : Cache).step now op = (⟨[]⟩, emptyAnswer op) := by
  cases op <;> rfl

theorem run_empty : ∀ ops : List (Time × Op),
    (⟨[]⟩ : Cache).run ops = (⟨[]⟩, ops.map fun o => emptyAnswer o.2)
  | [] => rfl
  | (now, op) :: ops => by
    simp only [Cache.run, step_empty, run_empty ops, List.map_cons]

/-- The factory builds the group with no tier, and there every write and batch call panics. -/
theorem factory_empty_group_panics (newSubCache : α → Except Err Tier) :
    factory newSubCache (.ok []) = .ok ⟨[]⟩ ∧
    (∀ caches c, factory newSubCache (.ok caches) = .ok c → (c.subCaches = [] ↔ caches = [])) ∧
    ∀ key bytes ttl keys data now,
      (⟨[]⟩ : Cache).setBytesValue key bytes ttl now = (⟨[]⟩, some .indexOutOfRange) ∧
      (⟨[]⟩ : Cache).updateBytesValue key bytes ttl now = (⟨[]⟩, some .indexOutOfRange) ∧
      (⟨[]⟩ : Cache).mGetBytesValue keys now = .error .indexOutOfRange ∧
      (⟨[]⟩ : Cache).mSetBytesValue data ttl now = (⟨[]⟩, some .indexOutOfRange) := by
  refine ⟨rfl, fun caches c h => ?_, fun _ _ _ _ _ _ => ⟨rfl, rfl, rfl, rfl⟩⟩
  rw [← List.length_eq_zero, factory_subCaches_length h, List.length_eq_zero]

theorem empty_group_set_panics :
    factory (fun _ : Unit => .ok ({ TTL := 3600000000000 } : Tier)) (.ok []) = .ok ⟨[]⟩ ∧
    (⟨[]⟩ : Cache).subCaches = [] ∧
    (⟨[]⟩ : Cache).setBytesValue [107] [1] 3600000000000 (Time.ofNs 0) =
      (⟨[]⟩, some .indexOutOfRange) :=
  ⟨(factory_empty_group_panics fun _ : Unit => .ok ({ TTL := 3600000000000 } : Tier)).1,
    ((factory_empty_group_panics fun _ : Unit => .ok ({ TTL := 3600000000000 } : Tier)).2.1 [] ⟨[]⟩
      rfl).2 rfl,
    ((factory_empty_group_panics fun _ : Unit => .ok ({ TTL := 3600000000000 } : Tier)).2.2
      [107] [1] 3600000000000 [] ∅ (Time.ofNs 0)).1⟩

end HerbCache.Cachegroup
