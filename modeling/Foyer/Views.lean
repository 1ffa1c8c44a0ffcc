import Foyer.Store

/-! # Versions and views

    `Runner::run` never calls `Region::advance`, and no other step of the
    store changes a region's version: every region stays at the version `0`
    that `Region::new` gives it. Every `WriteSlice` a flusher gets is then of
    version `0`, and so is every view in the catalog. A view of version `0`
    matches any version in `Region::load`, so a lookup that loads a view of
    the catalog reads the region, whatever happened to it since. -/

namespace Foyer

namespace Store

/-! ## Section 1: No step changes a version -/

section Versions

variable {K V : Type} {dev : Device}

@[simp] theorem setRegion_regions (st : Store K V) (r : RegionId) (inner : RegionInner)
    (r' : RegionId) : (st.setRegion r inner).regions r' = if r' = r then inner else st.regions r' :=
  rfl

theorem RegionInner.appendEntry_version (r : RegionId) (inner : RegionInner) (bytes : List UInt8) :
    (inner.appendEntry dev r bytes).1.version = inner.version := by
  unfold RegionInner.appendEntry; dsimp only; split <;> simp

theorem sealRegion_version {st st' : Store K V} {f r : Nat} (h : sealRegion dev st f r = some st')
    (r' : RegionId) : (st'.regions r').version = (st.regions r').version := by
  simp only [sealRegion, bind, Option.bind_eq_some, Option.some.injEq] at h
  obtain ⟨⟨inner, b⟩, hd, rfl⟩ := h
  obtain ⟨_, -, hd⟩ := Option.map_eq_some'.1 hd
  cases hd
  by_cases hr : r' = r <;> simp [hr]

theorem admitTask_regions (st : Store K V) (key : K) (value : V) (ine : Bool) (w : Writer K)
    (answers : Nat → Bool) : (admitTask st key value ine w answers).1.regions = st.regions := by
  unfold admitTask
  split
  · rfl
  · dsimp only; split <;> rfl

variable [DecidableEq K] {cx : Codecs K V}

theorem lookupLoad_regions (st : Store K V) (key : K) (view : RegionView)
    (answer : Nat → Nat → DeviceRead) :
    (lookupLoad dev cx st key view answer).1.regions = st.regions := by
  rcases lookupLoad_cases st key view answer with h | h <;> rw [h]; rfl

theorem flushEntry_version {st st' : Store K V} {f : Nat} (h : flushEntry dev cx st f = some st')
    (r' : RegionId) : (st'.regions r').version = (st.regions r').version := by
  obtain ⟨r, e, rest, inner, res, -, -, happ, ⟨slice, -, rfl⟩ | h⟩ := flushEntry_cases h
  all_goals
    have hv : inner.version = (st.regions r).version :=
      (congrArg (fun p => p.1.version) happ).symm.trans (RegionInner.appendEntry_version _ _ _)
  · by_cases hr : r' = r <;> simp [hr, hv]
  · rw [sealRegion_version h]; by_cases hr : r' = r <;> simp [hr, hv]

/-- No step of the store changes a region's version. -/
theorem step_version {st st' : Store K V} {a : StoreAction K V} (h : step dev cx st a = some st')
    (r : RegionId) : (st'.regions r).version = (st.regions r).version := by
  cases a with
  | lookup key | insert key value ine | remove key | clear => cases h; rfl
  | load t answer =>
    simp only [step] at h
    split at h
    · cases h; simp only [lookupLoad_regions]
    · cases h
  | judge t answers =>
    simp only [step] at h
    split at h
    · cases h; simp only [admitTask_regions]
    · cases h
  | commit t =>
    simp only [step] at h
    split at h
    · cases h; rfl
    · cases h
  | acquire f buf =>
    simp only [step] at h
    split at h
    · rename_i r₀ _ _ _
      simp only [bind, Option.bind_eq_some, Option.some.injEq] at h
      obtain ⟨inner, hatt, rfl⟩ := h
      have := (RegionInner.attachBuffer_eq_some dev hatt).2.2.2
      by_cases hr : r = r₀ <;> simp [hr, this]
    · cases h
  | flush f => exact flushEntry_version h r
  | «seal» f =>
    simp only [step, bind, Option.bind_eq_some] at h
    obtain ⟨_, -, h⟩ := h
    exact sealRegion_version h r
  | reclaim r₀ =>
    simp only [step] at h
    split at h
    · cases h; rfl
    · cases h

end Versions

/-! ## Section 2: Every view is of version `0`

    What a step does to the catalog's items: an item is kept, removed, or a
    new one comes in (an `Inflight` item from a commit, or the view of a slice
    a flusher has just written). -/

section Views

variable {K V : Type} {dev : Device}

/-- Every region is at version `0`, and so is every view in the catalog. -/
structure AtVersionZero (st : Store K V) : Prop where
  regions : ∀ r, (st.regions r).version = 0
  catalog : ∀ (k : K) (i : Item K V) (view : RegionView), st.core.catalog k = some i →
    i.index = .region view → view.version = 0

theorem atVersionZero_empty (admissions flushers : Nat) (c : Compression) :
    AtVersionZero (empty dev admissions flushers c : Store K V) :=
  ⟨fun _ => rfl, fun _ _ _ h => (nomatch h)⟩

variable [DecidableEq K] {cx : Codecs K V}

theorem lookupLoad_catalog_mem (st : Store K V) (key : K) (view : RegionView)
    (answer : Nat → Nat → DeviceRead) {k : K} {i : Item K V}
    (h : (lookupLoad dev cx st key view answer).1.core.catalog k = some i) :
    st.core.catalog k = some i := by
  rcases lookupLoad_cases st key view answer with he | he <;> rw [he] at h
  exacts [h, Catalog.mem_of_remove h]

theorem commit_catalog_mem (c : StoreCore K V) (w : Writer K) (seq : Sequence) (value : V) {k : K}
    {i : Item K V} (h : (c.commit w seq value).1.catalog k = some i) :
    c.catalog k = some i ∨ ∃ key, i = ⟨seq, .inflight key value⟩ := by
  unfold StoreCore.commit at h
  split at h
  · exact .inl h
  · rename_i key _
    dsimp only at h
    split at h <;> exact (Catalog.eq_or_mem_of_insert h).imp_right fun hi => ⟨key, hi⟩

/-- A flush keeps the lookups, and the catalog's items are the old ones or
    the view of the slice just written, at its region's version. -/
theorem flushEntry_catalog_mem {st st' : Store K V} {f : Nat} (h : flushEntry dev cx st f = some st') :
    st'.tasks = st.tasks ∧ ∀ k i, st'.core.catalog k = some i →
      st.core.catalog k = some i ∨ ∃ r seq view, i = ⟨seq, .region view⟩ ∧
        view.version = (st.regions r).version := by
  obtain ⟨r, e, rest, inner, res, -, -, happ, ⟨slice, rfl, rfl⟩ | h⟩ := flushEntry_cases h
  · refine ⟨rfl, fun k i hi => (Catalog.eq_or_mem_of_migrate hi).imp_right fun hi =>
      ⟨r, _, _, hi, ?_⟩⟩
    exact allocate_slice_version dev r (st.regions r) _
      ((RegionInner.appendEntry_snd r _ _).symm.trans (congrArg Prod.snd happ)) rfl
  · obtain ⟨hc, ht⟩ := sealRegion_frame h
    exact ⟨ht, fun k i hi => .inl (by rwa [hc] at hi)⟩

/-- A step keeps every version at `0`. -/
theorem atVersionZero_step {st st' : Store K V} {a : StoreAction K V}
    (h : step dev cx st a = some st') (hz : AtVersionZero st) : AtVersionZero st' := by
  obtain ⟨hr, hc⟩ := hz
  have hr' : ∀ r, (st'.regions r).version = 0 := fun r => (step_version h r).trans (hr r)
  cases a with
  | lookup key | insert key value ine => cases h; exact ⟨hr', hc⟩
  | load t answer =>
    simp only [step] at h
    split at h
    · cases h
      exact ⟨hr', fun k i view h => hc k i view (lookupLoad_catalog_mem _ _ _ _ h)⟩
    · cases h
  | judge t answers =>
    simp only [step] at h
    split at h
    · cases h
      exact ⟨hr', fun k i view h => hc k i view (by rwa [admitTask_catalog] at h)⟩
    · cases h
  | commit t =>
    simp only [step] at h
    split at h
    · cases h
      refine ⟨hr', fun k i view h hi => ?_⟩
      rcases commit_catalog_mem _ _ _ _ h with h | ⟨_, rfl⟩
      · exact hc k i view h hi
      · cases hi
    · cases h
  | remove key =>
    cases h
    exact ⟨hr', fun k i view h => hc k i view (Catalog.mem_of_remove h)⟩
  | clear =>
    cases h
    exact ⟨hr', fun _ _ _ h => (nomatch h)⟩
  | acquire f buf =>
    simp only [step] at h
    split at h
    · simp only [bind, Option.bind_eq_some, Option.some.injEq] at h
      obtain ⟨_, -, rfl⟩ := h
      exact ⟨hr', hc⟩
    · cases h
  | flush f =>
    refine ⟨hr', fun k i view hi hv₀ => ?_⟩
    rcases (flushEntry_catalog_mem h).2 k i hi with hi | ⟨r, _, _, rfl, hv⟩
    · exact hc k i view hi hv₀
    · cases hv₀; exact hv.trans (hr r)
  | «seal» f =>
    simp only [step, bind, Option.bind_eq_some] at h
    obtain ⟨_, -, h⟩ := h
    obtain ⟨hcore, -⟩ := sealRegion_frame h
    exact ⟨hr', fun k i view h => hc k i view (hcore ▸ h)⟩
  | reclaim r =>
    simp only [step] at h
    split at h
    · cases h
      exact ⟨hr', fun k i view h => hc k i view (Catalog.mem_of_takeRegion h)⟩
    · cases h

theorem atVersionZero_run {st st' : Store K V} {as : List (StoreAction K V)}
    (hr : run dev cx st as = some st') (hz : AtVersionZero st) : AtVersionZero st' := by
  induction as generalizing st with
  | nil => cases hr; exact hz
  | cons a as ih =>
    simp only [run, Option.bind_eq_some] at hr
    obtain ⟨s₁, hs, hr⟩ := hr
    exact ih hr (atVersionZero_step hs hz)

end Views

end Store

end Foyer
