import Foyer.Writer
import Foyer.Load

/-! # The store

    `GenericStore` with its background tasks, as one system of atomic steps.
    A lookup takes two: it reads the catalog, and later loads the region view
    it found and decodes the entry (removing the key from the catalog when the
    load finds a stale version or a short device read, or the decoding fails). An insert takes three:
    its `exists` check (for `insert_if_not_exists`) with the admission judgement
    and the minting of its sequence, and then the commit of `apply_writer`.
    Flushers append entries to their active region and seal it; the reclaimer
    (`Runner::run`) takes a sealed region's catalog entries and releases it to
    the clean queue.

    A region's lock makes `allocate` with the writing of the slice, and `load`
    with the decoding of the slice it returns, atomic with respect to a reclaim
    (which waits for `exclusive(false, false, false)`), so the region counters
    are not carried here; `RegionSys` studies them. The flusher and the
    region manager are not among the sources: their steps follow §4.6 and §4.8
    of the spec. -/

namespace Foyer

/-! ## Section 1: Tasks, steps and runs -/

/-- A task of the store between two of its atomic steps. -/
inductive Task (K V : Type) where
  /-- A `lookup(key)` that found `view` in the catalog and has not loaded it. -/
  | loading (key : K) (view : RegionView)
  /-- A finished lookup. -/
  | looked (key : K) (result : Res (Option V))
  /-- An insert (`insert_if_not_exists` when `ifNotExists`) with its writer,
      before its check and admission. -/
  | inserting (key : K) (value : V) (ifNotExists : Bool) (w : Writer K)
  /-- An admitted insert with its sequence, before its commit. -/
  | minted (key : K) (value : V) (w : Writer K) (seq : Sequence)
  /-- A finished insert. -/
  | inserted (key : K) (result : Res Bool)

/-- The store: the writers' part (`StoreCore`), every region's `RegionInner`,
    the device's bytes, the clean-region queue, the sealed regions the
    eviction policy may pick, each flusher's active region, and the tasks. -/
structure Store (K V : Type) where
  core : StoreCore K V
  regions : RegionId → RegionInner
  device : RegionId → Buffer
  cleanRegions : List RegionId
  sealed : List RegionId
  flushers : List (Option RegionId)
  tasks : List (Task K V)

/-- The steps of the store. -/
inductive StoreAction (K V : Type) where
  /-- `lookup(key)` reads the catalog. -/
  | lookup (key : K)
  /-- Task `t` loads the view it found and decodes the entry; a region
      without a buffer is read from the device, which answers each chunk
      read with `answer pos len`. -/
  | load (t : Nat) (answer : Nat → Nat → DeviceRead)
  /-- `insert(key, value)`, or `insert_if_not_exists` when `ifNotExists`,
      makes its writer. -/
  | insert (key : K) (value : V) (ifNotExists : Bool)
  /-- Task `t` checks `exists`, is judged (the policies answer `answers`) and
      mints its sequence. -/
  | judge (t : Nat) (answers : Nat → Bool)
  /-- Task `t` commits. -/
  | commit (t : Nat)
  | remove (key : K)
  | clear
  /-- Flusher `f` takes the next clean region and attaches `buf` from the pool. -/
  | acquire (f : Nat) (buf : Buffer)
  /-- Flusher `f` writes the next entry of its channel. -/
  | flush (f : Nat)
  /-- Flusher `f` seals its region (its stop signal). -/
  | seal (f : Nat)
  /-- `Runner::run` on a `ReclaimTask` for region `r`. -/
  | reclaim (r : RegionId)

/-- Modelled from the spec (§4.6): the bytes a flusher writes for an entry. -/
def Entry.serialize {K V : Type} (cx : Codecs K V) (align : Nat) (e : Entry K V) : List UInt8 :=
  serializeEntry cx align e.key e.value e.sequence e.compression

namespace RegionInner

/-- Modelled from the spec (§4.6): a flusher appends the bytes of one entry to
    its region. It allocates them and, on `Ok`, copies them into the slice;
    the slice is dropped either way. -/
def appendEntry (dev : Device) (r : RegionId) (inner : RegionInner) (bytes : List UInt8) :
    RegionInner × Res AllocateResult :=
  let (inner, res) := inner.allocate dev r bytes.length
  let inner := { inner with writers := inner.writers - 1 }
  match res, inner.buffer with
  | .ok (.ok slice), some buf => ({ inner with buffer := some (writeBytes buf slice.start bytes) }, res)
  | _, _ => (inner, res)

end RegionInner

/-- Modelled from the spec (§4.6): the bytes a sealed region leaves on the
    device, its buffer with the footer block (the slice of the `Full` result)
    zeroed. -/
def sealedBytes (dev : Device) (buf : Buffer) : Buffer :=
  writeBytes buf (dev.regionSize - dev.align) (List.replicate dev.align 0)

namespace Store

variable {K V : Type} [DecidableEq K] (dev : Device) (cx : Codecs K V)

/-- Region `r` replaced. -/
def setRegion (st : Store K V) (r : RegionId) (inner : RegionInner) : Store K V :=
  { st with regions := fun r' => if r' = r then inner else st.regions r' }

/-- The catalog replaced. -/
def setCatalog (st : Store K V) (c : Catalog K V) : Store K V :=
  { st with core := { st.core with catalog := c } }

/-- What `read_entry` makes of a loaded slice in `lookup`: the value, or the
    error after the key is removed from the catalog. -/
def decodeLoaded (st : Store K V) (key : K) (bytes : List UInt8) : Store K V × Res (Option V) :=
  match readEntry cx bytes with
  | .ok (_, value) => (st, .ok (some value))
  | .err e => (st.setCatalog (st.core.catalog.remove key).1, .err e)
  | .panic => (st, .panic)

/-- The second half of `GenericStore::lookup`: `region.load(view)`, then
    `read_entry`. A stale version is `Ok(None)` after removing the key. A
    region without a buffer is read from the device chunk by chunk
    (`RegionSys.readLoop`, the device answering `answer`) into the I/O buffer
    `io_buffer(end - start)`, taken as zeros (a load that returns it has
    overwritten all of it): a short read is `Ok(None)` after removing the
    key, and an I/O error returns through `?` with the catalog untouched. -/
def lookupLoad (st : Store K V) (key : K) (view : RegionView) (answer : Nat → Nat → DeviceRead) :
    Store K V × Res (Option V) :=
  match ((st.regions view.id).loadStart view.offset (view.offset + view.len) view.version).2 with
  | .mismatch => (st.setCatalog (st.core.catalog.remove key).1, .ok none)
  | .panic => (st, .panic)
  | .buffered bytes => decodeLoaded cx st key bytes
  | .physical =>
    match (RegionSys.readLoop dev (st.device view.id) answer
        ⟨view.offset, view.offset + view.len, 0⟩ Buffer.zero).1 with
    | .ok (some buf) => decodeLoaded cx st key (readBytes buf 0 view.len)
    | .ok none => (st.setCatalog (st.core.catalog.remove key).1, .ok none)
    | .err e => (st, .err e)
    | .panic => (st, .panic)

/-- The first half of `GenericStore::lookup`: the catalog read. A miss and an
    `Inflight` item finish the lookup. -/
def lookupStart (st : Store K V) (key : K) : Task K V :=
  match st.core.catalog key with
  | none => .looked key (.ok none)
  | some ⟨_, .inflight _ value⟩ => .looked key (.ok (some value))
  | some ⟨_, .region view⟩ => .loading key view

/-- The check of `insert_if_not_exists` and the start of `apply_writer`: a key
    found by `exists` gives `Ok(false)`; a writer judged false gives
    `Ok(false)`; otherwise the sequence is minted. -/
def admitTask (st : Store K V) (key : K) (value : V) (ifNotExists : Bool) (w : Writer K)
    (answers : Nat → Bool) : Store K V × Task K V :=
  if ifNotExists ∧ (st.core.catalog key).isSome then (st, .inserted key (.ok false))
  else
    let (w, _, admitted) := w.judge st.core.admissions answers
    if !admitted then (st, .inserted key (.ok false))
    else
      let (core, seq) := st.core.mintSequence w
      ({ st with core }, .minted key value w seq)

/-- Modelled from the spec (§4.6, the `Full` path and the stop signal): the
    flusher zeroes the footer block, writes the buffer to the device, detaches
    it, and the region goes to the eviction policy. -/
def sealRegion (st : Store K V) (f r : Nat) : Option (Store K V) := do
  let (inner, buf) ← (st.regions r).detachBuffer
  let buf := sealedBytes dev buf
  some { st.setRegion r inner with
    device := fun r' => if r' = r then buf else st.device r',
    sealed := st.sealed ++ [r],
    flushers := st.flushers.set f none }

/-- Modelled from the spec (§4.6): flusher `f` serialises the next entry of
    its channel and allocates it in its region. On `Ok` the bytes go into the
    buffer and the key's item moves to the region view; on `Full` the region
    is sealed and the entry waits for the next region. -/
def flushEntry (st : Store K V) (f : Nat) : Option (Store K V) := do
  let r ← (st.flushers[f]?).join
  let e :: rest ← (st.core.flusherEntryTxs[f]?).join | none
  let bytes := e.serialize cx dev.align
  let (inner, res) := (st.regions r).appendEntry dev r bytes
  let st := st.setRegion r inner
  match res, inner.buffer with
  | .ok (.ok slice), some _ =>
    some { st with core := { st.core with
      catalog := st.core.catalog.migrate e.key e.sequence ⟨r, slice.offset, bytes.length, slice.version⟩,
      flusherEntryTxs := st.core.flusherEntryTxs.set f (some rest) } }
  | .ok (.full _ _), some _ => sealRegion dev st f r
  | _, _ => none

/-- One step of the store; `none` when it cannot happen. -/
def step (st : Store K V) : StoreAction K V → Option (Store K V)
  | .lookup key => some { st with tasks := st.tasks ++ [lookupStart st key] }
  | .load t answer =>
    match st.tasks[t]? with
    | some (.loading key view) =>
      let (st', r) := lookupLoad dev cx st key view answer
      some { st' with tasks := st.tasks.set t (.looked key r) }
    | _ => none
  | .insert key value ifNotExists =>
    let w := st.core.writer key ((cx.key.write key).length + (cx.value.write value).length)
    some { st with tasks := st.tasks ++ [.inserting key value ifNotExists w] }
  | .judge t answers =>
    match st.tasks[t]? with
    | some (.inserting key value ine w) =>
      let (st', task) := admitTask st key value ine w answers
      some { st' with tasks := st.tasks.set t task }
    | _ => none
  | .commit t =>
    match st.tasks[t]? with
    | some (.minted key value w seq) =>
      let (core, _, r) := st.core.commit w seq value
      some { st with core, tasks := st.tasks.set t (.inserted key r) }
    | _ => none
  | .remove key => some (st.setCatalog (st.core.catalog.remove key).1)
  | .clear => some (st.setCatalog Catalog.empty)
  | .acquire f buf =>
    match st.flushers[f]?, st.cleanRegions with
    | some none, r :: rest => do
      let inner ← (st.regions r).attachBuffer dev buf
      some { st.setRegion r inner with cleanRegions := rest, flushers := st.flushers.set f (some r) }
    | _, _ => none
  | .flush f => flushEntry dev cx st f
  | .seal f => do
    let r ← (st.flushers[f]?).join
    sealRegion dev st f r
  | .reclaim r =>
    if r ∈ st.sealed then
      some { st.setCatalog (st.core.catalog.takeRegion r) with
        cleanRegions := st.cleanRegions ++ [r], sealed := st.sealed.erase r }
    else none

/-- A run of steps, each of which must be able to happen. -/
def run : Store K V → List (StoreAction K V) → Option (Store K V)
  | st, [] => some st
  | st, a :: as => (step dev cx st a).bind (run · as)

/-- A store just opened on an empty device: every region clean, in order, and
    no flusher holding one. `open` asserts at least two regions a flusher; the
    results over runs from `empty` hold for every number of flushers. -/
def empty (admissions flushers : Nat) (c : Compression) : Store K V where
  core := ⟨0, Catalog.empty, admissions, List.replicate flushers (some []), c⟩
  regions := fun _ => RegionInner.new dev
  device := fun _ => Buffer.zero
  cleanRegions := List.range dev.regions
  sealed := []
  flushers := List.replicate flushers none
  tasks := []

end Store

namespace Store

/-! ## Section 2: What a step changes

    Frame lemmas: which steps touch the catalog, and how. Each is proved once
    here so that the invariants of the store never unfold a step's helpers. -/

section Frame

variable {K V : Type} {dev : Device}

@[simp] theorem setCatalog_core_catalog (st : Store K V) (c : Catalog K V) :
    (st.setCatalog c).core.catalog = c := rfl
@[simp] theorem setCatalog_tasks (st : Store K V) (c : Catalog K V) :
    (st.setCatalog c).tasks = st.tasks := rfl
@[simp] theorem setRegion_core (st : Store K V) (r : RegionId) (inner : RegionInner) :
    (st.setRegion r inner).core = st.core := rfl
@[simp] theorem setRegion_tasks (st : Store K V) (r : RegionId) (inner : RegionInner) :
    (st.setRegion r inner).tasks = st.tasks := rfl

theorem RegionInner.appendEntry_snd (r : RegionId) (inner : RegionInner) (bytes : List UInt8) :
    (inner.appendEntry dev r bytes).2 = (inner.allocate dev r bytes.length).2 := by
  unfold RegionInner.appendEntry; dsimp only; split <;> rfl

/-- An append that fits before the footer block writes the bytes at the
    region's length. -/
theorem RegionInner.appendEntry_of_fit {r : RegionId} {inner : RegionInner} {B : Buffer}
    {bytes : List UInt8} (hb : inner.buffer = some B)
    (hfit : inner.len + bytes.length + dev.align ≤ inner.capacity) :
    inner.appendEntry dev r bytes =
      ({ inner with len := inner.len + bytes.length, buffer := some (writeBytes B inner.len bytes) },
        .ok (.ok ⟨r, inner.version, inner.len, inner.len, bytes.length⟩)) := by
  simp [RegionInner.appendEntry, RegionInner.allocate, hb,
    show ¬ inner.capacity < inner.len + bytes.length + dev.align by omega]

/-- An append that does not fit before the footer block leaves the region
    full and its buffer as it was. -/
theorem RegionInner.appendEntry_of_not_fit {r : RegionId} {inner : RegionInner}
    {bytes : List UInt8} (hfit : inner.capacity < inner.len + bytes.length + dev.align) :
    (inner.appendEntry dev r bytes).1 = { inner with len := dev.regionSize } := by
  cases hb : inner.buffer <;> simp [RegionInner.appendEntry, RegionInner.allocate, hb, hfit]

theorem sealRegion_frame {st st' : Store K V} {f r : Nat} (h : sealRegion dev st f r = some st') :
    st'.core = st.core ∧ st'.tasks = st.tasks := by
  simp only [sealRegion, bind, Option.bind_eq_some, Option.some.injEq] at h
  obtain ⟨_, -, rfl⟩ := h
  exact ⟨rfl, rfl⟩

theorem mintSequence_catalog (c : StoreCore K V) (w : Writer K) :
    (c.mintSequence w).1.catalog = c.catalog := by
  unfold StoreCore.mintSequence; split <;> rfl

theorem admitTask_catalog (st : Store K V) (key : K) (value : V) (ine : Bool) (w : Writer K)
    (answers : Nat → Bool) : (admitTask st key value ine w answers).1.core.catalog = st.core.catalog := by
  unfold admitTask
  split
  · rfl
  · dsimp only; split
    · rfl
    · exact mintSequence_catalog _ _

end Frame

section Catalog

variable {K V : Type} [DecidableEq K] {dev : Device} {cx : Codecs K V}

/-- What a flush can do (spec §4.6): flusher `f` holds region `r` and takes
    the next entry `e` of its channel; the append is `Ok`, and the entry
    leaves the channel and its key's item moves to the slice's view, or the
    region is sealed. -/
theorem flushEntry_cases {st st' : Store K V} {f : Nat} (h : flushEntry dev cx st f = some st') :
    ∃ r e rest inner res, (st.flushers[f]?).join = some r ∧
      (st.core.flusherEntryTxs[f]?).join = some (e :: rest) ∧
      (st.regions r).appendEntry dev r (e.serialize cx dev.align) = (inner, res) ∧
      ((∃ slice, res = .ok (.ok slice) ∧ st' = { st.setRegion r inner with core := { st.core with
          catalog := st.core.catalog.migrate e.key e.sequence
            ⟨r, slice.offset, (e.serialize cx dev.align).length, slice.version⟩,
          flusherEntryTxs := st.core.flusherEntryTxs.set f (some rest) } }) ∨
        sealRegion dev (st.setRegion r inner) f r = some st') := by
  simp only [flushEntry, bind, Option.bind_eq_some] at h
  obtain ⟨r, hr, es, hes, h⟩ := h
  cases es with
  | nil => cases h
  | cons e rest =>
    dsimp only at h
    refine ⟨r, e, rest, _, _, hr, hes, rfl, ?_⟩
    split at h
    · rename_i slice _ hres _
      cases h; exact .inl ⟨slice, hres, rfl⟩
    · exact .inr h
    · cases h

/-- What a lookup's load can do to the store: nothing, or remove its key
    from the catalog. -/
theorem lookupLoad_cases (st : Store K V) (key : K) (view : RegionView)
    (answer : Nat → Nat → DeviceRead) :
    (lookupLoad dev cx st key view answer).1 = st ∨
      (lookupLoad dev cx st key view answer).1 = st.setCatalog (st.core.catalog.remove key).1 := by
  unfold lookupLoad decodeLoaded
  split <;> (try split) <;> (try split) <;> simp

end Catalog

/-! ## Section 3: Where the regions are

    Every region is in exactly one place: in the clean queue, held by a
    flusher, or sealed and in the eviction policy (spec §6: the clean, active
    and sealed regions add up to all of them). A flusher takes the head of
    the clean queue, sealing moves its region to the eviction policy, and a
    reclaim moves a sealed region back to the clean queue; no other step
    touches them. -/

section Places

variable {K V : Type} {dev : Device}

/-- The regions the flushers hold. -/
def active (st : Store K V) : List RegionId := st.flushers.filterMap id

/-- Where the regions are: the clean queue, the sealed regions and what each
    flusher holds. -/
def places (st : Store K V) : List RegionId × List RegionId × List (Option RegionId) :=
  (st.cleanRegions, st.sealed, st.flushers)

/-- Every region is in exactly one place: in the clean queue, held by a
    flusher, or sealed (spec §6). -/
def Placed (dev : Device) (st : Store K V) : Prop :=
  (st.cleanRegions ++ active st ++ st.sealed).Perm (List.range dev.regions)

@[simp] theorem setCatalog_places (st : Store K V) (c : Catalog K V) :
    (st.setCatalog c).places = st.places := rfl
@[simp] theorem setRegion_places (st : Store K V) (r : RegionId) (inner : RegionInner) :
    (st.setRegion r inner).places = st.places := rfl

/-- Changing what flusher `f` holds from `x` to `y` trades `x` for `y` among
    the active regions. -/
theorem filterMap_set_perm : ∀ {l : List (Option RegionId)} {f : Nat} {x : Option RegionId}
    (y : Option RegionId), l[f]? = some x →
    ((l.set f y).filterMap id ++ x.toList).Perm (l.filterMap id ++ y.toList)
  | a :: t, 0, x, y, h => by
    obtain rfl : a = x := by simpa using h
    cases a <;> cases y <;> simp [List.perm_append_singleton]
    · exact (List.perm_append_singleton _ _).symm
    · exact ((List.perm_append_singleton _ _).cons _).trans <| (List.Perm.swap _ _ _).trans
        ((List.perm_append_singleton _ _).symm.cons _)
  | a :: t, f + 1, x, y, h => by
    have ih := filterMap_set_perm (l := t) (f := f) y (by simpa using h)
    cases a <;> simpa using ih

theorem sealRegion_places {st st' : Store K V} {f r : Nat} (h : sealRegion dev st f r = some st') :
    st'.places = (st.cleanRegions, st.sealed ++ [r], st.flushers.set f none) := by
  simp only [sealRegion, bind, Option.bind_eq_some, Option.some.injEq] at h
  obtain ⟨_, -, rfl⟩ := h
  rfl

theorem admitTask_places (st : Store K V) (key : K) (value : V) (ine : Bool) (w : Writer K)
    (answers : Nat → Bool) : (admitTask st key value ine w answers).1.places = st.places := by
  unfold admitTask
  split
  · rfl
  · dsimp only; split <;> rfl

theorem placed_empty (admissions flushers : Nat) (c : Compression) :
    Placed dev (empty dev admissions flushers c : Store K V) := by
  simp [Placed, active, empty]

variable [DecidableEq K] {cx : Codecs K V}

theorem lookupLoad_places (st : Store K V) (key : K) (view : RegionView)
    (answer : Nat → Nat → DeviceRead) :
    (lookupLoad dev cx st key view answer).1.places = st.places := by
  rcases @lookupLoad_cases K V _ dev cx st key view answer with h | h <;> simp only [h, setCatalog_places]

theorem flushEntry_places {st st' : Store K V} {f : Nat} (h : flushEntry dev cx st f = some st') :
    st'.places = st.places ∨ ∃ r, st.flushers[f]? = some (some r) ∧
      st'.places = (st.cleanRegions, st.sealed ++ [r], st.flushers.set f none) := by
  obtain ⟨r, e, rest, inner, res, hr, -, -, ⟨slice, -, rfl⟩ | h⟩ := flushEntry_cases h
  · exact .inl rfl
  · have := sealRegion_places h
    exact .inr ⟨r, Option.join_eq_some.1 hr, this⟩

/-- What a step does to where the regions are: nothing, a flusher takes the
    head of the clean queue, a flusher's region is sealed, or a reclaim moves
    a sealed region to the clean queue. -/
theorem step_places {st st' : Store K V} {a : StoreAction K V} (h : step dev cx st a = some st') :
    st'.places = st.places ∨
    (∃ f r rest, st.flushers[f]? = some none ∧ st.cleanRegions = r :: rest ∧
      st'.places = (rest, st.sealed, st.flushers.set f (some r))) ∨
    (∃ f r, st.flushers[f]? = some (some r) ∧
      st'.places = (st.cleanRegions, st.sealed ++ [r], st.flushers.set f none)) ∨
    (∃ r, r ∈ st.sealed ∧ st'.places = (st.cleanRegions ++ [r], st.sealed.erase r, st.flushers)) := by
  cases a with
  | lookup key | insert key value ine | remove key | clear => cases h; exact .inl rfl
  | load t answer =>
    simp only [step] at h
    split at h
    · cases h; exact .inl (lookupLoad_places _ _ _ _)
    · cases h
  | judge t answers =>
    simp only [step] at h
    split at h
    · cases h; exact .inl (admitTask_places _ _ _ _ _ _)
    · cases h
  | commit t =>
    simp only [step] at h
    split at h
    · cases h; exact .inl rfl
    · cases h
  | acquire f buf =>
    simp only [step] at h
    split at h
    · rename_i r rest hf hc
      simp only [bind, Option.bind_eq_some, Option.some.injEq] at h
      obtain ⟨_, -, rfl⟩ := h
      exact .inr (.inl ⟨f, r, rest, hf, hc, rfl⟩)
    · cases h
  | flush f =>
    rcases flushEntry_places h with h | ⟨r, hr, h⟩
    · exact .inl h
    · exact .inr (.inr (.inl ⟨f, r, hr, h⟩))
  | «seal» f =>
    simp only [step, bind, Option.bind_eq_some] at h
    obtain ⟨r, hr, h⟩ := h
    exact .inr (.inr (.inl ⟨f, r, Option.join_eq_some.1 hr, sealRegion_places h⟩))
  | reclaim r =>
    simp only [step] at h
    split at h
    · rename_i hr
      cases h
      exact .inr (.inr (.inr ⟨r, hr, rfl⟩))
    · cases h

/-- A step keeps every region in exactly one place. -/
theorem placed_step {st st' : Store K V} {a : StoreAction K V} (h : step dev cx st a = some st')
    (hp : Placed dev st) : Placed dev st' := by
  unfold Placed active at *
  refine List.Perm.trans ?_ hp
  rcases step_places h with h | ⟨f, r, rest, hf, hc, h⟩ | ⟨f, r, hf, h⟩ | ⟨r, hr, h⟩ <;>
    simp only [places, Prod.mk.injEq] at h <;> obtain ⟨h₁, h₂, h₃⟩ := h <;> rw [h₁, h₂, h₃]
  · -- the flusher's new region leaves the clean queue
    have hA : ((st.flushers.set f (some r)).filterMap id).Perm (st.flushers.filterMap id ++ [r]) := by
      simpa using filterMap_set_perm (some r) hf
    rw [hc]
    refine ((hA.append_left rest).append_right st.sealed).trans ?_
    simpa using (List.perm_middle :
      List.Perm (rest ++ st.flushers.filterMap id ++ r :: st.sealed) _)
  · -- the sealed region leaves the flushers
    have hA : ((st.flushers.set f none).filterMap id ++ [r]).Perm (st.flushers.filterMap id) := by
      simpa using filterMap_set_perm none hf
    refine List.Perm.trans ?_ ((hA.append_left st.cleanRegions).append_right st.sealed)
    simpa using (List.perm_append_singleton r st.sealed).append_left
      (st.cleanRegions ++ (st.flushers.set f none).filterMap id)
  · -- the reclaimed region leaves the sealed regions
    have hm : (st.flushers.filterMap id ++ r :: st.sealed.erase r).Perm
        (st.flushers.filterMap id ++ st.sealed) := (List.perm_cons_erase hr).symm.append_left _
    simpa using (List.perm_middle.symm.trans hm).append_left st.cleanRegions

end Places

end Store

end Foyer
