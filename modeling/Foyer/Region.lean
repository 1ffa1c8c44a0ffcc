import Foyer.Bytes

/-! # Regions

    `region.rs`: a region is a fixed-size, aligned range of the device with an
    optional dirty buffer, guarded by one lock over its `RegionInner`. Every
    method takes the lock once, so each is one atomic step on `RegionInner`,
    except `load` on a region without a buffer: it takes the lock to count
    itself as a physical reader and then reads the device in `io_size` chunks
    without it.

    The counters `writers`, `buffered_readers` and `physical_readers` are
    raised when a slice is handed out and lowered by the slice's `cleanup`
    closure when it is dropped; `exclusive` waits until the counters it is
    told to respect are zero. The waker map only serves `wake_all` and is
    left out.

    The region system (`RegionSys`) adds to `RegionInner` the slices that are
    outstanding and the physical loads in progress, so that the counters can be
    compared with what they are meant to count. Along a run with no leaking
    step they count exactly, so the reclaimer's `exclusive(false, false,
    false)` waits for every holder and for nothing else. -/

namespace Foyer

/-! ## Section 1: Device geometry -/

/-- The geometry of the device (the `Device` trait is not among the sources;
    spec §4.1): `regions` regions of `regionSize` bytes, a multiple of
    `align`; physical reads go in chunks of at most `ioSize` bytes. A device
    with `ioSize = 0` would never finish a physical read, so the model's have a
    positive one. -/
structure Device where
  regions : Nat
  regionSize : Nat
  align : Nat
  ioSize : Nat
  align_pos : 0 < align
  align_dvd : align ∣ regionSize
  ioSize_pos : 0 < ioSize

/-- A device of two regions of four 32-byte blocks. -/
def Device.small : Device := ⟨2, 128, 32, 32, by decide, by decide, by decide⟩

/-- `RegionId` (a `u32` below `regions`). -/
abbrev RegionId := Nat

/-- `Version` (`u32`); `0` matches any version. -/
abbrev Version := UInt32

/-! ## Section 2: Region state -/

/-- `REGION_MAGIC`. -/
def regionMagic : UInt64 := 0x19970327

/-- `RegionInner`, without its waker map. -/
structure RegionInner where
  version : Version
  buffer : Option Buffer
  len : Nat
  capacity : Nat
  writers : Nat
  bufferedReaders : Nat
  physicalReaders : Nat

/-- `Region::new`: version `0`, no buffer, capacity `region_size`. -/
def RegionInner.new (dev : Device) : RegionInner where
  version := 0
  buffer := none
  len := 0
  capacity := dev.regionSize
  writers := 0
  bufferedReaders := 0
  physicalReaders := 0

/-- `WriteSlice`: the id, version and `offset` it reports, and the buffer range
    `[start, start + len)` it covers. -/
structure WriteSlice where
  regionId : RegionId
  version : Version
  offset : Nat
  start : Nat
  len : Nat
  deriving DecidableEq, Repr

/-- `AllocateResult`. -/
inductive AllocateResult where
  | ok (slice : WriteSlice)
  | full (slice : WriteSlice) (remain : Nat)
  | none
  deriving DecidableEq, Repr

namespace RegionInner

variable (dev : Device)

/-- `Region::allocate`. `writers` is raised first; the footer block
    `[region_size - align, region_size)` is reserved, so an allocation that
    would reach into it returns `Full` with that block and sets `len` to
    `region_size`. The `unwrap` of the buffer comes after both updates, so on a
    region without a buffer it panics and leaves them in place (the lock does
    not poison and the cleanup closure is dropped without running). -/
def allocate (id : RegionId) (inner : RegionInner) (size : Nat) :
    RegionInner × Res AllocateResult :=
  let inner := { inner with writers := inner.writers + 1 }
  let version := inner.version
  let offset := inner.len
  if inner.len + size + dev.align > inner.capacity then
    let remain := dev.regionSize - inner.len
    let inner := { inner with len := dev.regionSize }
    match inner.buffer with
    | none => (inner, .panic)
    | some _ =>
      (inner, .ok (.full ⟨id, version, offset, dev.regionSize - dev.align, dev.align⟩ remain))
  else
    let inner := { inner with len := inner.len + size }
    match inner.buffer with
    | none => (inner, .panic)
    | some _ => (inner, .ok (.ok ⟨id, version, offset, offset, size⟩))

/-- How the locked part of `Region::load` ends. -/
inductive LoadStart where
  /-- `version != 0 && version != inner.version`: `Ok(None)`. -/
  | mismatch
  /-- A buffered read of the given bytes (a `ReadSlice::Slice`). -/
  | buffered (bytes : List UInt8)
  /-- The device is to be read. -/
  | physical
  /-- The range slices past the buffer, or runs backwards. -/
  | panic
  deriving DecidableEq, Repr

/-- The locked part of `Region::load(start..end, version)`. Both counters are
    raised before the slice of the buffer (or the length `end - start` of the
    I/O buffer) is computed, so a range that makes that panic leaves its
    counter raised. -/
def loadStart (inner : RegionInner) (start stop : Nat) (version : Version) :
    RegionInner × LoadStart :=
  if version ≠ 0 ∧ version ≠ inner.version then (inner, .mismatch)
  else match inner.buffer with
    | some b =>
      ({ inner with bufferedReaders := inner.bufferedReaders + 1 },
        if start ≤ stop ∧ stop ≤ inner.capacity then .buffered (readBytes b start (stop - start))
        else .panic)
    | none =>
      ({ inner with physicalReaders := inner.physicalReaders + 1 },
        if start ≤ stop then .physical else .panic)

/-- `Region::attach_buffer`: asserts that there are no writers or buffered
    readers and no buffer, writes the region header (`REGION_MAGIC` as a
    big-endian `u64`) and sets `len = align`. `none` is a failed assertion
    (a panic, with `RegionInner` unchanged). -/
def attachBuffer (inner : RegionInner) (buf : Buffer) : Option RegionInner :=
  if inner.writers = 0 ∧ inner.bufferedReaders = 0 ∧ inner.buffer.isNone then
    some { inner with buffer := some (writeBytes buf 0 (putU64 regionMagic)), len := dev.align }
  else none

theorem attachBuffer_eq_some {inner inner' : RegionInner} {buf : Buffer}
    (h : inner.attachBuffer dev buf = some inner') :
    inner'.buffer = some (writeBytes buf 0 (putU64 regionMagic)) ∧ inner'.len = dev.align ∧
      inner'.capacity = inner.capacity ∧ inner'.version = inner.version := by
  unfold attachBuffer at h
  split at h
  · cases h; exact ⟨rfl, rfl, rfl, rfl⟩
  · cases h

/-- `Region::detach_buffer`: `buffer.take().unwrap()`. -/
def detachBuffer (inner : RegionInner) : Option (RegionInner × Buffer) :=
  inner.buffer.map fun b => ({ inner with buffer := none }, b)

/-- The readiness test of `ErwLock::exclusive`. -/
def isReady (inner : RegionInner) (canWrite canBufferedRead canPhysicalRead : Bool) : Bool :=
  (canWrite || inner.writers == 0) && (canBufferedRead || inner.bufferedReaders == 0) &&
    (canPhysicalRead || inner.physicalReaders == 0)

/-- `Region::advance`: the version is bumped (and wraps at `2 ^ 32`). -/
def advance (inner : RegionInner) : RegionInner := { inner with version := inner.version + 1 }

@[simp] theorem allocate_version (id : RegionId) (inner : RegionInner) (size : Nat) :
    (inner.allocate dev id size).1.version = inner.version := by
  unfold allocate; dsimp only; split <;> split <;> rfl

@[simp] theorem loadStart_version (inner : RegionInner) (start stop : Nat) (v : Version) :
    (inner.loadStart start stop v).1.version = inner.version := by
  unfold loadStart; split
  · rfl
  · split <;> rfl

/-- An allocation is `Ok` only if it leaves the footer block free. -/
theorem fit_of_allocate {id : RegionId} {inner : RegionInner} {n : Nat} {s : WriteSlice}
    (h : (inner.allocate dev id n).2 = .ok (.ok s)) : inner.len + n + dev.align ≤ inner.capacity := by
  unfold allocate at h; dsimp only at h
  split at h
  · split at h <;> cases h
  · omega

section counters
variable (id : RegionId) (inner : RegionInner) (size start stop : Nat) (v : Version)

@[simp] theorem allocate_writers : (inner.allocate dev id size).1.writers = inner.writers + 1 := by
  unfold allocate; dsimp only; split <;> split <;> rfl

@[simp] theorem allocate_bufferedReaders :
    (inner.allocate dev id size).1.bufferedReaders = inner.bufferedReaders := by
  unfold allocate; dsimp only; split <;> split <;> rfl

@[simp] theorem allocate_physicalReaders :
    (inner.allocate dev id size).1.physicalReaders = inner.physicalReaders := by
  unfold allocate; dsimp only; split <;> split <;> rfl

/-- `allocate` panics exactly on a region without a buffer. -/
theorem allocate_panic_iff : (inner.allocate dev id size).2 = .panic ↔ inner.buffer = none := by
  unfold allocate; dsimp only; split <;> split <;> simp_all

variable {inner start stop v}

theorem loadStart_of_mismatch (h : (inner.loadStart start stop v).2 = .mismatch) :
    (inner.loadStart start stop v).1 = inner := by
  by_cases hv : v ≠ 0 ∧ v ≠ inner.version
  · simp [loadStart, hv]
  · cases hb : inner.buffer <;> simp only [loadStart, if_neg hv, hb] at h ⊢ <;> split at h <;>
      cases h

theorem loadStart_of_buffered {b : List UInt8} (h : (inner.loadStart start stop v).2 = .buffered b) :
    (inner.loadStart start stop v).1 = { inner with bufferedReaders := inner.bufferedReaders + 1 } := by
  by_cases hv : v ≠ 0 ∧ v ≠ inner.version
  · simp [loadStart, hv] at h
  · cases hb : inner.buffer <;> simp only [loadStart, if_neg hv, hb] at h ⊢
    split at h <;> cases h

theorem loadStart_of_physical (h : (inner.loadStart start stop v).2 = .physical) :
    (inner.loadStart start stop v).1 = { inner with physicalReaders := inner.physicalReaders + 1 } := by
  by_cases hv : v ≠ 0 ∧ v ≠ inner.version
  · simp [loadStart, hv] at h
  · cases hb : inner.buffer <;> simp only [loadStart, if_neg hv, hb] at h ⊢
    split at h <;> cases h

theorem le_loadStart_physicalReaders :
    inner.physicalReaders ≤ (inner.loadStart start stop v).1.physicalReaders := by
  by_cases hv : v ≠ 0 ∧ v ≠ inner.version
  · simp [loadStart, hv]
  · cases hb : inner.buffer <;> simp [loadStart, hv, hb]

end counters

end RegionInner

/-- The slice an allocation hands out. -/
def AllocateResult.slice? : AllocateResult → Option WriteSlice
  | .ok s => some s
  | .full s _ => some s
  | .none => Option.none

/-- Every slice an allocation hands out carries the version the region had. -/
theorem allocate_slice_version (dev : Device) (id : RegionId) (inner : RegionInner) (size : Nat)
    {r : AllocateResult} {w : WriteSlice} (h : (inner.allocate dev id size).2 = .ok r)
    (hw : r.slice? = some w) : w.version = inner.version := by
  unfold RegionInner.allocate at h; dsimp only at h
  split at h <;> split at h <;> cases h <;> cases hw <;> rfl

/-! ## Section 3: The region system

    One region with everything that holds it: the `WriteSlice`s, the buffered
    `ReadSlice::Slice`s and the owned `ReadSlice::Owned`s not yet dropped, and
    the physical loads between their locked start and their return. Each action
    is one atomic step of some task; `none` means the action cannot happen in
    this state (nothing to drop, a load that does not exist, or `exclusive`
    still waiting). -/

/-- A physical load in progress: its range and how far the chunk loop got. -/
structure PhysicalLoad where
  start : Nat
  stop : Nat
  offset : Nat

/-- What one `device.read` of a chunk returns. -/
inductive DeviceRead where
  /-- The whole chunk. -/
  | full
  /-- Fewer bytes than asked. -/
  | short
  /-- An I/O error, passed on by `?`. -/
  | error
  deriving DecidableEq, Repr

/-- A region together with the slices and loads that hold it. -/
structure RegionSys where
  inner : RegionInner
  writeSlices : Nat
  bufferedSlices : Nat
  ownedSlices : Nat
  loads : List PhysicalLoad

/-- A region just built by `Region::new`, held by nothing. -/
def RegionSys.init (dev : Device) : RegionSys := ⟨RegionInner.new dev, 0, 0, 0, []⟩

/-- The operations on a region, each one atomic step. -/
inductive RegionAction where
  | allocate (size : Nat)
  | load (start stop : Nat) (version : Version)
  /-- The `i`-th physical load in progress reads its next chunk. -/
  | readChunk (i : Nat) (r : DeviceRead)
  | dropWriteSlice
  | dropBufferedSlice
  | dropOwnedSlice
  | attachBuffer (buf : Buffer)
  | detachBuffer
  | exclusive (canWrite canBufferedRead canPhysicalRead : Bool)
  | advance

/-- The region's part of the reclaimer's `Runner::run`: it waits for
    `exclusive(false, false, false)`; taking the catalog entries and releasing
    the region touch no `RegionInner`. -/
def RegionAction.reclaim : RegionAction := .exclusive false false false

/-- Is the action `advance`? -/
def RegionAction.isAdvance : RegionAction → Bool
  | .advance => true
  | _ => false

namespace RegionSys

variable (dev : Device) (id : RegionId)

/-- The loop of a physical load after one more chunk: it reads
    `min(io_size, end - start - offset)` bytes at `start + offset`; a full
    read moves on, and the loop ends when `start + offset` reaches `end`. -/
def chunkLen (ld : PhysicalLoad) : Nat := min dev.ioSize (ld.stop - ld.start - ld.offset)

/-- One step of the region system. -/
def step (s : RegionSys) : RegionAction → Option RegionSys
  | .allocate size =>
    let r := s.inner.allocate dev id size
    some { s with inner := r.1,
                  writeSlices := if r.2 = .panic then s.writeSlices else s.writeSlices + 1 }
  | .load start stop v =>
    let r := s.inner.loadStart start stop v
    some <| match r.2 with
      | .mismatch | .panic => { s with inner := r.1 }
      | .buffered _ => { s with inner := r.1, bufferedSlices := s.bufferedSlices + 1 }
      | .physical =>
        if start < stop then { s with inner := r.1, loads := s.loads ++ [⟨start, stop, 0⟩] }
        else { s with inner := r.1, ownedSlices := s.ownedSlices + 1 }
  | .readChunk i r =>
    if h : i < s.loads.length then
      let ld := s.loads[i]
      match r with
      | .error => some { s with loads := s.loads.eraseIdx i }
      | .short =>
        some { s with inner := { s.inner with physicalReaders := s.inner.physicalReaders - 1 },
                      loads := s.loads.eraseIdx i }
      | .full =>
        let ld' := { ld with offset := ld.offset + chunkLen dev ld }
        if ld'.start + ld'.offset < ld'.stop then some { s with loads := s.loads.set i ld' }
        else some { s with loads := s.loads.eraseIdx i, ownedSlices := s.ownedSlices + 1 }
    else none
  | .dropWriteSlice =>
    if s.writeSlices = 0 then none
    else some { s with inner := { s.inner with writers := s.inner.writers - 1 },
                       writeSlices := s.writeSlices - 1 }
  | .dropBufferedSlice =>
    if s.bufferedSlices = 0 then none
    else some { s with inner := { s.inner with bufferedReaders := s.inner.bufferedReaders - 1 },
                       bufferedSlices := s.bufferedSlices - 1 }
  | .dropOwnedSlice =>
    if s.ownedSlices = 0 then none
    else some { s with inner := { s.inner with physicalReaders := s.inner.physicalReaders - 1 },
                       ownedSlices := s.ownedSlices - 1 }
  | .attachBuffer buf => some { s with inner := (s.inner.attachBuffer dev buf).getD s.inner }
  | .detachBuffer => some { s with inner := ((s.inner.detachBuffer).map Prod.fst).getD s.inner }
  | .exclusive cw cb cp => if s.inner.isReady cw cb cp then some s else none
  | .advance => some { s with inner := s.inner.advance }

/-- A run of actions, each of which must be able to happen. -/
def run : RegionSys → List RegionAction → Option RegionSys
  | s, [] => some s
  | s, a :: as => (step dev id s a).bind (run · as)

/-! ## Section 4: What the counters count -/

/-- The counters equal what they are meant to count: `writers` the
    outstanding `WriteSlice`s, `buffered_readers` the outstanding buffered
    `ReadSlice`s, `physical_readers` the physical loads in progress and the
    outstanding owned `ReadSlice`s. -/
def CountersMatch (s : RegionSys) : Prop :=
  s.inner.writers = s.writeSlices ∧ s.inner.bufferedReaders = s.bufferedSlices ∧
    s.inner.physicalReaders = s.loads.length + s.ownedSlices

/-- The steps that raise a counter and never lower it again: `allocate` on a
    region without a buffer and a `load` whose range panics raise it before
    panicking; a physical load whose device read fails returns through `?`
    without the decrement its short-read sibling makes. -/
def Leaks (s : RegionSys) : RegionAction → Prop
  | .allocate _ => s.inner.buffer = none
  | .load start stop v => (s.inner.loadStart start stop v).2 = .panic
  | .readChunk i r => i < s.loads.length ∧ r = .error
  | _ => False

theorem init_countersMatch : CountersMatch (init dev) := by
  simp [CountersMatch, init, RegionInner.new]

/-- Every step but the leaking ones keeps the counters exact. -/
theorem countersMatch_step {s s' : RegionSys} {a : RegionAction} (h : CountersMatch s)
    (hs : step dev id s a = some s') (hl : ¬ Leaks s a) : CountersMatch s' := by
  obtain ⟨hw, hb, hp⟩ := h
  cases a with
  | allocate size =>
    simp only [Leaks] at hl
    simp only [step, Option.some.injEq] at hs; subst hs
    simp [CountersMatch, (RegionInner.allocate_panic_iff dev id s.inner size).not.2 hl, *]
  | load start stop v =>
    simp only [Leaks] at hl
    simp only [step, Option.some.injEq] at hs; subst hs
    cases hr : (s.inner.loadStart start stop v).2 with
    | mismatch => simp [CountersMatch, RegionInner.loadStart_of_mismatch hr, *]
    | panic => exact absurd hr hl
    | buffered b => simp [CountersMatch, RegionInner.loadStart_of_buffered hr, *]
    | physical =>
      simp only [RegionInner.loadStart_of_physical hr]
      split <;> simp [CountersMatch, *] <;> omega
  | readChunk i r =>
    simp only [step] at hs
    split at hs
    · rename_i hi
      cases r with
      | error => exact absurd ⟨hi, rfl⟩ hl
      | short =>
        cases hs
        simp [CountersMatch, List.length_eraseIdx, hi, *]; omega
      | full =>
        dsimp only at hs
        split at hs <;> cases hs <;> simp [CountersMatch, List.length_eraseIdx, hi, *]; omega
    · cases hs
  | dropWriteSlice | dropBufferedSlice | dropOwnedSlice =>
    simp only [step] at hs
    split at hs
    · cases hs
    · cases hs; simp [CountersMatch, *] <;> omega
  | attachBuffer buf =>
    simp only [step, Option.some.injEq] at hs; subst hs
    cases ha : s.inner.attachBuffer dev buf with
    | none => exact ⟨hw, hb, hp⟩
    | some i =>
      simp only [RegionInner.attachBuffer] at ha; split at ha <;> cases ha
      exact ⟨hw, hb, hp⟩
  | detachBuffer =>
    simp only [step, Option.some.injEq] at hs; subst hs
    cases hd : s.inner.buffer <;> simp [RegionInner.detachBuffer, hd, CountersMatch, *]
  | exclusive cw cb cp =>
    simp only [step] at hs; split at hs <;> cases hs; exact ⟨hw, hb, hp⟩
  | advance =>
    simp only [step, Option.some.injEq] at hs; subst hs; exact ⟨hw, hb, hp⟩

/-- A run none of whose steps leaks, judged in the states the run passes
    through. -/
def LeakFree : RegionSys → List RegionAction → Prop
  | _, [] => True
  | s, a :: as => ¬ Leaks s a ∧ ∀ t, step dev id s a = some t → LeakFree t as

/-- Along a run with no leaking step the counters stay exact. -/
theorem countersMatch_run {s s' : RegionSys} {as : List RegionAction} (h : CountersMatch s)
    (hrun : run dev id s as = some s') (hl : LeakFree dev id s as) : CountersMatch s' := by
  induction as generalizing s with
  | nil => simp only [run, Option.some.injEq] at hrun; exact hrun ▸ h
  | cons a as ih =>
    obtain ⟨hl, hnext⟩ := hl
    simp only [run, Option.bind_eq_some] at hrun
    obtain ⟨t, hs, hrun⟩ := hrun
    exact ih (countersMatch_step dev id h hs hl) hrun (hnext t hs)

/-- With exact counters, `exclusive(false, false, false)` is ready exactly
    when nothing holds the region. -/
theorem isReady_iff_free {s : RegionSys} (h : CountersMatch s) :
    s.inner.isReady false false false = true ↔
      s.writeSlices = 0 ∧ s.bufferedSlices = 0 ∧ s.loads = [] ∧ s.ownedSlices = 0 := by
  obtain ⟨hw, hb, hp⟩ := h
  simp [RegionInner.isReady, hw, hb, hp, and_assoc]

/-- On every run of a new region with no leaking step, the reclaimer's
    `exclusive(false, false, false)` is granted exactly when no `WriteSlice`,
    no buffered or owned `ReadSlice` and no physical load holds the region. -/
theorem reclaim_granted_iff_free {as : List RegionAction} {s : RegionSys}
    (hrun : run dev id (init dev) as = some s) (hl : LeakFree dev id (init dev) as) :
    (step dev id s .reclaim).isSome ↔
      s.writeSlices = 0 ∧ s.bufferedSlices = 0 ∧ s.loads = [] ∧ s.ownedSlices = 0 := by
  rw [← isReady_iff_free (countersMatch_run dev id (init_countersMatch dev) hrun hl)]
  show (if s.inner.isReady false false false then some s else none).isSome ↔ _
  cases s.inner.isReady false false false <;> simp

theorem reclaim_granted_iff_free_small :
    ∃ s, run Device.small 0 (init Device.small) [.attachBuffer Buffer.zero, .allocate 32] = some s ∧
      LeakFree Device.small 0 (init Device.small) [.attachBuffer Buffer.zero, .allocate 32] ∧
      ((step Device.small 0 s .reclaim).isSome ↔
        s.writeSlices = 0 ∧ s.bufferedSlices = 0 ∧ s.loads = [] ∧ s.ownedSlices = 0) := by
  have hl : LeakFree Device.small 0 (init Device.small) [.attachBuffer Buffer.zero, .allocate 32] := by
    simp [LeakFree, Leaks, step, init, RegionInner.attachBuffer, RegionInner.new]
  exact ⟨_, rfl, hl, @reclaim_granted_iff_free Device.small 0 [.attachBuffer Buffer.zero, .allocate 32] _ rfl hl⟩

/-- More physical readers are counted than there are physical loads in
    progress and owned slices outstanding. -/
def PhysicalLeaked (s : RegionSys) : Prop := s.loads.length + s.ownedSlices < s.inner.physicalReaders

/-- Nothing ever lowers `physical_readers` without a load or owned slice going
    with it, so a leaked physical reader stays leaked. -/
theorem physicalLeaked_step {s s' : RegionSys} {a : RegionAction} (h : PhysicalLeaked s)
    (hs : step dev id s a = some s') : PhysicalLeaked s' := by
  unfold PhysicalLeaked at *
  cases a with
  | allocate size => simp only [step, Option.some.injEq] at hs; subst hs; simpa using h
  | load start stop v =>
    simp only [step, Option.some.injEq] at hs; subst hs
    have : s.inner.physicalReaders ≤ (s.inner.loadStart start stop v).1.physicalReaders :=
      RegionInner.le_loadStart_physicalReaders
    cases hr : (s.inner.loadStart start stop v).2 with
    | mismatch | panic | buffered _ => simp only; omega
    | physical =>
      simp only [RegionInner.loadStart_of_physical hr]
      split <;> simp <;> omega
  | readChunk i r =>
    simp only [step] at hs
    split at hs
    · rename_i hi
      cases r with
      | error => cases hs; simp [List.length_eraseIdx, hi]; omega
      | short => cases hs; simp [List.length_eraseIdx, hi]; omega
      | full =>
        dsimp only at hs
        split at hs <;> cases hs <;> simp [List.length_eraseIdx, hi] <;> omega
    · cases hs
  | dropWriteSlice | dropBufferedSlice | dropOwnedSlice =>
    simp only [step] at hs
    split at hs
    · cases hs
    · cases hs; simp; omega
  | attachBuffer buf =>
    simp only [step, Option.some.injEq] at hs; subst hs
    cases ha : s.inner.attachBuffer dev buf with
    | none => simpa [ha] using h
    | some i =>
      simp only [RegionInner.attachBuffer] at ha; split at ha <;> cases ha
      simpa using h
  | detachBuffer =>
    simp only [step, Option.some.injEq] at hs; subst hs
    cases hd : s.inner.buffer <;> simpa [RegionInner.detachBuffer, hd] using h
  | exclusive cw cb cp => simp only [step] at hs; split at hs <;> cases hs; exact h
  | advance => simp only [step, Option.some.injEq] at hs; subst hs; exact h

theorem physicalLeaked_run {s s' : RegionSys} {as : List RegionAction} (h : PhysicalLeaked s)
    (hrun : run dev id s as = some s') : PhysicalLeaked s' := by
  induction as generalizing s with
  | nil => simp only [run, Option.some.injEq] at hrun; exact hrun ▸ h
  | cons a as ih =>
    simp only [run] at hrun
    cases hs : step dev id s a with
    | none => simp [hs] at hrun
    | some t => rw [hs, Option.some_bind] at hrun; exact ih (physicalLeaked_step dev id h hs) hrun

/-- A physical load on a fresh region whose first device read fails: the
    counter `physical_readers` stays at one with no load in progress and no
    slice outstanding, and in every later state `exclusive(false, false,
    false)` is still not ready, so a reclaim of the region waits forever. -/
theorem physical_read_error_leaks_reader :
    ∃ s, run dev id (init dev) [.load 0 dev.align 0, .readChunk 0 .error] = some s ∧
      ¬ CountersMatch s ∧
      ∀ as s', run dev id s as = some s' → s'.inner.isReady false false false = false := by
  have ha := dev.align_pos
  refine ⟨{ init dev with inner := { RegionInner.new dev with physicalReaders := 1 } }, ?_, ?_, ?_⟩
  · simp only [run, step, init, RegionInner.loadStart, RegionInner.new, ne_eq, not_true_eq_false,
      false_and, if_false]
    simp [ha]
  · simp [CountersMatch, init]
  · intro as s' hrun
    have hl := physicalLeaked_run dev id (by simp [PhysicalLeaked, init]) hrun
    unfold PhysicalLeaked at hl
    simp only [RegionInner.isReady, Bool.false_or, Bool.and_eq_false_iff, beq_eq_false_iff_ne]
    right; omega

/-! ## Section 5: Versions -/

/-- Only `advance` changes the version. -/
theorem step_version {s s' : RegionSys} {a : RegionAction} (hs : step dev id s a = some s') :
    s'.inner.version = if a.isAdvance then s.inner.version + 1 else s.inner.version := by
  cases a with
  | allocate size => simp only [step, Option.some.injEq] at hs; subst hs; simp [RegionAction.isAdvance]
  | load start stop v =>
    simp only [step, Option.some.injEq] at hs; subst hs
    simp only [RegionAction.isAdvance, Bool.false_eq_true, ite_false]
    split <;> (try split) <;> simp
  | readChunk i r =>
    simp only [step] at hs; split at hs
    · cases r <;> dsimp only at hs <;> (try split at hs) <;> cases hs <;> rfl
    · cases hs
  | dropWriteSlice | dropBufferedSlice | dropOwnedSlice =>
    simp only [step] at hs; split at hs <;> cases hs
    rfl
  | attachBuffer buf =>
    simp only [step, Option.some.injEq] at hs; subst hs
    cases ha : s.inner.attachBuffer dev buf with
    | none => simp [ha, RegionAction.isAdvance]
    | some i =>
      simp only [RegionInner.attachBuffer] at ha; split at ha <;> cases ha
      simp [RegionAction.isAdvance]
  | detachBuffer =>
    simp only [step, Option.some.injEq] at hs; subst hs
    cases hd : s.inner.buffer <;> simp [RegionInner.detachBuffer, hd, RegionAction.isAdvance]
  | exclusive cw cb cp => simp only [step] at hs; split at hs <;> cases hs; rfl
  | advance => simp only [step, Option.some.injEq] at hs; subst hs; simp [RegionAction.isAdvance, RegionInner.advance]

/-- After a run the version has moved by the number of `advance`s, modulo
    `2 ^ 32`. -/
theorem run_version {s s' : RegionSys} {as : List RegionAction} (hrun : run dev id s as = some s') :
    s'.inner.version.toNat = (s.inner.version.toNat + as.countP RegionAction.isAdvance) % 2 ^ 32 := by
  induction as generalizing s with
  | nil =>
    simp only [run, Option.some.injEq] at hrun; subst hrun
    simp [Nat.mod_eq_of_lt s.inner.version.toNat_lt_size]
  | cons a as ih =>
    simp only [run] at hrun
    cases hs : step dev id s a with
    | none => simp [hs] at hrun
    | some t =>
      rw [hs, Option.some_bind] at hrun
      have h1 : (1 : UInt32).toNat = 1 := rfl
      rw [ih hrun, step_version dev id hs, List.countP_cons]
      cases a.isAdvance
      · simp
      · simp only [if_true, UInt32.toNat_add_mod, h1]; omega

/-- The region's first generation hands out `WriteSlice`s of version `0`; after
    the slice is dropped, the buffer detached and the region reclaimed, a load
    with that version still reads the device and returns an owned slice. The
    reclaim left the version at `0`, and as long as nothing advances it
    (nothing in the sources does), every `WriteSlice` the region hands out
    later carries the wildcard `0` as well. -/
theorem reclaimed_first_generation_still_loads :
    ∃ s₁ s₂ s₃, run Device.small 0 (init Device.small) [.attachBuffer Buffer.zero] = some s₁ ∧
      (s₁.inner.allocate Device.small 0 32).2 = .ok (.ok ⟨0, 0, 32, 32, 32⟩) ∧
      run Device.small 0 s₁ [.allocate 32, .dropWriteSlice, .detachBuffer, .reclaim] = some s₂ ∧
      run Device.small 0 s₂ [.load 32 64 0, .readChunk 0 .full] = some s₃ ∧
      (s₂.inner.loadStart 32 64 0).2 = .physical ∧ s₃.ownedSlices = 1 ∧
      ∀ as s' size r w, (∀ a ∈ as, a.isAdvance = false) → run Device.small 0 s₂ as = some s' →
        (s'.inner.allocate Device.small 0 size).2 = .ok r → r.slice? = some w → w.version = 0 := by
  refine ⟨_, _, _, rfl, rfl, rfl, rfl, rfl, rfl, fun as s' size r w hadv hrun hres hw => ?_⟩
  have hver := run_version Device.small 0 hrun
  rw [List.countP_eq_zero.2 fun a ha => by simp [hadv a ha]] at hver
  rw [allocate_slice_version Device.small 0 s'.inner size hres hw, UInt32.eq_iff_toNat_eq, hver]
  rfl

end RegionSys

end Foyer
