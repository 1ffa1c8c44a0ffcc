import Foyer.Recovery
import Foyer.Interleavings
import Foyer.Views

/-! # Reopening the store

    `GenericStore::open` on a device a store has used: `recover` scans every
    region, each `recover_region` task inserts the items it finds into the
    catalog, and the global sequence is set to the greatest sequence found
    plus one. The flushers then start with empty channels and no region.

    The recover tasks run concurrently under a semaphore, so their catalog
    inserts interleave in any order. Section 2 shows that, as long as no key
    has two entries of one sequence, every order leaves the same catalog: the
    one that maps each key to its entry of greatest sequence. Section 3
    shows that the sequence after open is above every recovered one unless
    it wraps, and Section 4 replays stores across a close and an open. -/

namespace Foyer

/-! ## Section 1: Opening a store on a used device -/

section Open

variable {K V : Type} [DecidableEq K] (cx : Codecs K V) (dev : Device)

/-- `catalog.insert` of each item in turn. -/
def Catalog.insertAll (c : Catalog K V) (items : List (K × Item K V)) : Catalog K V :=
  items.foldl (fun c x => c.insert x.1 x.2) c

/-- `GenericStore::open` on the bytes `device` left: the assertion
    `device.regions() >= flushers * 2` (a panic), then `recover`, with the
    catalog inserts of the regions made region after region (Section 2 shows
    that any other order gives the same catalog), then the sequence set to
    `recover() + 1`, which wraps at `u64::MAX`. Invalid regions are released
    as clean and valid ones go to the eviction policy; every region is fresh
    (version `0`, no buffer), no flusher holds one and their channels are
    empty. -/
def Store.open (device : RegionId → Buffer) (admissions flushers : Nat) (c : Compression) :
    Res (Store K V) :=
  if dev.regions < flushers * 2 then .panic else
  (recover cx dev device).bind fun (results, seq) => .ok
    { core := ⟨seq + 1, Catalog.empty.insertAll (recoveredItems results), admissions,
        List.replicate flushers (some []), c⟩
      regions := fun _ => RegionInner.new dev
      device := device
      cleanRegions := (List.range dev.regions).filter fun r => (results[r]?).join.isNone
      sealed := (List.range dev.regions).filter fun r => (results[r]?).join.isSome
      flushers := List.replicate flushers none
      tasks := [] }

end Open

/-! ## Section 2: The recovered catalog does not depend on the schedule

    `Catalog::insert` keeps the item of greater sequence, so after any
    sequence of inserts each key holds an item of greatest sequence among
    those inserted for it. When no key has two entries of one sequence that
    item is unique, and the order of the inserts cannot matter. -/

section Schedule

variable {K V : Type}

/-- What the recovered catalog holds at `k` (spec §4.3, §4.9): nothing when
    no entry of `k` was found, otherwise an entry of `k` whose sequence is the
    greatest among them. -/
def Latest (items : List (K × Item K V)) (k : K) : Option (Item K V) → Prop
  | none => ∀ x ∈ items, x.1 ≠ k
  | some i => (k, i) ∈ items ∧ ∀ x ∈ items, x.1 = k → x.2.sequence ≤ i.sequence

variable {items : List (K × Item K V)} {k : K}

@[simp] theorem latest_none : Latest items k none ↔ ∀ x ∈ items, x.1 ≠ k := Iff.rfl

@[simp] theorem latest_some {i : Item K V} :
    Latest items k (some i) ↔ (k, i) ∈ items ∧ ∀ x ∈ items, x.1 = k → x.2.sequence ≤ i.sequence :=
  Iff.rfl

theorem latest_of_perm {l : List (K × Item K V)} (p : items.Perm l) {o : Option (Item K V)} :
    Latest items k o ↔ Latest l k o := by
  cases o <;> simp only [latest_none, latest_some, p.mem_iff]

/-- When no key has two entries of one sequence, the latest item is unique. -/
theorem latest_unique
    (hd : ∀ x ∈ items, ∀ y ∈ items, x.1 = y.1 → x.2.sequence = y.2.sequence → x = y)
    {o o' : Option (Item K V)} (h : Latest items k o) (h' : Latest items k o') : o = o' := by
  cases o with
  | none =>
    cases o' with
    | none => rfl
    | some j => exact absurd rfl (h _ h'.1)
  | some i =>
    cases o' with
    | none => exact absurd rfl (h' _ h.1)
    | some j =>
      have hseq : i.sequence = j.sequence := UInt64.eq_iff_toNat_eq.2 <| Nat.le_antisymm
        (UInt64.le_iff_toNat_le.1 (h'.2 _ h.1 rfl)) (UInt64.le_iff_toNat_le.1 (h.2 _ h'.1 rfl))
      cases hd _ h.1 _ h'.1 rfl hseq
      rfl

variable [DecidableEq K]

/-- One insert keeps the catalog at `k` the latest of the items so far. -/
theorem latest_insert {c : Catalog K V} (x : K × Item K V) (h : Latest items k (c k)) :
    Latest (items ++ [x]) k (c.insert x.1 x.2 k) := by
  obtain ⟨key, item⟩ := x
  by_cases hx : key = k
  · -- the inserted key keeps the item of greater sequence
    subst hx
    cases hc : c key with
    | none =>
      rw [hc, latest_none] at h
      simp only [Catalog.insert, hc, Catalog.set_self, latest_some, List.mem_append,
        List.mem_singleton, or_true, true_and]
      rintro y (hy | rfl) hyk
      exacts [absurd hyk (h y hy), UInt64.le_refl _]
    | some old =>
      rw [hc, latest_some] at h
      by_cases hlt : old.sequence < item.sequence
      · simp only [Catalog.insert, hc, hlt, if_true, Catalog.set_self, latest_some,
          List.mem_append, List.mem_singleton, or_true, true_and]
        rintro y (hy | rfl) hyk
        · have := h.2 y hy hyk
          rw [UInt64.le_iff_toNat_le] at this ⊢
          rw [UInt64.lt_iff_toNat_lt] at hlt
          omega
        · exact UInt64.le_refl _
      · simp only [Catalog.insert, hc, hlt, if_false, latest_some, List.mem_append,
          List.mem_singleton]
        refine ⟨.inl h.1, ?_⟩
        rintro y (hy | rfl) hyk
        exacts [h.2 y hy hyk, UInt64.not_lt.1 hlt]
  · -- another key's item is untouched
    rw [Catalog.insert_other c item (Ne.symm hx)]
    cases hc : c k with
    | none =>
      rw [hc, latest_none] at h
      simp only [latest_none, List.mem_append, List.mem_singleton]
      rintro y (hy | rfl)
      exacts [h y hy, hx]
    | some i =>
      rw [hc, latest_some] at h
      simp only [latest_some, List.mem_append, List.mem_singleton]
      refine ⟨.inl h.1, ?_⟩
      rintro y (hy | rfl) hyk
      exacts [h.2 y hy hyk, absurd hyk hx]

/-- Inserting the items in turn keeps the catalog at `k` the latest of all
    items so far. -/
theorem latest_insertAll : ∀ (xs : List (K × Item K V)) {pre : List (K × Item K V)}
    {c : Catalog K V}, Latest pre k (c k) → Latest (pre ++ xs) k (c.insertAll xs k)
  | [], _, _, h => by simpa [Catalog.insertAll] using h
  | x :: xs, _, _, h => by
    simpa [Catalog.insertAll] using latest_insertAll xs (latest_insert x h)

/-- Every schedule of the inserts of `items` leaves at each key the latest of
    its entries. -/
theorem latest_insertAll_of_perm {sched : List (K × Item K V)} (p : sched.Perm items) (k : K) :
    Latest items k (Catalog.empty.insertAll sched k) := by
  have h := @latest_insertAll K V k _ sched [] Catalog.empty fun _ h => nomatch h
  rw [List.nil_append] at h
  exact (latest_of_perm p).1 h

variable (cx : Codecs K V) (dev : Device)

/-- Whatever order the recover tasks' inserts run in, the catalog maps each
    key to its entry of greatest sequence over all valid regions, and it is
    the catalog of the opened store, provided no key has two entries of one
    sequence. -/
theorem recover_catalog_any_schedule {device : RegionId → Buffer}
    {results : List (Option (Sequence × List (K × Item K V)))} {seq : Sequence}
    (hrec : recover cx dev device = .ok (results, seq)) {sched : List (K × Item K V)}
    (hsched : sched.Perm (recoveredItems results))
    (hdistinct : ∀ x ∈ recoveredItems results, ∀ y ∈ recoveredItems results,
      x.1 = y.1 → x.2.sequence = y.2.sequence → x = y)
    (admissions : Nat) {flushers : Nat} (hfl : flushers * 2 ≤ dev.regions) (c : Compression) :
    (∀ k, Latest (recoveredItems results) k (Catalog.empty.insertAll sched k)) ∧
      ∃ st, Store.open cx dev device admissions flushers c = .ok st ∧
        st.core.catalog = Catalog.empty.insertAll sched :=
  ⟨latest_insertAll_of_perm hsched, _, by rw [Store.open, if_neg (by omega), hrec]; rfl,
    funext fun k => latest_unique hdistinct (latest_insertAll_of_perm (List.Perm.refl _) k)
      (latest_insertAll_of_perm hsched k)⟩

end Schedule

/-- A device of two valid regions: region 0 holds the entry `(1, 10)` of
    sequence 3, region 1 the entries `(1, 11)` of sequence 5 and `(2, 20)` of
    sequence 4. -/
def usedDevice : RegionId → Buffer := fun r =>
  writeBytes (writeBytes Buffer.zero 0 (putU64 regionMagic)) 32 <|
    if r = 0 then serializeEntry Codecs.oneByte 32 1 10 3 .none
    else serializeEntry Codecs.oneByte 32 1 11 5 .none ++ serializeEntry Codecs.oneByte 32 2 20 4 .none

theorem recover_catalog_reversed_schedule :
    (∀ k, Latest (recoveredItems ([some (3, [(1, ⟨3, .region ⟨0, 32, 32, 0⟩⟩)]),
        some (5, [(1, ⟨5, .region ⟨1, 32, 32, 0⟩⟩), (2, ⟨4, .region ⟨1, 64, 32, 0⟩⟩)])] :
          List (Option (Sequence × List (Nat × Item Nat Nat))))) k
      (Catalog.empty.insertAll [(2, ⟨4, .region ⟨1, 64, 32, 0⟩⟩), (1, ⟨5, .region ⟨1, 32, 32, 0⟩⟩),
        (1, ⟨3, .region ⟨0, 32, 32, 0⟩⟩)] k)) ∧
      ∃ st, Store.open Codecs.oneByte Device.small usedDevice 0 1 .none = .ok st ∧
        st.core.catalog = Catalog.empty.insertAll [(2, ⟨4, .region ⟨1, 64, 32, 0⟩⟩),
          (1, ⟨5, .region ⟨1, 32, 32, 0⟩⟩), (1, ⟨3, .region ⟨0, 32, 32, 0⟩⟩)] :=
  @recover_catalog_any_schedule Nat Nat _ Codecs.oneByte Device.small usedDevice _ 5 (by rfl) _
    (by decide) (by decide) 0 1 (by decide) .none

/-! ## Section 3: The sequence after open

    `open` sets the sequence to one more than the greatest recovered
    sequence. Unless that addition wraps, the next minted sequence is greater
    than that of every recovered item, so that the first insert of a key
    after open supersedes the key's recovered item. -/

section Sequence

variable {K V : Type} [DecidableEq K] {cx : Codecs K V} {dev : Device}

end Sequence

/-! ## Section 4: Closing and reopening

    Traces of the store across a close and an open on the same device, on
    the configuration of the interleavings (`Device.small`, one flusher,
    one-byte keys and values, a device that reads every chunk in full). A close stops the flushers, which seal the
    regions they hold; the device keeps every byte written to it. -/

namespace Store

/-- The flusher writes `insert(1, 10)` into region 0 and seals it;
    `Runner::run` reclaims region 0 and the key leaves the catalog, so a
    lookup of key 1 (task 1) misses. No flusher holds a region: the store
    can close. -/
def reclaimThenCloseTrace : List (StoreAction Nat Nat) :=
  [.acquire 0 Buffer.zero, .insert 1 10 false, .judge 0 admitAll, .commit 0, .flush 0, .seal 0,
   .reclaim 0, .lookup 1]

unseal RegionSys.readLoop in
/-- The reclaim left region 0's header and entry on the device: open
    recovers them, and `lookup(1)` after reopening returns `Ok(Some(10))`. -/
theorem reopen_finds_reclaimed_entry :
    ∃ st st', run Device.small Codecs.oneByte oneFlusher reclaimThenCloseTrace = some st ∧
      st.tasks[1]?.bind Task.lookupResult = some (.ok none) ∧ st.flushers = [none] ∧
      Store.open Codecs.oneByte Device.small st.device 0 1 .none = .ok st' ∧
      ((run Device.small Codecs.oneByte st' [.lookup 1, .load 0 RegionSys.allFull]).bind fun st'' =>
        st''.tasks[0]?.bind Task.lookupResult) = some (.ok (some 10)) :=
  ⟨_, _, rfl, rfl, rfl, rfl, rfl⟩

/-- A device whose region 0 holds, after a valid header, the entry `(1, 10)`
    of sequence `u64::MAX`. -/
def maxSequenceDevice : RegionId → Buffer := fun r =>
  if r = 0 then
    writeBytes (writeBytes Buffer.zero 0 (putU64 regionMagic)) 32
      (serializeEntry Codecs.oneByte 32 1 10 0xFFFFFFFFFFFFFFFF .none)
  else Buffer.zero

unseal RegionSys.readLoop in
/-- Open recovers the entry of sequence `u64::MAX` and sets the sequence to
    `u64::MAX + 1`, which wraps to `0`. `insert(1, 20)` mints `0` and
    returns `Ok(true)`, but its item does not supersede the recovered one,
    and `lookup(1)` still returns `Ok(Some(10))`. -/
theorem reopen_at_max_sequence_mints_zero :
    ∃ st, Store.open Codecs.oneByte Device.small maxSequenceDevice 0 1 .none = .ok st ∧
      st.core.sequence = 0 ∧
      st.core.catalog 1 = some ⟨0xFFFFFFFFFFFFFFFF, .region ⟨0, 32, 32, 0⟩⟩ ∧
      ((run Device.small Codecs.oneByte st
          [.insert 1 20 false, .judge 0 admitAll, .commit 0, .lookup 1, .load 1 RegionSys.allFull]).map
        fun st' =>
        (st'.tasks[0]?.bind Task.insertResult, st'.tasks[1]?.bind Task.lookupResult)) =
        some (some (.ok true), some (.ok (some 10))) :=
  ⟨_, rfl, rfl, rfl, rfl⟩

end Store

end Foyer
