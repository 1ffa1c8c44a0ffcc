import Foyer.Interleavings

/-! # Allocation in an attached region

    From `Region::attach_buffer` to the next detach, a region hands out write
    slices with `allocate`: a bump pointer `len` that starts after the region
    header block `[0, align)` and stops short of the footer block
    `[region_size - align, region_size)`. The first allocation that would
    reach the footer gets the footer block itself, as a `Full` result, and
    moves `len` to `region_size`, so that every later one is `Full` too.

    Section 1 follows a run of `allocate` calls on one attached buffer.
    Section 2 compares the entries `apply_writer` admits with what such a run
    can take: `apply_writer` checks no size, and an entry longer than
    `region_size - 2 * align` is `Full` in every region. -/

namespace Foyer

namespace RegionInner

variable (dev : Device) (id : RegionId)

/-! ## Section 1: A run of allocations -/

/-- `allocate` called with each size in turn: the region after the last call,
    and the results in call order. -/
def allocateAll (inner : RegionInner) : List Nat → RegionInner × List (Res AllocateResult)
  | [] => (inner, [])
  | n :: ns =>
    let r := inner.allocate dev id n
    let rest := allocateAll r.1 ns
    (rest.1, r.2 :: rest.2)

/-- The bytes that the `Ok` results among `rs` hand out. -/
def okBytes : List (Res AllocateResult) → Nat
  | [] => 0
  | .ok (.ok s) :: rs => s.len + okBytes rs
  | _ :: rs => okBytes rs

/-- The shape every region between attach and detach keeps: a buffer, the
    capacity `Region::new` gave it, and `len` between the header block and
    `region_size`. -/
structure Attached (inner : RegionInner) : Prop where
  buffer : inner.buffer.isSome
  capacity : inner.capacity = dev.regionSize
  len_ge : dev.align ≤ inner.len
  len_le : inner.len ≤ dev.regionSize

variable {dev id}

/-- `allocate` on a region with a buffer: the slice at `len` when the size
    leaves the footer block free, the footer block and what was left
    otherwise. -/
theorem allocate_of_buffer {inner : RegionInner} {b : Buffer} (hb : inner.buffer = some b)
    (n : Nat) : inner.allocate dev id n =
      if inner.len + n + dev.align ≤ inner.capacity then
        ({ inner with writers := inner.writers + 1, len := inner.len + n },
          .ok (.ok ⟨id, inner.version, inner.len, inner.len, n⟩))
      else
        ({ inner with writers := inner.writers + 1, len := dev.regionSize },
          .ok (.full ⟨id, inner.version, inner.len, dev.regionSize - dev.align, dev.align⟩
            (dev.regionSize - inner.len))) := by
  unfold allocate
  by_cases h : inner.len + n + dev.align ≤ inner.capacity
  · simp [h, hb, show ¬ inner.capacity < inner.len + n + dev.align by omega]
  · simp [h, hb, show inner.capacity < inner.len + n + dev.align by omega]

@[simp] theorem allocateAll_nil (inner : RegionInner) : inner.allocateAll dev id [] = (inner, []) :=
  rfl

theorem allocateAll_cons (inner : RegionInner) (n : Nat) (ns : List Nat) :
    inner.allocateAll dev id (n :: ns) =
      (((inner.allocate dev id n).1.allocateAll dev id ns).1,
        (inner.allocate dev id n).2 :: ((inner.allocate dev id n).1.allocateAll dev id ns).2) :=
  rfl

@[simp] theorem length_allocateAll (inner : RegionInner) (ns : List Nat) :
    (inner.allocateAll dev id ns).2.length = ns.length := by
  induction ns generalizing inner with
  | nil => rfl
  | cons n ns ih => simp [allocateAll_cons, ih]

/-- One allocation on an attached region: an `Ok` slice at `len`, or the
    footer block with `len` moved to `region_size`; the region stays
    attached. -/
theorem allocate_cases {inner : RegionInner} (h : Attached dev inner) (n : Nat) :
    (inner.len + n + dev.align ≤ dev.regionSize ∧
      (inner.allocate dev id n).2 = .ok (.ok ⟨id, inner.version, inner.len, inner.len, n⟩) ∧
      (inner.allocate dev id n).1.len = inner.len + n) ∨
    (dev.regionSize < inner.len + n + dev.align ∧
      (inner.allocate dev id n).2 = .ok (.full ⟨id, inner.version, inner.len,
        dev.regionSize - dev.align, dev.align⟩ (dev.regionSize - inner.len)) ∧
      (inner.allocate dev id n).1.len = dev.regionSize) := by
  obtain ⟨b, hb⟩ := Option.isSome_iff_exists.1 h.buffer
  rw [allocate_of_buffer hb, h.capacity]
  by_cases hfit : inner.len + n + dev.align ≤ dev.regionSize
  · exact .inl ⟨hfit, by simp [hfit]⟩
  · exact .inr ⟨by omega, by simp [hfit]⟩

@[simp] theorem allocate_buffer (inner : RegionInner) (n : Nat) :
    (inner.allocate dev id n).1.buffer = inner.buffer := by
  unfold allocate; dsimp only; split <;> split <;> rfl

@[simp] theorem allocate_capacity (inner : RegionInner) (n : Nat) :
    (inner.allocate dev id n).1.capacity = inner.capacity := by
  unfold allocate; dsimp only; split <;> split <;> rfl

theorem attached_allocate {inner : RegionInner} (h : Attached dev inner) (n : Nat) :
    Attached dev (inner.allocate dev id n).1 := by
  have := h.len_ge; have := h.len_le
  refine ⟨by simpa using h.buffer, by simpa using h.capacity, ?_, ?_⟩ <;>
    rcases @allocate_cases dev id _ h n with ⟨_, -, hl⟩ | ⟨_, -, hl⟩ <;> rw [hl] <;> omega

/-- A sealed region (`len = region_size`) answers every allocation with the
    footer block and nothing left. -/
theorem allocateAll_sealed {inner : RegionInner} (h : Attached dev inner)
    (hlen : inner.len = dev.regionSize) (ns : List Nat) :
    ∀ r ∈ (inner.allocateAll dev id ns).2, ∃ t, r = .ok (.full t 0) := by
  induction ns generalizing inner with
  | nil => nofun
  | cons n ns ih =>
    rcases @allocate_cases dev id _ h n with ⟨hfit, -⟩ | ⟨-, hr, hl⟩
    · have := dev.align_pos; omega
    · rw [allocateAll_cons]
      rintro r (_ | ⟨_, hm⟩)
      · exact ⟨_, by rw [hr, hlen, Nat.sub_self]⟩
      · exact ih (attached_allocate h n) hl r hm

/-- Every `Ok` result of a run covers `[offset, offset + size)` of its own
    call's size, at or after the `len` the run started from, with the footer
    block free; its offset is that `len` plus the bytes of the earlier `Ok`
    results. -/
theorem allocateAll_ok {inner : RegionInner} (h : Attached dev inner) (ns : List Nat) :
    ∀ (i : Nat) (s : WriteSlice), (inner.allocateAll dev id ns).2[i]? = some (.ok (.ok s)) →
      s.start = s.offset ∧ ns[i]? = some s.len ∧ inner.len ≤ s.offset ∧
      s.offset + s.len + dev.align ≤ dev.regionSize ∧
      s.offset = inner.len + okBytes ((inner.allocateAll dev id ns).2.take i) := by
  induction ns generalizing inner with
  | nil => simp
  | cons n ns ih =>
    have h' := @attached_allocate dev id _ h n
    rcases @allocate_cases dev id _ h n with ⟨hfit, hr, hl⟩ | ⟨-, hr, hl⟩
    · rintro (_ | i) s hs <;> rw [allocateAll_cons, hr] at hs ⊢ <;>
        simp only [List.getElem?_cons_zero, List.getElem?_cons_succ] at hs ⊢
      · cases hs; exact ⟨rfl, rfl, le_refl _, hfit, by simp [okBytes]⟩
      · obtain ⟨h1, h2, h3, h4, h5⟩ := ih h' i s hs
        refine ⟨h1, h2, by omega, h4, ?_⟩
        simp only [List.take_succ_cons, okBytes, h5, hl, Nat.add_assoc]
    · rintro (_ | i) s hs <;> rw [allocateAll_cons, hr] at hs
      · rw [List.getElem?_cons_zero] at hs; cases hs
      · rw [List.getElem?_cons_succ] at hs
        obtain ⟨t, ht⟩ := allocateAll_sealed h' hl ns _ (List.mem_iff_getElem?.2 ⟨_, hs⟩)
        cases ht

/-- `Ok` slices of a run are disjoint and increase in call order. -/
theorem allocateAll_ok_disjoint {inner : RegionInner} (h : Attached dev inner) (ns : List Nat) :
    ∀ (i j : Nat) (s t : WriteSlice), i < j → (inner.allocateAll dev id ns).2[i]? = some (.ok (.ok s)) →
      (inner.allocateAll dev id ns).2[j]? = some (.ok (.ok t)) → s.offset + s.len ≤ t.offset := by
  induction ns generalizing inner with
  | nil => simp
  | cons n ns ih =>
    have h' := @attached_allocate dev id _ h n
    rintro (_ | i) (_ | j) s t hij hs ht <;>
      simp only [allocateAll_cons, List.getElem?_cons_zero, List.getElem?_cons_succ] at hs ht
    · omega
    · rcases @allocate_cases dev id _ h n with ⟨-, hr, hl⟩ | ⟨-, hr, -⟩ <;> rw [hr] at hs <;> cases hs
      rw [← hl]; exact (allocateAll_ok h' ns j t ht).2.2.1
    · omega
    · exact ih h' i j s t (by omega) hs ht

/-- Every `Full` result of a run hands out exactly the footer block. -/
theorem allocateAll_full {inner : RegionInner} (h : Attached dev inner) (ns : List Nat) :
    ∀ (i : Nat) (s : WriteSlice) (m : Nat), (inner.allocateAll dev id ns).2[i]? = some (.ok (.full s m)) →
      s.start = dev.regionSize - dev.align ∧ s.len = dev.align := by
  induction ns generalizing inner with
  | nil => simp
  | cons n ns ih =>
    rintro (_ | i) s m hs <;>
      simp only [allocateAll_cons, List.getElem?_cons_zero, List.getElem?_cons_succ] at hs
    · rcases @allocate_cases dev id _ h n with ⟨-, hr, -⟩ | ⟨-, hr, -⟩ <;> rw [hr] at hs <;>
        cases hs
      exact ⟨rfl, rfl⟩
    · exact ih (attached_allocate h n) i s m hs

/-- Once a run returns `Full`, every later call returns `Full` with nothing
    left. -/
theorem allocateAll_full_after {inner : RegionInner} (h : Attached dev inner) (ns : List Nat) :
    ∀ (i j : Nat) (s : WriteSlice) (m : Nat), i < j → j < ns.length →
      (inner.allocateAll dev id ns).2[i]? = some (.ok (.full s m)) →
      ∃ t, (inner.allocateAll dev id ns).2[j]? = some (.ok (.full t 0)) := by
  induction ns generalizing inner with
  | nil => simp
  | cons n ns ih =>
    have h' := @attached_allocate dev id _ h n
    rintro (_ | i) (_ | j) s m hij hj hs <;>
      simp only [allocateAll_cons, List.getElem?_cons_zero, List.getElem?_cons_succ] at hs ⊢
    · omega
    · rcases @allocate_cases dev id _ h n with ⟨-, hr, -⟩ | ⟨-, hr, hl⟩ <;> rw [hr] at hs <;>
        cases hs
      have hj' : j < ((inner.allocate dev id n).1.allocateAll dev id ns).2.length := by
        simp only [length_allocateAll]; simp only [List.length_cons] at hj; omega
      obtain ⟨t, ht⟩ := allocateAll_sealed h' hl ns _ (List.getElem_mem hj')
      exact ⟨t, by rw [List.getElem?_eq_getElem hj', ht]⟩
    · omega
    · exact ih h' i j s m (by omega) (by simpa using hj) hs

theorem attached_allocateAll {inner : RegionInner} (h : Attached dev inner) (ns : List Nat) :
    Attached dev (inner.allocateAll dev id ns).1 := by
  induction ns generalizing inner with
  | nil => exact h
  | cons n ns ih => exact ih (attached_allocate h n)

/-- `attach_buffer` on a region built by `Region::new` leaves it attached,
    with `len` after the header block. -/
theorem attached_of_attachBuffer (h2 : 2 * dev.align ≤ dev.regionSize) {inner inner' : RegionInner}
    (hcap : inner.capacity = dev.regionSize) {buf : Buffer}
    (hat : inner.attachBuffer dev buf = some inner') : Attached dev inner' ∧ inner'.len = dev.align := by
  obtain ⟨hb, hl, hc, -⟩ := attachBuffer_eq_some dev hat
  exact ⟨⟨by simp [hb], hc.trans hcap, hl.ge, by omega⟩, hl⟩

/-- A run of `allocate` calls after `attach_buffer`, with no detach between:
    every `Ok` slice covers `[offset, offset + size)` of its call's size,
    after the header block and before the footer block, at `align` plus the
    bytes of the earlier `Ok` results; `Ok` slices are disjoint and increase
    in call order; every `Full` result hands out the footer block, and every
    call after it is `Full` with nothing left; `len` stays within the
    region. -/
theorem allocate_after_attach (h2 : 2 * dev.align ≤ dev.regionSize) {inner inner' : RegionInner}
    (hcap : inner.capacity = dev.regionSize) {buf : Buffer}
    (hat : inner.attachBuffer dev buf = some inner') (sizes : List Nat) :
    let rs := (inner'.allocateAll dev id sizes).2
    (∀ (i : Nat) (s : WriteSlice), rs[i]? = some (.ok (.ok s)) →
      s.start = s.offset ∧ sizes[i]? = some s.len ∧ dev.align ≤ s.offset ∧
      s.offset + s.len ≤ dev.regionSize - dev.align ∧ s.offset = dev.align + okBytes (rs.take i)) ∧
    (∀ (i j : Nat) (s t : WriteSlice), i < j → rs[i]? = some (.ok (.ok s)) → rs[j]? = some (.ok (.ok t)) →
      s.offset + s.len ≤ t.offset) ∧
    (∀ (i : Nat) (s : WriteSlice) (m : Nat), rs[i]? = some (.ok (.full s m)) →
      s.start = dev.regionSize - dev.align ∧ s.len = dev.align) ∧
    (∀ (i j : Nat) (s : WriteSlice) (m : Nat), i < j → j < sizes.length → rs[i]? = some (.ok (.full s m)) →
      ∃ t, rs[j]? = some (.ok (.full t 0))) ∧
    (inner'.allocateAll dev id sizes).1.len ≤ dev.regionSize := by
  obtain ⟨h, hl⟩ := attached_of_attachBuffer h2 hcap hat
  refine ⟨fun i s hs => ?_, allocateAll_ok_disjoint h sizes, allocateAll_full h sizes,
    allocateAll_full_after h sizes, (attached_allocateAll h sizes).len_le⟩
  obtain ⟨h1, h2, h3, h4, h5⟩ := allocateAll_ok h sizes i s hs
  exact ⟨h1, h2, hl ▸ h3, by omega, hl ▸ h5⟩

theorem allocate_after_attach_small :
    ∃ inner', (RegionInner.new Device.small).attachBuffer Device.small Buffer.zero = some inner' ∧
      (inner'.allocateAll Device.small 0 [32, 64, 32]).1.len ≤ 128 :=
  ⟨_, rfl, (@allocate_after_attach Device.small 0 (by decide) (RegionInner.new Device.small) _ rfl
    Buffer.zero rfl [32, 64, 32]).2.2.2.2⟩

/-! ## Section 2: Entries no region takes -/

/-- An attached region answers every allocation longer than
    `region_size - 2 * align` with `Full`: `len` is at least `align`, and the
    footer block stays reserved. -/
theorem allocate_full_of_oversize {inner : RegionInner} (h : Attached dev inner) {n : Nat}
    (hn : dev.regionSize < n + 2 * dev.align) :
    ∃ s m, (inner.allocate dev id n).2 = .ok (.full s m) := by
  rcases @allocate_cases dev id _ h n with ⟨hfit, -⟩ | ⟨-, hr, -⟩
  · have := h.len_ge; omega
  · exact ⟨_, _, hr⟩

end RegionInner

/-- Byte strings as values, written as they are: a stand-in for `Vec<u8>`. -/
def bytesCodec : Codec (List UInt8) where
  write bs := bs
  read bs := .ok bs

/-- One-byte keys and byte-string values, with the hash and compressors of
    `Codecs.oneByte`. -/
def Codecs.byteValues : Codecs Nat (List UInt8) where
  key := byteCodec
  value := bytesCodec
  xxh64 := Codecs.oneByte.xxh64
  compress _ bs := bs
  decompress _ bs := .ok bs

namespace Store

/-- `Device.small` with one flusher, which `open` accepts (it asks for at
    least two regions a flusher), and byte-string values. -/
def oneFlusherBytes : Store Nat (List UInt8) := empty Device.small 0 1 .none

/-- `insert(1, v)` with `v` sixty zero bytes: `28 + 1 + 60` bytes, aligned to
    96, which is `region_size - align`. The flusher takes region 0, gets
    `Full` and seals it, takes region 1, gets `Full` and seals it. -/
def oversizeTrace : List (StoreAction Nat (List UInt8)) :=
  [.insert 1 (List.replicate 60 0) false, .judge 0 admitAll, .commit 0,
   .acquire 0 Buffer.zero, .flush 0, .acquire 0 Buffer.zero, .flush 0]

set_option maxRecDepth 1000 in
/-- The entry's aligned length is `region_size - align`, and `finish`
    returns `Ok(true)`; then both regions are sealed with nothing written, the
    entry is still first in its flusher's channel, and no clean region is
    left for the flusher to take. -/
theorem admitted_entry_fits_no_region :
    entryLen Codecs.byteValues 32 1 (List.replicate 60 0) .none = 128 - 32 ∧
    ∃ st, run Device.small Codecs.byteValues oneFlusherBytes oversizeTrace = some st ∧
      st.tasks[0]?.bind Task.insertResult = some (.ok true) ∧ st.sealed = [0, 1] ∧
      st.cleanRegions = [] ∧
      st.core.flusherEntryTxs.map (fun q => q.map fun es => es.map Entry.sequence) = [some [0]] ∧
      run Device.small Codecs.byteValues st [.acquire 0 Buffer.zero] = none :=
  ⟨by decide, _, rfl, by decide, rfl, rfl, by decide, rfl⟩

end Store

end Foyer
