import Foyer.Recovery

/-! # Bounds of the region scan

    `RegionEntryIter::next` on whatever bytes a region holds: a block that
    does not parse, a length sum that wraps in `u32`, or a key span past the
    region ends the scan, and every entry it yields lies after the cursor,
    within the region, at an aligned offset. So the scan of `recover_region`
    ends, yields at most `region_size / align - 1` items, whose views are
    disjoint and increasing, and reads only inside the region (§1).

    `next` reads the block at the cursor and then, unless the key lies in a
    block it already holds, the aligned blocks covering the key. The test of
    the in-place branch compares against the block before the cursor, which
    never holds the key: the second read always happens (§2).

    `next_kv` follows `next` with a load of the entry's whole view and
    `read_entry`. On a region a flusher filled it reads every entry back at
    its slice, as the key and the value the flusher was given (§3). -/

namespace Foyer

namespace RegionEntryIter

variable {K V : Type} (cx : Codecs K V) (dev : Device) (bytes : Buffer)

/-- The ranges `RegionEntryIter::next` at `cursor` passes to `load_range`, in
    order: the block at the cursor, then, once the header parses and its key
    span lies in the region, the aligned blocks covering the key, unless the
    test of the in-place branch holds. -/
def nextLoads (cursor : Nat) : List (Nat × Nat) :=
  if cursor + dev.align ≥ dev.regionSize then [] else
  let block := (cursor, cursor + dev.align)
  match EntryHeader.read (loadRange bytes cursor (cursor + dev.align)) with
  | .ok header =>
    let absStart := cursor + EntryHeader.serializedLen + header.valueLen.toNat
    let absEnd := cursor + EntryHeader.serializedLen + (header.keyLen + header.valueLen).toNat
    if absStart ≥ absEnd ∨ absEnd > dev.regionSize then [block] else
    let alignStart := alignDown dev.align absStart
    let alignEnd := alignUp dev.align absEnd
    if alignStart = cursor - dev.align ∧ alignEnd = cursor then [block]
    else [block, (alignStart, alignEnd)]
  | _ => [block]

/-! ## Section 1: What one step of the scan can do -/

variable {cx dev bytes} {r : RegionId} {ver : Version}

/-- The aligned length `next` gives the entry of a header. -/
def entrySpan (align : Nat) (header : EntryHeader) : Nat :=
  alignUp align ((header.valueLen + header.keyLen).toNat + EntryHeader.serializedLen)

/-- The in-place test of `next` never holds: the blocks covering the key end
    after the cursor. -/
theorem not_inPlace {cursor absEnd : Nat} (h : cursor < absEnd) (absStart : Nat) :
    ¬ (alignDown dev.align absStart = cursor - dev.align ∧ alignUp dev.align absEnd = cursor) :=
  fun ⟨_, he⟩ => absurd (he ▸ le_alignUp dev.align_pos : absEnd ≤ cursor) (by omega)

/-- What `next` checked before it yields an entry: the header it read at the
    cursor, a block before the footer, a key span that does not wrap and ends
    in the region; the entry's view, and the cursor after it. -/
theorem next_eq_some {cursor c : Nat} {item : K × Item K V}
    (h : next cx dev bytes r ver cursor = .ok (some (item, c))) :
    ∃ header, EntryHeader.read (loadRange bytes cursor (cursor + dev.align)) = .ok header ∧
      cursor + dev.align < dev.regionSize ∧
      header.valueLen.toNat < (header.keyLen + header.valueLen).toNat ∧
      cursor + EntryHeader.serializedLen + (header.keyLen + header.valueLen).toNat ≤ dev.regionSize ∧
      item.2 = ⟨header.sequence, .region ⟨r, cursor % 2 ^ 32, entrySpan dev.align header % 2 ^ 32, ver⟩⟩ ∧
      c = cursor + entrySpan dev.align header := by
  unfold next at h
  split at h
  · cases h
  dsimp only at h
  split at h <;> try cases h
  rename_i header hh
  split at h
  · cases h
  split at h <;> cases h
  exact ⟨header, hh, by omega, by omega, by omega, rfl, rfl⟩

/-- On blocks of at least 28 bytes, with a key codec that does not panic,
    `next` returns `Ok`: every slice it takes lies in the bytes it loaded. -/
theorem next_ok (h28 : EntryHeader.serializedLen ≤ dev.align) (hkey : ∀ b, cx.key.read b ≠ .panic)
    (cursor : Nat) : ∃ o, next cx dev bytes r ver cursor = .ok o := by
  unfold next
  split
  · exact ⟨_, rfl⟩
  dsimp only
  rcases hh : EntryHeader.read (loadRange bytes cursor (cursor + dev.align)) with header | e | _
  · dsimp only
    split
    · exact ⟨_, rfl⟩
    rw [if_neg (not_inPlace (by omega) _), loadRange, slice_readBytes
      (Nat.sub_le_sub_right (by omega) _) (Nat.sub_le_sub_right (le_alignUp dev.align_pos) _),
      Res.bind_ok_left]
    split
    · exact ⟨_, rfl⟩
    · exact ⟨_, rfl⟩
    · exact absurd ‹_› (hkey _)
  · exact ⟨_, rfl⟩
  · exact absurd hh (EntryHeader.read_ne_panic (by simp [loadRange]; omega))

/-- The view of `x` ends at or before the point where the view of `y`
    begins. -/
def ViewBefore (x y : K × Item K V) : Prop :=
  ∀ v w, x.2.index = .region v → y.2.index = .region w → v.offset + v.len ≤ w.offset

/-- The items of a scan from an aligned cursor: each a view at an aligned
    offset at or after the cursor, at least a block long and inside the
    region, each ending before the next begins; at most one item per block
    between the cursor and the end of the region. -/
theorem scan_from (h28 : EntryHeader.serializedLen ≤ dev.align) (h32 : dev.regionSize < 2 ^ 32)
    (hkey : ∀ b, cx.key.read b ≠ .panic) :
    ∀ (fuel cursor : Nat), dev.align ∣ cursor → cursor ≤ dev.regionSize →
      dev.regionSize ≤ cursor + fuel →
      ∃ items, scan cx dev bytes r ver (fuel + 1) cursor = .ok items ∧
        items.length * dev.align + cursor ≤ dev.regionSize ∧
        (∀ x ∈ items, ∃ o l, x.2.index = .region ⟨r, o, l, ver⟩ ∧ dev.align ∣ o ∧ cursor ≤ o ∧
          dev.align ≤ l ∧ o + l ≤ dev.regionSize) ∧
        items.Pairwise ViewBefore := by
  intro fuel
  induction fuel with
  | zero =>
    intro cursor _ hle hf
    exact ⟨[], by rw [scan, next_of_end (by omega)], by simpa using hle, by simp, .nil⟩
  | succ fuel ih =>
    intro cursor hd hle hf
    obtain ⟨o, hn⟩ := @next_ok K V cx dev bytes r ver h28 hkey cursor
    rcases o with _ | ⟨item, c⟩
    · exact ⟨[], by rw [scan, hn], by simpa using hle, by simp, .nil⟩
    obtain ⟨header, -, hlt, -, hin, hitem, rfl⟩ := next_eq_some hn
    have hE : dev.align ≤ entrySpan dev.align header :=
      alignUp_pos dev.align_pos (Nat.add_pos_right _ (by decide))
    have hEle : cursor + entrySpan dev.align header ≤ dev.regionSize := by
      have hcomm : (header.valueLen + header.keyLen).toNat = (header.keyLen + header.valueLen).toNat := by
        simp only [UInt32.toNat_add_mod, Nat.add_comm]
      have : entrySpan dev.align header ≤ dev.regionSize - cursor :=
        alignUp_le_of_dvd dev.align_pos (Nat.dvd_sub' dev.align_dvd hd)
          (by rw [hcomm]; simp only [EntryHeader.serializedLen] at hin ⊢; omega)
      omega
    have hview : item.2.index = .region ⟨r, cursor, entrySpan dev.align header, ver⟩ := by
      rw [hitem, Nat.mod_eq_of_lt (by omega), Nat.mod_eq_of_lt (by omega)]
    obtain ⟨items, hs, hlen, hrest, hpw⟩ := ih (cursor + entrySpan dev.align header)
      (Nat.dvd_add hd dvd_alignUp) hEle (by have := dev.align_pos; omega)
    refine ⟨item :: items, by rw [scan_succ_of_next hn, hs]; rfl, ?_, ?_, ?_⟩
    · rw [List.length_cons, Nat.succ_mul]; omega
    · rintro x (_ | ⟨_, hx⟩)
      · exact ⟨cursor, _, hview, hd, le_refl _, hE, hEle⟩
      · obtain ⟨o, l, h1, h2, h3, h4, h5⟩ := hrest x hx
        exact ⟨o, l, h1, h2, by omega, h4, h5⟩
    · refine List.Pairwise.cons (fun y hy v w hv hw => ?_) hpw
      obtain ⟨o, l, h1, -, h3, -⟩ := hrest y hy
      rw [hview, Index.region.injEq] at hv
      rw [h1, Index.region.injEq] at hw
      subst hv hw
      exact h3

/-- More fuel than the scan from `cursor` can use changes nothing. -/
theorem scan_fuel_le {f f' cursor : Nat} (h : dev.regionSize ≤ cursor + f) (hf : f ≤ f') :
    scan cx dev bytes r ver (f' + 1) cursor = scan cx dev bytes r ver (f + 1) cursor := by
  induction f', hf using Nat.le_induction with
  | base => rfl
  | succ f' hf ih => rw [← scan_fuel (by omega), ih]

/-- Every range `next` loads is a nonempty range inside the region. -/
theorem nextLoads_within (cursor : Nat) :
    ∀ rg ∈ nextLoads dev bytes cursor, rg.1 < rg.2 ∧ rg.2 ≤ dev.regionSize := by
  have := dev.align_pos
  unfold nextLoads
  split
  · nofun
  dsimp only
  split
  · split
    · simp only [List.mem_singleton, forall_eq]; omega
    split
    · simp only [List.mem_singleton, forall_eq]; omega
    rename_i hg _
    simp only [List.mem_cons, List.mem_singleton, forall_eq_or_imp, forall_eq, List.not_mem_nil,
      or_false]
    exact ⟨⟨by omega, by omega⟩, lt_of_le_of_lt alignDown_le
      (lt_of_lt_of_le (by omega) (le_alignUp dev.align_pos)),
      alignUp_le_of_dvd dev.align_pos dev.align_dvd (by omega)⟩
  · simp only [List.mem_singleton, forall_eq]; omega

/-- The scan of `recover_region` on any content of a region: given enough
    turns it ends with `Ok`, having yielded at most `region_size / align - 1`
    items, each a view at an aligned offset of at least `align`, at least a
    block long and inside the region, the views disjoint and increasing; every
    range `next` loads lies inside the region, and `next` never panics, so
    every slice it takes lies in the bytes it loaded. -/
theorem scan_bounded (h28 : EntryHeader.serializedLen ≤ dev.align) (h32 : dev.regionSize < 2 ^ 32)
    (hkey : ∀ b, cx.key.read b ≠ .panic) :
    ∃ items : List (K × Item K V),
      (∀ fuel, dev.regionSize ≤ dev.align + fuel →
        scan cx dev bytes r ver (fuel + 1) dev.align = .ok items) ∧
      items.length ≤ dev.regionSize / dev.align - 1 ∧
      (∀ x ∈ items, ∃ o l, x.2.index = .region ⟨r, o, l, ver⟩ ∧ dev.align ∣ o ∧ dev.align ≤ o ∧
        dev.align ≤ l ∧ o + l ≤ dev.regionSize) ∧
      items.Pairwise ViewBefore ∧
      (∀ cursor, ∀ rg ∈ nextLoads dev bytes cursor, rg.1 < rg.2 ∧ rg.2 ≤ dev.regionSize) ∧
      (∀ cursor, ∃ o, next cx dev bytes r ver cursor = .ok o) := by
  by_cases hR : dev.align ≤ dev.regionSize
  · obtain ⟨items, hs, hlen, hview, hpw⟩ :=
      scan_from h28 h32 hkey (dev.regionSize - dev.align) dev.align (Nat.dvd_refl _) hR (by omega)
    have : items.length + 1 ≤ dev.regionSize / dev.align :=
      (Nat.le_div_iff_mul_le dev.align_pos).2 (by rw [Nat.succ_mul]; omega)
    exact ⟨items, fun _ hf => (scan_fuel_le (by omega) (by omega)).trans hs, by omega, hview, hpw,
      nextLoads_within, next_ok h28 hkey⟩
  · exact ⟨[], fun _ _ => by rw [scan, next_of_end (by omega)], by simp, by simp, .nil,
      nextLoads_within, next_ok h28 hkey⟩

theorem byteCodec_read_ne_panic (b : List UInt8) : byteCodec.read b ≠ .panic := by
  unfold byteCodec; dsimp only; split <;> nofun

theorem scan_bounded_small : ∃ items : List (Nat × Item Nat Nat),
    scan Codecs.oneByte Device.small Buffer.zero 0 0 128 32 = .ok items ∧ items.length ≤ 3 :=
  let ⟨items, hs, hlen, _⟩ := @scan_bounded Nat Nat Codecs.oneByte Device.small Buffer.zero 0 0
    (by decide) (by decide) byteCodec_read_ne_panic
  ⟨items, hs 127 (by decide), hlen⟩

/-! ## Section 2: The second load of `next` -/

/-- Once the header at `cursor` parses and its key span passes the guards,
    `next` loads the aligned blocks covering the key: the in-place test never
    holds. -/
theorem nextLoads_of_parsed {cursor : Nat} {header : EntryHeader}
    (hend : cursor + dev.align < dev.regionSize)
    (hh : EntryHeader.read (loadRange bytes cursor (cursor + dev.align)) = .ok header)
    (hlt : header.valueLen.toNat < (header.keyLen + header.valueLen).toNat)
    (hin : cursor + EntryHeader.serializedLen + (header.keyLen + header.valueLen).toNat ≤
      dev.regionSize) :
    nextLoads dev bytes cursor = [(cursor, cursor + dev.align),
      (alignDown dev.align (cursor + EntryHeader.serializedLen + header.valueLen.toNat),
       alignUp dev.align (cursor + EntryHeader.serializedLen + (header.keyLen + header.valueLen).toNat))] := by
  unfold nextLoads
  rw [if_neg (by omega)]
  dsimp only
  rw [hh]
  dsimp only
  rw [if_neg (by omega), if_neg (not_inPlace (by omega) _)]

/-- A header whose key span lies in the block at an aligned cursor: `next`
    loads that same block a second time, and the key bytes it slices from the
    second load are the ones the in-place branch would slice from the first. -/
theorem nextLoads_rereads_block {cursor : Nat} {header : EntryHeader} (hd : dev.align ∣ cursor)
    (hend : cursor + dev.align < dev.regionSize)
    (hh : EntryHeader.read (loadRange bytes cursor (cursor + dev.align)) = .ok header)
    (hlt : header.valueLen.toNat < (header.keyLen + header.valueLen).toNat)
    (hin : cursor + EntryHeader.serializedLen + (header.keyLen + header.valueLen).toNat ≤
      cursor + dev.align) :
    nextLoads dev bytes cursor = [(cursor, cursor + dev.align), (cursor, cursor + dev.align)] ∧
    slice (loadRange bytes cursor (cursor + dev.align))
        (EntryHeader.serializedLen + header.valueLen.toNat)
        (EntryHeader.serializedLen + header.valueLen.toNat + header.keyLen.toNat) =
      slice (loadRange bytes cursor (cursor + dev.align))
        (cursor + EntryHeader.serializedLen + header.valueLen.toNat - cursor)
        (cursor + EntryHeader.serializedLen + (header.keyLen + header.valueLen).toNat - cursor) := by
  have := dev.align_pos
  have hsum : (header.keyLen + header.valueLen).toNat = header.keyLen.toNat + header.valueLen.toNat := by
    have hk : header.keyLen.toNat < 2 ^ 32 := header.keyLen.toNat_lt_size
    have hv : header.valueLen.toNat < 2 ^ 32 := header.valueLen.toNat_lt_size
    rw [UInt32.toNat_add_mod] at hlt ⊢
    rcases Nat.lt_or_ge (header.keyLen.toNat + header.valueLen.toNat) (2 ^ 32) with h | h
    · exact Nat.mod_eq_of_lt h
    · rw [Nat.mod_eq_sub_mod h, Nat.mod_eq_of_lt (by omega)] at hlt
      omega
  have hstart : alignDown dev.align (cursor + EntryHeader.serializedLen + header.valueLen.toNat) =
      cursor := by
    have h1 := le_alignDown_of_dvd hd (show cursor ≤ cursor + EntryHeader.serializedLen +
      header.valueLen.toNat by omega)
    have h2 := @alignDown_le dev.align (cursor + EntryHeader.serializedLen + header.valueLen.toNat)
    rcases Nat.lt_or_ge cursor (alignDown dev.align
      (cursor + EntryHeader.serializedLen + header.valueLen.toNat)) with h | h
    · have := add_le_of_dvd_of_lt hd dvd_alignDown h; omega
    · omega
  have hstop : alignUp dev.align (cursor + EntryHeader.serializedLen +
      (header.keyLen + header.valueLen).toNat) = cursor + dev.align := by
    have h1 := alignUp_le_of_dvd dev.align_pos (Nat.dvd_add hd (Nat.dvd_refl _)) hin
    have h2 := @le_alignUp dev.align (cursor + EntryHeader.serializedLen +
      (header.keyLen + header.valueLen).toNat) dev.align_pos
    have := add_le_of_dvd_of_lt hd dvd_alignUp (by omega : cursor < alignUp dev.align
      (cursor + EntryHeader.serializedLen + (header.keyLen + header.valueLen).toNat))
    omega
  refine ⟨by rw [nextLoads_of_parsed hend hh hlt (by omega), hstart, hstop], ?_⟩
  congr 1 <;> omega

/-- Region 0 with its header and the entry `(1, 10)` at offset 32. -/
def oneEntryRegion : Buffer :=
  writeBytes (writeBytes Buffer.zero 0 (putU64 regionMagic)) 32
    (serializeEntry Codecs.oneByte 32 1 10 0 .none)

/-- At cursor 32 the key of the entry lies in the block `next` has loaded;
    `next` loads the block `[32, 64)` a second time and yields key 1. -/
theorem next_reloads_key_block :
    nextLoads Device.small oneEntryRegion 32 = [(32, 64), (32, 64)] ∧
    ∃ item c, next Codecs.oneByte Device.small oneEntryRegion 0 0 32 = .ok (some (item, c)) ∧
      item.1 = 1 :=
  ⟨by decide, _, _, rfl, rfl⟩

end RegionEntryIter

/-! ## Section 3: `next_kv` reads back what the flusher wrote -/

namespace RegionEntryIter

variable {K V : Type} (cx : Codecs K V) (dev : Device) (bytes : Buffer)

/-- `RegionEntryIter::next_kv` at `cursor`: the key and value of the entry
    there, or `none` where `next` ends the scan or `read_entry` fails (its
    `.ok()`), and the cursor `next` leaves. An item that is no region view is
    the `unreachable!`. -/
def nextKv (r : RegionId) (version : Version) (cursor : Nat) : Res (Option (K × V) × Nat) :=
  match next cx dev bytes r version cursor with
  | .ok none => .ok (none, cursor)
  | .ok (some ((_, item), cursor')) =>
    match item.index with
    | .region view =>
      match readEntry cx (loadRange bytes view.offset (view.offset + view.len)) with
      | .ok kv => .ok (some kv, cursor')
      | .err _ => .ok (none, cursor')
      | .panic => .panic
    | .inflight _ _ => .panic
  | .err e => .err e
  | .panic => .panic

variable {cx dev bytes} {r : RegionId} {ver : Version}

/-- An entry written at an aligned cursor is read back by `next_kv` as its
    key and value. -/
theorem nextKv_of_written (h28 : EntryHeader.serializedLen ≤ dev.align)
    (h32 : dev.regionSize ≤ 2 ^ 32) {cursor : Nat} {k : K} {v : V} {s : UInt64} {c : Compression}
    (hkey : cx.key.write k ≠ []) (hk : cx.key.read (cx.key.write k) = .ok k)
    (hv : cx.value.read (cx.value.write v) = .ok v)
    (hc : c ≠ .none → cx.decompress c (cx.compress c (cx.value.write v)) = .ok (cx.value.write v))
    (hdvd : dev.align ∣ cursor) (hge : dev.align ≤ cursor)
    (hfit : cursor + (serializeEntry cx dev.align k v s c).length + dev.align ≤ dev.regionSize)
    (hread : readBytes bytes cursor (serializeEntry cx dev.align k v s c).length =
      serializeEntry cx dev.align k v s c) :
    nextKv cx dev bytes r ver cursor =
      .ok (some (k, v), cursor + (serializeEntry cx dev.align k v s c).length) := by
  rw [nextKv, next_of_written h28 h32 hkey hk hdvd hge hfit hread]
  dsimp only
  rw [loadRange, Nat.add_sub_cancel_left, hread,
    readEntry_serializeEntry cx k v s c dev.align hk hv hc (by have := dev.align_pos; omega)]

/-- Where an entry sits among entries appended one after another from `o`:
    after the ones before it, with its own length. -/
theorem mem_zip_slicesFrom {a : Nat} (v : Version) : ∀ {es : List (Entry K V)} {o : Nat}
    {e : Entry K V} {sl : WriteSlice},
    (e, sl) ∈ es.zip (slicesFrom r v o (es.map (Entry.serialize cx a))) →
    ∃ pre post, es = pre ++ e :: post ∧
      sl.offset = o + (pre.map (Entry.serialize cx a)).flatten.length ∧
      sl.len = (e.serialize cx a).length
  | [], _, _, _, h => nomatch h
  | e' :: es, o, e, sl, h => by
    rw [List.map_cons, slicesFrom, List.zip_cons_cons, List.mem_cons] at h
    rcases h with h | h
    · cases h
      exact ⟨[], es, rfl, by simp, by simp⟩
    · obtain ⟨pre, post, rfl, ho, hl⟩ := mem_zip_slicesFrom v h
      refine ⟨e' :: pre, post, rfl, ?_, hl⟩
      rw [ho, List.map_cons, List.flatten_cons, List.length_append, Nat.add_assoc]

/-- On a region a flusher filled from a pooled buffer, `next_kv` at the
    offset of each slice the flusher allocated returns the key and value of
    the entry written there, and moves past it; for codecs that read back what
    they write and a decompressor that undoes the compressor. -/
theorem nextKv_writeRegion (h28 : EntryHeader.serializedLen ≤ dev.align)
    (h2 : 2 * dev.align ≤ dev.regionSize) (h32 : dev.regionSize ≤ 2 ^ 32) {inner : RegionInner} (hcap : inner.capacity = dev.regionSize)
    {buf : Buffer} {es : List (Entry K V)} {slices : List WriteSlice}
    (hkey : ∀ e ∈ es, cx.key.write e.key ≠ [])
    (hk : ∀ e ∈ es, cx.key.read (cx.key.write e.key) = .ok e.key)
    (hv : ∀ e ∈ es, cx.value.read (cx.value.write e.value) = .ok e.value)
    (hc : ∀ e ∈ es, e.compression ≠ .none →
      cx.decompress e.compression (cx.compress e.compression (cx.value.write e.value)) =
        .ok (cx.value.write e.value))
    (hw : writeRegion dev r inner buf (es.map (Entry.serialize cx dev.align)) = some (bytes, slices)) :
    ∀ e sl, (e, sl) ∈ es.zip slices →
      nextKv cx dev bytes r 0 sl.offset = .ok (some (e.key, e.value), sl.offset + sl.len) := by
  simp only [writeRegion, bind, Option.bind_eq_some, pure, Option.some.injEq, Prod.mk.injEq] at hw
  obtain ⟨inner₁, hatt, ⟨inner₂, ss⟩, happ, B₂, hB₂, rfl, rfl⟩ := hw
  obtain ⟨hb₁, hl₁, hc₁, -⟩ := RegionInner.attachBuffer_eq_some dev hatt
  obtain ⟨hb₂, hl₂, hf₂, rfl⟩ := appendAll_spec hb₁ (by omega) happ
  obtain rfl := Option.some.inj (hB₂.symm.trans hb₂)
  intro e sl hmem
  obtain ⟨pre, post, rfl, ho, hl⟩ := mem_zip_slicesFrom inner₁.version hmem
  have he : e ∈ pre ++ e :: post := List.mem_append_right _ (List.mem_cons_self _ _)
  have hdvd := (@length_flatten_serialize K V dev cx pre).1
  have hJ : ((pre ++ e :: post).map (Entry.serialize cx dev.align)).flatten =
      (pre.map (Entry.serialize cx dev.align)).flatten ++
        (e.serialize cx dev.align ++ (post.map (Entry.serialize cx dev.align)).flatten) := by simp
  have hlenJ := congrArg List.length hJ
  simp only [List.length_append] at hlenJ
  rw [hl₁] at ho hl₂
  rw [hc₁, hcap, hl₂, hlenJ] at hf₂
  rw [ho, hl]
  refine nextKv_of_written h28 h32 (hkey e he) (hk e he) (hv e he) (hc e he)
    (Nat.dvd_add (Nat.dvd_refl _) hdvd) (Nat.le_add_right _ _) (by simp only [Entry.serialize] at hf₂ ⊢; omega) ?_
  rw [sealedBytes, readBytes_writeBytes_of_disjoint (.inl (by simp only [Entry.serialize] at hf₂ ⊢; omega)),
    hl₁, readBytes_writeBytes_inner (by rw [hJ]; simp [Entry.serialize]), hJ, List.drop_left,
    List.take_left'] <;> rfl

theorem nextKv_writeRegion_small :
    ∃ bytes slices, writeRegion Device.small 0 (RegionInner.new Device.small) Buffer.zero
        ([⟨0, 1, 10, .none⟩, ⟨1, 2, 20, .none⟩].map (Entry.serialize Codecs.oneByte Device.small.align)) =
        some (bytes, slices) ∧
      ∀ e sl, (e, sl) ∈ ([⟨0, 1, 10, .none⟩, ⟨1, 2, 20, .none⟩] : List (Entry Nat Nat)).zip slices →
        nextKv Codecs.oneByte Device.small bytes 0 0 sl.offset =
          .ok (some (e.key, e.value), sl.offset + sl.len) :=
  ⟨_, _, rfl, @nextKv_writeRegion Nat Nat Codecs.oneByte Device.small _ 0 (by decide) (by decide)
    (by decide) (RegionInner.new Device.small) rfl Buffer.zero [⟨0, 1, 10, .none⟩, ⟨1, 2, 20, .none⟩] _
    (by decide) (by decide) (by decide) (by decide) rfl⟩

end RegionEntryIter

end Foyer
