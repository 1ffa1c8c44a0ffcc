import Foyer.Store

/-! # Recovery

    `GenericStore::open` rebuilds the catalog from the device. Every region is
    scanned by a `recover_region` task: `RegionEntryIter::open` checks the
    region header, and `RegionEntryIter::next` walks the entries from the
    first block after it until a block does not parse; each item found goes
    into the catalog. The global sequence becomes the greatest sequence found
    plus one.

    At open no region has a buffer and every version is `0`, so a load of a
    range is a read of the device. `load_range`, `Region::view` and the check
    `open` makes of `RegionHeader::read` are not among the sources; they
    follow §4.9 of the spec. -/

namespace Foyer

/-! ## Section 1: Scanning a region -/

/-- Modelled from the spec (§4.9, step 1; `RegionHeader::read` only reads the
    magic with `get_u64`, and the test `open` makes of it is not among the
    sources): the region header is valid when its magic is `REGION_MAGIC`. -/
def RegionHeader.check (buf : List UInt8) : Res Unit := do
  let (magic, _) ← getU64 buf
  if magic = regionMagic then pure () else .err (.magicMismatch regionMagic.toNat magic.toNat)

/-- Modelled from the spec (§4.9): `Region::load_range`, a load with the
    wildcard version. At open no region has a buffer, so it reads the device,
    which answers every read in full. -/
def loadRange (bytes : Buffer) (start stop : Nat) : List UInt8 :=
  readBytes bytes start (stop - start)

namespace RegionEntryIter

variable {K V : Type} (cx : Codecs K V) (dev : Device) (bytes : Buffer)

/-- `RegionEntryIter::open`: the cursor of the first entry, `align`, when the
    region header is valid. -/
def «open» : Res (Option Nat) :=
  match RegionHeader.check (loadRange bytes 0 dev.align) with
  | .ok _ => .ok (some dev.align)
  | .err _ => .ok none
  | .panic => .panic

/-- `RegionEntryIter::next` at `cursor` in region `r`, whose version is
    `version`: the key and item of the entry there and the cursor after it,
    or `none` where the scan ends. The lengths are added as `u32`, and the
    view's offset and length are cast to `u32` (`Region::view`, spec §4.9). -/
def next (r : RegionId) (version : Version) (cursor : Nat) : Res (Option ((K × Item K V) × Nat)) :=
  if cursor + dev.align ≥ dev.regionSize then .ok none else
  let slice := loadRange bytes cursor (cursor + dev.align)
  match EntryHeader.read slice with
  | .err _ => .ok none
  | .panic => .panic
  | .ok header =>
    let entryLen := alignUp dev.align
      ((header.valueLen + header.keyLen).toNat + EntryHeader.serializedLen)
    let absStart := cursor + EntryHeader.serializedLen + header.valueLen.toNat
    let absEnd := cursor + EntryHeader.serializedLen + (header.keyLen + header.valueLen).toNat
    if absStart ≥ absEnd ∨ absEnd > dev.regionSize then .ok none else
    let alignStart := alignDown dev.align absStart
    let alignEnd := alignUp dev.align absEnd
    let keyBytes :=
      if alignStart = cursor - dev.align ∧ alignEnd = cursor then
        let relStart := EntryHeader.serializedLen + header.valueLen.toNat
        Foyer.slice slice relStart (relStart + header.keyLen.toNat)
      else
        Foyer.slice (loadRange bytes alignStart alignEnd) (absStart - alignStart)
          (absEnd - alignStart)
    match keyBytes.bind cx.key.read with
    | .ok key =>
      .ok (some ((key, ⟨header.sequence,
        .region ⟨r, cursor % 2 ^ 32, entryLen % 2 ^ 32, version⟩⟩), cursor + entryLen))
    | .err _ => .ok none
    | .panic => .panic

/-- The loop of `recover_region`, `next` until `Ok(None)`, given `fuel` turns:
    the items in the order it inserts them. Running out of fuel is a panic,
    so that a result `Ok` is one the loop really reaches; `scan_fuel` shows
    that `region_size` turns are always enough. -/
def scan (r : RegionId) (version : Version) : Nat → Nat → Res (List (K × Item K V))
  | 0, _ => .panic
  | fuel + 1, cursor =>
    match next cx dev bytes r version cursor with
    | .ok none => .ok []
    | .ok (some (item, cursor)) => (scan r version fuel cursor).bind fun items => .ok (item :: items)
    | .err e => .err e
    | .panic => .panic

end RegionEntryIter

section Recover

variable {K V : Type} (cx : Codecs K V) (dev : Device)

/-- `GenericStore::recover_region` on the bytes of region `r`, at version `0`
    as at open: `none` when the region header is not valid (the region is
    released as clean); otherwise the greatest sequence of its entries (`0`
    if none) and its items, in the order they go into the catalog. -/
def recoverRegion (bytes : Buffer) (r : RegionId) : Res (Option (Sequence × List (K × Item K V))) :=
  match RegionEntryIter.open dev bytes with
  | .ok none => .ok none
  | .ok (some cursor) =>
    (RegionEntryIter.scan cx dev bytes r 0 dev.regionSize cursor).bind fun items =>
      .ok (some (items.foldl (fun s e => max s e.2.sequence) 0, items))
  | .err e => .err e
  | .panic => .panic

/-- `GenericStore::recover`: every region's result, in region order, and the
    greatest sequence over the valid regions (`0` if none). -/
def recover (device : RegionId → Buffer) :
    Res (List (Option (Sequence × List (K × Item K V))) × Sequence) :=
  ((List.range dev.regions).mapM fun r => recoverRegion cx dev (device r) r).bind fun results =>
    .ok (results, results.foldl (fun s res => match res with
      | some (seq, _) => max s seq
      | none => s) 0)

/-- The items the scans of the valid regions found, region after region. -/
def recoveredItems (results : List (Option (Sequence × List (K × Item K V)))) :
    List (K × Item K V) :=
  (results.filterMap fun res => res.map Prod.snd).flatten

end Recover

/-! ## Section 2: What the scan reads

    `next` on the bytes of a written entry returns the entry's item; it ends
    the scan at the footer and on a block that is no entry header; it only
    moves forward, so `region_size` turns of the loop are always enough. -/

namespace RegionEntryIter

variable {K V : Type} {cx : Codecs K V} {dev : Device} {bytes : Buffer} {r : RegionId} {ver : Version}

/-- An entry written at an aligned cursor is read back whole by `next`. -/
theorem next_of_written (h28 : EntryHeader.serializedLen ≤ dev.align) (h32 : dev.regionSize ≤ 2 ^ 32)
    {cursor : Nat} {k : K} {v : V} {s : UInt64} {c : Compression}
    (hkey : cx.key.write k ≠ []) (hcodec : cx.key.read (cx.key.write k) = .ok k)
    (hdvd : dev.align ∣ cursor) (hge : dev.align ≤ cursor)
    (hfit : cursor + (serializeEntry cx dev.align k v s c).length + dev.align ≤ dev.regionSize)
    (hread : readBytes bytes cursor (serializeEntry cx dev.align k v s c).length =
      serializeEntry cx dev.align k v s c) :
    next cx dev bytes r ver cursor = .ok (some ((k, ⟨s, .region ⟨r, cursor,
      (serializeEntry cx dev.align k v s c).length, ver⟩⟩),
      cursor + (serializeEntry cx dev.align k v s c).length)) := by
  have ha := dev.align_pos
  have hlen := length_serializeEntry cx k v s c ha
  have hbody : EntryHeader.serializedLen + (encodeValue cx c v).length + (cx.key.write k).length ≤
      (serializeEntry cx dev.align k v s c).length := by
    rw [hlen]; exact le_alignUp ha
  have hkb : 0 < (cx.key.write k).length := List.length_pos.2 hkey
  have hsl : EntryHeader.serializedLen = 28 := rfl
  have hkl := toNat_keyLen_entryHeaderOf cx k v s c (by omega)
  have hvl := toNat_valueLen_entryHeaderOf cx k v s c (by omega)
  have hvk : ((entryHeaderOf cx k v s c).valueLen + (entryHeaderOf cx k v s c).keyLen).toNat =
      (encodeValue cx c v).length + (cx.key.write k).length := by
    rw [UInt32.toNat_add_mod, hkl, hvl]; omega
  have hkv : ((entryHeaderOf cx k v s c).keyLen + (entryHeaderOf cx k v s c).valueLen).toNat =
      (cx.key.write k).length + (encodeValue cx c v).length := by
    rw [UInt32.toNat_add_mod, hkl, hvl]; omega
  have hL : dev.align ≤ (serializeEntry cx dev.align k v s c).length := by
    rw [hlen]; exact alignUp_pos ha (by omega)
  have hhdr : EntryHeader.read (loadRange bytes cursor (cursor + dev.align)) =
      .ok (entryHeaderOf cx k v s c) := by
    rw [loadRange, Nat.add_sub_cancel_left, ← Nat.min_eq_left hL, ← take_readBytes, hread,
      serializeEntry_eq, List.take_append_eq_append_take,
      List.take_of_length_le (by simp only [EntryHeader.length_write]; omega)]
    exact EntryHeader.read_write _ _
  have hkey_bytes : readBytes bytes (cursor + (EntryHeader.serializedLen + (encodeValue cx c v).length))
      (cx.key.write k).length = cx.key.write k := by
    rw [readBytes_of_readBytes hread (by omega), serializeEntry_eq, List.drop_append_eq_append_drop,
      List.drop_eq_nil_of_le (by simp [EntryHeader.length_write]), List.nil_append,
      EntryHeader.length_write, Nat.add_sub_cancel_left, List.append_assoc, List.drop_left' rfl,
      List.take_left' rfl]
  have hentry : alignUp dev.align ((encodeValue cx c v).length + (cx.key.write k).length +
      EntryHeader.serializedLen) = (serializeEntry cx dev.align k v s c).length := by
    rw [hlen, entryLen]; exact congrArg _ (by omega)
  have hstart : cursor ≤ alignDown dev.align (cursor + EntryHeader.serializedLen + (encodeValue cx c v).length) :=
    le_alignDown_of_dvd hdvd (by omega)
  have hkeyslice : slice (loadRange bytes
        (alignDown dev.align (cursor + EntryHeader.serializedLen + (encodeValue cx c v).length))
        (alignUp dev.align (cursor + EntryHeader.serializedLen +
          ((cx.key.write k).length + (encodeValue cx c v).length))))
      (cursor + EntryHeader.serializedLen + (encodeValue cx c v).length -
        alignDown dev.align (cursor + EntryHeader.serializedLen + (encodeValue cx c v).length))
      (cursor + EntryHeader.serializedLen + ((cx.key.write k).length + (encodeValue cx c v).length) -
        alignDown dev.align (cursor + EntryHeader.serializedLen + (encodeValue cx c v).length)) =
      .ok (cx.key.write k) := by
    have h₁ := @alignDown_le dev.align (cursor + EntryHeader.serializedLen + (encodeValue cx c v).length)
    have h₂ := @le_alignUp dev.align (cursor + EntryHeader.serializedLen +
      ((cx.key.write k).length + (encodeValue cx c v).length)) ha
    rw [loadRange, slice_readBytes (by omega) (by omega)]
    exact congrArg Res.ok ((congrArg₂ (readBytes bytes) (by omega) (by omega)).trans hkey_bytes)
  rw [next, if_neg (by omega)]
  simp only [hhdr, hvk, hkv, hvl]
  rw [if_neg (by omega), if_neg (fun h => by omega), hkeyslice]
  simp only [Res.bind, hcodec, hentry, Nat.mod_eq_of_lt (show cursor < 2 ^ 32 by omega),
    Nat.mod_eq_of_lt (show (serializeEntry cx dev.align k v s c).length < 2 ^ 32 by omega)]
  rfl

/-- A region whose first bytes are the region header is opened at `align`. -/
theorem open_of_header (h8 : 8 ≤ dev.align) (h : readBytes bytes 0 8 = putU64 regionMagic) :
    RegionEntryIter.open dev bytes = .ok (some dev.align) := by
  have hsplit := @readBytes_add bytes 0 8 (dev.align - 8)
  rw [Nat.add_sub_of_le h8, h, Nat.zero_add] at hsplit
  simp [RegionEntryIter.open, RegionHeader.check, loadRange, hsplit]

theorem next_of_end {cursor : Nat} (h : dev.regionSize ≤ cursor + dev.align) :
    next cx dev bytes r ver cursor = .ok none := by
  simp [next, h]

theorem next_of_read_err {cursor : Nat} {e : Error}
    (h : EntryHeader.read (loadRange bytes cursor (cursor + dev.align)) = .err e) :
    next cx dev bytes r ver cursor = .ok none := by
  unfold next; split
  · rfl
  · simp only [h]

/-- `next` only moves forward, and only from a block before the footer. -/
theorem lt_of_next {cursor c : Nat} {item : K × Item K V}
    (h : next cx dev bytes r ver cursor = .ok (some (item, c))) :
    cursor + dev.align < dev.regionSize ∧ cursor < c := by
  unfold next at h
  split at h
  · cases h
  refine ⟨by omega, ?_⟩
  dsimp only at h
  split at h <;> try cases h
  split at h <;> try cases h
  split at h <;> cases h
  exact Nat.lt_add_of_pos_right (Nat.lt_of_lt_of_le (Nat.add_pos_right _ (by decide))
    (le_alignUp dev.align_pos))

theorem scan_succ_of_next {cursor c fuel : Nat} {item : K × Item K V}
    (h : next cx dev bytes r ver cursor = .ok (some (item, c))) :
    scan cx dev bytes r ver (fuel + 1) cursor = (scan cx dev bytes r ver fuel c).bind
      fun items => .ok (item :: items) := by
  rw [scan, h]

/-- Past `region_size - cursor` turns, more fuel changes nothing: the loop has
    ended. -/
theorem scan_fuel {fuel cursor : Nat} (h : dev.regionSize ≤ cursor + fuel) :
    scan cx dev bytes r ver (fuel + 1) cursor = scan cx dev bytes r ver (fuel + 2) cursor := by
  induction fuel generalizing cursor with
  | zero => rw [scan, scan, next_of_end (by omega)]
  | succ fuel ih =>
    rw [scan, scan]
    rcases hn : next cx dev bytes r ver cursor with (_ | ⟨item, c⟩) | e | _
    · rfl
    · dsimp only
      rw [@ih c (by have := (lt_of_next hn).2; omega)]
    · rfl
    · rfl

end RegionEntryIter

/-! ## Section 3: A region as a flusher leaves it -/

section Flusher

variable {K V : Type} (dev : Device)

/-- Modelled from the spec (§4.6): the flusher appends the serialized entries
    to a region in turn. The region after them and the slices `allocate`
    returned; `none` unless every allocation is `Ok`. -/
def appendAll (r : RegionId) : RegionInner → List (List UInt8) → Option (RegionInner × List WriteSlice)
  | inner, [] => some (inner, [])
  | inner, bytes :: rest =>
    match inner.appendEntry dev r bytes with
    | (inner, .ok (.ok slice)) => (appendAll r inner rest).map fun (inner, slices) => (inner, slice :: slices)
    | _ => none

/-- Modelled from the spec (§4.6): a flusher's life on region `r`. It attaches
    the pooled buffer `buf`, appends the serialized entries, and seals the
    region. The bytes it leaves on the device and the slices of the
    entries. -/
def writeRegion (r : RegionId) (inner : RegionInner) (buf : Buffer) (entries : List (List UInt8)) :
    Option (Buffer × List WriteSlice) := do
  let inner ← inner.attachBuffer dev buf
  let (inner, slices) ← appendAll dev r inner entries
  let buf ← inner.buffer
  pure (sealedBytes dev buf, slices)

variable {dev} {r : RegionId}

/-- The slices of the entries `bss` appended one after another from offset `o`. -/
def slicesFrom (r : RegionId) (v : Version) : Nat → List (List UInt8) → List WriteSlice
  | _, [] => []
  | o, b :: bs => ⟨r, v, o, o, b.length⟩ :: slicesFrom r v (o + b.length) bs

theorem map_len_slicesFrom (v : Version) : ∀ (o : Nat) (bss : List (List UInt8)),
    (slicesFrom r v o bss).map WriteSlice.len = bss.map List.length
  | _, [] => rfl
  | o, b :: bs => by simp [slicesFrom, map_len_slicesFrom v (o + b.length) bs]

/-- What the flusher's appends leave: the entries written end to end from the
    region's length, each slice where it was written, and the footer block
    still free. -/
theorem appendAll_spec : ∀ {bss : List (List UInt8)} {inner inner' : RegionInner}
    {ss : List WriteSlice} {B : Buffer}, inner.buffer = some B → inner.len + dev.align ≤ inner.capacity →
    appendAll dev r inner bss = some (inner', ss) →
    inner'.buffer = some (writeBytes B inner.len bss.flatten) ∧
      inner'.len = inner.len + bss.flatten.length ∧ inner'.len + dev.align ≤ inner.capacity ∧
      ss = slicesFrom r inner.version inner.len bss
  | [], inner, inner', ss, B, hb, hfit, h => by
    simp only [appendAll, Option.some.injEq, Prod.mk.injEq] at h
    obtain ⟨rfl, rfl⟩ := h
    simp [hb, hfit, slicesFrom]
  | b :: bs, inner, inner', ss, B, hb, hfit, h => by
    unfold appendAll at h
    split at h
    · rename_i inner₁ slice heq
      have hfit₁ := RegionInner.fit_of_allocate dev
        ((Store.RegionInner.appendEntry_snd r inner b).symm.trans (congrArg Prod.snd heq))
      rw [Store.RegionInner.appendEntry_of_fit hb hfit₁, Prod.mk.injEq] at heq
      obtain ⟨rfl, hs⟩ := heq
      cases hs
      obtain ⟨⟨inner₂, ss₂⟩, h₂, hmap⟩ := Option.map_eq_some'.1 h
      cases hmap
      obtain ⟨hb₂, hl₂, hf₂, rfl⟩ := appendAll_spec rfl (by simpa using hfit₁) h₂
      dsimp only at hb₂ hl₂ hf₂
      refine ⟨?_, ?_, hf₂, rfl⟩
      · rw [hb₂, List.flatten_cons, ← writeBytes_append]
      · simp only [hl₂, List.flatten_cons, List.length_append]; omega
    · cases h

/-- Entries written end to end from an aligned cursor are scanned in order. -/
theorem scan_written {cx : Codecs K V} {bytes : Buffer} (h28 : EntryHeader.serializedLen ≤ dev.align)
    (h32 : dev.regionSize ≤ 2 ^ 32) (v : Version) :
    ∀ {es : List (Entry K V)} {cursor : Nat} (fuel : Nat), (∀ e ∈ es, cx.key.write e.key ≠ []) →
      (∀ e ∈ es, cx.key.read (cx.key.write e.key) = .ok e.key) → dev.align ∣ cursor → dev.align ≤ cursor →
      cursor + (es.map (Entry.serialize cx dev.align)).flatten.length + dev.align ≤ dev.regionSize →
      readBytes bytes cursor (es.map (Entry.serialize cx dev.align)).flatten.length =
        (es.map (Entry.serialize cx dev.align)).flatten →
      RegionEntryIter.scan cx dev bytes r 0 (fuel + es.length) cursor =
        (RegionEntryIter.scan cx dev bytes r 0 fuel
          (cursor + (es.map (Entry.serialize cx dev.align)).flatten.length)).bind fun rest =>
          .ok ((es.zip (slicesFrom r v cursor (es.map (Entry.serialize cx dev.align)))).map
            (fun (e, s) => (e.key, ⟨e.sequence, .region ⟨r, s.offset, s.len, 0⟩⟩)) ++ rest)
  | [], cursor, fuel, _, _, _, _, _, _ => by simp [slicesFrom]
  | e :: es, cursor, fuel, hkey, hcodec, hdvd, hge, hfit, hread => by
    simp only [List.map_cons, List.flatten_cons, List.length_append] at hfit hread ⊢
    rw [readBytes_add] at hread
    obtain ⟨hhead, htail⟩ := List.append_inj hread (by simp)
    have hlen : (e.serialize cx dev.align).length =
        (serializeEntry cx dev.align e.key e.value e.sequence e.compression).length := rfl
    have hnext : RegionEntryIter.next cx dev bytes r 0 cursor = .ok (some ((e.key, ⟨e.sequence,
        .region ⟨r, cursor, (e.serialize cx dev.align).length, 0⟩⟩),
        cursor + (e.serialize cx dev.align).length)) :=
      RegionEntryIter.next_of_written h28 h32 (hkey e (List.mem_cons_self _ _))
      (hcodec e (List.mem_cons_self _ _)) hdvd hge (by omega) hhead
    have hdvd' : dev.align ∣ cursor + (e.serialize cx dev.align).length := by
      refine Nat.dvd_add hdvd ?_
      rw [Entry.serialize, length_serializeEntry _ _ _ _ _ dev.align_pos]
      exact dvd_alignUp
    rw [List.length_cons, ← Nat.add_assoc,
      RegionEntryIter.scan_succ_of_next hnext,
      scan_written h28 h32 v fuel (fun e he => hkey e (List.mem_cons_of_mem _ he))
        (fun e he => hcodec e (List.mem_cons_of_mem _ he)) hdvd' (by omega) (by omega) htail,
      Res.bind_bind]
    simp [slicesFrom, Nat.add_assoc]

/-- Serialized entries end to end take whole blocks, at least one each. -/
theorem length_flatten_serialize (cx : Codecs K V) : ∀ es : List (Entry K V),
    dev.align ∣ (es.map (Entry.serialize cx dev.align)).flatten.length ∧
      es.length * dev.align ≤ (es.map (Entry.serialize cx dev.align)).flatten.length
  | [] => by simp
  | e :: es => by
    obtain ⟨h₁, h₂⟩ := length_flatten_serialize cx es
    have hl : (e.serialize cx dev.align).length = entryLen cx dev.align e.key e.value e.compression :=
      length_serializeEntry _ _ _ _ _ dev.align_pos
    have : dev.align ≤ entryLen cx dev.align e.key e.value e.compression :=
      alignUp_pos dev.align_pos (Nat.add_pos_left (Nat.add_pos_left (by decide) _) _)
    simp only [List.map_cons, List.flatten_cons, List.length_append, List.length_cons, Nat.succ_mul]
    exact ⟨Nat.dvd_add (hl ▸ dvd_alignUp) h₁, by omega⟩

/-- Two multiples of `align` that differ are at least `align` apart. -/
theorem add_le_of_dvd_of_lt {a x y : Nat} (hx : a ∣ x) (hy : a ∣ y) (h : x < y) : x + a ≤ y := by
  obtain ⟨p, rfl⟩ := hx
  obtain ⟨q, rfl⟩ := hy
  have : p < q := Nat.lt_of_mul_lt_mul_left h
  calc a * p + a = a * (p + 1) := (Nat.mul_succ a p).symm
    _ ≤ a * q := Nat.mul_le_mul_left a this

/-- A region a flusher filled from a pooled buffer, whatever that buffer held,
    is opened and scanned back to its entries in the order they were
    allocated, each at the offset and length of its slice, provided every key
    serializes to at least one byte and the block of the old buffer right
    after the last entry holds no entry header. -/
theorem scan_writeRegion {cx : Codecs K V} (h28 : EntryHeader.serializedLen ≤ dev.align)
    (h2 : 2 * dev.align ≤ dev.regionSize) (h32 : dev.regionSize ≤ 2 ^ 32)
    {inner : RegionInner} (hcap : inner.capacity = dev.regionSize) {buf bytes : Buffer}
    {es : List (Entry K V)} {slices : List WriteSlice} (hkey : ∀ e ∈ es, cx.key.write e.key ≠ [])
    (hcodec : ∀ e ∈ es, cx.key.read (cx.key.write e.key) = .ok e.key)
    (hw : writeRegion dev r inner buf (es.map (Entry.serialize cx dev.align)) = some (bytes, slices))
    (hstale : dev.align + (slices.map WriteSlice.len).sum + dev.align < dev.regionSize →
      ∃ err, EntryHeader.read (readBytes buf (dev.align + (slices.map WriteSlice.len).sum)
        dev.align) = .err err) :
    RegionEntryIter.open dev bytes = .ok (some dev.align) ∧
      RegionEntryIter.scan cx dev bytes r 0 dev.regionSize dev.align =
        .ok ((es.zip slices).map fun (e, s) => (e.key, ⟨e.sequence, .region ⟨r, s.offset, s.len, 0⟩⟩)) := by
  simp only [writeRegion, bind, Option.bind_eq_some, pure, Option.some.injEq, Prod.mk.injEq] at hw
  obtain ⟨inner₁, hatt, ⟨inner₂, ss⟩, happ, B₂, hB₂, rfl, rfl⟩ := hw
  obtain ⟨hb₁, hl₁, hc₁, -⟩ := RegionInner.attachBuffer_eq_some dev hatt
  obtain ⟨hb₂, hl₂, hf₂, rfl⟩ := appendAll_spec hb₁ (by omega) happ
  obtain rfl := Option.some.inj (hB₂.symm.trans hb₂)
  dsimp only at hstale ⊢
  rw [hl₁] at hl₂ hstale ⊢
  rw [map_len_slicesFrom, ← List.length_flatten] at hstale
  obtain ⟨hdvdJ, hlenJ⟩ := @length_flatten_serialize K V dev cx es
  -- the entries' bytes, written from `align` on
  set J := (es.map (Entry.serialize cx dev.align)).flatten with hJ
  have hfin : dev.align + J.length + dev.align ≤ dev.regionSize := by omega
  have h8 : 8 ≤ dev.align := by simp only [EntryHeader.serializedLen] at h28; omega
  have hfoot : dev.align + J.length ≤ dev.regionSize - dev.align := by omega
  refine ⟨RegionEntryIter.open_of_header h8 ?_, ?_⟩
  · rw [sealedBytes, readBytes_writeBytes_of_disjoint (by omega),
      readBytes_writeBytes_of_disjoint (by omega), ← length_putU64 regionMagic,
      readBytes_writeBytes_self]
  · have hread : readBytes (sealedBytes dev (writeBytes (writeBytes buf 0 (putU64 regionMagic))
        dev.align J)) dev.align J.length = J := by
      rw [sealedBytes, readBytes_writeBytes_of_disjoint (by omega), readBytes_writeBytes_self]
    have hn : es.length ≤ J.length :=
      (Nat.le_mul_of_pos_right _ dev.align_pos).trans hlenJ
    -- after the entries, the scan stops: at the footer, or at the old buffer's block
    have hstop : RegionEntryIter.next cx dev (sealedBytes dev (writeBytes
        (writeBytes buf 0 (putU64 regionMagic)) dev.align J)) r 0 (dev.align + J.length) = .ok none := by
      by_cases hlt : dev.align + J.length + dev.align < dev.regionSize
      · obtain ⟨err, herr⟩ := hstale hlt
        have hgap := add_le_of_dvd_of_lt (Nat.dvd_add (Nat.dvd_add (Nat.dvd_refl _) hdvdJ)
          (Nat.dvd_refl _)) dev.align_dvd hlt
        apply RegionEntryIter.next_of_read_err
        rw [loadRange, Nat.add_sub_cancel_left, sealedBytes, readBytes_writeBytes_of_disjoint (by omega),
          readBytes_writeBytes_of_disjoint (by omega), readBytes_writeBytes_of_disjoint (by simp; omega)]
        exact herr
      · exact RegionEntryIter.next_of_end (by omega)
    obtain ⟨f, hf⟩ : ∃ f, dev.regionSize = f + 1 + es.length := ⟨dev.regionSize - es.length - 1, by omega⟩
    have hscan : RegionEntryIter.scan cx dev _ r 0 (f + 1 + es.length) dev.align = _ :=
      scan_written h28 h32 inner₁.version (f + 1) hkey hcodec (Nat.dvd_refl _) le_rfl hfin hread
    rw [← hf] at hscan
    rw [hscan, RegionEntryIter.scan, hstop]
    simp

end Flusher

theorem scan_writeRegion_fresh_buffer :
    ∃ bytes slices, writeRegion Device.small 0 (RegionInner.new Device.small) Buffer.zero
        ([⟨0, 1, 10, .none⟩].map (Entry.serialize Codecs.oneByte Device.small.align)) =
        some (bytes, slices) ∧
      RegionEntryIter.open Device.small bytes = .ok (some Device.small.align) ∧
      RegionEntryIter.scan Codecs.oneByte Device.small bytes 0 0 Device.small.regionSize
        Device.small.align = .ok [(1, ⟨0, .region ⟨0, 32, 32, 0⟩⟩)] :=
  ⟨_, _, rfl, @scan_writeRegion Nat Nat Device.small 0 Codecs.oneByte (by decide) (by decide)
    (by decide) (RegionInner.new Device.small) rfl Buffer.zero _ [⟨0, 1, 10, .none⟩] _ (by decide)
    (by decide) rfl (fun _ => ⟨_, rfl⟩)⟩

/-- A pooled buffer that held an entry of key 9 at offset 64 in its previous
    use. -/
def staleBuffer : Buffer :=
  writeBytes Buffer.zero 64 (serializeEntry Codecs.oneByte 32 9 90 7 .none)

/-- A region that a flusher filled with the one entry `(1, 10)` from the stale
    buffer yields, after it, the entry of key 9 that the buffer still holds. -/
theorem recover_region_parses_stale_entry :
    (writeRegion Device.small 0 (RegionInner.new Device.small) staleBuffer
        [serializeEntry Codecs.oneByte 32 1 10 0 .none]).map
      (fun (bytes, slices) => (slices, recoverRegion Codecs.oneByte Device.small bytes 0)) =
      some ([⟨0, 0, 32, 32, 32⟩],
        .ok (some (7, [(1, ⟨0, .region ⟨0, 32, 32, 0⟩⟩), (9, ⟨7, .region ⟨0, 64, 32, 0⟩⟩)]))) :=
  rfl

/-! ## Section 4: The sequence `recover` reports

    `recover` reports a sequence at least that of every item the scans of the
    valid regions found: each region's is the greatest of its items', and the
    store's the greatest of the regions'. -/

section Sequence

variable {K V : Type} {cx : Codecs K V} {dev : Device}

end Sequence

end Foyer
