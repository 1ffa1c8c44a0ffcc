import Foyer.Bytes

/-! # Entry framing

    The on-disk form of one cache entry, from `generic.rs`:

        | EntryHeader (28 B) | value (compressed) | key | <padding> |

    `EntryHeader::write` puts `key_len`, `value_len` (u32), `sequence`,
    `checksum` (u64) and a u32 whose high 24 bits are the entry magic and whose
    low byte is the compression tag, all big-endian. `EntryHeader::read` undoes
    it and checks the magic; `read_entry` then slices out the value and the
    key, decodes them and compares the checksum.

    The codecs of keys and values, the compressors and XXH64 belong to other
    crates; they are the fields of `Codecs`. What the flusher writes for an
    entry (`serializeEntry`) follows the spec, since `flusher.rs` is not among
    the sources. -/

namespace Foyer

/-! ## Section 1: Compression tags -/

/-- Modelled from the spec: `compress.rs` is not among the sources. The tags
    are `None = 0`, `Zstd = 1`, `Lz4 = 2`. -/
inductive Compression where
  | none
  | zstd
  | lz4
  deriving DecidableEq, Repr

/-- `Compression::to_u8`. -/
def Compression.toU8 : Compression → UInt8
  | .none => 0
  | .zstd => 1
  | .lz4 => 2

/-- `Compression::try_from(u8)`. -/
def Compression.tryFrom (b : UInt8) : Res Compression :=
  if b = 0 then .ok .none else if b = 1 then .ok .zstd else if b = 2 then .ok .lz4
  else .err (.compression b)

@[simp] theorem Compression.tryFrom_toU8 (c : Compression) : Compression.tryFrom c.toU8 = .ok c := by
  cases c <;> rfl

theorem Compression.toU8_of_tryFrom {b : UInt8} {c : Compression}
    (h : Compression.tryFrom b = .ok c) : c.toU8 = b := by
  unfold Compression.tryFrom at h
  split_ifs at h <;> cases h <;> subst_vars <;> rfl

theorem Compression.tryFrom_ne_panic (b : UInt8) : Compression.tryFrom b ≠ .panic := by
  unfold Compression.tryFrom; split_ifs <;> nofun

/-- `try_from` fails exactly on the bytes that are no compression's tag. -/
theorem Compression.tryFrom_eq_err_iff (b : UInt8) :
    (∃ e, Compression.tryFrom b = .err e) ↔ ∀ c : Compression, c.toU8 ≠ b := by
  constructor
  · rintro ⟨e, he⟩ c rfl
    rw [Compression.tryFrom_toU8] at he; cases he
  · intro h
    have h0 : b ≠ 0 := fun e => h .none e.symm
    have h1 : b ≠ 1 := fun e => h .zstd e.symm
    have h2 : b ≠ 2 := fun e => h .lz4 e.symm
    exact ⟨.compression b, by simp [Compression.tryFrom, h0, h1, h2]⟩

/-! ## Section 2: Codecs -/

/-- A `Key` or `Value` codec of foyer-common: `write` serialises, `read`
    parses a slice. `serialized_len` is the length of `write`. -/
structure Codec (α : Type) where
  write : α → List UInt8
  read : List UInt8 → Res α

/-- The collaborators of the entry format: key and value codecs, XXH64 with
    seed 0, and the zstd and lz4 codecs (applied to the tags other than
    `None`). -/
structure Codecs (K V : Type) where
  key : Codec K
  value : Codec V
  xxh64 : List UInt8 → UInt64
  compress : Compression → List UInt8 → List UInt8
  decompress : Compression → List UInt8 → Res (List UInt8)

/-- `checksum`: XXH64 with seed 0 of a slice. -/
def checksum {K V : Type} (cx : Codecs K V) (buf : List UInt8) : UInt64 := cx.xxh64 buf

/-- One-byte codec of numbers below 256. -/
def byteCodec : Codec Nat where
  write n := [UInt8.ofNat n]
  read
    | [b] => .ok b.toNat
    | _ => .err .coding

/-- Codecs for small examples: one-byte keys and values, a polynomial hash in
    the place of XXH64, and compressors that copy. -/
def Codecs.oneByte : Codecs Nat Nat where
  key := byteCodec
  value := byteCodec
  xxh64 bs := UInt64.ofNat (bs.foldl (fun h b => h * 31 + b.toNat) 7)
  compress _ bs := bs
  decompress _ bs := .ok bs

/-! ## Section 3: The entry header -/

/-- `ENTRY_MAGIC`. -/
def entryMagic : UInt32 := 0x97032700

/-- `ENTRY_MAGIC_MASK`. -/
def entryMagicMask : UInt32 := 0xFFFFFF00

/-- `EntryHeader`. -/
structure EntryHeader where
  keyLen : UInt32
  valueLen : UInt32
  sequence : UInt64
  checksum : UInt64
  compression : Compression
  deriving DecidableEq, Repr

namespace EntryHeader

/-- `EntryHeader::serialized_len`: `4 + 4 + 8 + 8 + 4`. -/
def serializedLen : Nat := 28

/-- `EntryHeader::write`. -/
def write (h : EntryHeader) : List UInt8 :=
  putU32 h.keyLen ++ putU32 h.valueLen ++ putU64 h.sequence ++ putU64 h.checksum ++
    putU32 (entryMagic ||| h.compression.toU8.toUInt32)

/-- `EntryHeader::read`: the fields in order, then the magic check on the
    masked last word, then the compression tag of its low byte. -/
def read (buf : List UInt8) : Res EntryHeader := do
  let (keyLen, buf) ← getU32 buf
  let (valueLen, buf) ← getU32 buf
  let (sequence, buf) ← getU64 buf
  let (checksum, buf) ← getU64 buf
  let (v, _) ← getU32 buf
  let magic := v &&& entryMagicMask
  if magic ≠ entryMagic then
    .err (.magicMismatch entryMagic.toNat magic.toNat)
  else do
    let compression ← Compression.tryFrom v.toUInt8
    pure { keyLen, valueLen, sequence, checksum, compression }

@[simp] theorem length_write (h : EntryHeader) : h.write.length = serializedLen := by
  simp [write, serializedLen]

theorem magic_word (c : Compression) :
    (entryMagic ||| c.toU8.toUInt32) &&& entryMagicMask = entryMagic ∧
      (entryMagic ||| c.toU8.toUInt32).toUInt8 = c.toU8 := by
  cases c <;> decide

/-- A written header reads back, whatever follows it. -/
theorem read_write (h : EntryHeader) (rest : List UInt8) : read (h.write ++ rest) = .ok h := by
  obtain ⟨hm, ht⟩ := magic_word h.compression
  simp [read, write, List.append_assoc, hm, ht]

/-- The mask keeps bits 8 to 31. -/
theorem testBit_entryMagicMask (i : Nat) :
    Nat.testBit entryMagicMask.toNat i = (decide (8 ≤ i) && decide (i < 32)) := by
  rw [show entryMagicMask.toNat = (2 ^ 24 - 1) <<< 8 from rfl, Nat.testBit_shiftLeft,
    Nat.testBit_two_pow_sub_one]
  by_cases h : 8 ≤ i <;> simp [h]; omega

/-- A `u32` is its bits under the mask or-ed with its low byte. -/
theorem eq_mask_or_toUInt8 (v : UInt32) : v = (v &&& entryMagicMask) ||| v.toUInt8.toUInt32 := by
  have hlt : v.toNat < 2 ^ 32 := v.toNat_lt_size
  have hand : (v &&& entryMagicMask).toNat = v.toNat &&& entryMagicMask.toNat := BitVec.toNat_and _ _
  have hor (a b : UInt32) : (a ||| b).toNat = a.toNat ||| b.toNat := BitVec.toNat_or _ _
  have hlow : v.toUInt8.toUInt32.toNat = v.toNat % 2 ^ 8 := by
    simp [UInt32.toUInt8, Nat.toUInt8, UInt8.toUInt32, Nat.toUInt32, UInt8.ofNat, UInt8.toNat,
      UInt32.ofNat, UInt32.toNat]
  rw [UInt32.eq_iff_toNat_eq, hor, hand, hlow]
  apply Nat.eq_of_testBit_eq; intro i
  rw [Nat.testBit_or, Nat.testBit_and, Nat.testBit_mod_two_pow, testBit_entryMagicMask]
  by_cases h8 : i < 8
  · simp [h8]
  · by_cases h32 : i < 32
    · simp [h8, h32]; omega
    · simp [h8, h32, @Nat.testBit_lt_two_pow v.toNat i
        (lt_of_lt_of_le hlt (Nat.pow_le_pow_right (by decide) (by omega)))]

/-- `read` accepts exactly the buffers that begin with the bytes of a header,
    and returns that header. -/
theorem read_eq_ok_iff {buf : List UInt8} {h : EntryHeader} :
    read buf = .ok h ↔ ∃ rest, buf = h.write ++ rest := by
  refine ⟨fun hr => ?_, fun ⟨rest, hb⟩ => hb ▸ read_write h rest⟩
  obtain ⟨⟨kl, b1⟩, h1, hr⟩ := Res.bind_eq_ok.1 hr
  obtain ⟨⟨vl, b2⟩, h2, hr⟩ := Res.bind_eq_ok.1 hr
  obtain ⟨⟨sq, b3⟩, h3, hr⟩ := Res.bind_eq_ok.1 hr
  obtain ⟨⟨cs, b4⟩, h4, hr⟩ := Res.bind_eq_ok.1 hr
  obtain ⟨⟨w, b5⟩, h5, hr⟩ := Res.bind_eq_ok.1 hr
  dsimp only at hr
  split at hr
  · cases hr
  rename_i hm
  obtain ⟨c, hc, hr⟩ := Res.bind_eq_ok.1 hr
  cases hr
  have hw : entryMagic ||| c.toU8.toUInt32 = w := by
    rw [Compression.toU8_of_tryFrom hc, ← not_not.1 hm]; exact (eq_mask_or_toUInt8 w).symm
  refine ⟨b5, ?_⟩
  rw [← putU32_of_getU32 h1, ← putU32_of_getU32 h2, ← putU64_of_getU64 h3,
    ← putU64_of_getU64 h4, ← putU32_of_getU32 h5]
  simp [write, hw]

/-- The big-endian `u32` at bytes 24 to 28 of a buffer: the word `read` takes
    the magic and the compression tag from. -/
def lastWord (buf : List UInt8) : UInt32 := UInt32.ofNat (getBE ((buf.drop 24).take 4))

/-- On at least 28 bytes every field is there, and only the last word decides
    how `read` ends. -/
theorem read_of_length {buf : List UInt8} (hl : serializedLen ≤ buf.length) : ∃ kl vl sq cs,
    read buf = if lastWord buf &&& entryMagicMask ≠ entryMagic then
      .err (.magicMismatch entryMagic.toNat (lastWord buf &&& entryMagicMask).toNat)
    else (Compression.tryFrom (lastWord buf).toUInt8).bind fun c => .ok ⟨kl, vl, sq, cs, c⟩ := by
  simp only [serializedLen] at hl
  have h1 : ¬ buf.length < 4 := by omega
  have h2 : ¬ buf.length - 4 < 4 := by omega
  have h3 : ¬ buf.length - 8 < 8 := by omega
  have h4 : ¬ buf.length - 16 < 8 := by omega
  have h5 : ¬ buf.length - 24 < 4 := by omega
  simp [read, getU32, getU64, lastWord, List.drop_drop, h1, h2, h3, h4, h5]
  exact ⟨_, _, _, _, rfl⟩

theorem read_ne_panic {buf : List UInt8} (hl : serializedLen ≤ buf.length) : read buf ≠ .panic := by
  obtain ⟨kl, vl, sq, cs, hr⟩ := read_of_length hl
  rw [hr]
  split
  · nofun
  · rcases hc : Compression.tryFrom (lastWord buf).toUInt8 with c | e | _
    · nofun
    · nofun
    · exact absurd hc (Compression.tryFrom_ne_panic _)

theorem read_eq_err_iff {buf : List UInt8} (hl : serializedLen ≤ buf.length) :
    (∃ e, read buf = .err e) ↔ lastWord buf &&& entryMagicMask ≠ entryMagic ∨
      ∀ c : Compression, c.toU8 ≠ (lastWord buf).toUInt8 := by
  obtain ⟨kl, vl, sq, cs, hr⟩ := read_of_length hl
  rw [hr, ← Compression.tryFrom_eq_err_iff]
  by_cases hm : lastWord buf &&& entryMagicMask ≠ entryMagic
  · simp [hm]
  · rw [if_neg hm]
    rcases hc : Compression.tryFrom (lastWord buf).toUInt8 with c | e | _
    · simp [hm, Res.bind]
    · simp [hm, Res.bind]
    · exact absurd hc (Compression.tryFrom_ne_panic _)

/-- `read` and `write` are inverse: a written header reads back whatever
    follows it; a header read back writes the 28 bytes it was read from; and
    on 28 bytes or more `read` never panics, failing exactly when the masked
    last word is not the magic or its low byte is no compression's tag. -/
theorem write_read_inverse :
    (∀ (h : EntryHeader) (rest : List UInt8), read (h.write ++ rest) = .ok h) ∧
    (∀ (buf : List UInt8) (h : EntryHeader), read buf = .ok h → h.write = buf.take serializedLen) ∧
    (∀ buf : List UInt8, serializedLen ≤ buf.length → read buf ≠ .panic ∧
      ((∃ e, read buf = .err e) ↔ lastWord buf &&& entryMagicMask ≠ entryMagic ∨
        ∀ c : Compression, c.toU8 ≠ (lastWord buf).toUInt8)) := by
  refine ⟨read_write, fun buf h hr => ?_, fun buf hl => ⟨read_ne_panic hl, read_eq_err_iff hl⟩⟩
  obtain ⟨rest, rfl⟩ := read_eq_ok_iff.1 hr
  simp

end EntryHeader

/-! ## Section 4: Reading an entry -/

/-- `&buf[start..stop]`: panics unless `start ≤ stop ≤ buf.len()`. -/
def slice (buf : List UInt8) (start stop : Nat) : Res (List UInt8) :=
  if start ≤ stop ∧ stop ≤ buf.length then .ok ((buf.drop start).take (stop - start)) else .panic

theorem slice_readBytes {b : Buffer} {s n i j : Nat} (h : i ≤ j) (hj : j ≤ n) :
    slice (readBytes b s n) i j = .ok (readBytes b (s + i) (j - i)) := by
  rw [slice, if_pos ⟨h, by simpa using hj⟩, drop_readBytes, take_readBytes, Nat.min_eq_left (by omega)]

theorem slice_append (l₁ l₂ l₃ : List UInt8) :
    slice (l₁ ++ l₂ ++ l₃) l₁.length (l₁.length + l₂.length) = .ok l₂ := by
  rw [slice, if_pos ⟨by omega, by simp⟩]
  simp [List.append_assoc]

theorem slice_eq_ok {buf l : List UInt8} {i j : Nat} (h : slice buf i j = .ok l) :
    i ≤ j ∧ j ≤ buf.length ∧ l = (buf.drop i).take (j - i) := by
  unfold slice at h
  split at h
  · cases h; exact ⟨‹_ ∧ _›.1, ‹_ ∧ _›.2, rfl⟩
  · cases h

variable {K V : Type}

/-- The value bytes as stored: the serialised value, compressed unless the
    tag is `None`. -/
def encodeValue (cx : Codecs K V) (c : Compression) (v : V) : List UInt8 :=
  match c with
  | .none => cx.value.write v
  | c => cx.compress c (cx.value.write v)

/-- The value from its stored bytes (`V::read`, after decompression unless
    the tag is `None`). In release builds the `u32` capacity hint
    `value_len + value_len / 2` of the decompressed vector wraps and has no
    other effect, so it is left out. -/
def decodeValue (cx : Codecs K V) (c : Compression) (bytes : List UInt8) : Res V :=
  match c with
  | .none => cx.value.read bytes
  | c => do cx.value.read (← cx.decompress c bytes)

theorem decodeValue_encodeValue {cx : Codecs K V} {c : Compression} {v : V}
    (hv : cx.value.read (cx.value.write v) = .ok v)
    (hc : c ≠ .none → cx.decompress c (cx.compress c (cx.value.write v)) = .ok (cx.value.write v)) :
    decodeValue cx c (encodeValue cx c v) = .ok v := by
  cases c
  · exact hv
  · simp [decodeValue, encodeValue, hc (by nofun), hv]
  · simp [decodeValue, encodeValue, hc (by nofun), hv]

/-- `read_entry`. -/
def readEntry (cx : Codecs K V) (buf : List UInt8) : Res (K × V) := do
  let header ← EntryHeader.read buf
  let offset := EntryHeader.serializedLen
  let compressed ← slice buf offset (offset + header.valueLen.toNat)
  let offset := offset + header.valueLen.toNat
  let value ← decodeValue cx header.compression compressed
  let key ← cx.key.read (← slice buf offset (offset + header.keyLen.toNat))
  let offset := offset + header.keyLen.toNat
  let checksum := checksum cx (← slice buf EntryHeader.serializedLen offset)
  if checksum ≠ header.checksum then
    .err (.magicMismatch header.checksum.toNat checksum.toNat)
  else
    pure (key, value)

/-- An entry laid out as the header says, with codecs that read back what they
    write, is read back whatever follows it. -/
theorem readEntry_written {cx : Codecs K V} {k : K} {v : V} {h : EntryHeader} (p : List UInt8)
    (hk : cx.key.read (cx.key.write k) = .ok k) (hv : cx.value.read (cx.value.write v) = .ok v)
    (hc : h.compression ≠ .none →
      cx.decompress h.compression (cx.compress h.compression (cx.value.write v)) = .ok (cx.value.write v))
    (hkl : h.keyLen.toNat = (cx.key.write k).length)
    (hvl : h.valueLen.toNat = (encodeValue cx h.compression v).length)
    (hsum : h.checksum = checksum cx (encodeValue cx h.compression v ++ cx.key.write k)) :
    readEntry cx (h.write ++ encodeValue cx h.compression v ++ cx.key.write k ++ p) = .ok (k, v) := by
  have h1 := slice_append h.write (encodeValue cx h.compression v) (cx.key.write k ++ p)
  have h2 := slice_append (h.write ++ encodeValue cx h.compression v) (cx.key.write k) p
  have h3 := slice_append h.write (encodeValue cx h.compression v ++ cx.key.write k) p
  simp only [List.length_append, EntryHeader.length_write, List.append_assoc, Nat.add_assoc] at h1 h2 h3
  simp [readEntry, List.append_assoc, EntryHeader.read_write, hvl, hkl, h1, h2, h3,
    decodeValue_encodeValue hv hc, hk, hsum, Nat.add_assoc]

/-- What `read_entry` accepts: a header, then as many value and key bytes as it
    says, the checksum over the two, and a value and a key that decode. -/
theorem readEntry_eq_ok {cx : Codecs K V} {buf : List UInt8} {k : K} {v : V}
    (h : readEntry cx buf = .ok (k, v)) :
    ∃ (hd : EntryHeader) (cv kb rest : List UInt8), buf = hd.write ++ cv ++ kb ++ rest ∧
      cv.length = hd.valueLen.toNat ∧ kb.length = hd.keyLen.toNat ∧
      hd.checksum = checksum cx (cv ++ kb) ∧ decodeValue cx hd.compression cv = .ok v ∧
      cx.key.read kb = .ok k := by
  dsimp only [readEntry] at h
  obtain ⟨hd, hh, h⟩ := Res.bind_eq_ok.1 h
  obtain ⟨cv, hcv, h⟩ := Res.bind_eq_ok.1 h
  obtain ⟨value, hval, h⟩ := Res.bind_eq_ok.1 h
  obtain ⟨kb, hkb, h⟩ := Res.bind_eq_ok.1 h
  obtain ⟨key, hkey, h⟩ := Res.bind_eq_ok.1 h
  obtain ⟨all, hall, h⟩ := Res.bind_eq_ok.1 h
  split at h
  · cases h
  rename_i hsum
  cases h
  obtain ⟨rest, rfl⟩ := EntryHeader.read_eq_ok_iff.1 hh
  obtain ⟨-, hcl, rfl⟩ := slice_eq_ok hcv
  obtain ⟨-, hkl, rfl⟩ := slice_eq_ok hkb
  obtain ⟨-, -, rfl⟩ := slice_eq_ok hall
  have hdrop (n : Nat) : (hd.write ++ rest).drop (EntryHeader.serializedLen + n) = rest.drop n := by
    rw [← List.drop_drop, List.drop_left' hd.length_write]
  have hdrop0 : (hd.write ++ rest).drop EntryHeader.serializedLen = rest :=
    List.drop_left' hd.length_write
  simp only [hdrop0, hdrop, Nat.add_assoc, Nat.add_sub_add_left, Nat.add_sub_cancel_left,
    List.take_add, not_not] at hval hkey hsum
  simp only [List.length_append, EntryHeader.length_write, EntryHeader.serializedLen] at hcl hkl
  refine ⟨hd, rest.take hd.valueLen.toNat, (rest.drop hd.valueLen.toNat).take hd.keyLen.toNat,
    (rest.drop hd.valueLen.toNat).drop hd.keyLen.toNat, ?_, ?_, ?_, hsum.symm, hval, hkey⟩
  · simp only [List.append_assoc, List.take_append_drop]
  · simp; omega
  · simp; omega

/-- `read_entry` reads back every entry whose header gives the lengths of its
    stored value and key and their checksum, for codecs that read back what
    they write and a decompressor that undoes the compressor, whatever padding
    follows; and every entry it accepts is laid out that way, with the
    checksum over the stored value followed by the key. -/
theorem readEntry_round_trip (cx : Codecs K V) :
    (∀ (k : K) (v : V) (h : EntryHeader) (p : List UInt8),
      cx.key.read (cx.key.write k) = .ok k → cx.value.read (cx.value.write v) = .ok v →
      (h.compression ≠ .none → cx.decompress h.compression
        (cx.compress h.compression (cx.value.write v)) = .ok (cx.value.write v)) →
      h.keyLen.toNat = (cx.key.write k).length →
      h.valueLen.toNat = (encodeValue cx h.compression v).length →
      h.checksum = checksum cx (encodeValue cx h.compression v ++ cx.key.write k) →
      readEntry cx (h.write ++ encodeValue cx h.compression v ++ cx.key.write k ++ p) = .ok (k, v)) ∧
    (∀ (buf : List UInt8) (k : K) (v : V), readEntry cx buf = .ok (k, v) →
      ∃ (h : EntryHeader) (cv kb rest : List UInt8), buf = h.write ++ cv ++ kb ++ rest ∧
        cv.length = h.valueLen.toNat ∧ kb.length = h.keyLen.toNat ∧
        h.checksum = checksum cx (cv ++ kb) ∧ decodeValue cx h.compression cv = .ok v ∧
        cx.key.read kb = .ok k) :=
  ⟨fun _ _ _ p hk hv hc hkl hvl hsum => readEntry_written p hk hv hc hkl hvl hsum,
    fun _ _ _ h => readEntry_eq_ok h⟩

/-- The entry `(1, 10)` with one-byte codecs, no compression and two bytes of
    padding. -/
theorem readEntry_round_trip_oneByte :
    readEntry Codecs.oneByte (EntryHeader.write ⟨1, 1, 0, checksum Codecs.oneByte [10, 1], .none⟩ ++
      [10] ++ [1] ++ [0, 0]) = .ok (1, 10) :=
  (readEntry_round_trip Codecs.oneByte).1 1 10 ⟨1, 1, 0, _, .none⟩ [0, 0] rfl rfl
    (fun h => absurd rfl h) rfl rfl rfl

/-- A header with an intact magic whose `value_len` runs past the buffer makes
    the slice of the value panic. -/
theorem readEntry_of_short_value {cx : Codecs K V} {buf : List UInt8} {h : EntryHeader}
    (hh : EntryHeader.read buf = .ok h)
    (hs : buf.length < EntryHeader.serializedLen + h.valueLen.toNat) : readEntry cx buf = .panic := by
  simp [readEntry, hh, slice, show ¬ (EntryHeader.serializedLen + h.valueLen.toNat ≤ buf.length) by omega]

/-- The 28 bytes of a header with the entry magic, no compression, `key_len`
    0 and `value_len` 100: `read_entry` panics slicing `buf[28..128]`. -/
theorem readEntry_panics_on_long_value_len :
    readEntry Codecs.oneByte (EntryHeader.write ⟨0, 100, 0, 0, .none⟩) = .panic := by
  rfl

/-! ## Section 5: Writing an entry -/

/-- Modelled from the spec (§4.6; `flusher.rs` is not among the sources): the
    header the flusher writes for an entry, with the checksum over the stored
    value followed by the key. -/
def entryHeaderOf (cx : Codecs K V) (key : K) (value : V) (sequence : UInt64)
    (c : Compression) : EntryHeader :=
  let cv := encodeValue cx c value
  let kb := cx.key.write key
  { keyLen := UInt32.ofNat kb.length, valueLen := UInt32.ofNat cv.length, sequence,
    checksum := checksum cx (cv ++ kb), compression := c }

/-- Modelled from the spec (§4.6): `entry_len = align_up(align, header_size +
    encoded_value_len + key_len)`. -/
def entryLen (cx : Codecs K V) (align : Nat) (key : K) (value : V) (c : Compression) : Nat :=
  alignUp align (EntryHeader.serializedLen + (encodeValue cx c value).length +
    (cx.key.write key).length)

/-- Modelled from the spec (§4.6): the bytes of an allocated entry slice,
    header, stored value, key, and zero padding up to `entryLen`. -/
def serializeEntry (cx : Codecs K V) (align : Nat) (key : K) (value : V) (sequence : UInt64)
    (c : Compression) : List UInt8 :=
  let body := (entryHeaderOf cx key value sequence c).write ++ encodeValue cx c value ++
    cx.key.write key
  body ++ List.replicate (entryLen cx align key value c - body.length) 0

section written
variable (cx : Codecs K V) (k : K) (v : V) (s : UInt64) (c : Compression)

theorem length_serializeEntry {a : Nat} (ha : 0 < a) :
    (serializeEntry cx a k v s c).length = entryLen cx a k v c := by
  have := @le_alignUp a (EntryHeader.serializedLen + (encodeValue cx c v).length +
    (cx.key.write k).length) ha
  simp only [serializeEntry, entryLen, List.length_append, List.length_replicate,
    EntryHeader.length_write] at this ⊢
  omega

/-- An entry's bytes: its header, then the stored value, the key and the
    padding. -/
theorem serializeEntry_eq (a : Nat) : serializeEntry cx a k v s c =
    (entryHeaderOf cx k v s c).write ++ (encodeValue cx c v ++ cx.key.write k ++
      List.replicate (entryLen cx a k v c - (EntryHeader.serializedLen +
        (encodeValue cx c v).length + (cx.key.write k).length)) 0) := by
  simp [serializeEntry, List.append_assoc, Nat.add_assoc]

theorem toNat_keyLen_entryHeaderOf (h : (cx.key.write k).length < 2 ^ 32) :
    (entryHeaderOf cx k v s c).keyLen.toNat = (cx.key.write k).length :=
  (UInt32.toNat_ofNat_mod _).trans (Nat.mod_eq_of_lt h)

theorem toNat_valueLen_entryHeaderOf (h : (encodeValue cx c v).length < 2 ^ 32) :
    (entryHeaderOf cx k v s c).valueLen.toNat = (encodeValue cx c v).length :=
  (UInt32.toNat_ofNat_mod _).trans (Nat.mod_eq_of_lt h)

/-- `read_entry` reads back the bytes the flusher writes for an entry, for
    codecs that read back what they write and a decompressor that undoes the
    compressor, as long as the entry fits in a `u32` length. -/
theorem readEntry_serializeEntry (a : Nat) (hk : cx.key.read (cx.key.write k) = .ok k)
    (hv : cx.value.read (cx.value.write v) = .ok v)
    (hc : c ≠ .none → cx.decompress c (cx.compress c (cx.value.write v)) = .ok (cx.value.write v))
    (h32 : (serializeEntry cx a k v s c).length < 2 ^ 32) :
    readEntry cx (serializeEntry cx a k v s c) = .ok (k, v) := by
  have hlen : EntryHeader.serializedLen + (encodeValue cx c v).length + (cx.key.write k).length ≤
      (serializeEntry cx a k v s c).length := by
    simp only [serializeEntry, List.length_append, EntryHeader.length_write]; omega
  rw [serializeEntry_eq, ← List.append_assoc, ← List.append_assoc]
  exact readEntry_written _ hk hv hc (toNat_keyLen_entryHeaderOf cx k v s c (by omega))
    (toNat_valueLen_entryHeaderOf cx k v s c (by omega)) rfl

end written

end Foyer
