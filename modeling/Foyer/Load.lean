import Foyer.Region

/-! # The physical read of `Region::load`

    A load of a region without a buffer counts itself as a physical reader
    under the lock and then reads the device without it, chunk after chunk:
    `min(io_size, end - start - offset)` bytes at `start + offset` into the
    I/O buffer at `offset`, until `start + offset` reaches `end`. A short read
    ends the loop with `Ok(None)`; an I/O error returns through `?`.

    `RegionSys` takes each chunk as one step (`readChunk`). Here the whole
    loop runs at once, over the same `PhysicalLoad`, `chunkLen` and offset
    update, with the device's answers and the region's bytes on the device,
    to say which reads it issues and what the owned buffer holds; Section 4
    shows that the `readChunk` steps of `RegionSys`, given the same answers,
    end where the loop's result says. -/

namespace Foyer

namespace RegionSys

variable (dev : Device) (device : Buffer) (answer : Nat → Nat → DeviceRead)

/-- The chunk loop of `Region::load` from `ld` on: `answer pos len` is what
    the device returns for the read of `len` bytes at `pos`, and a full read
    copies the region's bytes on the device into the buffer. The result, and
    the reads `(pos, len)` issued, in order. -/
def readLoop (ld : PhysicalLoad) (buf : Buffer) : Res (Option Buffer) × List (Nat × Nat) :=
  if ld.start + ld.offset < ld.stop then
    match answer (ld.start + ld.offset) (chunkLen dev ld) with
    | .error => (.err .device, [(ld.start + ld.offset, chunkLen dev ld)])
    | .short => (.ok none, [(ld.start + ld.offset, chunkLen dev ld)])
    | .full =>
      let r := readLoop { ld with offset := ld.offset + chunkLen dev ld }
        (writeBytes buf ld.offset (readBytes device (ld.start + ld.offset) (chunkLen dev ld)))
      (r.1, (ld.start + ld.offset, chunkLen dev ld) :: r.2)
  else (.ok (some buf), [])
termination_by ld.stop - ld.start - ld.offset
decreasing_by
  simp_wf
  have := dev.ioSize_pos
  simp only [chunkLen]
  omega

/-- The reads `rs` cover `[a, b)` in order: each starts where the one before
    it ended, none is empty, and the last ends at `b`. -/
def Tiles : Nat → Nat → List (Nat × Nat) → Prop
  | a, b, [] => a = b
  | a, b, (p, l) :: rs => p = a ∧ 0 < l ∧ Tiles (a + l) b rs

/-! ## Section 1: One turn of the loop -/

variable {dev device answer} {ld : PhysicalLoad} {buf : Buffer}

theorem readLoop_done (h : ¬ ld.start + ld.offset < ld.stop) :
    readLoop dev device answer ld buf = (.ok (some buf), []) := by
  rw [readLoop, if_neg h]

theorem readLoop_error (h : ld.start + ld.offset < ld.stop)
    (ha : answer (ld.start + ld.offset) (chunkLen dev ld) = .error) :
    readLoop dev device answer ld buf = (.err .device, [(ld.start + ld.offset, chunkLen dev ld)]) := by
  rw [readLoop, if_pos h, ha]

theorem readLoop_short (h : ld.start + ld.offset < ld.stop)
    (ha : answer (ld.start + ld.offset) (chunkLen dev ld) = .short) :
    readLoop dev device answer ld buf = (.ok none, [(ld.start + ld.offset, chunkLen dev ld)]) := by
  rw [readLoop, if_pos h, ha]

theorem readLoop_full (h : ld.start + ld.offset < ld.stop)
    (ha : answer (ld.start + ld.offset) (chunkLen dev ld) = .full) :
    readLoop dev device answer ld buf =
      let r := readLoop dev device answer { ld with offset := ld.offset + chunkLen dev ld }
        (writeBytes buf ld.offset (readBytes device (ld.start + ld.offset) (chunkLen dev ld)))
      (r.1, (ld.start + ld.offset, chunkLen dev ld) :: r.2) := by
  rw [readLoop, if_pos h, ha]

/-- A chunk is never empty while the loop runs, and never runs past `end`. -/
theorem chunkLen_pos (h : ld.start + ld.offset < ld.stop) : 0 < chunkLen dev ld := by
  have := dev.ioSize_pos; simp only [chunkLen]; omega

/-! ## Section 2: The loop when every read is full -/

/-- The answer of a device that reads every chunk in full. -/
def allFull : Nat → Nat → DeviceRead := fun _ _ => .full

/-- With every read full, the reads tile `[start + offset, end)`. -/
theorem tiles_readLoop : ∀ ld buf, ld.start + ld.offset ≤ ld.stop →
    Tiles (ld.start + ld.offset) ld.stop (readLoop dev device allFull ld buf).2 := by
  intro ld buf
  induction ld, buf using readLoop.induct dev device allFull with
  | case1 _ _ _ ha | case2 _ _ _ ha => cases ha
  | case3 ld buf h ha ih =>
    intro _
    rw [readLoop_full h ha]
    exact ⟨rfl, chunkLen_pos h, by
      have := ih (by simp only [chunkLen] at *; omega); simpa [Nat.add_assoc] using this⟩
  | case4 ld buf h => intro hle; rw [readLoop_done h]; show _ = _; omega

/-- With every read full, each read is `min(io_size, end - pos)` bytes at
    `pos`. -/
theorem chunk_readLoop : ∀ ld buf, ∀ c ∈ (readLoop dev device allFull ld buf).2,
    c.2 = min dev.ioSize (ld.stop - c.1) := by
  intro ld buf
  induction ld, buf using readLoop.induct dev device allFull with
  | case1 _ _ _ ha | case2 _ _ _ ha => cases ha
  | case3 ld buf h ha ih =>
    rw [readLoop_full h ha]
    rintro c (_ | ⟨_, hc⟩)
    · simp only [chunkLen]; congr 1; omega
    · exact ih c hc
  | case4 ld buf h => rw [readLoop_done h]; nofun

/-- With every read full, the loop issues `ceil((end - start - offset) /
    io_size)` reads. -/
theorem length_readLoop : ∀ ld buf, (readLoop dev device allFull ld buf).2.length =
    (ld.stop - ld.start - ld.offset + dev.ioSize - 1) / dev.ioSize := by
  have hio := dev.ioSize_pos
  intro ld buf
  induction ld, buf using readLoop.induct dev device allFull with
  | case1 _ _ _ ha | case2 _ _ _ ha => cases ha
  | case3 ld buf h ha ih =>
    rw [readLoop_full h ha]
    dsimp only at ih ⊢
    rw [List.length_cons, ih]
    simp only [chunkLen]
    by_cases hle : ld.stop - ld.start - ld.offset ≤ dev.ioSize
    · have h1 : (ld.stop - ld.start - ld.offset + dev.ioSize - 1) / dev.ioSize = 1 :=
        Nat.div_eq_of_lt_le (by omega) (by omega)
      rw [Nat.min_eq_right hle, h1, Nat.div_eq_of_lt (by omega)]
    · rw [Nat.min_eq_left (by omega), show ld.stop - ld.start - ld.offset + dev.ioSize - 1 =
        ld.stop - ld.start - (ld.offset + dev.ioSize) + dev.ioSize - 1 + dev.ioSize by omega,
        Nat.add_div_right _ hio]
  | case4 ld buf h =>
    rw [readLoop_done h, List.length_nil, Nat.div_eq_of_lt (by omega)]

/-- With every read full, the loop returns the buffer, holding the device's
    bytes of `[start + offset, end)` from `offset` on, and what it held below
    `offset`. -/
theorem result_readLoop : ∀ ld buf, ∃ buf', (readLoop dev device allFull ld buf).1 = .ok (some buf') ∧
    (∀ i < ld.offset, buf' i = buf i) ∧
    readBytes buf' ld.offset (ld.stop - ld.start - ld.offset) =
      readBytes device (ld.start + ld.offset) (ld.stop - ld.start - ld.offset) := by
  intro ld buf
  induction ld, buf using readLoop.induct dev device allFull with
  | case1 _ _ _ ha | case2 _ _ _ ha => cases ha
  | case3 ld buf h ha ih =>
    obtain ⟨buf', hr, hlow, hbytes⟩ := ih
    rw [readLoop_full h ha]
    have hlen : 0 < chunkLen dev ld := chunkLen_pos h
    have hle : chunkLen dev ld ≤ ld.stop - ld.start - ld.offset := Nat.min_le_right _ _
    refine ⟨buf', hr, fun i hi => by rw [hlow i (by simp only; omega),
      writeBytes_apply_of_lt (by simp only [length_readBytes]; omega)], ?_⟩
    have hfirst : readBytes buf' ld.offset (chunkLen dev ld) =
        readBytes device (ld.start + ld.offset) (chunkLen dev ld) := by
      have hw := @readBytes_writeBytes_self buf ld.offset
        (readBytes device (ld.start + ld.offset) (chunkLen dev ld))
      rw [length_readBytes] at hw
      rw [readBytes_ext fun i _ h2 => hlow i h2, hw]
    dsimp only at hbytes
    rw [show ld.stop - ld.start - ld.offset = chunkLen dev ld +
        (ld.stop - ld.start - (ld.offset + chunkLen dev ld)) by omega,
      readBytes_add, readBytes_add, hfirst, hbytes, Nat.add_assoc]
  | case4 ld buf h => exact ⟨buf, by rw [readLoop_done h], fun _ _ => rfl, by
      rw [show ld.stop - ld.start - ld.offset = 0 by omega]; rfl⟩

/-! ## Section 3: The loop with any device -/

theorem Tiles.le_fst : ∀ {a b : Nat} {rs : List (Nat × Nat)}, Tiles a b rs → ∀ c ∈ rs, a ≤ c.1
  | _, _, [], _ => nofun
  | _, _, _ :: _, ⟨rfl, _, h⟩ => by
    rintro c (_ | ⟨_, hc⟩)
    · exact le_refl _
    · exact Nat.le_of_add_right_le (h.le_fst c hc)

/-- Reads that tile a range are disjoint, in increasing order. -/
theorem Tiles.pairwise : ∀ {a b : Nat} {rs : List (Nat × Nat)}, Tiles a b rs →
    rs.Pairwise (fun x y => x.1 + x.2 ≤ y.1)
  | _, _, [], _ => .nil
  | _, _, _ :: _, ⟨rfl, _, h⟩ => .cons (fun c hc => h.le_fst c hc) h.pairwise

/-- Whatever the device answers, the loop issues the reads of the all-full
    loop, in order, up to the read where it stops. -/
theorem readLoop_prefix : ∀ ld buf,
    (readLoop dev device answer ld buf).2 <+: (readLoop dev device allFull ld buf).2 := by
  intro ld buf
  induction ld, buf using readLoop.induct dev device answer with
  | case1 ld buf h ha =>
    rw [readLoop_error h ha, @readLoop_full dev device allFull ld buf h rfl]; exact ⟨_, rfl⟩
  | case2 ld buf h ha =>
    rw [readLoop_short h ha, @readLoop_full dev device allFull ld buf h rfl]; exact ⟨_, rfl⟩
  | case3 ld buf h ha ih =>
    rw [readLoop_full h ha, @readLoop_full dev device allFull ld buf h rfl]
    exact List.prefix_cons_inj _ |>.2 ih
  | case4 ld buf h => simp only [readLoop_done h, List.prefix_refl]

/-- A loop whose every read was answered in full is the all-full loop. -/
theorem readLoop_eq_allFull : ∀ ld buf,
    (∀ c ∈ (readLoop dev device answer ld buf).2, answer c.1 c.2 = .full) →
    readLoop dev device answer ld buf = readLoop dev device allFull ld buf := by
  intro ld buf
  induction ld, buf using readLoop.induct dev device answer with
  | case1 ld buf h ha =>
    rw [readLoop_error h ha]; intro hf; cases ha.symm.trans (hf _ (.head _))
  | case2 ld buf h ha =>
    rw [readLoop_short h ha]; intro hf; cases ha.symm.trans (hf _ (.head _))
  | case3 ld buf h ha ih =>
    rw [readLoop_full h ha, @readLoop_full dev device allFull ld buf h rfl]
    intro hf
    rw [ih fun c hc => hf c (.tail _ hc)]
  | case4 ld buf h => intro; rw [readLoop_done h, readLoop_done h]

/-- A short read is the last one the loop issues, and the load returns
    `Ok(None)`. -/
theorem readLoop_short_last : ∀ ld buf, ∀ c ∈ (readLoop dev device answer ld buf).2,
    answer c.1 c.2 = .short →
    (readLoop dev device answer ld buf).2.getLast? = some c ∧
      (readLoop dev device answer ld buf).1 = .ok none := by
  intro ld buf
  induction ld, buf using readLoop.induct dev device answer with
  | case1 ld buf h ha =>
    rw [readLoop_error h ha]
    rintro c (_ | ⟨_, ⟨⟩⟩) hs
    cases ha.symm.trans hs
  | case2 ld buf h ha =>
    rw [readLoop_short h ha]
    rintro c (_ | ⟨_, ⟨⟩⟩) _
    exact ⟨rfl, rfl⟩
  | case3 ld buf h ha ih =>
    rw [readLoop_full h ha]
    rintro c (_ | ⟨_, hc⟩) hs
    · cases ha.symm.trans hs
    · obtain ⟨hl, hr⟩ := ih c hc hs
      exact ⟨by simp [List.getLast?_cons, hl], hr⟩
  | case4 ld buf h => rw [readLoop_done h]; nofun

/-- The physical read of `Region::load(start..end)` with the device
    answering `answer`: the reads of a device that reads every chunk in full
    tile `[start, end)` in order, are disjoint, each `min(io_size, end -
    pos)` bytes at `pos`, and there are `ceil((end - start) / io_size)` of
    them; any device is sent those reads, in order, up to where the loop
    stops; when every read it was sent was full it was sent all of them and
    the owned buffer holds the device's bytes of `[start, end)`; a short read
    is the last read and the load returns `Ok(None)`. -/
theorem physical_read_loop {start stop : Nat} (hle : start ≤ stop) :
    Tiles start stop (readLoop dev device allFull ⟨start, stop, 0⟩ buf).2 ∧
    (readLoop dev device allFull ⟨start, stop, 0⟩ buf).2.Pairwise (fun a b => a.1 + a.2 ≤ b.1) ∧
    (∀ c ∈ (readLoop dev device allFull ⟨start, stop, 0⟩ buf).2,
      c.2 = min dev.ioSize (stop - c.1)) ∧
    (readLoop dev device allFull ⟨start, stop, 0⟩ buf).2.length =
      (stop - start + dev.ioSize - 1) / dev.ioSize ∧
    (readLoop dev device answer ⟨start, stop, 0⟩ buf).2 <+:
      (readLoop dev device allFull ⟨start, stop, 0⟩ buf).2 ∧
    ((∀ c ∈ (readLoop dev device answer ⟨start, stop, 0⟩ buf).2, answer c.1 c.2 = .full) →
      (readLoop dev device answer ⟨start, stop, 0⟩ buf).2 =
        (readLoop dev device allFull ⟨start, stop, 0⟩ buf).2 ∧
      ∃ buf', (readLoop dev device answer ⟨start, stop, 0⟩ buf).1 = .ok (some buf') ∧
        readBytes buf' 0 (stop - start) = readBytes device start (stop - start)) ∧
    (∀ c ∈ (readLoop dev device answer ⟨start, stop, 0⟩ buf).2, answer c.1 c.2 = .short →
      (readLoop dev device answer ⟨start, stop, 0⟩ buf).2.getLast? = some c ∧
      (readLoop dev device answer ⟨start, stop, 0⟩ buf).1 = .ok none) := by
  have ht : Tiles start stop (readLoop dev device allFull ⟨start, stop, 0⟩ buf).2 :=
    tiles_readLoop ⟨start, stop, 0⟩ buf hle
  refine ⟨ht, ht.pairwise, chunk_readLoop _ _, length_readLoop _ _, readLoop_prefix _ _,
    fun hf => ?_, readLoop_short_last _ _⟩
  have heq := readLoop_eq_allFull _ _ hf
  obtain ⟨buf', hr, -, hb⟩ := @result_readLoop dev device ⟨start, stop, 0⟩ buf
  exact ⟨by rw [heq], buf', by rw [heq]; exact hr, hb⟩

/-- The 100 bytes `[0, 100)` read in chunks of 32 bytes: four reads. -/
theorem physical_read_loop_small :
    (readLoop Device.small Buffer.zero allFull ⟨0, 100, 0⟩ Buffer.zero).2.length = 4 :=
  (@physical_read_loop Device.small Buffer.zero allFull Buffer.zero 0 100 (by decide)).2.2.2.1

/-! ## Section 4: The loop as steps of the region system -/

/-- The state a region system is left in once its physical load `i` returned
    `r`: a buffer hands out an owned slice, a short read gives its reader
    back, and an error returns through `?` with the reader still counted. -/
def afterLoad (s : RegionSys) (i : Nat) : Res (Option Buffer) → RegionSys
  | .ok (some _) => { s with loads := s.loads.eraseIdx i, ownedSlices := s.ownedSlices + 1 }
  | .ok none =>
    { s with inner := { s.inner with physicalReaders := s.inner.physicalReaders - 1 },
             loads := s.loads.eraseIdx i }
  | _ => { s with loads := s.loads.eraseIdx i }

theorem eraseIdx_set_self {α : Type} : ∀ (l : List α) (i : Nat) (x : α),
    (l.set i x).eraseIdx i = l.eraseIdx i
  | [], _, _ | _ :: _, 0, _ => rfl
  | y :: l, i + 1, x => by
    rw [List.set_cons_succ, List.eraseIdx_cons_succ, List.eraseIdx_cons_succ, eraseIdx_set_self l i x]

theorem afterLoad_set (s : RegionSys) (i : Nat) (ld : PhysicalLoad) (r : Res (Option Buffer)) :
    afterLoad { s with loads := s.loads.set i ld } i r = afterLoad s i r := by
  unfold afterLoad; split <;> simp only [eraseIdx_set_self]

/-- The region system's physical load `i`, run one `readChunk` step per read
    the loop issues with the device's answer to it, ends in the state the
    loop's result implies: the two models of `Region::load`'s read loop
    agree. -/
theorem run_readChunks (id : RegionId) {i : Nat} : ∀ (ld : PhysicalLoad) (buf : Buffer) (s : RegionSys),
    s.loads[i]? = some ld → ld.start + ld.offset < ld.stop →
    run dev id s ((readLoop dev device answer ld buf).2.map fun c => .readChunk i (answer c.1 c.2)) =
      some (afterLoad s i (readLoop dev device answer ld buf).1) := by
  intro ld buf
  induction ld, buf using readLoop.induct dev device answer with
  | case1 ld buf h ha | case2 ld buf h ha =>
    intro s hi _
    obtain ⟨hlt, -⟩ := List.getElem?_eq_some_iff.1 hi
    simp [readLoop_error, readLoop_short, h, ha, run, step, hlt, afterLoad]
  | case3 ld buf h ha ih =>
    intro s hi _
    obtain ⟨hlt, hget⟩ := List.getElem?_eq_some_iff.1 hi
    rw [readLoop_full h ha]
    simp only [List.map_cons, run, step, dif_pos hlt, hget, ha, Option.some_bind]
    split
    · rename_i hnext
      rw [Option.some_bind, ih _ (by simpa using List.getElem?_set_self hlt) hnext, afterLoad_set]
    · rename_i hdone
      simp [@readLoop_done dev device answer { ld with offset := ld.offset + chunkLen dev ld } _ hdone,
        run, afterLoad]
  | case4 ld buf h => intro _ _ hrun; exact absurd hrun h

end RegionSys

end Foyer
