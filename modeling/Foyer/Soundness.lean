import Foyer.Views
import Foyer.Allocation
import Foyer.StorageExt

/-! # What the catalog points at

    In every state a run from the empty store reaches, the catalog tells the
    truth about the bytes, and about where its values came from: an
    `Inflight` item carries its own key and a value inserted for that key,
    and a region view lies over the bytes of an entry of its own key, with
    the item's sequence and a value inserted for that key, in the region's
    buffer while a flusher holds it and on the device once the region is
    sealed. Three things in the code keep it so. `Region::allocate` hands out
    slices at `len` and above and keeps the footer block free, so an append
    never overwrites an entry and the zeroed footer covers none.
    `take_region` removes every item of a region before `Runner::run`
    releases it to the clean queue, the only place a flusher attaches a new
    buffer from. And a key's item moves to a view only when a flusher has
    just written that key's entry there, taken from its channel, where
    `apply_writer` put the writer's own key and value.

    Hence a lookup whose key still maps to the view it read, when it loads
    that view, decodes its own key's entry and returns a value inserted for
    that key (Section 3). A lookup whose region is reclaimed and refilled
    between its two steps no longer finds its view in the catalog; that is
    the case the invariant leaves open (`Interleavings`). -/

namespace Foyer

/-- The key, value and writer of a task whose insert has not finished. -/
def Task.writes? {K V : Type} : Task K V → Option (K × V × Writer K)
  | .inserting key value _ w => some (key, value, w)
  | .minted key value w _ => some (key, value, w)
  | _ => none

namespace Store

/-! ## Section 1: The invariant -/

section Invariant

variable {K V : Type} (dev : Device) (cx : Codecs K V) (P : K → V → Prop)

/-- The bytes a load of region `r` reads: the buffer while the region has
    one (a buffered `ReadSlice`), the device otherwise (a physical read). -/
def regionBytes (st : Store K V) (r : RegionId) : Buffer :=
  (st.regions r).buffer.getD (st.device r)

/-- An entry of key `k` with sequence `seq` and a value `P` allows for `k`
    lies at `view`, in a region that is not clean, before its footer block,
    and below its length while it has a buffer. -/
def EntryAt (st : Store K V) (k : K) (seq : Sequence) (view : RegionView) : Prop :=
  view.id ∉ st.cleanRegions ∧ view.offset + view.len + dev.align ≤ dev.regionSize ∧
    ((st.regions view.id).buffer.isSome → view.offset + view.len ≤ (st.regions view.id).len) ∧
    ∃ v c, P k v ∧ readBytes (regionBytes st view.id) view.offset view.len =
      serializeEntry cx dev.align k v seq c

/-- A task whose insert has not finished holds a writer of its own key and a
    value `P` allows for that key. -/
def TaskCarries (x : Task K V) : Prop :=
  ∀ k v w, x.writes? = some (k, v, w) → w.key = some k ∧ P k v

/-- The catalog tells the truth about the store, and every value on its way
    into it, in a task, an item or a flusher's channel, is one `P` allows for
    its key. -/
structure Sound (st : Store K V) : Prop where
  capacity : ∀ r, (st.regions r).capacity = dev.regionSize
  inflight : ∀ k seq key value, st.core.catalog k = some ⟨seq, .inflight key value⟩ →
    key = k ∧ P k value
  region : ∀ k seq view, st.core.catalog k = some ⟨seq, .region view⟩ →
    EntryAt dev cx P st k seq view
  channels : ∀ (f : Nat) (es : List (Entry K V)), st.core.flusherEntryTxs[f]? = some (some es) →
    ∀ e ∈ es, P e.key e.value
  tasks : ∀ x ∈ st.tasks, TaskCarries P x

theorem sound_empty (admissions flushers : Nat) (c : Compression) :
    Sound dev cx P (empty dev admissions flushers c : Store K V) := by
  refine ⟨fun _ => rfl, fun _ _ _ _ h => (nomatch h), fun _ _ _ h => (nomatch h),
    fun f es h e he => ?_, fun _ h => (nomatch h)⟩
  simp only [empty, List.getElem?_replicate] at h
  split at h <;> cases h
  exact absurd he (List.not_mem_nil e)

variable {dev cx P}

theorem taskCarries_of_writes_none {x : Task K V} (h : x.writes? = none) : TaskCarries P x :=
  fun _ _ _ h' => nomatch h.symm.trans h'

/-- An entry stays where it is while its region's state and device bytes
    are unchanged and the region does not become clean. -/
theorem EntryAt.mono {st st' : Store K V} {k : K} {seq : Sequence} {view : RegionView}
    (h : EntryAt dev cx P st k seq view) (hr : st'.regions view.id = st.regions view.id)
    (hd : st'.device view.id = st.device view.id)
    (hc : view.id ∈ st'.cleanRegions → view.id ∈ st.cleanRegions) :
    EntryAt dev cx P st' k seq view := by
  obtain ⟨h₁, h₂, h₃, v, c, h₄⟩ := h
  exact ⟨fun h => h₁ (hc h), h₂, by rw [hr]; exact h₃, v, c, by rwa [regionBytes, hr, hd]⟩

theorem Sound.setTasks {st : Store K V} (hs : Sound dev cx P st) (tasks : List (Task K V))
    (ht : ∀ x ∈ tasks, TaskCarries P x) : Sound dev cx P { st with tasks } :=
  ⟨hs.capacity, hs.inflight, hs.region, hs.channels, ht⟩

/-- A task of `st` replaced in a state `s` that keeps the invariant. -/
theorem Sound.setTask {st s : Store K V} (hs : Sound dev cx P st) (h : Sound dev cx P s)
    (t : Nat) {x : Task K V} (hx : TaskCarries P x) :
    Sound dev cx P { s with tasks := st.tasks.set t x } :=
  h.setTasks _ fun _ hy => (List.mem_or_eq_of_mem_set hy).elim (hs.tasks _) fun h => h ▸ hx

/-- A catalog that only lost items keeps the invariant. -/
theorem Sound.setCatalog {st : Store K V} (hs : Sound dev cx P st) {c : Catalog K V}
    (hc : ∀ k i, c k = some i → st.core.catalog k = some i) :
    Sound dev cx P (st.setCatalog c) :=
  ⟨hs.capacity, fun k seq key value h => hs.inflight k seq key value (hc _ _ h),
    fun k seq view h => hs.region k seq view (hc _ _ h), hs.channels, hs.tasks⟩

theorem Sound.setCore {st : Store K V} (hs : Sound dev cx P st) {core : StoreCore K V}
    (hc : core.catalog = st.core.catalog) (hch : core.flusherEntryTxs = st.core.flusherEntryTxs) :
    Sound dev cx P { st with core } :=
  ⟨hs.capacity, fun k seq key value h => hs.inflight k seq key value (hc ▸ h),
    fun k seq view h => hs.region k seq view (hc ▸ h), hch ▸ hs.channels, hs.tasks⟩

end Invariant

/-! ## Section 2: What each step does to it -/

section Steps

variable {K V : Type} {dev : Device} {cx : Codecs K V} {P : K → V → Prop}

theorem admitTask_fst (st : Store K V) (key : K) (value : V) (ine : Bool) (w : Writer K)
    (answers : Nat → Bool) :
    (admitTask st key value ine w answers).1 =
      { st with core := (admitTask st key value ine w answers).1.core } := by
  unfold admitTask
  split
  · rfl
  · dsimp only; split <;> rfl

theorem admitTask_flusherEntryTxs (st : Store K V) (key : K) (value : V) (ine : Bool)
    (w : Writer K) (answers : Nat → Bool) :
    (admitTask st key value ine w answers).1.core.flusherEntryTxs = st.core.flusherEntryTxs := by
  unfold admitTask StoreCore.mintSequence
  split
  · rfl
  · dsimp only; split
    · rfl
    · split <;> rfl

/-- The task a check and admission leave carries the inserting task's key,
    value and writer key. -/
theorem admitTask_carries (st : Store K V) {key : K} {value : V} (ine : Bool) {w : Writer K}
    (answers : Nat → Bool) (hw : TaskCarries P (.inserting key value ine w)) :
    TaskCarries P (admitTask st key value ine w answers).2 := by
  obtain ⟨hk, hv⟩ := hw key value w rfl
  unfold admitTask
  split
  · exact taskCarries_of_writes_none rfl
  · dsimp only; split
    · exact taskCarries_of_writes_none rfl
    · rintro k v w' ⟨⟩
      exact ⟨by rw [Writer.key_judge, hk], hv⟩

/-- A flusher attaches a buffer only to a clean region, which holds no
    entry the catalog points at. -/
theorem sound_acquire {st : Store K V} (hs : Sound dev cx P st) {r : RegionId}
    {rest : List RegionId} (hc : st.cleanRegions = r :: rest) {inner : RegionInner}
    (hcap : inner.capacity = (st.regions r).capacity) (fl : List (Option RegionId)) :
    Sound dev cx P { st.setRegion r inner with cleanRegions := rest, flushers := fl } := by
  refine ⟨fun r' => ?_, hs.inflight, fun k seq view h => ?_, hs.channels, hs.tasks⟩
  · by_cases h : r' = r
    · subst h; simpa [hcap] using hs.capacity r'
    · simpa [h] using hs.capacity r'
  · have he := hs.region k seq view h
    have hne : view.id ≠ r := fun hr => he.1 (by rw [hc, hr]; exact List.mem_cons_self _ _)
    exact he.mono (by simp [hne]) rfl fun hm => by rw [hc]; exact List.mem_cons_of_mem _ hm

/-- What an append leaves of its region: the capacity, no buffer if there
    was none, and in the buffer the bytes below the old length, which stay
    below the new one. -/
theorem appendEntry_keeps (r : RegionId) (inner : RegionInner) (bytes : List UInt8) :
    (inner.appendEntry dev r bytes).1.capacity = inner.capacity ∧
    (inner.buffer = none → (inner.appendEntry dev r bytes).1.buffer = none) ∧
    ∀ B, inner.buffer = some B → ∃ B', (inner.appendEntry dev r bytes).1.buffer = some B' ∧
      ∀ o l, o + l ≤ inner.len → o + l ≤ dev.regionSize →
        o + l ≤ (inner.appendEntry dev r bytes).1.len ∧ readBytes B' o l = readBytes B o l := by
  cases hb : inner.buffer with
  | none =>
    by_cases hfit : inner.capacity < inner.len + bytes.length + dev.align
    · rw [RegionInner.appendEntry_of_not_fit hfit]
      exact ⟨rfl, fun _ => hb, nofun⟩
    · simp [RegionInner.appendEntry, RegionInner.allocate, hb, hfit]
  | some B =>
    by_cases hfit : inner.len + bytes.length + dev.align ≤ inner.capacity
    · rw [RegionInner.appendEntry_of_fit hb hfit]
      refine ⟨rfl, nofun, fun B' hB => ?_⟩
      cases hB
      exact ⟨_, rfl, fun o l h _ => ⟨by simp only; omega, readBytes_writeBytes_of_disjoint (.inl h)⟩⟩
    · rw [RegionInner.appendEntry_of_not_fit (by omega)]
      exact ⟨rfl, nofun, fun B' hB => ⟨B', hb ▸ hB, fun _ _ _ h => ⟨h, rfl⟩⟩⟩

/-- An append keeps the invariant, whatever `allocate` answers. -/
theorem sound_append {st : Store K V} (hs : Sound dev cx P st) (r : RegionId)
    (bytes : List UInt8) :
    Sound dev cx P (st.setRegion r ((st.regions r).appendEntry dev r bytes).1) := by
  obtain ⟨hcap, hnone, hsome⟩ := @appendEntry_keeps dev r (st.regions r) bytes
  refine ⟨fun r' => ?_, hs.inflight, fun k seq view h => ?_, hs.channels, hs.tasks⟩
  · by_cases h : r' = r
    · subst h; simp [hcap, hs.capacity]
    · simp [h, hs.capacity]
  · have he := hs.region k seq view h
    by_cases hr : view.id = r
    · obtain ⟨h₁, h₂, h₃, v, c, h₄⟩ := he
      subst hr
      simp only [EntryAt, regionBytes, setRegion_regions, if_true] at h₄ ⊢
      cases hb : (st.regions view.id).buffer with
      | none =>
        rw [hb] at h₄
        exact ⟨h₁, h₂, by simp [hnone hb], v, c, by rw [hnone hb]; exact h₄⟩
      | some B =>
        rw [hb] at h₄
        obtain ⟨B', hB', hkeep⟩ := hsome B hb
        obtain ⟨hlen, hbytes⟩ := hkeep _ _ (h₃ (by simp [hb])) (by omega)
        exact ⟨h₁, h₂, fun _ => hlen, v, c, h₄.1, by rw [hB']; exact hbytes.trans h₄.2⟩
    · exact he.mono (by simp [hr]) rfl id

/-- An append `allocate` answers with `Ok`: it fit before the footer block,
    went into the buffer at the region's length, and the slice says so. -/
theorem appendEntry_ok {r : RegionId} {inner inner' : RegionInner} {bytes : List UInt8}
    {slice : WriteSlice} (h : inner.appendEntry dev r bytes = (inner', .ok (.ok slice))) :
    ∃ B, inner.buffer = some B ∧ inner.len + bytes.length + dev.align ≤ inner.capacity ∧
      inner'.buffer = some (writeBytes B inner.len bytes) ∧ inner'.len = inner.len + bytes.length ∧
      slice = ⟨r, inner.version, inner.len, inner.len, bytes.length⟩ := by
  cases hb : inner.buffer with
  | none =>
    by_cases hfit : inner.capacity < inner.len + bytes.length + dev.align <;>
      simp [RegionInner.appendEntry, RegionInner.allocate, hb, hfit] at h
  | some B =>
    by_cases hfit : inner.len + bytes.length + dev.align ≤ inner.capacity
    · rw [RegionInner.appendEntry_of_fit hb hfit] at h
      cases h
      exact ⟨B, rfl, hfit, rfl, rfl, rfl⟩
    · simp [RegionInner.appendEntry, RegionInner.allocate, hb,
        show inner.capacity < inner.len + bytes.length + dev.align by omega] at h

/-- Sealing a region writes its buffer to the device with the footer block
    zeroed; every entry lies before the footer block. -/
theorem sound_sealRegion {st st' : Store K V} {f r : Nat} (hs : Sound dev cx P st)
    (h : sealRegion dev st f r = some st') : Sound dev cx P st' := by
  simp only [sealRegion, bind, Option.bind_eq_some, Option.some.injEq] at h
  obtain ⟨⟨inner, B⟩, hd, rfl⟩ := h
  obtain ⟨B', hb, hd⟩ := Option.map_eq_some'.1 hd
  cases hd
  refine ⟨fun r' => ?_, hs.inflight, fun k seq view h => ?_, hs.channels, hs.tasks⟩
  · by_cases h : r' = r
    · subst h; simpa using hs.capacity r'
    · simpa [h] using hs.capacity r'
  · have he := hs.region k seq view h
    by_cases hr : view.id = r
    · obtain ⟨h₁, h₂, h₃, v, c, h₄⟩ := he
      subst hr
      simp only [regionBytes, hb, Option.getD_some] at h₄
      refine ⟨h₁, h₂, by simp, v, c, h₄.1, ?_⟩
      simp only [regionBytes, setRegion_regions, if_true, Option.getD_none, sealedBytes]
      rw [readBytes_writeBytes_of_disjoint (.inl (by omega))]
      exact h₄.2
    · exact he.mono (by simp [hr]) (by simp [hr]) id

/-- `Runner::run` takes the region's items out of the catalog before the
    region goes to the clean queue. -/
theorem sound_reclaim {st : Store K V} (hs : Sound dev cx P st) (r : RegionId)
    (sealed : List RegionId) :
    Sound dev cx P { st.setCatalog (st.core.catalog.takeRegion r) with
      cleanRegions := st.cleanRegions ++ [r], sealed } :=
  ⟨hs.capacity, fun k seq key value h => hs.inflight k seq key value (Catalog.mem_of_takeRegion h),
    fun k seq view h => (hs.region k seq view (Catalog.mem_of_takeRegion h)).mono rfl rfl fun hm =>
      (List.mem_append.1 hm).resolve_right fun hm =>
        Catalog.ne_of_takeRegion h (List.mem_singleton.1 hm), hs.channels, hs.tasks⟩

/-- A region a flusher holds is not clean. -/
theorem not_clean_of_flusher {st : Store K V} (hp : Placed dev st) {f r : Nat}
    (hf : (st.flushers[f]?).join = some r) : r ∉ st.cleanRegions := by
  have hnd := hp.nodup_iff.2 (List.nodup_range _)
  rw [List.Nodup, List.pairwise_append, List.pairwise_append] at hnd
  have hr : r ∈ active st :=
    List.mem_filterMap.2 ⟨some r, List.mem_iff_getElem?.2 ⟨f, Option.join_eq_some.1 hf⟩, rfl⟩
  exact fun hc => hnd.1.2.2 r hc r hr rfl

/-- After a flusher takes the first entry of its channel, every channel
    holds only entries it held before. -/
theorem mem_of_set_channel {txs : List (Option (List (Entry K V)))} {f f' : Nat} {e e' : Entry K V}
    {rest es : List (Entry K V)} (hold : txs[f]? = some (some (e :: rest)))
    (h : (txs.set f (some rest))[f']? = some (some es)) (he : e' ∈ es) :
    ∃ es₀, txs[f']? = some (some es₀) ∧ e' ∈ es₀ := by
  rw [List.getElem?_set] at h
  split at h
  · subst f'
    split at h <;> cases h
    exact ⟨_, hold, List.mem_cons_of_mem _ he⟩
  · exact ⟨es, h, he⟩

/-- `dispatch` adds one entry, at the end of one channel. -/
theorem mem_of_dispatch {txs txs' : List (Option (List (Entry K V)))} {e e' : Entry K V} {f : Nat}
    {es : List (Entry K V)} (h : dispatch txs e = some txs') (hf : txs'[f]? = some (some es))
    (he : e' ∈ es) : e' = e ∨ ∃ es₀, txs[f]? = some (some es₀) ∧ e' ∈ es₀ := by
  unfold dispatch at h
  split at h
  · cases h
  · split at h
    · rename_i q hq
      cases h
      rw [List.getElem?_set] at hf
      split at hf
      · subst f
        split at hf <;> cases hf
        rcases List.mem_append.1 he with he | he
        · exact .inr ⟨q, hq, he⟩
        · exact .inl (List.mem_singleton.1 he)
      · exact .inr ⟨es, hf, he⟩
    · cases h

variable [DecidableEq K]

/-- A commit brings in only the `Inflight` item of the writer's own key. -/
theorem commit_catalog_key (c : StoreCore K V) (w : Writer K) (seq : Sequence) (value : V) {k : K}
    {i : Item K V} (h : (c.commit w seq value).1.catalog k = some i) :
    c.catalog k = some i ∨ (w.key = some k ∧ i = ⟨seq, .inflight k value⟩) := by
  unfold StoreCore.commit at h
  split at h
  · exact .inl h
  · rename_i key hkey
    dsimp only at h
    split at h <;>
      exact (Catalog.mem_or_eq_of_insert h).imp_right fun ⟨hk, hi⟩ => ⟨hk ▸ hkey, by rw [hi, hk]⟩

/-- A commit sends only the writer's own key and value to a flusher. -/
theorem commit_channel_mem (c : StoreCore K V) (w : Writer K) (seq : Sequence) (value : V)
    {f : Nat} {es : List (Entry K V)} {e : Entry K V}
    (h : (c.commit w seq value).1.flusherEntryTxs[f]? = some (some es)) (he : e ∈ es) :
    (∃ es₀, c.flusherEntryTxs[f]? = some (some es₀) ∧ e ∈ es₀) ∨
      (w.key = some e.key ∧ e.value = value) := by
  unfold StoreCore.commit at h
  split at h
  · exact .inl ⟨es, h, he⟩
  · rename_i key hkey
    dsimp only at h
    split at h
    · rename_i txs hd
      rcases mem_of_dispatch hd h he with rfl | h
      · exact .inr ⟨hkey, rfl⟩
      · exact .inl h
    · exact .inl ⟨es, h, he⟩

theorem sound_commit {st : Store K V} (hs : Sound dev cx P st) {key : K} {value : V}
    {w : Writer K} (seq : Sequence) (hw : w.key = some key) (hv : P key value) :
    Sound dev cx P { st with core := (st.core.commit w seq value).1 } := by
  refine ⟨hs.capacity, fun k s key' v h => ?_, fun k s view h => ?_, fun f es h e he => ?_,
    hs.tasks⟩
  · rcases commit_catalog_key _ _ _ _ h with h | ⟨hk, h⟩
    · exact hs.inflight k s key' v h
    · cases h; cases hw.symm.trans hk; exact ⟨rfl, hv⟩
  · rcases commit_catalog_key _ _ _ _ h with h | ⟨-, h⟩
    · exact hs.region k s view h
    · cases h
  · rcases commit_channel_mem _ _ _ _ h he with ⟨es₀, h, he⟩ | ⟨hk, rfl⟩
    · exact hs.channels f es₀ h e he
    · cases hw.symm.trans hk; exact hv

/-- A flusher's append that `allocate` accepts keeps the invariant: the key's
    item moves to the view of the bytes just written. -/
theorem sound_flushOk {st : Store K V} (hs : Sound dev cx P st) {r : RegionId} {e : Entry K V}
    {inner : RegionInner} {slice : WriteSlice} (hclean : r ∉ st.cleanRegions)
    (hP : P e.key e.value)
    (happ : (st.regions r).appendEntry dev r (e.serialize cx dev.align) = (inner, .ok (.ok slice)))
    {txs : List (Option (List (Entry K V)))}
    (htxs : ∀ (f : Nat) (es : List (Entry K V)), txs[f]? = some (some es) →
      ∀ e ∈ es, P e.key e.value) :
    Sound dev cx P { st.setRegion r inner with core := { st.core with
      catalog := st.core.catalog.migrate e.key e.sequence
        ⟨r, slice.offset, (e.serialize cx dev.align).length, slice.version⟩,
      flusherEntryTxs := txs } } := by
  have hs₁ := sound_append hs r (e.serialize cx dev.align)
  rw [happ] at hs₁
  obtain ⟨B, hb, hfit, hB, hlen, rfl⟩ := appendEntry_ok happ
  refine ⟨hs₁.capacity, fun k seq key value h => ?_, fun k seq view h => ?_, htxs, hs.tasks⟩
  · rcases Catalog.mem_or_eq_of_migrate h with h | ⟨-, h⟩
    · exact hs₁.inflight k seq key value h
    · cases h
  · rcases Catalog.mem_or_eq_of_migrate h with h | ⟨rfl, hj⟩
    · exact hs₁.region k seq view h
    · cases hj
      have hcap := hs.capacity r
      dsimp only [EntryAt]
      refine ⟨hclean, by omega, fun _ => by simp [hlen], e.value, e.compression, hP, ?_⟩
      simp only [regionBytes, setRegion_regions, if_true, hB, Option.getD_some]
      exact readBytes_writeBytes_self

/-- Every step keeps the invariant, as long as what an `insert` brings is
    allowed. -/
theorem sound_step {st st' : Store K V} {a : StoreAction K V} (h : step dev cx st a = some st')
    (hP : ∀ k v ine, a = .insert k v ine → P k v) (hp : Placed dev st) (hs : Sound dev cx P st) :
    Sound dev cx P st' := by
  cases a with
  | lookup key =>
    cases h
    refine hs.setTasks _ fun x hx => ?_
    rcases List.mem_append.1 hx with hx | hx
    · exact hs.tasks x hx
    · rw [List.mem_singleton.1 hx]
      apply taskCarries_of_writes_none
      unfold lookupStart; split <;> rfl
  | insert key value ine =>
    cases h
    refine hs.setTasks _ fun x hx => ?_
    rcases List.mem_append.1 hx with hx | hx
    · exact hs.tasks x hx
    · rw [List.mem_singleton.1 hx]
      rintro k v w ⟨⟩
      exact ⟨rfl, hP _ _ _ rfl⟩
  | load t answer =>
    simp only [step] at h
    split at h
    · rename_i key view _
      cases h
      have h₁ : Sound dev cx P (lookupLoad dev cx st key view answer).1 := by
        rcases lookupLoad_cases st key view answer with he | he <;> rw [he]
        exacts [hs, hs.setCatalog fun _ _ h => Catalog.mem_of_remove h]
      exact hs.setTask h₁ t (taskCarries_of_writes_none rfl)
    · cases h
  | judge t answers =>
    simp only [step] at h
    split at h
    · rename_i key value ine w ht
      cases h
      have h₁ : Sound dev cx P (admitTask st key value ine w answers).1 := by
        rw [admitTask_fst]
        exact hs.setCore (admitTask_catalog _ _ _ _ _ _) (admitTask_flusherEntryTxs _ _ _ _ _ _)
      exact hs.setTask h₁ t (admitTask_carries st ine answers (hs.tasks _ (List.getElem?_mem ht)))
    · cases h
  | commit t =>
    simp only [step] at h
    split at h
    · rename_i key value w seq ht
      cases h
      obtain ⟨hw, hv⟩ := hs.tasks _ (List.getElem?_mem ht) key value w rfl
      exact hs.setTask (sound_commit hs seq hw hv) t (taskCarries_of_writes_none rfl)
    · cases h
  | remove key => cases h; exact hs.setCatalog fun _ _ h => Catalog.mem_of_remove h
  | clear => cases h; exact hs.setCatalog fun _ _ h => nomatch h
  | acquire f buf =>
    simp only [step] at h
    split at h
    · rename_i r rest _ hc
      simp only [bind, Option.bind_eq_some, Option.some.injEq] at h
      obtain ⟨inner, hatt, rfl⟩ := h
      exact sound_acquire hs hc (RegionInner.attachBuffer_eq_some dev hatt).2.2.1 _
    · cases h
  | flush f =>
    obtain ⟨r, e, rest, inner, res, hf, hes, happ, ⟨slice, rfl, rfl⟩ | hseal⟩ := flushEntry_cases h
    · have hes := Option.join_eq_some.1 hes
      exact sound_flushOk hs (not_clean_of_flusher hp hf)
        (hs.channels f _ hes e (List.mem_cons_self _ _)) happ fun f' es h e' he =>
          let ⟨es₀, h₀, he₀⟩ := mem_of_set_channel hes h he
          hs.channels f' es₀ h₀ e' he₀
    · have h₁ := sound_append hs r (e.serialize cx dev.align)
      rw [happ] at h₁
      exact sound_sealRegion h₁ hseal
  | «seal» f =>
    simp only [step, bind, Option.bind_eq_some] at h
    obtain ⟨_, -, h⟩ := h
    exact sound_sealRegion hs h
  | reclaim r =>
    simp only [step] at h
    split at h
    · cases h; exact sound_reclaim hs r _
    · cases h

theorem sound_run {st st' : Store K V} {as : List (StoreAction K V)}
    (hr : run dev cx st as = some st') (hP : ∀ k v ine, StoreAction.insert k v ine ∈ as → P k v)
    (hp : Placed dev st) (hs : Sound dev cx P st) : Sound dev cx P st' := by
  induction as generalizing st with
  | nil => cases hr; exact hs
  | cons a as ih =>
    simp only [run, Option.bind_eq_some] at hr
    obtain ⟨s₁, h₁, hr⟩ := hr
    exact ih hr (fun k v ine h => hP k v ine (List.mem_cons_of_mem _ h)) (placed_step h₁ hp)
      (sound_step h₁ (fun k v ine h => hP k v ine (h ▸ List.mem_cons_self _ _)) hp hs)

end Steps

/-! ## Section 3: Over every run -/

section Runs

variable {K V : Type} [DecidableEq K] {dev : Device} {cx : Codecs K V}

/-- In every state a run from the empty store reaches, an `Inflight` item
    carries its own key and a value an `insert` of the run gave that key, and
    a region view of key `k` with sequence `seq` lies before the footer block
    of a region that is not clean, over the bytes of an entry of `k` with
    sequence `seq` and a value an `insert` of the run gave `k`. -/
theorem catalog_holds_inserted_entries {admissions flushers : Nat} {comp : Compression}
    {st : Store K V} {as : List (StoreAction K V)}
    (hr : run dev cx (empty dev admissions flushers comp) as = some st) (k : K) (seq : Sequence) :
    (∀ key value, st.core.catalog k = some ⟨seq, .inflight key value⟩ →
      key = k ∧ ∃ ine, StoreAction.insert k value ine ∈ as) ∧
    ∀ view, st.core.catalog k = some ⟨seq, .region view⟩ →
      view.id ∉ st.cleanRegions ∧ view.offset + view.len + dev.align ≤ dev.regionSize ∧
      ∃ v c, (∃ ine, StoreAction.insert k v ine ∈ as) ∧
        readBytes (regionBytes st view.id) view.offset view.len =
          serializeEntry cx dev.align k v seq c := by
  have hs : Sound dev cx (fun k v => ∃ ine, StoreAction.insert k v ine ∈ as) st :=
    sound_run hr (fun k v ine h => ⟨ine, h⟩) (placed_empty admissions flushers comp)
      (sound_empty dev cx _ _ _ _)
  refine ⟨hs.inflight k seq, fun view h => ?_⟩
  obtain ⟨h₁, h₂, -, h₄⟩ := hs.region k seq view h
  exact ⟨h₁, h₂, h₄⟩

/-- `insert(1, [7])` is admitted and flushed into region 0 at offset 32, and
    `lookup(1)` then finds that view. -/
def flushedTrace : List (StoreAction Nat (List UInt8)) :=
  [.insert 1 [7] false, .judge 0 admitAll, .commit 0, .acquire 0 Buffer.zero, .flush 0, .lookup 1]

theorem catalog_holds_inserted_entries_flushed :
    ∃ st, run Device.small Codecs.byteValues oneFlusherBytes flushedTrace = some st ∧
      ((∀ key value, st.core.catalog 1 = some ⟨0, .inflight key value⟩ →
        key = 1 ∧ ∃ ine, StoreAction.insert 1 value ine ∈ flushedTrace) ∧
      ∀ view, st.core.catalog 1 = some ⟨0, .region view⟩ →
        view.id ∉ st.cleanRegions ∧
        view.offset + view.len + Device.small.align ≤ Device.small.regionSize ∧
        ∃ v c, (∃ ine, StoreAction.insert 1 v ine ∈ flushedTrace) ∧
          readBytes (regionBytes st view.id) view.offset view.len =
            serializeEntry Codecs.byteValues Device.small.align 1 v 0 c) :=
  ⟨_, rfl, @catalog_holds_inserted_entries Nat (List UInt8) _ Device.small Codecs.byteValues 0 1
    .none _ flushedTrace rfl 1 0⟩

/-- A load of a view at version `0` that ends within the region's capacity,
    from a device that reads every chunk in full, decodes the bytes
    `regionBytes` holds there, buffered or physical. -/
theorem lookupLoad_of_bytes {st : Store K V} {key k : K} {view : RegionView} {v : V}
    {answer : Nat → Nat → DeviceRead} (hfull : ∀ pos len, answer pos len = .full)
    (hv0 : view.version = 0) (hcap : view.offset + view.len ≤ (st.regions view.id).capacity)
    (hread : readEntry cx (readBytes (regionBytes st view.id) view.offset view.len) = .ok (k, v)) :
    lookupLoad dev cx st key view answer = (st, .ok (some v)) := by
  obtain rfl : answer = RegionSys.allFull := funext fun _ => funext (hfull _)
  cases hb : (st.regions view.id).buffer with
  | some B =>
    simp only [regionBytes, hb, Option.getD_some] at hread
    simp [lookupLoad, RegionInner.loadStart, hv0, hb, hcap, decodeLoaded, hread]
  | none =>
    -- the chunk loop copies the view's bytes from the device
    obtain ⟨buf, hl, -, hbytes⟩ := @RegionSys.result_readLoop dev (st.device view.id)
      ⟨view.offset, view.offset + view.len, 0⟩ Buffer.zero
    simp only [Nat.add_sub_cancel_left, Nat.sub_zero, Nat.add_zero] at hbytes
    simp only [regionBytes, hb, Option.getD_none] at hread
    simp [lookupLoad, RegionInner.loadStart, hv0, hb, hl, decodeLoaded, hbytes, hread]

/-- In every state a run from the empty store reaches, a lookup of `k`
    between its two steps whose key still maps to the view it read loads the
    entry of `k` there and returns a value an `insert` of the run gave `k`,
    with codecs that read back what they write and a decompressor that
    undoes the compressor, on a device whose regions fit a `u32` length and
    that reads every chunk in full. -/
theorem load_returns_inserted_value (h32 : dev.regionSize ≤ 2 ^ 32) {k : K}
    (hk : cx.key.read (cx.key.write k) = .ok k) (hv : ∀ v, cx.value.read (cx.value.write v) = .ok v)
    (hc : ∀ c v, c ≠ .none →
      cx.decompress c (cx.compress c (cx.value.write v)) = .ok (cx.value.write v))
    {admissions flushers : Nat} {comp : Compression} {st : Store K V} {as : List (StoreAction K V)}
    (hr : run dev cx (empty dev admissions flushers comp) as = some st) {t : Nat} {seq : Sequence}
    {view : RegionView} (ht : st.tasks[t]? = some (.loading k view))
    (hi : st.core.catalog k = some ⟨seq, .region view⟩) {answer : Nat → Nat → DeviceRead}
    (hfull : ∀ pos len, answer pos len = .full) :
    ∃ v c, (∃ ine, StoreAction.insert k v ine ∈ as) ∧
      readBytes (regionBytes st view.id) view.offset view.len =
        serializeEntry cx dev.align k v seq c ∧
      step dev cx st (.load t answer) =
        some { st with tasks := st.tasks.set t (.looked k (.ok (some v))) } := by
  have hs : Sound dev cx (fun k v => ∃ ine, StoreAction.insert k v ine ∈ as) st :=
    sound_run hr (fun k v ine h => ⟨ine, h⟩) (placed_empty admissions flushers comp)
      (sound_empty dev cx _ _ _ _)
  obtain ⟨-, hend, -, v, c, hins, hbytes⟩ := hs.region k seq view hi
  have hlen : view.len = (serializeEntry cx dev.align k v seq c).length := by
    rw [← hbytes, length_readBytes]
  have hv0 := (atVersionZero_run hr (atVersionZero_empty admissions flushers comp)).catalog k _ view hi rfl
  have hread : readEntry cx (readBytes (regionBytes st view.id) view.offset view.len) = .ok (k, v) := by
    rw [hbytes]
    exact readEntry_serializeEntry cx k v seq c dev.align hk (hv v) (hc c v)
      (lt_of_lt_of_le (by have := dev.align_pos; omega) h32)
  have hcap := hs.capacity view.id
  exact ⟨v, c, hins, hbytes, by simp only [step, ht, lookupLoad_of_bytes hfull hv0 (by omega) hread]⟩

theorem load_returns_inserted_value_flushed :
    ∃ st view, run Device.small Codecs.byteValues oneFlusherBytes flushedTrace = some st ∧
      st.tasks[1]? = some (.loading 1 view) ∧ st.core.catalog 1 = some ⟨0, .region view⟩ ∧
      ∃ v c, (∃ ine, StoreAction.insert 1 v ine ∈ flushedTrace) ∧
        readBytes (regionBytes st view.id) view.offset view.len =
          serializeEntry Codecs.byteValues Device.small.align 1 v 0 c ∧
        step Device.small Codecs.byteValues st (.load 1 RegionSys.allFull) =
          some { st with tasks := st.tasks.set 1 (.looked 1 (.ok (some v))) } :=
  ⟨_, _, rfl, rfl, rfl, @load_returns_inserted_value Nat (List UInt8) _ Device.small
    Codecs.byteValues (by decide) 1 rfl (fun _ => rfl) (fun _ _ _ => rfl) 0 1 .none _ flushedTrace
    rfl 1 0 _ (by rfl) (by rfl) RegionSys.allFull fun _ _ => rfl⟩

end Runs

end Store

end Foyer
