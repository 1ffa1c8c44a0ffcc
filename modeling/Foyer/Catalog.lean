import Foyer.Region

/-! # The catalog

    The in-memory index from keys to where their latest entry is: in memory,
    waiting for a flusher (`Inflight`), or in a region (`Region { view }`).
    `catalog.rs` is not among the sources, so its operations follow §4.3 of
    the spec. Its shards (`2 ^ catalog_bits` maps chosen by a hash of the
    key, each under its own mutex) are not modelled: every operation touches
    one key's shard under its lock, so the catalog behaves as one map whose
    operations are atomic. -/

namespace Foyer

/-- `Sequence` (`u64`). -/
abbrev Sequence := UInt64

/-- Modelled from the spec (§3): the `RegionView` of an entry, its region,
    offset, length and the version the region had when it was written. -/
structure RegionView where
  id : RegionId
  offset : Nat
  len : Nat
  version : Version
  deriving DecidableEq, Repr

/-- `Index`. -/
inductive Index (K V : Type) where
  | inflight (key : K) (value : V)
  | region (view : RegionView)
  deriving DecidableEq, Repr

/-- `Item`. -/
structure Item (K V : Type) where
  sequence : Sequence
  index : Index K V
  deriving DecidableEq, Repr

/-- Modelled from the spec (§4.3): the catalog as a map from keys to items. -/
def Catalog (K V : Type) := K → Option (Item K V)

namespace Catalog

variable {K V : Type} [DecidableEq K]

/-- The empty catalog (`Catalog::new`, and what `clear` leaves). -/
def empty : Catalog K V := fun _ => none

/-- `key` mapped to `item`, everything else unchanged. -/
def set (c : Catalog K V) (key : K) (item : Option (Item K V)) : Catalog K V :=
  fun k => if k = key then item else c k

@[simp] theorem set_self (c : Catalog K V) (k : K) (i : Option (Item K V)) : c.set k i k = i := by
  simp [set]

@[simp] theorem set_ne (c : Catalog K V) {k k' : K} (i : Option (Item K V)) (h : k' ≠ k) :
    c.set k i k' = c k' := by
  simp [set, h]

/-- Modelled from the spec (§4.3): `Catalog::insert`. The new item replaces the
    old one only if its sequence is greater; an equal or smaller one is
    dropped. -/
def insert (c : Catalog K V) (key : K) (item : Item K V) : Catalog K V :=
  match c key with
  | some old => if old.sequence < item.sequence then c.set key (some item) else c
  | none => c.set key (some item)

/-- Modelled from the spec (§4.3): `Catalog::remove` takes the key's item out,
    whatever it is. -/
def remove (c : Catalog K V) (key : K) : Catalog K V × Option (Item K V) := (c.set key none, c key)

/-- Is the item in region `r`? -/
def Item.inRegion (r : RegionId) (i : Item K V) : Bool :=
  match i.index with
  | .region view => view.id == r
  | .inflight _ _ => false

/-- Modelled from the spec (§4.3): `Catalog::take_region` removes every item in
    the region. The reclaimer drops the vector it returns (reinsertion is a
    `TODO`), so only the catalog it leaves is kept. -/
def takeRegion (c : Catalog K V) (r : RegionId) : Catalog K V :=
  fun k => match c k with
    | some i => if Item.inRegion r i then none else some i
    | none => none

/-- Modelled from the spec (§4.6, step 4): once the flusher has written the
    entry of sequence `seq`, the key's item, if it is still that entry's
    (same sequence), points to the region view. A newer item, or none, is
    left as it is. -/
def migrate (c : Catalog K V) (key : K) (seq : Sequence) (view : RegionView) : Catalog K V :=
  match c key with
  | some old => if old.sequence = seq then c.set key (some ⟨seq, .region view⟩) else c
  | none => c

theorem insert_other (c : Catalog K V) {k k' : K} (item : Item K V) (h : k' ≠ k) :
    c.insert k item k' = c k' := by
  unfold insert
  cases c k with
  | none => simp [h]
  | some old => simp only; split <;> simp [h]

/-- After an insert the key holds an item at least as new as the inserted one. -/
theorem insert_self_sequence (c : Catalog K V) (k : K) (item : Item K V) :
    ∃ i, c.insert k item k = some i ∧ item.sequence ≤ i.sequence ∧
      (i = item ∨ c k = some i) := by
  unfold insert
  cases h : c k with
  | none => exact ⟨item, by simp, UInt64.le_refl _, .inl rfl⟩
  | some old =>
    simp only
    split
    · exact ⟨item, by simp, UInt64.le_refl _, .inl rfl⟩
    · rename_i hlt; exact ⟨old, h, UInt64.not_lt.1 hlt, .inr rfl⟩

@[simp] theorem isSome_migrate (c : Catalog K V) (k : K) (seq : Sequence) (view : RegionView)
    (k' : K) : (c.migrate k seq view k').isSome = (c k').isSome := by
  unfold migrate
  cases h : c k with
  | none => rfl
  | some old =>
    simp only
    split
    · by_cases hk : k' = k <;> simp [hk, h]
    · rfl

@[simp] theorem remove_fst_ne (c : Catalog K V) {k k' : K} (h : k' ≠ k) :
    (c.remove k).1 k' = c k' := set_ne c none h

/-- An item after an insert is the inserted one or was there before. -/
theorem eq_or_mem_of_insert {c : Catalog K V} {k k' : K} {i j : Item K V}
    (h : c.insert k i k' = some j) : c k' = some j ∨ j = i := by
  by_cases hk : k' = k
  · subst hk
    obtain ⟨j', hj', -, hj⟩ := insert_self_sequence c k' i
    rw [h, Option.some.injEq] at hj'
    subst hj'
    exact hj.symm
  · exact .inl (by rwa [insert_other c i hk] at h)

theorem mem_of_remove {c : Catalog K V} {k k' : K} {j : Item K V}
    (h : (c.remove k).1 k' = some j) : c k' = some j := by
  by_cases hk : k' = k
  · subst hk; simp [remove] at h
  · rwa [remove_fst_ne c hk] at h

omit [DecidableEq K] in
theorem mem_of_takeRegion {c : Catalog K V} {r : RegionId} {k : K} {j : Item K V}
    (h : c.takeRegion r k = some j) : c k = some j := by
  unfold takeRegion at h
  split at h
  · split at h
    · cases h
    · rename_i heq _; rw [heq, h]
  · cases h

/-- An item after a migrate is the migrated one or was there before. -/
theorem eq_or_mem_of_migrate {c : Catalog K V} {k k' : K} {seq : Sequence} {view : RegionView}
    {j : Item K V} (h : c.migrate k seq view k' = some j) :
    c k' = some j ∨ j = ⟨seq, .region view⟩ := by
  unfold migrate at h
  cases hc : c k with
  | none => rw [hc] at h; exact .inl h
  | some old =>
    rw [hc] at h
    dsimp only at h
    by_cases hs : old.sequence = seq
    · rw [if_pos hs] at h
      by_cases hk : k' = k
      · subst hk; simp only [set_self, Option.some.injEq] at h; exact .inr h.symm
      · rw [set_ne _ _ hk] at h; exact .inl h
    · rw [if_neg hs] at h; exact .inl h

/-- An item after an insert was there before, or is the inserted one under
    the inserted key. -/
theorem mem_or_eq_of_insert {c : Catalog K V} {k k' : K} {i j : Item K V}
    (h : c.insert k i k' = some j) : c k' = some j ∨ (k' = k ∧ j = i) := by
  by_cases hk : k' = k
  · subst hk; exact (eq_or_mem_of_insert h).imp_right fun h => ⟨rfl, h⟩
  · exact .inl (by rwa [insert_other c i hk] at h)

theorem migrate_other (c : Catalog K V) {k k' : K} (seq : Sequence) (view : RegionView)
    (h : k' ≠ k) : c.migrate k seq view k' = c k' := by
  unfold migrate
  cases c k with
  | none => rfl
  | some old =>
    dsimp only
    split
    · exact set_ne _ _ h
    · rfl

/-- An item after a migrate was there before, or is the migrated view under
    the migrated key. -/
theorem mem_or_eq_of_migrate {c : Catalog K V} {k k' : K} {seq : Sequence} {view : RegionView}
    {j : Item K V} (h : c.migrate k seq view k' = some j) :
    c k' = some j ∨ (k' = k ∧ j = ⟨seq, .region view⟩) := by
  by_cases hk : k' = k
  · subst hk; exact (eq_or_mem_of_migrate h).imp_right fun h => ⟨rfl, h⟩
  · exact .inl (by rwa [migrate_other c seq view hk] at h)

omit [DecidableEq K] in
/-- `take_region r` leaves no view of region `r`. -/
theorem ne_of_takeRegion {c : Catalog K V} {r : RegionId} {k : K} {seq : Sequence}
    {view : RegionView} (h : c.takeRegion r k = some ⟨seq, .region view⟩) : view.id ≠ r := by
  unfold takeRegion at h
  split at h
  · split at h
    · cases h
    · rename_i hin; cases h; simpa [Item.inRegion] using hin
  · cases h

end Catalog

end Foyer
