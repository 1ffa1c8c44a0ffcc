import Foyer.Writer

/-! # The insert paths of `StorageExt` and `ForceStorageExt`

    Every insert of the storage traits is a writer's life: `insert` finishes
    a writer of weight `key.serialized_len() + value.serialized_len()`;
    `insert_with` judges the writer first and calls `f` for the value only
    when it is admitted, so that a rejected entry costs no fetch; the
    `_if_not_exists` forms first ask `exists`; the `force` forms clear the
    writer's judgement mask before anything else.

    Judging first changes nothing the store or the policies see: `judge` is
    memoised, so `finish` after an admitting `judge` asks no policy again,
    and `insert_with` with a fetch that succeeds is `insert` (Section 2),
    as long as the caller keeps the documented contract on `weight`. A
    forced insert is admitted whatever the policies answer: it returns
    `Ok(false)` only when the fetch fails. The `_future` forms differ from
    theirs only in awaiting `f`; the model takes `f`'s outcome, `some value`
    or `none` for an error. -/

namespace Foyer

namespace StoreCore

variable {K V : Type} [DecidableEq K]

/-! ## Section 1: The insert paths -/

/-- `StorageExt::insert`: a writer weighed by the codecs, finished with the
    value. -/
def insert (cx : Codecs K V) (st : StoreCore K V) (key : K) (value : V) (answers : Nat → Bool) :
    StoreCore K V × List (PolicyCall K) × Res Bool :=
  st.applyWriter (st.writer key ((cx.key.write key).length + (cx.value.write value).length))
    value answers

/-- `StorageExt::insert_if_not_exists`. -/
def insertIfNotExists (cx : Codecs K V) (st : StoreCore K V) (key : K) (value : V)
    (answers : Nat → Bool) : StoreCore K V × List (PolicyCall K) × Res Bool :=
  if (st.catalog key).isSome then (st, [], .ok false) else st.insert cx key value answers

/-- The body `insert_with` and `insert_force_with` share once they hold
    their writer: `judge`, then the fetch `f`, then `finish`. A writer judged
    false, or a failed fetch, returns `Ok(false)` and the writer is dropped. -/
def judgeThenFinish (st : StoreCore K V) (w : Writer K) (f : Option V) (answers : Nat → Bool) :
    StoreCore K V × List (PolicyCall K) × Res Bool :=
  let (w, calls, admitted) := w.judge st.admissions answers
  if !admitted then (st, calls ++ w.drop st.admissions, .ok false)
  else match f with
    | none => (st, calls ++ w.drop st.admissions, .ok false)
    | some value =>
      let (st', calls', r) := st.applyWriter w value answers
      (st', calls ++ calls', r)

/-- `StorageExt::insert_with`. -/
def insertWith (st : StoreCore K V) (key : K) (f : Option V) (weight : Nat)
    (answers : Nat → Bool) : StoreCore K V × List (PolicyCall K) × Res Bool :=
  st.judgeThenFinish (st.writer key weight) f answers

/-- `StorageExt::insert_with_future`: `insert_with` with the awaited fetch. -/
def insertWithFuture (st : StoreCore K V) (key : K) (f : Option V) (weight : Nat)
    (answers : Nat → Bool) : StoreCore K V × List (PolicyCall K) × Res Bool :=
  st.insertWith key f weight answers

/-- `StorageExt::insert_if_not_exists_with`. -/
def insertIfNotExistsWith (st : StoreCore K V) (key : K) (f : Option V) (weight : Nat)
    (answers : Nat → Bool) : StoreCore K V × List (PolicyCall K) × Res Bool :=
  if (st.catalog key).isSome then (st, [], .ok false) else st.insertWith key f weight answers

/-- `StorageExt::insert_if_not_exists_with_future`. -/
def insertIfNotExistsWithFuture (st : StoreCore K V) (key : K) (f : Option V) (weight : Nat)
    (answers : Nat → Bool) : StoreCore K V × List (PolicyCall K) × Res Bool :=
  st.insertIfNotExistsWith key f weight answers

/-- `ForceStorageExt::insert_force`: `set_force` (the writer's `force`), then
    `finish`. -/
def insertForce (cx : Codecs K V) (st : StoreCore K V) (key : K) (value : V)
    (answers : Nat → Bool) : StoreCore K V × List (PolicyCall K) × Res Bool :=
  st.applyWriter (st.writer key ((cx.key.write key).length + (cx.value.write value).length)).force
    value answers

/-- `ForceStorageExt::insert_force_with`. -/
def insertForceWith (st : StoreCore K V) (key : K) (f : Option V) (weight : Nat)
    (answers : Nat → Bool) : StoreCore K V × List (PolicyCall K) × Res Bool :=
  st.judgeThenFinish (st.writer key weight).force f answers

/-- `ForceStorageExt::insert_force_with_future`. -/
def insertForceWithFuture (st : StoreCore K V) (key : K) (f : Option V) (weight : Nat)
    (answers : Nat → Bool) : StoreCore K V × List (PolicyCall K) × Res Bool :=
  st.insertForceWith key f weight answers

end StoreCore

/-! ## Section 2: Judging first changes nothing -/

namespace Writer

variable {K : Type}

theorem judge_eq (n : Nat) (w : Writer K) (answers : Nat → Bool) :
    w.judge n answers = ((w.judge n answers).1, (w.judge n answers).2.1,
      (w.judge n answers).1.judges.judge) := by
  unfold judge; split; rfl

theorem key_judge (n : Nat) (w : Writer K) (answers : Nat → Bool) :
    (w.judge n answers).1.key = w.key := by
  unfold judge judgeInner
  by_cases hj : w.isJudged
  · simp [hj]
  · cases hk : w.key <;> simp [hj, hk]

/-- A judged writer asks no policy again and keeps its judgement. -/
theorem judge_of_isJudged (n : Nat) {w : Writer K} (h : w.isJudged = true) (answers : Nat → Bool) :
    w.judge n answers = (w, [], w.judges.judge) := by
  simp [judge, h]

theorem judges_mask_judge (n : Nat) (w : Writer K) (answers : Nat → Bool) :
    (w.judge n answers).1.judges.mask = w.judges.mask := by
  unfold judge judgeInner
  by_cases hj : w.isJudged
  · simp [hj]
  · cases w.key with
    | none => simp [hj]
    | some key =>
      simp only [hj, if_false, Bool.false_eq_true]
      induction List.range n generalizing w with
      | nil => rfl
      | cons i l ih => exact ih { w with judges := w.judges.set i (answers i) } hj

/-- A forced writer is admitted whatever the policies answer. -/
theorem judge_force (n : Nat) (w : Writer K) (answers : Nat → Bool) :
    (w.force.judge n answers).1.judges.judge = true := by
  rw [Judges.judge, judges_mask_judge]
  simp [force, Judges.setMask]

end Writer

namespace StoreCore

variable {K V : Type} [DecidableEq K]

/-- A commit of a writer that holds its key never returns `Ok(false)`, and
    leaves the key in the catalog. -/
theorem commit_admits (c : StoreCore K V) {w : Writer K} {key : K} (hk : w.key = some key)
    (seq : Sequence) (value : V) :
    (c.commit w seq value).2.2 ≠ .ok false ∧ ((c.commit w seq value).1.catalog key).isSome := by
  obtain ⟨i, hi, -⟩ := Catalog.insert_self_sequence c.catalog key ⟨seq, .inflight key value⟩
  unfold commit
  rw [hk]
  dsimp only
  split <;> simp [hi]

/-- `finish` of a writer whose judgement admits. -/
theorem applyWriter_admitted (st : StoreCore K V) {w : Writer K} {key : K} (hk : w.key = some key)
    {answers : Nat → Bool} (hadm : (w.judge st.admissions answers).1.judges.judge = true)
    (value : V) :
    (st.applyWriter w value answers).2.2 ≠ .ok false ∧
      ((st.applyWriter w value answers).1.catalog key).isSome := by
  have hk' := (Writer.key_judge st.admissions w answers).trans hk
  unfold applyWriter
  rw [Writer.judge_eq]
  dsimp only
  rw [hadm]
  rcases hm : st.mintSequence (w.judge st.admissions answers).1 with ⟨st', seq⟩
  exact commit_admits st' hk' seq value

/-- `judge` then `finish` with a fetched value is `finish` alone, for a
    writer that still holds its key. -/
theorem judgeThenFinish_some (st : StoreCore K V) {w : Writer K} {key : K} (hk : w.key = some key)
    (value : V) (answers : Nat → Bool) :
    st.judgeThenFinish w (some value) answers = st.applyWriter w value answers := by
  have hjd := Writer.judge_isJudged st.admissions hk answers
  unfold judgeThenFinish applyWriter
  rw [Writer.judge_eq]
  dsimp only
  rw [Writer.judge_of_isJudged _ hjd]
  cases (w.judge st.admissions answers).1.judges.judge <;> simp

/-- `insert_with` with a fetch that succeeds leaves the same store, makes the
    same policy calls and returns the same result as `insert` of the fetched
    value, when `weight` is the entry's serialized length as its contract
    asks. -/
theorem insertWith_eq_insert (cx : Codecs K V) (st : StoreCore K V) (key : K) (value : V)
    {weight : Nat} (hw : weight = (cx.key.write key).length + (cx.value.write value).length)
    (answers : Nat → Bool) :
    st.insertWith key (some value) weight answers = st.insert cx key value answers := by
  subst hw
  exact judgeThenFinish_some st rfl value answers

theorem insertWith_eq_insert_oneByte :
    2 = (Codecs.oneByte.key.write 7).length + (Codecs.oneByte.value.write 5).length ∧
      (⟨0, Catalog.empty, 1, [some []], .none⟩ : StoreCore Nat Nat).insertWith 7 (some 5) 2
          (fun _ => true) =
        (⟨0, Catalog.empty, 1, [some []], .none⟩ : StoreCore Nat Nat).insert Codecs.oneByte 7 5
          (fun _ => true) :=
  ⟨rfl, insertWith_eq_insert Codecs.oneByte _ 7 5 rfl _⟩

/-- A forced `insert_force_with` is admitted whatever the policies answer:
    it returns `Ok(false)` exactly when the fetch fails, and otherwise leaves
    its key in the catalog. -/
theorem insertForceWith_admits (st : StoreCore K V) (key : K) (f : Option V) (weight : Nat)
    (answers : Nat → Bool) :
    ((st.insertForceWith key f weight answers).2.2 = .ok false ↔ f = none) ∧
      (f.isSome → ((st.insertForceWith key f weight answers).1.catalog key).isSome) := by
  have hk : (st.writer key weight).force.key = some key := rfl
  have hadm := Writer.judge_force st.admissions (st.writer key weight) answers
  cases f with
  | none =>
    refine ⟨iff_of_true ?_ rfl, nofun⟩
    unfold insertForceWith judgeThenFinish
    rw [Writer.judge_eq, hadm]
    rfl
  | some value =>
    rw [insertForceWith, judgeThenFinish_some st hk]
    obtain ⟨hr, hc⟩ := applyWriter_admitted st hk hadm value
    exact ⟨⟨fun h => absurd h hr, nofun⟩, fun _ => hc⟩

end StoreCore

end Foyer
