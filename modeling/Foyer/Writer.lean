import Foyer.Catalog
import Foyer.Entry

/-! # Writers and admission

    `GenericStore::writer(key, weight)` hands out a `GenericStoreWriter`. Its
    caller may ask for the admission judgement (`judge`, memoised through
    `is_judged`), override it (`force`, `set_judge_mask`), pin a sequence or a
    compression, and then either `finish(value)` (`apply_writer`) or drop the
    writer. Every admission policy hears about the writer through `judge`,
    `on_insert` and `on_drop`; those calls, in order, are the `PolicyCall`s a
    writer's life produces.

    `apply_writer` is cut into the pieces other tasks can interleave with:
    the admission test, the minting of the sequence (`fetch_add`), and the
    commit (`on_insert`, the catalog insert and the send to a flusher). -/

namespace Foyer

/-! ## Section 1: Judgements -/

/-- Modelled from the spec (§4.4, §4.5; `judge.rs` is not among the sources):
    the judgement of each of the `size` admission policies, by index, and the
    mask of the judgements that count (`force` clears it). -/
structure Judges where
  size : Nat
  results : Nat → Bool
  mask : Nat → Bool

namespace Judges

/-- `Judges::new`: no judgement yet, every judgement counts. -/
def new (size : Nat) : Judges := ⟨size, fun _ => false, fun _ => true⟩

/-- `Judges::get`. -/
def get (j : Judges) (i : Nat) : Bool := j.results i

/-- `Judges::set`. -/
def set (j : Judges) (i : Nat) (b : Bool) : Judges :=
  { j with results := fun k => if k = i then b else j.results k }

/-- `Judges::set_mask`. -/
def setMask (j : Judges) (mask : Nat → Bool) : Judges := { j with mask }

/-- `Judges::judge`: every judgement the mask keeps is true. -/
def judge (j : Judges) : Bool := (List.range j.size).all fun i => !j.mask i || j.results i

@[simp] theorem get_set_self (j : Judges) (i : Nat) (b : Bool) : (j.set i b).get i = b := by
  simp [get, set]

@[simp] theorem get_set_ne (j : Judges) {i k : Nat} (b : Bool) (h : k ≠ i) :
    (j.set i b).get k = j.get k := by
  simp [get, set, h]

@[simp] theorem size_set (j : Judges) (i : Nat) (b : Bool) : (j.set i b).size = j.size := rfl

@[simp] theorem size_setMask (j : Judges) (m : Nat → Bool) : (j.setMask m).size = j.size := rfl

@[simp] theorem get_setMask (j : Judges) (m : Nat → Bool) (i : Nat) : (j.setMask m).get i = j.get i :=
  rfl

end Judges

/-! ## Section 2: Writers -/

/-- A call the store makes on the admission policy of index `i`. -/
inductive PolicyCall (K : Type) where
  /-- `judge(key, weight)`, which returned `result`. -/
  | judge (i : Nat) (key : K) (weight : Nat) (result : Bool)
  | onInsert (i : Nat) (key : K) (weight : Nat) (judge : Bool)
  | onDrop (i : Nat) (key : K) (weight : Nat) (judge : Bool)
  deriving DecidableEq, Repr

/-- `GenericStoreWriter`, without its store handle (the operations take the
    store), the judging time and `is_skippable`, which only feed metrics. -/
structure Writer (K : Type) where
  key : Option K
  weight : Nat
  sequence : Option Sequence
  judges : Judges
  isJudged : Bool
  isInserted : Bool
  compression : Compression

namespace Writer

variable {K : Type}

/-- `GenericStoreWriter::new` for a store with `admissions` policies and
    default compression `c`. -/
def new (admissions : Nat) (key : K) (weight : Nat) (c : Compression) : Writer K :=
  ⟨some key, weight, none, Judges.new admissions, false, false, c⟩

/-- `GenericStore::judge_inner`: each policy is asked once, in order, and its
    answer (`answers i`) is recorded. The key is there until `apply_writer`
    takes it. -/
def judgeInner (n : Nat) (w : Writer K) (answers : Nat → Bool) : Writer K × List (PolicyCall K) :=
  match w.key with
  | none => (w, [])
  | some key =>
    ({ w with judges := (List.range n).foldl (fun j i => j.set i (answers i)) w.judges,
              isJudged := true },
      (List.range n).map fun i => .judge i key w.weight (answers i))

/-- `GenericStoreWriter::judge`: judges through the policies the first time
    only, then reads the (masked) recorded judgements. -/
def judge (n : Nat) (w : Writer K) (answers : Nat → Bool) : Writer K × List (PolicyCall K) × Bool :=
  let (w, calls) := if w.isJudged then (w, []) else judgeInner n w answers
  (w, calls, w.judges.judge)

/-- `GenericStoreWriter::force`: a cleared mask. -/
def force (w : Writer K) : Writer K := { w with judges := w.judges.setMask fun _ => false }

/-- `GenericStoreWriter::set_judge_mask`. -/
def setJudgeMask (w : Writer K) (mask : Nat → Bool) : Writer K :=
  { w with judges := w.judges.setMask mask }

/-- `GenericStoreWriter::set_sequence`. -/
def setSequence (w : Writer K) (s : Sequence) : Writer K := { w with sequence := some s }

/-- `GenericStoreWriter::set_compression`. -/
def setCompression (w : Writer K) (c : Compression) : Writer K := { w with compression := c }

/-- `Drop for GenericStoreWriter`: a writer that was not inserted but was
    judged sends `on_drop` with its recorded judgement to every policy. -/
def drop (n : Nat) (w : Writer K) : List (PolicyCall K) :=
  if w.isInserted || !w.isJudged then []
  else match w.key with
    | none => []
    | some key => (List.range n).map fun i => .onDrop i key w.weight (w.judges.get i)

/-- A call a caller can make on a writer before finishing or dropping it. -/
inductive Op where
  | judge (answers : Nat → Bool)
  | force
  | setJudgeMask (mask : Nat → Bool)
  | setSequence (s : Sequence)
  | setCompression (c : Compression)

/-- One call on a writer, with the policy calls it causes. -/
def apply (n : Nat) (w : Writer K) : Op → Writer K × List (PolicyCall K)
  | .judge answers => let (w, calls, _) := w.judge n answers; (w, calls)
  | .force => (w.force, [])
  | .setJudgeMask m => (w.setJudgeMask m, [])
  | .setSequence s => (w.setSequence s, [])
  | .setCompression c => (w.setCompression c, [])

/-- Calls in order. -/
def applyAll (n : Nat) : Writer K → List Op → Writer K × List (PolicyCall K)
  | w, [] => (w, [])
  | w, op :: ops =>
    let (w, calls) := w.apply n op
    let (w, calls') := w.applyAll n ops
    (w, calls ++ calls')

end Writer

/-! ## Section 3: `apply_writer` -/

/-- Modelled from the spec (§4.6; `flusher.rs` is not among the sources): the
    message `apply_writer` sends to a flusher. -/
structure Entry (K V : Type) where
  sequence : Sequence
  key : K
  value : V
  compression : Compression

/-- The parts of `GenericStoreInner` writers use: the sequence counter, the
    catalog, the number of admission policies, the flusher channels (`none`
    once its flusher has stopped and dropped the receiver) and the default
    compression. -/
structure StoreCore (K V : Type) where
  sequence : Sequence
  catalog : Catalog K V
  admissions : Nat
  flusherEntryTxs : List (Option (List (Entry K V)))
  compression : Compression

variable {K V : Type} [DecidableEq K]

/-- `flusher_entry_txs[sequence as usize % len].send(entry).unwrap()`: `none`
    is the panic when there is no flusher (`% 0`) or the chosen one has
    stopped. -/
def dispatch (txs : List (Option (List (Entry K V)))) (e : Entry K V) :
    Option (List (Option (List (Entry K V)))) :=
  if txs.length = 0 then none
  else match txs[e.sequence.toNat % txs.length]? with
    | some (some q) => some (txs.set (e.sequence.toNat % txs.length) (some (q ++ [e])))
    | _ => none

namespace StoreCore

/-- `GenericStore::writer`. -/
def writer (st : StoreCore K V) (key : K) (weight : Nat) : Writer K :=
  Writer.new st.admissions key weight st.compression

/-- The sequence `apply_writer` gives an admitted entry: the pinned one, or
    `sequence.fetch_add(1)` (wrapping). -/
def mintSequence (st : StoreCore K V) (w : Writer K) : StoreCore K V × Sequence :=
  match w.sequence with
  | some s => (st, s)
  | none => ({ st with sequence := st.sequence + 1 }, st.sequence)

/-- The rest of `apply_writer` once admitted and given its sequence: the
    writer is marked inserted and its key taken, every policy hears
    `on_insert` with its recorded judgement, the key's `Inflight` item goes
    into the catalog, and the entry is sent to flusher `sequence % flushers`.
    The send's `unwrap` panics after all of that. -/
def commit (st : StoreCore K V) (w : Writer K) (seq : Sequence) (value : V) :
    StoreCore K V × List (PolicyCall K) × Res Bool :=
  match w.key with
  | none => (st, [], .panic)
  | some key =>
    let calls := (List.range st.admissions).map fun i => .onInsert i key w.weight (w.judges.get i)
    let catalog := st.catalog.insert key ⟨seq, .inflight key value⟩
    match dispatch st.flusherEntryTxs ⟨seq, key, value, w.compression⟩ with
    | some txs => ({ st with catalog, flusherEntryTxs := txs }, calls, .ok true)
    | none => ({ st with catalog }, calls, .panic)

/-- `GenericStore::apply_writer`, run without interruption. A writer that
    judges false returns `Ok(false)` and is dropped on the way out. -/
def applyWriter (st : StoreCore K V) (w : Writer K) (value : V) (answers : Nat → Bool) :
    StoreCore K V × List (PolicyCall K) × Res Bool :=
  let (w, calls, admitted) := w.judge st.admissions answers
  if !admitted then (st, calls ++ w.drop st.admissions, .ok false)
  else
    let (st', seq) := st.mintSequence w
    let (st', calls', r) := st'.commit w seq value
    (st', calls ++ calls', r)

/-- A writer's life: made by `GenericStore::writer`, given the calls `ops`,
    then finished with a value and the policies' answers should it still need
    judging (`some`), or dropped (`none`). The policy calls in order, and
    `finish`'s result. -/
def session (st : StoreCore K V) (key : K) (weight : Nat) (ops : List Writer.Op) :
    Option (V × (Nat → Bool)) → StoreCore K V × List (PolicyCall K) × Option (Res Bool)
  | some (value, answers) =>
    let (w, calls) := (st.writer key weight).applyAll st.admissions ops
    let (st', calls', r) := st.applyWriter w value answers
    (st', calls ++ calls', some r)
  | none =>
    let (w, calls) := (st.writer key weight).applyAll st.admissions ops
    (st, calls ++ w.drop st.admissions, none)

end StoreCore

/-! ## Section 4: Every policy hears of a writer once

    A writer that is neither finished nor dropped is `Consistent` with the
    calls made so far: it was never judged and no policy heard of it, or each
    policy was asked once and the writer recorded its answer. `force` and the
    mask touch only what `judge` reads back, never what `on_insert` and
    `on_drop` pass on. -/

namespace PolicyCall

variable {K : Type}

/-- The index of the policy called. -/
def policy : PolicyCall K → Nat
  | .judge i .. | .onInsert i .. | .onDrop i .. => i

/-- Is it a `judge` call? -/
def isJudge : PolicyCall K → Bool
  | .judge .. => true
  | _ => false

/-- A `judge` call on policy `i`. -/
def isJudgeOf (i : Nat) (c : PolicyCall K) : Bool := c.isJudge && c.policy == i

/-- An `on_insert` or `on_drop` call on policy `i`. -/
def isTerminalOf (i : Nat) (c : PolicyCall K) : Bool := !c.isJudge && c.policy == i

end PolicyCall

section calls
variable {K : Type}

/-- One call to each of `n` policies, in order: a filter on one policy's
    calls keeps exactly its call. -/
theorem filter_map_range (n i : Nat) (f : Nat → PolicyCall K) (p : PolicyCall K → Bool)
    (hp : ∀ j, p (f j) = (j == i)) :
    ((List.range n).map f).filter p = if i < n then [f i] else [] := by
  induction n with
  | zero => simp
  | succ n ih =>
    rw [List.range_succ, List.map_append, List.filter_append, ih]
    simp only [List.map_cons, List.map_nil, List.filter_cons, hp, List.filter_nil, beq_iff_eq]
    by_cases hin : i < n
    · simp [hin, show n ≠ i by omega, show i < n + 1 by omega]
    · by_cases hn : n = i
      · subst hn; simp
      · simp [hin, hn, show ¬ i < n + 1 by omega]

theorem get_foldl_set (l : List Nat) (j : Judges) (ans : Nat → Bool) (k : Nat) :
    (l.foldl (fun j i => j.set i (ans i)) j).get k = if k ∈ l then ans k else j.get k := by
  induction l generalizing j with
  | nil => simp
  | cons i l ih =>
    rw [List.foldl_cons, ih]
    by_cases hk : k ∈ l
    · simp [hk]
    · by_cases hki : k = i
      · subst hki; simp
      · simp [hk, hki]

end calls

namespace Writer

variable {K : Type}

/-- The calls `judge_inner` makes, with answers `ans`. -/
def judgeCalls (n : Nat) (key : K) (weight : Nat) (ans : Nat → Bool) : List (PolicyCall K) :=
  (List.range n).map fun i => .judge i key weight (ans i)

/-- A writer that is neither finished nor dropped, against the calls so far. -/
def Consistent (n : Nat) (key : K) (weight : Nat) (w : Writer K) (calls : List (PolicyCall K)) :
    Prop :=
  w.key = some key ∧ w.weight = weight ∧ w.isInserted = false ∧
    ((w.isJudged = false ∧ calls = []) ∨
      (w.isJudged = true ∧ ∃ ans, calls = judgeCalls n key weight ans ∧ ∀ i < n, w.judges.get i = ans i))

theorem consistent_new (n : Nat) (key : K) (weight : Nat) (c : Compression) :
    Consistent n key weight (Writer.new n key weight c) [] := by
  simp [Consistent, Writer.new]

theorem consistent_judge {n : Nat} {key : K} {weight : Nat} {w : Writer K} {calls : List (PolicyCall K)}
    (h : Consistent n key weight w calls) (answers : Nat → Bool) :
    Consistent n key weight (w.judge n answers).1 (calls ++ (w.judge n answers).2.1) := by
  obtain ⟨hk, hw, hi, hj⟩ := h
  rcases hj with ⟨hnj, rfl⟩ | ⟨hj, hrest⟩
  · simp only [judge, hnj, Bool.false_eq_true, if_false, judgeInner, hk, List.nil_append]
    refine ⟨rfl, hw, hi, .inr ⟨rfl, answers, by simp [judgeCalls, hw], fun i hi => ?_⟩⟩
    simp [get_foldl_set, hi]
  · simp only [judge, hj, if_true, List.append_nil]
    exact ⟨hk, hw, hi, .inr ⟨hj, hrest⟩⟩

theorem consistent_apply {n : Nat} {key : K} {weight : Nat} {w : Writer K} {calls : List (PolicyCall K)}
    (h : Consistent n key weight w calls) (op : Op) :
    Consistent n key weight (w.apply n op).1 (calls ++ (w.apply n op).2) := by
  cases op with
  | judge answers => exact consistent_judge h answers
  | force | setJudgeMask _ =>
    obtain ⟨hk, hw, hi, hj⟩ := h
    simpa [apply, force, setJudgeMask, Consistent, hk, hw, hi] using hj
  | setSequence _ | setCompression _ => simpa [apply, setSequence, setCompression] using h

theorem consistent_applyAll {n : Nat} {key : K} {weight : Nat} (ops : List Op) {w : Writer K}
    {calls : List (PolicyCall K)} (h : Consistent n key weight w calls) :
    Consistent n key weight (w.applyAll n ops).1 (calls ++ (w.applyAll n ops).2) := by
  induction ops generalizing w calls with
  | nil => simpa [applyAll] using h
  | cons op ops ih => simpa [applyAll, List.append_assoc] using ih (consistent_apply h op)

theorem judge_isJudged (n : Nat) {key : K} {w : Writer K} (hk : w.key = some key)
    (answers : Nat → Bool) : (w.judge n answers).1.isJudged = true := by
  unfold judge; by_cases hj : w.isJudged <;> simp [hj, judgeInner, hk]

/-- `on_insert` to every policy, with judgements `ans`. -/
def insertCalls (n : Nat) (key : K) (weight : Nat) (ans : Nat → Bool) : List (PolicyCall K) :=
  (List.range n).map fun i => .onInsert i key weight (ans i)

/-- `on_drop` to every policy, with judgements `ans`. -/
def dropCalls (n : Nat) (key : K) (weight : Nat) (ans : Nat → Bool) : List (PolicyCall K) :=
  (List.range n).map fun i => .onDrop i key weight (ans i)

theorem drop_of_consistent {n : Nat} {key : K} {weight : Nat} {w : Writer K}
    {calls : List (PolicyCall K)} (h : Consistent n key weight w calls) :
    (calls = [] ∧ w.drop n = []) ∨
      ∃ ans, calls = judgeCalls n key weight ans ∧ w.drop n = dropCalls n key weight ans := by
  obtain ⟨hk, hw, hi, ⟨hnj, rfl⟩ | ⟨hj, ans, rfl, hans⟩⟩ := h
  · exact .inl ⟨rfl, by simp [drop, hnj]⟩
  · refine .inr ⟨ans, rfl, ?_⟩
    simp only [drop, hi, hj, Bool.not_true, Bool.or_self, Bool.false_eq_true, if_false, hk, hw,
      dropCalls]
    exact List.map_congr_left fun i hi => by rw [hans i (List.mem_range.1 hi)]

section filters
variable {n i : Nat} {key : K} {weight : Nat} {ans : Nat → Bool}

@[simp] theorem filter_judgeCalls_judge (hi : i < n) :
    (judgeCalls n key weight ans).filter (PolicyCall.isJudgeOf i) = [.judge i key weight (ans i)] := by
  rw [judgeCalls, filter_map_range n i _ _ (fun j => by simp [PolicyCall.isJudgeOf,
    PolicyCall.isJudge, PolicyCall.policy]), if_pos hi]

@[simp] theorem filter_insertCalls_terminal (hi : i < n) :
    (insertCalls n key weight ans).filter (PolicyCall.isTerminalOf i) =
      [.onInsert i key weight (ans i)] := by
  rw [insertCalls, filter_map_range n i _ _ (fun j => by simp [PolicyCall.isTerminalOf,
    PolicyCall.isJudge, PolicyCall.policy]), if_pos hi]

@[simp] theorem filter_dropCalls_terminal (hi : i < n) :
    (dropCalls n key weight ans).filter (PolicyCall.isTerminalOf i) =
      [.onDrop i key weight (ans i)] := by
  rw [dropCalls, filter_map_range n i _ _ (fun j => by simp [PolicyCall.isTerminalOf,
    PolicyCall.isJudge, PolicyCall.policy]), if_pos hi]

@[simp] theorem filter_judgeCalls_terminal :
    (judgeCalls n key weight ans).filter (PolicyCall.isTerminalOf i) = [] := by
  simp [judgeCalls, PolicyCall.isTerminalOf, PolicyCall.isJudge]

@[simp] theorem filter_insertCalls_judge :
    (insertCalls n key weight ans).filter (PolicyCall.isJudgeOf i) = [] := by
  simp [insertCalls, PolicyCall.isJudgeOf, PolicyCall.isJudge]

@[simp] theorem filter_dropCalls_judge :
    (dropCalls n key weight ans).filter (PolicyCall.isJudgeOf i) = [] := by
  simp [dropCalls, PolicyCall.isJudgeOf, PolicyCall.isJudge]

theorem judge_mem_judgeCalls {j : Bool} (h : PolicyCall.judge i key weight j ∈ judgeCalls n key weight ans) :
    j = ans i := by
  simp only [judgeCalls, List.mem_map, List.mem_range, PolicyCall.judge.injEq] at h
  obtain ⟨_, _, rfl, -, -, rfl⟩ := h; rfl

end filters

end Writer

namespace StoreCore

variable {K V : Type} [DecidableEq K]

open Writer in
/-- How `apply_writer` ends for a writer consistent with the calls so far:
    every policy was asked once, and then every policy hears `on_drop`
    (`Ok(false)`) or every policy hears `on_insert` (`Ok(true)`, or a panic
    when the entry cannot be sent to a flusher). -/
theorem applyWriter_calls (st : StoreCore K V) {key : K} {weight : Nat} {w : Writer K}
    {calls : List (PolicyCall K)} (h : Consistent st.admissions key weight w calls) (value : V)
    (answers : Nat → Bool) :
    ∃ ans, (calls ++ (st.applyWriter w value answers).2.1 =
          judgeCalls st.admissions key weight ans ++ dropCalls st.admissions key weight ans ∧
        (st.applyWriter w value answers).2.2 = .ok false) ∨
      (calls ++ (st.applyWriter w value answers).2.1 =
          judgeCalls st.admissions key weight ans ++ insertCalls st.admissions key weight ans ∧
        ((st.applyWriter w value answers).2.2 = .ok true ∨
          (st.applyWriter w value answers).2.2 = .panic)) := by
  have hc := consistent_judge h answers
  have hjd := judge_isJudged st.admissions h.1 answers
  rcases hJ : w.judge st.admissions answers with ⟨w1, c1, b⟩
  rw [hJ] at hc hjd
  dsimp only at hc hjd
  obtain ⟨hk, hw, hi, ⟨hnj, _⟩ | ⟨_, ans, hcalls, hans⟩⟩ := hc
  · simp [hnj] at hjd
  refine ⟨ans, ?_⟩
  have hmap : ∀ f : Nat → Bool → PolicyCall K,
      (List.range st.admissions).map (fun i => f i (w1.judges.get i)) =
        (List.range st.admissions).map (fun i => f i (ans i)) :=
    fun f => List.map_congr_left fun i hi => by rw [hans i (List.mem_range.1 hi)]
  unfold applyWriter
  simp only [hJ]
  cases b
  · left
    refine ⟨?_, rfl⟩
    simp only [Bool.not_false, if_true, Writer.drop, hi, hjd, Bool.not_true, Bool.or_self,
      Bool.false_eq_true, if_false, hk, hw, ← List.append_assoc, hcalls]
    rw [hmap fun i j => .onDrop i key weight j]; rfl
  · right
    simp only [Bool.not_true, Bool.false_eq_true, if_false, ← List.append_assoc, hcalls]
    unfold mintSequence
    split <;> simp only [commit, hk, hw] <;> split <;>
      exact ⟨by rw [hmap fun i j => .onInsert i key weight j]; rfl, by simp⟩

open Writer in
/-- The policy calls of a whole writer's life: none at all if it was dropped
    unjudged; otherwise one `judge` to every policy, followed by `on_drop` to
    every policy (dropped, or `Ok(false)`) or `on_insert` to every policy
    (`Ok(true)`, or the panic of a failed send). -/
theorem session_calls (st : StoreCore K V) (key : K) (weight : Nat) (ops : List Writer.Op)
    (fin : Option (V × (Nat → Bool))) :
    ((st.session key weight ops fin).2.1 = [] ∧ (st.session key weight ops fin).2.2 = none) ∨
      ∃ ans, ((st.session key weight ops fin).2.1 =
          judgeCalls st.admissions key weight ans ++ dropCalls st.admissions key weight ans ∧
        ((st.session key weight ops fin).2.2 = none ∨
          (st.session key weight ops fin).2.2 = some (.ok false))) ∨
      ((st.session key weight ops fin).2.1 =
          judgeCalls st.admissions key weight ans ++ insertCalls st.admissions key weight ans ∧
        ((st.session key weight ops fin).2.2 = some (.ok true) ∨
          (st.session key weight ops fin).2.2 = some .panic)) := by
  have hc := consistent_applyAll ops (consistent_new st.admissions key weight st.compression)
  rw [List.nil_append] at hc
  cases fin with
  | none =>
    rcases drop_of_consistent hc with ⟨hnil, hd⟩ | ⟨ans, hcalls, hd⟩
    · exact .inl ⟨by simp [session, writer, hnil, hd], rfl⟩
    · exact .inr ⟨ans, .inl ⟨by simp [session, writer, hcalls, hd], .inl rfl⟩⟩
  | some p =>
    obtain ⟨value, answers⟩ := p
    obtain ⟨ans, ⟨hcalls, hr⟩ | ⟨hcalls, hr⟩⟩ := applyWriter_calls st hc value answers
    · exact .inr ⟨ans, .inl ⟨by simpa [session, writer] using hcalls, .inr (by simp [session, writer, hr])⟩⟩
    · exact .inr ⟨ans, .inr ⟨by simpa [session, writer] using hcalls, by simpa [session, writer] using hr⟩⟩

open Writer in
/-- Over a writer's whole life, whatever calls its caller makes and however it
    ends, each admission policy `i`: is asked `judge` at most once; if asked,
    hears exactly one of `on_insert` and `on_drop`, about the writer's key and
    weight and with the judgement it gave; if never asked, hears neither; and
    hears `on_insert` exactly when `finish` returned `Ok(true)` or panicked
    sending the entry to a flusher, which it does after `on_insert`. -/
theorem admission_calls_of_session (st : StoreCore K V) (key : K) (weight : Nat)
    (ops : List Writer.Op) (fin : Option (V × (Nat → Bool))) {st' : StoreCore K V}
    {calls : List (PolicyCall K)} {r : Option (Res Bool)}
    (h : st.session key weight ops fin = (st', calls, r)) {i : Nat} (hi : i < st.admissions) :
    (calls.filter (PolicyCall.isJudgeOf i)).length ≤ 1 ∧
      (∀ j, PolicyCall.judge i key weight j ∈ calls →
        calls.filter (PolicyCall.isTerminalOf i) = [.onInsert i key weight j] ∨
          calls.filter (PolicyCall.isTerminalOf i) = [.onDrop i key weight j]) ∧
      ((∀ j, PolicyCall.judge i key weight j ∉ calls) →
        calls.filter (PolicyCall.isTerminalOf i) = []) ∧
      ((∃ j, PolicyCall.onInsert i key weight j ∈ calls) ↔ r = some (.ok true) ∨ r = some .panic) := by
  have hs := session_calls st key weight ops fin
  rw [h] at hs; dsimp only at hs
  rcases hs with ⟨rfl, rfl⟩ | ⟨ans, ⟨rfl, hr⟩ | ⟨rfl, hr⟩⟩
  · simp
  · refine ⟨by simp [hi], fun j hj => .inr ?_, fun hn => absurd (List.mem_append_left _ (List.mem_map.2 ⟨i, List.mem_range.2 hi, rfl⟩)) (hn (ans i)),
      ⟨fun ⟨j, hj⟩ => ?_, fun h' => ?_⟩⟩
    · rw [List.mem_append] at hj
      rcases hj with hj | hj
      · simp [judge_mem_judgeCalls hj, hi]
      · simp [dropCalls] at hj
    · simp [judgeCalls, dropCalls] at hj
    · rcases hr with rfl | rfl <;> simp at h'
  · refine ⟨by simp [hi], fun j hj => .inl ?_, fun hn => absurd (List.mem_append_left _ (List.mem_map.2 ⟨i, List.mem_range.2 hi, rfl⟩)) (hn (ans i)),
      ⟨fun _ => hr, fun _ => ⟨ans i, List.mem_append_right _ (List.mem_map.2 ⟨i, List.mem_range.2 hi, rfl⟩)⟩⟩⟩
    rw [List.mem_append] at hj
    rcases hj with hj | hj
    · simp [judge_mem_judgeCalls hj, hi]
    · simp [insertCalls] at hj

/-- A forced writer whose only policy judges false is inserted, and the policy
    hears `on_insert` with its `false` (spec §8, scenario 5). -/
theorem admission_calls_of_session_forced :
    (⟨0, Catalog.empty, 1, [some []], .none⟩ : StoreCore Nat Nat).session 7 2 [.force]
        (some (5, fun _ => false)) =
      (⟨1, (Catalog.empty : Catalog Nat Nat).insert 7 ⟨0, .inflight 7 5⟩, 1,
        [some [⟨0, 7, 5, .none⟩]], .none⟩, [.judge 0 7 2 false, .onInsert 0 7 2 false],
        some (.ok true)) ∧ 0 < 1 ∧
      ([PolicyCall.judge 0 7 2 false, .onInsert 0 7 2 false].filter
          (PolicyCall.isJudgeOf 0)).length ≤ 1 :=
  ⟨rfl, by decide, (@admission_calls_of_session Nat Nat _ ⟨0, Catalog.empty, 1, [some []], .none⟩
    7 2 [.force] (some (5, fun _ => false)) _ _ _ rfl 0 (by decide)).1⟩

/-- On a store with no flusher, `apply_writer` delivers `on_insert` and then
    panics at `sequence % 0`: `finish` never returns `Ok(true)`. -/
theorem on_insert_then_panic_without_flusher :
    ((⟨0, Catalog.empty, 1, [], .none⟩ : StoreCore Nat Nat).session 7 2 []
        (some (5, fun _ => true))).2 = ([.judge 0 7 2 true, .onInsert 0 7 2 true], some .panic) :=
  rfl

end StoreCore

end Foyer
