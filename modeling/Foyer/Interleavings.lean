import Foyer.Store

/-! # Interleavings of lookups, inserts and reclaims

    Schedules of the store found by following the steps of `GenericStore`,
    the flushers and `Runner::run`, each replayed by `Store.run` and checked
    by evaluation, in the manner of a model checker's counterexample traces.

    They run on `Device.small` (two regions of four 32-byte blocks, so that an
    entry with a one-byte key and value takes one block) with one flusher, as
    `open` asks (at least two regions a flusher), no admission policy, and a
    device that reads every chunk in full. Keys and values are natural numbers below 256 coded
    on one byte; the checksum is a polynomial stand-in for XXH64. Every
    checksum the traces compare was computed by the code itself over the same
    bytes, so the traces do not depend on which hash is used. -/

namespace Foyer

namespace Store

/-- The result of a finished lookup task. -/
def Task.lookupResult {K V : Type} : Task K V → Option (Res (Option V))
  | .looked _ r => some r
  | _ => none

/-- The result of a finished insert task. -/
def Task.insertResult {K V : Type} : Task K V → Option (Res Bool)
  | .inserted _ r => some r
  | _ => none

/-- The store of the traces: `Device.small`, no admission policy, one
    flusher. -/
def oneFlusher : Store Nat Nat := empty Device.small 0 1 .none

/-- Every policy admits (there are none). -/
def admitAll : Nat → Bool := fun _ => true

/-- The flusher writes the entry of key 1 into region 0 and seals it, then
    takes region 1 and seals it too. A lookup of key 1 reads the catalog view
    of its entry in region 0; region 0 is then reclaimed, taken again by the
    flusher, and refilled, so that the entry of key 2 starts at the old
    offset. The version the view carries still matches, and `lookup(1)`
    returns `Ok(Some(20))`, the value admitted for key 2 (the values admitted
    for key 1 are 10 only). -/
def staleViewTrace : List (StoreAction Nat Nat) :=
  [.acquire 0 Buffer.zero, .insert 1 10 false, .judge 0 admitAll, .commit 0, .flush 0, .seal 0,
   .acquire 0 Buffer.zero, .seal 0,
   .lookup 1, .reclaim 0, .acquire 0 Buffer.zero,
   .insert 2 20 false, .judge 2 admitAll, .commit 2, .flush 0,
   .load 1 RegionSys.allFull]

theorem lookup_returns_value_of_other_key :
    ((run Device.small Codecs.oneByte oneFlusher staleViewTrace).bind fun st =>
      st.tasks[1]?.bind Task.lookupResult) = some (.ok (some 20)) := by
  decide

/-- Lookup `L₁` of key 1 reads the view of its entry in region 0; the region is
    reclaimed and taken by the flusher with a fresh buffer. `insert(1, 11)`
    (task 2) returns `Ok(true)`. `L₁` then loads the view, finds no entry
    there, and its `catalog.remove(1)` deletes the item of the new insert:
    lookup `L₂` (task 3), begun after the insert returned, gets `Ok(None)`. -/
def lostInsertTrace : List (StoreAction Nat Nat) :=
  [.acquire 0 Buffer.zero, .insert 1 10 false, .judge 0 admitAll, .commit 0, .flush 0, .seal 0,
   .acquire 0 Buffer.zero, .seal 0,
   .lookup 1, .reclaim 0, .acquire 0 Buffer.zero,
   .insert 1 11 false, .judge 2 admitAll, .commit 2,
   .load 1 RegionSys.allFull, .lookup 1]

theorem failed_lookup_removes_newer_insert :
    ((run Device.small Codecs.oneByte oneFlusher lostInsertTrace).map fun st =>
      (st.tasks[2]?.bind Task.insertResult, st.tasks[1]?.bind Task.lookupResult,
        st.tasks[3]?.bind Task.lookupResult)) =
      some (some (.ok true), some (.err (.magicMismatch 0x97032700 0)), some (.ok none)) := by
  decide

section Guard

variable {K V : Type} [DecidableEq K] (dev : Device) (cx : Codecs K V)

variable {dev cx} {k : K} {v : V} {w : Writer K} {t : Nat}

end Guard

/-- `insert(1, 10)` mints sequence 0 and `insert(2, 20)` sequence 1, both for
    flusher 0; the second sends its entry first. The flusher then writes the
    entries in the order they reached it. -/
def reorderedSendTrace : List (StoreAction Nat Nat) :=
  [.insert 1 10 false, .insert 2 20 false, .judge 0 admitAll, .judge 1 admitAll,
   .commit 1, .commit 0, .acquire 0 Buffer.zero, .flush 0, .flush 0]

/-- Both inserts return `Ok(true)`; the entry of sequence 1 reaches flusher 0
    before the entry of sequence 0 and is written at offset 32, before it
    (offset 64). -/
theorem flusher_receives_sequences_out_of_order :
    ((run Device.small Codecs.oneByte oneFlusher (reorderedSendTrace.take 6)).map fun st =>
      (st.tasks.map Task.insertResult,
        st.core.flusherEntryTxs.map fun q => q.map fun es => es.map Entry.sequence)) =
      some ([some (.ok true), some (.ok true)], [some [1, 0]]) ∧
    ((run Device.small Codecs.oneByte oneFlusher reorderedSendTrace).map fun st =>
      (st.core.catalog 2, st.core.catalog 1)) =
      some (some ⟨1, .region ⟨0, 32, 32, 0⟩⟩, some ⟨0, .region ⟨0, 64, 32, 0⟩⟩) := by
  decide

end Store

end Foyer
