import Foyer.Region

/-! # The reclaimer's dispatch

    `Reclaimer::submit` and `Reclaimer::try_submit` hand each `ReclaimTask`
    to one of the runners `Reclaimer::run` started, through a `channel(1)`
    per runner, in turn: the task that takes sequence `s` goes to runner
    `s % task_txs.len()`. Both hold the reclaimer's mutex while they choose
    and send, and `submit` holds it across its `send().await` too, so tasks
    take their sequences in the order they reach the channels.

    Over every run that starts the runners once, each runner gets exactly
    the tasks whose sequence picks it, in sequence order: what it has
    received, then its channel's buffer, then a `send` still waiting for
    that buffer, are the accepted tasks at its positions (Section 3). No
    task is lost, duplicated, reordered or sent to another runner.
    `try_submit` takes a sequence only when it succeeds, so while the runner
    it would pick is busy it fails with `ChannelFull`, whatever the other
    runners hold; a `submit` or `try_submit` before `run` panics on `% 0`.

    What a runner does with a task it receives (`exclusive`, `take_region`,
    `release`) is the store's `reclaim` step (`Store`). The closed-channel
    errors cannot happen: the runners keep their receivers and `task_txs`
    keeps the senders. The sequence is a `usize` counter, a `Nat` here like
    every counter of the model. -/

namespace Foyer

/-! ## Section 1: State, steps and runs -/

/-- `ReclaimTask`. -/
structure ReclaimTask where
  regionId : RegionId
  deriving DecidableEq, Repr

/-- `Reclaimer` with its `ReclaimerInner`: the number of runners `run`
    starts, the sequence, and for each sender of `task_txs` the buffer of its
    `channel(1)`, which holds at most one task; and the `submit` that holds
    the mutex while its `send` waits for runner `i`'s buffer. -/
structure Reclaimer where
  runners : Nat
  sequence : Nat
  taskTxs : List (Option ReclaimTask)
  sending : Option (Nat × ReclaimTask)
  deriving DecidableEq, Repr

/-- What `submit` and `try_submit` return: `Ok(())`,
    `Err(Error::ChannelFull)`, or a panic. -/
inductive SubmitResult where
  | ok
  | channelFull
  | panic
  deriving DecidableEq, Repr

/-- What a step of the reclaimer shows. -/
inductive ReclaimEvent where
  /-- A task takes its sequence: a `submit`, or a `try_submit` that succeeds. -/
  | accepted (task : ReclaimTask)
  /-- Runner `i`'s `task_rx.recv()` returns the task. -/
  | received (i : Nat) (task : ReclaimTask)
  /-- A `submit` or `try_submit` returns to its caller. -/
  | returned (r : SubmitResult)
  deriving DecidableEq, Repr

/-- The steps of the reclaimer and its runners. -/
inductive ReclaimerAction where
  /-- `Reclaimer::run`: a `channel(1)` per runner, the senders appended to
      `task_txs`. -/
  | run
  /-- `Reclaimer::submit` up to its `send().await`. -/
  | submit (task : ReclaimTask)
  /-- The waiting `send` of a `submit` puts its task into the free buffer. -/
  | send
  /-- `Reclaimer::try_submit`. -/
  | trySubmit (task : ReclaimTask)
  /-- Runner `i`'s `task_rx.recv()` takes the task in its buffer. -/
  | recv (i : Nat)
  deriving DecidableEq, Repr

namespace Reclaimer

/-- `Reclaimer::new`. -/
def new (runners : Nat) : Reclaimer := ⟨runners, 0, [], none⟩

/-- One step; `none` when it cannot happen: a waiting `submit` holds the
    mutex, a `send` finds its buffer full, a runner's buffer is empty. -/
def step (rc : Reclaimer) : ReclaimerAction → Option (Reclaimer × List ReclaimEvent)
  | .run =>
    if rc.sending.isSome then none
    else some ({ rc with taskTxs := rc.taskTxs ++ List.replicate rc.runners none }, [])
  | .submit task =>
    if rc.sending.isSome then none
    else if rc.taskTxs.length = 0 then some (rc, [.returned .panic])
    else
      let submittee := rc.sequence % rc.taskTxs.length
      some ({ rc with sequence := rc.sequence + 1, sending := some (submittee, task) },
        [.accepted task])
  | .send =>
    match rc.sending with
    | some (i, task) =>
      if rc.taskTxs[i]? = some none then
        some ({ rc with taskTxs := rc.taskTxs.set i (some task), sending := none }, [.returned .ok])
      else none
    | none => none
  | .trySubmit task =>
    if rc.sending.isSome then none
    else if rc.taskTxs.length = 0 then some (rc, [.returned .panic])
    else
      let submittee := rc.sequence % rc.taskTxs.length
      if rc.taskTxs[submittee]? = some none then
        some ({ rc with sequence := rc.sequence + 1, taskTxs := rc.taskTxs.set submittee (some task) },
          [.accepted task, .returned .ok])
      else some (rc, [.returned .channelFull])
  | .recv i =>
    match rc.taskTxs[i]? with
    | some (some task) => some ({ rc with taskTxs := rc.taskTxs.set i none }, [.received i task])
    | _ => none

/-- A run of steps and the events it shows, each step able to happen. -/
def run (rc : Reclaimer) : List ReclaimerAction → Option (Reclaimer × List ReclaimEvent)
  | [] => some (rc, [])
  | a :: as =>
    match rc.step a with
    | some (rc₁, es₁) =>
      match rc₁.run as with
      | some (rc₂, es₂) => some (rc₂, es₁ ++ es₂)
      | none => none
    | none => none

/-- The task a `submit` waiting for runner `i`'s buffer holds. -/
def waiting (rc : Reclaimer) (i : Nat) : List ReclaimTask :=
  match rc.sending with
  | some (j, task) => if j = i then [task] else []
  | none => []

/-- The tasks on their way to runner `i`: its buffer, then a waiting `send`. -/
def inFlight (rc : Reclaimer) (i : Nat) : List ReclaimTask :=
  (rc.taskTxs[i]?.join).toList ++ rc.waiting i

end Reclaimer

/-! ## Section 2: Turns

    The dispatch's specification: the accepted tasks in sequence order,
    runner `i` of `k` taking those at the positions `p` with `p % k = i`. -/

namespace ReclaimEvent

def accepted? : ReclaimEvent → Option ReclaimTask
  | .accepted task => some task
  | _ => none

def receivedBy? (i : Nat) : ReclaimEvent → Option ReclaimTask
  | .received j task => if j = i then some task else none
  | _ => none

end ReclaimEvent

/-- The tasks of a log that took a sequence, in sequence order. -/
def acceptedTasks (es : List ReclaimEvent) : List ReclaimTask := es.filterMap ReclaimEvent.accepted?

/-- The tasks runner `i` has received, in order. -/
def receivedBy (i : Nat) (es : List ReclaimEvent) : List ReclaimTask :=
  es.filterMap (ReclaimEvent.receivedBy? i)

/-- The elements at positions `p, p + 1, …` of a list whose position is `i`
    modulo `k`. -/
def turnsFrom {α : Type} (k i : Nat) : Nat → List α → List α
  | _, [] => []
  | p, a :: as => (if p % k = i then [a] else []) ++ turnsFrom k i (p + 1) as

/-- Runner `i`'s turns among `k` runners. -/
def turns {α : Type} (k i : Nat) (as : List α) : List α := turnsFrom k i 0 as

theorem turnsFrom_append {α : Type} (k i : Nat) (as bs : List α) :
    ∀ p, turnsFrom k i p (as ++ bs) = turnsFrom k i p as ++ turnsFrom k i (p + as.length) bs := by
  induction as with
  | nil => intro p; rfl
  | cons a as ih =>
    intro p
    rw [List.cons_append, turnsFrom, turnsFrom, ih, List.append_assoc, List.length_cons,
      show p + 1 + as.length = p + (as.length + 1) by omega]

@[simp] theorem acceptedTasks_append (es es' : List ReclaimEvent) :
    acceptedTasks (es ++ es') = acceptedTasks es ++ acceptedTasks es' :=
  List.filterMap_append _ _ _

@[simp] theorem receivedBy_append (i : Nat) (es es' : List ReclaimEvent) :
    receivedBy i (es ++ es') = receivedBy i es ++ receivedBy i es' :=
  List.filterMap_append _ _ _

/-! ## Section 3: Every runner gets its turns -/

namespace Reclaimer

/-- The reclaimer has `k` channels, the sequence counts the accepted tasks,
    and each runner's received and in-flight tasks are its turns among them. -/
structure Routed (k : Nat) (rc : Reclaimer) (es : List ReclaimEvent) : Prop where
  channels : rc.taskTxs.length = k
  sequence : rc.sequence = (acceptedTasks es).length
  perRunner : ∀ i < k, receivedBy i es ++ rc.inFlight i = turns k i (acceptedTasks es)

theorem routed_started (n : Nat) : Routed n ⟨n, 0, List.replicate n none, none⟩ [] :=
  ⟨List.length_replicate _ _, rfl, fun i hi => by
    simp [inFlight, waiting, turns, turnsFrom, acceptedTasks, receivedBy, List.getElem?_replicate, hi]⟩

variable {k : Nat}

/-- What a step must do to keep the dispatch routed: keep the number of
    channels, count the tasks it accepts, and for each runner show as
    received or in flight what was in flight plus its turns among the new
    tasks. -/
theorem Routed.next {rc rc' : Reclaimer} {es e : List ReclaimEvent} (hr : Routed k rc es)
    (hlen : rc'.taskTxs.length = rc.taskTxs.length)
    (hseq : rc'.sequence = rc.sequence + (acceptedTasks e).length)
    (hturns : ∀ i < k, receivedBy i e ++ rc'.inFlight i =
      rc.inFlight i ++ turnsFrom k i rc.sequence (acceptedTasks e)) :
    Routed k rc' (es ++ e) := by
  refine ⟨hlen.trans hr.channels, by rw [hseq, hr.sequence, acceptedTasks_append, List.length_append],
    fun i hi => ?_⟩
  rw [receivedBy_append, List.append_assoc, hturns i hi, ← List.append_assoc, hr.perRunner i hi,
    acceptedTasks_append, turns, turns, turnsFrom_append, Nat.zero_add, hr.sequence]

/-- A step that accepts and moves nothing. -/
theorem Routed.quiet {rc : Reclaimer} {es : List ReclaimEvent} (hr : Routed k rc es)
    (r : SubmitResult) : Routed k rc (es ++ [.returned r]) :=
  hr.next rfl rfl fun i _ => by simp [receivedBy, ReclaimEvent.receivedBy?, acceptedTasks,
    ReclaimEvent.accepted?, turnsFrom]

theorem inFlight_of_set {rc rc' : Reclaimer} {j i : Nat} {x : Option ReclaimTask}
    (hj : j < rc.taskTxs.length) (ht : rc'.taskTxs = rc.taskTxs.set j x) :
    rc'.inFlight i = (if j = i then x.toList else (rc.taskTxs[i]?.join).toList) ++ rc'.waiting i := by
  simp only [inFlight, ht, List.getElem?_set]
  split <;> simp_all

/-- Every step but `run` keeps the dispatch routed. -/
theorem routed_step {rc rc' : Reclaimer} {a : ReclaimerAction} {es e : List ReclaimEvent}
    (h : rc.step a = some (rc', e)) (ha : a ≠ .run) (hr : Routed k rc es) : Routed k rc' (es ++ e) := by
  obtain rfl := hr.channels
  cases a with
  | run => exact absurd rfl ha
  | submit t =>
    simp only [step] at h
    split_ifs at h with hs hk
    · cases h; exact hr.quiet _
    · cases h
      have hw : rc.sending = none := Option.not_isSome_iff_eq_none.1 hs
      refine hr.next rfl (by simp [acceptedTasks, ReclaimEvent.accepted?]) fun i _ => ?_
      simp [inFlight, waiting, hw, receivedBy, ReclaimEvent.receivedBy?, acceptedTasks,
        ReclaimEvent.accepted?, turnsFrom]
  | send =>
    simp only [step] at h
    split at h
    · rename_i j t hs
      split_ifs at h with hj
      cases h
      have hlt : j < rc.taskTxs.length := (List.getElem?_eq_some_iff.1 hj).1
      refine hr.next (List.length_set ..) rfl fun i _ => ?_
      rw [inFlight_of_set hlt rfl]
      by_cases hji : j = i
      · subst hji
        simp [inFlight, waiting, hs, hj, receivedBy, ReclaimEvent.receivedBy?, acceptedTasks,
          ReclaimEvent.accepted?, turnsFrom]
      · simp [inFlight, waiting, hs, hji, receivedBy, ReclaimEvent.receivedBy?, acceptedTasks,
          ReclaimEvent.accepted?, turnsFrom]
    · cases h
  | trySubmit t =>
    simp only [step] at h
    split_ifs at h with hs hk hj
    · cases h; exact hr.quiet _
    · cases h
      have hw : rc.sending = none := Option.not_isSome_iff_eq_none.1 hs
      have hlt : rc.sequence % rc.taskTxs.length < rc.taskTxs.length := Nat.mod_lt _ (by omega)
      refine hr.next (List.length_set ..) (by simp [acceptedTasks, ReclaimEvent.accepted?]) fun i _ => ?_
      rw [inFlight_of_set hlt rfl]
      by_cases hji : rc.sequence % rc.taskTxs.length = i
      · subst hji
        simp [inFlight, waiting, hw, hj, receivedBy, ReclaimEvent.receivedBy?, acceptedTasks,
          ReclaimEvent.accepted?, turnsFrom]
      · simp [inFlight, waiting, hw, hji, receivedBy, ReclaimEvent.receivedBy?, acceptedTasks,
          ReclaimEvent.accepted?, turnsFrom]
    · cases h; exact hr.quiet _
  | recv j =>
    simp only [step] at h
    split at h
    · rename_i t hj
      cases h
      have hlt : j < rc.taskTxs.length := (List.getElem?_eq_some_iff.1 hj).1
      refine hr.next (List.length_set ..) rfl fun i _ => ?_
      rw [inFlight_of_set hlt rfl]
      by_cases hji : j = i
      · subst hji
        simp [inFlight, hj, receivedBy, ReclaimEvent.receivedBy?, acceptedTasks,
          ReclaimEvent.accepted?, turnsFrom, waiting]
      · simp [inFlight, hji, receivedBy, ReclaimEvent.receivedBy?, acceptedTasks,
          ReclaimEvent.accepted?, turnsFrom, waiting]
    · cases h

theorem routed_run {rc rc' : Reclaimer} {as : List ReclaimerAction} {es es' : List ReclaimEvent}
    (h : rc.run as = some (rc', es')) (hno : ReclaimerAction.run ∉ as) (hr : Routed k rc es) :
    Routed k rc' (es ++ es') := by
  induction as generalizing rc es es' with
  | nil => cases h; simpa using hr
  | cons a as ih =>
    simp only [run] at h
    split at h
    · rename_i rc₁ es₁ h₁
      split at h
      · rename_i rc₂ es₂ h₂
        cases h
        rw [← List.append_assoc]
        exact ih h₂ (fun hm => hno (List.mem_cons_of_mem _ hm))
          (routed_step h₁ (fun ha => hno (ha ▸ List.mem_cons_self _ _)) hr)
      · cases h
    · cases h

/-- Over every run of a new reclaimer that starts its `n` runners once,
    the sequence counts the accepted tasks, and runner `i`'s received tasks,
    then its buffer, then a `send` waiting for it, are exactly the accepted
    tasks at the positions `p` with `p % n = i`, in order. -/
theorem runner_receives_its_turns {n : Nat} {as : List ReclaimerAction} {rc : Reclaimer}
    {es : List ReclaimEvent} (h : (new n).run (.run :: as) = some (rc, es))
    (hno : ReclaimerAction.run ∉ as) {i : Nat} (hi : i < n) :
    rc.sequence = (acceptedTasks es).length ∧
      receivedBy i es ++ rc.inFlight i = turns n i (acceptedTasks es) := by
  simp only [run, step, new, Option.isSome_none, Bool.false_eq_true, if_false, List.nil_append] at h
  split at h
  · cases h
    have hr := routed_run ‹_› hno (routed_started n)
    exact ⟨hr.sequence, hr.perRunner i hi⟩
  · cases h

/-- Two runners: a `submit` and a `try_submit` fill both buffers, a second
    `try_submit` finds runner 0's buffer full, runner 0 receives, and the
    retried `try_submit` goes to runner 0. -/
def dispatchTrace : List ReclaimerAction :=
  [.submit ⟨10⟩, .send, .trySubmit ⟨11⟩, .trySubmit ⟨12⟩, .recv 0, .trySubmit ⟨12⟩, .recv 1]

theorem runner_receives_its_turns_two :
    ∃ rc es, (new 2).run (.run :: dispatchTrace) = some (rc, es) ∧
      (rc.sequence = (acceptedTasks es).length ∧
        receivedBy 0 es ++ rc.inFlight 0 = turns 2 0 (acceptedTasks es)) :=
  ⟨_, _, rfl, @runner_receives_its_turns 2 dispatchTrace _ _ rfl (by decide) 0 (by decide)⟩

end Reclaimer

end Foyer
