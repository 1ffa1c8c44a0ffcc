import Foyer.Basic

/-! # The rated-ticket reinsertion policy

    `RatedTicketReinsertionPolicy::judge` charges its `RatedTicket` for the
    bytes reinserted since its last charge: it loads the counter
    `op_bytes_reinsert`, loads `last`, and, when the counter has moved past
    `last`, stores the counter in `last` and calls `reduce` with the
    difference. Each of the four is one atomic step (`Relaxed` loads and
    stores, and a call on the ticket); nothing makes the four steps of one
    call atomic together. `RatedTicket` belongs to foyer-common, which is not
    among the sources: `probe`, which decides the judgement, is left out, and
    `reduce` is modelled by the total it has been given.

    A run interleaves any number of calls with the growth of the counter.
    What holds: no byte is lost, since every value a finished call loaded is
    covered by the charges (Section 2). What does not: two calls that load
    the same `last` both charge the bytes after it (Section 3). -/

namespace Foyer

namespace RatedTicket

/-! ## Section 1: Calls and their atomic steps -/

/-- Where one `judge` call is between its atomic steps, with its locals. -/
inductive Phase where
  /-- Called; it will load `op_bytes_reinsert`. -/
  | start
  /-- It has loaded `current`; it will load `last`. -/
  | loaded (current : Nat)
  /-- It has loaded `last` too; it will compare, and store `current` in
      `last` if `current.saturating_sub(last) > 0`. -/
  | compared (current last : Nat)
  /-- It has stored `last`; it will call `reduce(delta)`. -/
  | storing (current delta : Nat)
  /-- It has returned. -/
  | done (current : Nat)
  deriving DecidableEq, Repr

/-- The shared words and the calls. -/
structure State where
  /-- The metric `op_bytes_reinsert`. -/
  opBytesReinsert : Nat
  /-- `last`. -/
  last : Nat
  /-- The total passed to `RatedTicket::reduce`. -/
  reduced : Nat
  /-- The `judge` calls, in the order they were made. -/
  calls : List Phase
  deriving DecidableEq, Repr

/-- The steps of a run. -/
inductive Action where
  /-- Reinsertions add `n` bytes to `op_bytes_reinsert`, which only grows. -/
  | grow (n : Nat)
  /-- A new `judge` call. -/
  | judge
  /-- Call `t` takes its next atomic step. -/
  | step (t : Nat)

/-- `RatedTicketReinsertionPolicy::new`: `last` is `0`; the counter starts at
    `0` with the store's metrics. -/
def init : State := ⟨0, 0, 0, []⟩

/-- The next atomic step of a call in phase `ph`, on the state it sees: the
    state after it and the call's next phase, or `none` once it returned. -/
def callStep (s : State) : Phase → Option (State × Phase)
  | .start => some (s, .loaded s.opBytesReinsert)
  | .loaded current => some (s, .compared current s.last)
  | .compared current last =>
    let delta := current - last
    if delta > 0 then some ({ s with last := current }, .storing current delta)
    else some (s, .done current)
  | .storing current delta => some ({ s with reduced := s.reduced + delta }, .done current)
  | .done _ => none

/-- One step of a run; `none` when it cannot happen. -/
def step (s : State) : Action → Option State
  | .grow n => some { s with opBytesReinsert := s.opBytesReinsert + n }
  | .judge => some { s with calls := s.calls ++ [.start] }
  | .step t => do
    let ph ← s.calls[t]?
    let (s', ph') ← callStep s ph
    some { s' with calls := s.calls.set t ph' }

/-- A run of actions, each of which must be able to happen. -/
def run : State → List Action → Option State
  | s, [] => some s
  | s, a :: as => (step s a).bind (run · as)

/-! ## Section 2: No byte is lost -/

/-- What a call has stored in `last` and not yet passed to `reduce`. -/
def Phase.charge : Phase → Nat
  | .storing _ delta => delta
  | _ => 0

/-- The charges stored and not yet passed to `reduce`. -/
def pending : List Phase → Nat
  | [] => 0
  | ph :: phs => ph.charge + pending phs

/-- What has been charged: passed to `reduce`, or stored and about to be. -/
def charged (s : State) : Nat := s.reduced + pending s.calls

theorem pending_append (l : List Phase) (ph : Phase) :
    pending (l ++ [ph]) = pending l + ph.charge := by
  induction l with
  | nil => simp [pending]
  | cons x l ih => rw [List.cons_append, pending, pending, ih]; omega

theorem pending_set : ∀ (l : List Phase) (t : Nat) (ph x : Phase), l[t]? = some ph →
    pending (l.set t x) + ph.charge = pending l + x.charge
  | [], _, _, _, h => nomatch h
  | y :: l, 0, ph, x, h => by
    simp only [List.getElem?_cons_zero, Option.some.injEq] at h
    subst h; simp only [List.set_cons_zero, pending]; omega
  | y :: l, t + 1, ph, x, h => by
    have := pending_set l t ph x (by simpa using h)
    simp only [List.set_cons_succ, pending]; omega

/-- A value the call has loaded and that the charges must cover: the `last`
    it compares with, or the `current` it stored or found not above `last`. -/
def Covered (charged : Nat) : Phase → Prop
  | .compared _ last => last ≤ charged
  | .storing current _ => current ≤ charged
  | .done current => current ≤ charged
  | _ => True

theorem Covered.mono {a b : Nat} (hab : a ≤ b) : ∀ {ph : Phase}, Covered a ph → Covered b ph
  | .start, _ | .loaded _, _ => trivial
  | .compared _ _, h | .storing _ _, h | .done _, h => Nat.le_trans h hab

/-- The invariant: `last` and every value a call loaded are covered by what
    has been charged. -/
structure Inv (s : State) : Prop where
  last_le : s.last ≤ charged s
  covered : ∀ ph ∈ s.calls, Covered (charged s) ph

theorem inv_init : Inv init := ⟨le_refl _, nofun⟩

/-- A step that changes the calls only at `t` keeps the invariant when it
    lowers no charge and the state's `last` and the call's new phase are
    covered. -/
theorem inv_set {s s₁ : State} {t : Nat} {ph' : Phase} (hi : Inv s)
    (hcalls : s₁.calls = s.calls.set t ph') (hc : charged s ≤ charged s₁)
    (hl : s₁.last ≤ charged s₁) (hph : Covered (charged s₁) ph') : Inv s₁ :=
  ⟨hl, fun q hq => by
    rw [hcalls] at hq
    rcases List.mem_or_eq_of_mem_set hq with hq | rfl
    · exact (hi.covered q hq).mono hc
    · exact hph⟩

/-- One atomic step of a call keeps the invariant: a load is covered by what
    was charged before, a store charges the bytes past the `last` it loaded,
    and `reduce` moves a charge from pending to passed. -/
theorem callStep_inv {s s' : State} {t : Nat} {ph ph' : Phase} (hi : Inv s)
    (ht : s.calls[t]? = some ph) (h : callStep s ph = some (s', ph')) :
    Inv { s' with calls := s.calls.set t ph' } := by
  have hset := pending_set s.calls t ph ph' ht
  have hcov := hi.covered ph (List.mem_iff_getElem?.2 ⟨t, ht⟩)
  have hlast := hi.last_le
  simp only [charged] at hlast hcov
  cases ph <;> simp only [callStep] at h <;> (try split at h) <;> cases h
  all_goals
    simp only [Phase.charge, Covered] at hset hcov
    exact inv_set hi rfl (by simp only [charged]; omega) (by simp only [charged]; omega)
      (by simp only [Covered, charged] <;> omega)

theorem step_inv {s s' : State} {a : Action} (hi : Inv s) (h : step s a = some s') : Inv s' := by
  cases a with
  | grow n => cases h; exact ⟨hi.last_le, hi.covered⟩
  | judge =>
    cases h
    have hc : charged { s with calls := s.calls ++ [.start] } = charged s := by
      simp [charged, pending_append, Phase.charge]
    refine ⟨hc ▸ hi.last_le, fun q hq => ?_⟩
    rcases List.mem_append.1 hq with hq | hq
    · exact hc ▸ hi.covered q hq
    · rw [List.mem_singleton.1 hq]; trivial
  | step t =>
    simp only [step, bind, Option.bind_eq_some] at h
    obtain ⟨ph, ht, ⟨s₁, ph'⟩, hc, h⟩ := h
    cases h
    exact callStep_inv hi ht hc

theorem run_inv {s s' : State} {as : List Action} (hi : Inv s) (h : run s as = some s') : Inv s' := by
  induction as generalizing s with
  | nil => cases h; exact hi
  | cons a as ih =>
    simp only [run, Option.bind_eq_some] at h
    obtain ⟨s₁, hs, h⟩ := h
    exact ih (step_inv hi hs) h

/-- In every run, whatever the interleaving, each finished call's `current`
    and the value in `last` are covered by what has been charged; once no
    call is between its store and its `reduce`, by what was passed to
    `reduce`: no reinserted byte a call saw goes uncharged. -/
theorem charges_cover_run {s : State} {as : List Action} (h : run init as = some s) :
    s.last ≤ s.reduced + pending s.calls ∧
      ∀ current, Phase.done current ∈ s.calls → current ≤ s.reduced + pending s.calls :=
  have hi := run_inv inv_init h
  ⟨hi.last_le, fun _ hc => hi.covered _ hc⟩

/-! ## Section 3: Bytes charged twice -/

/-- Ten bytes are reinserted; two `judge` calls both load the counter (10)
    and `last` (0) before either stores; each stores 10 and calls
    `reduce(10)`. -/
def doubleChargeTrace : List Action :=
  [.grow 10, .judge, .judge, .step 0, .step 0, .step 1, .step 1, .step 0, .step 0, .step 1, .step 1]

/-- The counter grew by 10 and both calls returned, and 20 was passed to
    `reduce`. -/
theorem judge_charges_bytes_twice :
    run init doubleChargeTrace = some ⟨10, 10, 20, [.done 10, .done 10]⟩ := by
  decide

end RatedTicket

end Foyer
