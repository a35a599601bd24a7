import SamdCore.CdcDriverService

/-!
To whom the driver credits a completed transfer.

It keeps one length and one buffer a direction, next to a callback pointer that
can be replaced, and no record of who supplied a transfer: a completion goes to
the callback registered when it is handled. As long as no callback is run behind
a transfer that is outstanding, that report is made once, and it is of the
transfer that completed.
-/
namespace SamdCore
open MachineRuns

variable {σ κ ρ α β : Type}

/-- The runs of tx callbacks among some actions, with the lengths reported to them. -/
def txReports (as : List (Action κ ρ α β)) : List (κ × Nat) :=
  as.filterMap fun
    | .runTxCallback cb len _ => some (cb, len)
    | _ => none

def rxReports (as : List (Action κ ρ α β)) : List (ρ × Option β × Nat) :=
  as.filterMap fun
    | .runRxCallback cb buffer len _ => some (cb, buffer, len)
    | _ => none

theorem txReports_txPart (as : List (Action κ ρ α β)) : txReports (txPart as) = txReports as := by
  induction as with
  | nil => rfl
  | cons a as ih => cases a <;> first | exact ih | exact congrArg (List.cons _) ih

theorem rxReports_rxPart (as : List (Action κ ρ α β)) : rxReports (rxPart as) = rxReports as := by
  induction as with
  | nil => rfl
  | cons a as ih => cases a <;> first | exact ih | exact congrArg (List.cons _) ih

def DriverEvent.completes : DriverEvent κ ρ → Bool
  | .completion _ _ => true
  | _ => false

def DriverEvent.setsTx : DriverEvent κ ρ → Bool
  | .setTxCallback _ => true
  | _ => false

def DriverEvent.setsRx : DriverEvent κ ρ → Bool
  | .setRxCallback _ => true
  | _ => false

/-- Every completion that is reported with a length goes to the supplier of the
transfer that completed, and every transfer whose supplier is registered again
is reported to it once. -/
structure CreditsSuppliers (t : List (DriverStep σ κ ρ α β)) : Prop where
  tx : ∀ x ∈ t, x.event.completes = true → ∀ report ∈ txReports x.out, report.2 ≠ 0 →
    ∃ done, x.pre.epIn.outstanding.head? = some done ∧ done.supplier = report.1 ∧
      done.length = report.2
  rx : ∀ x ∈ t, x.event.completes = true → ∀ report ∈ rxReports x.out, report.2.2 ≠ 0 →
    ∃ done, x.pre.epOut.outstanding.head? = some done ∧ done.supplier = report.1
  tx_once : ∀ past x future outLength done, t = past ++ x :: future →
    x.event = .completion outLength true → x.pre.epIn.outstanding.head? = some done →
    (∃ y ∈ future, y.event = .setTxCallback (some done.supplier)) →
    txReports x.out = [(done.supplier, done.length)]
  rx_once : ∀ past x future length inPending done, t = past ++ x :: future →
    x.event = .completion (some length) inPending → x.pre.epOut.outstanding.head? = some done →
    (∃ y ∈ future, y.event = .setRxCallback (some done.supplier)) →
    (rxReports x.out).map (fun report => (report.1, report.2.2)) = [(done.supplier, length % 256)]

/-- Steps that run no tx callback behind a transfer: only a direct run could. -/
def txUndisturbed (d : Driver σ κ ρ α β) : DriverEvent κ ρ → Bool
  | .runTxCallback => !d.epIn.busy
  | _ => true

/-- The same for rx, where a registration could too: it asks for the IN endpoint. -/
def rxUndisturbed (d : Driver σ κ ρ α β) : DriverEvent κ ρ → Bool
  | .runRxCallback => !d.epOut.busy
  | .setRxCallback _ => !(d.epIn.ready && d.epOut.busy)
  | _ => true

/-- A transfer was started in the past, for the callback that is still registered
if no registration came after. -/
def SuppliedIn {τ γ : Type} (started : List (Action κ ρ α β) → List τ)
    (sets : DriverEvent κ ρ → Bool) (supplier : τ → γ) (past : List (DriverStep σ κ ρ α β))
    (registered : Option γ) (x : τ) : Prop :=
  ∃ before start after, past = before ++ start :: after ∧ x ∈ started start.out ∧
    ((∀ y ∈ after, sets y.event = false) → registered = some (supplier x))

/-- The completed IN transfer is reported once, with its own length, to the callback
registered now. -/
structure TxCredited (past : List (DriverStep σ κ ρ α β)) (x : DriverStep σ κ ρ α β)
    (done : InTransfer κ α) : Prop where
  outstanding : x.pre.epIn.outstanding = [done]
  report : txReports x.out = x.pre.txCallback.toList.map fun cb => (cb, done.length)
  supplied : SuppliedIn startedIn DriverEvent.setsTx InTransfer.supplier past x.pre.txCallback done

structure RxCredited (past : List (DriverStep σ κ ρ α β)) (x : DriverStep σ κ ρ α β)
    (length : Nat) (done : OutTransfer ρ β) : Prop where
  outstanding : x.pre.epOut.outstanding = [done]
  report : rxReports x.out =
    x.pre.rxCallback.toList.map fun cb => (cb, some done.buffer, length % 256)
  supplied : SuppliedIn startedOut DriverEvent.setsRx OutTransfer.supplier past
    x.pre.rxCallback done

namespace Driver
variable {C : Callbacks σ κ ρ α β} {d d' : Driver σ κ ρ α β} {client : σ}
variable {acts out : List (Action κ ρ α β)} {event : DriverEvent κ ρ}
variable {t past : List (DriverStep σ κ ρ α β)}

theorem runTx_txReports (C : Callbacks σ κ ρ α β) (d : Driver σ κ ρ α β) (len : Nat) :
    txReports (d.usbserialRunTxCallback C len).2 =
      d.txCallback.toList.map (fun cb => (cb, len)) := by
  cases runTx_cases C d len with
  | absent hcb h | declined hcb h | supplied hcb h =>
      rw [h, hcb]
      rfl

theorem runRx_rxReports (C : Callbacks σ κ ρ α β) (d : Driver σ κ ρ α β) (len : Nat) :
    rxReports (d.usbserialRunRxCallback C len).2 =
      d.rxCallback.toList.map (fun cb => (cb, d.currentRxBuffer, len)) := by
  cases runRx_cases C d len with
  | absent hcb h | declined hcb _ h | supplied hcb _ h =>
      rw [h, hcb]
      rfl

/-- What a step makes of the IN endpoint when it runs no callback behind a transfer. -/
inductive TxNext (d : Driver σ κ ρ α β) (event : DriverEvent κ ρ) (acts : List (Action κ ρ α β))
    (d' : Driver σ κ ρ α β) : Prop
  | idle : d'.epIn.outstanding = [] → TxNext d event acts d'
  | started (x : InTransfer κ α) : d'.epIn.outstanding = [x] → x ∈ startedIn acts →
      d'.currentTxLength = x.length → d'.txCallback = some x.supplier → TxNext d event acts d'
  | kept : d'.epIn.outstanding = d.epIn.outstanding → d'.currentTxLength = d.currentTxLength →
      (event.setsTx = false → d'.txCallback = d.txCallback) → TxNext d event acts d'

inductive RxNext (d : Driver σ κ ρ α β) (event : DriverEvent κ ρ) (acts : List (Action κ ρ α β))
    (d' : Driver σ κ ρ α β) : Prop
  | idle : d'.epOut.outstanding = [] → RxNext d event acts d'
  | started (x : OutTransfer ρ β) : d'.epOut.outstanding = [x] → x ∈ startedOut acts →
      d'.currentRxBuffer = some x.buffer → d'.rxCallback = some x.supplier →
      RxNext d event acts d'
  | kept : d'.epOut.outstanding = d.epOut.outstanding → d'.currentRxBuffer = d.currentRxBuffer →
      (event.setsRx = false → d'.rxCallback = d.rxCallback) → RxNext d event acts d'

theorem runTx_next {s : Driver σ κ ρ α β} (len : Nat) (idle : s.epIn.outstanding = [])
    (same : SameTx (s.usbserialRunTxCallback C len).1 d')
    (within : ∀ x ∈ startedIn (s.usbserialRunTxCallback C len).2, x ∈ startedIn acts) :
    TxNext d event acts d' := by
  cases runTx_cases C s len with
  | absent _ h | declined _ h => exact .idle (by rw [same.epIn, h]; exact idle)
  | @supplied cb p n client hcb h =>
      rw [h] at same within
      refine .started ⟨cb, p, n, false, C.load client p n⟩ ?_ (within _ ?_) ?_ ?_
      · rw [same.epIn, Endpoint.start, idle]; rfl
      · exact List.mem_singleton_self _
      · rw [same.currentTxLength]
      · rw [same.txCallback, hcb]

theorem runRx_next {s : Driver σ κ ρ α β} (len : Nat) (idle : s.epOut.outstanding = [])
    (same : SameRx (s.usbserialRunRxCallback C len).1 d')
    (within : ∀ x ∈ startedOut (s.usbserialRunRxCallback C len).2, x ∈ startedOut acts) :
    RxNext d event acts d' := by
  cases runRx_cases C s len with
  | absent _ h | declined _ _ h => exact .idle (by rw [same.epOut, h]; exact idle)
  | @supplied cb p n _ hcb _ h =>
      rw [h] at same within
      refine .started ⟨cb, p, n⟩ ?_ (within _ ?_) ?_ ?_
      · rw [same.epOut, Endpoint.start, idle]; rfl
      · exact List.mem_singleton_self _
      · rw [same.currentRxBuffer]
      · rw [same.rxCallback, hcb]

theorem idle_of_not_busy {τ : Type} {ep : Endpoint τ} (h : (!ep.busy) = true) :
    ep.outstanding = [] := by
  simpa [Endpoint.busy] using h

theorem handled_of_single {τ : Type} {ep : Endpoint τ} (one : ep.outstanding.length ≤ 1) :
    ep.handled.outstanding = [] := by
  have shorter : ep.handled.outstanding.length = ep.outstanding.length - 1 :=
    List.length_tail
  exact List.length_eq_zero_iff.mp (by omega)

theorem tx_next (one : d.epIn.outstanding.length ≤ 1) (calm : txUndisturbed d event = true)
    (step : TxStep C d event acts d') : TxNext d event acts d' := by
  cases step with
  | quiet _ _ _ same =>
      exact .kept (by rw [same.epIn]) same.currentTxLength fun _ => same.txCallback
  | replaced _ same =>
      exact .kept (by rw [same.epIn]) same.currentTxLength fun sets => nomatch sets
  | @registered cb _ ready same =>
      exact runTx_next (s := { d with txCallback := cb }) 0 (ready_idle ready).2 same
        fun _ hx => hx
  | direct same => exact runTx_next 0 (idle_of_not_busy calm) same fun _ hx => hx
  | configured _ start same =>
      exact runTx_next 0 (by rw [start.epIn]) same fun _ hx => hx
  | completed _ start same =>
      exact runTx_next _ (by rw [start.epIn, handled_of_single one]) same fun _ hx => hx

theorem rx_next (one : d.epOut.outstanding.length ≤ 1) (calm : rxUndisturbed d event = true)
    (step : RxStep C d event acts d') : RxNext d event acts d' := by
  cases step with
  | quiet _ _ _ same =>
      exact .kept (by rw [same.epOut]) same.currentRxBuffer fun _ => same.rxCallback
  | replaced _ same =>
      exact .kept (by rw [same.epOut]) same.currentRxBuffer fun sets => nomatch sets
  | @registered cb _ ready same =>
      rw [rxUndisturbed, ready, Bool.true_and] at calm
      have idle : d.epOut.outstanding = [] := idle_of_not_busy calm
      exact runRx_next (s := { d with rxCallback := cb }) 0 idle same fun _ hx => hx
  | direct same => exact runRx_next 0 (idle_of_not_busy calm) same fun _ hx => hx
  | configured _ start same =>
      exact runRx_next 0 (by rw [start.epOut]) same fun _ hx => hx
  | completed _ start same =>
      exact runRx_next _ (by rw [start.epOut, handled_of_single one]) same fun _ hx => hx

/-- The one IN transfer that can be outstanding is the one whose length is stored. -/
def TxTracked (past : List (DriverStep σ κ ρ α β)) (d : Driver σ κ ρ α β) : Prop :=
  d.epIn.outstanding = [] ∨ ∃ x, d.epIn.outstanding = [x] ∧ d.currentTxLength = x.length ∧
    SuppliedIn startedIn DriverEvent.setsTx InTransfer.supplier past d.txCallback x

def RxTracked (past : List (DriverStep σ κ ρ α β)) (d : Driver σ κ ρ α β) : Prop :=
  d.epOut.outstanding = [] ∨ ∃ x, d.epOut.outstanding = [x] ∧
    d.currentRxBuffer = some x.buffer ∧
    SuppliedIn startedOut DriverEvent.setsRx OutTransfer.supplier past d.rxCallback x

theorem TxTracked.single (h : TxTracked past d) : d.epIn.outstanding.length ≤ 1 := by
  cases h with
  | inl idle => simp [idle]
  | inr tracked =>
      obtain ⟨x, one, _⟩ := tracked
      simp [one]

theorem RxTracked.single (h : RxTracked past d) : d.epOut.outstanding.length ≤ 1 := by
  cases h with
  | inl idle => simp [idle]
  | inr tracked =>
      obtain ⟨x, one, _⟩ := tracked
      simp [one]

section supplied
variable {τ γ : Type} {started : List (Action κ ρ α β) → List τ} {sets : DriverEvent κ ρ → Bool}
variable {supplier : τ → γ} {registered : Option γ} {x : τ}

theorem SuppliedIn.now (y : DriverStep σ κ ρ α β) (hx : x ∈ started y.out)
    (same : registered = some (supplier x)) :
    SuppliedIn started sets supplier (past ++ [y]) registered x :=
  ⟨past, y, [], rfl, hx, fun _ => same⟩

theorem SuppliedIn.later {registered' : Option γ} (y : DriverStep σ κ ρ α β)
    (h : SuppliedIn started sets supplier past registered x)
    (same : sets y.event = false → registered' = registered) :
    SuppliedIn started sets supplier (past ++ [y]) registered' x := by
  obtain ⟨before, start, after, rfl, hx, kept⟩ := h
  refine ⟨before, start, after ++ [y], by simp, hx, fun quiet => ?_⟩
  rw [List.forall_mem_append, List.forall_mem_singleton] at quiet
  rw [same quiet.2, kept quiet.1]

end supplied

theorem txTracked_run (h : (driverMachine C).Runs (reset client) t d)
    (calm : ∀ x ∈ t, txUndisturbed x.pre x.event = true) : TxTracked t d := by
  induction h with
  | nil => exact Or.inl rfl
  | @snoc t s s' event out prev taken ih =>
      rw [List.forall_mem_append, List.forall_mem_singleton] at calm
      have before := ih calm.1
      cases tx_next before.single calm.2 (tx_step taken) with
      | idle idle => exact Or.inl idle
      | started x one hx stored registered =>
          rw [startedIn_txPart] at hx
          exact Or.inr ⟨x, one, stored, SuppliedIn.now ⟨s, event, out, s'⟩ hx registered⟩
      | kept outstanding stored registered =>
          rcases before with idle | ⟨x, one, length, supplied⟩
          · exact Or.inl (outstanding.trans idle)
          · exact Or.inr ⟨x, outstanding.trans one, stored.trans length,
              SuppliedIn.later ⟨s, event, out, s'⟩ supplied registered⟩

theorem rxTracked_run (h : (driverMachine C).Runs (reset client) t d)
    (calm : ∀ x ∈ t, rxUndisturbed x.pre x.event = true) : RxTracked t d := by
  induction h with
  | nil => exact Or.inl rfl
  | @snoc t s s' event out prev taken ih =>
      rw [List.forall_mem_append, List.forall_mem_singleton] at calm
      have before := ih calm.1
      cases rx_next before.single calm.2 (rx_step taken) with
      | idle idle => exact Or.inl idle
      | started x one hx stored registered =>
          rw [startedOut_rxPart] at hx
          exact Or.inr ⟨x, one, stored, SuppliedIn.now ⟨s, event, out, s'⟩ hx registered⟩
      | kept outstanding stored registered =>
          rcases before with idle | ⟨x, one, buffer, supplied⟩
          · exact Or.inl (outstanding.trans idle)
          · exact Or.inr ⟨x, outstanding.trans one, stored.trans buffer,
              SuppliedIn.later ⟨s, event, out, s'⟩ supplied registered⟩

theorem TxStep.completion_reports {outLength : Option Nat} {inPending : Bool}
    (step : TxStep C d (.completion outLength inPending) acts d') :
    txReports acts = if inPending then d.txCallback.toList.map (·, d.currentTxLength) else [] := by
  cases step with
  | quiet _ other _ _ =>
      cases inPending with
      | false => rfl
      | true => exact absurd rfl (other outLength)
  | completed _ start _ => rw [runTx_txReports, start.txCallback, if_pos rfl]

theorem RxStep.completion_reports {outLength : Option Nat} {inPending : Bool}
    (step : RxStep C d (.completion outLength inPending) acts d') :
    rxReports acts = outLength.elim []
      fun length => d.rxCallback.toList.map (·, d.currentRxBuffer, length % 256) := by
  cases step with
  | quiet _ other _ _ =>
      cases outLength with
      | none => rfl
      | some length => exact absurd rfl (other length inPending)
  | completed _ start _ =>
      rw [runRx_rxReports, start.rxCallback, start.currentRxBuffer]
      rfl

/-- Every completion is reported to the callback registered when it is handled, once
and as what it was; that callback is the supplier if none was registered since. -/
theorem completions_credited (C : Callbacks σ κ ρ α β) (client : σ)
    (h : (driverMachine C).Runs (reset client) t d) :
    ((∀ x ∈ t, txUndisturbed x.pre x.event = true) →
      ∀ past x future outLength inPending, t = past ++ x :: future →
        x.event = .completion outLength inPending →
        if inPending then ∃ done, TxCredited past x done else txReports x.out = []) ∧
    ((∀ x ∈ t, rxUndisturbed x.pre x.event = true) →
      ∀ past x future outLength inPending, t = past ++ x :: future →
        x.event = .completion outLength inPending →
        outLength.elim (rxReports x.out = [])
          fun length => ∃ done, RxCredited past x length done) := by
  constructor
  · rintro calm past ⟨d₁, _, out, d₂⟩ future outLength inPending rfl rfl
    obtain ⟨before, taken, -⟩ := h.at_step
    rw [List.forall_mem_append] at calm
    have reports := (tx_step taken).completion_reports
    rw [txReports_txPart] at reports
    cases inPending with
    | false => exact reports
    | true =>
        have busy := (reportable_iff.mp (completion_taken taken).1).2 rfl
        rcases txTracked_run before calm.1 with idle | ⟨done, one, length, supplied⟩
        · exact absurd idle (busy_iff.mp busy)
        · exact ⟨done, one, by rw [reports, length]; rfl, supplied⟩
  · rintro calm past ⟨d₁, _, out, d₂⟩ future outLength inPending rfl rfl
    obtain ⟨before, taken, -⟩ := h.at_step
    rw [List.forall_mem_append] at calm
    have reports := (rx_step taken).completion_reports
    rw [rxReports_rxPart] at reports
    cases outLength with
    | none => exact reports
    | some length =>
        have busy := (reportable_iff.mp (completion_taken taken).1).1 nofun
        rcases rxTracked_run before calm.1 with idle | ⟨done, one, buffer, supplied⟩
        · exact absurd idle (busy_iff.mp busy)
        · exact ⟨done, one, by rw [reports, buffer]; rfl, supplied⟩

/-- Callbacks that count their transfers: each is one byte longer than the last. -/
def counting : Callbacks Nat Bool Bool Unit Unit where
  tx _ _ _ n := (some (), n + 1, n + 1)
  rx _ _ _ n := (some ((), 1), n)
  load _ _ n := List.replicate n 0

theorem completions_credited_counting :
    let run := (driverMachine counting).exec (reset 0)
      [.setTxCallback (some true), .setRxCallback (some false), .setConfiguration 1,
        .completion (some 1) true]
    ∃ ran : run.isSome, ∃ past x, (run.get ran).1 = past ++ [x] ∧
      (∃ done, TxCredited past x done) ∧ ∃ done, RxCredited past x 1 done := by
  intro run
  have both := completions_credited counting 0 (t := (run.get rfl).1) (Machine.runs_exec rfl)
  refine ⟨rfl, (run.get rfl).1.take 3, (run.get rfl).1[3], rfl, ?_, ?_⟩
  · exact both.1 (by decide) _ _ [] (some 1) true rfl rfl
  · exact both.2 (by decide) _ _ [] (some 1) true rfl rfl

/-- Replacing a callback gives it the length of its predecessor's transfer; removing
one for a while loses a report; a direct run behind a transfer overwrites its length. And a
callback that is registered for a moment behind another's OUT transfer, and run directly or
by the registration, supplies one of its own, which the other is credited with. -/
theorem completions_miscredited :
    (let run := (driverMachine counting).exec (reset 0)
      [.setTxCallback (some true), .setConfiguration 1, .setTxCallback (some false),
        .completion none true]
    ∃ ran : run.isSome, ¬ CreditsSuppliers (run.get ran).1) ∧
    (let run := (driverMachine counting).exec (reset 0)
      [.setTxCallback (some true), .setConfiguration 1, .setTxCallback none,
        .completion none true, .setTxCallback (some true)]
    ∃ ran : run.isSome, ¬ CreditsSuppliers (run.get ran).1) ∧
    (let run := (driverMachine counting).exec (reset 0)
      [.setTxCallback (some true), .setConfiguration 1, .runTxCallback, .completion none true]
    ∃ ran : run.isSome, ¬ CreditsSuppliers (run.get ran).1) ∧
    (let run := (driverMachine counting).exec (reset 0)
      [.setRxCallback (some false), .setConfiguration 1, .setRxCallback (some true),
        .setRxCallback (some false), .completion (some 1) false, .completion (some 1) false]
    ∃ ran : run.isSome, ¬ CreditsSuppliers (run.get ran).1) ∧
    (let run := (driverMachine counting).exec (reset 0)
      [.setTxCallback (some true), .setRxCallback (some false), .setConfiguration 1,
        .setRxCallback (some true), .runRxCallback, .setRxCallback (some false),
        .completion (some 1) false, .completion (some 1) false]
    ∃ ran : run.isSome, ¬ CreditsSuppliers (run.get ran).1) := by
  refine ⟨?_, ?_, ?_, ?_, ?_⟩
  · intro run
    refine ⟨rfl, fun h => ?_⟩
    obtain ⟨done, hdone, supplier, -⟩ :=
      h.tx (run.get rfl).1[3] (List.getElem_mem _) rfl (false, 1) (by decide) (by decide)
    cases hdone
    cases supplier
  · intro run
    refine ⟨rfl, fun h => ?_⟩
    have report := h.tx_once ((run.get rfl).1.take 3) (run.get rfl).1[3] [(run.get rfl).1[4]]
      none _ rfl rfl rfl ⟨_, List.mem_singleton_self _, rfl⟩
    cases report
  · intro run
    refine ⟨rfl, fun h => ?_⟩
    obtain ⟨done, hdone, -, length⟩ :=
      h.tx (run.get rfl).1[3] (List.getElem_mem _) rfl (true, 2) (by decide) (by decide)
    cases hdone
    cases length
  · intro run
    refine ⟨rfl, fun h => ?_⟩
    obtain ⟨done, hdone, supplier⟩ :=
      h.rx (run.get rfl).1[5] (List.getElem_mem _) rfl (false, some (), 1) (by decide) (by decide)
    cases hdone
    cases supplier
  · intro run
    refine ⟨rfl, fun h => ?_⟩
    obtain ⟨done, hdone, supplier⟩ :=
      h.rx (run.get rfl).1[7] (List.getElem_mem _) rfl (false, some (), 1) (by decide) (by decide)
    cases hdone
    cases supplier

end Driver
end SamdCore
