import SamdCore.CdcDriverRuns

/-!
Whether a registered callback is served: once the device is configured, its
endpoint has a transfer outstanding, or it has been run since it was registered
and its latest run declined.

The tx direction always is. In the rx direction registration tests the readiness
of the other endpoint, and what follows depends on the two agreeing: a callback
registered while only OUT is ready is not run, and nothing will run it; one
registered while only IN is ready is run over a transfer still outstanding.
-/
namespace SamdCore
open MachineRuns

variable {σ κ ρ α β : Type}

def txStanding (standing : Option (κ × Option α)) : Action κ ρ α β → Option (κ × Option α)
  | .setTxCallback _ => none
  | .runTxCallback cb _ reply => some (cb, reply)
  | _ => standing

def rxStanding (standing : Option (ρ × Option β)) : Action κ ρ α β → Option (ρ × Option β)
  | .setRxCallback _ => none
  | .runRxCallback cb _ _ reply => some (cb, reply)
  | _ => standing

/-- The latest run of a tx callback since one was registered, with what it returned. -/
def latestTxRun (as : List (Action κ ρ α β)) : Option (κ × Option α) := as.foldl txStanding none

def latestRxRun (as : List (Action κ ρ α β)) : Option (ρ × Option β) := as.foldl rxStanding none

theorem latestTxRun_txPart (before as : List (Action κ ρ α β)) :
    latestTxRun (before ++ txPart as) = latestTxRun (before ++ as) := by
  rw [latestTxRun, latestTxRun, List.foldl_append, List.foldl_append, txPart, List.foldl_filter]
  congr 1
  funext standing a
  cases a <;> rfl

theorem latestRxRun_rxPart (before as : List (Action κ ρ α β)) :
    latestRxRun (before ++ rxPart as) = latestRxRun (before ++ as) := by
  rw [latestRxRun, latestRxRun, List.foldl_append, List.foldl_append, rxPart, List.foldl_filter]
  congr 1
  funext standing a
  cases a <;> rfl

/-- One direction in good order: an endpoint, its callback, and the latest run of it. -/
structure Channel {τ γ δ : Type} (ep : Endpoint τ) (callback : Option γ)
    (latest : Option (γ × Option δ)) : Prop where
  off : ep.enabled = false → ep.outstanding = []
  single : ep.outstanding.length ≤ 1
  served : ep.enabled = true →
    ∀ cb, callback = some cb → ep.outstanding ≠ [] ∨ latest = some (cb, none)

/-- What a configured device owes to the callbacks registered with it. -/
structure Served (t : List (DriverStep σ κ ρ α β)) (d : Driver σ κ ρ α β) : Prop where
  tx : ∀ cb, d.txCallback = some cb →
    d.epIn.outstanding ≠ [] ∨ latestTxRun (actions t) = some (cb, none)
  rx : ∀ cb, d.rxCallback = some cb →
    d.epOut.outstanding ≠ [] ∨ latestRxRun (actions t) = some (cb, none)

def DriverEvent.direct : DriverEvent κ ρ → Bool
  | .runTxCallback | .runRxCallback => true
  | _ => false

def DriverEvent.registers : DriverEvent κ ρ → Bool
  | .setTxCallback _ | .setRxCallback _ => true
  | _ => false

/-- The registrations of a rx callback for which the test of the IN endpoint does
what a test of the OUT endpoint would: OUT is not ready alone, and when IN is
ready alone the callback declines. -/
def registersInTurn (C : Callbacks σ κ ρ α β) (d : Driver σ κ ρ α β) : DriverEvent κ ρ → Prop
  | .setRxCallback (some cb) =>
      (d.epOut.ready = true → d.epIn.ready = true) ∧
      (d.epIn.ready = true → d.epOut.busy = true →
        (C.rx cb d.currentRxBuffer 0 d.client).1 = none)
  | _ => True

namespace Driver
variable {C : Callbacks σ κ ρ α β} {d d' : Driver σ κ ρ α β}
variable {history acts out : List (Action κ ρ α β)} {event : DriverEvent κ ρ}

theorem ready_idle {τ : Type} {ep : Endpoint τ} (h : ep.ready = true) :
    ep.enabled = true ∧ ep.outstanding = [] := by
  simpa [Endpoint.ready] using h

theorem busy_of_not_ready {τ : Type} {ep : Endpoint τ} (on : ep.enabled = true)
    (h : ep.ready = false) : ep.outstanding ≠ [] := by
  simpa [Endpoint.ready, on] using h

theorem busy_iff {τ : Type} {ep : Endpoint τ} : ep.busy = true ↔ ep.outstanding ≠ [] := by
  simp [Endpoint.busy]

theorem runTx_channel (history : List (Action κ ρ α β)) (len : Nat)
    (on : d.epIn.enabled = true) (idle : d.epIn.outstanding = [])
    (same : SameTx (d.usbserialRunTxCallback C len).1 d') :
    Channel d'.epIn d'.txCallback (latestTxRun (history ++ (d.usbserialRunTxCallback C len).2)) ∧
      ∀ a ∈ (d.usbserialRunTxCallback C len).2, ¬ a.restarts := by
  rw [same.epIn, same.txCallback, latestTxRun, List.foldl_append]
  cases runTx_cases C d len with
  | absent hcb h =>
      rw [h]
      exact ⟨⟨fun _ => idle, by simp [idle], fun _ c hc => by simp [hcb] at hc⟩, by simp⟩
  | declined hcb h =>
      rw [h]
      refine ⟨⟨fun _ => idle, by simp [idle], fun _ c hc => Or.inr ?_⟩, by simp [Action.restarts]⟩
      obtain rfl := Option.some.inj (hcb.symm.trans hc)
      rfl
  | supplied _ h =>
      rw [h]
      refine ⟨⟨fun off => ?_, by simp [Endpoint.start, idle], fun _ c _ => Or.inl ?_⟩, ?_⟩
      · simp [Endpoint.start, on] at off
      · simp [Endpoint.start]
      · simp [Action.restarts, Endpoint.busy, idle]

theorem runRx_channel (history : List (Action κ ρ α β)) (len : Nat)
    (on : d.epOut.enabled = true) (idle : d.epOut.outstanding = [])
    (same : SameRx (d.usbserialRunRxCallback C len).1 d') :
    Channel d'.epOut d'.rxCallback (latestRxRun (history ++ (d.usbserialRunRxCallback C len).2)) ∧
      ∀ a ∈ (d.usbserialRunRxCallback C len).2, ¬ a.restarts := by
  rw [same.epOut, same.rxCallback, latestRxRun, List.foldl_append]
  cases runRx_cases C d len with
  | absent hcb h =>
      rw [h]
      exact ⟨⟨fun _ => idle, by simp [idle], fun _ c hc => by simp [hcb] at hc⟩, by simp⟩
  | declined hcb _ h =>
      rw [h]
      refine ⟨⟨fun _ => idle, by simp [idle], fun _ c hc => Or.inr ?_⟩, by simp [Action.restarts]⟩
      obtain rfl := Option.some.inj (hcb.symm.trans hc)
      rfl
  | supplied _ _ h =>
      rw [h]
      refine ⟨⟨fun off => ?_, by simp [Endpoint.start, idle], fun _ c _ => Or.inl ?_⟩, ?_⟩
      · simp [Endpoint.start, on] at off
      · simp [Endpoint.start]
      · simp [Action.restarts, Endpoint.busy, idle]

/-- A busy endpoint is enabled, and has nothing outstanding once its transfer is handled. -/
theorem handled_idle {τ γ δ : Type} {ep : Endpoint τ} {callback : Option γ}
    {latest : Option (γ × Option δ)} (h : Channel ep callback latest) (busy : ep.busy = true) :
    ep.handled.enabled = true ∧ ep.handled.outstanding = [] := by
  have single := h.single
  have off := h.off
  cases hout : ep.outstanding with
  | nil => simp [Endpoint.busy, hout] at busy
  | cons x rest =>
      rw [hout, List.length_cons] at single
      have hrest : rest = [] := List.length_eq_zero_iff.mp (by omega)
      refine ⟨?_, by simp [Endpoint.handled, hout, hrest]⟩
      cases hon : ep.enabled with
      | false => simp [off hon] at hout
      | true => simpa [Endpoint.handled] using hon

theorem tx_channel (h : Channel d.epIn d.txCallback (latestTxRun history))
    (call : event.direct = false) (step : TxStep C d event acts d') :
    Channel d'.epIn d'.txCallback (latestTxRun (history ++ acts)) ∧ ∀ a ∈ acts, ¬ a.restarts := by
  cases step with
  | quiet _ _ _ same =>
      rw [same.epIn, same.txCallback, List.append_nil]
      exact ⟨h, by simp⟩
  | replaced busy same =>
      rw [same.epIn, same.txCallback]
      refine ⟨⟨h.off, h.single, fun on _ _ => Or.inl ?_⟩, by simp [Action.restarts]⟩
      exact busy_of_not_ready on busy
  | @registered cb _ ready same =>
      obtain ⟨on, idle⟩ := ready_idle ready
      obtain ⟨channel, quiet⟩ := runTx_channel (C := C) (d := { d with txCallback := cb })
        (history ++ [.setTxCallback cb]) 0 on idle same
      rw [List.append_cons]
      exact ⟨channel, List.forall_mem_cons.mpr ⟨id, quiet⟩⟩
  | direct _ => cases call
  | configured _ start same =>
      exact runTx_channel _ 0 (by rw [start.epIn]) (by rw [start.epIn]) same
  | completed busy start same =>
      obtain ⟨on, idle⟩ := handled_idle h busy
      exact runTx_channel _ _ (by rw [start.epIn, on]) (by rw [start.epIn, idle]) same

/-- A rx callback run while OUT is busy leaves the endpoint as it is, if it declines. -/
theorem runRx_declined {len : Nat}
    (declines : ∀ cb, d.rxCallback = some cb →
      (C.rx cb d.currentRxBuffer len d.client).1 = none) :
    (d.usbserialRunRxCallback C len).1.epOut = d.epOut ∧
      ∀ a ∈ (d.usbserialRunRxCallback C len).2, ¬ a.restarts := by
  cases runRx_cases C d len with
  | absent _ h =>
      rw [h]
      exact ⟨rfl, by simp⟩
  | declined _ _ h =>
      rw [h]
      exact ⟨rfl, by simp [Action.restarts]⟩
  | supplied hcb hoffer _ => exact absurd (hoffer.symm.trans (declines _ hcb)) (by simp)

theorem rx_channel (h : Channel d.epOut d.rxCallback (latestRxRun history))
    (together : d.epIn.enabled = d.epOut.enabled) (call : event.direct = false)
    (turn : registersInTurn C d event) (step : RxStep C d event acts d') :
    Channel d'.epOut d'.rxCallback (latestRxRun (history ++ acts)) ∧
      ∀ a ∈ acts, ¬ a.restarts := by
  cases step with
  | quiet _ _ _ same =>
      rw [same.epOut, same.rxCallback, List.append_nil]
      exact ⟨h, by simp⟩
  | replaced inBusy same =>
      rw [same.epOut, same.rxCallback]
      refine ⟨⟨h.off, h.single, ?_⟩, by simp [Action.restarts]⟩
      rintro on cb rfl
      refine Or.inl fun idle => ?_
      have ready : d.epOut.ready = true := by rw [Endpoint.ready, on, idle]; rfl
      exact absurd (turn.1 ready) (Bool.eq_false_iff.mp inBusy)
  | @registered cb _ ready same =>
      have on : d.epOut.enabled = true := together ▸ (ready_idle ready).1
      rw [List.append_cons]
      by_cases idle : d.epOut.outstanding = []
      · obtain ⟨channel, quiet⟩ := runRx_channel (C := C) (d := { d with rxCallback := cb })
          (history ++ [.setRxCallback cb]) 0 on idle same
        exact ⟨channel, List.forall_mem_cons.mpr ⟨id, quiet⟩⟩
      · have declines : ∀ c, cb = some c → (C.rx c d.currentRxBuffer 0 d.client).1 = none := by
          rintro c rfl
          exact turn.2 ready (busy_iff.mpr idle)
        obtain ⟨kept, quiet⟩ :=
          runRx_declined (C := C) (d := { d with rxCallback := cb }) declines
        refine ⟨?_, List.forall_mem_cons.mpr ⟨id, quiet⟩⟩
        rw [same.epOut, kept]
        exact ⟨h.off, h.single, fun _ _ _ => Or.inl idle⟩
  | direct _ => cases call
  | configured _ start same =>
      exact runRx_channel _ 0 (by rw [start.epOut]) (by rw [start.epOut]) same
  | completed busy start same =>
      obtain ⟨on, idle⟩ := handled_idle h busy
      exact runRx_channel _ _ (by rw [start.epOut, on]) (by rw [start.epOut, idle]) same

theorem runTx_enabled (len : Nat) :
    (d.usbserialRunTxCallback C len).1.epIn.enabled = d.epIn.enabled := by
  cases runTx_cases C d len with
  | absent _ h | declined _ h | supplied _ h => simp [h, Endpoint.start]

theorem runRx_enabled (len : Nat) :
    (d.usbserialRunRxCallback C len).1.epOut.enabled = d.epOut.enabled := by
  cases runRx_cases C d len with
  | absent _ h | declined _ _ h | supplied _ _ h => simp [h, Endpoint.start]

theorem TxStep.enabled (step : TxStep C d event acts d') :
    d'.epIn.enabled = (event.configures || d.epIn.enabled) := by
  cases step with
  | quiet _ _ still same => rw [same.epIn, still, Bool.false_or]
  | replaced _ same => rw [same.epIn]; rfl
  | registered _ same => rw [same.epIn, runTx_enabled]; rfl
  | direct same => rw [same.epIn, runTx_enabled]; rfl
  | configured on start same =>
      rw [same.epIn, runTx_enabled, start.epIn, DriverEvent.configures, decide_eq_true on]
      rfl
  | completed _ start same => rw [same.epIn, runTx_enabled, start.epIn]; rfl

theorem RxStep.enabled (step : RxStep C d event acts d') :
    d'.epOut.enabled = (event.configures || d.epOut.enabled) := by
  cases step with
  | quiet _ _ still same => rw [same.epOut, still, Bool.false_or]
  | replaced _ same => rw [same.epOut]; rfl
  | registered _ same => rw [same.epOut, runRx_enabled]; rfl
  | direct same => rw [same.epOut, runRx_enabled]; rfl
  | configured on start same =>
      rw [same.epOut, runRx_enabled, start.epOut, DriverEvent.configures, decide_eq_true on]
      rfl
  | completed _ start same => rw [same.epOut, runRx_enabled, start.epOut]; rfl

/-- The invariant of the driver along a history. -/
structure InOrder (history : List (Action κ ρ α β)) (d : Driver σ κ ρ α β) : Prop where
  enabled : d.epIn.enabled = d.epOut.enabled
  tx : Channel d.epIn d.txCallback (latestTxRun history)
  rx : Channel d.epOut d.rxCallback (latestRxRun history)

theorem inOrder_reset (client : σ) : InOrder [] (reset client : Driver σ κ ρ α β) :=
  ⟨rfl, ⟨fun _ => rfl, Nat.zero_le _, fun on => nomatch on⟩,
    ⟨fun _ => rfl, Nat.zero_le _, fun on => nomatch on⟩⟩

/-- The step lemma: what the callbacks are owed survives every step whose
registration is in turn, and no transfer is started over another. -/
theorem inOrder_step (h : InOrder history d) (call : event.direct = false)
    (turn : registersInTurn C d event) (taken : (driverMachine C).step d event = some (d', out)) :
    InOrder (history ++ out) d' ∧ ∀ a ∈ out, ¬ a.restarts := by
  obtain ⟨tx, txQuiet⟩ := tx_channel h.tx call (tx_step taken)
  obtain ⟨rx, rxQuiet⟩ := rx_channel h.rx h.enabled call turn (rx_step taken)
  rw [latestTxRun_txPart] at tx
  rw [latestRxRun_rxPart] at rx
  have enabled : d'.epIn.enabled = d'.epOut.enabled := by
    rw [(tx_step taken).enabled, (rx_step taken).enabled, h.enabled]
  exact ⟨⟨enabled, tx, rx⟩, fun a ha => (mem_part ha).elim (txQuiet a) (rxQuiet a)⟩

theorem inOrder_run {client : σ} {t : List (DriverStep σ κ ρ α β)}
    (h : (driverMachine C).Runs (reset client) t d) (calls : ∀ x ∈ t, x.event.direct = false)
    (turns : ∀ x ∈ t, registersInTurn C x.pre x.event) :
    InOrder (actions t) d ∧ ∀ x ∈ t, ∀ a ∈ x.out, ¬ a.restarts := by
  induction h with
  | nil => exact ⟨inOrder_reset client, by simp⟩
  | @snoc t s s' event out prev taken ih =>
      rw [List.forall_mem_append, List.forall_mem_singleton] at calls turns
      obtain ⟨order, quiet⟩ := ih calls.1 turns.1
      obtain ⟨order', quiet'⟩ := inOrder_step order calls.2 turns.2 taken
      rw [actions_snoc]
      refine ⟨order', ?_⟩
      rw [List.forall_mem_append, List.forall_mem_singleton]
      exact ⟨quiet, quiet'⟩

/-- Both endpoints are enabled together, whatever is registered when. -/
theorem enabled_together {client : σ} {t : List (DriverStep σ κ ρ α β)}
    (h : (driverMachine C).Runs (reset client) t d) : d.epIn.enabled = d.epOut.enabled := by
  refine h.invariant (P := fun d => d.epIn.enabled = d.epOut.enabled) rfl ?_
  intro d event d' out together taken
  rw [(tx_step taken).enabled, (rx_step taken).enabled, together]

/-- A registration out of turn either leaves its callback unserved or starts a
transfer over the outstanding one. -/
theorem out_of_turn (late : ¬ registersInTurn C d event) (step : RxStep C d event acts d') :
    event.registers = true ∧
      ((d'.epOut.enabled = true ∧ d'.epOut.outstanding = [] ∧
          ∃ cb, d'.rxCallback = some cb ∧ acts = [.setRxCallback (some cb)]) ∨
        ∃ a ∈ acts, a.restarts) := by
  cases event with
  | setRxCallback cb =>
      refine ⟨rfl, ?_⟩
      cases cb with
      | none => exact absurd trivial late
      | some cb =>
          cases step with
          | quiet other _ _ _ => exact absurd rfl (other (some cb))
          | replaced inBusy same =>
              have ready : d.epOut.ready = true := by
                by_contra notReady
                exact late ⟨fun h => absurd h notReady, fun h => by simp [inBusy] at h⟩
              obtain ⟨on, idle⟩ := ready_idle ready
              rw [same.epOut]
              exact Or.inl ⟨on, idle, cb, same.rxCallback, rfl⟩
          | registered ready same =>
              right
              have offered : d.epOut.busy = true ∧
                  (C.rx cb d.currentRxBuffer 0 d.client).1 ≠ none := by
                by_contra fine
                refine late ⟨fun _ => ready, fun _ busy => ?_⟩
                by_contra offer
                exact fine ⟨busy, offer⟩
              cases runRx_cases C { d with rxCallback := some cb } 0 with
              | absent hc _ => cases hc
              | declined hc declined _ =>
                  obtain rfl := Option.some.inj hc
                  exact absurd declined offered.2
              | @supplied c p n _ _ _ hrun =>
                  rw [hrun]
                  exact ⟨.startOut d.epOut.busy ⟨c, p, n⟩, by simp, offered.1⟩
  | setTxCallback _ | runTxCallback | runRxCallback | setConfiguration _ | completion _ _ =>
      exact absurd trivial late

def configured (d : Driver σ κ ρ α β) : Prop := d.epIn.enabled = true ∧ d.epOut.enabled = true

/-- Along a run, no configured state has a callback unserved, and no registration
starts a transfer over an outstanding one. -/
def LeavesNoneUnserved (C : Callbacks σ κ ρ α β) (client : σ)
    (t : List (DriverStep σ κ ρ α β)) : Prop :=
  (∀ t₁ t₂ d₁, t = t₁ ++ t₂ → (driverMachine C).Runs (reset client) t₁ d₁ → d₁.configured →
      Served t₁ d₁) ∧
    ∀ x ∈ t, x.event.registers = true → ∀ a ∈ x.out, ¬ a.restarts

/-- No callback is left unserved in exactly the runs that register rx callbacks in turn. -/
theorem leavesNoneUnserved_iff (C : Callbacks σ κ ρ α β) (client : σ)
    {t : List (DriverStep σ κ ρ α β)} {d : Driver σ κ ρ α β}
    (h : (driverMachine C).Runs (reset client) t d) (calls : ∀ x ∈ t, x.event.direct = false) :
    LeavesNoneUnserved C client t ↔ ∀ x ∈ t, registersInTurn C x.pre x.event := by
  constructor
  · rintro ⟨served, quiet⟩ x hx
    by_contra late
    obtain ⟨t₁, t₂, rfl, before, taken⟩ := h.of_mem hx
    obtain ⟨registers, lost | ⟨a, ha, restarted⟩⟩ :=
      out_of_turn late (rx_step taken)
    · obtain ⟨on, idle, cb, hcb, hacts⟩ := lost
      have after := before.snoc taken
      have both : x.post.configured := ⟨(enabled_together after).trans on, on⟩
      have owed := (served (t₁ ++ [x]) t₂ x.post (by simp) after both).rx cb hcb
      rw [actions_snoc, ← latestRxRun_rxPart, hacts] at owed
      cases owed with
      | inl busy => exact busy idle
      | inr ran => simp [latestRxRun, rxStanding] at ran
    · exact quiet x hx registers a (List.mem_of_mem_filter ha) restarted
  · intro turns
    refine ⟨?_, fun x hx _ => (inOrder_run h calls turns).2 x hx⟩
    rintro t₁ t₂ d₁ rfl before ⟨onIn, onOut⟩
    rw [List.forall_mem_append] at calls turns
    obtain ⟨order, -⟩ := inOrder_run before calls.1 turns.1
    exact ⟨order.tx.served onIn, order.rx.served onOut⟩

/-- Callbacks that always offer another transfer. -/
def eager : Callbacks Unit Unit Unit Unit Unit where
  tx _ _ _ _ := (some (), 1, ())
  rx _ _ _ _ := (some ((), 1), ())
  load _ _ _ := [0]

theorem leavesNoneUnserved_iff_eager :
    let run := (driverMachine eager).exec (reset ())
      [.setTxCallback (some ()), .setRxCallback (some ()), .setConfiguration 1,
        .completion (some 1) true, .setRxCallback (some ())]
    ∃ ran : run.isSome, LeavesNoneUnserved eager () (run.get ran).1 ↔
      ∀ x ∈ (run.get ran).1, registersInTurn eager x.pre x.event :=
  ⟨rfl, leavesNoneUnserved_iff eager () (Machine.runs_exec rfl) (by decide)⟩

/-- A rx callback registered while a transmission is outstanding is never run. -/
theorem rx_registered_behind_transmission :
    let run := (driverMachine eager).exec (reset ())
      [.setTxCallback (some ()), .setConfiguration 1, .setRxCallback (some ())]
    ∃ ran : run.isSome, ¬ LeavesNoneUnserved eager () (run.get ran).1 := by
  refine ⟨rfl, fun ⟨served, _⟩ => ?_⟩
  have owed := (served _ [] _ (List.append_nil _).symm (Machine.runs_exec rfl) ⟨rfl, rfl⟩).rx () rfl
  revert owed
  decide

end Driver
end SamdCore
