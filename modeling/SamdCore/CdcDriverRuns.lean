import SamdCore.CdcDriverModel

/-!
What the steps of the driver can do, said once for each direction.

Every step is made of runs of the two callbacks. A run of one leaves the other
direction alone, and starts at most one transfer, on its own endpoint. `TxStep`
and `RxStep` list what a step can be for one direction; the actions of a step
are those of its two directions, in an order that no later result depends on.
-/
namespace SamdCore
open MachineRuns

variable {σ κ ρ α β : Type}

def actions (t : List (DriverStep σ κ ρ α β)) : List (Action κ ρ α β) :=
  t.flatMap (·.out)

theorem actions_snoc (t : List (DriverStep σ κ ρ α β)) (x : DriverStep σ κ ρ α β) :
    actions (t ++ [x]) = actions t ++ x.out := by
  simp [actions]

def Action.isTx : Action κ ρ α β → Bool
  | .setTxCallback _ | .runTxCallback _ _ _ | .startIn _ _ => true
  | _ => false

/-- The actions of the tx direction among some. -/
def txPart (as : List (Action κ ρ α β)) : List (Action κ ρ α β) := as.filter Action.isTx

def rxPart (as : List (Action κ ρ α β)) : List (Action κ ρ α β) := as.filter (!·.isTx)

theorem txPart_append (as bs : List (Action κ ρ α β)) :
    txPart (as ++ bs) = txPart as ++ txPart bs := List.filter_append ..

theorem rxPart_append (as bs : List (Action κ ρ α β)) :
    rxPart (as ++ bs) = rxPart as ++ rxPart bs := List.filter_append ..

/-- The transfers handed to `usb_ep_start_in` among some actions. -/
def startedIn (as : List (Action κ ρ α β)) : List (InTransfer κ α) :=
  as.filterMap fun
    | .startIn _ x => some x
    | _ => none

def startedOut (as : List (Action κ ρ α β)) : List (OutTransfer ρ β) :=
  as.filterMap fun
    | .startOut _ x => some x
    | _ => none

theorem startedIn_txPart (as : List (Action κ ρ α β)) : startedIn (txPart as) = startedIn as := by
  induction as with
  | nil => rfl
  | cons a as ih => cases a <;> first | exact ih | exact congrArg (List.cons _) ih

theorem startedOut_rxPart (as : List (Action κ ρ α β)) :
    startedOut (rxPart as) = startedOut as := by
  induction as with
  | nil => rfl
  | cons a as ih => cases a <;> first | exact ih | exact congrArg (List.cons _) ih

/-- A transfer started on an endpoint that has one outstanding already. -/
def Action.restarts : Action κ ρ α β → Prop
  | .startIn busy _ | .startOut busy _ => busy = true
  | _ => False

theorem mem_part {a : Action κ ρ α β} {as : List (Action κ ρ α β)} (ha : a ∈ as) :
    a ∈ txPart as ∨ a ∈ rxPart as := by
  cases h : a.isTx with
  | true => exact Or.inl (List.mem_filter.mpr ⟨ha, h⟩)
  | false => exact Or.inr (List.mem_filter.mpr ⟨ha, by rw [h]; rfl⟩)

/-- A request for a configuration that enables the data endpoints. -/
def DriverEvent.configures : DriverEvent κ ρ → Bool
  | .setConfiguration config => config ≤ 1
  | _ => false

namespace Driver
variable (C : Callbacks σ κ ρ α β) (d : Driver σ κ ρ α β) (len : Nat)

/-- What a run of the tx callback can be: there is none, it declines, it supplies a transfer. -/
inductive RunTx : Prop
  | absent : d.txCallback = none → d.usbserialRunTxCallback C len =
      ({ d with currentTxBuffer := none, currentTxLength := 0 }, []) → RunTx
  | declined {cb newLen client} : d.txCallback = some cb → d.usbserialRunTxCallback C len =
      ({ d with currentTxBuffer := none, currentTxLength := newLen, client := client },
        [.runTxCallback cb len none]) → RunTx
  | supplied {cb p newLen client} : d.txCallback = some cb → d.usbserialRunTxCallback C len =
      ({ d with
          currentTxBuffer := some p, currentTxLength := newLen, client := client,
          epIn := d.epIn.start ⟨cb, p, newLen, false, C.load client p newLen⟩ },
        [.runTxCallback cb len (some p),
          .startIn d.epIn.busy ⟨cb, p, newLen, false, C.load client p newLen⟩]) → RunTx

theorem runTx_cases : RunTx C d len := by
  cases hcb : d.txCallback with
  | none => exact .absent hcb (by rw [usbserialRunTxCallback, hcb])
  | some cb =>
      cases hans : C.tx cb len d.currentTxLength d.client with
      | mk reply rest =>
          cases reply with
          | none =>
              exact .declined hcb (by rw [usbserialRunTxCallback, hcb]; simp only [hans]; rfl)
          | some p =>
              exact .supplied hcb (by rw [usbserialRunTxCallback, hcb]; simp only [hans]; rfl)

/-- What a run of the rx callback can be. -/
inductive RunRx : Prop
  | absent : d.rxCallback = none → d.usbserialRunRxCallback C len =
      ({ d with currentRxBuffer := none }, []) → RunRx
  | declined {cb client} : d.rxCallback = some cb →
      (C.rx cb d.currentRxBuffer len d.client).1 = none → d.usbserialRunRxCallback C len =
      ({ d with currentRxBuffer := none, client := client },
        [.runRxCallback cb d.currentRxBuffer len none]) → RunRx
  | supplied {cb p n client} : d.rxCallback = some cb →
      (C.rx cb d.currentRxBuffer len d.client).1 = some (p, n) → d.usbserialRunRxCallback C len =
      ({ d with
          currentRxBuffer := some p, client := client, epOut := d.epOut.start ⟨cb, p, n⟩ },
        [.runRxCallback cb d.currentRxBuffer len (some p),
          .startOut d.epOut.busy ⟨cb, p, n⟩]) → RunRx

theorem runRx_cases : RunRx C d len := by
  cases hcb : d.rxCallback with
  | none => exact .absent hcb (by rw [usbserialRunRxCallback, hcb])
  | some cb =>
      cases hans : C.rx cb d.currentRxBuffer len d.client with
      | mk reply client =>
          cases reply with
          | none =>
              exact .declined hcb (by rw [hans])
                (by rw [usbserialRunRxCallback, hcb]; simp only [hans]; rfl)
          | some offer =>
              exact .supplied hcb (by rw [hans])
                (by rw [usbserialRunRxCallback, hcb]; simp only [hans]; rfl)

/-- Nothing of the tx direction differs. -/
structure SameTx (d d' : Driver σ κ ρ α β) : Prop where
  txCallback : d'.txCallback = d.txCallback
  currentTxLength : d'.currentTxLength = d.currentTxLength
  epIn : d'.epIn = d.epIn

structure SameRx (d d' : Driver σ κ ρ α β) : Prop where
  rxCallback : d'.rxCallback = d.rxCallback
  currentRxBuffer : d'.currentRxBuffer = d.currentRxBuffer
  epOut : d'.epOut = d.epOut

variable {d} in
theorem SameTx.trans {d₁ d₂ : Driver σ κ ρ α β} (h : SameTx d d₁) (h' : SameTx d₁ d₂) :
    SameTx d d₂ :=
  ⟨h'.txCallback.trans h.txCallback, h'.currentTxLength.trans h.currentTxLength,
    h'.epIn.trans h.epIn⟩

variable {d} in
theorem SameRx.trans {d₁ d₂ : Driver σ κ ρ α β} (h : SameRx d d₁) (h' : SameRx d₁ d₂) :
    SameRx d d₂ :=
  ⟨h'.rxCallback.trans h.rxCallback, h'.currentRxBuffer.trans h.currentRxBuffer,
    h'.epOut.trans h.epOut⟩

theorem runTx_sameRx : SameRx d (d.usbserialRunTxCallback C len).1 := by
  cases runTx_cases C d len with
  | absent _ h | declined _ h | supplied _ h =>
      rw [h]
      exact ⟨rfl, rfl, rfl⟩

theorem runRx_sameTx : SameTx d (d.usbserialRunRxCallback C len).1 := by
  cases runRx_cases C d len with
  | absent _ h | declined _ _ h | supplied _ _ h =>
      rw [h]
      exact ⟨rfl, rfl, rfl⟩

theorem runTx_rxPart : rxPart (d.usbserialRunTxCallback C len).2 = [] := by
  cases runTx_cases C d len with
  | absent _ h | declined _ h | supplied _ h =>
      rw [h]
      rfl

theorem runRx_txPart : txPart (d.usbserialRunRxCallback C len).2 = [] := by
  cases runRx_cases C d len with
  | absent _ h | declined _ _ h | supplied _ _ h =>
      rw [h]
      rfl

theorem runTx_txPart : txPart (d.usbserialRunTxCallback C len).2 =
    (d.usbserialRunTxCallback C len).2 := by
  cases runTx_cases C d len with
  | absent _ h | declined _ h | supplied _ h =>
      rw [h]
      rfl

theorem runRx_rxPart : rxPart (d.usbserialRunRxCallback C len).2 =
    (d.usbserialRunRxCallback C len).2 := by
  cases runRx_cases C d len with
  | absent _ h | declined _ _ h | supplied _ _ h =>
      rw [h]
      rfl

/-- What a step can be for the tx direction: the event, its actions, the state after. -/
inductive TxStep : DriverEvent κ ρ → List (Action κ ρ α β) → Driver σ κ ρ α β → Prop
  | quiet {event d'} : (∀ cb, event ≠ .setTxCallback cb) →
      (∀ outLength, event ≠ .completion outLength true) → event.configures = false →
      SameTx d d' → TxStep event [] d'
  | replaced {cb d'} : d.epIn.ready = false → SameTx { d with txCallback := cb } d' →
      TxStep (.setTxCallback cb) [.setTxCallback cb] d'
  | registered {cb d'} : d.epIn.ready = true →
      SameTx ({ d with txCallback := cb }.usbserialRunTxCallback C 0).1 d' →
      TxStep (.setTxCallback cb)
        (.setTxCallback cb :: ({ d with txCallback := cb }.usbserialRunTxCallback C 0).2) d'
  | direct {d'} : SameTx (d.usbserialRunTxCallback C 0).1 d' →
      TxStep .runTxCallback (d.usbserialRunTxCallback C 0).2 d'
  | configured {config d₁ d'} : config ≤ 1 → SameTx { d with epIn := ⟨true, []⟩ } d₁ →
      SameTx (d₁.usbserialRunTxCallback C 0).1 d' →
      TxStep (.setConfiguration config) (d₁.usbserialRunTxCallback C 0).2 d'
  | completed {outLength d₁ d'} : d.epIn.busy = true →
      SameTx { d with epIn := d.epIn.handled } d₁ →
      SameTx (d₁.usbserialRunTxCallback C d.currentTxLength).1 d' →
      TxStep (.completion outLength true) (d₁.usbserialRunTxCallback C d.currentTxLength).2 d'

/-- What a step can be for the rx direction. -/
inductive RxStep : DriverEvent κ ρ → List (Action κ ρ α β) → Driver σ κ ρ α β → Prop
  | quiet {event d'} : (∀ cb, event ≠ .setRxCallback cb) →
      (∀ length inPending, event ≠ .completion (some length) inPending) →
      event.configures = false → SameRx d d' → RxStep event [] d'
  | replaced {cb d'} : d.epIn.ready = false → SameRx { d with rxCallback := cb } d' →
      RxStep (.setRxCallback cb) [.setRxCallback cb] d'
  | registered {cb d'} : d.epIn.ready = true →
      SameRx ({ d with rxCallback := cb }.usbserialRunRxCallback C 0).1 d' →
      RxStep (.setRxCallback cb)
        (.setRxCallback cb :: ({ d with rxCallback := cb }.usbserialRunRxCallback C 0).2) d'
  | direct {d'} : SameRx (d.usbserialRunRxCallback C 0).1 d' →
      RxStep .runRxCallback (d.usbserialRunRxCallback C 0).2 d'
  | configured {config d₁ d'} : config ≤ 1 → SameRx { d with epOut := ⟨true, []⟩ } d₁ →
      SameRx (d₁.usbserialRunRxCallback C 0).1 d' →
      RxStep (.setConfiguration config) (d₁.usbserialRunRxCallback C 0).2 d'
  | completed {length inPending d₁ d'} : d.epOut.busy = true →
      SameRx { d with epOut := d.epOut.handled } d₁ →
      SameRx (d₁.usbserialRunRxCallback C (length % 256)).1 d' →
      RxStep (.completion (some length) inPending)
        (d₁.usbserialRunRxCallback C (length % 256)).2 d'

variable {C d}

theorem reportable_iff {outLength : Option Nat} {inPending : Bool} :
    d.reportable outLength inPending = true ↔
      (outLength ≠ none → d.epOut.busy = true) ∧ (inPending = true → d.epIn.busy = true) := by
  cases outLength <;> cases inPending <;> simp [reportable]

theorem completeOut_sameTx (outLength : Option Nat) :
    SameTx d (d.completeOut C outLength).1 := by
  cases outLength with
  | none => exact ⟨rfl, rfl, rfl⟩
  | some length =>
      have same : SameTx d { d with epOut := d.epOut.handled } := ⟨rfl, rfl, rfl⟩
      exact same.trans (runRx_sameTx C _ _)

theorem completeOut_txPart (outLength : Option Nat) :
    txPart (d.completeOut C outLength).2 = [] := by
  cases outLength with
  | none => rfl
  | some length => exact runRx_txPart C { d with epOut := d.epOut.handled } _

theorem completeIn_sameRx (inPending : Bool) : SameRx d (d.completeIn C inPending).1 := by
  cases inPending with
  | false => exact ⟨rfl, rfl, rfl⟩
  | true =>
      have same : SameRx d { d with epIn := d.epIn.handled } := ⟨rfl, rfl, rfl⟩
      exact same.trans (runTx_sameRx C _ _)

theorem completeIn_rxPart (inPending : Bool) : rxPart (d.completeIn C inPending).2 = [] := by
  cases inPending with
  | false => rfl
  | true => exact runTx_rxPart C { d with epIn := d.epIn.handled } _

variable {event : DriverEvent κ ρ} {out : List (Action κ ρ α β)} {d' : Driver σ κ ρ α β}

theorem completion_taken {outLength : Option Nat} {inPending : Bool}
    (taken : (driverMachine C).step d (.completion outLength inPending) = some (d', out)) :
    d.reportable outLength inPending = true ∧
      d' = ((d.completeOut C outLength).1.completeIn C inPending).1 ∧
      out = (d.completeOut C outLength).2 ++
        ((d.completeOut C outLength).1.completeIn C inPending).2 := by
  simp only [driverMachine] at taken
  split at taken
  · rename_i hrep
    obtain ⟨rfl, rfl⟩ := Prod.mk.inj (Option.some.inj taken)
    exact ⟨hrep, rfl, rfl⟩
  · cases taken

theorem answered {a : Driver σ κ ρ α β × List (Action κ ρ α β)} (h : some a = some (d', out)) :
    d' = a.1 ∧ out = a.2 := by
  cases Option.some.inj h
  exact ⟨rfl, rfl⟩

theorem tx_step (taken : (driverMachine C).step d event = some (d', out)) :
    TxStep C d event (txPart out) d' := by
  cases event with
  | setTxCallback cb =>
      obtain ⟨rfl, rfl⟩ := answered (a := d.usbserialSetTxCallback C cb) taken
      simp only [usbserialSetTxCallback]
      by_cases hr : d.epIn.ready = true
      · rw [if_pos hr, txPart, List.filter_cons_of_pos rfl, ← txPart, runTx_txPart]
        exact .registered hr ⟨rfl, rfl, rfl⟩
      · rw [if_neg hr]
        exact .replaced (Bool.eq_false_iff.mpr hr) ⟨rfl, rfl, rfl⟩
  | setRxCallback cb =>
      obtain ⟨rfl, rfl⟩ := answered (a := d.usbserialSetRxCallback C cb) taken
      simp only [usbserialSetRxCallback]
      by_cases hr : d.epIn.ready = true
      · rw [if_pos hr, txPart, List.filter_cons_of_neg Bool.false_ne_true, ← txPart, runRx_txPart]
        have same : SameTx d { d with rxCallback := cb } := ⟨rfl, rfl, rfl⟩
        exact .quiet nofun nofun rfl (same.trans (runRx_sameTx C _ 0))
      · rw [if_neg hr]
        exact .quiet nofun nofun rfl ⟨rfl, rfl, rfl⟩
  | runTxCallback =>
      obtain ⟨rfl, rfl⟩ := answered (a := d.usbserialRunTxCallback C 0) taken
      rw [runTx_txPart]
      exact .direct ⟨rfl, rfl, rfl⟩
  | runRxCallback =>
      obtain ⟨rfl, rfl⟩ := answered (a := d.usbserialRunRxCallback C 0) taken
      rw [runRx_txPart]
      exact .quiet nofun nofun rfl (runRx_sameTx C d 0)
  | setConfiguration config =>
      obtain ⟨rfl, rfl⟩ := answered taken
      rw [usbCbSetConfiguration]
      by_cases hc : config ≤ 1
      · rw [if_pos hc]
        dsimp only [usbserialInit]
        rw [txPart_append, runTx_txPart, runRx_txPart, List.append_nil]
        exact .configured hc ⟨rfl, rfl, rfl⟩ (runRx_sameTx C _ 0)
      · rw [if_neg hc]
        exact .quiet nofun nofun (decide_eq_false hc) ⟨rfl, rfl, rfl⟩
  | completion outLength inPending =>
      obtain ⟨hrep, rfl, rfl⟩ := completion_taken taken
      have same := completeOut_sameTx (C := C) (d := d) outLength
      rw [txPart_append, completeOut_txPart, List.nil_append]
      cases inPending with
      | false => exact .quiet nofun nofun rfl same
      | true =>
          simp only [completeIn, if_true]
          rw [runTx_txPart, same.currentTxLength]
          refine .completed ((reportable_iff.mp hrep).2 rfl) ?_ ⟨rfl, rfl, rfl⟩
          exact ⟨same.txCallback, rfl, congrArg Endpoint.handled same.epIn⟩

theorem rx_step (taken : (driverMachine C).step d event = some (d', out)) :
    RxStep C d event (rxPart out) d' := by
  cases event with
  | setTxCallback cb =>
      obtain ⟨rfl, rfl⟩ := answered (a := d.usbserialSetTxCallback C cb) taken
      simp only [usbserialSetTxCallback]
      by_cases hr : d.epIn.ready = true
      · rw [if_pos hr, rxPart, List.filter_cons_of_neg Bool.false_ne_true, ← rxPart, runTx_rxPart]
        have same : SameRx d { d with txCallback := cb } := ⟨rfl, rfl, rfl⟩
        exact .quiet nofun nofun rfl (same.trans (runTx_sameRx C _ 0))
      · rw [if_neg hr]
        exact .quiet nofun nofun rfl ⟨rfl, rfl, rfl⟩
  | setRxCallback cb =>
      obtain ⟨rfl, rfl⟩ := answered (a := d.usbserialSetRxCallback C cb) taken
      simp only [usbserialSetRxCallback]
      by_cases hr : d.epIn.ready = true
      · rw [if_pos hr, rxPart, List.filter_cons_of_pos rfl, ← rxPart, runRx_rxPart]
        exact .registered hr ⟨rfl, rfl, rfl⟩
      · rw [if_neg hr]
        exact .replaced (Bool.eq_false_iff.mpr hr) ⟨rfl, rfl, rfl⟩
  | runTxCallback =>
      obtain ⟨rfl, rfl⟩ := answered (a := d.usbserialRunTxCallback C 0) taken
      rw [runTx_rxPart]
      exact .quiet nofun nofun rfl (runTx_sameRx C d 0)
  | runRxCallback =>
      obtain ⟨rfl, rfl⟩ := answered (a := d.usbserialRunRxCallback C 0) taken
      rw [runRx_rxPart]
      exact .direct ⟨rfl, rfl, rfl⟩
  | setConfiguration config =>
      obtain ⟨rfl, rfl⟩ := answered taken
      rw [usbCbSetConfiguration]
      by_cases hc : config ≤ 1
      · rw [if_pos hc]
        dsimp only [usbserialInit]
        rw [rxPart_append, runTx_rxPart, runRx_rxPart, List.nil_append]
        have same := runTx_sameRx C { d with epOut := ⟨true, []⟩, epIn := ⟨true, []⟩ } 0
        exact .configured hc ⟨same.rxCallback, same.currentRxBuffer, same.epOut⟩ ⟨rfl, rfl, rfl⟩
      · rw [if_neg hc]
        exact .quiet nofun nofun (decide_eq_false hc) ⟨rfl, rfl, rfl⟩
  | completion outLength inPending =>
      obtain ⟨hrep, rfl, rfl⟩ := completion_taken taken
      rw [rxPart_append, completeIn_rxPart, List.append_nil]
      have same := completeIn_sameRx (C := C) (d := (d.completeOut C outLength).1) inPending
      cases outLength with
      | none => exact .quiet nofun nofun rfl same
      | some length =>
          dsimp only [completeOut] at same ⊢
          rw [runRx_rxPart]
          exact .completed ((reportable_iff.mp hrep).1 nofun) ⟨rfl, rfl, rfl⟩ same

end Driver
end SamdCore
