import SamdCore.CdcDriverRuns
import SamdCore.RingBufferCopies
import SamdCore.RingBufferDirect
import SamdCore.SerialModel

/-!
The tx half of the serial port, step by step.

Only the tx ring, its flag and the IN endpoint matter to it. While a slice is
outstanding it starts at the tail of the ring, and the tail moves only when that
slice completes. What a step does to the bytes in the ring is said by `SendStep`:
bytes are written behind them, a completed slice is taken from their front with
its padding, and a slice is offered of what is left.
-/
namespace SamdCore
open CircularSegment MachineRuns

structure Sender where
  buffer : RingBuffer usbSerialBufferLength bufferUsbTxAlign
  copies : List Memcpy
  inProgress : Bool
  callback : Option Unit
  length : Nat
  ep : Endpoint (InTransfer Unit Nat)

abbrev Slice := InTransfer Unit Nat

/-- Aligned, inside the array, and of a length that ends a USB transfer. -/
structure Slice.Confined (x : Slice) : Prop where
  aligned : x.buffer % 4 = 0
  pos : 1 ≤ x.length
  le : x.length ≤ 60
  granular : x.length < 4 ∨ x.length % 4 = 0
  inside : x.buffer + x.length ≤ usbSerialBufferLength
  unterminated : x.zlp = false

/-- What is started of a ring that holds `c`, and what it holds then: the padding
of a short slice as well. -/
inductive Offered (tail : Nat) (c : List UInt8) : List Slice → List UInt8 → Prop
  | nothing : c = [] → Offered tail c [] []
  | slice {x : Slice} {pad : List UInt8} : Slice.Confined x → x.buffer = tail →
      x.length ≤ c.length → x.data = c.take x.length →
      x.length + pad.length = alignUp4 x.length → (pad ≠ [] → x.length = c.length) →
      (∀ k, k % 4 = 0 → k ≤ c.length → tail + k ≤ usbSerialBufferLength → k ≤ x.length) →
      Offered tail c [x] (c ++ pad)

theorem Offered.confined {tail : Nat} {c c' : List UInt8} {started : List Slice}
    (h : Offered tail c started c') : started = [] ∨ ∃ x, Slice.Confined x ∧ started = [x] := by
  cases h with
  | nothing _ => exact Or.inl rfl
  | @slice x _ confined => exact Or.inr ⟨x, confined, rfl⟩

/-- What a byte written does to the bytes in the ring. -/
inductive Queued (c : List UInt8) (b : UInt8) : Nat → List UInt8 → Prop
  | stored : c.length < usbSerialBufferLength - 1 → Queued c b 1 (c ++ [b])
  | full : c.length = usbSerialBufferLength - 1 → Queued c b 0 c

namespace Sender

structure Ready (s : Sender) (c : List UInt8) : Prop where
  callback : s.callback = some ()
  holds : s.buffer.Holds c
  aligned : s.buffer.tailPtr % 4 = 0
  copies : ∀ k ∈ s.copies, k.Confined usbSerialBufferLength

structure Idle (s : Sender) : Prop where
  outstanding : s.ep.outstanding = []
  inProgress : s.inProgress = false

structure InFlight (s : Sender) (x : Slice) : Prop where
  outstanding : s.ep.outstanding = [x]
  inProgress : s.inProgress = true
  length : s.length = x.length
  buffer : x.buffer = s.buffer.tailPtr
  confined : Slice.Confined x
  padded : x.buffer + alignUp4 x.length ≤ usbSerialBufferLength

/-- The invariant of the tx half, whatever is written. -/
structure Outgoing (s : Sender) (c : List UInt8) : Prop extends Ready s c where
  flight : (Idle s ∧ c = []) ∨ ∃ x, InFlight s x

end Sender

/-- Events that the tx half takes part in. -/
def SerialEvent.reachesTx : SerialEvent → Bool
  | .write _ _ | .writeChar _ | .completion _ true => true
  | event => event.configures

/-- What a step can be for the tx half: the slices it starts, the slices outstanding
and the bytes in the ring after it. A slice that completes after block writes may find
less in the ring than it took, and then nothing is said of the bytes. -/
inductive SendStep (s : Sender) (c : List UInt8) :
    SerialEvent → SerialResult → List Slice → List Slice → List UInt8 → Prop
  | quiet {event result} : event.reachesTx = false →
      SendStep s c event result [] s.ep.outstanding c
  | block {data len result started after c'} :
      (started = [] ∨ ∃ x, Slice.Confined x ∧ started = [x]) →
      SendStep s c (.write data len) result started after c'
  | queued {x b n c'} : s.InFlight x → Queued c b n c' →
      SendStep s c (.writeChar b) (.stored n) [] s.ep.outstanding c'
  | first {b n c₁ started c'} : s.Idle → Queued c b n c₁ →
      Offered s.buffer.tailPtr c₁ started c' →
      SendStep s c (.writeChar b) (.stored n) started started c'
  | completed {x out tail c₁ started c'} : s.InFlight x →
      (alignUp4 x.length ≤ c.length → c₁ = c.drop (alignUp4 x.length)) →
      Offered tail c₁ started c' →
      SendStep s c (.completion out true) .none started started c'
  | configured {config started c'} : config ≤ 1 → Offered s.buffer.tailPtr c started c' →
      SendStep s c (.setConfiguration config) .none started started c'

namespace System
open Sender
variable {d d' : System} {c : List UInt8}

def sender (d : System) : Sender where
  buffer := d.client.txBuffer
  copies := d.client.txCopies
  inProgress := d.client.transmitDMAInProgress
  callback := d.txCallback
  length := d.currentTxLength
  ep := d.epIn

theorem outgoing_constructed (m : Storage) : Outgoing (sender (constructed m)) [] :=
  ⟨⟨rfl, RingBuffer.holds_clear (by decide) _, rfl, nofun⟩, Or.inl ⟨⟨rfl, rfl⟩, rfl⟩⟩

theorem got_sender (u : USBserial) (len : Nat) :
    (u.got len).txBuffer = u.txBuffer ∧ (u.got len).txCopies = u.txCopies ∧
      (u.got len).transmitDMAInProgress = u.transmitDMAInProgress := by
  rw [USBserial.got]
  split <;> exact ⟨rfl, rfl, rfl⟩

theorem sent_copies (u : USBserial) (len : Nat) : (u.sent len).txCopies = u.txCopies := by
  rw [USBserial.sent]
  split <;> rfl

theorem runRx_sender (d : System) (len : Nat) :
    sender (d.usbserialRunRxCallback usbserialCallbacks len).1 = sender d := by
  obtain ⟨buffer, copies, flag⟩ := got_sender d.client len
  cases hcb : d.rxCallback with
  | none =>
      simp only [Driver.usbserialRunRxCallback, hcb]
      rfl
  | some _ =>
      by_cases full : (d.client.got len).rxBuffer.isFull = true
      · rw [runRx_of_full hcb full]
        simp only [sender, buffer, copies, flag]
      · rw [runRx_of_room hcb full]
        simp only [sender, buffer, copies, flag]

theorem dma_sender (d : System) (p : WritePtr) (i : Nat) (bytes : List UInt8) :
    sender { d with client := d.client.dma p i bytes } = sender d := by
  cases p <;> rfl

theorem fill_sender (d : System) (out : Option (List UInt8)) : sender (d.fill out) = sender d := by
  unfold fill
  split
  · exact dma_sender d _ 0 _
  · rfl

theorem completeOut_sender (d : System) (outLength : Option Nat) :
    sender (d.completeOut usbserialCallbacks outLength).1 = sender d := by
  cases outLength with
  | none => rfl
  | some length => exact runRx_sender { d with epOut := d.epOut.handled } _

theorem runTx_offers (len : Nat) (idle : d.epIn.outstanding = [])
    (ready : Ready { sender d with buffer := (d.client.sent len).txBuffer } c) :
    ∃ c', Outgoing (sender (d.usbserialRunTxCallback usbserialCallbacks len).1) c' ∧
      Offered (d.client.sent len).txBuffer.tailPtr c
        (startedIn (d.usbserialRunTxCallback usbserialCallbacks len).2) c' ∧
      (d.usbserialRunTxCallback usbserialCallbacks len).1.epIn.outstanding =
        startedIn (d.usbserialRunTxCallback usbserialCallbacks len).2 ∧
      ∀ a ∈ (d.usbserialRunTxCallback usbserialCallbacks len).2, ¬ a.restarts := by
  have hcb : d.txCallback = some () := ready.callback
  have holds : (d.client.sent len).txBuffer.Holds c := ready.holds
  have copies : ∀ k ∈ (d.client.sent len).txCopies, k.Confined usbSerialBufferLength :=
    sent_copies d.client len ▸ ready.copies
  by_cases empty : (d.client.sent len).txBuffer.isEmpty = true
  · obtain rfl : c = [] := holds.isEmpty_iff.mp empty
    rw [runTx_of_empty hcb empty]
    exact ⟨[], ⟨⟨hcb, holds, ready.aligned, copies⟩, Or.inl ⟨⟨idle, rfl⟩, rfl⟩⟩, .nothing rfl,
      idle, by simp [Action.restarts]⟩
  · have hne : c ≠ [] := fun hc => empty (holds.isEmpty_iff.mpr hc)
    have spec := RingBuffer.prepareDirectRead_spec holds (by decide) (by decide) (by decide)
      ready.aligned hne
    generalize prepared : (d.client.sent len).txBuffer.prepareDirectRead = offered at spec
    obtain ⟨tail, pad, offer⟩ := spec
    have le := offer.le_length
    have straight := offer.straight
    have granular := offer.granular
    have short : c.length < 64 := holds.length_lt
    have up := le_alignUp4 offered.2.2
    have data : slice offered.1.buffer offered.2.1 offered.2.2 = c.take offered.2.2 := by
      rw [tail, ← offer.tail_eq, offer.holds.slice_tail (by rw [List.length_append]; omega)
        (by rw [offer.tail_eq]; omega), List.take_append_of_le_length le]
    have confined : Slice.Confined
        ⟨(), offered.2.1, offered.2.2, false, slice offered.1.buffer offered.2.1 offered.2.2⟩ :=
      ⟨tail ▸ ready.aligned, offer.pos, by dsimp only; omega, granular,
        by dsimp only; omega, rfl⟩
    rw [runTx_of_slice hcb empty prepared (Nat.ne_of_gt offer.pos)]
    have one : ∀ x, (d.epIn.start x).outstanding = [x] := fun x => by
      rw [Endpoint.start, idle]
      rfl
    refine ⟨c ++ pad,
      ⟨⟨hcb, offer.holds, ?_, copies⟩, Or.inr ⟨_, one _, rfl, rfl, ?_, confined, ?_⟩⟩,
      .slice confined tail le data offer.pad_length offer.pad_last offer.largest, one _, ?_⟩
    · exact offer.tail_eq ▸ ready.aligned
    · exact tail.trans offer.tail_eq.symm
    · rwa [tail]
    · simp [Action.restarts, Endpoint.busy, idle]

theorem runTxIfIdle_offers (ready : Ready (sender d) c)
    (flight : Idle (sender d) ∨ ∃ x, InFlight (sender d) x) :
    ∃ c', Outgoing (sender d.runTxIfIdle.1) c' ∧
      (((∃ x, InFlight (sender d) x) ∧ startedIn d.runTxIfIdle.2 = [] ∧
          d.runTxIfIdle.1.epIn.outstanding = d.epIn.outstanding ∧ c' = c) ∨
        (Idle (sender d) ∧ Offered (sender d).buffer.tailPtr c (startedIn d.runTxIfIdle.2) c' ∧
          d.runTxIfIdle.1.epIn.outstanding = startedIn d.runTxIfIdle.2)) ∧
      ∀ a ∈ d.runTxIfIdle.2, ¬ a.restarts := by
  rcases flight with idle | ⟨x, busy⟩
  · have flag : ¬ d.client.transmitDMAInProgress = true :=
      Bool.eq_false_iff.mp idle.inProgress
    rw [runTxIfIdle, if_neg flag]
    obtain ⟨c', out, offered, after, quiet⟩ := runTx_offers 0 idle.outstanding ready
    exact ⟨c', out, Or.inr ⟨idle, offered, after⟩, quiet⟩
  · have flag : d.client.transmitDMAInProgress = true := busy.inProgress
    rw [runTxIfIdle, if_pos flag]
    exact ⟨c, ⟨ready, Or.inr ⟨x, busy⟩⟩, Or.inl ⟨⟨x, busy⟩, rfl, rfl, rfl⟩, by simp⟩

/-- A step that leaves the tx half alone is quiet. -/
theorem send_quiet {event : SerialEvent} {out : SerialOutput} (h : Outgoing (sender d) c)
    (same : sender d' = sender d) (acts : txPart out.acts = [])
    (step : SendStep (sender d) c event out.result [] d.epIn.outstanding c) :
    ∃ c', Outgoing (sender d') c' ∧
      SendStep (sender d) c event out.result (startedIn out.acts) d'.epIn.outstanding c' ∧
      ∀ a ∈ txPart out.acts, ¬ a.restarts := by
  have after : d'.epIn.outstanding = d.epIn.outstanding :=
    congrArg (fun s => s.ep.outstanding) same
  rw [← startedIn_txPart, acts, same, after]
  exact ⟨c, h, step, by simp⟩

theorem runRxIfIdle_sender (d : System) : sender d.runRxIfIdle.1 = sender d := by
  rw [runRxIfIdle]
  split
  · rfl
  · exact runRx_sender d 0

theorem runRxIfIdle_txPart (d : System) : txPart d.runRxIfIdle.2 = [] := by
  rw [runRxIfIdle]
  split
  · rfl
  · exact Driver.runRx_txPart _ d 0

theorem completed_ready {x : Slice} (h : Outgoing (sender d) c) (busy : InFlight (sender d) x) :
    ∃ c₁, (alignUp4 x.length ≤ c.length → c₁ = c.drop (alignUp4 x.length)) ∧
      Ready { sender d with
        buffer := d.client.txBuffer.completeDirectRead x.length, ep := d.epIn.handled } c₁ := by
  have le := busy.confined.le
  have padded := busy.padded
  have tail := RingBuffer.completeDirectRead_tail d.client.txBuffer (L := x.length) (by omega)
  rw [busy.buffer] at padded
  have aligned : (d.client.txBuffer.completeDirectRead x.length).tailPtr % 4 = 0 := by
    rw [tail]
    exact wrap_alignUp4 x.length h.aligned
  by_cases held : alignUp4 x.length ≤ c.length
  · exact ⟨_, fun _ => rfl, h.callback,
      RingBuffer.completeDirectRead_spec h.holds (by omega) held padded, aligned, h.copies⟩
  · have tail_lt : (d.client.txBuffer.completeDirectRead x.length).tailPtr <
        usbSerialBufferLength := by
      rw [tail]
      exact wrap_lt (by decide)
    obtain ⟨q, hq⟩ := RingBuffer.exists_holds (r := d.client.txBuffer.completeDirectRead x.length)
      h.holds.head_lt tail_lt
    exact ⟨q, fun short => absurd short held, h.callback, hq, aligned, h.copies⟩

/-- Bytes put behind the tail, and a slice offered if none is outstanding. -/
theorem written_offers {r : RingBuffer usbSerialBufferLength bufferUsbTxAlign}
    (copies : List Memcpy) (flight : Idle (sender d) ∨ ∃ x, InFlight (sender d) x)
    (ready : Ready { sender d with buffer := r, copies } c)
    (tail : r.tailPtr = d.client.txBuffer.tailPtr) :
    let ran := runTxIfIdle { d with
      client := { d.client with txBuffer := r, txCopies := copies } }
    ∃ c', Outgoing (sender ran.1) c' ∧
      (((∃ x, InFlight (sender d) x) ∧ startedIn ran.2 = [] ∧
          ran.1.epIn.outstanding = d.epIn.outstanding ∧ c' = c) ∨
        (Idle (sender d) ∧ Offered (sender d).buffer.tailPtr c (startedIn ran.2) c' ∧
          ran.1.epIn.outstanding = startedIn ran.2)) ∧
      ∀ a ∈ txPart ran.2, ¬ a.restarts := by
  intro ran
  have flight' : Idle { sender d with buffer := r, copies } ∨
      ∃ x, InFlight { sender d with buffer := r, copies } x := by
    rcases flight with idle | ⟨x, busy⟩
    · exact Or.inl ⟨idle.outstanding, idle.inProgress⟩
    · exact Or.inr ⟨x, busy.outstanding, busy.inProgress, busy.length,
        busy.buffer.trans tail.symm, busy.confined, busy.padded⟩
  obtain ⟨c', out, started, quiet⟩ := runTxIfIdle_offers (d := { d with
    client := { d.client with txBuffer := r, txCopies := copies } }) ready flight'
  refine ⟨c', out, ?_, fun a ha => quiet a (List.mem_of_mem_filter ha)⟩
  rcases started with ⟨⟨x, busy⟩, nothing⟩ | ⟨idle, offered, after⟩
  · exact Or.inl ⟨⟨x, busy.outstanding, busy.inProgress, busy.length, busy.buffer.trans tail,
      busy.confined, busy.padded⟩, nothing⟩
  · exact Or.inr ⟨⟨idle.outstanding, idle.inProgress⟩, tail ▸ offered, after⟩

theorem storeChar_queued (ready : Ready (sender d) c) (b : UInt8) :
    ∃ c₁, Queued c b (d.client.txBuffer.storeChar b).2 c₁ ∧
      Ready { sender d with buffer := (d.client.txBuffer.storeChar b).1 } c₁ ∧
      (d.client.txBuffer.storeChar b).1.tailPtr = d.client.txBuffer.tailPtr := by
  have held : d.client.txBuffer.Holds c := ready.holds
  have length_lt := held.length_lt
  by_cases full : c.length = usbSerialBufferLength - 1
  · rw [RingBuffer.storeChar_of_full held (by decide) full]
    exact ⟨c, .full full, ready, rfl⟩
  · have room : c.length < usbSerialBufferLength - 1 := by omega
    obtain ⟨holds, one, tail⟩ := RingBuffer.storeChar_spec held (by decide) room b
    have aligned : (d.client.txBuffer.storeChar b).1.tailPtr % 4 = 0 := by
      rw [tail]
      exact ready.aligned
    rw [one]
    exact ⟨_, .stored room, ⟨ready.callback, holds, aligned, ready.copies⟩, tail⟩

theorem completion_sends {received : Option (List UInt8)} (h : Outgoing (sender d) c)
    (busy : d.epIn.busy = true) :
    ∃ c', Outgoing (sender (d.completion received true).1) c' ∧
      SendStep (sender d) c (.completion received true) .none
        (startedIn (d.completion received true).2.acts)
        (d.completion received true).1.epIn.outstanding c' ∧
      ∀ a ∈ txPart (d.completion received true).2.acts, ¬ a.restarts := by
  have same : sender ((d.fill received).completeOut usbserialCallbacks
      (received.map List.length)).1 = sender d :=
    (completeOut_sender _ _).trans (fill_sender d received)
  have acts := Driver.completeOut_txPart (C := usbserialCallbacks) (d := d.fill received)
    (received.map List.length)
  simp only [completion, Driver.usbCbCompletion, Driver.completeIn, if_true]
  rw [← startedIn_txPart, txPart_append, acts, List.nil_append, startedIn_txPart]
  generalize ((d.fill received).completeOut usbserialCallbacks
    (received.map List.length)).1 = d₁ at same
  rw [← same] at h ⊢
  have busy₁ : (sender d₁).ep.busy = true := by rw [same]; exact busy
  rcases h.flight with ⟨idle, _⟩ | ⟨x, flying⟩
  · rw [Endpoint.busy, idle.outstanding] at busy₁
    cases busy₁
  · obtain ⟨c₁, drop, ready⟩ := completed_ready h flying
    have length : d₁.currentTxLength = x.length := flying.length
    have idle : d₁.epIn.handled.outstanding = [] := by
      have one : d₁.epIn.outstanding = [x] := flying.outstanding
      rw [Endpoint.handled, one]
      rfl
    have sent : (d₁.client.sent d₁.currentTxLength).txBuffer =
        d₁.client.txBuffer.completeDirectRead x.length := by
      have pos : 0 < x.length := flying.confined.pos
      rw [length, USBserial.sent, if_pos pos]
    obtain ⟨c', out, offered, after, quiet⟩ := runTx_offers d₁.currentTxLength
      (d := { d₁ with epIn := d₁.epIn.handled }) (c := c₁) idle (sent ▸ ready)
    refine ⟨c', out, ?_, fun a ha => quiet a (List.mem_of_mem_filter ha)⟩
    rw [after]
    exact .completed flying drop offered

theorem setConfiguration_sends (config : UInt8) (h : Outgoing (sender d) c) :
    ∃ c', Outgoing (sender (d.setConfiguration config).1) c' ∧
      SendStep (sender d) c (.setConfiguration config) .none
        (startedIn (d.setConfiguration config).2.acts)
        (d.setConfiguration config).1.epIn.outstanding c' ∧
      ∀ a ∈ txPart (d.setConfiguration config).2.acts, ¬ a.restarts := by
  simp only [setConfiguration, Driver.usbCbSetConfiguration]
  by_cases hc : config ≤ 1
  · simp only [if_pos hc, Driver.usbserialInit]
    obtain ⟨c', outgoing, offered, after, quiet⟩ := runTx_offers 0 (c := c)
      (d := { d with epOut := ⟨true, []⟩, epIn := ⟨true, []⟩ }) rfl
      ⟨h.callback, h.holds, h.aligned, h.copies⟩
    refine ⟨c', (runRx_sender _ 0).symm ▸ outgoing, ?_, ?_⟩
    · rw [← startedIn_txPart, txPart_append, Driver.runRx_txPart, List.append_nil,
        startedIn_txPart, (Driver.runRx_sameTx _ _ 0).epIn, after]
      exact .configured hc offered
    · intro a ha
      rw [txPart_append, Driver.runRx_txPart, List.append_nil] at ha
      exact quiet a (List.mem_of_mem_filter ha)
  · simp only [if_neg hc]
    exact ⟨c, h, .quiet (decide_eq_false hc), List.forall_mem_nil _⟩

theorem send_step {event : SerialEvent} {out : SerialOutput} (h : Outgoing (sender d) c)
    (taken : serialMachine.step d event = some (d', out)) :
    ∃ c', Outgoing (sender d') c' ∧
      SendStep (sender d) c event out.result (startedIn out.acts) d'.epIn.outstanding c' ∧
      ∀ a ∈ txPart out.acts, ¬ a.restarts := by
  have flight : Idle (sender d) ∨ ∃ x, InFlight (sender d) x := h.flight.imp_left And.left
  cases event with
  | write data len =>
      obtain ⟨rfl, rfl⟩ := Prod.mk.inj (Option.some.inj taken)
      have held : d.client.txBuffer.Holds c := h.holds
      obtain ⟨head, tail, copied⟩ :=
        RingBuffer.storeBuffer_confined held (by decide) data len.toNat
      obtain ⟨q, hq⟩ := RingBuffer.exists_holds head (tail ▸ h.holds.tail_lt)
      have ready : Ready { sender d with
          buffer := (d.client.txBuffer.storeBuffer data len.toNat).1
          copies := d.client.txCopies ++
            (d.client.txBuffer.storeBuffer data len.toNat).2.2 } q :=
        ⟨h.callback, hq, tail ▸ h.aligned, List.forall_mem_append.mpr ⟨h.copies, copied⟩⟩
      obtain ⟨c', outgoing, started, quiet⟩ := written_offers _ flight ready tail
      refine ⟨c', outgoing, .block ?_, quiet⟩
      rcases started with ⟨-, nothing, -⟩ | ⟨-, offered, -⟩
      · exact Or.inl nothing
      · exact offered.confined
  | writeChar b =>
      obtain ⟨rfl, rfl⟩ := Prod.mk.inj (Option.some.inj taken)
      obtain ⟨c₁, queued, ready, tail⟩ := storeChar_queued h.toReady b
      obtain ⟨c', outgoing, started, quiet⟩ := written_offers d.client.txCopies flight ready tail
      refine ⟨c', outgoing, ?_, quiet⟩
      rcases started with ⟨⟨x, busy⟩, nothing, after, rfl⟩ | ⟨idle, offered, after⟩
      · exact nothing ▸ after ▸ .queued busy queued
      · rw [after]
        exact .first idle queued offered
  | read buffer maxLen =>
      obtain ⟨rfl, rfl⟩ := Prod.mk.inj (Option.some.inj taken)
      exact send_quiet h (runRxIfIdle_sender _) (runRxIfIdle_txPart _)
        (.quiet rfl)
  | readChar =>
      obtain ⟨rfl, rfl⟩ := Prod.mk.inj (Option.some.inj taken)
      exact send_quiet h (runRxIfIdle_sender _) (runRxIfIdle_txPart _)
        (.quiet rfl)
  | dma i byte =>
      simp only [serialMachine] at taken
      split at taken
      · split at taken
        · obtain ⟨rfl, rfl⟩ := Prod.mk.inj (Option.some.inj taken)
          exact send_quiet h (dma_sender d _ _ _) rfl (.quiet rfl)
        · cases taken
      · cases taken
  | completion received inPending =>
      simp only [serialMachine] at taken
      split at taken
      · rename_i possible
        obtain ⟨rfl, rfl⟩ := Prod.mk.inj (Option.some.inj taken)
        cases inPending with
        | false =>
            have same : sender (d.completion received false).1 = sender d :=
              (completeOut_sender _ _).trans (fill_sender d received)
            have acts : txPart (d.completion received false).2.acts = [] := by
              simp only [completion, Driver.usbCbCompletion, Driver.completeIn, txPart_append,
                Driver.completeOut_txPart]
              rfl
            exact send_quiet h same acts (.quiet rfl)
        | true =>
            have reported := (Bool.and_eq_true_iff.mp possible).2
            exact completion_sends h ((Driver.reportable_iff.mp reported).2 rfl)
      · cases taken
  | setConfiguration config =>
      obtain ⟨rfl, rfl⟩ := Prod.mk.inj (Option.some.inj taken)
      exact setConfiguration_sends config h

end System
end SamdCore
