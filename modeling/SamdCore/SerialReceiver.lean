import SamdCore.CdcDriverRuns
import SamdCore.RingBufferCopies
import SamdCore.RingBufferDirect
import SamdCore.SerialModel

/-!
The rx half of the serial port, step by step.

Only the rx ring, its flag and the OUT endpoint matter to it. The head of the
ring moves only when a transfer completes, so a transfer is completed into the
place it was offered, straight or through the bounce buffer, while the tail
moves with every byte read. What a step does to the bytes in the ring is said by
`RecvStep`.
-/
namespace SamdCore
open CircularSegment MachineRuns

structure Receiver where
  buffer : RingBuffer usbSerialBufferLength bufferUsbRxAlign
  copies : List Memcpy
  inProgress : Bool
  callback : Option Unit
  ep : Endpoint (OutTransfer Unit WritePtr)

abbrev Offer := OutTransfer Unit WritePtr

/-- Not empty, aligned, and inside the ring's array or its bounce buffer of 8 bytes. -/
structure Offer.Confined (x : Offer) : Prop where
  pos : 1 ≤ x.length
  inside : ∀ offset, x.buffer = .buffer offset →
    offset % 4 = 0 ∧ offset + x.length ≤ usbSerialBufferLength
  bounce : x.buffer = .rxBuffer → x.length ≤ 8

/-- What is started when the ring holds `q`: nothing exactly if it is full. -/
inductive Reoffered (q : List UInt8) : List Offer → Prop
  | full : q.length = usbSerialBufferLength - 1 → Reoffered q []
  | offer {x : Offer} : Offer.Confined x → q.length + x.length < usbSerialBufferLength →
      Reoffered q [x]

/-- What reading a byte does to the bytes in the ring. -/
inductive Unqueued : List UInt8 → UInt8 → List UInt8 → Prop
  | taken (c : UInt8) (q : List UInt8) : Unqueued (c :: q) c q
  | empty : Unqueued [] 0 []

namespace Receiver

structure Ready (s : Receiver) (q : List UInt8) : Prop where
  callback : s.callback = some ()
  holds : s.buffer.Holds q
  copies : ∀ k ∈ s.copies, k.Confined usbSerialBufferLength

structure Idle (s : Receiver) : Prop where
  outstanding : s.ep.outstanding = []
  inProgress : s.inProgress = false

structure InFlight (s : Receiver) (x : Offer) : Prop where
  outstanding : s.ep.outstanding = [x]
  inProgress : s.inProgress = true
  pos : 1 ≤ x.length
  pointer : x.buffer = if s.buffer.bounced then .rxBuffer else .buffer s.buffer.headPtr
  straight : s.buffer.headPtr + x.length ≤ usbSerialBufferLength
  bounce : s.buffer.bounced → x.length ≤ 8

/-- The invariant of the rx half, whatever is read. -/
structure Incoming (s : Receiver) (q : List UInt8) : Prop extends Ready s q where
  flight : Idle s ∨ ∃ x, InFlight s x

/-- The place of a transfer is fixed by the head. -/
theorem InFlight.moved {s s' : Receiver} {x : Offer} (h : s.InFlight x) (ep : s'.ep = s.ep)
    (flag : s'.inProgress = s.inProgress) (head : s'.buffer.headPtr = s.buffer.headPtr) :
    s'.InFlight x := by
  have same : s'.buffer.bounced ↔ s.buffer.bounced := by
    rw [RingBuffer.bounced, RingBuffer.bounced]
    rw [head]
  refine ⟨by rw [ep, h.outstanding], by rw [flag, h.inProgress], h.pos, ?_, ?_, ?_⟩
  · rw [h.pointer, head]
    exact if_congr same.symm rfl rfl
  · rw [head]
    exact h.straight
  · exact fun hb => h.bounce (same.mp hb)

end Receiver

/-- Events that the rx half takes part in. -/
def SerialEvent.reachesRx : SerialEvent → Bool
  | .read _ _ | .readChar | .dma _ _ | .completion (some _) _ => true
  | event => event.configures

/-- What a step can be for the rx half: the transfers it starts, those outstanding and
the bytes in the ring after it. After block reads an outstanding transfer may reach
into the bytes of the ring, and then nothing is said of them. -/
inductive RecvStep (s : Receiver) (q : List UInt8) :
    SerialEvent → SerialResult → List Offer → List Offer → List UInt8 → Prop
  | quiet {event result} : event.reachesRx = false →
      RecvStep s q event result [] s.ep.outstanding q
  | block {data len result started after q'} :
      (started = [] ∨ ∃ x, Offer.Confined x ∧ started = [x]) →
      RecvStep s q (.read data len) result started after q'
  | scribbled {x i byte q'} : s.InFlight x →
      (q.length + x.length < usbSerialBufferLength → q' = q) →
      RecvStep s q (.dma i byte) .none [] s.ep.outstanding q'
  | busy {x c q'} : s.InFlight x → Unqueued q c q' →
      RecvStep s q .readChar (.char c) [] s.ep.outstanding q'
  | resumed {c q' started} : s.Idle → Unqueued q c q' → Reoffered q' started →
      RecvStep s q .readChar (.char c) started started q'
  | completed {x bytes inPending q' started} : s.InFlight x → bytes.length ≤ x.length →
      (q.length + x.length < usbSerialBufferLength → q' = q ++ bytes) →
      Reoffered q' started →
      RecvStep s q (.completion (some bytes) inPending) .none started started q'
  | configured {config started} : config ≤ 1 → Reoffered q started →
      RecvStep s q (.setConfiguration config) .none started started q

theorem Reoffered.confined {q : List UInt8} {started : List Offer} (h : Reoffered q started) :
    started = [] ∨ ∃ x, Offer.Confined x ∧ started = [x] := by
  cases h with
  | full _ => exact Or.inl rfl
  | @offer x confined _ => exact Or.inr ⟨x, confined, rfl⟩

namespace System
open Receiver
variable {d d' : System} {q : List UInt8}

def receiver (d : System) : Receiver where
  buffer := d.client.rxBuffer
  copies := d.client.rxCopies
  inProgress := d.client.receiveDMAInProgress
  callback := d.rxCallback
  ep := d.epOut

theorem incoming_constructed (m : Storage) : Incoming (receiver (constructed m)) [] :=
  ⟨⟨rfl, RingBuffer.holds_clear (by decide) _, nofun⟩, Or.inl ⟨rfl, rfl⟩⟩

theorem sent_receiver (u : USBserial) (len : Nat) :
    (u.sent len).rxBuffer = u.rxBuffer ∧ (u.sent len).rxCopies = u.rxCopies ∧
      (u.sent len).receiveDMAInProgress = u.receiveDMAInProgress := by
  rw [USBserial.sent]
  split <;> exact ⟨rfl, rfl, rfl⟩

/-- The callback leaves the rx half alone, whatever it answers. -/
theorem sendDataCb_receiver (u : USBserial) (len newLen : Nat) :
    (u.sendDataCb len newLen).2.2.rxBuffer = u.rxBuffer ∧
      (u.sendDataCb len newLen).2.2.rxCopies = u.rxCopies ∧
      (u.sendDataCb len newLen).2.2.receiveDMAInProgress = u.receiveDMAInProgress := by
  have kept := sent_receiver u len
  simp only [USBserial.sendDataCb]
  by_cases empty : (u.sent len).txBuffer.isEmpty = true
  · rw [if_pos empty]
    exact kept
  · rw [if_neg empty]
    by_cases pos : (u.sent len).txBuffer.prepareDirectRead.2.2 ≠ 0
    · rw [if_pos pos]
      exact kept
    · rw [if_neg pos]
      exact kept

theorem runTx_client (d : System) (len : Nat) :
    (d.usbserialRunTxCallback usbserialCallbacks len).1.client = d.client ∨
      (d.usbserialRunTxCallback usbserialCallbacks len).1.client =
        (d.client.sendDataCb len d.currentTxLength).2.2 := by
  simp only [Driver.usbserialRunTxCallback]
  cases d.txCallback with
  | none => exact Or.inl rfl
  | some cb =>
      right
      dsimp only
      cases (usbserialCallbacks.tx cb len d.currentTxLength d.client).1 <;> rfl

theorem runTx_receiver (d : System) (len : Nat) :
    receiver (d.usbserialRunTxCallback usbserialCallbacks len).1 = receiver d := by
  have same := Driver.runTx_sameRx usbserialCallbacks d len
  obtain ⟨buffer, copies, flag⟩ := sendDataCb_receiver d.client len d.currentTxLength
  rcases runTx_client d len with client | client
  · simp only [receiver, client, same.rxCallback, same.epOut]
  · simp only [receiver, client, buffer, copies, flag, same.rxCallback, same.epOut]

theorem runRx_offers (len : Nat) (idle : d.epOut.outstanding = [])
    (ready : Ready { receiver d with
      buffer := (d.client.got len).rxBuffer, copies := (d.client.got len).rxCopies } q) :
    Incoming (receiver (d.usbserialRunRxCallback usbserialCallbacks len).1) q ∧
      Reoffered q (startedOut (d.usbserialRunRxCallback usbserialCallbacks len).2) ∧
      (d.usbserialRunRxCallback usbserialCallbacks len).1.epOut.outstanding =
        startedOut (d.usbserialRunRxCallback usbserialCallbacks len).2 ∧
      ∀ a ∈ (d.usbserialRunRxCallback usbserialCallbacks len).2, ¬ a.restarts := by
  have hcb : d.rxCallback = some () := ready.callback
  have holds : (d.client.got len).rxBuffer.Holds q := ready.holds
  have length_lt := holds.length_lt
  by_cases full : (d.client.got len).rxBuffer.isFull = true
  · rw [runRx_of_full hcb full]
    refine ⟨⟨⟨hcb, holds, ready.copies⟩, Or.inl ⟨idle, rfl⟩⟩, .full ?_, idle,
      by simp [Action.restarts]⟩
    exact (holds.isFull_iff (by decide)).mp full
  · have room : q.length < usbSerialBufferLength - 1 := by
      have : ¬ q.length = usbSerialBufferLength - 1 := fun h =>
        full ((holds.isFull_iff (by decide)).mpr h)
      omega
    have offer := RingBuffer.prepareDirectWrite_spec holds (by decide) room
    rw [runRx_of_room hcb full]
    generalize (d.client.got len).rxBuffer.prepareDirectWrite = offered at offer
    have one : ∀ x, (d.epOut.start x).outstanding = [x] := fun x => by
      rw [Endpoint.start, idle]
      rfl
    refine ⟨⟨⟨hcb, holds, ready.copies⟩, Or.inr ⟨_, one _, rfl, offer.pos, offer.pointer,
      offer.straight, offer.bounce_le⟩⟩, .offer ⟨offer.pos, ?_, ?_⟩ offer.fits, one _, ?_⟩
    · intro offset at_offset
      rw [offer.pointer] at at_offset
      by_cases hb : (d.client.got len).rxBuffer.bounced
      · rw [if_pos hb] at at_offset
        cases at_offset
      · rw [if_neg hb] at at_offset
        cases at_offset
        refine ⟨?_, offer.straight⟩
        by_contra unaligned
        exact hb ⟨by decide, unaligned⟩
    · intro at_bounce
      rw [offer.pointer] at at_bounce
      by_cases hb : (d.client.got len).rxBuffer.bounced
      · exact offer.bounce_le hb
      · rw [if_neg hb] at at_bounce
        cases at_bounce
    · simp [Action.restarts, Endpoint.busy, idle]

theorem runRxIfIdle_offers (ready : Ready (receiver d) q)
    (flight : Idle (receiver d) ∨ ∃ x, InFlight (receiver d) x) :
    Incoming (receiver d.runRxIfIdle.1) q ∧
      (((∃ x, InFlight (receiver d) x) ∧ startedOut d.runRxIfIdle.2 = [] ∧
          d.runRxIfIdle.1.epOut.outstanding = d.epOut.outstanding) ∨
        (Idle (receiver d) ∧ Reoffered q (startedOut d.runRxIfIdle.2) ∧
          d.runRxIfIdle.1.epOut.outstanding = startedOut d.runRxIfIdle.2)) ∧
      ∀ a ∈ d.runRxIfIdle.2, ¬ a.restarts := by
  rcases flight with idle | ⟨x, busy⟩
  · have flag : ¬ d.client.receiveDMAInProgress = true := Bool.eq_false_iff.mp idle.inProgress
    rw [runRxIfIdle, if_neg flag]
    obtain ⟨incoming, offered, after, quiet⟩ := runRx_offers 0 idle.outstanding ready
    exact ⟨incoming, Or.inr ⟨idle, offered, after⟩, quiet⟩
  · have flag : d.client.receiveDMAInProgress = true := busy.inProgress
    rw [runRxIfIdle, if_pos flag]
    exact ⟨⟨ready, Or.inr ⟨x, busy⟩⟩, Or.inl ⟨⟨x, busy⟩, rfl, rfl⟩, by simp⟩

/-- A step that leaves the rx half alone is quiet. -/
theorem recv_quiet {event : SerialEvent} {out : SerialOutput} (h : Incoming (receiver d) q)
    (same : receiver d' = receiver d) (acts : rxPart out.acts = [])
    (step : RecvStep (receiver d) q event out.result [] d.epOut.outstanding q) :
    ∃ q', Incoming (receiver d') q' ∧
      RecvStep (receiver d) q event out.result (startedOut out.acts) d'.epOut.outstanding q' ∧
      ∀ a ∈ rxPart out.acts, ¬ a.restarts := by
  have after : d'.epOut.outstanding = d.epOut.outstanding :=
    congrArg (fun s => s.ep.outstanding) same
  rw [← startedOut_rxPart, acts, same, after]
  exact ⟨q, h, step, by simp⟩

theorem runTxIfIdle_receiver (d : System) : receiver d.runTxIfIdle.1 = receiver d := by
  rw [runTxIfIdle]
  split
  · rfl
  · exact runTx_receiver d 0

theorem runTxIfIdle_rxPart (d : System) : rxPart d.runTxIfIdle.2 = [] := by
  rw [runTxIfIdle]
  split
  · rfl
  · exact Driver.runTx_rxPart _ d 0

theorem completeIn_receiver (d : System) (inPending : Bool) :
    receiver (d.completeIn usbserialCallbacks inPending).1 = receiver d := by
  cases inPending with
  | false => rfl
  | true => exact runTx_receiver { d with epIn := d.epIn.handled } _

/-- Bytes taken from the tail, and a transfer offered if none is outstanding. -/
theorem read_offers {r : RingBuffer usbSerialBufferLength bufferUsbRxAlign}
    (copies : List Memcpy) (flight : Idle (receiver d) ∨ ∃ x, InFlight (receiver d) x)
    (ready : Ready { receiver d with buffer := r, copies } q)
    (head : r.headPtr = d.client.rxBuffer.headPtr) :
    let ran := runRxIfIdle { d with
      client := { d.client with rxBuffer := r, rxCopies := copies } }
    Incoming (receiver ran.1) q ∧
      (((∃ x, InFlight (receiver d) x) ∧ startedOut ran.2 = [] ∧
          ran.1.epOut.outstanding = d.epOut.outstanding) ∨
        (Idle (receiver d) ∧ Reoffered q (startedOut ran.2) ∧
          ran.1.epOut.outstanding = startedOut ran.2)) ∧
      ∀ a ∈ rxPart ran.2, ¬ a.restarts := by
  intro ran
  have flight' : Idle { receiver d with buffer := r, copies } ∨
      ∃ x, InFlight { receiver d with buffer := r, copies } x := by
    rcases flight with idle | ⟨x, busy⟩
    · exact Or.inl ⟨idle.outstanding, idle.inProgress⟩
    · exact Or.inr ⟨x, busy.moved rfl rfl head⟩
  obtain ⟨incoming, started, quiet⟩ := runRxIfIdle_offers (d := { d with
    client := { d.client with rxBuffer := r, rxCopies := copies } }) ready flight'
  refine ⟨incoming, ?_, fun a ha => quiet a (List.mem_of_mem_filter ha)⟩
  rcases started with ⟨⟨x, busy⟩, nothing⟩ | ⟨idle, offered⟩
  · exact Or.inl ⟨⟨x, busy.moved rfl rfl head.symm⟩, nothing⟩
  · exact Or.inr ⟨⟨idle.outstanding, idle.inProgress⟩, offered⟩

/-- What the USB layer stores stays within the transfer it was offered, and is there
when the transfer completes. -/
theorem dma_ready {x : Offer} (i : Nat) (bytes : List UInt8) (h : Ready (receiver d) q)
    (busy : InFlight (receiver d) x) (within : i + bytes.length ≤ x.length) :
    let d' : System := { d with client := d.client.dma x.buffer i bytes }
    InFlight (receiver d') x ∧ (i = 0 → d'.client.rxBuffer.received bytes.length = bytes) ∧
      ∃ q', (q.length + x.length < usbSerialBufferLength → q' = q) ∧ Ready (receiver d') q' := by
  have held : d.client.rxBuffer.Holds q := h.holds
  have straight : d.client.rxBuffer.headPtr + x.length ≤ usbSerialBufferLength := busy.straight
  have pointer : x.buffer = if d.client.rxBuffer.bounced then .rxBuffer else
    .buffer d.client.rxBuffer.headPtr := busy.pointer
  by_cases hb : d.client.rxBuffer.bounced
  · rw [if_pos hb] at pointer
    rw [pointer]
    refine ⟨busy.moved rfl rfl rfl, ?_, q, fun _ => rfl, h.callback, ?_, h.copies⟩
    · rintro rfl
      exact (RingBuffer.received_of_bounced
        (r := (d.client.dma .rxBuffer 0 bytes).rxBuffer) hb).trans (slice_blit _ 0 bytes)
    · exact ⟨held.tail_lt, held.length_lt, held.head_eq, held.bytes⟩
  · rw [if_neg hb] at pointer
    rw [pointer]
    refine ⟨busy.moved rfl rfl rfl, ?_, ?_⟩
    · rintro rfl
      exact (RingBuffer.received_of_straight
        (r := (d.client.dma (.buffer d.client.rxBuffer.headPtr) 0 bytes).rxBuffer) hb).trans
        (slice_blit _ _ bytes)
    · by_cases fits : q.length + x.length < usbSerialBufferLength
      · have kept : (d.client.dma (.buffer d.client.rxBuffer.headPtr) i bytes).rxBuffer.Holds q :=
          held.frame (Nat.le_of_lt fits) straight
            (fun p hp => blit_outside _ _ bytes (by omega)) rfl rfl
        exact ⟨q, fun _ => rfl, h.callback, kept, h.copies⟩
      · obtain ⟨q', hq'⟩ := RingBuffer.exists_holds
          (r := (d.client.dma (.buffer d.client.rxBuffer.headPtr) i bytes).rxBuffer)
          held.head_lt held.tail_lt
        exact ⟨q', fun h => absurd h fits, h.callback, hq', h.copies⟩

/-- The bytes received are put behind those in the ring. -/
theorem got_ready {k : Nat} (h : Ready (receiver d) q)
    (straight : d.client.rxBuffer.headPtr + k ≤ usbSerialBufferLength)
    (bounce : d.client.rxBuffer.bounced → k ≤ 8) :
    ∃ q', (q.length + k < usbSerialBufferLength → q' = q ++ d.client.rxBuffer.received k) ∧
      Ready { receiver d with
        buffer := (d.client.got k).rxBuffer, copies := (d.client.got k).rxCopies } q' := by
  have held : d.client.rxBuffer.Holds q := h.holds
  by_cases hk : 0 < k
  · have copied := RingBuffer.completeDirectWrite_confined straight bounce
    rw [USBserial.got, if_pos hk]
    by_cases fits : q.length + k < usbSerialBufferLength
    · exact ⟨_, fun _ => rfl, h.callback,
        RingBuffer.completeDirectWrite_spec held fits straight,
        List.forall_mem_append.mpr ⟨h.copies, copied⟩⟩
    · obtain ⟨head, tail⟩ := RingBuffer.completeDirectWrite_head d.client.rxBuffer k
      obtain ⟨q', hq'⟩ := RingBuffer.exists_holds
        (r := (d.client.rxBuffer.completeDirectWrite k).1)
        (head ▸ wrap_lt (by decide)) (tail ▸ held.tail_lt)
      exact ⟨q', fun h => absurd h fits, h.callback, hq',
        List.forall_mem_append.mpr ⟨h.copies, copied⟩⟩
  · obtain rfl : k = 0 := by omega
    have none : d.client.rxBuffer.received 0 = [] := by
      rw [RingBuffer.received]
      split <;> rfl
    rw [USBserial.got, if_neg hk, none, List.append_nil]
    exact ⟨q, fun _ => rfl, h⟩

theorem readChar_unqueued (ready : Ready (receiver d) q) :
    ∃ q', Unqueued q d.client.rxBuffer.readChar.2 q' ∧
      Ready { receiver d with buffer := d.client.rxBuffer.readChar.1 } q' ∧
      d.client.rxBuffer.readChar.1.headPtr = d.client.rxBuffer.headPtr := by
  have held : d.client.rxBuffer.Holds q := ready.holds
  cases q with
  | nil =>
      rw [RingBuffer.readChar_of_empty held]
      exact ⟨[], .empty, ready, rfl⟩
  | cons c q =>
      obtain ⟨holds, value⟩ := RingBuffer.readChar_spec held
      have nonempty : ¬ d.client.rxBuffer.isEmpty = true := fun he =>
        List.cons_ne_nil _ _ (held.isEmpty_iff.mp he)
      have head : d.client.rxBuffer.readChar.1.headPtr = d.client.rxBuffer.headPtr := by
        rw [RingBuffer.readChar, if_neg nonempty]
        rfl
      rw [value]
      exact ⟨q, .taken c q, ⟨ready.callback, holds, ready.copies⟩, head⟩

theorem completion_receives {bytes : List UInt8} {inPending : Bool}
    (h : Incoming (receiver d) q) (possible : d.accepts (some bytes) = true) :
    ∃ q', Incoming (receiver (d.completion (some bytes) inPending).1) q' ∧
      RecvStep (receiver d) q (.completion (some bytes) inPending) .none
        (startedOut (d.completion (some bytes) inPending).2.acts)
        (d.completion (some bytes) inPending).1.epOut.outstanding q' ∧
      ∀ a ∈ rxPart (d.completion (some bytes) inPending).2.acts, ¬ a.restarts := by
  rcases h.flight with idle | ⟨x, busy⟩
  · have none : d.epOut.outstanding = [] := idle.outstanding
    simp [accepts, none] at possible
  · have one : d.epOut.outstanding = [x] := busy.outstanding
    have within : bytes.length ≤ x.length := by simpa [accepts, one] using possible
    have filled : d.fill (some bytes) = { d with client := d.client.dma x.buffer 0 bytes } := by
      simp only [fill, one]
    have straight : d.client.rxBuffer.headPtr + x.length ≤ 64 := busy.straight
    obtain ⟨busy', stored, q₁, kept, ready⟩ :=
      dma_ready 0 _ h.toReady busy (by rwa [Nat.zero_add])
    rw [← filled] at busy' stored ready
    simp only [completion, Driver.usbCbCompletion, Option.map_some, Driver.completeOut,
      Nat.mod_eq_of_lt (show bytes.length < 256 by omega)]
    generalize d.fill (some bytes) = d₁ at busy' stored ready
    obtain ⟨q', put, ready'⟩ := got_ready (k := bytes.length) ready
      (Nat.le_trans (Nat.add_le_add_left within _) busy'.straight)
      (fun hb => Nat.le_trans within (busy'.bounce hb))
    have idle : d₁.epOut.handled.outstanding = [] := by
      have one' : d₁.epOut.outstanding = [x] := busy'.outstanding
      rw [Endpoint.handled, one']
      rfl
    obtain ⟨incoming, offered, after, quiet⟩ := runRx_offers bytes.length
      (d := { d₁ with epOut := d₁.epOut.handled }) idle
      ⟨ready'.callback, ready'.holds, ready'.copies⟩
    refine ⟨q', (completeIn_receiver _ inPending).symm ▸ incoming, ?_, ?_⟩
    · rw [← startedOut_rxPart, rxPart_append, Driver.completeIn_rxPart, List.append_nil,
        startedOut_rxPart, (Driver.completeIn_sameRx inPending).epOut, after]
      refine .completed busy within (fun fits => ?_) offered
      rw [put (by rw [kept fits]; omega), kept fits, stored rfl]
    · intro a ha
      rw [rxPart_append, Driver.completeIn_rxPart, List.append_nil] at ha
      exact quiet a (List.mem_of_mem_filter ha)

/-- The configuration enables the endpoint anew and offers the free part of the ring. -/
theorem setConfiguration_receives (config : UInt8) (h : Incoming (receiver d) q) :
    ∃ q', Incoming (receiver (d.setConfiguration config).1) q' ∧
      RecvStep (receiver d) q (.setConfiguration config) .none
        (startedOut (d.setConfiguration config).2.acts)
        (d.setConfiguration config).1.epOut.outstanding q' ∧
      ∀ a ∈ rxPart (d.setConfiguration config).2.acts, ¬ a.restarts := by
  simp only [setConfiguration, Driver.usbCbSetConfiguration]
  by_cases hc : config ≤ 1
  · simp only [if_pos hc, Driver.usbserialInit]
    have same := runTx_receiver { d with epOut := ⟨true, []⟩, epIn := ⟨true, []⟩ } 0
    have acts := Driver.runTx_rxPart usbserialCallbacks
      { d with epOut := ⟨true, []⟩, epIn := ⟨true, []⟩ } 0
    generalize Driver.usbserialRunTxCallback usbserialCallbacks
      { d with epOut := ⟨true, []⟩, epIn := ⟨true, []⟩ } 0 = tx at same acts
    have idle : tx.1.epOut.outstanding = [] := by
      rw [show tx.1.epOut = _ from congrArg Receiver.ep same]
      rfl
    have ready : Ready (receiver tx.1) q := by
      rw [same]
      exact ⟨h.callback, h.holds, h.copies⟩
    obtain ⟨incoming, offered, after, quiet⟩ := runRx_offers 0 idle ready
    refine ⟨q, incoming, ?_, ?_⟩
    · rw [← startedOut_rxPart, rxPart_append, acts, List.nil_append, startedOut_rxPart,
        after]
      exact .configured hc offered
    · intro a ha
      rw [rxPart_append, acts, List.nil_append] at ha
      exact quiet a (List.mem_of_mem_filter ha)
  · simp only [if_neg hc]
    exact ⟨q, h, .quiet (decide_eq_false hc), List.forall_mem_nil _⟩

theorem recv_step {event : SerialEvent} {out : SerialOutput} (h : Incoming (receiver d) q)
    (taken : serialMachine.step d event = some (d', out)) :
    ∃ q', Incoming (receiver d') q' ∧
      RecvStep (receiver d) q event out.result (startedOut out.acts) d'.epOut.outstanding q' ∧
      ∀ a ∈ rxPart out.acts, ¬ a.restarts := by
  cases event with
  | write data len =>
      obtain ⟨rfl, rfl⟩ := Prod.mk.inj (Option.some.inj taken)
      exact recv_quiet h (runTxIfIdle_receiver _) (runTxIfIdle_rxPart _)
        (.quiet rfl)
  | writeChar b =>
      obtain ⟨rfl, rfl⟩ := Prod.mk.inj (Option.some.inj taken)
      exact recv_quiet h (runTxIfIdle_receiver _) (runTxIfIdle_rxPart _)
        (.quiet rfl)
  | read data maxLen =>
      obtain ⟨rfl, rfl⟩ := Prod.mk.inj (Option.some.inj taken)
      have held : d.client.rxBuffer.Holds q := h.holds
      obtain ⟨tail, head, copied⟩ :=
        RingBuffer.read_confined held (by decide) data maxLen.toNat
      obtain ⟨q', hq'⟩ := RingBuffer.exists_holds (head ▸ held.head_lt) tail
      have ready : Ready { receiver d with
          buffer := (d.client.rxBuffer.read data maxLen.toNat).1
          copies := d.client.rxCopies ++
            (d.client.rxBuffer.read data maxLen.toNat).2.2.2 } q' :=
        ⟨h.callback, hq', List.forall_mem_append.mpr ⟨h.copies, copied⟩⟩
      obtain ⟨incoming, started, quiet⟩ := read_offers _ h.flight ready head
      refine ⟨q', incoming, .block ?_, quiet⟩
      rcases started with ⟨-, nothing, -⟩ | ⟨-, offered, -⟩
      · exact Or.inl nothing
      · exact offered.confined
  | readChar =>
      obtain ⟨rfl, rfl⟩ := Prod.mk.inj (Option.some.inj taken)
      obtain ⟨q', unqueued, ready, head⟩ := readChar_unqueued h.toReady
      obtain ⟨incoming, started, quiet⟩ := read_offers d.client.rxCopies h.flight ready head
      refine ⟨q', incoming, ?_, quiet⟩
      rcases started with ⟨⟨x, busy⟩, nothing, after⟩ | ⟨idle, offered, after⟩
      · exact nothing ▸ after ▸ .busy busy unqueued
      · rw [after]
        exact .resumed idle unqueued offered
  | dma i byte =>
      simp only [serialMachine] at taken
      split at taken
      · rename_i x rest outstanding
        split at taken
        · rename_i within
          obtain ⟨rfl, rfl⟩ := Prod.mk.inj (Option.some.inj taken)
          rcases h.flight with idle | ⟨y, busy⟩
          · have none : d.epOut.outstanding = [] := idle.outstanding
            rw [none] at outstanding
            cases outstanding
          · have one : d.epOut.outstanding = [y] := busy.outstanding
            rw [one] at outstanding
            cases outstanding
            obtain ⟨busy', -, q', same, ready⟩ :=
              dma_ready i [byte] h.toReady busy within
            exact ⟨q', ⟨ready, Or.inr ⟨_, busy'⟩⟩, .scribbled busy same, List.forall_mem_nil _⟩
        · cases taken
      · cases taken
  | completion received inPending =>
      simp only [serialMachine] at taken
      split at taken
      · rename_i possible
        obtain ⟨rfl, rfl⟩ := Prod.mk.inj (Option.some.inj taken)
        cases received with
        | none =>
            have same : receiver (d.completion none inPending).1 = receiver d :=
              completeIn_receiver d inPending
            have acts : rxPart (d.completion none inPending).2.acts = [] :=
              Driver.completeIn_rxPart inPending
            exact recv_quiet h same acts (.quiet rfl)
        | some bytes => exact completion_receives h (Bool.and_eq_true_iff.mp possible).1
      · cases taken
  | setConfiguration config =>
      obtain ⟨rfl, rfl⟩ := Prod.mk.inj (Option.some.inj taken)
      exact setConfiguration_receives config h

end System
end SamdCore
