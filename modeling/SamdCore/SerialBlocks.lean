import SamdCore.RingBufferInterface
import SamdCore.SerialReceive
import SamdCore.SerialTransmit

/-!
Both streams of the serial port with block calls.

As long as its block ends before the last cell of the ring, a block write is to
the stream of bytes what the writes of its bytes would be, and a block read what
their reads would be. So all that the host has taken is all that was stored, up
to the bytes still pending, and all that was handed out is all that it sent, up
to the bytes still in the ring.
-/
namespace SamdCore
open CircularSegment MachineRuns

/-- The bytes that a call stores in the tx ring. -/
def SerialEvent.stored (event : SerialEvent) (result : SerialResult) : List UInt8 :=
  match event, result with
  | .write data _, .stored n => slice data 0 n
  | event, result => event.accepted result

/-- The bytes that a call takes from the rx ring, if any were available. -/
def SerialEvent.handed (event : SerialEvent) (result : SerialResult) (available : Bool) :
    List UInt8 :=
  match event, result with
  | .read _ _, .filled buffer n => slice buffer 0 n
  | event, result => event.returned result available

def storedBytes (t : List SerialStep) : List UInt8 := t.flatMap fun x => x.event.stored x.out.result

def handedBytes (t : List SerialStep) : List UInt8 :=
  t.flatMap fun x => x.event.handed x.out.result x.pre.client.available

/-- A block write ends before the last cell of the tx ring. -/
def writesStraight (d : System) : SerialEvent → Bool
  | .write _ len =>
      decide (d.client.txBuffer.headPtr + min len.toNat d.client.txBuffer.availableSpace <
        usbSerialBufferLength)
  | _ => true

/-- A block read ends before the last cell of the rx ring. -/
def readsStraight (d : System) : SerialEvent → Bool
  | .read _ maxLen =>
      decide (d.client.rxBuffer.tailPtr + min maxLen.toNat d.client.rxBuffer.usedSpace <
        usbSerialBufferLength)
  | _ => true

/-- The invariant of the bytes on their way to the host. -/
structure Transmitting (t : List SerialStep) (d : System) (c p : List UInt8) : Prop where
  outgoing : (System.sender d).Outgoing c
  pending : Pending d.epIn.outstanding c p
  accounted : storedBytes t = reported t ++ p

/-- What the host has taken is what was stored, up to the bytes pending; a slice is
always of the oldest of these. -/
structure StreamDelivered (t : List SerialStep) (d : System) : Prop where
  inOrder : reported t <+: storedBytes t
  complete : d.epIn.outstanding = [] → reported t = storedBytes t
  oldest : ∀ past x future, t = past ++ x :: future → ∀ slice ∈ startedIn x.out.acts,
    slice.data <+: (storedBytes (past ++ [x])).drop (reported (past ++ [x])).length

/-- What was handed out is what was received, up to the bytes that the ring holds. -/
structure ReceptionDelivered (t : List SerialStep) (d : System) : Prop where
  inOrder : handedBytes t <+: receivedBytes t
  unread : d.client.rxBuffer.Holds ((receivedBytes t).drop (handedBytes t).length)
  ready : (∃ x ∈ t, x.event.configures = true) →
    d.epOut.outstanding ≠ [] ∨ d.client.rxBuffer.isFull = true

theorem SerialEvent.stored_bytes {event : SerialEvent} {result : SerialResult}
    (bytes : event.writesBytes = true) : event.stored result = event.accepted result := by
  cases event with
  | write data len => cases bytes
  | _ => rfl

theorem SerialEvent.handed_bytes {event : SerialEvent} {result : SerialResult} {available : Bool}
    (bytes : event.readsBytes = true) :
    event.handed result available = event.returned result available := by
  cases event with
  | read buffer maxLen => cases bytes
  | _ => rfl

theorem storedBytes_snoc (t : List SerialStep) (x : SerialStep) :
    storedBytes (t ++ [x]) = storedBytes t ++ x.event.stored x.out.result := by
  simp [storedBytes]

theorem handedBytes_snoc (t : List SerialStep) (x : SerialStep) :
    handedBytes (t ++ [x]) =
      handedBytes t ++ x.event.handed x.out.result x.pre.client.available := by
  simp [handedBytes]

namespace System
open Sender Receiver
variable {m : Storage} {d d' : System} {t : List SerialStep} {c p q : List UInt8}

/-- A straight block write appends its bytes to what is pending. -/
theorem write_transmits (data : Nat → UInt8) (len : UInt8) (h : Outgoing (sender d) c)
    (before : Pending d.epIn.outstanding c p)
    (straight : writesStraight d (.write data len) = true) :
    ∃ c', Outgoing (sender (d.write data len).1) c' ∧
      Pending (d.write data len).1.epIn.outstanding c'
        (p ++ SerialEvent.stored (.write data len) (d.write data len).2.result) ∧
      ∀ x ∈ startedIn (d.write data len).2.acts,
        x.data <+: p ++ SerialEvent.stored (.write data len) (d.write data len).2.result := by
  have held : d.client.txBuffer.Holds c := h.holds
  obtain ⟨holds, count, tail⟩ := RingBuffer.storeBuffer_spec held (by decide) data
    (of_decide_eq_true straight)
  have copied := (RingBuffer.storeBuffer_confined held (by decide) data len.toNat).2.2
  rw [← count] at holds
  have ready : Ready { sender d with
      buffer := (d.client.txBuffer.storeBuffer data len.toNat).1
      copies := d.client.txCopies ++ (d.client.txBuffer.storeBuffer data len.toNat).2.2 }
      (c ++ slice data 0 (d.client.txBuffer.storeBuffer data len.toNat).2.1) :=
    ⟨h.callback, holds, tail ▸ h.aligned, List.forall_mem_append.mpr ⟨h.copies, copied⟩⟩
  obtain ⟨c', outgoing, started, -⟩ :=
    written_offers _ (h.flight.imp_left And.left) ready tail
  refine ⟨c', outgoing, ?_⟩
  cases started with
  | inl busy =>
      obtain ⟨⟨x, flying⟩, nothing, after, same⟩ := busy
      have one : d.epIn.outstanding = [x] := flying.outstanding
      have outstanding : (d.write data len).1.epIn.outstanding = [x] := after.trans one
      have none : startedIn (d.write data len).2.acts = [] := nothing
      rw [one] at before
      rw [outstanding, none, same]
      exact ⟨before.push _, List.forall_mem_nil _⟩
  | inr idle =>
      obtain ⟨still, offered, after⟩ := idle
      have outstanding : d.epIn.outstanding = [] := still.outstanding
      rw [outstanding] at before
      obtain ⟨rfl, rfl⟩ := before.idle_eq
      have now : (d.write data len).1.epIn.outstanding = startedIn (d.write data len).2.acts :=
        after
      rw [now]
      exact ⟨offered.pending, offered.begins⟩

theorem transmitting_step {event : SerialEvent} {out : SerialOutput}
    (h : Transmitting t d c p) (straight : writesStraight d event = true)
    (words : abandonsWords d event = true)
    (taken : serialMachine.step d event = some (d', out)) :
    ∃ c' p', Transmitting (t ++ [⟨d, event, out, d'⟩]) d' c' p' ∧
      ∀ x ∈ startedIn out.acts, x.data <+: p' := by
  cases bytes : event.writesBytes with
  | true =>
      obtain ⟨c', outgoing, step, -⟩ := send_step h.outgoing taken
      obtain ⟨p', pending, moved, started⟩ :=
        step.pending h.outgoing h.pending bytes (abandonsWords_iff.mp words)
      refine ⟨c', p', ⟨outgoing, pending, ?_⟩, fun x hx => (started x hx).1⟩
      rw [storedBytes_snoc, reported_snoc, h.accounted, SerialEvent.stored_bytes bytes,
        List.append_assoc, List.append_assoc]
      exact congrArg (reported t ++ ·) moved
  | false =>
      cases event with
      | write data len =>
          cases taken
          obtain ⟨c', outgoing, pending, started⟩ :=
            write_transmits data len h.outgoing h.pending straight
          refine ⟨c', _, ⟨outgoing, pending, ?_⟩, started⟩
          rw [storedBytes_snoc, reported_snoc, h.accounted, List.append_assoc, List.append_assoc]
          rfl
      | _ => cases bytes

theorem transmitting_run (h : serialMachine.Runs (constructed m) t d)
    (straight : ∀ x ∈ t, writesStraight x.pre x.event = true)
    (words : ∀ x ∈ t, abandonsWords x.pre x.event = true) : ∃ c p, Transmitting t d c p := by
  induction h with
  | nil => exact ⟨[], [], outgoing_constructed m, .idle, rfl⟩
  | snoc _ taken ih =>
      rw [List.forall_mem_append, List.forall_mem_singleton] at straight words
      obtain ⟨c, p, before⟩ := ih straight.1 words.1
      obtain ⟨c', p', after, -⟩ := transmitting_step before straight.2 words.2 taken
      exact ⟨c', p', after⟩

/-- Byte and block writes, completions and requests in any order, with every block ending
before the last cell and every request finding whole words outstanding. -/
theorem stream_delivered (m : Storage) (h : serialMachine.Runs (constructed m) t d)
    (straight : ∀ x ∈ t, writesStraight x.pre x.event = true)
    (words : ∀ x ∈ t, abandonsWords x.pre x.event = true) : StreamDelivered t d := by
  obtain ⟨c, p, transmitting⟩ := transmitting_run h straight words
  refine ⟨?_, ?_, ?_⟩
  · rw [transmitting.accounted]
    exact List.prefix_append _ p
  · intro idle
    have pending := transmitting.pending
    rw [idle] at pending
    rw [transmitting.accounted, pending.idle_eq.2, List.append_nil]
  · rintro past ⟨d₁, event, out, d₂⟩ future rfl y hy
    obtain ⟨before, taken, -⟩ := h.at_step
    rw [List.forall_mem_append, List.forall_mem_cons] at straight words
    obtain ⟨c, p, earlier⟩ := transmitting_run before straight.1 words.1
    obtain ⟨c', p', now, started⟩ := transmitting_step earlier straight.2.1 words.2.1 taken
    rw [now.accounted, List.drop_left]
    exact started y hy

theorem stream_delivered_session :
    let run := serialMachine.exec (constructed zeroed)
      [.setConfiguration 1, .write (fun i => UInt8.ofNat i) 5, .writeChar 5,
        .write (fun _ => 6) 9, .completion none true, .setConfiguration 1, .completion none true,
        .completion none true]
    ∃ ran : run.isSome, StreamDelivered (run.get ran).1 (run.get ran).2 :=
  ⟨by decide, stream_delivered zeroed (Machine.runs_exec (by decide)) (by decide +kernel)
    (by decide +kernel)⟩

/-- A straight block read hands out the front of what is unread. -/
theorem read_hands (held : d.client.rxBuffer.Holds q) (buffer : Nat → UInt8) (maxLen : UInt8)
    (straight : readsStraight d (.read buffer maxLen) = true) (available : Bool) :
    q = SerialEvent.handed (.read buffer maxLen) (d.read buffer maxLen).2.result available ++
      q.drop (min maxLen.toNat q.length) := by
  obtain ⟨-, bytes, count, -⟩ := RingBuffer.read_spec held (by decide) buffer
    (of_decide_eq_true straight)
  have length : (q.take (min maxLen.toNat q.length)).length = min maxLen.toNat q.length :=
    List.length_take_of_le (Nat.min_le_right _ _)
  have handed : SerialEvent.handed (.read buffer maxLen) (d.read buffer maxLen).2.result
      available = slice (d.client.rxBuffer.read buffer maxLen.toNat).2.1 0
        (d.client.rxBuffer.read buffer maxLen.toNat).2.2.1 := rfl
  have copiedOut := slice_blit buffer 0 (q.take (min maxLen.toNat q.length))
  rw [length] at copiedOut
  rw [handed, bytes, count, copiedOut, List.take_append_drop]

/-- A straight block read takes its bytes from the front of what is unread. -/
theorem read_receives {begun : Prop} (buffer : Nat → UInt8) (maxLen : UInt8)
    (h : Incoming (receiver d) q) (before : Receiving d.epOut.outstanding q begun)
    (straight : readsStraight d (.read buffer maxLen) = true) (available : Bool) :
    ∃ q', Incoming (receiver (d.read buffer maxLen).1) q' ∧
      Receiving (d.read buffer maxLen).1.epOut.outstanding q' begun ∧
      q = SerialEvent.handed (.read buffer maxLen) (d.read buffer maxLen).2.result available ++
        q' := by
  have held : d.client.rxBuffer.Holds q := h.holds
  obtain ⟨holds, -, -, head⟩ := RingBuffer.read_spec held (by decide) buffer
    (of_decide_eq_true straight)
  have copied := (RingBuffer.read_confined held (by decide) buffer maxLen.toNat).2.2
  have ready : Receiver.Ready { receiver d with
      buffer := (d.client.rxBuffer.read buffer maxLen.toNat).1
      copies := d.client.rxCopies ++ (d.client.rxBuffer.read buffer maxLen.toNat).2.2.2 }
      (q.drop (min maxLen.toNat q.length)) :=
    ⟨h.callback, holds, List.forall_mem_append.mpr ⟨h.copies, copied⟩⟩
  obtain ⟨incoming, started, -⟩ := read_offers _ h.flight ready head
  refine ⟨_, incoming, ?_, read_hands held buffer maxLen straight available⟩
  cases started with
  | inl busy =>
      obtain ⟨⟨x, flying⟩, -, after⟩ := busy
      have outstanding : (d.read buffer maxLen).1.epOut.outstanding = d.epOut.outstanding := after
      have one : d.epOut.outstanding = [x] := flying.outstanding
      rw [outstanding]
      refine ⟨fun y hy => ?_, fun _ => Or.inl (one ▸ List.cons_ne_nil x [])⟩
      have room := before.room y hy
      rw [List.length_drop]
      omega
  | inr idle =>
      have now : (d.read buffer maxLen).1.epOut.outstanding =
        startedOut (d.read buffer maxLen).2.acts := idle.2.2
      rw [now]
      exact idle.2.1.receiving begun

theorem available_eq (held : d.client.rxBuffer.Holds q) : d.client.available = !q.isEmpty := by
  have empty : d.client.rxBuffer.isEmpty = q.isEmpty :=
    Bool.eq_iff_iff.mpr (held.isEmpty_iff.trans List.isEmpty_iff.symm)
  rw [USBserial.available, empty]

/-- The step lemma of block and byte reads. -/
theorem handing_step {begun : Prop} {event : SerialEvent} {out : SerialOutput}
    (h : Incoming (receiver d) q) (before : Receiving d.epOut.outstanding q begun)
    (straight : readsStraight d event = true)
    (taken : serialMachine.step d event = some (d', out)) :
    ∃ q', Incoming (receiver d') q' ∧
      Receiving d'.epOut.outstanding q' (begun ∨ event.configures = true) ∧
      q ++ event.received = event.handed out.result d.client.available ++ q' := by
  cases bytes : event.readsBytes with
  | true =>
      obtain ⟨q', incoming, step, -⟩ := recv_step h taken
      obtain ⟨after, moved⟩ := step.receiving before bytes
      refine ⟨q', incoming, after, ?_⟩
      rw [SerialEvent.handed_bytes bytes, available_eq h.holds]
      exact moved
  | false =>
      cases event with
      | read buffer maxLen =>
          cases taken
          obtain ⟨q', incoming, after, moved⟩ :=
            read_receives buffer maxLen h before straight d.client.available
          refine ⟨q', incoming, ⟨after.room, fun begun => ?_⟩, (List.append_nil q).trans moved⟩
          exact after.ready (begun.resolve_right Bool.false_ne_true)
      | _ => cases bytes

theorem handing_run (h : serialMachine.Runs (constructed m) t d)
    (straight : ∀ x ∈ t, readsStraight x.pre x.event = true) :
    ∃ q, Incoming (receiver d) q ∧
      Receiving d.epOut.outstanding q (∃ x ∈ t, x.event.configures = true) ∧
      receivedBytes t = handedBytes t ++ q := by
  induction h with
  | nil =>
      refine ⟨[], incoming_constructed m, ⟨List.forall_mem_nil _, ?_⟩, rfl⟩
      intro begun
      obtain ⟨x, impossible, _⟩ := begun
      cases impossible
  | @snoc t s s' event out _ taken ih =>
      rw [List.forall_mem_append, List.forall_mem_singleton] at straight
      obtain ⟨q, incoming, before, accounted⟩ := ih straight.1
      obtain ⟨q', incoming', after, moved⟩ := handing_step incoming before straight.2 taken
      refine ⟨q', incoming', ⟨after.room, fun begun => after.ready ?_⟩, ?_⟩
      · simpa using begun
      · rw [receivedBytes_snoc, handedBytes_snoc, accounted, List.append_assoc,
          List.append_assoc]
        exact congrArg (handedBytes t ++ ·) moved

/-- Byte and block reads, transfers of any length and requests in any order, with every
block ending before the last cell. -/
theorem reception_delivered (m : Storage) (h : serialMachine.Runs (constructed m) t d)
    (straight : ∀ x ∈ t, readsStraight x.pre x.event = true) : ReceptionDelivered t d := by
  obtain ⟨q, incoming, receiving, accounted⟩ := handing_run h straight
  have held : d.client.rxBuffer.Holds q := incoming.holds
  refine ⟨?_, ?_, ?_⟩
  · rw [accounted]
    exact List.prefix_append _ q
  · rwa [accounted, List.drop_left]
  · intro begun
    rw [held.isFull_iff (by decide)]
    exact receiving.ready begun

theorem reception_delivered_session :
    let run := serialMachine.exec (constructed zeroed)
      [.setConfiguration 1, .completion (some [1, 2, 3]) false, .read (fun _ => 0) 2,
        .completion (some [4, 5]) false, .readChar, .setConfiguration 1,
        .read (fun _ => 0) 64]
    ∃ ran : run.isSome, ReceptionDelivered (run.get ran).1 (run.get ran).2 :=
  ⟨by decide, reception_delivered zeroed (Machine.runs_exec (by decide)) (by decide +kernel)⟩

end System
end SamdCore
