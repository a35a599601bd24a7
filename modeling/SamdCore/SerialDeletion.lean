import SamdCore.SerialBlocks
import SamdCore.SerialConfinement

/-!
`USBserial::_del`: both callbacks are removed, whatever is outstanding.

The functions of the class can still be called. They start nothing any more, and no
completion reaches the rings: what had been received can still be read, and what is
written stays in the ring. A transfer that is outstanding may go on writing, but only
to cells that the ring will never give out.
-/
namespace SamdCore
open CircularSegment MachineRuns

namespace System
variable {m : Storage} {d d' : System} {t u : List SerialStep} {c q : List UInt8}

/-- `_del`, with no interrupt between its two calls. -/
def del (d : System) : System :=
  let tx := d.usbserialSetTxCallback usbserialCallbacks none
  (tx.1.usbserialSetRxCallback usbserialCallbacks none).1

/-- The rings hold `c` and `q`, and no transfer can reach `q`. -/
structure Deleted (d : System) (c q : List UInt8) : Prop where
  txCallback : d.txCallback = none
  rxCallback : d.rxCallback = none
  stored : d.client.txBuffer.Holds c
  unread : d.client.rxBuffer.Holds q
  apart : ∀ x ∈ d.epOut.outstanding, x.buffer = .rxBuffer ∨
    x.buffer = .buffer d.client.rxBuffer.headPtr ∧ q.length + x.length ≤ usbSerialBufferLength ∧
      d.client.rxBuffer.headPtr + x.length ≤ usbSerialBufferLength

theorem runTx_removed (removed : d.txCallback = none) (len : Nat) :
    d.usbserialRunTxCallback usbserialCallbacks len =
      ({ d with currentTxBuffer := none, currentTxLength := 0 }, []) := by
  simp only [Driver.usbserialRunTxCallback, removed]

theorem runRx_removed (removed : d.rxCallback = none) (len : Nat) :
    d.usbserialRunRxCallback usbserialCallbacks len = ({ d with currentRxBuffer := none }, []) := by
  simp only [Driver.usbserialRunRxCallback, removed]

theorem setTx_none (d : System) :
    let d' : System := (d.usbserialSetTxCallback usbserialCallbacks none).1
    d'.txCallback = none ∧ d'.rxCallback = d.rxCallback ∧ d'.client = d.client ∧
      d'.epOut = d.epOut := by
  simp only [Driver.usbserialSetTxCallback]
  split
  · rw [runTx_removed rfl]
    exact ⟨rfl, rfl, rfl, rfl⟩
  · exact ⟨rfl, rfl, rfl, rfl⟩

theorem setRx_none (d : System) :
    let d' : System := (d.usbserialSetRxCallback usbserialCallbacks none).1
    d'.rxCallback = none ∧ d'.txCallback = d.txCallback ∧ d'.client = d.client ∧
      d'.epOut = d.epOut := by
  simp only [Driver.usbserialSetRxCallback]
  split
  · rw [runRx_removed rfl]
    exact ⟨rfl, rfl, rfl, rfl⟩
  · exact ⟨rfl, rfl, rfl, rfl⟩

/-- What `_del` keeps and what it removes. -/
theorem del_spec (d : System) : d.del.txCallback = none ∧ d.del.rxCallback = none ∧
    d.del.client = d.client ∧ d.del.epOut = d.epOut := by
  obtain ⟨tx, -, client, epOut⟩ := setTx_none d
  obtain ⟨rx, tx', client', epOut'⟩ :=
    setRx_none (d.usbserialSetTxCallback usbserialCallbacks none).1
  exact ⟨tx'.trans tx, rx, client'.trans client, epOut'.trans epOut⟩

theorem deleted_of_incoming (sending : d.client.txBuffer.Holds c)
    (incoming : (receiver d).Incoming q)
    (room : ∀ x ∈ d.epOut.outstanding, q.length + x.length < usbSerialBufferLength) :
    Deleted d.del c q := by
  obtain ⟨tx, rx, client, epOut⟩ := del_spec d
  refine ⟨tx, rx, client ▸ sending, client ▸ incoming.holds, ?_⟩
  rw [client, epOut]
  cases incoming.flight with
  | inl idle =>
      have none : d.epOut.outstanding = [] := idle.outstanding
      rw [none]
      exact List.forall_mem_nil _
  | inr busy =>
      obtain ⟨x, flying⟩ := busy
      have one : d.epOut.outstanding = [x] := flying.outstanding
      rw [one, List.forall_mem_singleton] at room ⊢
      have pointer := flying.pointer
      by_cases bounced : d.client.rxBuffer.bounced
      · exact Or.inl (pointer.trans (if_pos bounced))
      · exact Or.inr ⟨pointer.trans (if_neg bounced), Nat.le_of_lt room, flying.straight⟩

namespace Deleted

/-- Only the callbacks, the rings and the transfers outstanding matter. -/
theorem same (h : Deleted d c q) (tx : d'.txCallback = d.txCallback)
    (rx : d'.rxCallback = d.rxCallback) (client : d'.client = d.client)
    (ep : d'.epOut.outstanding ⊆ d.epOut.outstanding) : Deleted d' c q :=
  ⟨tx.trans h.txCallback, rx.trans h.rxCallback, client ▸ h.stored, client ▸ h.unread,
    fun x hx => client ▸ h.apart x (ep hx)⟩

theorem runTx (h : Deleted d c q) (len : Nat) :
    Deleted (d.usbserialRunTxCallback usbserialCallbacks len).1 c q ∧
      (d.usbserialRunTxCallback usbserialCallbacks len).2 = [] := by
  rw [runTx_removed h.txCallback]
  exact ⟨h.same rfl rfl rfl (List.Subset.refl _), rfl⟩

theorem runRx (h : Deleted d c q) (len : Nat) :
    Deleted (d.usbserialRunRxCallback usbserialCallbacks len).1 c q ∧
      (d.usbserialRunRxCallback usbserialCallbacks len).2 = [] := by
  rw [runRx_removed h.rxCallback]
  exact ⟨h.same rfl rfl rfl (List.Subset.refl _), rfl⟩

theorem runTxIfIdle (h : Deleted d c q) :
    Deleted d.runTxIfIdle.1 c q ∧ d.runTxIfIdle.2 = [] := by
  rw [System.runTxIfIdle]
  split
  · exact ⟨h, rfl⟩
  · exact h.runTx 0

theorem runRxIfIdle (h : Deleted d c q) :
    Deleted d.runRxIfIdle.1 c q ∧ d.runRxIfIdle.2 = [] := by
  rw [System.runRxIfIdle]
  split
  · exact ⟨h, rfl⟩
  · exact h.runRx 0

/-- What the USB layer stores does not reach the bytes that can be read. -/
theorem dma (h : Deleted d c q) {x : Offer} (outstanding : x ∈ d.epOut.outstanding) (i : Nat)
    (bytes : List UInt8) (within : i + bytes.length ≤ x.length) :
    Deleted { d with client := d.client.dma x.buffer i bytes } c q := by
  cases h.apart x outstanding with
  | inl bounce =>
      rw [bounce]
      have held := h.unread
      exact ⟨h.txCallback, h.rxCallback, h.stored,
        ⟨held.tail_lt, held.length_lt, held.head_eq, held.bytes⟩, h.apart⟩
  | inr direct =>
      obtain ⟨pointer, fits, straight⟩ := direct
      rw [pointer]
      refine ⟨h.txCallback, h.rxCallback, h.stored, ?_, h.apart⟩
      exact h.unread.frame fits straight (fun p hp => blit_outside _ _ bytes (by omega)) rfl rfl

theorem fill (h : Deleted d c q) {out : Option (List UInt8)} (possible : d.accepts out = true) :
    Deleted (d.fill out) c q := by
  simp only [System.fill]
  split
  · rename_i bytes x rest outstanding
    simp only [accepts, outstanding, decide_eq_true_eq] at possible
    exact h.dma (outstanding ▸ List.mem_cons_self) 0 bytes (by rwa [Nat.zero_add])
  · exact h

theorem completion (h : Deleted d c q) {out : Option (List UInt8)} (inPending : Bool)
    (possible : d.accepts out = true) :
    Deleted (d.completion out inPending).1 c q ∧ (d.completion out inPending).2.acts = [] := by
  have filled := h.fill possible
  simp only [System.completion, Driver.usbCbCompletion]
  generalize d.fill out = d₁ at filled
  have received : Deleted (d₁.completeOut usbserialCallbacks (out.map List.length)).1 c q ∧
      (d₁.completeOut usbserialCallbacks (out.map List.length)).2 = [] := by
    cases out with
    | none => exact ⟨filled, rfl⟩
    | some bytes =>
        have handled : Deleted { d₁ with epOut := d₁.epOut.handled } c q :=
          filled.same rfl rfl rfl (List.tail_subset _)
        exact handled.runRx _
  generalize d₁.completeOut usbserialCallbacks (out.map List.length) = rx at received
  obtain ⟨after, quiet⟩ := received
  rw [quiet, List.nil_append]
  cases inPending with
  | false => exact ⟨after, rfl⟩
  | true =>
      have handled : Deleted { rx.1 with epIn := rx.1.epIn.handled } c q :=
        after.same rfl rfl rfl (List.Subset.refl _)
      exact handled.runTx _

theorem setConfiguration (h : Deleted d c q) (config : UInt8) :
    Deleted (d.setConfiguration config).1 c q ∧ (d.setConfiguration config).2.acts = [] := by
  simp only [System.setConfiguration, Driver.usbCbSetConfiguration]
  split
  · have enabled : Deleted { d with epOut := ⟨true, []⟩, epIn := ⟨true, []⟩ } c q :=
      h.same rfl rfl rfl (List.nil_subset _)
    obtain ⟨sent, none⟩ := enabled.runTx 0
    obtain ⟨received, none'⟩ := sent.runRx 0
    simp only [Driver.usbserialInit]
    rw [none, none']
    exact ⟨received, rfl⟩
  · exact ⟨h, rfl⟩

/-- Bytes behind those in the tx ring. -/
theorem written (h : Deleted d c q) {r : RingBuffer usbSerialBufferLength bufferUsbTxAlign}
    {c' : List UInt8} (holds : r.Holds c') (copies : List Memcpy) :
    let ran := System.runTxIfIdle { d with
      client := { d.client with txBuffer := r, txCopies := copies } }
    Deleted ran.1 c' q ∧ ran.2 = [] :=
  runTxIfIdle (d := { d with client := { d.client with txBuffer := r, txCopies := copies } })
    ⟨h.txCallback, h.rxCallback, holds, h.unread, h.apart⟩

/-- Bytes taken from the front of the rx ring. -/
theorem taken (h : Deleted d c q) {r : RingBuffer usbSerialBufferLength bufferUsbRxAlign}
    {q' : List UInt8} (holds : r.Holds q') (fewer : q'.length ≤ q.length)
    (head : r.headPtr = d.client.rxBuffer.headPtr) (copies : List Memcpy) :
    let ran := System.runRxIfIdle { d with
      client := { d.client with rxBuffer := r, rxCopies := copies } }
    Deleted ran.1 c q' ∧ ran.2 = [] := by
  apply runRxIfIdle (d := { d with client := { d.client with rxBuffer := r, rxCopies := copies } })
  refine ⟨h.txCallback, h.rxCallback, h.stored, holds, fun x hx => ?_⟩
  refine (h.apart x hx).imp_right fun ⟨pointer, fits, straight⟩ => ?_
  rw [head]
  exact ⟨pointer, by omega, straight⟩

end Deleted

theorem writeChar_stores {N align : Nat} {r : RingBuffer N align} (h : r.Holds c) (hN : N ≤ 255)
    (b : UInt8) : (r.storeChar b).1.Holds
      (c ++ SerialEvent.stored (.writeChar b) (.stored (r.storeChar b).2)) := by
  have short := h.length_lt
  by_cases room : c.length < N - 1
  · obtain ⟨holds, count, -⟩ := RingBuffer.storeChar_spec h hN room b
    rw [count]
    exact holds
  · have full : c.length = N - 1 := by omega
    rw [RingBuffer.storeChar_of_full h hN full]
    exact (List.append_nil c).symm ▸ h

theorem readChar_hands (h : d.client.rxBuffer.Holds q) : ∃ q',
    d.client.rxBuffer.readChar.1.Holds q' ∧ q'.length ≤ q.length ∧
      d.client.rxBuffer.readChar.1.headPtr = d.client.rxBuffer.headPtr ∧
      q = SerialEvent.handed .readChar d.readChar.2.result d.client.available ++ q' := by
  have available := available_eq h
  cases q with
  | nil =>
      rw [available, RingBuffer.readChar_of_empty h]
      exact ⟨[], h, Nat.le_refl 0, rfl, rfl⟩
  | cons b q =>
      obtain ⟨holds, value⟩ := RingBuffer.readChar_spec h
      refine ⟨q, holds, Nat.le_succ _, ?_, ?_⟩
      · rw [RingBuffer.readChar_of_cons h]
      · have returned : d.readChar.2.result = .char b := congrArg SerialResult.char value
        rw [available, returned]
        rfl

/-- The step lemma: what is written is put into one ring, and what is handed out taken from
the other. -/
theorem deleted_step {event : SerialEvent} {out : SerialOutput} (h : Deleted d c q)
    (writes : writesStraight d event = true) (reads : readsStraight d event = true)
    (step : serialMachine.step d event = some (d', out)) :
    ∃ q', Deleted d' (c ++ event.stored out.result) q' ∧ out.acts = [] ∧
      q = event.handed out.result d.client.available ++ q' := by
  cases event with
  | write data len =>
      obtain ⟨rfl, rfl⟩ := Prod.mk.inj (Option.some.inj step)
      obtain ⟨holds, count, -⟩ := RingBuffer.storeBuffer_spec h.stored (by decide) data
        (of_decide_eq_true writes)
      rw [← count] at holds
      obtain ⟨after, quiet⟩ := h.written holds (d.client.txCopies ++
        (d.client.txBuffer.storeBuffer data len.toNat).2.2)
      exact ⟨q, after, quiet, rfl⟩
  | writeChar b =>
      obtain ⟨rfl, rfl⟩ := Prod.mk.inj (Option.some.inj step)
      obtain ⟨after, quiet⟩ :=
        h.written (writeChar_stores h.stored (by decide) b) d.client.txCopies
      exact ⟨q, after, quiet, rfl⟩
  | read buffer maxLen =>
      obtain ⟨rfl, rfl⟩ := Prod.mk.inj (Option.some.inj step)
      obtain ⟨holds, -, -, head⟩ := RingBuffer.read_spec h.unread (by decide) buffer
        (of_decide_eq_true reads)
      have hands := read_hands h.unread buffer maxLen reads d.client.available
      have fewer : (q.drop (min maxLen.toNat q.length)).length ≤ q.length := by
        rw [List.length_drop]
        exact Nat.sub_le ..
      obtain ⟨after, quiet⟩ := h.taken holds fewer head (d.client.rxCopies ++
        (d.client.rxBuffer.read buffer maxLen.toNat).2.2.2)
      exact ⟨_, (List.append_nil c).symm ▸ after, quiet, hands⟩
  | readChar =>
      obtain ⟨rfl, rfl⟩ := Prod.mk.inj (Option.some.inj step)
      obtain ⟨q', holds, fewer, head, hands⟩ := readChar_hands h.unread
      obtain ⟨after, quiet⟩ := h.taken holds fewer head d.client.rxCopies
      exact ⟨q', (List.append_nil c).symm ▸ after, quiet, hands⟩
  | dma i byte =>
      simp only [serialMachine] at step
      split at step
      · rename_i x rest outstanding
        split at step
        · rename_i within
          obtain ⟨rfl, rfl⟩ := Prod.mk.inj (Option.some.inj step)
          have after := h.dma (outstanding ▸ List.mem_cons_self) i [byte] within
          exact ⟨q, (List.append_nil c).symm ▸ after, rfl, rfl⟩
        · cases step
      · cases step
  | completion received inPending =>
      simp only [serialMachine] at step
      split at step
      · rename_i possible
        obtain ⟨rfl, rfl⟩ := Prod.mk.inj (Option.some.inj step)
        obtain ⟨after, quiet⟩ := h.completion inPending (Bool.and_eq_true_iff.mp possible).1
        exact ⟨q, (List.append_nil c).symm ▸ after, quiet, rfl⟩
      · cases step
  | setConfiguration config =>
      obtain ⟨rfl, rfl⟩ := Prod.mk.inj (Option.some.inj step)
      obtain ⟨after, quiet⟩ := h.setConfiguration config
      exact ⟨q, (List.append_nil c).symm ▸ after, quiet, rfl⟩

theorem deleted_run (before : Deleted d c q) (h : serialMachine.Runs d u d')
    (writes : ∀ x ∈ u, writesStraight x.pre x.event = true)
    (reads : ∀ x ∈ u, readsStraight x.pre x.event = true) :
    ∃ q', Deleted d' (c ++ storedBytes u) q' ∧ acted u = [] ∧ q = handedBytes u ++ q' := by
  induction h with
  | nil => exact ⟨q, (List.append_nil c).symm ▸ before, rfl, rfl⟩
  | snoc _ step ih =>
      rw [List.forall_mem_append, List.forall_mem_singleton] at writes reads
      obtain ⟨q', earlier, quiet, hands⟩ := ih writes.1 reads.1
      obtain ⟨q'', after, quiet', hands'⟩ := deleted_step earlier writes.2 reads.2 step
      refine ⟨q'', ?_, ?_, ?_⟩
      · rw [storedBytes_snoc, ← List.append_assoc]
        exact after
      · rw [acted_snoc, quiet, quiet', List.append_nil]
      · rw [handedBytes_snoc, List.append_assoc, ← hands', hands]

/-- What is left of the serial port after `_del`. -/
structure Silent (t u : List SerialStep) (d' : System) : Prop where
  nothing : acted u = []
  inOrder : handedBytes t ++ handedBytes u <+: receivedBytes t
  all : d'.client.available = false → handedBytes t ++ handedBytes u = receivedBytes t
  kept : ∃ c, d'.client.txBuffer.Holds (c ++ storedBytes u)

/-- After `_del` no callback is run and no transfer started, whatever is called and completes.
What was received before it can still be read, and what is written stays in the ring. -/
theorem deleted_silent (before : serialMachine.Runs (constructed m) t d)
    (h : serialMachine.Runs d.del u d')
    (reads : ∀ x ∈ t ++ u, readsStraight x.pre x.event = true)
    (writes : ∀ x ∈ u, writesStraight x.pre x.event = true) : Silent t u d' := by
  rw [List.forall_mem_append] at reads
  obtain ⟨⟨c, outgoing⟩, -⟩ := halves_run before
  obtain ⟨q, incoming, receiving, accounted⟩ := handing_run before reads.1
  have deleted := deleted_of_incoming outgoing.holds incoming receiving.room
  obtain ⟨q', after, quiet, rfl⟩ := deleted_run deleted h writes reads.2
  rw [← List.append_assoc] at accounted
  refine ⟨quiet, ?_, fun read => ?_, c, after.stored⟩
  · rw [accounted]
    exact List.prefix_append _ q'
  · rw [available_eq after.unread, Bool.not_eq_false', List.isEmpty_iff] at read
    rw [accounted, read, List.append_nil]

theorem deleted_silent_session :
    let run := serialMachine.exec (constructed zeroed)
      [.setConfiguration 1, .completion (some [1, 2, 3]) false, .readChar, .writeChar 7]
    let later := serialMachine.exec ((run.map fun ran => ran.2.del).getD (constructed zeroed))
      [.dma 0 9, .readChar, .completion (some [9, 9]) true, .write (fun _ => 8) 5, .writeChar 8,
        .setConfiguration 1, .read (fun _ => 0) 64]
    ∃ (ran : run.isSome) (ran' : later.isSome),
      Silent (run.get ran).1 (later.get ran').1 (later.get ran').2 :=
  ⟨by decide +kernel, by decide +kernel, deleted_silent (Machine.runs_exec (by decide +kernel))
    (Machine.runs_exec (by decide +kernel)) (by decide +kernel) (by decide +kernel)⟩

end System
end SamdCore
