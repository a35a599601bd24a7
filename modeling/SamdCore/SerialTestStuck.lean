import SamdCore.RingBufferEnd
import SamdCore.SerialTestEcho

/-!
A full rx ring that the serial test never empties.

A read of a full ring reaches the end of the array, unless the tail is at its
start, and leaves the tail where it was. So the ring is full again, and no
transfer is offered that could move its head: the loop of `main` reads and writes
the same bytes for ever, and nothing that the host sends is received.
-/
namespace SamdCore
open CircularSegment MachineRuns

/-- A full ring whose tail is not at the start of the array. -/
structure Wedged (r : RingBuffer usbSerialBufferLength bufferUsbRxAlign) : Prop where
  full : r.isFull = true
  head : r.headPtr < usbSerialBufferLength
  tail : r.tailPtr < usbSerialBufferLength
  inside : 0 < r.tailPtr

/-- What such a ring is read as: the byte of the last cell is left out, and that of the free
one taken for it. -/
def Wedged.stale (r : RingBuffer usbSerialBufferLength bufferUsbRxAlign) : List UInt8 :=
  r.queued.eraseIdx (usbSerialBufferLength - 1 - r.tailPtr) ++ [r.buffer r.headPtr]

/-- Bytes are read in blocks as long as the ring. -/
def readsWhole : SerialEvent → Bool
  | .read _ maxLen => decide (usbSerialBufferLength - 1 ≤ maxLen.toNat)
  | .readChar => false
  | _ => true

/-- The rx ring is `r`, and nothing is offered that could fill it. -/
structure Stuck (r : RingBuffer usbSerialBufferLength bufferUsbRxAlign) (s : Receiver) :
    Prop where
  callback : s.callback = some ()
  ring : s.buffer = r
  outstanding : s.ep.outstanding = []

variable {d d' : System} {r : RingBuffer usbSerialBufferLength bufferUsbRxAlign}

namespace Wedged

theorem length_stale (h : Wedged r) : (stale r).length = usbSerialBufferLength - 1 := by
  obtain ⟨q, holds⟩ := RingBuffer.exists_holds h.head h.tail
  have length : q.length = usbSerialBufferLength - 1 := (holds.isFull_iff (by decide)).mp h.full
  have tail := h.tail
  have inside := h.inside
  rw [stale, holds.queued_eq (by decide), List.length_append, List.length_singleton,
    List.length_eraseIdx_of_lt (by omega), length]
  decide

/-- A read of such a ring leaves all of it as it was. -/
theorem read (h : Wedged r) (buffer : Nat → UInt8) {maxLen : Nat}
    (whole : usbSerialBufferLength - 1 ≤ maxLen) :
    (r.read buffer maxLen).1 = r ∧ (r.read buffer maxLen).2.2.1 = usbSerialBufferLength - 1 ∧
      slice (r.read buffer maxLen).2.1 0 (usbSerialBufferLength - 1) = stale r := by
  obtain ⟨q, holds⟩ := RingBuffer.exists_holds h.head h.tail
  have length : q.length = usbSerialBufferLength - 1 := (holds.isFull_iff (by decide)).mp h.full
  have all : min maxLen r.usedSpace = usbSerialBufferLength - 1 := by
    rw [holds.usedSpace_eq (by decide), length]
    exact Nat.min_eq_right whole
  have tail := h.tail
  have inside := h.inside
  have reaches : usbSerialBufferLength ≤ r.tailPtr + min maxLen r.usedSpace := by omega
  obtain ⟨ring, -, count⟩ :=
    RingBuffer.read_split (by decide) h.tail buffer (by omega) reaches
  have copied := (RingBuffer.read_skips holds (by decide) buffer reaches).1
  rw [← holds.queued_eq (by decide), all] at copied
  refine ⟨?_, count.trans all, copied.trans ?_⟩
  · rw [ring, show min maxLen r.usedSpace - (usbSerialBufferLength - 1 - r.tailPtr) = r.tailPtr by
      omega]
  · exact List.take_of_length_le (Nat.le_of_eq h.length_stale)

end Wedged

namespace System
open Receiver

/-- The callback offers nothing of a full ring. -/
theorem runRx_stuck (h : Wedged r) (stuck : Stuck r (receiver d)) :
    Stuck r (receiver (d.usbserialRunRxCallback usbserialCallbacks 0).1) ∧
      startedOut (d.usbserialRunRxCallback usbserialCallbacks 0).2 = [] := by
  have ring : d.client.rxBuffer = r := stuck.ring
  have full : (d.client.got 0).rxBuffer.isFull = true := by
    rw [show d.client.got 0 = d.client from rfl, ring]
    exact h.full
  rw [runRx_of_full stuck.callback full]
  exact ⟨⟨stuck.callback, ring, stuck.outstanding⟩, rfl⟩

theorem runRxIfIdle_stuck (h : Wedged r) (stuck : Stuck r (receiver d)) :
    Stuck r (receiver d.runRxIfIdle.1) ∧ startedOut d.runRxIfIdle.2 = [] := by
  rw [runRxIfIdle]
  by_cases flag : d.client.receiveDMAInProgress = true
  · rw [if_pos flag]
    exact ⟨stuck, rfl⟩
  · rw [if_neg flag]
    exact runRx_stuck h stuck

theorem setConfiguration_stuck (h : Wedged r) (stuck : Stuck r (receiver d)) (config : UInt8) :
    Stuck r (receiver (d.setConfiguration config).1) ∧
      startedOut (d.setConfiguration config).2.acts = [] := by
  simp only [setConfiguration, Driver.usbCbSetConfiguration]
  by_cases hc : config ≤ 1
  · simp only [if_pos hc, Driver.usbserialInit]
    have same := runTx_receiver { d with epOut := ⟨true, []⟩, epIn := ⟨true, []⟩ } 0
    have acts := Driver.runTx_rxPart usbserialCallbacks
      { d with epOut := ⟨true, []⟩, epIn := ⟨true, []⟩ } 0
    generalize Driver.usbserialRunTxCallback usbserialCallbacks
      { d with epOut := ⟨true, []⟩, epIn := ⟨true, []⟩ } 0 = tx at same acts
    have reset : Stuck r (receiver tx.1) := by
      rw [same]
      exact ⟨stuck.callback, stuck.ring, rfl⟩
    obtain ⟨after, none⟩ := runRx_stuck h reset
    refine ⟨after, ?_⟩
    rw [← startedOut_rxPart, rxPart_append, acts, List.nil_append, startedOut_rxPart, none]
  · simp only [if_neg hc]
    exact ⟨stuck, rfl⟩

/-- The step lemma. Nothing is outstanding, so nothing is received. -/
theorem stuck_step (h : Wedged r) (stuck : Stuck r (receiver d)) {event : SerialEvent}
    {out : SerialOutput} (whole : readsWhole event = true)
    (taken : serialMachine.step d event = some (d', out)) :
    Stuck r (receiver d') ∧ startedOut out.acts = [] ∧ event.received = [] ∧
      (event.readsBytes = false → event.handed out.result d.client.available = Wedged.stale r) := by
  have none : d.epOut.outstanding = [] := stuck.outstanding
  cases event with
  | write data len =>
      obtain ⟨rfl, rfl⟩ := Prod.mk.inj (Option.some.inj taken)
      refine ⟨(runTxIfIdle_receiver _).symm ▸ stuck, ?_, rfl, fun reads => Bool.noConfusion reads⟩
      rw [← startedOut_rxPart]
      exact congrArg startedOut (runTxIfIdle_rxPart _)
  | writeChar b =>
      obtain ⟨rfl, rfl⟩ := Prod.mk.inj (Option.some.inj taken)
      refine ⟨(runTxIfIdle_receiver _).symm ▸ stuck, ?_, rfl, fun reads => Bool.noConfusion reads⟩
      rw [← startedOut_rxPart]
      exact congrArg startedOut (runTxIfIdle_rxPart _)
  | read buffer maxLen =>
      obtain ⟨rfl, rfl⟩ := Prod.mk.inj (Option.some.inj taken)
      have ring : d.client.rxBuffer = r := stuck.ring
      obtain ⟨same, count, stale⟩ := h.read buffer (of_decide_eq_true whole)
      rw [← count, ← ring] at stale
      rw [← ring] at same
      obtain ⟨after, offers⟩ := runRxIfIdle_stuck (d := { d with client := { d.client with
        rxBuffer := (d.client.rxBuffer.read buffer maxLen.toNat).1
        rxCopies := d.client.rxCopies ++
          (d.client.rxBuffer.read buffer maxLen.toNat).2.2.2 } }) h
        ⟨stuck.callback, same.trans ring, none⟩
      refine ⟨after, offers, rfl, fun _ => ?_⟩
      rw [← ring]
      exact stale
  | readChar => cases whole
  | dma i byte =>
      simp only [serialMachine, none] at taken
      cases taken
  | completion received inPending =>
      simp only [serialMachine] at taken
      split at taken
      · rename_i possible
        obtain ⟨rfl, rfl⟩ := Prod.mk.inj (Option.some.inj taken)
        cases received with
        | some bytes => simp [accepts, none] at possible
        | none =>
            have same : receiver (d.completion Option.none inPending).1 = receiver d :=
              completeIn_receiver d inPending
            refine ⟨same ▸ stuck, ?_, rfl, fun reads => Bool.noConfusion reads⟩
            rw [← startedOut_rxPart]
            exact congrArg startedOut (Driver.completeIn_rxPart inPending)
      · cases taken
  | setConfiguration config =>
      obtain ⟨rfl, rfl⟩ := Prod.mk.inj (Option.some.inj taken)
      obtain ⟨after, offers⟩ := setConfiguration_stuck h stuck config
      exact ⟨after, offers, rfl, fun reads => Bool.noConfusion reads⟩

end System

namespace SerialTest
variable {U : UsbConstants} {number : List UInt8}
variable {s s' s₀ : SerialTest} {t : List DeviceStep} {u : List SerialStep}

/-- `main` is in its loop, and what it has read are those bytes. -/
inductive Looping (r : RingBuffer usbSerialBufferLength bufferUsbRxAlign) :
    MainAt → (Nat → UInt8) → Prop
  | read {tmpBuffer : Nat → UInt8} : Looping r .read tmpBuffer
  | write {tmpBuffer : Nat → UInt8} {length : UInt8} :
      slice tmpBuffer 0 length.toNat = Wedged.stale r → Looping r (.write length) tmpBuffer

/-- The ring is as it was, nothing has been received, and every read has given, and every
write was of, the same bytes. -/
structure NeverDrains (r : RingBuffer usbSerialBufferLength bufferUsbRxAlign)
    (u : List SerialStep) (s : SerialTest) : Prop where
  stuck : Stuck r (System.receiver s.serial)
  offered : startedOut (acted u) = []
  received : receivedBytes u = []
  read : ∀ x ∈ u, x.event.readsBytes = false →
    x.event.handed x.out.result x.pre.client.available = Wedged.stale r
  written : ∀ x ∈ u, x.event.asked = [] ∨ x.event.asked = Wedged.stale r

/-- One more call or interrupt. -/
theorem NeverDrains.snoc (wedged : Wedged r) (h : NeverDrains r u s) {event : SerialEvent}
    {out : SerialOutput} (whole : readsWhole event = true)
    (taken : serialMachine.step s.serial event = some (d', out)) (serial : s'.serial = d')
    (asked : event.asked = [] ∨ event.asked = Wedged.stale r) :
    NeverDrains r (u ++ [⟨s.serial, event, out, d'⟩]) s' := by
  obtain ⟨stuck, offers, received, reads⟩ := System.stuck_step wedged h.stuck whole taken
  refine ⟨serial ▸ stuck, ?_, ?_, ?_, ?_⟩
  · rw [acted_snoc, startedOut_append, h.offered, offers]
    rfl
  · rw [receivedBytes_snoc, h.received, received]
    rfl
  · rw [List.forall_mem_append, List.forall_mem_singleton]
    exact ⟨h.read, reads⟩
  · rw [List.forall_mem_append, List.forall_mem_singleton]
    exact ⟨h.written, asked⟩

theorem Looping.writes {here main : MainAt} {buffer : Nat → UInt8} {event : SerialEvent}
    (h : Looping r here buffer) (writes : Writes number buffer here event main) :
    event.asked = Wedged.stale r ∧ main = .read ∧ readsWhole event = true := by
  cases h with
  | read => cases writes
  | write same =>
      cases writes
      exact ⟨same, rfl, rfl⟩

theorem read_loops (wedged : Wedged r) (stuck : Stuck r (System.receiver d))
    {buffer data : Nat → UInt8} {length : Nat} {out : SerialOutput}
    (taken : serialMachine.step d (.read buffer 64) = some (d', out))
    (result : out.result = .filled data length) :
    Looping r (.write (UInt8.ofNat length)) data := by
  obtain rfl : (d.read buffer 64).2 = out := congrArg Prod.snd (Option.some.inj taken)
  obtain ⟨rfl, rfl⟩ := SerialResult.filled.inj result
  have ring : d.client.rxBuffer = r := stuck.ring
  obtain ⟨-, count, stale⟩ := wedged.read buffer (show 63 ≤ (64 : UInt8).toNat by decide)
  rw [ring, count]
  exact .write stale

theorem interrupt_whole {event : SerialEvent} (h : event.interrupts = true) :
    readsWhole event = true ∧ event.asked = [] := by
  cases event with
  | dma _ _ | completion _ _ | setConfiguration _ => exact ⟨rfl, rfl⟩
  | _ => cases h

theorem NeverDrains.step {event : DeviceEvent} {out : DeviceOutput} (wedged : Wedged r)
    (h : NeverDrains r (serialSteps t) s) (looping : Looping r s.main s.tmpBuffer)
    (taken : (serialTestMachine U number).step s event = some (s', out)) :
    NeverDrains r (serialSteps (t ++ [⟨s, event, out, s'⟩])) s' ∧
      Looping r s'.main s'.tmpBuffer := by
  cases (serialTest_step taken).2 with
  | waits here _ | opens here _ =>
      rw [here] at looping
      cases looping
  | writes writes step =>
      obtain ⟨same, rfl, whole⟩ := looping.writes writes
      rw [serialSteps_serial]
      exact ⟨h.snoc wedged whole step rfl (Or.inr same), .read⟩
  | reads _ step result =>
      rw [serialSteps_serial]
      exact ⟨h.snoc wedged rfl step rfl (Or.inl rfl), read_loops wedged h.stuck step result⟩
  | control _ =>
      rw [serialSteps_still _ rfl]
      exact ⟨⟨h.stuck, h.offered, h.received, h.read, h.written⟩, looping⟩
  | serial interrupts step =>
      obtain ⟨whole, nothing⟩ := interrupt_whole interrupts
      rw [serialSteps_serial]
      exact ⟨h.snoc wedged whole step rfl (Or.inl nothing), looping⟩

theorem neverDrains_run (wedged : Wedged r) (stuck : Stuck r (System.receiver s₀.serial))
    (looping : Looping r s₀.main s₀.tmpBuffer)
    (h : (serialTestMachine U number).Runs s₀ t s) :
    NeverDrains r (serialSteps t) s ∧ Looping r s.main s.tmpBuffer := by
  induction h with
  | nil =>
      exact ⟨⟨stuck, rfl, rfl, List.forall_mem_nil _, List.forall_mem_nil _⟩, looping⟩
  | snoc _ taken ih => exact ih.1.step wedged ih.2 taken

/-- From a full ring with its tail inside the array and nothing outstanding on, whatever
the host and the USB layer do. -/
theorem full_ring_never_drained (h : (serialTestMachine U number).Runs s₀ t s)
    (reading : s₀.main = .read) (wedged : Wedged s₀.serial.client.rxBuffer)
    (stuck : Stuck s₀.serial.client.rxBuffer (System.receiver s₀.serial)) :
    NeverDrains s₀.serial.client.rxBuffer (serialSteps t) s := by
  refine (neverDrains_run wedged stuck ?_ h).1
  rw [reading]
  exact .read

/-- The host sends twelve bytes, and fills the ring behind them after they are read. -/
theorem full_ring_never_drained_session :
    let machine := serialTestMachine Control.standard [0x41]
    let past := machine.exec (started System.zeroed fun _ => 0)
      [.serial (.setConfiguration 1), .control (.setup ⟨0x21, 0x22, 1, 0, 0⟩), .main, .main, .main,
        .main, .main, .serial (.completion (some (List.replicate 12 1)) false), .main, .main,
        .serial (.completion (some (List.replicate 51 2)) false),
        .serial (.completion (some [3]) false),
        .serial (.completion (some (List.replicate 11 4)) false)]
    ∃ full : past.isSome,
      let run := machine.exec (past.get full).2
        [.main, .main, .serial (.completion none true), .main, .serial (.setConfiguration 1), .main]
      ∃ ran : run.isSome, NeverDrains (past.get full).2.serial.client.rxBuffer
        (serialSteps (run.get ran).1) (run.get ran).2 :=
  ⟨by decide +kernel, by decide +kernel, full_ring_never_drained
    (Machine.runs_exec (by decide +kernel)) (by decide +kernel)
    ⟨by decide +kernel, by decide +kernel, by decide +kernel, by decide +kernel⟩
    ⟨by decide +kernel, rfl, List.isEmpty_iff.mp (by decide +kernel)⟩⟩

end SerialTest
end SamdCore
