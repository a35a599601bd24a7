import SamdCore.SerialReceiver
import SamdCore.SerialSender

/-!
Where the serial port lets the USB layer and `memcpy` read and write.

Both halves keep their invariant through every call and interrupt, whatever the
bytes are, and so every transfer ever started and every copy ever made is inside
the arrays it is about.
-/
namespace SamdCore
open MachineRuns

/-- Everything the driver was made to do in a run. -/
def acted (t : List SerialStep) : List SerialAction := t.flatMap (·.out.acts)

theorem acted_snoc (t : List SerialStep) (x : SerialStep) :
    acted (t ++ [x]) = acted t ++ x.out.acts := by
  simp [acted]

theorem startedIn_append {κ ρ α β : Type} (as bs : List (Action κ ρ α β)) :
    startedIn (as ++ bs) = startedIn as ++ startedIn bs := List.filterMap_append

theorem startedOut_append {κ ρ α β : Type} (as bs : List (Action κ ρ α β)) :
    startedOut (as ++ bs) = startedOut as ++ startedOut bs := List.filterMap_append

/-- The pointers are inside the rings after a run, and so is all that was started and
copied in it. -/
structure Confined (t : List SerialStep) (d : System) : Prop where
  txHead : d.client.txBuffer.headPtr < usbSerialBufferLength
  txTail : d.client.txBuffer.tailPtr < usbSerialBufferLength
  rxHead : d.client.rxBuffer.headPtr < usbSerialBufferLength
  rxTail : d.client.rxBuffer.tailPtr < usbSerialBufferLength
  txAligned : d.client.txBuffer.tailPtr % 4 = 0
  slices : ∀ x ∈ startedIn (acted t), Slice.Confined x
  offers : ∀ x ∈ startedOut (acted t), Offer.Confined x
  txCopies : ∀ c ∈ d.client.txCopies, c.Confined usbSerialBufferLength
  rxCopies : ∀ c ∈ d.client.rxCopies, c.Confined usbSerialBufferLength

theorem SendStep.confined {s : Sender} {c c' : List UInt8} {event : SerialEvent}
    {result : SerialResult} {started after : List Slice}
    (step : SendStep s c event result started after c') :
    started = [] ∨ ∃ x, Slice.Confined x ∧ started = [x] := by
  cases step with
  | quiet => exact Or.inl rfl
  | block started => exact started
  | queued => exact Or.inl rfl
  | first _ _ offered => exact offered.confined
  | completed _ _ offered => exact offered.confined
  | configured _ offered => exact offered.confined

theorem RecvStep.confined {s : Receiver} {q q' : List UInt8} {event : SerialEvent}
    {result : SerialResult} {started after : List Offer}
    (step : RecvStep s q event result started after q') :
    started = [] ∨ ∃ x, Offer.Confined x ∧ started = [x] := by
  cases step with
  | quiet => exact Or.inl rfl
  | block started => exact started
  | scribbled => exact Or.inl rfl
  | busy => exact Or.inl rfl
  | resumed _ _ offered => exact offered.confined
  | completed _ _ _ offered => exact offered.confined
  | configured _ offered => exact offered.confined

namespace System
variable {d : System} {t : List SerialStep}

/-- The run lemma of both halves. -/
theorem halves_run {m : Storage} (h : serialMachine.Runs (constructed m) t d) :
    (∃ c, (sender d).Outgoing c) ∧ (∃ q, (receiver d).Incoming q) ∧
      (∀ x ∈ startedIn (acted t), Slice.Confined x) ∧
      ∀ x ∈ startedOut (acted t), Offer.Confined x := by
  induction h with
  | nil => exact ⟨⟨[], outgoing_constructed m⟩, ⟨[], incoming_constructed m⟩, nofun, nofun⟩
  | snoc _ taken ih =>
      obtain ⟨⟨c, outgoing⟩, ⟨q, incoming⟩, slices, offers⟩ := ih
      obtain ⟨c', outgoing', sends, -⟩ := send_step outgoing taken
      obtain ⟨q', incoming', receives, -⟩ := recv_step incoming taken
      refine ⟨⟨c', outgoing'⟩, ⟨q', incoming'⟩, ?_, ?_⟩
      · rw [acted_snoc, startedIn_append, List.forall_mem_append]
        refine ⟨slices, ?_⟩
        rcases sends.confined with none | ⟨x, confined, one⟩
        · rw [none]
          exact nofun
        · rw [one, List.forall_mem_singleton]
          exact confined
      · rw [acted_snoc, startedOut_append, List.forall_mem_append]
        refine ⟨offers, ?_⟩
        rcases receives.confined with none | ⟨x, confined, one⟩
        · rw [none]
          exact nofun
        · rw [one, List.forall_mem_singleton]
          exact confined

/-- After every run of calls, transfers and requests, in any order. -/
theorem transfers_confined (m : Storage) (h : serialMachine.Runs (constructed m) t d) :
    Confined t d := by
  obtain ⟨⟨c, outgoing⟩, ⟨q, incoming⟩, slices, offers⟩ := halves_run h
  exact ⟨outgoing.holds.head_lt, outgoing.holds.tail_lt, incoming.holds.head_lt,
    incoming.holds.tail_lt, outgoing.aligned, slices, offers, outgoing.copies, incoming.copies⟩

/-- Memory that holds zeros. -/
def zeroed : Storage := ⟨fun _ => 0, fun _ => 0, fun _ => 0, fun _ => 0⟩

theorem transfers_confined_session :
    let run := serialMachine.exec (constructed zeroed)
      [.setConfiguration 1, .write (fun _ => 0x41) 6, .writeChar 0x42, .completion none true,
        .dma 2 0x43, .completion (some [1, 2, 3, 4, 5]) true, .read (fun _ => 0) 3,
        .setConfiguration 1]
    ∃ ran : run.isSome, Confined (run.get ran).1 (run.get ran).2 :=
  ⟨by decide, transfers_confined zeroed (Machine.runs_exec (by decide))⟩

end System
end SamdCore
