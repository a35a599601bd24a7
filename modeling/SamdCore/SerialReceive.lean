import SamdCore.SerialConfinement

/-!
What is read of the bytes the host sent.

The bytes in the ring are those received and not read yet, and the transfer
outstanding has room behind them, so that neither its bytes nor the reading can
touch them. Nothing is outstanding only before the first request for a
configuration and while the ring is full.
-/
namespace SamdCore
open CircularSegment MachineRuns

/-- The bytes of a transfer that completes. -/
def SerialEvent.received : SerialEvent → List UInt8
  | .completion (some bytes) _ => bytes
  | _ => []

/-- The byte that a call returns, if one was available. -/
def SerialEvent.returned (event : SerialEvent) (result : SerialResult) (available : Bool) :
    List UInt8 :=
  match event, result with
  | .readChar, .char c => if available then [c] else []
  | _, _ => []

def receivedBytes (t : List SerialStep) : List UInt8 := t.flatMap fun x => x.event.received

def returnedBytes (t : List SerialStep) : List UInt8 :=
  t.flatMap fun x => x.event.returned x.out.result x.pre.client.available

/-- A call other than the block read. -/
def SerialEvent.readsBytes : SerialEvent → Bool
  | .read _ _ => false
  | _ => true

/-- Every call with a byte available returns one; what was returned is what was received, up
to the bytes that the ring holds; once the device is configured it is ready to receive
whenever there is space. -/
structure ReceptionIntact (t : List SerialStep) (d : System) : Prop where
  answered : ∀ x ∈ t, x.event = .readChar → x.pre.client.available = true →
    ∃ c, x.event.returned x.out.result true = [c]
  inOrder : returnedBytes t <+: receivedBytes t
  unread : d.client.rxBuffer.Holds ((receivedBytes t).drop (returnedBytes t).length)
  usedSpace : (returnedBytes t).length + d.client.rxBuffer.usedSpace = (receivedBytes t).length
  ready : (∃ x ∈ t, x.event.configures = true) →
    d.epOut.outstanding ≠ [] ∨ d.client.rxBuffer.isFull = true

theorem receivedBytes_snoc (t : List SerialStep) (x : SerialStep) :
    receivedBytes (t ++ [x]) = receivedBytes t ++ x.event.received := by
  simp [receivedBytes]

theorem returnedBytes_snoc (t : List SerialStep) (x : SerialStep) :
    returnedBytes (t ++ [x]) =
      returnedBytes t ++ x.event.returned x.out.result x.pre.client.available := by
  simp [returnedBytes]

/-- The transfers outstanding, what the ring holds, and whether reception has begun. -/
structure Receiving (outstanding : List Offer) (q : List UInt8) (begun : Prop) : Prop where
  room : ∀ x ∈ outstanding, q.length + x.length < usbSerialBufferLength
  ready : begun → outstanding ≠ [] ∨ q.length = usbSerialBufferLength - 1

theorem Reoffered.receiving {q : List UInt8} {started : List Offer} (h : Reoffered q started)
    (begun : Prop) : Receiving started q begun := by
  cases h with
  | full full => exact ⟨nofun, fun _ => Or.inr full⟩
  | offer _ room =>
      exact ⟨List.forall_mem_singleton.mpr room, fun _ => Or.inl (List.cons_ne_nil _ _)⟩

theorem SerialEvent.received_quiet {event : SerialEvent} (h : event.reachesRx = false) :
    event.received = [] := by
  unfold received
  split
  · cases h
  · rfl

theorem SerialEvent.returned_quiet {event : SerialEvent} {result : SerialResult}
    {available : Bool} (h : event.reachesRx = false) : event.returned result available = [] := by
  unfold returned
  split
  · cases h
  · rfl

theorem SerialEvent.configures_quiet {event : SerialEvent} (h : event.reachesRx = false) :
    event.configures = false := by
  unfold reachesRx at h
  split at h
  · cases h
  · cases h
  · cases h
  · cases h
  · exact h

theorem Unqueued.returned {q q' : List UInt8} {c : UInt8} (h : Unqueued q c q') :
    q = (if (!q.isEmpty) = true then [c] else []) ++ q' := by
  cases h with
  | taken c q => rfl
  | empty => rfl

/-- The step lemma of byte reads: the ring loses what is returned, gains what is received,
and is offered again whenever a transfer has completed. -/
theorem RecvStep.receiving {s : Receiver} {q q' : List UInt8} {event : SerialEvent}
    {result : SerialResult} {started after : List Offer} {begun : Prop}
    (before : Receiving s.ep.outstanding q begun) (bytes : event.readsBytes = true)
    (step : RecvStep s q event result started after q') :
    Receiving after q' (begun ∨ event.configures = true) ∧
      q ++ event.received = event.returned result (!q.isEmpty) ++ q' := by
  cases step with
  | quiet elsewhere =>
      rw [SerialEvent.received_quiet elsewhere, SerialEvent.returned_quiet elsewhere,
        SerialEvent.configures_quiet elsewhere]
      refine ⟨⟨before.room, fun begun => before.ready ?_⟩, List.append_nil q⟩
      exact begun.resolve_right Bool.false_ne_true
  | block _ => cases bytes
  | @scribbled x i byte _ flying same =>
      rw [flying.outstanding] at before ⊢
      obtain rfl := same (before.room x (List.mem_singleton_self x))
      exact ⟨⟨before.room, fun _ => Or.inl (List.cons_ne_nil _ _)⟩, List.append_nil _⟩
  | @busy x c _ flying unqueued =>
      rw [flying.outstanding] at before ⊢
      have split := unqueued.returned
      have shorter := congrArg List.length split
      rw [List.length_append] at shorter
      have room := before.room x (List.mem_singleton_self x)
      refine ⟨⟨?_, fun _ => Or.inl (List.cons_ne_nil _ _)⟩, (List.append_nil q).trans split⟩
      rw [List.forall_mem_singleton]
      omega
  | resumed idle unqueued offered =>
      exact ⟨offered.receiving _, (List.append_nil q).trans unqueued.returned⟩
  | @completed x bytes _ _ _ flying _ put offered =>
      have outstanding : x ∈ s.ep.outstanding := flying.outstanding ▸ List.mem_singleton_self x
      obtain rfl := put (before.room x outstanding)
      exact ⟨offered.receiving _, rfl⟩
  | configured _ offered => exact ⟨offered.receiving _, List.append_nil q⟩

namespace System
variable {m : Storage} {d d' : System} {t : List SerialStep}

/-- The run lemma: after byte reads the ring holds what was received and not returned. -/
theorem receiving_run (h : serialMachine.Runs (constructed m) t d)
    (bytes : ∀ x ∈ t, x.event.readsBytes = true) :
    ∃ q, (receiver d).Incoming q ∧
      Receiving d.epOut.outstanding q (∃ x ∈ t, x.event.configures = true) ∧
      receivedBytes t = returnedBytes t ++ q := by
  induction h with
  | nil => exact ⟨[], incoming_constructed m, ⟨nofun, fun ⟨x, hx, _⟩ => nomatch hx⟩, rfl⟩
  | @snoc t s s' event out _ taken ih =>
      rw [List.forall_mem_append, List.forall_mem_singleton] at bytes
      obtain ⟨q, incoming, before, accounted⟩ := ih bytes.1
      obtain ⟨q', incoming', step, -⟩ := recv_step incoming taken
      obtain ⟨after, moved⟩ := step.receiving before bytes.2
      have available : s.client.available = !q.isEmpty := by
        have held : s.client.rxBuffer.Holds q := incoming.holds
        have empty : s.client.rxBuffer.isEmpty = q.isEmpty :=
          Bool.eq_iff_iff.mpr (held.isEmpty_iff.trans List.isEmpty_iff.symm)
        rw [USBserial.available, empty]
      refine ⟨q', incoming', ⟨after.room, fun begun => after.ready ?_⟩, ?_⟩
      · simpa using begun
      · rw [receivedBytes_snoc, returnedBytes_snoc, accounted, List.append_assoc,
          List.append_assoc, available]
        exact congrArg (returnedBytes t ++ ·) moved

/-- Byte reads, transfers of any length and requests for a configuration, in any order. -/
theorem reception_intact (m : Storage) (h : serialMachine.Runs (constructed m) t d)
    (bytes : ∀ x ∈ t, x.event.readsBytes = true) : ReceptionIntact t d := by
  obtain ⟨q, incoming, receiving, accounted⟩ := receiving_run h bytes
  have held : d.client.rxBuffer.Holds q := incoming.holds
  refine ⟨fun x hx event _ => ?_, ?_, ?_, ?_, fun begun => ?_⟩
  · obtain ⟨_, _, rfl, -, taken⟩ := h.of_mem hx
    rw [event] at taken ⊢
    obtain ⟨-, same⟩ := Prod.mk.inj (Option.some.inj taken)
    rw [← same]
    exact ⟨_, rfl⟩
  · rw [accounted]
    exact List.prefix_append _ q
  · rwa [accounted, List.drop_left]
  · rw [accounted, held.usedSpace_eq (by decide), List.length_append]
  · rw [held.isFull_iff (by decide)]
    exact receiving.ready begun

theorem reception_intact_session :
    let run := serialMachine.exec (constructed zeroed)
      [.setConfiguration 1, .completion (some [1, 2, 3]) false, .dma 1 9,
        .completion (some [4, 5]) false, .readChar, .setConfiguration 1, .readChar,
        .completion (some []) false, .readChar]
    ∃ ran : run.isSome, ReceptionIntact (run.get ran).1 (run.get ran).2 :=
  ⟨by decide, reception_intact zeroed (Machine.runs_exec (by decide)) (by decide +kernel)⟩

end System
end SamdCore
