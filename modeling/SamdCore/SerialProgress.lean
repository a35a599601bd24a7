import SamdCore.SerialBlocks

/-!
The serial port does not get stuck.

The two flags say whether a transfer is outstanding, whatever was called: a tx
ring with bytes in it is being sent, and once the device is configured an rx ring
with room in it is being filled. Every completed slice moves the tail by a word
at least, so a tx ring that nothing is added to is empty after finitely many
completions, and by then the host has all that was stored.
-/
namespace SamdCore
open CircularSegment MachineRuns

/-- A call that stores bytes in the tx ring. -/
def SerialEvent.writes : SerialEvent → Bool
  | .write _ _ | .writeChar _ => true
  | _ => false

/-- A slice is reported sent. -/
def SerialEvent.completesIn : SerialEvent → Bool
  | .completion _ inPending => inPending
  | _ => false

/-- Nothing is written and no configuration requested. -/
def SerialEvent.calm (event : SerialEvent) : Bool := !event.writes && !event.configures

/-- The tx half has nothing to send. -/
structure TxIdle (d : System) : Prop where
  outstanding : d.epIn.outstanding = []
  flag : d.client.transmitDMAInProgress = false
  empty : d.client.txBuffer.isEmpty = true

/-- The slice outstanding is the one the driver will be told the length of. -/
structure TxBusy (d : System) (x : Slice) : Prop where
  outstanding : d.epIn.outstanding = [x]
  flag : d.client.transmitDMAInProgress = true
  oldest : x.buffer = d.client.txBuffer.tailPtr
  length : d.currentTxLength = x.length
  pos : 1 ≤ x.length

structure RxIdle (d : System) : Prop where
  outstanding : d.epOut.outstanding = []
  flag : d.client.receiveDMAInProgress = false

/-- The transfer outstanding goes to the head of the ring, or to the bounce buffer. -/
structure RxBusy (d : System) (x : Offer) : Prop where
  outstanding : d.epOut.outstanding = [x]
  flag : d.client.receiveDMAInProgress = true
  place : x.buffer =
    if d.client.rxBuffer.bounced then .rxBuffer else .buffer d.client.rxBuffer.headPtr
  pos : 1 ≤ x.length

/-- Both flags tell the truth, and nothing is idle that has something to do. -/
structure NeverStalls (t : List SerialStep) (d : System) : Prop where
  tx : TxIdle d ∨ ∃ x, TxBusy d x
  rx : RxIdle d ∨ ∃ x, RxBusy d x
  filling : (∃ x ∈ t, x.event.configures = true) → d.client.rxBuffer.isFull = false →
    ∃ x, RxBusy d x

/-- What is left to be sent is sent by so many completions, of which there are no more. -/
structure Drains (d : System) (k : Nat) : Prop where
  bounded : ∀ t' d', serialMachine.Runs d t' d' → (∀ x ∈ t', x.event.calm = true) →
    t'.countP (fun x => x.event.completesIn) ≤ k
  reaches : ∃ t' d', serialMachine.Runs d t' d' ∧
    (∀ x ∈ t', x.event = .completion none true) ∧ t'.length ≤ k ∧ TxIdle d'

theorem Offered.words {tail : Nat} {c c' : List UInt8} {started : List Slice}
    (h : Offered tail c started c') : alignUp4 c'.length = alignUp4 c.length ∧
      ∀ x ∈ started, alignUp4 x.length ≤ c'.length := by
  cases h with
  | nothing none =>
      rw [none]
      exact ⟨rfl, List.forall_mem_nil _⟩
  | @slice x pad confined _ le _ padded last _ =>
      rw [List.forall_mem_singleton, List.length_append]
      by_cases none : pad = []
      · rw [none, List.length_nil, Nat.add_zero] at padded ⊢
        exact ⟨rfl, by omega⟩
      · rw [last none] at padded ⊢
        rw [padded]
        refine ⟨alignUp4_of_word ?_, Nat.le_refl _⟩
        rw [alignUp4]
        omega

namespace System
open Sender Receiver
variable {m : Storage} {d d' : System} {t : List SerialStep} {c q : List UInt8}

theorem txState (h : Outgoing (sender d) c) : TxIdle d ∨ ∃ x, TxBusy d x := by
  cases h.flight with
  | inl idle =>
      have held : d.client.txBuffer.Holds c := h.holds
      exact Or.inl ⟨idle.1.outstanding, idle.1.inProgress, held.isEmpty_iff.mpr idle.2⟩
  | inr busy =>
      obtain ⟨x, flying⟩ := busy
      exact Or.inr ⟨x, flying.outstanding, flying.inProgress, flying.buffer, flying.length,
        flying.confined.pos⟩

theorem rxState (h : Incoming (receiver d) q) : RxIdle d ∨ ∃ x, RxBusy d x := by
  cases h.flight with
  | inl idle => exact Or.inl ⟨idle.outstanding, idle.inProgress⟩
  | inr busy =>
      obtain ⟨x, flying⟩ := busy
      exact Or.inr ⟨x, flying.outstanding, flying.inProgress, flying.pointer, flying.pos⟩

/-- Reception has begun only if a transfer is outstanding or the ring is full. -/
def Filling (outstanding : List Offer) (q : List UInt8) (begun : Prop) : Prop :=
  begun → outstanding ≠ [] ∨ q.length = usbSerialBufferLength - 1

theorem filling_of_flying {x : Offer} (begun : Prop) (h : InFlight (receiver d) x) :
    Filling d.epOut.outstanding q begun := by
  have one : d.epOut.outstanding = [x] := h.outstanding
  exact fun _ => Or.inl (one ▸ List.cons_ne_nil x [])

/-- A block read that finds nothing outstanding starts a transfer, whatever it took. -/
theorem read_fills {begun : Prop} (buffer : Nat → UInt8) (maxLen : UInt8)
    (h : Incoming (receiver d) q) :
    ∃ q', Incoming (receiver (d.read buffer maxLen).1) q' ∧
      Filling (d.read buffer maxLen).1.epOut.outstanding q' begun := by
  have held : d.client.rxBuffer.Holds q := h.holds
  obtain ⟨tail, head, copied⟩ := RingBuffer.read_confined held (by decide) buffer maxLen.toNat
  obtain ⟨q', hq'⟩ := RingBuffer.exists_holds (head ▸ held.head_lt) tail
  have ready : Receiver.Ready { receiver d with
      buffer := (d.client.rxBuffer.read buffer maxLen.toNat).1
      copies := d.client.rxCopies ++ (d.client.rxBuffer.read buffer maxLen.toNat).2.2.2 } q' :=
    ⟨h.callback, hq', List.forall_mem_append.mpr ⟨h.copies, copied⟩⟩
  obtain ⟨incoming, started, -⟩ := read_offers _ h.flight ready head
  refine ⟨q', incoming, ?_⟩
  cases started with
  | inl busy =>
      obtain ⟨⟨x, flying⟩, -, after⟩ := busy
      have same : (d.read buffer maxLen).1.epOut.outstanding = d.epOut.outstanding := after
      rw [same]
      exact filling_of_flying begun flying
  | inr idle =>
      have now : (d.read buffer maxLen).1.epOut.outstanding =
        startedOut (d.read buffer maxLen).2.acts := idle.2.2
      rw [now]
      exact (idle.2.1.receiving begun).ready

theorem filling_step {begun : Prop} {event : SerialEvent} {out : SerialOutput}
    (h : Incoming (receiver d) q) (before : Filling d.epOut.outstanding q begun)
    (taken : serialMachine.step d event = some (d', out)) :
    ∃ q', Incoming (receiver d') q' ∧
      Filling d'.epOut.outstanding q' (begun ∨ event.configures = true) := by
  cases bytes : event.readsBytes with
  | false =>
      cases event with
      | read buffer maxLen =>
          cases taken
          exact read_fills buffer maxLen h
      | _ => cases bytes
  | true =>
      obtain ⟨q', incoming, step, -⟩ := recv_step h taken
      refine ⟨q', incoming, ?_⟩
      generalize d'.epOut.outstanding = after at step
      generalize startedOut out.acts = started at step
      generalize out.result = result at step
      cases step with
      | quiet elsewhere =>
          rw [SerialEvent.configures_quiet elsewhere]
          exact fun begun => before (begun.resolve_right Bool.false_ne_true)
      | block _ => cases bytes
      | scribbled flying _ => exact filling_of_flying _ flying
      | busy flying _ => exact filling_of_flying _ flying
      | resumed _ _ offered => exact (offered.receiving _).ready
      | completed _ _ _ offered => exact (offered.receiving _).ready
      | configured _ offered => exact (offered.receiving _).ready

theorem filling_run (h : serialMachine.Runs (constructed m) t d) :
    ∃ q, Incoming (receiver d) q ∧
      Filling d.epOut.outstanding q (∃ x ∈ t, x.event.configures = true) := by
  induction h with
  | nil =>
      refine ⟨[], incoming_constructed m, ?_⟩
      intro begun
      obtain ⟨x, impossible, _⟩ := begun
      cases impossible
  | @snoc t s s' event out _ taken ih =>
      obtain ⟨q, incoming, before⟩ := ih
      obtain ⟨q', incoming', after⟩ := filling_step incoming before taken
      refine ⟨q', incoming', fun begun => after ?_⟩
      simpa using begun

/-- After every run of calls, transfers and requests, in any order. -/
theorem never_stalls (m : Storage) (h : serialMachine.Runs (constructed m) t d) :
    NeverStalls t d := by
  obtain ⟨⟨c, outgoing⟩, -, -, -⟩ := halves_run h
  obtain ⟨q, incoming, filling⟩ := filling_run h
  have held : d.client.rxBuffer.Holds q := incoming.holds
  have rx := rxState incoming
  refine ⟨txState outgoing, rx, ?_⟩
  intro begun room
  cases rx with
  | inr busy => exact busy
  | inl idle =>
      cases filling begun with
      | inl some => exact absurd idle.outstanding some
      | inr full =>
          rw [(held.isFull_iff (by decide)).mpr full] at room
          cases room

theorem never_stalls_session :
    let run := serialMachine.exec (constructed zeroed)
      [.write (fun _ => 1) 63, .setConfiguration 1, .completion (some [1, 2, 3]) true,
        .read (fun _ => 0) 64, .write (fun _ => 2) 63, .completion none true]
    ∃ ran : run.isSome, NeverStalls (run.get ran).1 (run.get ran).2 :=
  ⟨by decide, never_stalls zeroed (Machine.runs_exec (by decide))⟩

/-- At most `k` words are left to be sent. A slice that block writes left longer than
the queue makes it one more than the ring has. -/
def WordsLeft (k : Nat) (d : System) : Prop :=
  ∃ c, Outgoing (sender d) c ∧
    (k = 17 ∨ (∀ x ∈ d.epIn.outstanding, alignUp4 x.length ≤ c.length) ∧
      alignUp4 c.length ≤ 4 * k)

theorem wordsLeft_of_outgoing (h : Outgoing (sender d) c) : WordsLeft 17 d := ⟨c, h, Or.inl rfl⟩

theorem wordsLeft_of_pending {p : List UInt8} (h : Outgoing (sender d) c)
    (pending : Pending d.epIn.outstanding c p) : WordsLeft 16 d := by
  have held : d.client.txBuffer.Holds c := h.holds
  have short : c.length < 64 := held.length_lt
  refine ⟨c, h, Or.inr ⟨?_, ?_⟩⟩
  · generalize d.epIn.outstanding = outstanding at pending
    cases pending with
    | idle => exact List.forall_mem_nil _
    | flying data padded =>
        rw [List.forall_mem_singleton]
        exact (Pending.flying data padded).drop.1
  · rw [alignUp4]
    omega

/-- Every completed slice is a word less. -/
theorem completion_counts {k : Nat} {received : Option (List UInt8)} (h : WordsLeft k d)
    {out : SerialOutput}
    (taken : serialMachine.step d (.completion received true) = some (d', out)) :
    ∃ k', k = k' + 1 ∧ WordsLeft k' d' := by
  obtain ⟨c, outgoing, left⟩ := h
  have held : d.client.txBuffer.Holds c := outgoing.holds
  obtain ⟨c', outgoing', step, -⟩ := send_step outgoing taken
  have held' : d'.client.txBuffer.Holds c' := outgoing'.holds
  have short' : c'.length < 64 := held'.length_lt
  generalize startedIn out.acts = started at step
  generalize hafter : d'.epIn.outstanding = after at step
  generalize out.result = result at step
  cases step with
  | quiet elsewhere => cases elsewhere
  | @completed x _ tail c₁ _ _ flying drop offered =>
      obtain ⟨same, kept⟩ := offered.words
      have one : d.epIn.outstanding = [x] := flying.outstanding
      cases left with
      | inl most =>
          refine ⟨16, most, c', outgoing', Or.inr ⟨hafter ▸ kept, ?_⟩⟩
          rw [alignUp4]
          omega
      | inr words =>
          obtain ⟨inside, few⟩ := words
          have fits := inside x (one ▸ List.mem_singleton_self x)
          have pos := flying.confined.pos
          have up := le_alignUp4 x.length
          have shorter : alignUp4 c'.length + alignUp4 x.length = alignUp4 c.length := by
            rw [same, drop fits, List.length_drop]
            simp only [alignUp4] at fits ⊢
            omega
          have word : 4 ≤ alignUp4 x.length := by
            rw [alignUp4]
            omega
          refine ⟨k - 1, by omega, c', outgoing', Or.inr ⟨hafter ▸ kept, by omega⟩⟩

/-- Other events leave the tx half to itself. -/
theorem calm_keeps {k : Nat} {event : SerialEvent} {out : SerialOutput} (h : WordsLeft k d)
    (calm : event.calm = true) (other : ¬ event.completesIn = true)
    (taken : serialMachine.step d event = some (d', out)) : WordsLeft k d' := by
  obtain ⟨c, outgoing, left⟩ := h
  have elsewhere : event.reachesTx = false := by
    cases event with
    | completion received inPending =>
        cases inPending with
        | true => exact absurd rfl other
        | false => rfl
    | setConfiguration config =>
        have refused : (SerialEvent.setConfiguration config).configures = false := by
          simpa [SerialEvent.calm, SerialEvent.writes] using calm
        exact refused
    | write data len => cases calm
    | writeChar b => cases calm
    | _ => rfl
  obtain ⟨c', outgoing', step, -⟩ := send_step outgoing taken
  generalize startedIn out.acts = started at step
  generalize hafter : d'.epIn.outstanding = after at step
  generalize out.result = result at step
  cases step with
  | quiet _ =>
      refine ⟨c, outgoing', ?_⟩
      rw [hafter]
      exact left
  | block _ => cases elsewhere
  | queued _ _ => cases elsewhere
  | first _ _ _ => cases elsewhere
  | completed _ _ _ => cases elsewhere
  | configured on _ =>
      rw [SerialEvent.calm, SerialEvent.configures, decide_eq_true on] at calm
      cases calm

theorem calm_step {k : Nat} {event : SerialEvent} {out : SerialOutput} (h : WordsLeft k d)
    (calm : event.calm = true) (taken : serialMachine.step d event = some (d', out)) :
    if event.completesIn = true then ∃ k', k = k' + 1 ∧ WordsLeft k' d' else WordsLeft k d' := by
  by_cases counted : event.completesIn = true
  · rw [if_pos counted]
    cases event with
    | completion received inPending =>
        cases counted
        exact completion_counts h taken
    | _ => cases counted
  · rw [if_neg counted]
    exact calm_keeps h calm counted taken

theorem WordsLeft.state {k : Nat} (h : WordsLeft k d) : TxIdle d ∨ ∃ x, TxBusy d x := by
  obtain ⟨c, outgoing, -⟩ := h
  exact txState outgoing

theorem completion_possible {x : Slice} (busy : TxBusy d x) :
    serialMachine.step d (.completion none true) = some (d.completion none true) := by
  have pending : d.epIn.busy = true := by
    rw [Endpoint.busy, busy.outstanding]
    rfl
  have reported : d.reportable none true = true := by
    rw [Driver.reportable, pending]
    rfl
  simp only [serialMachine, accepts, Option.map_none, reported, Bool.and_self, if_true]

/-- Completions are possible until nothing is left. -/
theorem WordsLeft.drained {k : Nat} (h : WordsLeft k d) :
    ∃ t' d', serialMachine.Runs d t' d' ∧ (∀ x ∈ t', x.event = .completion none true) ∧
      t'.length ≤ k ∧ TxIdle d' := by
  induction k generalizing d with
  | zero =>
      cases h.state with
      | inl idle => exact ⟨[], d, .nil, List.forall_mem_nil _, Nat.le_refl 0, idle⟩
      | inr busy =>
          obtain ⟨x, flying⟩ := busy
          obtain ⟨k', less, -⟩ := completion_counts h (completion_possible flying)
          cases less
  | succ k ih =>
      cases h.state with
      | inl idle => exact ⟨[], d, .nil, List.forall_mem_nil _, Nat.zero_le _, idle⟩
      | inr busy =>
          obtain ⟨x, flying⟩ := busy
          have possible := completion_possible flying
          obtain ⟨k', less, left⟩ := completion_counts h possible
          cases less
          obtain ⟨t', d', runs, completions, short, idle⟩ := ih left
          refine ⟨[_] ++ t', d', (Machine.Runs.single possible).append runs, ?_, ?_, idle⟩
          · rw [List.forall_mem_append, List.forall_mem_singleton]
            exact ⟨rfl, completions⟩
          · rw [List.length_append, List.length_singleton]
            omega

theorem WordsLeft.drains {k : Nat} (h : WordsLeft k d) : Drains d k := by
  refine ⟨?_, h.drained⟩
  intro t' d' runs calm
  obtain ⟨k', count, -⟩ := runs.countdown (P := WordsLeft) h
    (fun _ _ _ _ _ left quiet taken => calm_step left quiet taken) calm
  omega

/-- Whatever was called before, seventeen completions empty the tx ring. -/
theorem transmission_drains (m : Storage) (h : serialMachine.Runs (constructed m) t d) :
    Drains d 17 := by
  obtain ⟨⟨c, outgoing⟩, -, -, -⟩ := halves_run h
  exact (wordsLeft_of_outgoing outgoing).drains

/-- A block that fills the ring while a slice is outstanding, and then a calm end. -/
theorem transmission_drains_session :
    let run := serialMachine.exec (constructed zeroed)
      [.setConfiguration 1, .write (fun _ => 1) 40, .write (fun _ => 2) 40, .completion none true]
    ∃ ran : run.isSome, Drains (run.get ran).2 17 :=
  ⟨by decide, transmission_drains zeroed (Machine.runs_exec (by decide))⟩

/-- With every block ending before the last cell, sixteen completions are enough for the
host to have all that was stored. -/
theorem everything_sent (m : Storage) (h : serialMachine.Runs (constructed m) t d)
    (straight : ∀ x ∈ t, writesStraight x.pre x.event = true)
    (words : ∀ x ∈ t, abandonsWords x.pre x.event = true) :
    ∃ t' d', serialMachine.Runs d t' d' ∧ (∀ x ∈ t', x.event = .completion none true) ∧
      t'.length ≤ 16 ∧ TxIdle d' ∧ reported (t ++ t') = storedBytes t := by
  obtain ⟨c, p, before⟩ := transmitting_run h straight words
  obtain ⟨t', d', runs, completions, short, idle⟩ :=
    (wordsLeft_of_pending before.outgoing before.pending).drained
  refine ⟨t', d', runs, completions, short, idle, ?_⟩
  have neither (x : SerialStep) (hx : x ∈ t') : writesStraight x.pre x.event = true ∧
      abandonsWords x.pre x.event = true ∧ x.event.stored x.out.result = [] := by
    rw [completions x hx]
    exact ⟨rfl, rfl, rfl⟩
  obtain ⟨c', p', after⟩ := transmitting_run (h.append runs)
    (List.forall_mem_append.mpr ⟨straight, fun x hx => (neither x hx).1⟩)
    (List.forall_mem_append.mpr ⟨words, fun x hx => (neither x hx).2.1⟩)
  have nothing : storedBytes t' = [] :=
    List.flatMap_eq_nil_iff.mpr fun x hx => (neither x hx).2.2
  have pending := after.pending
  rw [idle.outstanding] at pending
  have accounted := after.accounted
  rw [pending.idle_eq.2, List.append_nil, storedBytes, List.flatMap_append] at accounted
  rw [← accounted]
  exact (congrArg (storedBytes t ++ ·) nothing).trans (List.append_nil _)

theorem everything_sent_session :
    let run := serialMachine.exec (constructed zeroed)
      [.setConfiguration 1, .write (fun i => UInt8.ofNat i) 30, .writeChar 5,
        .completion none true]
    ∃ ran : run.isSome, ∃ t' d', serialMachine.Runs (run.get ran).2 t' d' ∧
      (∀ x ∈ t', x.event = .completion none true) ∧ t'.length ≤ 16 ∧ TxIdle d' ∧
      reported ((run.get ran).1 ++ t') = storedBytes (run.get ran).1 :=
  ⟨by decide, everything_sent zeroed (Machine.runs_exec (by decide)) (by decide +kernel)
    (by decide +kernel)⟩

end System
end SamdCore
