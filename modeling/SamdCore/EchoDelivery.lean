import SamdCore.EchoModel

/-!
What the host gets back from the echo build.

Received packets go through the buffers in turn, so a transmission is never
written over, and what the host has collected, what is being transmitted and what
waits to be handled make up what it sent. Only a packet handled while the one
before it is still being transmitted breaks this: its start takes the place of
the transmission, and the bytes of that are gone.
-/
namespace SamdCore
open CircularSegment MachineRuns

theorem InPacket.fetch_same (x : InPacket) (i : Nat) (byte : UInt8) :
    (x.fetch i byte).fetched i = some byte := Function.update_self _ _ _

theorem InPacket.fetch_other (x : InPacket) {i j : Nat} (h : j ≠ i) (byte : UInt8) :
    (x.fetch i byte).fetched j = x.fetched j := Function.update_of_ne h _ _

namespace Echo
variable {s s' : Echo} {event : EchoEvent} {out : List EchoAction}

/-- The active buffer is offered, and nothing waits to be handled. -/
theorem sound_of_offered (current : s.usbserialCurrentRxBuffer = some s.usbserialActiveTxBuf)
    (offered : s.epOut = some ⟨s.usbserialActiveTxBuf, 64⟩) (handled : s.outPending = none)
    (apart : ∀ x, s.epIn = some x → s.Transmits x) : s.Sound := by
  refine ⟨current, ?_, ?_, apart⟩
  · intro x same
    rw [offered] at same
    cases same
    exact ⟨rfl, rfl, handled⟩
  · intro n pending
    rw [handled] at pending
    cases pending

theorem configured_sound (memory : Fin 4 → Nat → UInt8) : (configured memory).Sound := by
  apply sound_of_offered rfl rfl rfl
  intro x sending
  cases sending

theorem write_other {buffer other : Fin 4} (h : other ≠ buffer) (i : Nat) (data : List UInt8) :
    (s.write buffer i data).usbserialBuf other = s.usbserialBuf other :=
  Function.update_of_ne h _ _

theorem write_same (buffer : Fin 4) (i : Nat) (data : List UInt8) :
    (s.write buffer i data).usbserialBuf buffer = blit (s.usbserialBuf buffer) i data :=
  Function.update_self _ _ _

theorem next_ne (b : Fin 4) : b ≠ b + 1 := by
  revert b
  decide

/-- Writing the active buffer is not seen by a transmission. -/
theorem Transmits.write {x : InPacket} (h : s.Transmits x) (i : Nat) (data : List UInt8) :
    (s.write s.usbserialActiveTxBuf i data).Transmits x := by
  obtain ⟨buffer, pointer, other, fetched⟩ := h
  refine ⟨buffer, pointer, other, ?_⟩
  rw [write_other other]
  exact fetched

theorem Transmits.fetch {x : InPacket} (h : s.Transmits x) {b : Fin 4}
    (pointer : x.buffer = some b) (i : Nat) :
    s.Transmits (x.fetch i (s.usbserialBuf b i)) := by
  obtain ⟨buffer, same, other, fetched⟩ := h
  refine ⟨buffer, same, other, ?_⟩
  intro j byte read
  by_cases now : j = i
  · rw [now, InPacket.fetch_same] at read
    cases read
    rw [now, Option.some.inj (pointer.symm.trans same)]
  · rw [InPacket.fetch_other x now] at read
    exact fetched j byte read

theorem Moves.sound (h : s.Sound) (moves : Moves s event out s') : s'.Sound := by
  cases moves with
  | outWrite offered _ =>
      rw [(h.offered _ offered).1]
      exact ⟨h.current, h.offered, h.received, fun x sending => (h.apart x sending).write _ _⟩
  | outDone offered fits =>
      obtain ⟨active, size, _⟩ := h.offered _ offered
      rw [active]
      refine ⟨h.current, ?_, ?_, fun x sending => (h.apart x sending).write _ _⟩
      · intro x gone
        cases gone
      · intro n pending
        cases pending
        rwa [size] at fits
  | inFetch sending pointer _ =>
      refine ⟨h.current, h.offered, h.received, ?_⟩
      intro x same
      cases same
      exact (h.apart _ sending).fetch pointer _
  | inDone _ _ =>
      refine ⟨h.current, h.offered, h.received, ?_⟩
      intro x gone
      cases gone
  | quiet _ =>
      refine ⟨h.current, ?_, ?_, h.apart⟩
      · intro x offered
        obtain ⟨active, size, _⟩ := h.offered x offered
        exact ⟨active, size, rfl⟩
      · intro n handled
        cases handled
  | reoffered _ => exact sound_of_offered h.current rfl rfl h.apart
  | echoed _ _ =>
      apply sound_of_offered rfl rfl rfl
      intro x sending
      cases sending
      refine ⟨_, rfl, next_ne _, ?_⟩
      intro i byte read
      cases read

theorem sound_run {memory : Fin 4 → Nat → UInt8} {t : List EchoStep}
    (h : echoMachine.Runs (configured memory) t s) : s.Sound :=
  h.invariant (configured_sound memory) fun _ _ _ _ sound taken =>
    (echo_step sound taken).sound sound

/-- The bytes that the IN transfer outstanding is to transmit. -/
def transmitting (s : Echo) : List UInt8 :=
  s.epIn.elim [] fun x => x.buffer.elim [] fun b => slice (s.usbserialBuf b) 0 x.length

/-- The packet received and not yet handled. -/
def waiting (s : Echo) : List UInt8 :=
  s.outPending.elim [] fun n => slice (s.usbserialBuf s.usbserialActiveTxBuf) 0 n

/-- A packet with bytes is handled only when no transmission is outstanding. -/
def inTurn (s : Echo) : EchoEvent → Bool
  | .interrupt => s.outPending.getD 0 == 0 || s.epIn.isNone
  | _ => true

theorem transmitting_of_idle (h : s.epIn = none) : s.transmitting = [] := by
  rw [transmitting, h, Option.elim_none]

theorem transmitting_eq {x : InPacket} {b : Fin 4} (sending : s.epIn = some x)
    (pointer : x.buffer = some b) :
    s.transmitting = slice (s.usbserialBuf b) 0 x.length := by
  rw [transmitting, sending, Option.elim_some, pointer, Option.elim_some]

theorem waiting_of_handled (h : s.outPending = none) : s.waiting = [] := by
  rw [waiting, h, Option.elim_none]

theorem waiting_eq {n : Nat} (h : s.outPending = some n) :
    s.waiting = slice (s.usbserialBuf s.usbserialActiveTxBuf) 0 n := by
  rw [waiting, h, Option.elim_some]

theorem transmitting_write (h : s.Sound) (i : Nat) (data : List UInt8) :
    (s.write s.usbserialActiveTxBuf i data).transmitting = s.transmitting := by
  cases sending : s.epIn with
  | none =>
      have idle : (s.write s.usbserialActiveTxBuf i data).epIn = none := sending
      rw [transmitting_of_idle sending, transmitting_of_idle idle]
  | some x =>
      obtain ⟨b, pointer, other, _⟩ := h.apart x sending
      have still : (s.write s.usbserialActiveTxBuf i data).epIn = some x := sending
      rw [transmitting_eq sending pointer, transmitting_eq still pointer, write_other other]

end Echo

/-- What the host sends at an event. -/
def EchoEvent.sent : EchoEvent → List UInt8
  | .outDone data => data
  | .outWrite _ _ | .inFetch _ | .inDone | .interrupt => []

/-- What the host receives from an action. -/
def EchoAction.received : EchoAction → List UInt8
  | .collected data => data
  | .startIn _ _ _ | .startOut _ _ _ => []

/-- The start of an IN transfer over another. -/
def EchoAction.replaces : EchoAction → Bool
  | .startIn outstanding _ _ => outstanding
  | _ => false

theorem InPacket.data_eq {x : InPacket} {mem : Nat → UInt8} (complete : x.complete = true)
    (fetched : ∀ i byte, x.fetched i = some byte → byte = mem i) :
    x.data = slice mem 0 x.length := by
  apply List.map_congr_left
  intro i inside
  obtain ⟨byte, read⟩ := Option.isSome_iff_exists.mp (List.all_eq_true.mp complete i inside)
  rw [read, Option.getD_some, fetched i byte read, Nat.zero_add]

namespace Echo
variable {s s' : Echo} {event : EchoEvent} {out : List EchoAction}

/-- Nothing is lost by a step in turn: what is on the way before it and what the host
sends is what the host receives and what is on the way after it. -/
theorem Moves.conserves (h : s.Sound) (moves : Moves s event out s')
    (turn : s.inTurn event = true) :
    out.flatMap EchoAction.received ++ (s'.transmitting ++ s'.waiting) =
      s.transmitting ++ s.waiting ++ event.sent := by
  cases moves with
  | @outWrite x i byte offered _ =>
      obtain ⟨active, _, handled⟩ := h.offered x offered
      rw [active]
      have waits : (s.write s.usbserialActiveTxBuf i [byte]).waiting = [] :=
        waiting_of_handled handled
      rw [transmitting_write h, waits, waiting_of_handled handled, EchoEvent.sent,
        List.append_nil, List.append_nil]
      rfl
  | @outDone x data offered _ =>
      obtain ⟨active, _, handled⟩ := h.offered x offered
      rw [active]
      have transmits := transmitting_write h 0 data
      have filled := slice_blit (s.usbserialBuf s.usbserialActiveTxBuf) 0 data
      rw [← write_same] at filled
      rw [waiting_of_handled handled, List.append_nil, ← transmits]
      exact congrArg ((s.write s.usbserialActiveTxBuf 0 data).transmitting ++ ·) filled
  | @inFetch x buffer i sending _ _ =>
      have transmits : s.transmitting =
          { s with epIn := some (x.fetch i (s.usbserialBuf buffer i)) }.transmitting := by
        rw [transmitting, sending]
        rfl
      rw [EchoEvent.sent, List.append_nil, transmits]
      rfl
  | @inDone x sending complete =>
      obtain ⟨b, pointer, _, fetched⟩ := h.apart x sending
      rw [EchoEvent.sent, List.append_nil, transmitting_eq sending pointer,
        ← InPacket.data_eq complete fetched]
      simp only [List.flatMap_cons, List.flatMap_nil, EchoAction.received, List.append_nil]
      rfl
  | quiet pending =>
      rw [EchoEvent.sent, List.append_nil, waiting_of_handled pending]
      rfl
  | reoffered pending =>
      rw [EchoEvent.sent, List.append_nil, waiting_eq pending]
      rfl
  | @echoed n pending bytes =>
      have idle : s.epIn = none := by
        simp only [inTurn, pending, Option.getD_some, Bool.or_eq_true, beq_iff_eq,
          Option.isNone_iff_eq_none] at turn
        exact turn.resolve_left bytes
      rw [EchoEvent.sent, List.append_nil, transmitting_of_idle idle, waiting_eq pending,
        List.nil_append]
      exact List.append_nil _

/-- A start replaces a transmission in the steps out of turn, and in no others. -/
theorem Moves.replaces_iff (moves : Moves s event out s') :
    out.any EchoAction.replaces = !s.inTurn event := by
  cases moves with
  | outWrite _ _ | outDone _ _ | inFetch _ _ _ | inDone _ _ => rfl
  | quiet pending | reoffered pending =>
      rw [inTurn, pending]
      rfl
  | @echoed n pending bytes =>
      have filled : (n == 0) = false := beq_eq_false_iff_ne.mpr bytes
      rw [inTurn, pending, Option.getD_some, filled, Bool.false_or]
      cases s.epIn with
      | none => rfl
      | some x => rfl

end Echo

/-- The bytes the host sent, and those it received. -/
def sentBytes (t : List EchoStep) : List UInt8 := t.flatMap fun x => x.event.sent

def echoedBytes (t : List EchoStep) : List UInt8 :=
  t.flatMap fun x => x.out.flatMap EchoAction.received

/-- No transmission is replaced, no buffer is offered while it is transmitted, and the
host gets its bytes back. -/
structure EchoesAll (t : List EchoStep) (s : Echo) : Prop where
  never_replaced : ∀ x ∈ t, x.out.any EchoAction.replaces = false
  apart : ∀ x ∈ t, ∀ sending offered, x.post.epIn = some sending →
    x.post.epOut = some offered → sending.buffer ≠ some offered.buffer
  in_order : echoedBytes t <+: sentBytes t
  complete : s.epIn = none → s.outPending = none → echoedBytes t = sentBytes t

namespace Echo
variable {s s' : Echo} {t : List EchoStep} {memory : Fin 4 → Nat → UInt8}

theorem moves_of_mem (h : echoMachine.Runs (configured memory) t s) {x : EchoStep}
    (hx : x ∈ t) : x.pre.Sound ∧ Moves x.pre x.event x.out x.post := by
  obtain ⟨past, _, _, before, taken⟩ := h.of_mem hx
  exact ⟨sound_run before, echo_step (sound_run before) taken⟩

/-- While every packet is handled in turn, every byte is accounted for. -/
theorem accounted_run (h : echoMachine.Runs (configured memory) t s)
    (turns : ∀ x ∈ t, x.pre.inTurn x.event = true) :
    echoedBytes t ++ (s.transmitting ++ s.waiting) = sentBytes t := by
  induction h with
  | nil => rfl
  | @snoc t s s' event out before taken ih =>
      rw [List.forall_mem_append, List.forall_mem_singleton] at turns
      have sound := sound_run before
      have step := (echo_step sound taken).conserves sound turns.2
      have past := ih turns.1
      simp only [echoedBytes, sentBytes, List.flatMap_append, List.flatMap_singleton] at past ⊢
      rw [List.append_assoc, step, ← List.append_assoc, past]

theorem Sound.offered_apart (h : s.Sound) {sending : InPacket} {offered : OutPacket}
    (transmits : s.epIn = some sending) (receives : s.epOut = some offered) :
    sending.buffer ≠ some offered.buffer := by
  obtain ⟨b, pointer, other, _⟩ := h.apart sending transmits
  rw [pointer, (h.offered offered receives).1]
  intro same
  exact other (Option.some.inj same)

/-- Everything is echoed exactly when every packet with bytes is handled after the
transmission of the one before. -/
theorem echoesAll_iff (h : echoMachine.Runs (configured memory) t s) :
    EchoesAll t s ↔ ∀ x ∈ t, x.pre.inTurn x.event = true := by
  constructor
  · intro echoes x hx
    have replaces := (moves_of_mem h hx).2.replaces_iff
    rw [echoes.never_replaced x hx] at replaces
    exact (Bool.not_eq_false' ..).mp replaces.symm
  · intro turns
    have accounted := accounted_run h turns
    refine ⟨?_, ?_, ⟨_, accounted⟩, ?_⟩
    · intro x hx
      rw [(moves_of_mem h hx).2.replaces_iff, turns x hx]
      rfl
    · intro x hx sending offered transmits receives
      obtain ⟨sound, moves⟩ := moves_of_mem h hx
      exact (moves.sound sound).offered_apart transmits receives
    · intro idle handled
      rw [transmitting_of_idle idle, waiting_of_handled handled, List.append_nil,
        List.append_nil] at accounted
      exact accounted

/-- Two packets, each collected by the host before the next arrives. -/
theorem echoesAll_iff_patient :
    let run := echoMachine.exec (configured fun _ _ => 0)
      [.outDone [1], .interrupt, .inFetch 0, .inDone, .interrupt, .outDone [2], .interrupt]
    ∃ ran : run.isSome, EchoesAll (run.get ran).1 (run.get ran).2 :=
  ⟨by decide, (echoesAll_iff (Machine.runs_exec (by decide))).mpr (by decide +kernel)⟩

/-- The second of two packets takes the place of the first, which the host never gets. -/
theorem packet_lost :
    let run := echoMachine.exec (configured fun _ _ => 0)
      [.outDone [1], .interrupt, .outDone [2], .interrupt, .inFetch 0, .inDone, .interrupt]
    ∃ ran : run.isSome, sentBytes (run.get ran).1 = [1, 2] ∧
      echoedBytes (run.get ran).1 = [2] ∧
      ¬ EchoesAll (run.get ran).1 (run.get ran).2 := by
  refine ⟨by decide, by decide +kernel, by decide +kernel, ?_⟩
  intro echoes
  have all := echoes.complete rfl rfl
  revert all
  decide +kernel

end Echo
end SamdCore
