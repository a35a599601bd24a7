import Mathlib.Data.List.GetD
import SamdCore.SerialBlocks
import SamdCore.SerialTestModel

/-!
What the serial test sends back.

The loop of `main` writes what it has read, and does not look at how much of it was
stored. So the host gets its bytes back in order behind the greeting, without those
that found no room; with room for every write it gets all of them. Both hold as
long as no block reaches the last cell of a ring.
-/
namespace SamdCore
open CircularSegment MachineRuns

/-- The bytes that a call is to store. -/
def SerialEvent.asked : SerialEvent → List UInt8
  | .write data len => slice data 0 len.toNat
  | .writeChar c => [c]
  | _ => []

/-- All bytes that a call is to store have room in the tx ring. -/
def hasRoom (d : System) : SerialEvent → Bool
  | .write _ len => decide (len.toNat ≤ d.client.txBuffer.availableSpace)
  | .writeChar _ => !d.client.txBuffer.isFull
  | _ => true

/-- No block reaches the last cell of its ring. -/
def blocksStraight (d : System) (event : SerialEvent) : Bool :=
  writesStraight d event && readsStraight d event

namespace SerialTest
variable (number : List UInt8)

/-- The number's length is passed as one byte. -/
def sentNumber : List UInt8 := number.take (number.length % 256)

def greeting : List UInt8 := serialNo ++ colon :: space :: sentNumber number

/-- What `main` is still to write of the greeting and of what it has read. -/
def owed (s : SerialTest) : List UInt8 :=
  match s.main with
  | .isOpen | .writeName => greeting number
  | .writeColon => colon :: space :: sentNumber number
  | .writeSpace => space :: sentNumber number
  | .writeNumber => sentNumber number
  | .read => []
  | .write length => slice s.tmpBuffer 0 length.toNat

/-- The bytes stored are some of those wanted, which are the greeting and the bytes read,
up to those still owed. -/
structure Echoing (u : List SerialStep) (s : SerialTest) (wanted : List UInt8) : Prop where
  stored : (storedBytes u).Sublist wanted
  whole : (∀ x ∈ u, hasRoom x.pre x.event = true) → storedBytes u = wanted
  accounted : wanted ++ owed number s = greeting number ++ handedBytes u

/-- The host gets back, behind the greeting, what it has sent: in order, and with room for
every write without a gap. -/
structure EchoesInOrder (u : List SerialStep) (s : SerialTest) : Prop where
  inOrder : (reported u).Sublist (greeting number ++ receivedBytes u)
  whole : (∀ x ∈ u, hasRoom x.pre x.event = true) →
    reported u <+: greeting number ++ receivedBytes u
  complete : (∀ x ∈ u, hasRoom x.pre x.event = true) → s.main = .read →
    s.serial.epIn.outstanding = [] → s.serial.client.available = false →
    reported u = greeting number ++ receivedBytes u

variable {number} {U : UsbConstants} {m : Storage} {tmpBuffer : Nat → UInt8}
variable {s s' : SerialTest} {t : List DeviceStep} {u : List SerialStep}
variable {d d' : System} {wanted c : List UInt8}

theorem slice_cString {n : Nat} (h : n ≤ number.length) :
    slice (cString number) 0 n = number.take n := by
  apply List.ext_getElem
  · rw [length_slice, List.length_take_of_le h]
  · intro i short _
    rw [length_slice] at short
    have inside : i < number.length := Nat.lt_of_lt_of_le short h
    simp only [slice, List.getElem_map, List.getElem_range, List.getElem_take, Nat.zero_add]
    exact List.getD_eq_getElem number 0 inside

theorem slice_begins (data : Nat → UInt8) {n k : Nat} (h : n ≤ k) :
    slice data 0 n <+: slice data 0 k := by
  obtain ⟨more, rfl⟩ := Nat.exists_eq_add_of_le h
  exact ⟨_, (slice_append data 0 n more).symm⟩

/-- A straight call stores a beginning of what it is asked to, and with room all of it. -/
theorem stored_asked {event : SerialEvent} {out : SerialOutput} (h : (System.sender d).Outgoing c)
    (straight : writesStraight d event = true)
    (taken : serialMachine.step d event = some (d', out)) :
    event.stored out.result <+: event.asked ∧
      (hasRoom d event = true → event.stored out.result = event.asked) := by
  cases event with
  | write data len =>
      obtain rfl : (d.write data len).2 = out := congrArg Prod.snd (Option.some.inj taken)
      have held : d.client.txBuffer.Holds c := h.holds
      have count := (RingBuffer.storeBuffer_spec held (by decide) data
        (of_decide_eq_true straight)).2.1
      have stored : SerialEvent.stored (.write data len) (d.write data len).2.result =
          slice data 0 (min len.toNat d.client.txBuffer.availableSpace) :=
        congrArg (slice data 0) count
      rw [stored]
      refine ⟨slice_begins data (Nat.min_le_left ..), fun room => ?_⟩
      rw [Nat.min_eq_left (of_decide_eq_true room)]
      rfl
  | writeChar c =>
      obtain rfl : (d.writeChar c).2 = out := congrArg Prod.snd (Option.some.inj taken)
      cases full : d.client.txBuffer.isFull with
      | true =>
          have stored : SerialEvent.stored (.writeChar c) (d.writeChar c).2.result = [] := by
            simp [SerialEvent.stored, SerialEvent.accepted, System.writeChar,
              RingBuffer.storeChar, full]
          rw [stored]
          exact ⟨List.nil_prefix, fun room => by simp [hasRoom, full] at room⟩
      | false =>
          have stored : SerialEvent.stored (.writeChar c) (d.writeChar c).2.result = [c] := by
            simp [SerialEvent.stored, SerialEvent.accepted, System.writeChar,
              RingBuffer.storeChar, full]
          rw [stored]
          exact ⟨List.prefix_rfl, fun _ => rfl⟩
  | _ => exact ⟨List.prefix_rfl, fun _ => rfl⟩

theorem Writes.owed_eq {event : SerialEvent} {main : MainAt} {serial : System}
    (h : Writes number s.tmpBuffer s.main event main) :
    owed number s = event.asked ++ owed number { s with serial, main } := by
  obtain ⟨control, before, buffer, here⟩ := s
  cases h with
  | name => rfl
  | colon | space => rfl
  | number =>
      have sent : (UInt8.ofNat number.length).toNat = number.length % 256 := rfl
      exact ((congrArg (slice (cString number) 0) sent).trans
        (slice_cString (Nat.mod_le ..))).symm.trans (List.append_nil _).symm
  | back => exact (List.append_nil _).symm

/-- An interrupt neither stores nor hands out. -/
theorem interrupt_quiet {event : SerialEvent} (h : event.interrupts = true)
    (result : SerialResult) (available : Bool) :
    event.stored result = [] ∧ event.handed result available = [] := by
  cases event with
  | dma _ _ | completion _ _ | setConfiguration _ => exact ⟨rfl, rfl⟩
  | _ => cases h

theorem Writes.hands_nothing {event : SerialEvent} {main here : MainAt} {buffer : Nat → UInt8}
    (h : Writes number buffer here event main) (result : SerialResult) (available : Bool) :
    event.handed result available = [] := by
  cases h <;> rfl

/-- The length read fits in the byte that it is returned in. -/
theorem slice_read {out : SerialOutput} {buffer data : Nat → UInt8} {length : Nat}
    (straight : readsStraight d (.read buffer 64) = true)
    (taken : serialMachine.step d (.read buffer 64) = some (d', out))
    (result : out.result = .filled data length) :
    slice data 0 (UInt8.ofNat length).toNat = slice data 0 length := by
  obtain rfl : (d.read buffer 64).2 = out := congrArg Prod.snd (Option.some.inj taken)
  obtain ⟨-, rfl⟩ := SerialResult.filled.inj result
  have count := (RingBuffer.read_straight (by decide) buffer (of_decide_eq_true straight)).2.2
  have short : min (64 : UInt8).toNat d.client.rxBuffer.usedSpace ≤ 64 := Nat.min_le_left ..
  rw [count, UInt8.toNat_ofNat_of_lt' (Nat.lt_of_le_of_lt short (by decide))]

theorem owed_of_read (here : s.main = .read) : owed number s = [] := by
  rw [owed, here]

/-- The step lemma: one call on the serial port, with what it asks for. -/
theorem Echoing.serial_step (h : Echoing number u s wanted) {event : SerialEvent}
    {out : SerialOutput} {asked : List UInt8}
    (stored : event.stored out.result <+: asked)
    (whole : hasRoom s.serial event = true → event.stored out.result = asked)
    (accounted : asked ++ owed number s' =
      owed number s ++ event.handed out.result s.serial.client.available) :
    Echoing number (u ++ [⟨s.serial, event, out, d'⟩]) s' (wanted ++ asked) := by
  refine ⟨?_, fun room => ?_, ?_⟩
  · rw [storedBytes_snoc]
    exact h.stored.append stored.sublist
  · rw [List.forall_mem_append, List.forall_mem_singleton] at room
    rw [storedBytes_snoc, h.whole room.1]
    exact congrArg (wanted ++ ·) (whole room.2)
  · rw [handedBytes_snoc, ← List.append_assoc, ← h.accounted, List.append_assoc, accounted,
      List.append_assoc]

theorem Echoing.step {event : DeviceEvent} {out : DeviceOutput}
    (h : Echoing number (serialSteps t) s wanted) (sending : (System.sender s.serial).Outgoing c)
    (straight : ∀ x ∈ serialSteps (t ++ [⟨s, event, out, s'⟩]),
      blocksStraight x.pre x.event = true)
    (taken : (serialTestMachine U number).step s event = some (s', out)) :
    ∃ wanted', Echoing number (serialSteps (t ++ [⟨s, event, out, s'⟩])) s' wanted' := by
  cases (serialTest_step taken).2 with
  | waits _ _ | control _ =>
      rw [serialSteps_still t rfl]
      exact ⟨wanted, h.stored, h.whole, h.accounted⟩
  | opens here _ =>
      rw [serialSteps_still t rfl]
      refine ⟨wanted, h.stored, h.whole, ?_⟩
      rw [← h.accounted, owed, owed, here]
  | @writes event main out serial writes step =>
      rw [serialSteps_serial] at straight ⊢
      have guard := straight _ (List.mem_append_right _ (List.mem_singleton_self _))
      obtain ⟨stored, whole⟩ := stored_asked sending (Bool.and_eq_true_iff.mp guard).1 step
      refine ⟨wanted ++ event.asked, h.serial_step stored whole ?_⟩
      rw [writes.hands_nothing, List.append_nil, ← writes.owed_eq]
  | @reads out serial buffer length here step result =>
      rw [serialSteps_serial] at straight ⊢
      have guard := straight _ (List.mem_append_right _ (List.mem_singleton_self _))
      refine ⟨wanted ++ [], h.serial_step List.nil_prefix (fun _ => rfl) ?_⟩
      rw [owed_of_read here, result]
      exact slice_read (Bool.and_eq_true_iff.mp guard).2 step result
  | @serial event out serial interrupts step =>
      rw [serialSteps_serial]
      obtain ⟨stores, hands⟩ :=
        interrupt_quiet interrupts out.result s.serial.client.available
      refine ⟨wanted ++ [], h.serial_step (stores ▸ List.prefix_rfl) (fun _ => stores) ?_⟩
      rw [hands, List.append_nil]
      rfl

theorem echoing_run (h : (serialTestMachine U number).Runs (started m tmpBuffer) t s)
    (straight : ∀ x ∈ serialSteps t, blocksStraight x.pre x.event = true)
    (words : ∀ x ∈ serialSteps t, abandonsWords x.pre x.event = true) :
    ∃ wanted, Echoing number (serialSteps t) s wanted := by
  induction h with
  | nil => exact ⟨[], List.Sublist.refl _, fun _ => rfl, (List.append_nil _).symm⟩
  | @snoc t s s' event out before taken ih =>
      have past (x : SerialStep) (hx : x ∈ serialSteps t) :
          x ∈ serialSteps (t ++ [⟨s, event, out, s'⟩]) := by
        rw [serialSteps, projected, List.filterMap_append]
        exact List.mem_append_left _ hx
      have straight' := fun x hx => straight x (past x hx)
      have words' := fun x hx => words x (past x hx)
      obtain ⟨wanted, echoing⟩ := ih straight' words'
      obtain ⟨c, p, transmitting⟩ := System.transmitting_run (serial_runs before)
        (fun x hx => (Bool.and_eq_true_iff.mp (straight' x hx)).1) words'
      exact echoing.step transmitting.outgoing straight taken

/-- The serial test, with any interrupts between its calls. -/
theorem echoes_in_order (h : (serialTestMachine U number).Runs (started m tmpBuffer) t s)
    (straight : ∀ x ∈ serialSteps t, blocksStraight x.pre x.event = true)
    (words : ∀ x ∈ serialSteps t, abandonsWords x.pre x.event = true) :
    EchoesInOrder number (serialSteps t) s := by
  obtain ⟨wanted, echoing⟩ := echoing_run h straight words
  obtain ⟨c, p, transmitting⟩ := System.transmitting_run (serial_runs h)
    (fun x hx => (Bool.and_eq_true_iff.mp (straight x hx)).1) words
  obtain ⟨q, incoming, -, handed⟩ := System.handing_run (serial_runs h)
    fun x hx => (Bool.and_eq_true_iff.mp (straight x hx)).2
  have sent : reported (serialSteps t) <+: storedBytes (serialSteps t) := by
    rw [transmitting.accounted]
    exact List.prefix_append _ p
  have asked : wanted <+: greeting number ++ receivedBytes (serialSteps t) := by
    rw [handed, ← List.append_assoc, ← echoing.accounted, List.append_assoc]
    exact List.prefix_append _ _
  refine ⟨?_, fun room => ?_, fun room here idle unread => ?_⟩
  · exact (sent.sublist.trans echoing.stored).trans asked.sublist
  · rw [echoing.whole room] at sent
    exact sent.trans asked
  · have none : q = [] := by
      rw [System.available_eq incoming.holds, Bool.not_eq_false', List.isEmpty_iff] at unread
      exact unread
    have pending := transmitting.pending
    rw [idle] at pending
    have all := transmitting.accounted
    rw [pending.idle_eq.2, List.append_nil, echoing.whole room] at all
    rw [← all, handed, none, List.append_nil, ← echoing.accounted, owed_of_read here,
      List.append_nil]

/-- The host opens the port and sends three bytes; the last two completions are those of the
greeting's slices. -/
theorem echoes_in_order_session :
    let machine := serialTestMachine Control.standard [0x41, 0x42]
    let run := machine.exec (started System.zeroed fun _ => 0)
      [.main, .serial (.setConfiguration 1), .control (.setup ⟨0x21, 0x22, 1, 0, 0⟩), .main, .main,
        .main, .serial (.completion (some [1, 2, 3]) false), .control .sysTick, .main, .main,
        .main, .main, .serial (.completion none true), .main, .serial (.completion none true)]
    ∃ ran : run.isSome,
      EchoesInOrder [0x41, 0x42] (serialSteps (run.get ran).1) (run.get ran).2 :=
  ⟨by decide +kernel, echoes_in_order (Machine.runs_exec (by decide +kernel))
    (by decide +kernel) (by decide +kernel)⟩

end SerialTest
end SamdCore
