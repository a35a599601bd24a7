import SamdCore.BoundedQueue
import SamdCore.RingBufferContents

/-!
The byte interface of the ring buffer is a bounded queue.

The machine of `store(c)`, `read_char()` and `clear()` calls is simulated by the
bounded queue of one byte less than the array has, with `Holds` for the relation.
What the other functions report, and that their narrow arithmetic is exact, is
read off the same relation after every call.
-/
namespace SamdCore
open CircularSegment MachineRuns BoundedQueue

inductive ByteCall
  | store (c : UInt8)
  | readChar
  | clear

inductive ByteResult
  | count (n : Nat)
  | byte (c : UInt8)
  | nothing

def byteMachine (N align : Nat) : Machine (RingBuffer N align) ByteCall ByteResult where
  step r call :=
    match call with
    | .store c => some ((r.storeChar c).1, .count (r.storeChar c).2)
    | .readChar => some (r.readChar.1, .byte r.readChar.2)
    | .clear => some (r.clear, .nothing)

def ByteCall.queueOp : ByteCall → QueueOp UInt8
  | .store c => .enqueue c
  | .readChar => .dequeue
  | .clear => .clear

/-- How the source reports what a queue answers. -/
def returned : QueueReply UInt8 → ByteResult
  | .accepted => .count 1
  | .refused => .count 0
  | .taken c => .byte c
  | .empty => .byte 0
  | .cleared => .nothing

namespace RingBuffer
variable {N align : Nat}

theorem byteMachine_simulates (hN : N ≤ 255) :
    Simulates (byteMachine N align) (boundedQueue UInt8 (N - 1)) ByteCall.queueOp returned
      Holds := by
  intro r q call r' o h taken
  have hl := h.length_lt
  cases call with
  | store c =>
      obtain ⟨rfl, rfl⟩ := Prod.mk.inj (Option.some.inj taken)
      by_cases room : q.length < N - 1
      · obtain ⟨holds, count, _⟩ := storeChar_spec h hN room c
        refine ⟨q ++ [c], .accepted, ?_, by rw [count]; rfl, holds⟩
        simp only [boundedQueue, ByteCall.queueOp, respond, if_pos room]
      · have full := storeChar_of_full h hN (by omega) c
        refine ⟨q, .refused, ?_, by rw [full]; rfl, by rwa [full]⟩
        simp only [boundedQueue, ByteCall.queueOp, respond, if_neg room]
  | readChar =>
      obtain ⟨rfl, rfl⟩ := Prod.mk.inj (Option.some.inj taken)
      cases q with
      | nil =>
          have unread := readChar_of_empty h
          exact ⟨[], .empty, rfl, by rw [unread]; rfl, by rwa [unread]⟩
      | cons c rest =>
          obtain ⟨holds, byte⟩ := readChar_spec h
          exact ⟨rest, .taken c, rfl, by rw [byte]; rfl, holds⟩
  | clear =>
      obtain ⟨rfl, rfl⟩ := Prod.mk.inj (Option.some.inj taken)
      exact ⟨[], .cleared, rfl, rfl, holds_clear (Nat.zero_lt_of_lt hl) r⟩

/-- What a ring shows of the queue it stands for. -/
structure Shows (r : RingBuffer N align) (q : List UInt8) : Prop where
  length_le : q.length ≤ N - 1
  bytes : segment N r.buffer r.tailPtr q.length = q
  head_lt : r.headPtr < N
  tail_lt : r.tailPtr < N
  used : r.usedSpace = q.length
  available : r.availableSpace = N - 1 - q.length
  full : r.isFull = true ↔ q.length = N - 1
  empty : r.isEmpty = true ↔ q.length = 0
  refuses : q.length = N - 1 → ∀ c, r.storeChar c = (r, 0)
  unread : q.length = 0 → r.readChar = (r, 0)
  difference_exact : int16 ((r.headPtr : Int) - r.tailPtr) = (r.headPtr : Int) - r.tailPtr
  wrapped_exact : int16 ((N : Int) + ((r.headPtr : Int) - r.tailPtr)) =
    (N : Int) + ((r.headPtr : Int) - r.tailPtr)
  used_exact : (r.usedSpace : Int) =
    if (r.headPtr : Int) - r.tailPtr < 0 then (N : Int) + ((r.headPtr : Int) - r.tailPtr)
    else (r.headPtr : Int) - r.tailPtr
  available_exact : (r.availableSpace : Int) = (N : Int) - r.usedSpace - 1

theorem Holds.shows {r : RingBuffer N align} {q : List UInt8} (h : r.Holds q) (hN : N ≤ 255) :
    r.Shows q where
  length_le := Nat.le_sub_one_of_lt h.length_lt
  bytes := h.bytes
  head_lt := h.head_lt
  tail_lt := h.tail_lt
  used := h.usedSpace_eq hN
  available := h.availableSpace_eq hN
  full := h.isFull_iff hN
  empty := by rw [h.isEmpty_iff, List.length_eq_zero_iff]
  refuses full c := storeChar_of_full h hN full c
  unread hq := readChar_of_empty (List.length_eq_zero_iff.mp hq ▸ h)
  difference_exact := by
    have := h.head_lt; have := h.tail_lt
    exact int16_eq (by omega) (by omega)
  wrapped_exact := by
    have := h.head_lt; have := h.tail_lt
    exact int16_eq (by omega) (by omega)
  used_exact := by
    have := h.length_lt; have := h.tail_lt; have := h.head_cases
    rw [h.usedSpace_eq hN]
    split <;> omega
  available_exact := by
    have := h.length_lt
    rw [h.availableSpace_eq hN, h.usedSpace_eq hN]
    omega

/-- Every run of byte calls is a run of the bounded queue on the same calls with
the same results, and the ring shows the queue after it. -/
theorem byte_interface_refines_queue (hN₁ : 1 ≤ N) (hN₂ : N ≤ 255)
    (buffer rxBuffer : Nat → UInt8)
    {t : List (Transition (RingBuffer N align) ByteCall ByteResult)} {r : RingBuffer N align}
    (h : (byteMachine N align).Runs (construct N align buffer rxBuffer) t r) :
    ∃ u q, (boundedQueue UInt8 (N - 1)).Runs [] u q ∧
      u.map (·.event) = t.map (fun x => x.event.queueOp) ∧
      u.map (fun y => returned y.out) = t.map (·.out) ∧ r.Shows q := by
  have start : (construct N align buffer rxBuffer).Holds [] := holds_clear hN₁ _
  obtain ⟨u, q, hu, holds, calls, results⟩ := (byteMachine_simulates hN₂).runs start h
  exact ⟨u, q, hu, calls, results, holds.shows hN₂⟩

/-- Three bytes offered to an array of three, of which it takes two, and one read back. -/
theorem byte_interface_refines_queue_three :
    let M := byteMachine 3 0
    let run := M.exec (construct 3 0 (fun _ => 0) (fun _ => 0))
      [.store 7, .store 9, .store 5, .readChar]
    ∃ ran : run.isSome, ∃ u q, (boundedQueue UInt8 2).Runs [] u q ∧
      u.map (·.event) = (run.get ran).1.map (fun x => x.event.queueOp) ∧
      u.map (fun y => returned y.out) = (run.get ran).1.map (·.out) ∧
      (run.get ran).2.Shows q :=
  ⟨rfl, byte_interface_refines_queue (N := 3) (by decide) (by decide) _ _ (Machine.runs_exec rfl)⟩

end RingBuffer
end SamdCore
