import SamdCore.RingBufferBlocks
import SamdCore.RingBufferQueue

/-!
The whole calling interface of the ring buffer as a bounded queue.

A block call is not one operation of the queue but several: its bytes are offered
or taken one after the other, up to the first that is refused or missing. With
every block call ending before the last cell of the array, each run of calls is
a run of the queue cut into such pieces.
-/
namespace SamdCore
open CircularSegment MachineRuns BoundedQueue

inductive RingCall
  | store (c : UInt8)
  | storeBuffer (data : Nat → UInt8) (len : UInt8)
  | readChar
  | read (buffer : Nat → UInt8) (maxLen : UInt8)
  | clear

inductive RingResult
  | count (n : Nat)
  | byte (c : UInt8)
  | filled (buffer : Nat → UInt8) (count : Nat)
  | nothing

abbrev RingStep (N align : Nat) := Transition (RingBuffer N align) RingCall RingResult

def ringMachine (N align : Nat) : Machine (RingBuffer N align) RingCall RingResult where
  step r call :=
    match call with
    | .store c => some ((r.storeChar c).1, .count (r.storeChar c).2)
    | .storeBuffer data len =>
        let stored := r.storeBuffer data len.toNat
        some (stored.1, .count stored.2.1)
    | .readChar => some (r.readChar.1, .byte r.readChar.2)
    | .read buffer maxLen =>
        let taken := r.read buffer maxLen.toNat
        some (taken.1, .filled taken.2.1 taken.2.2.1)
    | .clear => some (r.clear, .nothing)

/-- A block call ends before the last cell of the array. -/
def RingCall.straight {N align : Nat} (r : RingBuffer N align) : RingCall → Prop
  | .storeBuffer _ len => r.headPtr + min len.toNat r.availableSpace < N
  | .read _ maxLen => r.tailPtr + min maxLen.toNat r.usedSpace < N
  | _ => True

instance {N align : Nat} (r : RingBuffer N align) (call : RingCall) :
    Decidable (call.straight r) :=
  match call with
  | .store _ | .readChar | .clear => inferInstanceAs (Decidable True)
  | .storeBuffer _ _ | .read _ _ => inferInstanceAs (Decidable (_ < _))

/-- The operations of the queue that a call stands for, with their answers. -/
inductive Accounts : RingCall → RingResult → List (QueueOp UInt8 × QueueReply UInt8) → Prop
  | stored {c} : Accounts (.store c) (.count 1) [(.enqueue c, .accepted)]
  | refused {c} : Accounts (.store c) (.count 0) [(.enqueue c, .refused)]
  | storedAll {data len} : Accounts (.storeBuffer data len) (.count len.toNat)
      ((slice data 0 len.toNat).map fun c => (.enqueue c, .accepted))
  | storedSome {data len n} : n < len.toNat → Accounts (.storeBuffer data len) (.count n)
      ((slice data 0 n).map (fun c => (.enqueue c, .accepted)) ++ [(.enqueue (data n), .refused)])
  | taken {c} : Accounts .readChar (.byte c) [(.dequeue, .taken c)]
  | missing : Accounts .readChar (.byte 0) [(.dequeue, .empty)]
  | readAll {buffer maxLen bytes} : bytes.length = maxLen.toNat →
      Accounts (.read buffer maxLen) (.filled (blit buffer 0 bytes) bytes.length)
        (bytes.map fun c => (.dequeue, .taken c))
  | readSome {buffer maxLen bytes} : bytes.length < maxLen.toNat →
      Accounts (.read buffer maxLen) (.filled (blit buffer 0 bytes) bytes.length)
        (bytes.map (fun c => (.dequeue, .taken c)) ++ [(.dequeue, .empty)])
  | cleared : Accounts .clear .nothing [(.clear, .cleared)]

namespace RingBuffer
variable {N align : Nat} {r : RingBuffer N align} {q : List UInt8}

theorem storeBuffer_spec (h : r.Holds q) (hN : N ≤ 255) (data : Nat → UInt8) {len : Nat}
    (straight : r.headPtr + min len r.availableSpace < N) :
    (r.storeBuffer data len).1.Holds (q ++ slice data 0 (min len r.availableSpace)) ∧
      (r.storeBuffer data len).2.1 = min len r.availableSpace ∧
      (r.storeBuffer data len).1.tailPtr = r.tailPtr := by
  obtain ⟨ring, count⟩ := storeBuffer_straight hN data straight
  have length : (slice data 0 (min len r.availableSpace)).length = min len r.availableSpace :=
    length_slice data 0 _
  have room : min len r.availableSpace ≤ N - 1 - q.length := by
    rw [h.availableSpace_eq hN]
    exact Nat.min_le_right len _
  have short := h.length_lt
  rw [ring]
  refine ⟨?_, count, rfl⟩
  apply h.push
  · rw [length]
    omega
  · rw [length]
    exact Nat.le_of_lt straight
  · exact slice_blit r.buffer r.headPtr _
  · exact fun p outside => blit_outside r.buffer r.headPtr _ outside
  · rw [length]
    exact (if_neg (Nat.not_le.mpr straight)).symm
  · rfl

theorem read_spec (h : r.Holds q) (hN : N ≤ 255) (buffer : Nat → UInt8) {maxLen : Nat}
    (straight : r.tailPtr + min maxLen r.usedSpace < N) :
    (r.read buffer maxLen).1.Holds (q.drop (min maxLen q.length)) ∧
      (r.read buffer maxLen).2.1 = blit buffer 0 (q.take (min maxLen q.length)) ∧
      (r.read buffer maxLen).2.2.1 = min maxLen q.length ∧
      (r.read buffer maxLen).1.headPtr = r.headPtr := by
  obtain ⟨ring, bytes, count⟩ := read_straight hN buffer straight
  rw [h.usedSpace_eq hN] at ring bytes count straight
  have kept : min maxLen q.length ≤ q.length := Nat.min_le_right maxLen q.length
  rw [ring, bytes, h.slice_tail kept (Nat.le_of_lt straight)]
  exact ⟨h.advance kept rfl rfl (Nat.mod_eq_of_lt straight).symm, rfl, count, rfl⟩

theorem store_expands (h : r.Holds q) (hN : N ≤ 255) (c : UInt8) :
    ∃ u q', (boundedQueue UInt8 (N - 1)).Runs q u q' ∧
      Accounts (.store c) (.count (r.storeChar c).2) (u.map Answered) ∧
      (r.storeChar c).1.Holds q' := by
  by_cases room : q.length < N - 1
  · obtain ⟨holds, one, -⟩ := storeChar_spec h hN room c
    obtain ⟨u, runs, answers⟩ := enqueues q [c] (show q.length + 1 ≤ N - 1 from room)
    rw [one]
    exact ⟨u, _, runs, answers ▸ .stored, holds⟩
  · have short := h.length_lt
    have full : q.length = N - 1 := by omega
    have refused := enqueue_refused (Nat.le_of_eq full.symm) c
    rw [storeChar_of_full h hN full]
    exact ⟨_, q, Machine.Runs.single refused, .refused, h⟩

theorem storeBuffer_expands (h : r.Holds q) (hN : N ≤ 255) (data : Nat → UInt8) (len : UInt8)
    (straight : r.headPtr + min len.toNat r.availableSpace < N) :
    ∃ u q', (boundedQueue UInt8 (N - 1)).Runs q u q' ∧
      Accounts (.storeBuffer data len) (.count (r.storeBuffer data len.toNat).2.1)
        (u.map Answered) ∧
      (r.storeBuffer data len.toNat).1.Holds q' := by
  have short := h.length_lt
  obtain ⟨holds, count, -⟩ := storeBuffer_spec h hN data straight
  rw [h.availableSpace_eq hN] at holds count
  have fits : q.length + (slice data 0 (min len.toNat (N - 1 - q.length))).length ≤ N - 1 := by
    rw [length_slice]
    omega
  obtain ⟨u, runs, answers⟩ := enqueues q _ fits
  rw [count]
  by_cases all : len.toNat ≤ N - 1 - q.length
  · rw [Nat.min_eq_left all] at runs answers holds ⊢
    exact ⟨u, _, runs, answers ▸ .storedAll, holds⟩
  · have less : N - 1 - q.length < len.toNat := Nat.lt_of_not_le all
    rw [Nat.min_eq_right (Nat.le_of_lt less)] at runs answers holds ⊢
    have full : N - 1 ≤ (q ++ slice data 0 (N - 1 - q.length)).length := by
      rw [List.length_append, length_slice]
      omega
    refine ⟨_, _, runs.snoc (enqueue_refused full (data (N - 1 - q.length))), ?_, holds⟩
    rw [List.map_append, answers]
    exact .storedSome less

theorem readChar_expands (h : r.Holds q) :
    ∃ u q', (boundedQueue UInt8 (N - 1)).Runs q u q' ∧
      Accounts .readChar (.byte r.readChar.2) (u.map Answered) ∧ r.readChar.1.Holds q' := by
  cases q with
  | nil =>
      have missing : (boundedQueue UInt8 (N - 1)).step [] .dequeue = some ([], .empty) := rfl
      rw [readChar_of_empty h]
      exact ⟨_, [], Machine.Runs.single missing, .missing, h⟩
  | cons c q =>
      obtain ⟨holds, byte⟩ := readChar_spec h
      obtain ⟨u, runs, answers⟩ := dequeues (N - 1) [c] q
      rw [byte]
      exact ⟨u, q, runs, answers ▸ .taken, holds⟩

theorem read_expands (h : r.Holds q) (hN : N ≤ 255) (buffer : Nat → UInt8) (maxLen : UInt8)
    (straight : r.tailPtr + min maxLen.toNat r.usedSpace < N) :
    ∃ u q', (boundedQueue UInt8 (N - 1)).Runs q u q' ∧
      Accounts (.read buffer maxLen) (.filled (r.read buffer maxLen.toNat).2.1
        (r.read buffer maxLen.toNat).2.2.1) (u.map Answered) ∧
      (r.read buffer maxLen.toNat).1.Holds q' := by
  obtain ⟨holds, bytes, count, -⟩ := read_spec h hN buffer straight
  have length : (q.take (min maxLen.toNat q.length)).length = min maxLen.toNat q.length :=
    List.length_take_of_le (Nat.min_le_right _ _)
  obtain ⟨u, runs, answers⟩ := dequeues (N - 1) (q.take (min maxLen.toNat q.length))
    (q.drop (min maxLen.toNat q.length))
  rw [List.take_append_drop] at runs
  rw [bytes, count.trans length.symm]
  by_cases all : maxLen.toNat ≤ q.length
  · refine ⟨u, _, runs, answers ▸ .readAll ?_, holds⟩
    rw [length, Nat.min_eq_left all]
  · have less : q.length ≤ maxLen.toNat := Nat.le_of_not_le all
    have emptied : q.drop (min maxLen.toNat q.length) = [] := by
      rw [Nat.min_eq_right less, List.drop_length]
    rw [emptied] at runs holds
    have missing : (boundedQueue UInt8 (N - 1)).step [] .dequeue = some ([], .empty) := rfl
    refine ⟨_, [], runs.snoc missing, ?_, holds⟩
    rw [List.map_append, answers]
    apply Accounts.readSome
    rw [length, Nat.min_eq_right less]
    exact Nat.lt_of_not_le all

theorem ringMachine_expands (hN : N ≤ 255) :
    Expands (ringMachine N align) (boundedQueue UInt8 (N - 1)) (fun r call => call.straight r)
      (fun call result u => Accounts call result (u.map Answered)) Holds := by
  intro r q call r' o h straight taken
  cases call with
  | store c =>
      cases taken
      exact store_expands h hN c
  | storeBuffer data len =>
      cases taken
      exact storeBuffer_expands h hN data len straight
  | readChar =>
      cases taken
      exact readChar_expands h
  | read buffer maxLen =>
      cases taken
      exact read_expands h hN buffer maxLen straight
  | clear =>
      cases taken
      have cleared : (boundedQueue UInt8 (N - 1)).step q .clear = some ([], .cleared) := rfl
      exact ⟨_, [], Machine.Runs.single cleared, .cleared,
        holds_clear (Nat.zero_lt_of_lt h.length_lt) r⟩

/-- Every run of calls whose blocks end before the last cell is a run of the bounded
queue, cut into the pieces that the calls stand for. -/
theorem interface_refines_queue (hN₁ : 1 ≤ N) (hN₂ : N ≤ 255) (buffer rxBuffer : Nat → UInt8)
    {t : List (RingStep N align)}
    (h : (ringMachine N align).Runs (construct N align buffer rxBuffer) t r)
    (straight : ∀ x ∈ t, x.event.straight x.pre) :
    ∃ us q, (boundedQueue UInt8 (N - 1)).Runs [] us.flatten q ∧ r.Shows q ∧
      List.Forall₂ (fun x u => Accounts x.event x.out (u.map Answered)) t us := by
  have start : (construct N align buffer rxBuffer).Holds [] := holds_clear hN₁ _
  obtain ⟨us, q, runs, holds, accounts⟩ := (ringMachine_expands hN₂).runs start h straight
  exact ⟨us, q, runs, holds.shows hN₂, accounts⟩

/-- Blocks and single bytes in a ring of six, of which one store takes only a part. -/
theorem interface_refines_queue_six :
    let run := (ringMachine 6 0).exec (construct 6 0 (fun _ => 0) (fun _ => 0))
      [.storeBuffer counting 3, .store 9, .readChar, .read (fun _ => 0) 2, .read (fun _ => 0) 2,
        .clear, .storeBuffer counting 5]
    ∃ ran : run.isSome, ∃ us q, (boundedQueue UInt8 5).Runs [] us.flatten q ∧
      (run.get ran).2.Shows q ∧
      List.Forall₂ (fun x u => Accounts x.event x.out (u.map Answered)) (run.get ran).1 us :=
  ⟨rfl, interface_refines_queue (N := 6) (by decide) (by decide) _ _ (Machine.runs_exec rfl)
    (by decide)⟩

end RingBuffer
end SamdCore
