import SamdCore.RingBufferModel

/-!
What a ring buffer holds: the bytes from the tail to the head, oldest first.

`Holds` ties the pointers and the array to that list. Every operation that moves
a pointer is one of three: bytes are put behind the queue, bytes are taken from
its front, or memory outside the queue changes. The specification of each
function of the source is one of these three rules at its own values.
-/
namespace SamdCore
open CircularSegment

theorem int16_eq {x : Int} (h₀ : -32768 ≤ x) (h₁ : x < 32768) : int16 x = x :=
  Int.bmod_eq_of_le (by omega) (by omega)

theorem uint8_eq {x : Nat} (h : x < 256) : uint8 x = x := by
  rw [uint8]
  omega

namespace RingBuffer
variable {N align : Nat} {r r' : RingBuffer N align} {q : List UInt8}

structure Holds (r : RingBuffer N align) (q : List UInt8) : Prop where
  tail_lt : r.tailPtr < N
  length_lt : q.length < N
  head_eq : r.headPtr = (r.tailPtr + q.length) % N
  bytes : segment N r.buffer r.tailPtr q.length = q

theorem Holds.head_lt (h : r.Holds q) : r.headPtr < N := by
  rw [h.head_eq]
  exact Nat.mod_lt _ (Nat.zero_lt_of_lt h.tail_lt)

theorem Holds.head_cases (h : r.Holds q) :
    (r.tailPtr + q.length < N ∧ r.headPtr = r.tailPtr + q.length) ∨
      (N ≤ r.tailPtr + q.length ∧ r.headPtr + N = r.tailPtr + q.length) := by
  have ht := h.tail_lt
  have hl := h.length_lt
  by_cases hw : r.tailPtr + q.length < N
  · exact Or.inl ⟨hw, by rw [h.head_eq, Nat.mod_eq_of_lt hw]⟩
  · refine Or.inr ⟨by omega, ?_⟩
    rw [h.head_eq, Nat.mod_eq_sub_mod (by omega), Nat.mod_eq_of_lt (by omega)]
    omega

/-- Pointers inside the array are enough for the ring to hold something. -/
theorem exists_holds (hhead : r.headPtr < N) (htail : r.tailPtr < N) : ∃ q, r.Holds q := by
  by_cases h : r.tailPtr ≤ r.headPtr
  · refine ⟨segment N r.buffer r.tailPtr (r.headPtr - r.tailPtr), htail, ?_, ?_, ?_⟩
    · rw [length_segment]; omega
    · rw [length_segment, Nat.add_sub_cancel' h, Nat.mod_eq_of_lt hhead]
    · rw [length_segment]
  · refine ⟨segment N r.buffer r.tailPtr (r.headPtr + N - r.tailPtr), htail, ?_, ?_, ?_⟩
    · rw [length_segment]; omega
    · rw [length_segment, Nat.add_sub_cancel' (by omega), Nat.add_mod_right,
        Nat.mod_eq_of_lt hhead]
    · rw [length_segment]

theorem Holds.usedSpace_eq (h : r.Holds q) (hN : N ≤ 255) : r.usedSpace = q.length := by
  have ht := h.tail_lt
  have hl := h.length_lt
  have hh := h.head_lt
  simp only [usedSpace]
  rw [int16_eq (by omega) (by omega)]
  rcases h.head_cases with ⟨_, hc⟩ | ⟨_, hc⟩
  · rw [if_neg (by omega), Int.emod_eq_of_lt (by omega) (by omega), hc]
    rw [show ((r.tailPtr + q.length : Nat) : Int) - r.tailPtr = (q.length : Nat) by omega]
    exact uint8_eq (by omega)
  · rw [if_pos (by omega), int16_eq (by omega) (by omega),
      Int.emod_eq_of_lt (by omega) (by omega)]
    rw [show (N : Int) + ((r.headPtr : Int) - r.tailPtr) = (q.length : Nat) by omega]
    exact uint8_eq (by omega)

theorem Holds.availableSpace_eq (h : r.Holds q) (hN : N ≤ 255) :
    r.availableSpace = N - 1 - q.length := by
  have hl := h.length_lt
  rw [availableSpace, h.usedSpace_eq hN,
    show (N : Int) - q.length - 1 = (N - 1 - q.length : Nat) by omega]
  exact uint8_eq (by omega)

theorem Holds.isFull_iff (h : r.Holds q) (hN : N ≤ 255) :
    r.isFull = true ↔ q.length = N - 1 := by
  have hl := h.length_lt
  rw [isFull, beq_iff_eq, h.availableSpace_eq hN]
  omega

theorem Holds.isEmpty_iff (h : r.Holds q) : r.isEmpty = true ↔ q = [] := by
  have ht := h.tail_lt
  have hl := h.length_lt
  have hc := h.head_cases
  rw [isEmpty, beq_iff_eq, ← List.length_eq_zero_iff]
  omega

/-- The queue at the front of the array, as a transfer that starts at the tail reads it. -/
theorem Holds.slice_tail (h : r.Holds q) {L : Nat} (hL : L ≤ q.length)
    (straight : r.tailPtr + L ≤ N) : slice r.buffer r.tailPtr L = q.take L := by
  rw [← segment_eq_slice _ straight, ← take_segment N r.buffer r.tailPtr hL, h.bytes]

theorem Holds.push (h : r.Holds q) (xs : List UInt8) (fits : q.length + xs.length < N)
    (straight : r.headPtr + xs.length ≤ N)
    (stored : slice r'.buffer r.headPtr xs.length = xs)
    (frame : ∀ p, p < r.headPtr ∨ r.headPtr + xs.length ≤ p → r'.buffer p = r.buffer p)
    (head : r'.headPtr = wrap N (r.headPtr + xs.length)) (tail : r'.tailPtr = r.tailPtr) :
    r'.Holds (q ++ xs) := by
  refine ⟨tail ▸ h.tail_lt, by rwa [List.length_append], ?_, ?_⟩
  · rw [head, tail, wrap_eq_mod straight, h.head_eq, Nat.mod_add_mod, List.length_append,
      Nat.add_assoc]
  · rw [h.head_eq] at straight stored frame
    rw [tail, List.length_append, segment_append,
      segment_frame (Nat.le_of_lt fits) frame straight, h.bytes,
      segment_eq_slice _ straight, stored]

/-- Moving the tail over bytes of the queue takes them from its front. -/
theorem Holds.advance (h : r.Holds q) {k : Nat} (hk : k ≤ q.length)
    (buffer : r'.buffer = r.buffer) (head : r'.headPtr = r.headPtr)
    (tail : r'.tailPtr = (r.tailPtr + k) % N) : r'.Holds (q.drop k) := by
  have hl := h.length_lt
  refine ⟨?_, ?_, ?_, ?_⟩
  · rw [tail]
    exact Nat.mod_lt _ (Nat.zero_lt_of_lt hl)
  · rw [List.length_drop]
    omega
  · rw [head, tail, h.head_eq, Nat.mod_add_mod, List.length_drop, Nat.add_assoc,
      Nat.add_sub_cancel' hk]
  · rw [buffer, tail, List.length_drop, ← drop_segment _ _ _ hk, h.bytes]

theorem Holds.pop {xs : List UInt8} (h : r.Holds (xs ++ q))
    (straight : r.tailPtr + xs.length ≤ N) (buffer : r'.buffer = r.buffer)
    (head : r'.headPtr = r.headPtr) (tail : r'.tailPtr = wrap N (r.tailPtr + xs.length)) :
    r'.Holds q := by
  have front : xs.length ≤ (xs ++ q).length := by
    rw [List.length_append]
    exact Nat.le_add_right xs.length q.length
  rw [wrap_eq_mod straight] at tail
  simpa only [List.drop_left] using h.advance front buffer head tail

/-- Writes to the free cells behind the queue leave it alone. -/
theorem Holds.frame (h : r.Holds q) {k : Nat} (fits : q.length + k ≤ N)
    (straight : r.headPtr + k ≤ N)
    (agree : ∀ p, p < r.headPtr ∨ r.headPtr + k ≤ p → r'.buffer p = r.buffer p)
    (head : r'.headPtr = r.headPtr) (tail : r'.tailPtr = r.tailPtr) : r'.Holds q := by
  refine ⟨tail ▸ h.tail_lt, h.length_lt, by rw [head, tail, h.head_eq], ?_⟩
  rw [h.head_eq] at straight agree
  rw [tail, segment_frame fits agree straight, h.bytes]

theorem holds_clear (hN : 0 < N) (r : RingBuffer N align) : r.clear.Holds [] :=
  ⟨hN, hN, by simp [clear], rfl⟩

theorem storeChar_of_full (h : r.Holds q) (hN : N ≤ 255) (full : q.length = N - 1)
    (c : UInt8) : r.storeChar c = (r, 0) := by
  rw [storeChar, if_pos ((h.isFull_iff hN).mpr full)]

theorem storeChar_of_room (h : r.Holds q) (hN : N ≤ 255) (room : q.length < N - 1)
    (c : UInt8) : r.storeChar c =
      ({ r with
        buffer := blit r.buffer r.headPtr [c]
        headPtr := wrap N (r.headPtr + 1) }, 1) := by
  have hf : ¬ r.isFull = true := by
    rw [h.isFull_iff hN]
    exact Nat.ne_of_lt room
  rw [storeChar, if_neg hf]
  rfl

theorem storeChar_spec (h : r.Holds q) (hN : N ≤ 255) (room : q.length < N - 1) (c : UInt8) :
    (r.storeChar c).1.Holds (q ++ [c]) ∧ (r.storeChar c).2 = 1 ∧
      (r.storeChar c).1.tailPtr = r.tailPtr := by
  have hh := h.head_lt
  rw [storeChar_of_room h hN room]
  refine ⟨?_, rfl, rfl⟩
  apply h.push [c]
  · rw [List.length_singleton]; omega
  · rw [List.length_singleton]; omega
  · exact slice_blit _ _ [c]
  · exact fun p hp => blit_outside _ _ [c] hp
  · rfl
  · rfl

theorem readChar_of_empty (h : r.Holds []) : r.readChar = (r, 0) := by
  rw [readChar, if_pos (h.isEmpty_iff.mpr rfl)]

theorem readChar_of_cons {c : UInt8} (h : r.Holds (c :: q)) :
    r.readChar = ({ r with tailPtr := wrap N (r.tailPtr + 1) }, c) := by
  have he : ¬ r.isEmpty = true := fun he => List.cons_ne_nil _ _ (h.isEmpty_iff.mp he)
  have ht := h.tail_lt
  have hfirst : slice r.buffer r.tailPtr 1 = [c] := h.slice_tail (by simp) (by omega)
  have taken : r.buffer r.tailPtr = c := by simpa [slice] using hfirst
  rw [readChar, if_neg he, taken]
  rfl

theorem readChar_spec {c : UInt8} (h : r.Holds (c :: q)) :
    r.readChar.1.Holds q ∧ r.readChar.2 = c := by
  rw [readChar_of_cons h]
  refine ⟨?_, rfl⟩
  refine Holds.pop (show r.Holds ([c] ++ q) from h) ?_ rfl rfl rfl
  rw [List.length_singleton]
  exact h.tail_lt

end RingBuffer
end SamdCore
