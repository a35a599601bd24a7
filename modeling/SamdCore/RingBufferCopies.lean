import SamdCore.RingBufferContents

/-!
The block functions of the ring buffer: what they copy stays inside both arrays,
and both pointers stay inside the ring, whatever it holds.

At the end of the array they copy up to one cell before it and go on at the
start, so nothing is said here about which bytes the ring holds afterwards.
-/
namespace SamdCore
open CircularSegment

/-- A copy inside a ring of `N` bytes and inside the array at its other end. -/
structure Memcpy.Confined (N : Nat) (c : Memcpy) : Prop where
  ring : c.ringOffset + c.length ≤ N
  other : c.otherOffset + c.length ≤ c.otherSize

namespace RingBuffer
variable {N align : Nat} {r : RingBuffer N align} {q : List UInt8}

theorem uint8_sub {a b : Nat} (h : b ≤ a) (ha : a < 256) : uint8 ((a : Int) - b) = a - b := by
  rw [show (a : Int) - b = (a - b : Nat) by omega]
  exact uint8_eq (by omega)

theorem prewrap_eq {p : Nat} (hp : p < N) (hN : N ≤ 255) :
    uint8 ((r.endPtr : Int) - 1 - p) = N - 1 - p := by
  rw [endPtr, show (N : Int) - 1 - p = (N - 1 - p : Nat) by omega]
  exact uint8_eq (by omega)

theorem straight_confined {p maxLen len : Nat} (fits : p + maxLen < N) (short : maxLen ≤ len) :
    ∀ c ∈ [(⟨p, 0, len, maxLen⟩ : Memcpy)], c.Confined N := by
  rw [List.forall_mem_singleton]
  refine ⟨Nat.le_of_lt fits, ?_⟩
  rwa [Nat.zero_add]

/-- The two halves of a copy that is split before the last cell. -/
theorem split_confined {p maxLen len : Nat} (inside : p < N) (wraps : N ≤ p + maxLen)
    (room : maxLen < N) (short : maxLen ≤ len) :
    ∀ c ∈ [(⟨p, 0, len, N - 1 - p⟩ : Memcpy), ⟨0, N - 1 - p, len, maxLen - (N - 1 - p)⟩],
      c.Confined N := by
  rw [List.forall_mem_cons, List.forall_mem_singleton]
  exact ⟨⟨by dsimp only; omega, by dsimp only; omega⟩,
    ⟨by dsimp only; omega, by dsimp only; omega⟩⟩

theorem storeBuffer_confined (h : r.Holds q) (hN : N ≤ 255) (data : Nat → UInt8) (len : Nat) :
    (r.storeBuffer data len).1.headPtr < N ∧
      (r.storeBuffer data len).1.tailPtr = r.tailPtr ∧
      ∀ c ∈ (r.storeBuffer data len).2.2, c.Confined N := by
  have hh := h.head_lt
  have hl := h.length_lt
  have hmax : min len r.availableSpace ≤ len ∧ min len r.availableSpace ≤ N - 1 := by
    rw [h.availableSpace_eq hN]
    omega
  simp only [storeBuffer, prewrap_eq hh hN]
  generalize min len r.availableSpace = maxLen at hmax
  by_cases hwrap : r.headPtr + maxLen ≥ r.endPtr
  · have hend : N ≤ r.headPtr + maxLen := hwrap
    rw [if_pos hwrap]
    dsimp only
    rw [uint8_sub (by omega) (by omega)]
    exact ⟨by omega, rfl, split_confined hh hend (by omega) hmax.1⟩
  · have hend : r.headPtr + maxLen < N := Nat.lt_of_not_le hwrap
    rw [if_neg hwrap]
    exact ⟨hend, rfl, straight_confined hend hmax.1⟩

theorem read_confined (h : r.Holds q) (hN : N ≤ 255) (data : Nat → UInt8) (maxLen : Nat) :
    (r.read data maxLen).1.tailPtr < N ∧
      (r.read data maxLen).1.headPtr = r.headPtr ∧
      ∀ c ∈ (r.read data maxLen).2.2.2, c.Confined N := by
  have ht := h.tail_lt
  have hl := h.length_lt
  have hmax : min maxLen r.usedSpace ≤ maxLen ∧ min maxLen r.usedSpace ≤ N - 1 := by
    rw [h.usedSpace_eq hN]
    omega
  simp only [read, prewrap_eq ht hN]
  generalize min maxLen r.usedSpace = totalLen at hmax
  by_cases hwrap : r.tailPtr + totalLen ≥ r.endPtr
  · have hend : N ≤ r.tailPtr + totalLen := hwrap
    rw [if_pos hwrap]
    dsimp only
    rw [uint8_sub (by omega) (by omega)]
    exact ⟨by omega, rfl, split_confined ht hend (by omega) hmax.1⟩
  · have hend : r.tailPtr + totalLen < N := Nat.lt_of_not_le hwrap
    rw [if_neg hwrap]
    exact ⟨hend, rfl, straight_confined hend hmax.1⟩

/-- The one copy of `completeDirectWrite` is out of the bounce buffer of 8 bytes. -/
theorem completeDirectWrite_confined {len : Nat} (straight : r.headPtr + len ≤ N)
    (bounce : r.bounced → len ≤ 8) : ∀ c ∈ (r.completeDirectWrite len).2, c.Confined N := by
  simp only [completeDirectWrite]
  by_cases hb : r.bounced
  · rw [if_pos hb, List.forall_mem_singleton]
    exact ⟨straight, by have := bounce hb; dsimp only; omega⟩
  · rw [if_neg hb]
    simp

end RingBuffer
end SamdCore
