import SamdCore.RingBufferCopies

/-!
The block functions of the ring buffer against the byte functions.

A block is stored like its bytes one by one as long as it ends before the last
cell of the array, and read like them under the same condition. Where it reaches
the end, the copy is split one cell too early: the last cell is skipped, and head
or tail end up one cell further than the bytes would leave them.
-/
namespace SamdCore
open CircularSegment

namespace RingBuffer
variable {N align : Nat}

/-- The bytes from the tail on, as many as `usedSpace()` says. -/
def queued (r : RingBuffer N align) : List UInt8 := segment N r.buffer r.tailPtr r.usedSpace

/-- `store(c)` for one byte after the other, until all are stored or one is refused. -/
def storeEach (r : RingBuffer N align) : List UInt8 → RingBuffer N align × Nat
  | [] => (r, 0)
  | c :: cs =>
      let stored := r.storeChar c
      if stored.2 = 0 then (stored.1, 0)
      else
        let others := stored.1.storeEach cs
        (others.1, others.2 + 1)

/-- `read_char()` so many times, with the bytes it returns. -/
def readEach (r : RingBuffer N align) : Nat → RingBuffer N align × List UInt8
  | 0 => (r, [])
  | n + 1 =>
      let taken := r.readChar
      let others := taken.1.readEach n
      (others.1, taken.2 :: others.2)

/-- The block is stored as its bytes would be. -/
structure StoresAsBytes (r : RingBuffer N align) (buffer : Nat → UInt8) (len : Nat) : Prop where
  same_ring : (r.storeBuffer buffer len).1 = (r.storeEach (slice buffer 0 len)).1
  same_count : (r.storeBuffer buffer len).2.1 = (r.storeEach (slice buffer 0 len)).2
  count : (r.storeBuffer buffer len).2.1 = min len r.availableSpace
  appended : (r.storeBuffer buffer len).1.queued =
    r.queued ++ slice buffer 0 (min len r.availableSpace)
  used : (r.storeBuffer buffer len).1.usedSpace = r.usedSpace + min len r.availableSpace
  filled : r.availableSpace ≤ len → (r.storeBuffer buffer len).1.isFull = true

/-- The block is read as its bytes would be. -/
structure ReadsAsBytes (r : RingBuffer N align) (buffer : Nat → UInt8) (maxLen : Nat) :
    Prop where
  same_ring : (r.read buffer maxLen).1 = (r.readEach (min maxLen r.usedSpace)).1
  same_bytes : slice (r.read buffer maxLen).2.1 0 (min maxLen r.usedSpace) =
    (r.readEach (min maxLen r.usedSpace)).2
  count : (r.read buffer maxLen).2.2.1 = min maxLen r.usedSpace
  oldest : slice (r.read buffer maxLen).2.1 0 (min maxLen r.usedSpace) =
    r.queued.take (min maxLen r.usedSpace)
  beyond : ∀ i, min maxLen r.usedSpace ≤ i → (r.read buffer maxLen).2.1 i = buffer i
  remaining : (r.read buffer maxLen).1.queued = r.queued.drop (min maxLen r.usedSpace)
  used : (r.read buffer maxLen).1.usedSpace + min maxLen r.usedSpace = r.usedSpace

variable {r : RingBuffer N align} {q : List UInt8}

theorem Holds.queued_eq (h : r.Holds q) (hN : N ≤ 255) : r.queued = q := by
  rw [queued, h.usedSpace_eq hN, h.bytes]

theorem storeEach_spec (h : r.Holds q) (hN : N ≤ 255) (cs : List UInt8) :
    (r.storeEach cs).1.Holds (q ++ cs.take (N - 1 - q.length)) ∧
      (r.storeEach cs).2 = min cs.length (N - 1 - q.length) ∧
      (r.storeEach cs).1.tailPtr = r.tailPtr := by
  induction cs generalizing r q with
  | nil =>
      rw [List.take_nil, List.append_nil]
      exact ⟨h, (Nat.zero_min _).symm, rfl⟩
  | cons c cs ih =>
      rw [storeEach]
      dsimp only
      by_cases room : q.length < N - 1
      · obtain ⟨holds, count, tail⟩ := storeChar_spec h hN room c
        obtain ⟨holds', count', tail'⟩ := ih holds
        have left : N - 1 - q.length = N - 1 - (q ++ [c]).length + 1 := by
          rw [List.length_append, List.length_singleton]
          omega
        rw [count, if_neg Nat.one_ne_zero, left, List.take_succ_cons, List.append_cons]
        refine ⟨holds', ?_, tail'.trans tail⟩
        rw [count', List.length_cons, Nat.add_min_add_right]
      · have full : q.length = N - 1 := by
          have := h.length_lt
          omega
        rw [storeChar_of_full h hN full, if_pos rfl, full, Nat.sub_self, List.take_zero,
          List.append_nil, Nat.min_zero]
        exact ⟨h, rfl, rfl⟩

theorem readEach_eq (h : r.Holds q) {k : Nat} (hk : k ≤ q.length) :
    r.readEach k = ({ r with tailPtr := (r.tailPtr + k) % N }, q.take k) := by
  induction k generalizing r q with
  | zero => rw [Nat.add_zero, Nat.mod_eq_of_lt h.tail_lt]; rfl
  | succ k ih =>
      cases q with
      | nil => exact absurd hk (Nat.not_succ_le_zero k)
      | cons c q =>
          have next : wrap N (r.tailPtr + 1) = (r.tailPtr + 1) % N := wrap_eq_mod h.tail_lt
          have rest := (readChar_spec h).1
          rw [readChar_of_cons h, next] at rest
          rw [readEach, readChar_of_cons h, next]
          dsimp only
          rw [ih rest (Nat.le_of_succ_le_succ hk), List.take_succ_cons, Nat.mod_add_mod,
            Nat.add_assoc, Nat.add_comm 1 k]

/-- Bytes that end before the last cell are stored by one write. -/
theorem storeEach_straight (h : r.Holds q) (hN : N ≤ 255) {cs : List UInt8}
    (straight : r.headPtr + min cs.length (N - 1 - q.length) < N) :
    (r.storeEach cs).1 =
      { r with
        buffer := blit r.buffer r.headPtr (cs.take (N - 1 - q.length))
        headPtr := r.headPtr + min cs.length (N - 1 - q.length) } := by
  induction cs generalizing r q with
  | nil => rw [List.take_nil, blit_nil, List.length_nil, Nat.zero_min]; rfl
  | cons c cs ih =>
      rw [storeEach]
      dsimp only
      by_cases room : q.length < N - 1
      · have holds := (storeChar_spec h hN room c).1
        have left : N - 1 - q.length = N - 1 - (q ++ [c]).length + 1 := by
          rw [List.length_append, List.length_singleton]
          omega
        rw [left, List.length_cons, Nat.add_min_add_right] at straight ⊢
        have next : wrap N (r.headPtr + 1) = r.headPtr + 1 := if_neg (by omega)
        rw [storeChar_of_room h hN room c, next] at holds ⊢
        rw [if_neg Nat.one_ne_zero]
        dsimp only
        rw [ih holds (by dsimp only; omega), List.take_succ_cons]
        dsimp only
        rw [blit_cons, Nat.add_assoc, Nat.add_comm 1]
      · have full : q.length = N - 1 := by
          have := h.length_lt
          omega
        rw [storeChar_of_full h hN full, if_pos rfl, full, Nat.sub_self, List.take_zero,
          blit_nil, Nat.min_zero]
        rfl

theorem storeBuffer_straight (hN : N ≤ 255)
    (buffer : Nat → UInt8) {len : Nat}
    (straight : r.headPtr + min len r.availableSpace < N) :
    (r.storeBuffer buffer len).1 =
        { r with
          buffer := blit r.buffer r.headPtr (slice buffer 0 (min len r.availableSpace))
          headPtr := r.headPtr + min len r.availableSpace } ∧
      (r.storeBuffer buffer len).2.1 = min len r.availableSpace := by
  have before : ¬ r.headPtr + min len r.availableSpace ≥ r.endPtr := Nat.not_le.mpr straight
  simp only [storeBuffer]
  rw [if_neg before]
  refine ⟨rfl, ?_⟩
  dsimp only
  rw [Int.natCast_zero, Int.zero_add]
  exact uint8_eq (by omega)

/-- At the end of the array head goes one cell further than the bytes stored. -/
theorem storeBuffer_headPtr (hN : N ≤ 255) (hhead : r.headPtr < N)
    (buffer : Nat → UInt8) {len : Nat} (room : min len r.availableSpace < N)
    (reaches : N ≤ r.headPtr + min len r.availableSpace) :
    (r.storeBuffer buffer len).1.headPtr + N = r.headPtr + min len r.availableSpace + 1 := by
  have wraps : r.headPtr + min len r.availableSpace ≥ r.endPtr := reaches
  simp only [storeBuffer, prewrap_eq hhead hN]
  rw [if_pos wraps]
  dsimp only
  rw [uint8_sub (by omega) (by omega)]
  omega

theorem storesAsBytes_of_straight (h : r.Holds q) (hN : N ≤ 255) (buffer : Nat → UInt8)
    {len : Nat} (straight : r.headPtr + min len r.availableSpace < N) :
    r.StoresAsBytes buffer len := by
  have room := h.availableSpace_eq hN
  have taken : (slice buffer 0 len).take (N - 1 - q.length) =
      slice buffer 0 (min len r.availableSpace) := by
    rw [take_slice, room, Nat.min_comm]
  obtain ⟨holds, counted, _⟩ := storeEach_spec h hN (slice buffer 0 len)
  obtain ⟨ring, count⟩ := storeBuffer_straight hN buffer straight
  have each : (r.storeBuffer buffer len).1 = (r.storeEach (slice buffer 0 len)).1 := by
    rw [ring, storeEach_straight h hN (by rwa [length_slice, ← room]), taken, length_slice,
      ← room]
  rw [length_slice, ← room] at counted
  rw [← each, taken] at holds
  have used : (r.storeBuffer buffer len).1.usedSpace =
      r.usedSpace + min len r.availableSpace := by
    rw [holds.usedSpace_eq hN, List.length_append, length_slice, h.usedSpace_eq hN]
  have fills : r.availableSpace ≤ len → (r.storeBuffer buffer len).1.isFull = true := by
    intro enough
    rw [holds.isFull_iff hN, List.length_append, length_slice, Nat.min_eq_right enough, room]
    have := h.length_lt
    omega
  exact ⟨each, count.trans counted.symm, count,
    by rw [holds.queued_eq hN, h.queued_eq hN], used, fills⟩

/-- A block is stored as its bytes exactly when it ends before the last cell. -/
theorem storesAsBytes_iff (hN : N ≤ 255) (hhead : r.headPtr < N) (htail : r.tailPtr < N)
    (buffer : Nat → UInt8) (len : Nat) :
    r.StoresAsBytes buffer len ↔ r.headPtr + min len r.availableSpace < N := by
  obtain ⟨q, h⟩ := exists_holds hhead htail
  have room := h.availableSpace_eq hN
  constructor
  · intro stores
    by_contra reaches
    obtain ⟨inside, tail, _⟩ := storeBuffer_confined h hN buffer len
    have head := storeBuffer_headPtr hN hhead buffer (by omega) (Nat.le_of_not_lt reaches)
    obtain ⟨q', h'⟩ := exists_holds inside (tail ▸ htail)
    have used := stores.used
    rw [h'.usedSpace_eq hN, h.usedSpace_eq hN] at used
    have before := h.head_cases
    have after := h'.head_cases
    rw [tail] at after
    omega
  · exact storesAsBytes_of_straight h hN buffer

/-- A ring that two bytes have gone through, so that both pointers stand at offset 2. -/
def halfway : RingBuffer 4 0 :=
  (((construct 4 0 (fun _ => 0) fun _ => 0).storeEach [0x61, 0x62]).1.readEach 2).1

/-- The bytes 0, 1, 2 and so on. -/
def counting (i : Nat) : UInt8 := UInt8.ofNat i

/-- A ring that four bytes have gone into and two out of. -/
def underWay : RingBuffer 8 0 :=
  (((construct 8 0 (fun _ => 0) fun _ => 0).storeEach [0x61, 0x62, 0x63, 0x64]).1.readEach 2).1

theorem storesAsBytes_iff_underWay : underWay.StoresAsBytes counting 3 :=
  (storesAsBytes_iff (by decide) (by decide) (by decide) counting 3).mpr (by decide)

/-- Three bytes fill the ring, and the block function leaves it empty. -/
theorem filled_ring_empty :
    (halfway.storeBuffer counting 3).2.1 = 3 ∧
      (halfway.storeBuffer counting 3).1.isEmpty = true ∧
      (halfway.storeEach [0, 1, 2]).1.isFull = true ∧ ¬ halfway.StoresAsBytes counting 3 := by
  refine ⟨by decide, by decide, by decide, ?_⟩
  intro stores
  exact absurd stores.used (by decide)

theorem read_straight (hN : N ≤ 255) (buffer : Nat → UInt8) {maxLen : Nat}
    (straight : r.tailPtr + min maxLen r.usedSpace < N) :
    (r.read buffer maxLen).1 =
        { r with tailPtr := r.tailPtr + min maxLen r.usedSpace } ∧
      (r.read buffer maxLen).2.1 =
        blit buffer 0 (slice r.buffer r.tailPtr (min maxLen r.usedSpace)) ∧
      (r.read buffer maxLen).2.2.1 = min maxLen r.usedSpace := by
  have before : ¬ r.tailPtr + min maxLen r.usedSpace ≥ r.endPtr := Nat.not_le.mpr straight
  simp only [read]
  rw [if_neg before]
  refine ⟨rfl, rfl, ?_⟩
  dsimp only
  rw [Int.natCast_zero, Int.zero_add]
  exact uint8_eq (by omega)

/-- At the end of the array the tail goes one cell further than the bytes read. -/
theorem read_tailPtr (hN : N ≤ 255) (htail : r.tailPtr < N) (buffer : Nat → UInt8)
    {maxLen : Nat} (kept : min maxLen r.usedSpace < N)
    (reaches : N ≤ r.tailPtr + min maxLen r.usedSpace) :
    (r.read buffer maxLen).1.tailPtr + N = r.tailPtr + min maxLen r.usedSpace + 1 := by
  have wraps : r.tailPtr + min maxLen r.usedSpace ≥ r.endPtr := reaches
  simp only [read, prewrap_eq htail hN]
  rw [if_pos wraps]
  dsimp only
  rw [uint8_sub (by omega) (by omega)]
  omega

theorem readsAsBytes_of_straight (h : r.Holds q) (hN : N ≤ 255) (buffer : Nat → UInt8)
    {maxLen : Nat} (straight : r.tailPtr + min maxLen r.usedSpace < N) :
    r.ReadsAsBytes buffer maxLen := by
  have kept : min maxLen r.usedSpace ≤ q.length := by
    rw [h.usedSpace_eq hN]
    exact Nat.min_le_right maxLen q.length
  have each := readEach_eq h kept
  obtain ⟨ring, bytes, count⟩ := read_straight hN buffer straight
  rw [Nat.mod_eq_of_lt straight] at each
  have holds : (r.read buffer maxLen).1.Holds (q.drop (min maxLen r.usedSpace)) := by
    rw [ring]
    exact h.advance kept rfl rfl (Nat.mod_eq_of_lt straight).symm
  rw [h.slice_tail kept (Nat.le_of_lt straight)] at bytes
  have length : (q.take (min maxLen r.usedSpace)).length = min maxLen r.usedSpace :=
    List.length_take_of_le kept
  have oldest : slice (r.read buffer maxLen).2.1 0 (min maxLen r.usedSpace) =
      q.take (min maxLen r.usedSpace) := by
    have stored := slice_blit buffer 0 (q.take (min maxLen r.usedSpace))
    rwa [length, ← bytes] at stored
  have beyond : ∀ i, min maxLen r.usedSpace ≤ i →
      (r.read buffer maxLen).2.1 i = buffer i := by
    intro i above
    rw [bytes]
    exact blit_outside buffer 0 _ (Or.inr (by rwa [length, Nat.zero_add]))
  have used : (r.read buffer maxLen).1.usedSpace + min maxLen r.usedSpace = r.usedSpace := by
    rw [holds.usedSpace_eq hN, List.length_drop, Nat.sub_add_cancel kept, h.usedSpace_eq hN]
  refine ⟨?_, ?_, count, ?_, beyond, ?_, used⟩
  · rw [ring, each]
  · rw [oldest, each]
  · rw [oldest, h.queued_eq hN]
  · rw [holds.queued_eq hN, h.queued_eq hN]

/-- A block is read as its bytes exactly when it ends before the last cell. -/
theorem readsAsBytes_iff (hN : N ≤ 255) (hhead : r.headPtr < N) (htail : r.tailPtr < N)
    (buffer : Nat → UInt8) (maxLen : Nat) :
    r.ReadsAsBytes buffer maxLen ↔ r.tailPtr + min maxLen r.usedSpace < N := by
  obtain ⟨q, h⟩ := exists_holds hhead htail
  have space := h.usedSpace_eq hN
  constructor
  · intro reads
    by_contra reaches
    obtain ⟨inside, head, _⟩ := read_confined h hN buffer maxLen
    have short := h.length_lt
    have tail := read_tailPtr hN htail buffer (by omega) (Nat.le_of_not_lt reaches)
    obtain ⟨q', h'⟩ := exists_holds (head ▸ hhead) inside
    have used := reads.used
    rw [h'.usedSpace_eq hN, space] at used
    have before := h.head_cases
    have after := h'.head_cases
    rw [head] at after
    omega
  · exact readsAsBytes_of_straight h hN buffer

theorem readsAsBytes_iff_underWay :
    (underWay.storeEach [0x65, 0x66]).1.ReadsAsBytes counting 3 :=
  (readsAsBytes_iff (by decide) (by decide) (by decide) counting 3).mpr (by decide)

/-- Two bytes queued in the last cells are read as one of them and one that is not
queued, and the emptied ring looks full. -/
theorem emptied_ring_full :
    slice ((halfway.storeEach [0x63, 0x64]).1.read counting 2).2.1 0 2 = [0x63, 0x61] ∧
      ((halfway.storeEach [0x63, 0x64]).1.read counting 2).1.isFull = true ∧
      ((halfway.storeEach [0x63, 0x64]).1.readEach 2).2 = [0x63, 0x64] ∧
      ¬ (halfway.storeEach [0x63, 0x64]).1.ReadsAsBytes counting 2 := by
  refine ⟨by decide, by decide, by decide, ?_⟩
  intro reads
  exact absurd reads.used (by decide)

end RingBuffer
end SamdCore
