import SamdCore.RingBufferInterface

/-!
What the block functions do at the end of the array.

A block that reaches the end is copied up to the last cell but one and goes on in
the first. The last cell keeps what it held: a store puts that stale byte into
the queue, and a read leaves a queued byte out. Head and tail end up one cell
further, so a ring filled to the last byte is empty, and one read to the last
byte is full.
-/
namespace SamdCore
open CircularSegment

namespace RingBuffer
variable {N align : Nat}

/-- The effect of a block store, however it ends. -/
structure StoreEffect (r : RingBuffer N align) (data : Nat → UInt8) (len : Nat) : Prop where
  count : (r.storeBuffer data len).2.1 = min len r.availableSpace
  straight : r.headPtr + min len r.availableSpace < N →
    (r.storeBuffer data len).1.queued = r.queued ++ slice data 0 (min len r.availableSpace)
  inserted : N ≤ r.headPtr + min len r.availableSpace →
    min len r.availableSpace < r.availableSpace →
    (r.storeBuffer data len).1.queued =
      r.queued ++ (slice data 0 (N - 1 - r.headPtr) ++ [r.buffer (N - 1)]) ++
        slice data (N - 1 - r.headPtr) (min len r.availableSpace - (N - 1 - r.headPtr))
  emptied : N ≤ r.headPtr + min len r.availableSpace →
    min len r.availableSpace = r.availableSpace → (r.storeBuffer data len).1.queued = []

/-- The effect of a block read, however it ends. -/
structure ReadEffect (r : RingBuffer N align) (buffer : Nat → UInt8) (maxLen : Nat) : Prop where
  count : (r.read buffer maxLen).2.2.1 = min maxLen r.usedSpace
  beyond : ∀ i, min maxLen r.usedSpace ≤ i → (r.read buffer maxLen).2.1 i = buffer i
  straight : r.tailPtr + min maxLen r.usedSpace < N →
    slice (r.read buffer maxLen).2.1 0 (min maxLen r.usedSpace) =
        r.queued.take (min maxLen r.usedSpace) ∧
      (r.read buffer maxLen).1.queued = r.queued.drop (min maxLen r.usedSpace)
  skipped : N ≤ r.tailPtr + min maxLen r.usedSpace →
    slice (r.read buffer maxLen).2.1 0 (min maxLen r.usedSpace) =
      (r.queued.eraseIdx (N - 1 - r.tailPtr) ++ [r.buffer r.headPtr]).take
        (min maxLen r.usedSpace)
  remaining : N ≤ r.tailPtr + min maxLen r.usedSpace →
    min maxLen r.usedSpace < r.usedSpace →
    (r.read buffer maxLen).1.queued = r.queued.drop (min maxLen r.usedSpace + 1)
  refilled : N ≤ r.tailPtr + min maxLen r.usedSpace → min maxLen r.usedSpace = r.usedSpace →
    (r.read buffer maxLen).1.queued = segment N r.buffer (r.headPtr + 1) (N - 1)

variable {r : RingBuffer N align} {q : List UInt8}

/-- A store that reaches the end, as its two copies. -/
theorem storeBuffer_split (hN : N ≤ 255) (hhead : r.headPtr < N) (data : Nat → UInt8)
    {len : Nat} (room : min len r.availableSpace < N)
    (reaches : N ≤ r.headPtr + min len r.availableSpace) :
    (r.storeBuffer data len).1 =
        { r with
          buffer := blit (blit r.buffer r.headPtr (slice data 0 (N - 1 - r.headPtr))) 0
            (slice data (N - 1 - r.headPtr)
              (min len r.availableSpace - (N - 1 - r.headPtr)))
          headPtr := min len r.availableSpace - (N - 1 - r.headPtr) } ∧
      (r.storeBuffer data len).2.1 = min len r.availableSpace := by
  have wraps : r.headPtr + min len r.availableSpace ≥ r.endPtr := reaches
  simp only [storeBuffer, prewrap_eq hhead hN]
  rw [if_pos wraps]
  dsimp only
  rw [uint8_sub (by omega) (by omega)]
  constructor
  · rw [Nat.zero_add]
    rfl
  · rw [show ((N - 1 - r.headPtr : Nat) : Int) +
      ((min len r.availableSpace - (N - 1 - r.headPtr) : Nat) : Int) =
        (min len r.availableSpace : Nat) by omega]
    exact uint8_eq (by omega)

/-- Bytes pushed up to the last cell but one, with the head behind the last. -/
theorem Holds.pushLast (h : r.Holds q) (bytes : List UInt8)
    (fits : q.length + (bytes.length + 1) < N) (ends : r.headPtr + (bytes.length + 1) = N) :
    Holds ({ r with buffer := blit r.buffer r.headPtr bytes, headPtr := 0 } : RingBuffer N align)
      (q ++ (bytes ++ [r.buffer (N - 1)])) := by
  have length : (bytes ++ [r.buffer (N - 1)]).length = bytes.length + 1 :=
    List.length_append
  have last : r.headPtr + bytes.length = N - 1 := by omega
  have stale : blit r.buffer r.headPtr bytes (N - 1) = r.buffer (N - 1) :=
    blit_outside _ _ _ (Or.inr (Nat.le_of_eq last))
  apply h.push
  · rwa [length]
  · rw [length, ends]
  · rw [length, slice_append, slice_blit, last, slice, List.range_one, List.map_singleton,
      Nat.add_zero]
    dsimp only
    rw [stale]
  · intro p outside
    rw [length] at outside
    exact blit_outside _ _ _ (by omega)
  · rw [length, ends]
    exact (if_pos (Nat.le_refl N)).symm
  · rfl

theorem storeBuffer_inserts (h : r.Holds q) (hN : N ≤ 255) (data : Nat → UInt8) {len : Nat}
    (reaches : N ≤ r.headPtr + min len r.availableSpace)
    (left : min len r.availableSpace < r.availableSpace) :
    (r.storeBuffer data len).1.Holds
      (q ++ (slice data 0 (N - 1 - r.headPtr) ++ [r.buffer (N - 1)]) ++
        slice data (N - 1 - r.headPtr) (min len r.availableSpace - (N - 1 - r.headPtr))) := by
  have hhead := h.head_lt
  have short := h.length_lt
  have space := h.availableSpace_eq hN
  rw [(storeBuffer_split hN hhead data (by omega) reaches).1]
  generalize min len r.availableSpace = n at reaches left
  have prefixLength : (slice data 0 (N - 1 - r.headPtr)).length = N - 1 - r.headPtr :=
    length_slice data 0 _
  have restLength : (slice data (N - 1 - r.headPtr) (n - (N - 1 - r.headPtr))).length =
      n - (N - 1 - r.headPtr) := length_slice data _ _
  have first := h.pushLast (slice data 0 (N - 1 - r.headPtr)) (by omega) (by omega)
  apply first.push
  · rw [List.length_append, List.length_append, List.length_singleton, prefixLength, restLength]
    omega
  · rw [restLength]
    dsimp only
    omega
  · exact slice_blit _ 0 _
  · exact fun p outside => blit_outside _ 0 _ outside
  · rw [restLength, Nat.zero_add]
    exact (if_neg (by omega)).symm
  · rfl

/-- A block that fills the ring leaves the head on the tail. -/
theorem storeBuffer_empties (h : r.Holds q) (hN : N ≤ 255) (data : Nat → UInt8) {len : Nat}
    (reaches : N ≤ r.headPtr + min len r.availableSpace)
    (fills : min len r.availableSpace = r.availableSpace) :
    (r.storeBuffer data len).1.Holds [] := by
  have hhead := h.head_lt
  have short := h.length_lt
  have tail := h.tail_lt
  have before := h.head_cases
  rw [(storeBuffer_split hN hhead data (by rw [fills, h.availableSpace_eq hN]; omega) reaches).1]
  rw [fills, h.availableSpace_eq hN] at reaches ⊢
  refine ⟨tail, Nat.zero_lt_of_lt tail, ?_, rfl⟩
  dsimp only [List.length_nil]
  rw [Nat.add_zero, Nat.mod_eq_of_lt tail]
  omega

/-- What a block store does, in every state of the ring. -/
theorem storeBuffer_effect (hN : N ≤ 255) (hhead : r.headPtr < N) (htail : r.tailPtr < N)
    (data : Nat → UInt8) (len : Nat) : r.StoreEffect data len := by
  obtain ⟨q, h⟩ := exists_holds hhead htail
  have short := h.length_lt
  have room : min len r.availableSpace < N := by
    rw [h.availableSpace_eq hN]
    omega
  refine ⟨?_, ?_, ?_, ?_⟩
  · by_cases reaches : N ≤ r.headPtr + min len r.availableSpace
    · exact (storeBuffer_split hN hhead data room reaches).2
    · exact (storeBuffer_spec h hN data (Nat.lt_of_not_le reaches)).2.1
  · intro straight
    rw [(storeBuffer_spec h hN data straight).1.queued_eq hN, h.queued_eq hN]
  · intro reaches left
    rw [(storeBuffer_inserts h hN data reaches left).queued_eq hN, h.queued_eq hN]
  · intro reaches fills
    rw [(storeBuffer_empties h hN data reaches fills).queued_eq hN]

/-- Two bytes at the last two cells: the second goes to the first cell instead. -/
theorem storeBuffer_effect_halfway : halfway.StoreEffect counting 2 :=
  storeBuffer_effect (by decide) (by decide) (by decide) counting 2

/-- A read that reaches the end, as its two copies. -/
theorem read_split (hN : N ≤ 255) (htail : r.tailPtr < N) (buffer : Nat → UInt8) {maxLen : Nat}
    (kept : min maxLen r.usedSpace < N) (reaches : N ≤ r.tailPtr + min maxLen r.usedSpace) :
    (r.read buffer maxLen).1 =
        { r with tailPtr := min maxLen r.usedSpace - (N - 1 - r.tailPtr) } ∧
      (r.read buffer maxLen).2.1 =
        blit (blit buffer 0 (slice r.buffer r.tailPtr (N - 1 - r.tailPtr))) (N - 1 - r.tailPtr)
          (slice r.buffer 0 (min maxLen r.usedSpace - (N - 1 - r.tailPtr))) ∧
      (r.read buffer maxLen).2.2.1 = min maxLen r.usedSpace := by
  have wraps : r.tailPtr + min maxLen r.usedSpace ≥ r.endPtr := reaches
  simp only [read, prewrap_eq htail hN]
  rw [if_pos wraps]
  dsimp only
  rw [uint8_sub (by omega) (by omega)]
  refine ⟨?_, rfl, ?_⟩
  · rw [Nat.zero_add]
  · rw [show ((N - 1 - r.tailPtr : Nat) : Int) +
      ((min maxLen r.usedSpace - (N - 1 - r.tailPtr) : Nat) : Int) =
        (min maxLen r.usedSpace : Nat) by omega]
    exact uint8_eq (by omega)

/-- Two copies behind each other fill the start of an array. -/
theorem slice_blit_blit (mem : Nat → UInt8) (xs ys : List UInt8) :
    slice (blit (blit mem 0 xs) xs.length ys) 0 (xs.length + ys.length) = xs ++ ys := by
  have front : slice (blit (blit mem 0 xs) xs.length ys) 0 xs.length =
      slice (blit mem 0 xs) 0 xs.length := by
    apply slice_congr
    intro p _ before
    exact blit_outside _ _ _ (Or.inl (by omega))
  rw [slice_append, front, slice_blit, Nat.zero_add, slice_blit]

/-- The cells of the queue and the free one behind it, without the last cell of the
array, are what is copied around the end. -/
theorem Holds.copied_around (h : r.Holds q) {n : Nat} (hn : n ≤ q.length)
    (reaches : N ≤ r.tailPtr + n) :
    slice r.buffer r.tailPtr (N - 1 - r.tailPtr) ++
        slice r.buffer 0 (n - (N - 1 - r.tailPtr)) =
      (q.eraseIdx (N - 1 - r.tailPtr) ++ [r.buffer r.headPtr]).take n := by
  have htail := h.tail_lt
  have short := h.length_lt
  have free : segment N r.buffer r.headPtr 1 = [r.buffer r.headPtr] := by
    rw [CircularSegment.segment, List.range_one, List.map_singleton, Nat.add_zero,
      Nat.mod_eq_of_lt h.head_lt]
  have all : segment N r.buffer r.tailPtr (q.length + 1) = q ++ [r.buffer r.headPtr] := by
    rw [segment_append, h.bytes, ← h.head_eq, free]
  have start : (r.tailPtr + (N - 1 - r.tailPtr + 1)) % N = 0 := by
    rw [show r.tailPtr + (N - 1 - r.tailPtr + 1) = N by omega, Nat.mod_self]
  have behind : slice r.buffer 0 (n - (N - 1 - r.tailPtr)) =
      ((q ++ [r.buffer r.headPtr]).drop (N - 1 - r.tailPtr + 1)).take
        (n - (N - 1 - r.tailPtr)) := by
    rw [← all, drop_segment N r.buffer r.tailPtr (by omega), start,
      take_segment N r.buffer 0 (by omega), segment_eq_slice _ (by omega)]
  have inside : N - 1 - r.tailPtr < q.length := by omega
  have before : (q.take (N - 1 - r.tailPtr)).length = N - 1 - r.tailPtr :=
    List.length_take_of_le (Nat.le_of_lt inside)
  have split (ys : List UInt8) : (q.take (N - 1 - r.tailPtr) ++ ys).take n =
      q.take (N - 1 - r.tailPtr) ++ ys.take (n - (N - 1 - r.tailPtr)) := by
    have whole : (q.take (N - 1 - r.tailPtr)).length ≤ n := by omega
    rw [List.take_append, List.take_of_length_le whole, before]
  rw [h.slice_tail (Nat.le_of_lt inside) (by omega), behind,
    List.drop_append_of_le_length inside, List.eraseIdx_eq_take_drop_succ, List.append_assoc,
    split]

theorem read_skips (h : r.Holds q) (hN : N ≤ 255) (buffer : Nat → UInt8) {maxLen : Nat}
    (reaches : N ≤ r.tailPtr + min maxLen r.usedSpace) :
    slice (r.read buffer maxLen).2.1 0 (min maxLen r.usedSpace) =
        (q.eraseIdx (N - 1 - r.tailPtr) ++ [r.buffer r.headPtr]).take (min maxLen r.usedSpace) ∧
      ∀ i, min maxLen r.usedSpace ≤ i → (r.read buffer maxLen).2.1 i = buffer i := by
  have short := h.length_lt
  have htail := h.tail_lt
  have space := h.usedSpace_eq hN
  have inQueue : min maxLen r.usedSpace ≤ q.length := by omega
  rw [(read_split hN htail buffer (by omega) reaches).2.1, ← h.copied_around inQueue reaches]
  generalize min maxLen r.usedSpace = n at reaches inQueue
  have front : (slice r.buffer r.tailPtr (N - 1 - r.tailPtr)).length = N - 1 - r.tailPtr :=
    length_slice r.buffer _ _
  have rest : (slice r.buffer 0 (n - (N - 1 - r.tailPtr))).length = n - (N - 1 - r.tailPtr) :=
    length_slice r.buffer _ _
  constructor
  · have copied := slice_blit_blit buffer (slice r.buffer r.tailPtr (N - 1 - r.tailPtr))
      (slice r.buffer 0 (n - (N - 1 - r.tailPtr)))
    rwa [front, rest, show N - 1 - r.tailPtr + (n - (N - 1 - r.tailPtr)) = n by omega] at copied
  · intro i above
    rw [blit_outside _ _ _ (Or.inr (by omega)), blit_outside _ _ _ (Or.inr (by omega))]

/-- A read that stops short takes one byte more than it returns. -/
theorem read_drops (h : r.Holds q) (hN : N ≤ 255) (buffer : Nat → UInt8) {maxLen : Nat}
    (reaches : N ≤ r.tailPtr + min maxLen r.usedSpace)
    (left : min maxLen r.usedSpace < r.usedSpace) :
    (r.read buffer maxLen).1.Holds (q.drop (min maxLen r.usedSpace + 1)) := by
  have short := h.length_lt
  have htail := h.tail_lt
  have space := h.usedSpace_eq hN
  rw [(read_split hN htail buffer (by omega) reaches).1]
  apply h.advance
  · omega
  · rfl
  · rfl
  · dsimp only
    rw [Nat.mod_eq_sub_mod (by omega), Nat.mod_eq_of_lt (by omega)]
    omega

/-- A read to the last byte leaves the tail behind the head. -/
theorem read_refills (h : r.Holds q) (hN : N ≤ 255) (buffer : Nat → UInt8) {maxLen : Nat}
    (reaches : N ≤ r.tailPtr + min maxLen r.usedSpace)
    (emptied : min maxLen r.usedSpace = r.usedSpace) :
    (r.read buffer maxLen).1.Holds (segment N r.buffer (r.headPtr + 1) (N - 1)) := by
  have short := h.length_lt
  have htail := h.tail_lt
  have space := h.usedSpace_eq hN
  have before := h.head_cases
  have next : min maxLen r.usedSpace - (N - 1 - r.tailPtr) = r.headPtr + 1 := by omega
  rw [(read_split hN htail buffer (by omega) reaches).1, next]
  refine ⟨?_, ?_, ?_, ?_⟩
  · dsimp only
    omega
  · rw [length_segment]
    omega
  · dsimp only
    rw [length_segment, show r.headPtr + 1 + (N - 1) = r.headPtr + N by omega,
      Nat.add_mod_right, Nat.mod_eq_of_lt h.head_lt]
  · rw [length_segment]

/-- What a block read does, in every state of the ring. -/
theorem read_effect (hN : N ≤ 255) (hhead : r.headPtr < N) (htail : r.tailPtr < N)
    (buffer : Nat → UInt8) (maxLen : Nat) : r.ReadEffect buffer maxLen := by
  obtain ⟨q, h⟩ := exists_holds hhead htail
  have short := h.length_lt
  have space := h.usedSpace_eq hN
  have inQueue : min maxLen r.usedSpace ≤ q.length := by omega
  have held := h.queued_eq hN
  refine ⟨?_, ?_, ?_, ?_, ?_, ?_⟩
  · by_cases reaches : N ≤ r.tailPtr + min maxLen r.usedSpace
    · exact (read_split hN htail buffer (by omega) reaches).2.2
    · exact (read_straight hN buffer (Nat.lt_of_not_le reaches)).2.2
  · by_cases reaches : N ≤ r.tailPtr + min maxLen r.usedSpace
    · exact (read_skips h hN buffer reaches).2
    · exact (readsAsBytes_of_straight h hN buffer (Nat.lt_of_not_le reaches)).beyond
  · intro straight
    have reads := readsAsBytes_of_straight h hN buffer straight
    exact ⟨reads.oldest, reads.remaining⟩
  · intro reaches
    rw [(read_skips h hN buffer reaches).1, held]
  · intro reaches left
    rw [(read_drops h hN buffer reaches left).queued_eq hN, held]
  · intro reaches emptied
    exact (read_refills h hN buffer reaches emptied).queued_eq hN

theorem read_effect_halfway : (halfway.storeEach [0x63, 0x64]).1.ReadEffect counting 2 :=
  read_effect (by decide) (by decide) (by decide) counting 2

end RingBuffer
end SamdCore
