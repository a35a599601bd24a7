import SamdCore.RingBufferContents

/-!
The direct interface of the ring buffer: transfers that read from the tail or
write at the head while they are outstanding.

An offer is what `prepareDirectRead` and `prepareDirectWrite` hand out. Reading
is aligned: a transfer shorter than four bytes is followed by padding, over
which the head is pushed at the offer and the tail at the completion. Writing
goes straight to the head when it is aligned, through `_rx_buffer` when not.
-/
namespace SamdCore
open CircularSegment

/-- The next multiple of four, where the tail is after a transfer. -/
def alignUp4 (n : Nat) : Nat := (n + 3) / 4 * 4

theorem le_alignUp4 (n : Nat) : n ≤ alignUp4 n := by
  rw [alignUp4]
  omega

theorem alignUp4_of_word {n : Nat} (word : n % 4 = 0) : alignUp4 n = n := by
  rw [alignUp4]
  omega

/-- What `completeDirectRead` computes of a length that ends inside a word. -/
theorem alignUp4_of_rest {n : Nat} (rest : n % 4 ≠ 0) : alignUp4 n = n - n % 4 + 4 := by
  rw [alignUp4]
  omega

theorem alignUp4_of_short {n : Nat} (pos : 0 < n) (short : n < 4) : alignUp4 n = 4 := by
  rw [alignUp4]
  omega

theorem wrap_alignUp4 {n p : Nat} (L : Nat) (hp : p % 4 = 0) :
    wrap n (p + alignUp4 L) % 4 = 0 := by
  by_cases h : n ≤ p + alignUp4 L
  · rw [wrap, if_pos h]
  · rw [wrap, if_neg h, alignUp4]
    omega

namespace RingBuffer
variable {N align : Nat} {q : List UInt8}

/-- What an offer of `L` bytes to read makes of a ring that holds `q`: the ring
holds `pad` as well, which is behind the offered bytes and up to the alignment. -/
structure ReadOffer (r : RingBuffer N align) (q : List UInt8) (r' : RingBuffer N align)
    (L : Nat) (pad : List UInt8) : Prop where
  holds : r'.Holds (q ++ pad)
  buffer_eq : r'.buffer = r.buffer
  tail_eq : r'.tailPtr = r.tailPtr
  pos : 1 ≤ L
  le_length : L ≤ q.length
  pad_length : L + pad.length = alignUp4 L
  pad_last : pad ≠ [] → L = q.length
  straight : r.tailPtr + alignUp4 L ≤ N
  granular : L < 4 ∨ L % 4 = 0
  largest : ∀ k, k % 4 = 0 → k ≤ q.length → r.tailPtr + k ≤ N → k ≤ L

theorem prepareDirectRead_spec {r : RingBuffer N bufferUsbTxAlign} (h : r.Holds q)
    (hN : N ≤ 255) (hN4 : N % 4 = 0) (hN' : 4 < N) (ht4 : r.tailPtr % 4 = 0) (hq : q ≠ []) :
    r.prepareDirectRead.2.1 = r.tailPtr ∧
      ∃ pad, ReadOffer r q r.prepareDirectRead.1 r.prepareDirectRead.2.2 pad := by
  have ht := h.tail_lt
  have hl := h.length_lt
  have hpos := List.length_pos_iff.mpr hq
  have hmax : uint8 (min ((r.endPtr : Int) - r.tailPtr) r.usedSpace) =
      min (N - r.tailPtr) q.length := by
    rw [h.usedSpace_eq hN, endPtr,
      show min ((N : Int) - r.tailPtr) q.length = (min (N - r.tailPtr) q.length : Nat) by omega]
    exact uint8_eq (by omega)
  have hflag : bufferUsbTxAlign &&& bufferUsbTxAlign ≠ 0 := by decide
  simp only [prepareDirectRead, hmax, if_pos hflag]
  by_cases hshort : min (N - r.tailPtr) q.length < 4
  · have hlen : min (N - r.tailPtr) q.length = q.length := by omega
    have hhead : r.headPtr = r.tailPtr + q.length := by
      rcases h.head_cases with ⟨_, hc⟩ | ⟨_, hc⟩ <;> omega
    have hup : alignUp4 q.length = 4 := alignUp4_of_short hpos (by omega)
    rw [if_pos hshort, hlen]
    dsimp only
    have hpad : (slice r.buffer r.headPtr (4 - q.length)).length = 4 - q.length := by simp
    refine ⟨rfl, slice r.buffer r.headPtr (4 - q.length), ?_, rfl, rfl, hpos, Nat.le_refl _,
      ?_, fun _ => rfl, ?_, Or.inl (by omega), ?_⟩
    · apply h.push
      · omega
      · omega
      · rw [hpad]; rfl
      · exact fun _ _ => rfl
      · rw [hpad]; rfl
      · rfl
    · rw [hpad, hup]; omega
    · rw [hup]; omega
    · exact fun k _ hk _ => hk
  · have hup := alignUp4_of_word (Nat.sub_mod_eq_zero_of_mod_eq
      (Nat.mod_mod (min (N - r.tailPtr) q.length) 4).symm)
    rw [if_neg hshort]
    dsimp only
    refine ⟨rfl, [], ?_, rfl, rfl, by omega, by omega, ?_, fun hne => absurd rfl hne, ?_,
      Or.inr (by omega), ?_⟩
    · simpa only [List.append_nil] using h
    · rw [hup, List.length_nil, Nat.add_zero]
    · rw [hup]; omega
    · intro k hk4 hk hstraight; omega

theorem completeDirectRead_tail (r : RingBuffer N bufferUsbTxAlign) {L : Nat} (hL : L ≤ 252) :
    (r.completeDirectRead L).tailPtr = wrap N (r.tailPtr + alignUp4 L) := by
  have hlen : (if bufferUsbTxAlign &&& bufferUsbTxAlign ≠ 0 ∧ L % 4 ≠ 0
      then uint8 (((L - L % 4 : Nat) : Int) + 4) else L) = alignUp4 L := by
    by_cases h4 : L % 4 = 0
    · rw [if_neg (fun hc => hc.2 h4), alignUp4_of_word h4]
    · rw [if_pos ⟨by decide, h4⟩,
        show ((L - L % 4 : Nat) : Int) + 4 = (L - L % 4 + 4 : Nat) by omega, uint8_eq (by omega),
        alignUp4_of_rest h4]
  simp only [completeDirectRead, hlen]
  rfl

theorem completeDirectRead_spec {r : RingBuffer N bufferUsbTxAlign} (h : r.Holds q) {L : Nat}
    (hL : L ≤ 252) (held : alignUp4 L ≤ q.length) (straight : r.tailPtr + alignUp4 L ≤ N) :
    (r.completeDirectRead L).Holds (q.drop (alignUp4 L)) := by
  have htaken : (q.take (alignUp4 L)).length = alignUp4 L := by
    rw [List.length_take]; omega
  have hsplit : r.Holds (q.take (alignUp4 L) ++ q.drop (alignUp4 L)) := by
    rwa [List.take_append_drop]
  exact hsplit.pop (by rwa [htaken]) rfl rfl (by rw [completeDirectRead_tail r hL, htaken])

/-- What `prepareDirectWrite` offers of a ring that holds `q`. -/
structure WriteOffer (r : RingBuffer N align) (q : List UInt8) (p : WritePtr) (n : Nat) :
    Prop where
  pos : 1 ≤ n
  fits : q.length + n < N
  straight : r.headPtr + n ≤ N
  pointer : p = if r.bounced then .rxBuffer else .buffer r.headPtr
  bounce_le : r.bounced → n ≤ 8

theorem prepareDirectWrite_spec {r : RingBuffer N align} (h : r.Holds q) (hN : N ≤ 255)
    (room : q.length < N - 1) :
    WriteOffer r q r.prepareDirectWrite.1 r.prepareDirectWrite.2 := by
  have hh := h.head_lt
  have hmax : uint8 (min ((r.endPtr : Int) - r.headPtr) r.availableSpace) =
      min (N - r.headPtr) (N - 1 - q.length) := by
    rw [h.availableSpace_eq hN, endPtr,
      show min ((N : Int) - r.headPtr) (N - 1 - q.length : Nat) =
        (min (N - r.headPtr) (N - 1 - q.length) : Nat) by omega]
    exact uint8_eq (by omega)
  simp only [prepareDirectWrite, hmax]
  by_cases hb : r.bounced
  · rw [if_pos hb]
    exact ⟨by omega, by omega, by omega, by rw [if_pos hb], fun _ => by omega⟩
  · rw [if_neg hb]
    exact ⟨by omega, by omega, by omega, by rw [if_neg hb], fun hb' => absurd hb' hb⟩

/-- The bytes a transfer has put at the pointer it was offered. -/
def received (r : RingBuffer N align) (k : Nat) : List UInt8 :=
  if r.bounced then slice r.rxBuffer 0 k else slice r.buffer r.headPtr k

theorem received_of_bounced {r : RingBuffer N align} {k : Nat} (hb : r.bounced) :
    r.received k = slice r.rxBuffer 0 k := if_pos hb

theorem received_of_straight {r : RingBuffer N align} {k : Nat} (hb : ¬ r.bounced) :
    r.received k = slice r.buffer r.headPtr k := if_neg hb

theorem completeDirectWrite_head (r : RingBuffer N align) (k : Nat) :
    (r.completeDirectWrite k).1.headPtr = wrap N (r.headPtr + k) ∧
      (r.completeDirectWrite k).1.tailPtr = r.tailPtr := by
  simp only [completeDirectWrite]
  by_cases hb : r.bounced
  · rw [if_pos hb]
    exact ⟨rfl, rfl⟩
  · rw [if_neg hb]
    exact ⟨rfl, rfl⟩

theorem completeDirectWrite_spec {r : RingBuffer N align} (h : r.Holds q) {k : Nat}
    (fits : q.length + k < N) (straight : r.headPtr + k ≤ N) :
    (r.completeDirectWrite k).1.Holds (q ++ r.received k) := by
  have hlen : (r.received k).length = k := by
    rw [received]
    split <;> simp
  by_cases hb : r.bounced
  · simp only [completeDirectWrite, if_pos hb]
    apply h.push
    · rwa [hlen]
    · rwa [hlen]
    · rw [received, if_pos hb]
      exact slice_blit _ _ _
    · intro p hp
      rw [received, if_pos hb] at hp
      exact blit_outside _ _ _ hp
    · rw [hlen]; rfl
    · rfl
  · simp only [completeDirectWrite, if_neg hb]
    apply h.push
    · rwa [hlen]
    · rwa [hlen]
    · rw [hlen, received, if_neg hb]; rfl
    · exact fun _ _ => rfl
    · rw [hlen]; rfl
    · rfl

end RingBuffer
end SamdCore
