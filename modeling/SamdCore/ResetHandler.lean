import SamdCore.WhileLoops

/-!
`Reset_Handler` of `core/cortex_handlers.c`, up to the call of `__libc_init_array`.

The symbols of the linker script are addresses of words, and memory is seen word
by word. Each loop writes the words of one region in order, so after any number
of rounds memory differs from what it was in the words passed so far; for the
copying loop this also says that the load image is still what it was.
-/
namespace SamdCore
open WhileLoops

/-- The word at each address that is a multiple of 4. -/
abbrev Memory := UInt32 → UInt32

def WordAligned (a : UInt32) : Prop := a.toNat % 4 = 0

def storeWord (memory : Memory) (p value : UInt32) : Memory :=
  fun a => if a = p then value else memory a

/-- The words from one symbol up to another. -/
structure Region where
  start : UInt32
  stop : UInt32
  start_aligned : WordAligned start
  stop_aligned : WordAligned stop
  ordered : start ≤ stop

def Region.Contains (r : Region) (a : UInt32) : Prop := r.start ≤ a ∧ a < r.stop

/-- `__etext`, and the regions `.data` from `__data_start__` to `__data_end__` and
`.bss` from `__bss_start__` to `__bss_end__`. -/
structure Layout where
  etext : UInt32
  data : Region
  bss : Region
  etext_aligned : WordAligned etext
  disjoint : ∀ a, data.Contains a → ¬ bss.Contains a
  image : etext = data.start ∨ ∀ a, data.Contains a →
    ¬ data.Contains (etext + (a - data.start)) ∧ ¬ bss.Contains (etext + (a - data.start))

/-- Memory and the two pointers of `Reset_Handler`. -/
structure Startup where
  memory : Memory
  pSrc : UInt32
  pDest : UInt32

/-- `*pDest = *pSrc`, and `pDest++, pSrc++` -/
def copyWord (s : Startup) : Startup where
  memory := storeWord s.memory s.pDest (s.memory s.pSrc)
  pSrc := s.pSrc + 4
  pDest := s.pDest + 4

/-- `*pDest = 0`, and `pDest++` -/
def clearWord (s : Startup) : Startup :=
  { s with memory := storeWord s.memory s.pDest 0, pDest := s.pDest + 4 }

/-- The memory that `__libc_init_array` finds. -/
def resetHandler (L : Layout) (fuel : Nat) (memory : Memory) : Option Memory :=
  let s : Startup := { memory, pSrc := L.etext, pDest := L.data.start }
  let copied :=
    if L.data.start ≠ L.data.stop ∧ s.pSrc ≠ s.pDest then
      whileLoop (fun s => s.pDest < L.data.stop) copyWord fuel s
    else some s
  copied.bind fun s =>
    let cleared :=
      if L.data.start ≠ L.data.stop ∧ s.pSrc ≠ s.pDest then
        whileLoop (fun s => s.pDest < L.bss.stop) clearWord fuel { s with pDest := L.bss.start }
      else some s
    cleared.map (·.memory)

/-- A pointer on its way through a region. -/
structure Region.Reached (r : Region) (p : UInt32) : Prop where
  aligned : WordAligned p
  start_le : r.start ≤ p
  le_stop : p ≤ r.stop

/-- `memory` holds `value` in the words from `start` up to `p`, and is elsewhere what
it was before. -/
def Written (start p : UInt32) (value : UInt32 → UInt32) (before memory : Memory) : Prop :=
  ∀ a, WordAligned a → memory a = if start ≤ a ∧ a < p then value a else before a

namespace Region
variable {r : Region} {p : UInt32}

theorem toNat_next (h : r.Reached p) (inside : p < r.stop) : (p + 4).toNat = p.toNat + 4 := by
  have aligned : p.toNat % 4 = 0 := h.aligned
  have stop : r.stop.toNat % 4 = 0 := r.stop_aligned
  have last := r.stop.toNat_lt
  rw [UInt32.lt_iff_toNat_lt] at inside
  rw [UInt32.toNat_add, show UInt32.toNat 4 = 4 from rfl]
  omega

theorem Reached.next (h : r.Reached p) (inside : p < r.stop) : r.Reached (p + 4) := by
  have next := toNat_next h inside
  have aligned : p.toNat % 4 = 0 := h.aligned
  have stop : r.stop.toNat % 4 = 0 := r.stop_aligned
  have start_le := UInt32.le_iff_toNat_le.mp h.start_le
  rw [UInt32.lt_iff_toNat_lt] at inside
  refine ⟨?_, ?_, ?_⟩
  · rw [WordAligned, next]
    omega
  · rw [UInt32.le_iff_toNat_le, next]
    omega
  · rw [UInt32.le_iff_toNat_le, next]
    omega

theorem reached_start (r : Region) : r.Reached r.start :=
  ⟨r.start_aligned, UInt32.le_refl r.start, r.ordered⟩

/-- One more word is written. -/
theorem Reached.written (h : r.Reached p) (inside : p < r.stop) {value : UInt32 → UInt32}
    {before memory : Memory} (done : Written r.start p value before memory) :
    Written r.start (p + 4) value before (storeWord memory p (value p)) := by
  intro a word
  have next := toNat_next h inside
  have aligned : p.toNat % 4 = 0 := h.aligned
  have other : a.toNat % 4 = 0 := word
  rw [storeWord]
  by_cases here : a = p
  · have covered : r.start ≤ a ∧ a < p + 4 := by
      rw [here, UInt32.lt_iff_toNat_lt, next]
      exact ⟨h.start_le, by omega⟩
    rw [if_pos here, if_pos covered, here]
  · have apart : a.toNat ≠ p.toNat := fun same => here (UInt32.toNat_inj.mp same)
    have covered : a < p + 4 ↔ a < p := by
      rw [UInt32.lt_iff_toNat_lt, UInt32.lt_iff_toNat_lt, next]
      omega
    rw [if_neg here, done a word]
    simp only [covered]

/-- A loop that steps `pDest` through a region leaves it at the end of the region. -/
theorem loop {body : Startup → Startup} {P : Startup → Prop} {s : Startup} (start : P s)
    (reached : ∀ s, P s → r.Reached s.pDest) (next : ∀ s, (body s).pDest = s.pDest + 4)
    (step : ∀ s, P s → s.pDest < r.stop → P (body s)) :
    ∃ s', (P s' ∧ s'.pDest = r.stop) ∧ ∃ bound, ∀ fuel, bound ≤ fuel →
      whileLoop (fun s => s.pDest < r.stop) body fuel s = some s' := by
  have closer (s : Startup) (holds : P s) (more : decide (s.pDest < r.stop) = true) :
      P (body s) ∧ r.stop.toNat - (body s).pDest.toNat < r.stop.toNat - s.pDest.toNat := by
    have inside := of_decide_eq_true more
    refine ⟨step s holds inside, ?_⟩
    rw [next, toNat_next (reached s holds) inside]
    rw [UInt32.lt_iff_toNat_lt] at inside
    omega
  obtain ⟨s', holds, stop, ends⟩ :=
    whileLoop_total (fun s => r.stop.toNat - s.pDest.toNat) start closer
  have last : s'.pDest = r.stop :=
    UInt32.le_antisymm (reached s' holds).le_stop (UInt32.not_lt.mp (of_decide_eq_false stop))
  exact ⟨s', ⟨holds, last⟩, _, ends⟩

end Region

theorem written_start (start : UInt32) (value : UInt32 → UInt32) (memory : Memory) :
    Written start start value memory memory := by
  intro a _
  have nothing : ¬ (start ≤ a ∧ a < start) := fun h =>
    UInt32.lt_irrefl a (UInt32.lt_of_lt_of_le h.2 h.1)
  rw [if_neg nothing]

namespace Written
variable {r : Region} {value : UInt32 → UInt32} {before memory : Memory} {a : UInt32}

theorem inside (h : Written r.start r.stop value before memory) (word : WordAligned a)
    (contained : r.Contains a) : memory a = value a := by
  rw [h a word]
  exact if_pos contained

theorem outside (h : Written r.start r.stop value before memory) (word : WordAligned a)
    (elsewhere : ¬ r.Contains a) : memory a = before a := by
  rw [h a word]
  exact if_neg elsewhere

end Written

namespace Layout
variable (L : Layout)

/-- The word of the load image that belongs at an address of `.data`. -/
def source (a : UInt32) : UInt32 := L.etext + (a - L.data.start)

/-- With enough fuel `memory` becomes `after`. -/
def Leaves (memory after : Memory) : Prop :=
  ∃ bound, ∀ fuel, bound ≤ fuel → resetHandler L fuel memory = some after

/-- The memory image of a C program. -/
structure Initialised (memory after : Memory) : Prop where
  data : ∀ a, WordAligned a → L.data.Contains a → after a = memory (L.source a)
  bss : ∀ a, WordAligned a → L.bss.Contains a → after a = 0
  others : ∀ a, WordAligned a → ¬ L.data.Contains a → ¬ L.bss.Contains a →
    after a = memory a

/-- The guard of the clearing loop, which is that of the copying loop. -/
def Clears : Prop := L.data.start ≠ L.data.stop ∧ L.etext ≠ L.data.start

variable {L} {memory : Memory}

theorem source_start : L.source L.data.start = L.etext := by
  rw [source, UInt32.sub_self, UInt32.add_zero]

theorem source_next (p : UInt32) : L.source p + 4 = L.source (p + 4) := by
  have shift : p - L.data.start + 4 = p + 4 - L.data.start := by
    rw [UInt32.sub_eq_add_neg, UInt32.sub_eq_add_neg, UInt32.add_assoc, UInt32.add_assoc,
      UInt32.add_comm 4]
  rw [source, source, UInt32.add_assoc, shift]

theorem source_aligned {a : UInt32} (word : WordAligned a) : WordAligned (L.source a) := by
  have first : L.etext.toNat % 4 = 0 := L.etext_aligned
  have start : L.data.start.toNat % 4 = 0 := L.data.start_aligned
  have offset : a.toNat % 4 = 0 := word
  rw [WordAligned, source, UInt32.toNat_add, UInt32.toNat_sub]
  omega

theorem source_ne {a : UInt32} (moved : L.etext ≠ L.data.start) : L.source a ≠ a := by
  intro same
  have offset : L.etext + (a - L.data.start) = L.data.start + (a - L.data.start) := by
    rw [UInt32.add_comm L.data.start, UInt32.sub_add_cancel]
    exact same
  exact moved ((UInt32.add_left_inj _).mp offset)

/-- After any number of rounds of the copying loop. -/
structure Copying (L : Layout) (memory : Memory) (s : Startup) : Prop where
  reached : L.data.Reached s.pDest
  from_source : s.pSrc = L.source s.pDest
  done : Written L.data.start s.pDest (fun a => memory (L.source a)) memory s.memory

theorem Copying.step {s : Startup} (h : L.Copying memory s) (moved : L.etext ≠ L.data.start)
    (inside : s.pDest < L.data.stop) : L.Copying memory (copyWord s) := by
  have image := L.image.resolve_left moved s.pDest ⟨h.reached.start_le, inside⟩
  -- the word read is none of those written so far
  have outside : ¬ (L.data.start ≤ L.source s.pDest ∧ L.source s.pDest < s.pDest) :=
    fun within => image.1 ⟨within.1, UInt32.lt_trans within.2 inside⟩
  have read : s.memory s.pSrc = memory (L.source s.pDest) := by
    rw [h.from_source, h.done _ (source_aligned h.reached.aligned), if_neg outside]
  refine ⟨h.reached.next inside, ?_, ?_⟩
  · rw [copyWord, h.from_source, source_next]
  · rw [copyWord, read]
    exact h.reached.written inside h.done

theorem copying_loop (moved : L.etext ≠ L.data.start) (memory : Memory) :
    ∃ s, (L.Copying memory s ∧ s.pDest = L.data.stop) ∧ ∃ bound, ∀ fuel, bound ≤ fuel →
      whileLoop (fun s => s.pDest < L.data.stop) copyWord fuel
        { memory, pSrc := L.etext, pDest := L.data.start } = some s := by
  have start : L.Copying memory { memory, pSrc := L.etext, pDest := L.data.start } :=
    ⟨L.data.reached_start, source_start.symm, written_start _ _ memory⟩
  exact L.data.loop start (fun _ copying => copying.reached) (fun _ => rfl)
    (fun _ copying inside => copying.step moved inside)

/-- After any number of rounds of the clearing loop. -/
structure Clearing (L : Layout) (memory : Memory) (s : Startup) : Prop where
  reached : L.bss.Reached s.pDest
  done : Written L.bss.start s.pDest (fun _ => 0) memory s.memory

theorem Clearing.step {s : Startup} (h : L.Clearing memory s) (inside : s.pDest < L.bss.stop) :
    L.Clearing memory (clearWord s) :=
  ⟨h.reached.next inside, h.reached.written inside h.done⟩

theorem clearing_loop (L : Layout) (memory : Memory) (pSrc : UInt32) :
    ∃ s, (L.Clearing memory s ∧ s.pDest = L.bss.stop) ∧ ∃ bound, ∀ fuel, bound ≤ fuel →
      whileLoop (fun s => s.pDest < L.bss.stop) clearWord fuel
        { memory, pSrc, pDest := L.bss.start } = some s := by
  have start : L.Clearing memory { memory, pSrc, pDest := L.bss.start } :=
    ⟨L.bss.reached_start, written_start _ _ memory⟩
  exact L.bss.loop start (fun _ clearing => clearing.reached) (fun _ => rfl)
    (fun _ clearing inside => clearing.step inside)

/-- Both loops run: `.data` is not empty, and its image is elsewhere. -/
theorem leaves_initialised (clears : L.Clears) (memory : Memory) :
    ∃ after, L.Leaves memory after ∧ L.Initialised memory after := by
  obtain ⟨s, ⟨copying, copied⟩, bound, copies⟩ := copying_loop clears.2 memory
  obtain ⟨z, ⟨clearing, cleared⟩, bound', zeroes⟩ := clearing_loop L s.memory s.pSrc
  have guard : L.data.start ≠ L.data.stop ∧ L.etext ≠ L.data.start := clears
  have again : L.data.start ≠ L.data.stop ∧ s.pSrc ≠ s.pDest := by
    refine ⟨clears.1, ?_⟩
    rw [copying.from_source]
    exact source_ne clears.2
  have data := copying.done
  have bss := clearing.done
  rw [copied] at data
  rw [cleared] at bss
  refine ⟨z.memory, ⟨max bound bound', ?_⟩, ?_, ?_, ?_⟩
  · intro fuel enough
    have first : bound ≤ fuel := Nat.le_trans (Nat.le_max_left bound bound') enough
    have second : bound' ≤ fuel := Nat.le_trans (Nat.le_max_right bound bound') enough
    simp only [resetHandler]
    rw [if_pos guard, copies fuel first, Option.bind_some, if_pos again, zeroes fuel second,
      Option.map_some]
  · intro a word inside
    rw [bss.outside word (L.disjoint a inside), data.inside word inside]
  · intro a word inside
    exact bss.inside word inside
  · intro a word noData noBss
    rw [bss.outside word noBss, data.outside word noData]

/-- Neither loop runs. -/
theorem leaves_unchanged (skips : ¬ L.Clears) (memory : Memory) : L.Leaves memory memory := by
  have guard : ¬ (L.data.start ≠ L.data.stop ∧ L.etext ≠ L.data.start) := skips
  refine ⟨0, ?_⟩
  intro fuel _
  simp only [resetHandler]
  rw [if_neg guard, Option.bind_some, if_neg guard, Option.map_some]

theorem initialised_unchanged_iff (skips : ¬ L.Clears) : L.Initialised memory memory ↔
    ∀ a, WordAligned a → L.bss.Contains a → memory a = 0 := by
  constructor
  · intro h
    exact h.bss
  · intro zero
    refine ⟨?_, zero, fun _ _ _ _ => rfl⟩
    intro a _ inside
    have inPlace : L.etext = L.data.start := by
      by_contra moved
      have empty : L.data.start = L.data.stop := by
        by_contra filled
        exact skips ⟨filled, moved⟩
      have stop := inside.2
      rw [← empty] at stop
      exact UInt32.not_lt.mpr inside.1 stop
    rw [source, inPlace, UInt32.add_comm, UInt32.sub_add_cancel]

theorem Leaves.unique {after after' : Memory} (h : L.Leaves memory after)
    (h' : L.Leaves memory after') : after = after' := by
  obtain ⟨bound, leaves⟩ := h
  obtain ⟨bound', leaves'⟩ := h'
  apply Option.some.inj
  rw [← leaves (max bound bound') (Nat.le_max_left bound bound'),
    leaves' (max bound bound') (Nat.le_max_right bound bound')]

/-- The start-up code ends, and it makes the memory image exactly when it clears
`.bss` or there is nothing to clear. -/
theorem initialises_iff (L : Layout) (memory : Memory) :
    ∃ after, L.Leaves memory after ∧ (L.Initialised memory after ↔
      L.Clears ∨ ∀ a, WordAligned a → L.bss.Contains a → memory a = 0) := by
  by_cases clears : L.Clears
  · obtain ⟨after, leaves, image⟩ := leaves_initialised clears memory
    exact ⟨after, leaves, fun _ => Or.inl clears, fun _ => image⟩
  · refine ⟨memory, leaves_unchanged clears memory, ?_⟩
    rw [initialised_unchanged_iff clears, or_iff_right clears]

/-- An empty `.data`, and one word of `.bss`. -/
def emptyData : Layout where
  etext := 0x4000
  data := ⟨0x20000000, 0x20000000, rfl, rfl, by decide⟩
  bss := ⟨0x20000000, 0x20000004, rfl, rfl, by decide⟩
  etext_aligned := rfl
  disjoint _ inside := absurd (UInt32.lt_of_le_of_lt inside.1 inside.2) (by decide)
  image := Or.inr fun _ inside =>
    absurd (UInt32.lt_of_le_of_lt inside.1 inside.2) (by decide)

/-- The word keeps what was in it. -/
theorem bss_left_uncleared : ¬ ∃ after, emptyData.Leaves (fun _ => 0xA5A5A5A5) after ∧
    emptyData.Initialised (fun _ => 0xA5A5A5A5) after := by
  intro claimed
  obtain ⟨after, leaves, image⟩ := claimed
  have skips : ¬ emptyData.Clears := fun clears => clears.1 rfl
  have zero := image.bss 0x20000000 rfl ⟨by decide, by decide⟩
  rw [← (leaves_unchanged skips _).unique leaves] at zero
  exact absurd zero (by decide)

end Layout
end SamdCore
