import Mathlib.Data.Nat.ModEq
import Mathlib.Data.List.Range

/-!
Memories of cells read and written straight, and arrays read around their end.

An array of `n` cells is the offsets below `n`. A segment of it starts at one of
them and goes on at offset 0 after the last; a slice goes straight on. Which
cells a write touches is what the later results about queues and transfers
rest on, so every write comes with the segments it leaves alone.
-/
namespace CircularSegment
variable {α : Type*}

/-- The `len` cells from `start` on. -/
def slice (mem : Nat → α) (start len : Nat) : List α :=
  (List.range len).map fun i => mem (start + i)

/-- The memory after the cells of `xs` are stored from `start` on. -/
def blit (mem : Nat → α) (start : Nat) (xs : List α) : Nat → α :=
  fun i => if start ≤ i then xs.getD (i - start) (mem i) else mem i

/-- The `len` cells from `start` on, around the end of an array of `n` cells. -/
def segment (n : Nat) (mem : Nat → α) (start len : Nat) : List α :=
  (List.range len).map fun i => mem ((start + i) % n)

/-- One past the last cell is the first again. -/
def wrap (n i : Nat) : Nat := if n ≤ i then 0 else i

theorem wrap_eq_mod {n i : Nat} (h : i ≤ n) : wrap n i = i % n := by
  rw [wrap]
  split
  · have hi : i = n := by omega
    rw [hi, Nat.mod_self]
  · exact (Nat.mod_eq_of_lt (by omega)).symm

theorem wrap_lt {n i : Nat} (hn : 0 < n) : wrap n i < n := by
  rw [wrap]
  split <;> omega

/-- Within one turn around the array, different offsets are different cells. -/
theorem offset_inj {n s i j : Nat} (hi : i < n) (hj : j < n)
    (h : (s + i) % n = (s + j) % n) : i = j :=
  Nat.ModEq.eq_of_lt_of_lt (Nat.ModEq.add_left_cancel' s h) hi hj

@[simp] theorem length_slice (mem : Nat → α) (s l : Nat) : (slice mem s l).length = l := by
  simp [slice]

@[simp] theorem length_segment (n : Nat) (mem : Nat → α) (s l : Nat) :
    (segment n mem s l).length = l := by
  simp [segment]

theorem segment_append (n : Nat) (mem : Nat → α) (s a b : Nat) :
    segment n mem s (a + b) = segment n mem s a ++ segment n mem ((s + a) % n) b := by
  simp only [segment, List.range_add, List.map_append, List.map_map]
  congr 1
  apply List.map_congr_left
  intro i _
  simp only [Function.comp, Nat.mod_add_mod, Nat.add_assoc]

theorem take_segment (n : Nat) (mem : Nat → α) (s : Nat) {k l : Nat} (h : k ≤ l) :
    (segment n mem s l).take k = segment n mem s k := by
  obtain ⟨m, rfl⟩ := Nat.exists_eq_add_of_le h
  rw [segment_append, List.take_append_of_le_length (by simp), List.take_of_length_le (by simp)]

theorem drop_segment (n : Nat) (mem : Nat → α) (s : Nat) {k l : Nat} (h : k ≤ l) :
    (segment n mem s l).drop k = segment n mem ((s + k) % n) (l - k) := by
  obtain ⟨m, rfl⟩ := Nat.exists_eq_add_of_le h
  rw [segment_append, Nat.add_sub_cancel_left]
  exact List.drop_left' (length_segment n mem s k)

theorem segment_eq_slice {n : Nat} (mem : Nat → α) {s l : Nat} (h : s + l ≤ n) :
    segment n mem s l = slice mem s l := by
  apply List.map_congr_left
  intro i hi
  have hi : i < l := List.mem_range.mp hi
  rw [Nat.mod_eq_of_lt (by omega)]

theorem slice_append (mem : Nat → α) (s a b : Nat) :
    slice mem s (a + b) = slice mem s a ++ slice mem (s + a) b := by
  simp only [slice, List.range_add, List.map_append, List.map_map]
  congr 1
  apply List.map_congr_left
  intro i _
  simp only [Function.comp, Nat.add_assoc]

theorem slice_congr {mem mem' : Nat → α} {s l : Nat}
    (agree : ∀ p, s ≤ p → p < s + l → mem' p = mem p) : slice mem' s l = slice mem s l := by
  apply List.map_congr_left
  intro i hi
  have hi : i < l := List.mem_range.mp hi
  exact agree (s + i) (Nat.le_add_right s i) (Nat.add_lt_add_left hi s)

theorem take_slice (mem : Nat → α) (s k l : Nat) :
    (slice mem s l).take k = slice mem s (min k l) := by
  rw [slice, ← List.map_take, List.take_range, slice]

theorem blit_outside (mem : Nat → α) (s : Nat) (xs : List α) {p : Nat}
    (h : p < s ∨ s + xs.length ≤ p) : blit mem s xs p = mem p := by
  rw [blit]
  split
  · have hlen : xs.length ≤ p - s := by omega
    rw [List.getD_eq_getElem?_getD, List.getElem?_eq_none hlen, Option.getD_none]
  · rfl

theorem slice_blit (mem : Nat → α) (s : Nat) (xs : List α) :
    slice (blit mem s xs) s xs.length = xs := by
  apply List.ext_getElem
  · simp
  · intro i h₁ h₂
    simp [slice, blit, List.getD_eq_getElem?_getD, List.getElem?_eq_getElem h₂]

@[simp] theorem blit_nil (mem : Nat → α) (s : Nat) : blit mem s [] = mem := by
  funext p
  exact blit_outside mem s [] (Nat.lt_or_ge p s)

/-- The first cell written is one write, and the others are another behind it. -/
theorem blit_cons (mem : Nat → α) (s : Nat) (x : α) (xs : List α) :
    blit (blit mem s [x]) (s + 1) xs = blit mem s (x :: xs) := by
  funext p
  simp only [blit]
  cases Nat.lt_trichotomy p s with
  | inl before => rw [if_neg (by omega), if_neg (by omega), if_neg (by omega)]
  | inr later =>
      cases later with
      | inl first =>
          subst first
          rw [if_neg (by omega), if_pos (Nat.le_refl p), if_pos (Nat.le_refl p), Nat.sub_self]
          rfl
      | inr behind =>
          have shift : p - s = p - (s + 1) + 1 := by omega
          rw [if_pos (by omega), if_pos (by omega), if_pos (by omega), shift,
            List.getD_cons_succ, List.getD_cons_succ, List.getD_nil]

/-- A write that stays within the `k` cells behind a segment does not touch it,
as long as segment and write fit the array together. -/
theorem segment_frame {n s l k : Nat} {mem mem' : Nat → α} (fits : l + k ≤ n)
    (agree : ∀ p, p < (s + l) % n ∨ (s + l) % n + k ≤ p → mem' p = mem p)
    (straight : (s + l) % n + k ≤ n) :
    segment n mem' s l = segment n mem s l := by
  apply List.map_congr_left
  intro i hi
  have hi : i < l := List.mem_range.mp hi
  apply agree
  by_contra inside
  have hj : ∃ j, j < k ∧ (s + i) % n = (s + l) % n + j :=
    ⟨(s + i) % n - (s + l) % n, by omega, by omega⟩
  obtain ⟨j, hj, same⟩ := hj
  have turn : (s + i) % n = (s + (l + j)) % n := by
    calc (s + i) % n = (s + l) % n + j := same
      _ = ((s + l) % n + j) % n := (Nat.mod_eq_of_lt (by omega)).symm
      _ = (s + (l + j)) % n := by rw [Nat.mod_add_mod, Nat.add_assoc]
  have := offset_inj (by omega) (by omega) turn
  omega

end CircularSegment
