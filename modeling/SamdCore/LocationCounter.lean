import Mathlib.Algebra.Order.Ring.Nat
import Mathlib.Data.Nat.ModEq
import Mathlib.Logic.Function.Basic

/-!
The location counter of a linker, inside one output section.

The statements of a section move the counter forward, past the input sections that a
pattern matches and up to alignments, and give its value to symbols. If all
alignments divide the place where a section starts, it stays there exactly when all
that is put in it is empty. Nothing here mentions a particular script.
-/
namespace LocationCounter

/-- The first multiple of `a` from `n` on. -/
def alignUp (n a : Nat) : Nat := (n + (a - 1)) / a * a

variable {n a : Nat}

theorem dvd_alignUp (n a : Nat) : a ∣ alignUp n a := Nat.dvd_mul_left a _

theorem le_alignUp (n : Nat) (pos : 0 < a) : n ≤ alignUp n a := by
  have rest := Nat.mod_lt (n + (a - 1)) pos
  have whole : (n + (a - 1)) / a * a + (n + (a - 1)) % a = n + (a - 1) := Nat.div_add_mod' ..
  rw [alignUp]
  omega

theorem alignUp_of_dvd (pos : 0 < a) (h : a ∣ n) : alignUp n a = n := by
  obtain ⟨k, rfl⟩ := h
  have short : a - 1 < a := Nat.sub_lt pos Nat.one_pos
  rw [alignUp, Nat.mul_add_div pos, Nat.div_eq_of_lt short, Nat.add_zero, Nat.mul_comm]

/-- Aligning to a power of two keeps the alignment to another. -/
theorem alignUp_keeps {j : Nat} (power : ∃ k, a = 2 ^ k) (h : 2 ^ j ∣ n) :
    2 ^ j ∣ alignUp n a := by
  obtain ⟨k, rfl⟩ := power
  by_cases looser : k ≤ j
  · rw [alignUp_of_dvd (Nat.two_pow_pos k) (Nat.dvd_trans (Nat.pow_dvd_pow 2 looser) h)]
    exact h
  · have stricter : 2 ^ j ∣ 2 ^ k := Nat.pow_dvd_pow 2 (Nat.le_of_not_le looser)
    exact Nat.dvd_trans stricter (dvd_alignUp n _)

/-- What a linker knows of a section of an object file. -/
structure InputSection where
  size : Nat
  align : Nat
  power : ∃ k, align = 2 ^ k

inductive Statement (σ : Type)
  /-- The input sections that a pattern matches, in the order they are met. -/
  | input (sections : List InputSection)
  | align (n : Nat)
  | symbol (name : σ)

variable {σ : Type} {body : List (Statement σ)} {x : Statement σ} {name : σ}

def Statement.sections : Statement σ → List InputSection
  | .input sections => sections
  | _ => []

/-- The strictest alignment of the input sections, which is that of the output section. -/
def maxAlign (body : List (Statement σ)) : Nat :=
  (body.flatMap Statement.sections).foldl (fun a x => max a x.align) 1

/-- A statement with an alignment that means something. -/
def Statement.Valid : Statement σ → Prop
  | .align n => 0 < n
  | _ => True

/-- All alignments of a statement divide `n`. -/
def Statement.AlignedAt (n : Nat) : Statement σ → Prop
  | .input sections => ∀ x ∈ sections, x.align ∣ n
  | .align a => 0 < a ∧ a ∣ n
  | .symbol _ => True

theorem InputSection.align_pos (x : InputSection) : 0 < x.align := by
  obtain ⟨k, power⟩ := x.power
  rw [power]
  exact Nat.two_pow_pos k

theorem Statement.AlignedAt.valid {n : Nat} (h : x.AlignedAt n) : x.Valid := by
  cases x with
  | input _ | symbol _ => trivial
  | align _ => exact h.1

theorem maxAlign_foldl (sections : List InputSection) (a : Nat) :
    a ≤ sections.foldl (fun a x => max a x.align) a ∧
      ∀ x ∈ sections, x.align ≤ sections.foldl (fun a x => max a x.align) a := by
  induction sections generalizing a with
  | nil => exact ⟨Nat.le_refl a, List.forall_mem_nil _⟩
  | cons x rest ih =>
      obtain ⟨more, others⟩ := ih (max a x.align)
      refine ⟨Nat.le_trans (Nat.le_max_left ..) more, ?_⟩
      rw [List.forall_mem_cons]
      exact ⟨Nat.le_trans (Nat.le_max_right ..) more, others⟩

theorem maxAlign_power (body : List (Statement σ)) : ∃ k, maxAlign body = 2 ^ k := by
  rw [maxAlign]
  generalize body.flatMap Statement.sections = sections
  have start : ∃ k, (1 : Nat) = 2 ^ k := ⟨0, rfl⟩
  generalize 1 = a at start
  induction sections generalizing a with
  | nil => exact start
  | cons x rest ih =>
      have next : ∃ k, max a x.align = 2 ^ k := by
        cases Nat.le_total a x.align with
        | inl less =>
            rw [Nat.max_eq_right less]
            exact x.power
        | inr more =>
            rw [Nat.max_eq_left more]
            exact start
      exact ih _ next

/-- The output section is as strictly aligned as any section in it. -/
theorem align_dvd_maxAlign {y : InputSection} (h : y ∈ body.flatMap Statement.sections) :
    y.align ∣ maxAlign body := by
  have le := (maxAlign_foldl (body.flatMap Statement.sections) 1).2 y h
  obtain ⟨j, power⟩ := y.power
  obtain ⟨k, strictest⟩ := maxAlign_power body
  rw [← maxAlign, strictest, power] at le
  rw [strictest, power]
  exact Nat.pow_dvd_pow 2 ((Nat.pow_le_pow_iff_right (by decide)).mp le)

def place (dot : Nat) (x : InputSection) : Nat := alignUp dot x.align + x.size

theorem le_place (dot : Nat) (x : InputSection) : dot + x.size ≤ place dot x :=
  Nat.add_le_add_right (le_alignUp dot x.align_pos) _

theorem le_places (sections : List InputSection) (dot : Nat) :
    dot ≤ sections.foldl place dot := by
  induction sections generalizing dot with
  | nil => exact Nat.le_refl dot
  | cons x rest ih =>
      have here := le_place dot x
      have there := ih (place dot x)
      exact Nat.le_trans (Nat.le_trans (Nat.le_add_right ..) here) there

theorem places_still {sections : List InputSection} {dot : Nat}
    (aligned : ∀ x ∈ sections, x.align ∣ dot) :
    sections.foldl place dot = dot ↔ ∀ x ∈ sections, x.size = 0 := by
  induction sections generalizing dot with
  | nil => exact ⟨fun _ => List.forall_mem_nil _, fun _ => rfl⟩
  | cons x rest ih =>
      rw [List.forall_mem_cons] at aligned ⊢
      have here : place dot x = dot + x.size := by
        rw [place, alignUp_of_dvd x.align_pos aligned.1]
      by_cases empty : x.size = 0
      · rw [List.foldl_cons, here, empty, Nat.add_zero, ih aligned.2]
        exact ⟨fun others => ⟨rfl, others⟩, And.right⟩
      · have further := le_places rest (place dot x)
        rw [here] at further
        refine ⟨fun still => ?_, fun none => absurd none.1 empty⟩
        rw [List.foldl_cons, here] at still
        omega

structure Counter (σ : Type) where
  dot : Nat
  symbols : σ → Option Nat

variable [DecidableEq σ] {c : Counter σ}

def Counter.assign (c : Counter σ) (name : σ) (value : Nat) : Counter σ :=
  { c with symbols := Function.update c.symbols name (some value) }

def Counter.set (c : Counter σ) (name : σ) : Counter σ := c.assign name c.dot

theorem Counter.set_symbols (c : Counter σ) (name : σ) :
    (c.set name).symbols name = some c.dot := Function.update_self ..

def Statement.run (c : Counter σ) : Statement σ → Counter σ
  | .input sections => { c with dot := sections.foldl place c.dot }
  | .align n => { c with dot := alignUp c.dot n }
  | .symbol name => c.set name

def run (c : Counter σ) (body : List (Statement σ)) : Counter σ := body.foldl Statement.run c

/-- An output section starts aligned. -/
def outputSection (c : Counter σ) (body : List (Statement σ)) : Counter σ :=
  run { c with dot := alignUp c.dot (maxAlign body) } body

theorem le_statement (c : Counter σ) (valid : x.Valid) : c.dot ≤ (x.run c).dot := by
  cases x with
  | input sections => exact le_places sections c.dot
  | align n => exact le_alignUp c.dot valid
  | symbol name => exact Nat.le_refl c.dot

theorem run_append (c : Counter σ) (before after : List (Statement σ)) :
    run c (before ++ after) = run (run c before) after := List.foldl_append

/-- The counter only moves forward. -/
theorem le_run (c : Counter σ) (valid : ∀ x ∈ body, x.Valid) : c.dot ≤ (run c body).dot := by
  induction body generalizing c with
  | nil => exact Nat.le_refl c.dot
  | cons x body ih =>
      rw [List.forall_mem_cons] at valid
      exact Nat.le_trans (le_statement c valid.1) (ih (x.run c) valid.2)

/-- A symbol that no statement sets keeps its value. -/
theorem run_symbols (c : Counter σ) (unset : ∀ x ∈ body, x ≠ .symbol name) :
    (run c body).symbols name = c.symbols name := by
  induction body generalizing c with
  | nil => rfl
  | cons x body ih =>
      rw [List.forall_mem_cons] at unset
      rw [show run c (x :: body) = run (x.run c) body from rfl, ih (x.run c) unset.2]
      cases x with
      | input _ | align _ => rfl
      | symbol other =>
          have apart : name ≠ other := fun same => unset.1 (same ▸ rfl)
          exact Function.update_of_ne apart _ _

/-- A symbol has the value of the counter where it was set last. -/
theorem run_symbol (c : Counter σ) (before : List (Statement σ))
    (unset : ∀ x ∈ body, x ≠ .symbol name) :
    (run c (before ++ .symbol name :: body)).symbols name = some (run c before).dot := by
  rw [run_append, show run (run c before) (.symbol name :: body) =
    run ((run c before).set name) body from rfl, run_symbols _ unset]
  exact Counter.set_symbols _ name

theorem outputSection_symbols (c : Counter σ) (unset : ∀ x ∈ body, x ≠ .symbol name) :
    (outputSection c body).symbols name = c.symbols name := run_symbols _ unset

/-- A symbol set by the last statement is where the section ends. -/
theorem outputSection_last (c : Counter σ) (body : List (Statement σ)) :
    (outputSection c (body ++ [.symbol name])).symbols name =
      some (outputSection c (body ++ [.symbol name])).dot := by
  have ends : (outputSection c (body ++ [.symbol name])).dot =
      (run { c with dot := alignUp c.dot (maxAlign (body ++ [.symbol name])) } body).dot := by
    rw [outputSection, run_append]
    rfl
  rw [ends]
  exact run_symbol _ body (List.forall_mem_nil _)

theorem le_outputSection (c : Counter σ) (valid : ∀ x ∈ body, x.Valid) :
    alignUp c.dot (maxAlign body) ≤ (outputSection c body).dot :=
  le_run { c with dot := alignUp c.dot (maxAlign body) } valid

theorem statement_still (aligned : x.AlignedAt c.dot) :
    (x.run c).dot = c.dot ↔ ∀ y ∈ x.sections, y.size = 0 := by
  cases x with
  | input sections => exact places_still aligned
  | align n =>
      exact ⟨fun _ => List.forall_mem_nil _, fun _ => alignUp_of_dvd aligned.1 aligned.2⟩
  | symbol name => exact ⟨fun _ => List.forall_mem_nil _, fun _ => rfl⟩

/-- A section that starts aligned stays where it is exactly when it is empty. -/
theorem run_still (aligned : ∀ x ∈ body, x.AlignedAt c.dot) :
    (run c body).dot = c.dot ↔ ∀ x ∈ body.flatMap Statement.sections, x.size = 0 := by
  induction body generalizing c with
  | nil => exact ⟨fun _ => List.forall_mem_nil _, fun _ => rfl⟩
  | cons x body ih =>
      rw [List.forall_mem_cons] at aligned
      rw [List.flatMap_cons, List.forall_mem_append, ← statement_still aligned.1]
      have first := le_statement c aligned.1.valid
      have later := le_run (x.run c) fun y hy => (aligned.2 y hy).valid
      constructor
      · intro still
        have here : (x.run c).dot = c.dot := Nat.le_antisymm (Nat.le_trans later still.le) first
        rw [← here] at aligned
        exact ⟨here, (ih aligned.2).mp (still.trans here.symm)⟩
      · intro none
        have here := none.1
        rw [← here] at aligned
        exact ((ih aligned.2).mpr none.2).trans here

/-- An output section is empty exactly when all that is put in it is. -/
theorem outputSection_still (aligned : ∀ n, .align n ∈ body →
      0 < n ∧ n ∣ alignUp c.dot (maxAlign body)) :
    (outputSection c body).dot = alignUp c.dot (maxAlign body) ↔
      ∀ x ∈ body.flatMap Statement.sections, x.size = 0 := by
  apply run_still (c := { c with dot := alignUp c.dot (maxAlign body) })
  intro x hx
  cases x with
  | input sections =>
      intro y hy
      have inBody : y ∈ body.flatMap Statement.sections := List.mem_flatMap.mpr ⟨_, hx, hy⟩
      exact Nat.dvd_trans (align_dvd_maxAlign inBody) (dvd_alignUp _ _)
  | align n => exact aligned n hx
  | symbol _ => trivial

end LocationCounter
