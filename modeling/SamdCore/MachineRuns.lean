import Mathlib.Data.List.Basic
import Mathlib.Data.List.Forall2
import Mathlib.Data.List.Infix

/-!
Machines with inputs and outputs, and the finite runs they have.

An input may be refused: `step s e = none` says that the environment cannot
give `e` in state `s`. A run remembers the states around every step, so that a
statement about a run can speak of any step of it and of what came before.
Nothing here mentions a particular program.
-/
namespace MachineRuns

structure Machine (σ ε ο : Type*) where
  step : σ → ε → Option (σ × ο)

structure Transition (σ ε ο : Type*) where
  pre : σ
  event : ε
  out : ο
  post : σ

variable {σ ε ο τ δ ω : Type*}

/-- The runs of a machine from `s₀`: the steps taken, and the state after them. -/
inductive Machine.Runs (M : Machine σ ε ο) (s₀ : σ) :
    List (Transition σ ε ο) → σ → Prop
  | nil : M.Runs s₀ [] s₀
  | snoc {t : List (Transition σ ε ο)} {s s' : σ} {e : ε} {o : ο} :
      M.Runs s₀ t s → M.step s e = some (s', o) → M.Runs s₀ (t ++ [⟨s, e, o, s'⟩]) s'

namespace Machine
variable {M : Machine σ ε ο} {s₀ s s' : σ} {t t₁ t₂ : List (Transition σ ε ο)}

/-- What holds at the start and is kept by every step that meets the guard
holds after every run whose steps all meet it. -/
theorem Runs.invariant_of_guard {P : σ → Prop} {G : σ → ε → Prop}
    (h : M.Runs s₀ t s) (start : P s₀)
    (step : ∀ s e s' o, P s → G s e → M.step s e = some (s', o) → P s')
    (guard : ∀ x ∈ t, G x.pre x.event) : P s := by
  induction h with
  | nil => exact start
  | snoc _ taken ih =>
      have before := ih fun x hx => guard x (List.mem_append_left _ hx)
      exact step _ _ _ _ before
        (guard _ (List.mem_append_right _ (List.mem_singleton_self _))) taken

theorem Runs.invariant {P : σ → Prop} (h : M.Runs s₀ t s) (start : P s₀)
    (step : ∀ s e s' o, P s → M.step s e = some (s', o) → P s') : P s :=
  h.invariant_of_guard (G := fun _ _ => True) start
    (fun s e s' o hs _ => step s e s' o hs) (fun _ _ => True.intro)

/-- Steps that count are no more than the number counted down by them. -/
theorem Runs.countdown {P : Nat → σ → Prop} {G : σ → ε → Prop} {counts : ε → Bool} {k : Nat}
    (h : M.Runs s₀ t s) (start : P k s₀)
    (step : ∀ k s e s' o, P k s → G s e → M.step s e = some (s', o) →
      if counts e = true then ∃ k', k = k' + 1 ∧ P k' s' else P k s')
    (guard : ∀ x ∈ t, G x.pre x.event) :
    ∃ k', k = k' + t.countP (fun x => counts x.event) ∧ P k' s := by
  induction h with
  | nil => exact ⟨k, rfl, start⟩
  | @snoc t s s' e o _ taken ih =>
      rw [List.forall_mem_append, List.forall_mem_singleton] at guard
      obtain ⟨k', left, before⟩ := ih guard.1
      have after := step k' s e s' o before guard.2 taken
      rw [List.countP_append]
      by_cases counted : counts e = true
      · rw [if_pos counted] at after
        obtain ⟨k'', less, now⟩ := after
        refine ⟨k'', ?_, now⟩
        rw [List.countP_singleton, if_pos counted]
        omega
      · rw [if_neg counted] at after
        refine ⟨k', ?_, after⟩
        rw [List.countP_singleton, if_neg counted]
        exact left

theorem Runs.append (h₁ : M.Runs s₀ t₁ s) (h₂ : M.Runs s t₂ s') :
    M.Runs s₀ (t₁ ++ t₂) s' := by
  induction h₂ with
  | nil => simpa only [List.append_nil] using h₁
  | snoc _ taken ih =>
      rw [← List.append_assoc]
      exact ih.snoc taken

theorem Runs.split (h : M.Runs s₀ (t₁ ++ t₂) s) :
    ∃ m, M.Runs s₀ t₁ m ∧ M.Runs m t₂ s := by
  induction t₂ using List.reverseRecOn generalizing s with
  | nil => exact ⟨s, by simpa only [List.append_nil] using h, .nil⟩
  | append_singleton t₂ x ih =>
      rw [← List.append_assoc] at h
      generalize ht : (t₁ ++ t₂) ++ [x] = t at h
      cases h with
      | nil => simp at ht
      | snoc hprev taken =>
          obtain ⟨ht, hx⟩ := List.append_inj' ht rfl
          subst ht
          obtain ⟨rfl⟩ := List.cons.inj hx
          obtain ⟨m, h₁, h₂⟩ := ih hprev
          exact ⟨m, h₁, h₂.snoc taken⟩

theorem Runs.single {e : ε} {o : ο} (h : M.step s e = some (s', o)) :
    M.Runs s [⟨s, e, o, s'⟩] s' :=
  Runs.snoc .nil h

/-- A step of a run, with the run that leads up to it. -/
theorem Runs.at_step {x : Transition σ ε ο} (h : M.Runs s₀ (t₁ ++ x :: t₂) s) :
    M.Runs s₀ t₁ x.pre ∧ M.step x.pre x.event = some (x.post, x.out) ∧
      M.Runs x.post t₂ s := by
  rw [← List.singleton_append, ← List.append_assoc] at h
  obtain ⟨m, h₁, h₂⟩ := h.split
  generalize ht : t₁ ++ [x] = t at h₁
  cases h₁ with
  | nil => simp at ht
  | snoc hprev taken =>
      obtain ⟨ht, hx⟩ := List.append_inj' ht rfl
      subst ht
      obtain ⟨rfl⟩ := List.cons.inj hx
      exact ⟨hprev, taken, h₂⟩

theorem Runs.of_mem {x : Transition σ ε ο} (h : M.Runs s₀ t s) (hx : x ∈ t) :
    ∃ t₁ t₂, t = t₁ ++ x :: t₂ ∧ M.Runs s₀ t₁ x.pre ∧
      M.step x.pre x.event = some (x.post, x.out) := by
  obtain ⟨t₁, t₂, rfl⟩ := List.append_of_mem hx
  exact ⟨t₁, t₂, rfl, h.at_step.1, h.at_step.2.1⟩

/-- The run on given inputs, when none of them is refused. -/
def exec (M : Machine σ ε ο) : σ → List ε → Option (List (Transition σ ε ο) × σ)
  | s, [] => some ([], s)
  | s, e :: es =>
      match M.step s e with
      | none => none
      | some (s', o) =>
          match M.exec s' es with
          | none => none
          | some (t, s'') => some (⟨s, e, o, s'⟩ :: t, s'')

theorem exec_runs {es : List ε} (h : M.exec s₀ es = some (t, s)) : M.Runs s₀ t s := by
  induction es generalizing s₀ t with
  | nil =>
      simp only [exec, Option.some.injEq, Prod.mk.injEq] at h
      obtain ⟨rfl, rfl⟩ := h
      exact .nil
  | cons e es ih =>
      simp only [exec] at h
      split at h
      · cases h
      · rename_i s₁ o taken
        split at h
        · cases h
        · rename_i t' s'' rest
          simp only [Option.some.injEq, Prod.mk.injEq] at h
          obtain ⟨rfl, rfl⟩ := h
          exact (Runs.single taken).append (ih rest)

theorem runs_exec {es : List ε} (h : (M.exec s₀ es).isSome) :
    M.Runs s₀ ((M.exec s₀ es).get h).1 ((M.exec s₀ es).get h).2 :=
  exec_runs (Option.some_get h).symm

end Machine

/-- `A` can follow every step of `M`: `f` translates the inputs of `M`, and `g`
what `A` answers. -/
def Simulates (M : Machine σ ε ο) (A : Machine τ δ ω) (f : ε → δ) (g : ω → ο)
    (R : σ → τ → Prop) : Prop :=
  ∀ s a e s' o, R s a → M.step s e = some (s', o) →
    ∃ a' w, A.step a (f e) = some (a', w) ∧ g w = o ∧ R s' a'

theorem Simulates.runs {M : Machine σ ε ο} {A : Machine τ δ ω} {f : ε → δ} {g : ω → ο}
    {R : σ → τ → Prop} (sim : Simulates M A f g R) {s₀ s : σ} {a₀ : τ}
    {t : List (Transition σ ε ο)} (start : R s₀ a₀) (h : M.Runs s₀ t s) :
    ∃ u a, A.Runs a₀ u a ∧ R s a ∧
      u.map (·.event) = t.map (fun x => f x.event) ∧
      u.map (fun y => g y.out) = t.map (·.out) := by
  induction h with
  | nil => exact ⟨[], a₀, .nil, start, rfl, rfl⟩
  | snoc _ taken ih =>
      obtain ⟨u, a, hu, hR, hin, hout⟩ := ih
      obtain ⟨a', w, follow, answer, hR'⟩ := sim _ _ _ _ _ hR taken
      refine ⟨u ++ [⟨a, f _, w, a'⟩], a', hu.snoc follow, hR', ?_, ?_⟩
      · simp [hin]
      · simp [hout, answer]

/-- `A` can follow every step of `M` that meets the guard by a run of its own, which
is an account of the step. -/
def Expands (M : Machine σ ε ο) (A : Machine τ δ ω) (G : σ → ε → Prop)
    (P : ε → ο → List (Transition τ δ ω) → Prop) (R : σ → τ → Prop) : Prop :=
  ∀ s a e s' o, R s a → G s e → M.step s e = some (s', o) →
    ∃ u a', A.Runs a u a' ∧ P e o u ∧ R s' a'

theorem Expands.runs {M : Machine σ ε ο} {A : Machine τ δ ω} {G : σ → ε → Prop}
    {P : ε → ο → List (Transition τ δ ω) → Prop} {R : σ → τ → Prop}
    (expands : Expands M A G P R) {s₀ s : σ} {a₀ : τ} {t : List (Transition σ ε ο)}
    (start : R s₀ a₀) (h : M.Runs s₀ t s) (guard : ∀ x ∈ t, G x.pre x.event) :
    ∃ us a, A.Runs a₀ us.flatten a ∧ R s a ∧
      List.Forall₂ (fun x u => P x.event x.out u) t us := by
  induction h with
  | nil => exact ⟨[], a₀, .nil, start, .nil⟩
  | snoc _ taken ih =>
      rw [List.forall_mem_append, List.forall_mem_singleton] at guard
      obtain ⟨us, a, hus, hR, accounts⟩ := ih guard.1
      obtain ⟨u, a', hu, account, hR'⟩ := expands _ _ _ _ _ hR guard.2 taken
      refine ⟨us ++ [u], a', ?_, hR', List.rel_append accounts (.cons account .nil)⟩
      rw [List.flatten_append, List.flatten_singleton]
      exact hus.append hu

/-- The steps that the part `f` of the state takes in a run; `p` reads them off the answers. -/
def projected (f : σ → τ) (p : ο → Option (δ × ω)) (t : List (Transition σ ε ο)) :
    List (Transition τ δ ω) :=
  t.filterMap fun x => (p x.out).map fun y => ⟨f x.pre, y.1, y.2, f x.post⟩

theorem projected_none {f : σ → τ} {p : ο → Option (δ × ω)} (t : List (Transition σ ε ο))
    {x : Transition σ ε ο} (h : p x.out = none) : projected f p (t ++ [x]) = projected f p t := by
  have still : projected f p [x] = [] := List.filterMap_cons_none (congrArg (Option.map _) h)
  rw [projected, List.filterMap_append]
  exact (congrArg (projected f p t ++ ·) still).trans (List.append_nil _)

theorem projected_some {f : σ → τ} {p : ο → Option (δ × ω)} (t : List (Transition σ ε ο))
    {x : Transition σ ε ο} {d : δ} {w : ω} (h : p x.out = some (d, w)) :
    projected f p (t ++ [x]) = projected f p t ++ [⟨f x.pre, d, w, f x.post⟩] := by
  have one : projected f p [x] = [⟨f x.pre, d, w, f x.post⟩] :=
    List.filterMap_cons_some (congrArg (Option.map _) h)
  rw [projected, List.filterMap_append]
  exact congrArg (projected f p t ++ ·) one

/-- Every step of `M` is a step of `A` on a part of the state, or leaves that part. -/
def Projects (M : Machine σ ε ο) (A : Machine τ δ ω) (f : σ → τ) (p : ο → Option (δ × ω)) :
    Prop :=
  ∀ s e s' o, M.step s e = some (s', o) →
    match p o with
    | none => f s' = f s
    | some (d, w) => A.step (f s) d = some (f s', w)

theorem Projects.runs {M : Machine σ ε ο} {A : Machine τ δ ω} {f : σ → τ}
    {p : ο → Option (δ × ω)} (projects : Projects M A f p) {s₀ s : σ}
    {t : List (Transition σ ε ο)} (h : M.Runs s₀ t s) :
    A.Runs (f s₀) (projected f p t) (f s) := by
  induction h with
  | nil => exact .nil
  | @snoc t s s' e o _ taken ih =>
      have step := projects s e s' o taken
      cases answer : p o with
      | none =>
          rw [answer] at step
          rw [projected_none t answer, step]
          exact ih
      | some y =>
          rw [answer] at step
          rw [projected_some t answer]
          exact ih.snoc step

end MachineRuns
