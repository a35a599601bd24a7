import SamdCore.CriticalSectionModel

/-!
Whether the critical sections leave the interrupt mask as they found it.

The mask is saved in a member of the object, and PRIMASK set one step later. In
between a handler may save on the same object; if it does so with PRIMASK set, the
interrupted call will find a 1 that it did not write and leave interrupts off. No
handler runs inside a section in any case, and a call made with PRIMASK set always
returns with it set; a call made with it clear returns with it clear as long as
nothing is saved over its member in this way.
-/
namespace SamdCore
open MachineRuns

namespace CriticalSection
variable {ρ υ : Type}

/-- The call has saved the mask in `o`, and not yet set it. -/
def Frame.inWindow [DecidableEq ρ] [DecidableEq υ] (o : Object ρ υ) (f : Frame ρ υ) : Bool :=
  f.call.object == o && f.rest.head? == some .disableIrq

/-- The step does not save a set mask on the object of an interrupted call that is between
its save and its disable. -/
def Processor.keepsWindows [DecidableEq ρ] [DecidableEq υ] (s : Processor ρ υ) :
    InterruptEvent ρ υ → Bool
  | .advance =>
      match s.context with
      | ⟨_, _, .saveMask o :: _⟩ :: _ =>
          !(s.primask && s.suspended.any fun k => k.any (·.inWindow o))
      | _ => true
  | _ => true

/-- Every call returns with the mask it was made with, and no handler runs inside a section. -/
structure RestoresMask (t : List (InterruptStep ρ υ)) : Prop where
  restored : ∀ x ∈ t, ∀ r, x.out = some r → r.atReturn = r.atCall
  undisturbed : ∀ x ∈ t, ∀ k ∈ x.post.suspended, ∀ f ∈ k, f.masked = false

/-- Where a call can be, and what then holds of the mask. Its member can be relied on if
the run keeps windows (`G`), or if it was made with PRIMASK set. -/
inductive Top (G : Prop) (primask : Bool) (saved : Object ρ υ → Bool) : Frame ρ υ → Prop
  | entered {c : Call ρ υ} : Top G primask saved (.enter c primask)
  | window {c : Call ρ υ} :
      (G ∨ primask = true → saved c.object = primask) →
      Top G primask saved ⟨c, primask, .disableIrq :: (c.body ++ [.enableIrqIfClear c.object])⟩
  | inside {c : Call ρ υ} {atCall : Bool} {left : List (Op ρ υ)} :
      primask = true → (G ∨ atCall = true → saved c.object = atCall) → left ⊆ c.body →
      Top G primask saved ⟨c, atCall, left ++ [.enableIrqIfClear c.object]⟩
  | resumed {c : Call ρ υ} {atCall : Bool} :
      (G ∨ atCall = true → primask = atCall) → Top G primask saved ⟨c, atCall, []⟩

/-- A call that waits for one it has made. -/
structure Waiting (G : Prop) (saved : Object ρ υ → Bool) (f : Frame ρ υ) : Prop where
  saved_eq : G ∨ f.atCall = true → saved f.call.object = f.atCall
  rest_eq : ∃ left ⊆ f.call.body, f.rest = left ++ [.enableIrqIfClear f.call.object]

/-- The calls of one flow of control: none, one, or a serial's and in it a ring's. -/
inductive Context (G : Prop) (primask : Bool) (saved : Object ρ υ → Bool) :
    List (Frame ρ υ) → Prop
  | idle : Context G primask saved []
  | single {f : Frame ρ υ} : Top G primask saved f → Context G primask saved [f]
  | nested {f g : Frame ρ υ} : Top G primask saved f → f.atCall = true →
      f.call.body = [.work] → Waiting G saved g → f.call.object ≠ g.call.object →
      Context G primask saved [f, g]

/-- The invariant: what is interrupted was interrupted with PRIMASK clear. -/
structure Sound (G : Prop) (s : Processor ρ υ) : Prop where
  running : Context G s.primask s.irqStatus s.context
  interrupted : ∀ k ∈ s.suspended, Context G false s.irqStatus k

variable {G : Prop} {primask value : Bool} {saved : Object ρ υ → Bool} {o : Object ρ υ}
variable {c : Call ρ υ} {atCall : Bool} {f g : Frame ρ υ} {k : List (Frame ρ υ)}
variable {op : Op ρ υ} {rest : List (Op ρ υ)}

namespace Top

theorem masks (h : Top G primask saved f) (set : f.atCall = true) : primask = true := by
  cases h with
  | entered => exact set
  | window _ => exact set
  | inside masked _ _ => exact masked
  | resumed kept => exact (kept (.inr set)).trans set

theorem returned (h : Top G primask saved ⟨c, atCall, []⟩) (trusted : G ∨ atCall = true) :
    primask = atCall := by
  generalize frame : (⟨c, atCall, []⟩ : Frame ρ υ) = f at h
  cases h with
  | entered | window _ | inside _ _ _ => simp [Frame.enter, Call.steps_eq] at frame
  | resumed kept =>
      simp only [Frame.mk.injEq] at frame
      obtain ⟨rfl, rfl, -⟩ := frame
      exact kept trusted

/-- With PRIMASK clear no call is between its disable and its resume. -/
theorem not_masked (h : Top G false saved f) : f.masked = false := by
  cases h with
  | @entered c =>
      have all : ¬ c.steps.length + 2 ≤ c.steps.length := by omega
      simp only [Frame.masked, Frame.enter, all, decide_false, Bool.and_false]
  | window _ => simp [Frame.masked, Call.steps_eq]
  | inside masked _ _ => cases masked
  | resumed _ => rfl

end Top

theorem Context.not_masked (h : Context G false saved k) : ∀ f ∈ k, f.masked = false := by
  cases h with
  | idle => exact List.forall_mem_nil _
  | single top => simpa using top.not_masked
  | nested top set _ _ _ => cases top.masks set

variable [DecidableEq ρ] [DecidableEq υ]

namespace Top

/-- What the next step of a call does. -/
inductive Taken (G : Prop) (primask : Bool) (saved : Object ρ υ → Bool) (c : Call ρ υ)
    (atCall : Bool) (rest : List (Op ρ υ)) : Op ρ υ → Prop
  | saves : Top G primask (Function.update saved c.object primask) ⟨c, atCall, rest⟩ →
      Taken G primask saved c atCall rest (.saveMask c.object)
  | disables : Top G true saved ⟨c, atCall, rest⟩ → Taken G primask saved c atCall rest .disableIrq
  | works : Top G primask saved ⟨c, atCall, rest⟩ → Taken G primask saved c atCall rest .work
  | calls {inner : Call ρ υ} : primask = true → .call inner ∈ c.body →
      Waiting G saved ⟨c, atCall, rest⟩ → Taken G primask saved c atCall rest (.call inner)
  | resumes : Top G (if !saved c.object then false else primask) saved ⟨c, atCall, rest⟩ →
      Taken G primask saved c atCall rest (.enableIrqIfClear c.object)

theorem taken (h : Top G primask saved ⟨c, atCall, op :: rest⟩) :
    Taken G primask saved c atCall rest op := by
  generalize frame : (⟨c, atCall, op :: rest⟩ : Frame ρ υ) = f at h
  cases h with
  | entered =>
      simp only [Frame.enter, Frame.mk.injEq] at frame
      obtain ⟨rfl, rfl, steps⟩ := frame
      rw [Call.steps_eq] at steps
      obtain ⟨rfl, rfl⟩ := List.cons.inj steps
      exact .saves (.window fun _ => Function.update_self ..)
  | window kept =>
      simp only [Frame.mk.injEq] at frame
      obtain ⟨rfl, rfl, steps⟩ := frame
      obtain ⟨rfl, rfl⟩ := List.cons.inj steps
      exact .disables (.inside rfl kept (List.Subset.refl _))
  | @inside _ _ left masked kept within =>
      simp only [Frame.mk.injEq] at frame
      obtain ⟨rfl, rfl, steps⟩ := frame
      cases left with
      | nil =>
          obtain ⟨rfl, rfl⟩ := List.cons.inj steps
          refine .resumes (.resumed fun trusted => ?_)
          rw [kept trusted, masked]
          cases atCall <;> rfl
      | cons first left =>
          obtain ⟨rfl, rfl⟩ := List.cons.inj steps
          have later := (List.cons_subset.mp within).2
          rcases Call.works_or_calls (List.cons_subset.mp within).1 with rfl | ⟨inner, rfl⟩
          · exact .works (.inside masked kept later)
          · exact .calls masked (List.cons_subset.mp within).1 ⟨kept, left, later, rfl⟩
  | resumed _ => simp at frame

/-- A save elsewhere, or in the call's own window with PRIMASK clear, does no harm. -/
theorem save (h : Top G false saved f) (quiet : G → value = true → f.inWindow o = false) :
    Top G false (Function.update saved o value) f := by
  cases h with
  | entered => exact .entered
  | @window c kept =>
      refine .window fun trusted => ?_
      by_cases same : c.object = o
      · have keeps : G := trusted.resolve_right Bool.false_ne_true
        rw [same, Function.update_self]
        by_contra set
        simp [Frame.inWindow, same] at quiet
        exact set (quiet keeps)
      · rw [Function.update_of_ne same]
        exact kept trusted
  | inside masked _ _ => cases masked
  | resumed kept => exact .resumed kept

end Top

theorem Context.save (h : Context G false saved k)
    (quiet : G → value = true → ∀ f ∈ k, f.inWindow o = false) :
    Context G false (Function.update saved o value) k := by
  cases h with
  | idle => exact .idle
  | single top => exact .single (top.save fun keeps set => quiet keeps set _ List.mem_cons_self)
  | nested top set _ _ _ => cases top.masks set

variable {s s' : Processor ρ υ} {event : InterruptEvent ρ υ} {out : Option (Returned ρ υ)}
variable {t : List (InterruptStep ρ υ)}

namespace Sound

theorem interrupted_save {callers : List (Frame ρ υ)} (h : Sound G s)
    (context : s.context = ⟨c, atCall, .saveMask o :: rest⟩ :: callers)
    (quiet : G → s.keepsWindows .advance = true) :
    ∀ k ∈ s.suspended, Context G false (Function.update s.irqStatus o s.primask) k := by
  intro k hk
  refine (h.interrupted k hk).save fun keeps set f hf => ?_
  have kept := quiet keeps
  simp only [Processor.keepsWindows, context, set, Bool.true_and, Bool.not_eq_true',
    List.any_eq_false, List.any_eq_true, not_exists, not_and, Bool.not_eq_true] at kept
  exact kept k hk f hf

/-- The next step of a call, alone or a ring's made by a serial's. -/
theorem advance {callers : List (Frame ρ υ)} (h : Sound G s)
    (context : s.context = ⟨c, atCall, op :: rest⟩ :: callers)
    (quiet : G → s.keepsWindows .advance = true) :
    Sound G (s.execute ⟨c, atCall, rest⟩ callers op) := by
  have running := h.running
  rw [context] at running
  cases running with
  | single top =>
      cases top.taken with
      | saves next => exact ⟨.single next, h.interrupted_save context quiet⟩
      | disables next => exact ⟨.single next, h.interrupted⟩
      | works next => exact ⟨.single next, h.interrupted⟩
      | calls masked calls waiting =>
          obtain ⟨works, other⟩ := Call.called calls
          exact ⟨.nested .entered masked works waiting other, h.interrupted⟩
      | resumes next => exact ⟨.single next, h.interrupted⟩
  | nested top set works waiting other =>
      cases top.taken with
      | saves next =>
          refine ⟨.nested next set works ⟨fun trusted => ?_, waiting.rest_eq⟩ other,
            h.interrupted_save context quiet⟩
          exact (Function.update_of_ne other.symm _ _).trans (waiting.saved_eq trusted)
      | disables next => exact ⟨.nested next set works waiting other, h.interrupted⟩
      | works next => exact ⟨.nested next set works waiting other, h.interrupted⟩
      | calls _ calls _ => simp [works] at calls
      | resumes next => exact ⟨.nested next set works waiting other, h.interrupted⟩

omit [DecidableEq ρ] [DecidableEq υ] in
/-- A return, and the mask it leaves. -/
theorem leave {callers : List (Frame ρ υ)} (h : Sound G s)
    (context : s.context = ⟨c, atCall, []⟩ :: callers) :
    Sound G { s with context := callers } ∧ (G ∨ atCall = true → s.primask = atCall) := by
  have running := h.running
  rw [context] at running
  cases running with
  | single top => exact ⟨⟨.idle, h.interrupted⟩, top.returned⟩
  | @nested _ g top set _ waiting _ =>
      obtain ⟨left, within, rest⟩ := waiting.rest_eq
      have inside : Top G s.primask s.irqStatus g := by
        rw [show g = ⟨g.call, g.atCall, g.rest⟩ from rfl, rest]
        exact .inside (top.masks set) waiting.saved_eq within
      exact ⟨⟨.single inside, h.interrupted⟩, top.returned⟩

theorem step (h : Sound G s) (taken : s.step event = some (s', out))
    (quiet : G → s.keepsWindows event = true) :
    Sound G s' ∧ ∀ r, out = some r → G ∨ r.atCall = true → r.atReturn = r.atCall := by
  cases event with
  | call c =>
      simp only [Processor.step] at taken
      split at taken
      · cases taken
        exact ⟨⟨.single .entered, h.interrupted⟩, nofun⟩
      · cases taken
  | advance =>
      simp only [Processor.step] at taken
      split at taken
      · cases taken
      · rename_i context
        cases taken
        refine ⟨(h.leave context).1, ?_⟩
        rintro r ⟨⟩
        exact (h.leave context).2
      · rename_i context
        cases taken
        exact ⟨h.advance context quiet, nofun⟩
  | noInterrupts | interrupts =>
      simp only [Processor.step] at taken
      split at taken
      · rename_i context
        cases taken
        refine ⟨⟨?_, h.interrupted⟩, nofun⟩
        rw [context]
        exact .idle
      · cases taken
  | preempt =>
      simp only [Processor.step] at taken
      split at taken
      · cases taken
      · rename_i clear
        cases taken
        have running := h.running
        rw [show s.primask = false from Bool.eq_false_iff.mpr clear] at running
        exact ⟨⟨.idle, List.forall_mem_cons.mpr ⟨running, h.interrupted⟩⟩, nofun⟩
  | handlerReturn =>
      simp only [Processor.step] at taken
      split at taken
      · split at taken
        · cases taken
        · rename_i suspended clear
          cases taken
          have interrupted := h.interrupted
          rw [suspended, List.forall_mem_cons] at interrupted
          refine ⟨⟨?_, interrupted.2⟩, nofun⟩
          rw [show s.primask = false from Bool.eq_false_iff.mpr clear]
          exact interrupted.1
      · cases taken

end Sound

variable {s₀ : Processor ρ υ} {primask₀ : Bool} {saved₀ : Object ρ υ → Bool}

theorem sound_run (h : (interruptMachine ρ υ).Runs (started primask₀ saved₀) t s)
    (quiet : G → ∀ x ∈ t, x.pre.keepsWindows x.event = true) : Sound G s := by
  induction h with
  | nil => exact ⟨.idle, List.forall_mem_nil _⟩
  | snoc _ taken ih =>
      simp only [List.forall_mem_append, List.forall_mem_singleton] at quiet
      exact ((ih fun keeps => (quiet keeps).1).step taken fun keeps => (quiet keeps).2).1

/-- A call made with PRIMASK set returns with it set, whatever is saved over members. -/
theorem mask_kept (h : (interruptMachine ρ υ).Runs (started primask₀ saved₀) t s) :
    ∀ x ∈ t, ∀ r, x.out = some r → r.atCall = true → r.atReturn = true := by
  intro x hx r out set
  obtain ⟨t₁, t₂, rfl, before, taken⟩ := h.of_mem hx
  have sound := sound_run (G := False) before nofun
  exact ((sound.step taken nofun).2 r out (.inr set)).trans set

/-- No handler runs inside a section, in any run. -/
theorem undisturbed (h : (interruptMachine ρ υ).Runs (started primask₀ saved₀) t s) :
    ∀ x ∈ t, ∀ k ∈ x.post.suspended, ∀ f ∈ k, f.masked = false := by
  intro x hx k hk
  obtain ⟨t₁, t₂, rfl, before, taken⟩ := h.of_mem hx
  have sound := sound_run (G := False) before nofun
  exact ((sound.step taken nofun).1.interrupted k hk).not_masked

/-- Critical sections restore the mask, in every run that saves no set mask over that of a
call interrupted between its save and its disable. -/
theorem restoresMask (h : (interruptMachine ρ υ).Runs (started primask₀ saved₀) t s)
    (keeps : ∀ x ∈ t, x.pre.keepsWindows x.event = true) : RestoresMask t := by
  refine ⟨?_, undisturbed h⟩
  intro x hx r out
  obtain ⟨t₁, t₂, rfl, before, taken⟩ := h.of_mem hx
  rw [List.forall_mem_append] at keeps
  have sound := sound_run (G := True) before fun _ => keeps.1
  exact (sound.step taken fun _ => keeps.2 x List.mem_cons_self).2 r out (.inl trivial)

/-- A handler writes while `write` is between its two steps: the mask is clear again. -/
theorem restoresMask_session :
    let ten := List.replicate 10 InterruptEvent.advance
    let run := (interruptMachine Unit Unit).exec (started false fun _ => false)
      ([.call (.write ()), .advance, .preempt, .call (.write ()), .advance] ++ ten ++
        [.preempt, .noInterrupts, .call (.read (.own ()))] ++ List.replicate 5 .advance ++
        [.interrupts, .handlerReturn, .handlerReturn] ++ ten)
    ∃ ran : run.isSome, RestoresMask (run.get ran).1 :=
  ⟨by decide +kernel,
    restoresMask (Machine.runs_exec (by decide +kernel)) (by decide +kernel)⟩

/-- The same handler, with interrupts off around its `write`: they stay off. -/
theorem mask_left_set :
    let ten := List.replicate 10 InterruptEvent.advance
    let run := (interruptMachine Unit Unit).exec (started false fun _ => false)
      ([.call (.write ()), .advance, .preempt, .noInterrupts, .call (.write ()), .advance] ++ ten ++
        [.interrupts, .handlerReturn] ++ ten)
    ∃ ran : run.isSome, ¬ RestoresMask (run.get ran).1 := by
  intro ten run
  refine ⟨by decide +kernel, fun h => ?_⟩
  have returned := h.restored (run.get (by decide +kernel)).1[27]
    (List.getElem_mem (by decide +kernel)) ⟨.write (), false, true⟩ (by decide +kernel)
  cases returned

end CriticalSection
end SamdCore
