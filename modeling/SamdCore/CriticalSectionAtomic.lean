import SamdCore.CriticalSectionMask

/-!
The critical sections are atomic.

What a call does to shared data is its work and that of the call it makes, and
all of it is done with PRIMASK set. So between two steps of work of one call there
is no work of another, however handlers interrupt each other: whatever the work
is, the data after a run is what the calls leave that are made whole, in the order
they end in, and the part done of the one under way. This is what lets the
serial port be seen call by call. It does not depend on the mask being restored.
-/
namespace SamdCore
open MachineRuns

namespace CriticalSection
variable {ρ υ : Type}

/-- The work that a step of the call `c` amounts to. A called ring works once. -/
def Op.works (c : Call ρ υ) : Op ρ υ → List (Call ρ υ)
  | .work => [c]
  | .call inner => [inner]
  | _ => []

/-- The work of a call from beginning to end. -/
def Call.works (c : Call ρ υ) : List (Call ρ υ) := c.body.flatMap (Op.works c)

namespace Processor

/-- The work that an event does. -/
def worked (s : Processor ρ υ) : InterruptEvent ρ υ → List (Call ρ υ)
  | .advance =>
      match s.context with
      | ⟨c, _, .work :: _⟩ :: _ => [c]
      | _ => []
  | _ => []

/-- The call whose section an event ends, if no other call made it. -/
def ended (s : Processor ρ υ) : InterruptEvent ρ υ → List (Call ρ υ)
  | .advance =>
      match s.context with
      | [⟨c, _, [.enableIrqIfClear _]⟩] => [c]
      | _ => []
  | _ => []

end Processor

def worked (t : List (InterruptStep ρ υ)) : List (Call ρ υ) :=
  t.flatMap fun x => x.pre.worked x.event

def ended (t : List (InterruptStep ρ υ)) : List (Call ρ υ) :=
  t.flatMap fun x => x.pre.ended x.event

/-- The data after so much work, when each call's work does `effect` to it. -/
def perform {δ : Type} (effect : Call ρ υ → δ → δ) (work : List (Call ρ υ)) (data : δ) : δ :=
  work.foldl (fun data c => effect c data) data

/-- The work of a run is that of the calls that ended and of a part of the one under way,
which there is none of while a handler could start. -/
structure Atomic (t : List (InterruptStep ρ υ)) (s : Processor ρ υ) : Prop where
  whole : ∃ part, worked t = (ended t).flatMap Call.works ++ part ∧
    (part ≠ [] → s.primask = true ∧ ∃ f ∈ s.context, part <+: f.call.works)
  data : s.primask = false → ∀ (δ : Type) (effect : Call ρ υ → δ → δ) (start : δ),
    perform effect (worked t) start =
      (ended t).foldl (fun data c => perform effect c.works data) start

/-- The part of a call's work that is done, as the steps left show. -/
inductive Part : Frame ρ υ → List (Call ρ υ) → Prop
  | entered {c : Call ρ υ} {atCall : Bool} : Part ⟨c, atCall, c.steps⟩ []
  | window {c : Call ρ υ} {atCall : Bool} :
      Part ⟨c, atCall, .disableIrq :: (c.body ++ [.enableIrqIfClear c.object])⟩ []
  | inside {c : Call ρ υ} {atCall : Bool} {left : List (Op ρ υ)} {done : List (Call ρ υ)} :
      left ⊆ c.body → done ++ left.flatMap (Op.works c) = c.works →
      Part ⟨c, atCall, left ++ [.enableIrqIfClear c.object]⟩ done
  | resumed {c : Call ρ υ} {atCall : Bool} : Part ⟨c, atCall, []⟩ c.works

/-- The part of the work under way of one flow of control. A call that has ended, or not
begun, has none under way. -/
inductive UnderWay : List (Frame ρ υ) → List (Call ρ υ) → Prop
  | idle : UnderWay [] []
  | outside {f : Frame ρ υ} {done : List (Call ρ υ)} : Part f done →
      (done = [] ∨ f.rest = []) → UnderWay [f] []
  | inside {c : Call ρ υ} {atCall : Bool} {left : List (Op ρ υ)} {done : List (Call ρ υ)} :
      left ⊆ c.body → done ++ left.flatMap (Op.works c) = c.works →
      UnderWay [⟨c, atCall, left ++ [.enableIrqIfClear c.object]⟩] done
  | nested {f : Frame ρ υ} {c : Call ρ υ} {atCall : Bool} {left : List (Op ρ υ)}
      {before done : List (Call ρ υ)} : Part f done → f.call.body = [.work] → left ⊆ c.body →
      before ++ (f.call :: left.flatMap (Op.works c)) = c.works →
      UnderWay [f, ⟨c, atCall, left ++ [.enableIrqIfClear c.object]⟩] (before ++ done)

theorem worked_snoc (t : List (InterruptStep ρ υ)) (x : InterruptStep ρ υ) :
    worked (t ++ [x]) = worked t ++ x.pre.worked x.event := by
  simp [worked]

theorem ended_snoc (t : List (InterruptStep ρ υ)) (x : InterruptStep ρ υ) :
    ended (t ++ [x]) = ended t ++ x.pre.ended x.event := by
  simp [ended]

theorem works_of_body {c : Call ρ υ} (h : c.body = [.work]) : c.works = [c] := by
  rw [Call.works, h]
  rfl

variable {c : Call ρ υ} {atCall : Bool} {op : Op ρ υ} {rest : List (Op ρ υ)}
variable {done part : List (Call ρ υ)}

/-- What the next step of a call does to the part done. -/
inductive Next (c : Call ρ υ) (atCall : Bool) (rest : List (Op ρ υ)) (done : List (Call ρ υ)) :
    Op ρ υ → Prop
  | saves {o : Object ρ υ} : done = [] → Part ⟨c, atCall, rest⟩ [] →
      Next c atCall rest done (.saveMask o)
  | disables {left : List (Op ρ υ)} : done = [] → rest = left ++ [.enableIrqIfClear c.object] →
      left ⊆ c.body → left.flatMap (Op.works c) = c.works → Next c atCall rest done .disableIrq
  | works {left : List (Op ρ υ)} : rest = left ++ [.enableIrqIfClear c.object] →
      left ⊆ c.body → done ++ [c] ++ left.flatMap (Op.works c) = c.works →
      Next c atCall rest done .work
  | calls {inner : Call ρ υ} {left : List (Op ρ υ)} : .call inner ∈ c.body →
      rest = left ++ [.enableIrqIfClear c.object] → left ⊆ c.body →
      done ++ (inner :: left.flatMap (Op.works c)) = c.works →
      Next c atCall rest done (.call inner)
  | resumes {o : Object ρ υ} : rest = [] → done = c.works →
      Next c atCall rest done (.enableIrqIfClear o)

theorem Part.next (h : Part ⟨c, atCall, op :: rest⟩ done) : Next c atCall rest done op := by
  generalize frame : (⟨c, atCall, op :: rest⟩ : Frame ρ υ) = f at h
  cases h with
  | entered =>
      simp only [Frame.mk.injEq, Call.steps_eq, List.cons.injEq] at frame
      obtain ⟨rfl, rfl, rfl, rfl⟩ := frame
      exact .saves rfl .window
  | window =>
      simp only [Frame.mk.injEq, List.cons.injEq] at frame
      obtain ⟨rfl, rfl, rfl, rfl⟩ := frame
      exact .disables rfl rfl (List.Subset.refl _) rfl
  | @inside _ _ left _ within works =>
      simp only [Frame.mk.injEq] at frame
      obtain ⟨rfl, rfl, steps⟩ := frame
      cases left with
      | nil =>
          obtain ⟨rfl, rfl⟩ := List.cons.inj steps
          exact .resumes rfl ((List.append_nil done).symm.trans works)
      | cons first left =>
          obtain ⟨rfl, rfl⟩ := List.cons.inj steps
          obtain ⟨here, later⟩ := List.cons_subset.mp within
          cases Call.works_or_calls here with
          | inl work =>
              subst work
              exact .works rfl later (by rw [List.append_assoc]; exact works)
          | inr call =>
              obtain ⟨inner, rfl⟩ := call
              exact .calls here rfl later works
  | resumed => simp at frame

/-- The steps left inside a section do not begin with the masking. -/
theorem masked_of_inside {G : Prop} {primask : Bool} {saved : Object ρ υ → Bool}
    {left : List (Op ρ υ)} (within : left ⊆ c.body)
    (h : Top G primask saved ⟨c, atCall, left ++ [.enableIrqIfClear c.object]⟩) :
    primask = true := by
  have first (op : Op ρ υ) (more : List (Op ρ υ))
      (begins : op :: more = left ++ [.enableIrqIfClear c.object]) :
      op ≠ .saveMask c.object ∧ op ≠ .disableIrq := by
    cases left with
    | nil =>
        obtain ⟨rfl, _⟩ := List.cons.inj begins
        exact ⟨by simp, by simp⟩
    | cons other left =>
        obtain ⟨rfl, _⟩ := List.cons.inj begins
        cases Call.works_or_calls (List.cons_subset.mp within).1 with
        | inl work => simp [work]
        | inr call =>
            obtain ⟨inner, called⟩ := call
            simp [called]
  generalize frame :
    (⟨c, atCall, left ++ [.enableIrqIfClear c.object]⟩ : Frame ρ υ) = f at h
  cases h with
  | entered =>
      simp only [Frame.enter, Frame.mk.injEq, Call.steps_eq] at frame
      obtain ⟨rfl, rfl, steps⟩ := frame
      exact absurd rfl (first _ _ steps.symm).1
  | window _ =>
      simp only [Frame.mk.injEq] at frame
      obtain ⟨rfl, rfl, steps⟩ := frame
      exact absurd rfl (first _ _ steps.symm).2
  | inside masked _ _ => exact masked
  | resumed _ => simp at frame

theorem UnderWay.masked {G : Prop} {primask : Bool} {saved : Object ρ υ → Bool}
    {k : List (Frame ρ υ)} (h : UnderWay k part) (sound : Context G primask saved k)
    (some : part ≠ []) : primask = true := by
  cases h with
  | idle => exact absurd rfl some
  | outside _ _ => exact absurd rfl some
  | inside within _ =>
      cases sound with
      | single top => exact masked_of_inside within top
  | nested _ _ _ _ =>
      cases sound with
      | nested top set _ _ _ => exact top.masks set

variable {s s' : Processor ρ υ} {event : InterruptEvent ρ υ} {out : Option (Returned ρ υ)}
variable {t : List (InterruptStep ρ υ)} {callers : List (Frame ρ υ)}

/-- The work of a step moves from what is under way to what has ended. -/
def Conserves (s s' : Processor ρ υ) (event : InterruptEvent ρ υ) (part : List (Call ρ υ)) :
    Prop :=
  ∃ part', UnderWay s'.context part' ∧
    part ++ s.worked event = (s.ended event).flatMap Call.works ++ part'

theorem UnderWay.leave (h : UnderWay s.context part)
    (context : s.context = ⟨c, atCall, []⟩ :: callers) : UnderWay callers part := by
  rw [context] at h
  generalize frames : (⟨c, atCall, []⟩ : Frame ρ υ) :: callers = k at h
  cases h with
  | idle => cases frames
  | outside _ _ =>
      obtain ⟨rfl, rfl⟩ := List.cons.inj frames
      exact .idle
  | inside _ _ =>
      obtain ⟨same, _⟩ := List.cons.inj frames
      simp at same
  | nested inner body within works =>
      obtain ⟨rfl, rfl⟩ := List.cons.inj frames
      generalize frame : (⟨c, atCall, []⟩ : Frame ρ υ) = f at inner
      cases inner with
      | entered => simp [Call.steps_eq] at frame
      | window => simp at frame
      | inside _ _ => simp at frame
      | resumed =>
          simp only [Frame.mk.injEq] at frame
          obtain ⟨rfl, rfl, -⟩ := frame
          refine .inside within ?_
          rw [works_of_body body, List.append_assoc]
          exact works

theorem Part.begins {f : Frame ρ υ} (h : Part f done) : done <+: f.call.works := by
  cases h with
  | entered | window => exact List.nil_prefix
  | inside _ works => exact ⟨_, works⟩
  | resumed => exact List.prefix_rfl

/-- What is under way is a beginning of the work of one call. -/
theorem UnderWay.of_one {k : List (Frame ρ υ)} (h : UnderWay k part) (some : part ≠ []) :
    ∃ f ∈ k, part <+: f.call.works := by
  cases h with
  | idle => exact absurd rfl some
  | outside _ _ => exact absurd rfl some
  | inside within works => exact ⟨_, List.mem_singleton_self _, ⟨_, works⟩⟩
  | @nested f c _ left before done inner body within works =>
      refine ⟨_, List.mem_cons_of_mem _ (List.mem_singleton_self _), ?_⟩
      have all : before ++ [f.call] ++ left.flatMap (Op.works c) = c.works := by
        rw [List.append_assoc]
        exact works
      refine List.IsPrefix.trans ?_ ⟨_, all⟩
      rw [List.prefix_append_right_inj, ← works_of_body body]
      exact inner.begins

/-- Work done call by call. -/
theorem perform_flatMap {δ : Type} (effect : Call ρ υ → δ → δ) (calls : List (Call ρ υ))
    (data : δ) : perform effect (calls.flatMap Call.works) data =
      calls.foldl (fun data c => perform effect c.works data) data := by
  rw [perform, List.foldl_flatMap]
  rfl

/-- The invariant: interrupted code has no work under way. -/
structure Tracked (t : List (InterruptStep ρ υ)) (s : Processor ρ υ) (part : List (Call ρ υ)) :
    Prop where
  running : UnderWay s.context part
  interrupted : ∀ k ∈ s.suspended, UnderWay k []
  log : worked t = (ended t).flatMap Call.works ++ part

namespace Tracked

/-- A step that does no work and ends no call. -/
theorem idle_step (h : Tracked t s part) (still : s.worked event = [])
    (none : s.ended event = []) (running : UnderWay s'.context part)
    (interrupted : ∀ k ∈ s'.suspended, UnderWay k []) :
    Tracked (t ++ [⟨s, event, out, s'⟩]) s' part := by
  refine ⟨running, interrupted, ?_⟩
  rw [worked_snoc, ended_snoc, still, none, List.append_nil, List.append_nil]
  exact h.log

theorem advance_step (h : Tracked t s part) (moved : Conserves s s' .advance part)
    (same : s'.suspended = s.suspended) :
    ∃ part', Tracked (t ++ [⟨s, .advance, out, s'⟩]) s' part' := by
  obtain ⟨part', running, conserved⟩ := moved
  refine ⟨part', running, ?_, ?_⟩
  · rw [same]
    exact h.interrupted
  · rw [worked_snoc, ended_snoc, h.log, List.append_assoc, conserved, List.flatMap_append,
      List.append_assoc]

/-- Nothing is under way when a handler starts, nor when it returns. -/
theorem none_under_way (h : Tracked t s part) (sound : Sound False s)
    (clear : ¬ s.primask = true) : part = [] := by
  by_contra some
  exact clear (h.running.masked sound.running some)

end Tracked

variable [DecidableEq ρ] [DecidableEq υ]

/-- The next step of a call that no other call made. -/
theorem Part.conserves (h : Part ⟨c, atCall, op :: rest⟩ part)
    (context : s.context = [⟨c, atCall, op :: rest⟩]) :
    Conserves s (s.execute ⟨c, atCall, rest⟩ [] op) .advance part := by
  rw [Conserves, Processor.worked, Processor.ended, context]
  cases h.next with
  | saves none next =>
      rw [none]
      exact ⟨[], .outside next (Or.inl rfl), rfl⟩
  | @disables left none steps within works =>
      rw [none, steps]
      exact ⟨[], .inside within works, rfl⟩
  | @works left steps within works =>
      rw [steps]
      exact ⟨part ++ [c], .inside within works, rfl⟩
  | @calls inner left called steps within works =>
      rw [steps]
      exact ⟨part ++ [], .nested .entered (Call.called called).1 within works, rfl⟩
  | resumes steps all =>
      rw [steps, all]
      refine ⟨[], .outside .resumed (Or.inr rfl), ?_⟩
      rw [List.flatMap_singleton]

theorem nested_conserves {g : Frame ρ υ} {left : List (Op ρ υ)} {before : List (Call ρ υ)}
    (h : Part ⟨c, atCall, op :: rest⟩ done) (body : c.body = [.work])
    (within : left ⊆ g.call.body)
    (works : before ++ (c :: left.flatMap (Op.works g.call)) = g.call.works)
    (steps : g = ⟨g.call, g.atCall, left ++ [.enableIrqIfClear g.call.object]⟩)
    (context : s.context = [⟨c, atCall, op :: rest⟩, g]) :
    Conserves s (s.execute ⟨c, atCall, rest⟩ [g] op) .advance (before ++ done) := by
  have outer {f : Frame ρ υ} {now : List (Call ρ υ)} (inner : Part f now) (same : f.call = c) :
      UnderWay [f, g] (before ++ now) := by
    rw [steps]
    exact .nested inner (by rw [same]; exact body) within (by rw [same]; exact works)
  rw [Conserves, Processor.worked, Processor.ended, context]
  cases h.next with
  | saves none next =>
      rw [none]
      exact ⟨before ++ [], outer next rfl, List.append_nil _⟩
  | disables none more inside rest =>
      rw [none, more]
      exact ⟨before ++ [], outer (.inside inside rest) rfl, List.append_nil _⟩
  | works more inside rest =>
      rw [more]
      exact ⟨before ++ (done ++ [c]), outer (.inside inside rest) rfl, List.append_assoc ..⟩
  | calls called _ _ _ =>
      rw [body] at called
      cases List.mem_singleton.mp called
  | resumes none all =>
      rw [none, all]
      exact ⟨before ++ c.works, outer .resumed rfl, List.append_nil _⟩

theorem UnderWay.advance (h : UnderWay s.context part)
    (context : s.context = ⟨c, atCall, op :: rest⟩ :: callers) :
    Conserves s (s.execute ⟨c, atCall, rest⟩ callers op) .advance part := by
  rw [context] at h
  generalize frames : (⟨c, atCall, op :: rest⟩ : Frame ρ υ) :: callers = k at h
  cases h with
  | idle => cases frames
  | outside inner outside =>
      obtain ⟨rfl, rfl⟩ := List.cons.inj frames
      cases outside with
      | inl none =>
          rw [none] at inner
          exact inner.conserves context
      | inr ended => cases ended
  | inside within works =>
      obtain ⟨same, rfl⟩ := List.cons.inj frames
      have inner : Part ⟨c, atCall, op :: rest⟩ part := by
        rw [same]
        exact .inside within works
      exact inner.conserves context
  | nested inner body within works =>
      obtain ⟨rfl, rfl⟩ := List.cons.inj frames
      exact nested_conserves inner body within works rfl context

namespace Tracked

theorem execute_suspended (s : Processor ρ υ) (f : Frame ρ υ) (callers : List (Frame ρ υ))
    (op : Op ρ υ) : (s.execute f callers op).suspended = s.suspended := by
  cases op <;> rfl

theorem step (h : Tracked t s part) (sound : Sound False s)
    (taken : s.step event = some (s', out)) :
    ∃ part', Tracked (t ++ [⟨s, event, out, s'⟩]) s' part' := by
  cases event with
  | call c =>
      simp only [Processor.step] at taken
      split at taken
      · rename_i context
        cases taken
        have running := h.running
        rw [context] at running
        cases running
        exact ⟨[], h.idle_step rfl rfl (.outside .entered (Or.inl rfl)) h.interrupted⟩
      · cases taken
  | advance =>
      simp only [Processor.step] at taken
      split at taken
      · cases taken
      · rename_i context
        cases taken
        refine ⟨part, h.idle_step ?_ ?_ (h.running.leave context) h.interrupted⟩
        · rw [Processor.worked, context]
        · rw [Processor.ended, context]
      · rename_i context
        cases taken
        exact h.advance_step (h.running.advance context) (execute_suspended ..)
  | noInterrupts | interrupts =>
      simp only [Processor.step] at taken
      split at taken
      · cases taken
        exact ⟨part, h.idle_step rfl rfl h.running h.interrupted⟩
      · cases taken
  | preempt =>
      simp only [Processor.step] at taken
      split at taken
      · cases taken
      · rename_i clear
        cases taken
        obtain rfl := h.none_under_way sound clear
        exact ⟨[], h.idle_step rfl rfl .idle (List.forall_mem_cons.mpr ⟨h.running, h.interrupted⟩)⟩
  | handlerReturn =>
      simp only [Processor.step] at taken
      split at taken
      · rename_i suspended
        split at taken
        · cases taken
        · rename_i clear
          cases taken
          obtain rfl := h.none_under_way sound clear
          have interrupted := h.interrupted
          rw [suspended, List.forall_mem_cons] at interrupted
          exact ⟨[], h.idle_step rfl rfl interrupted.1 interrupted.2⟩
      · cases taken

end Tracked

variable {s₀ : Processor ρ υ} {primask₀ : Bool} {saved₀ : Object ρ υ → Bool}

theorem tracked_run (h : (interruptMachine ρ υ).Runs (started primask₀ saved₀) t s) :
    ∃ part, Tracked t s part := by
  induction h with
  | nil => exact ⟨[], .idle, List.forall_mem_nil _, rfl⟩
  | snoc before taken ih =>
      obtain ⟨part, tracked⟩ := ih
      exact tracked.step (sound_run before nofun) taken

/-- The calls are atomic, in every run, and whatever happens to the mask. -/
theorem calls_atomic (h : (interruptMachine ρ υ).Runs (started primask₀ saved₀) t s) :
    Atomic t s := by
  obtain ⟨part, tracked⟩ := tracked_run h
  have sound : Sound False s := sound_run h nofun
  refine ⟨⟨part, tracked.log, fun some => ?_⟩, fun clear δ effect start => ?_⟩
  · exact ⟨tracked.running.masked sound.running some, tracked.running.of_one some⟩
  · have none := tracked.none_under_way sound (by rw [clear]; exact Bool.false_ne_true)
    rw [tracked.log, none, List.append_nil]
    exact perform_flatMap effect (ended t) start

/-- Two handlers, one in the other, each between the steps of a `write`. -/
theorem calls_atomic_session :
    let whole := List.replicate 11 InterruptEvent.advance
    let run := (interruptMachine Unit Unit).exec (started false fun _ => false)
      ([.call (.write ()), .preempt, .call (.write ()), .advance, .preempt,
        .call (.serialRead ())] ++ whole ++ [.handlerReturn] ++ List.replicate 10 .advance ++
        [.handlerReturn] ++ whole)
    ∃ ran : run.isSome, Atomic (run.get ran).1 (run.get ran).2 :=
  ⟨by decide +kernel, calls_atomic (Machine.runs_exec (by decide +kernel))⟩

end CriticalSection
end SamdCore
