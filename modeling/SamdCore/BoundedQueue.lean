import SamdCore.MachineRuns

/-!
The bounded first-in first-out queue, as a machine that answers every call.
It is what a ring buffer is for, said without pointers: the queue is the list of
the values accepted and not yet taken, oldest first.
-/
namespace BoundedQueue
open MachineRuns

inductive QueueOp (α : Type*)
  | enqueue (x : α)
  | dequeue
  | clear

inductive QueueReply (α : Type*)
  | accepted
  | refused
  | taken (x : α)
  | empty
  | cleared

variable {α : Type*}

def respond (capacity : Nat) (q : List α) : QueueOp α → List α × QueueReply α
  | .enqueue x => if q.length < capacity then (q ++ [x], .accepted) else (q, .refused)
  | .dequeue =>
      match q with
      | [] => ([], .empty)
      | x :: rest => (rest, .taken x)
  | .clear => ([], .cleared)

def boundedQueue (α : Type*) (capacity : Nat) :
    Machine (List α) (QueueOp α) (QueueReply α) where
  step q op := some (respond capacity q op)

/-- A call of the queue and its answer. -/
def Answered (y : Transition (List α) (QueueOp α) (QueueReply α)) : QueueOp α × QueueReply α :=
  (y.event, y.out)

variable {capacity : Nat}

/-- Values that fit are accepted one after the other. -/
theorem enqueues (q xs : List α) (fits : q.length + xs.length ≤ capacity) :
    ∃ u, (boundedQueue α capacity).Runs q u (q ++ xs) ∧
      u.map Answered = xs.map fun x => (.enqueue x, .accepted) := by
  induction xs generalizing q with
  | nil =>
      rw [List.append_nil]
      exact ⟨[], .nil, rfl⟩
  | cons x xs ih =>
      rw [List.length_cons] at fits
      have room : q.length < capacity := by omega
      have first : (boundedQueue α capacity).step q (.enqueue x) = some (q ++ [x], .accepted) := by
        simp only [boundedQueue, respond, if_pos room]
      have shorter : (q ++ [x]).length + xs.length ≤ capacity := by
        rw [List.length_append, List.length_singleton]
        omega
      obtain ⟨u, runs, answers⟩ := ih (q ++ [x]) shorter
      rw [List.append_assoc, List.singleton_append] at runs
      refine ⟨[_] ++ u, (Machine.Runs.single first).append runs, ?_⟩
      rw [List.map_append, answers]
      rfl

theorem enqueue_refused {q : List α} (full : capacity ≤ q.length) (x : α) :
    (boundedQueue α capacity).step q (.enqueue x) = some (q, .refused) := by
  simp only [boundedQueue, respond, if_neg (Nat.not_lt.mpr full)]

/-- Values at the front are taken one after the other. -/
theorem dequeues (capacity : Nat) (xs q : List α) :
    ∃ u, (boundedQueue α capacity).Runs (xs ++ q) u q ∧
      u.map Answered = xs.map fun x => (.dequeue, .taken x) := by
  induction xs with
  | nil => exact ⟨[], .nil, rfl⟩
  | cons x xs ih =>
      obtain ⟨u, runs, answers⟩ := ih
      have first : (boundedQueue α capacity).step (x :: xs ++ q) .dequeue =
          some (xs ++ q, .taken x) := rfl
      refine ⟨[_] ++ u, (Machine.Runs.single first).append runs, ?_⟩
      rw [List.map_append, answers]
      rfl

end BoundedQueue
