import Mathlib.Logic.Function.Basic
import SamdCore.MachineRuns

/-!
The critical sections of `core/RingBuffer.h` and `core/USBserial.cpp`, one step of the
processor at a time, and the interrupt handlers that may come between two steps.

What a section does to its buffer is one step here, since no step of it touches
PRIMASK; the early returns of `store(c)` and `read_char` resume like the others. A
handler is started only while PRIMASK is clear, and returns with it clear.
-/
namespace SamdCore
open MachineRuns

namespace CriticalSection
variable {ρ υ : Type}

/-- A ring on its own, or a buffer of a `USBserial`. -/
inductive Ring (ρ υ : Type)
  | own (r : ρ)
  | txBuffer (u : υ)
  | rxBuffer (u : υ)
deriving DecidableEq

/-- What has a member `__irq_status`. -/
inductive Object (ρ υ : Type)
  | ring (r : Ring ρ υ)
  | serial (u : υ)
deriving DecidableEq

inductive Call (ρ υ : Type)
  | storeBuffer (r : Ring ρ υ)
  | storeChar (r : Ring ρ υ)
  | readChar (r : Ring ρ υ)
  | read (r : Ring ρ υ)
  | clear (r : Ring ρ υ)
  | write (u : υ)
  | writeChar (u : υ)
  | serialRead (u : υ)
  | serialReadChar (u : υ)
deriving DecidableEq

inductive Op (ρ υ : Type)
  | saveMask (o : Object ρ υ)
  | disableIrq
  | work
  | call (c : Call ρ υ)
  | enableIrqIfClear (o : Object ρ υ)
deriving DecidableEq

def pauseInterrupts (o : Object ρ υ) : List (Op ρ υ) := [.saveMask o, .disableIrq]

def resumeInterrupts (o : Object ρ υ) : List (Op ρ υ) := [.enableIrqIfClear o]

/-- A function that is one critical section. -/
structure Section (ρ υ : Type) where
  object : Object ρ υ
  body : List (Op ρ υ)

def Section.steps (f : Section ρ υ) : List (Op ρ υ) :=
  pauseInterrupts f.object ++ (f.body ++ resumeInterrupts f.object)

namespace RingBuffer

def storeBuffer (r : Ring ρ υ) : Section ρ υ := ⟨.ring r, [.work]⟩
def storeChar (r : Ring ρ υ) : Section ρ υ := ⟨.ring r, [.work]⟩
def readChar (r : Ring ρ υ) : Section ρ υ := ⟨.ring r, [.work]⟩
def read (r : Ring ρ υ) : Section ρ υ := ⟨.ring r, [.work]⟩
def clear (r : Ring ρ υ) : Section ρ υ := ⟨.ring r, [.work]⟩

end RingBuffer

namespace USBserial

-- The work after the ring's call is the run of the transmit or receive callback.
def write (u : υ) : Section ρ υ := ⟨.serial u, [.call (.storeBuffer (.txBuffer u)), .work]⟩
def writeChar (u : υ) : Section ρ υ := ⟨.serial u, [.call (.storeChar (.txBuffer u)), .work]⟩
def read (u : υ) : Section ρ υ := ⟨.serial u, [.call (.read (.rxBuffer u)), .work]⟩
def readChar (u : υ) : Section ρ υ := ⟨.serial u, [.call (.readChar (.rxBuffer u)), .work]⟩

end USBserial

namespace Call

def code : Call ρ υ → Section ρ υ
  | storeBuffer r => RingBuffer.storeBuffer r
  | storeChar r => RingBuffer.storeChar r
  | readChar r => RingBuffer.readChar r
  | read r => RingBuffer.read r
  | clear r => RingBuffer.clear r
  | write u => USBserial.write u
  | writeChar u => USBserial.writeChar u
  | serialRead u => USBserial.read u
  | serialReadChar u => USBserial.readChar u

def object (c : Call ρ υ) : Object ρ υ := c.code.object
def body (c : Call ρ υ) : List (Op ρ υ) := c.code.body
def steps (c : Call ρ υ) : List (Op ρ υ) := c.code.steps

theorem steps_eq (c : Call ρ υ) :
    c.steps = .saveMask c.object :: .disableIrq :: (c.body ++ [.enableIrqIfClear c.object]) := rfl

/-- A body only works, except a serial's, which first calls one of its rings. -/
theorem body_forms (c : Call ρ υ) :
    c.body = [.work] ∨
      ∃ inner, c.body = [.call inner, .work] ∧ inner.body = [.work] ∧ inner.object ≠ c.object := by
  cases c with
  | storeBuffer _ | storeChar _ | readChar _ | read _ | clear _ => exact .inl rfl
  | write _ | writeChar _ | serialRead _ | serialReadChar _ => exact .inr ⟨_, rfl, rfl, nofun⟩

theorem works_or_calls {c : Call ρ υ} {op : Op ρ υ} (h : op ∈ c.body) :
    op = .work ∨ ∃ inner, op = .call inner := by
  rcases c.body_forms with works | ⟨inner, calls, -, -⟩
  · exact .inl (by simpa [works] using h)
  · exact (show op = .call inner ∨ op = .work by simpa [calls] using h).symm.imp id
      fun called => ⟨inner, called⟩

theorem called {c inner : Call ρ υ} (h : .call inner ∈ c.body) :
    inner.body = [.work] ∧ inner.object ≠ c.object := by
  rcases c.body_forms with works | ⟨_, calls, quiet, other⟩
  · simp [works] at h
  · obtain rfl : inner = _ := by simpa [calls] using h
    exact ⟨quiet, other⟩

end Call

/-- A call in progress: the PRIMASK it was made with, and the steps still to take. -/
structure Frame (ρ υ : Type) where
  call : Call ρ υ
  atCall : Bool
  rest : List (Op ρ υ)
deriving DecidableEq

namespace Frame

def enter (c : Call ρ υ) (primask : Bool) : Frame ρ υ := ⟨c, primask, c.steps⟩

/-- PRIMASK is set for this call, and the matching resume is yet to come. -/
def masked (f : Frame ρ υ) : Bool :=
  !f.rest.isEmpty && f.rest.length + 2 ≤ f.call.steps.length

end Frame

structure Returned (ρ υ : Type) where
  call : Call ρ υ
  atCall : Bool
  atReturn : Bool
deriving DecidableEq

/-- The calls of the code that runs are in `context`, innermost first; those of what it has
interrupted, latest first, in `suspended`. -/
structure Processor (ρ υ : Type) where
  primask : Bool
  irqStatus : Object ρ υ → Bool
  context : List (Frame ρ υ)
  suspended : List (List (Frame ρ υ))

inductive InterruptEvent (ρ υ : Type)
  | call (c : Call ρ υ)
  | advance
  | noInterrupts
  | interrupts
  | preempt
  | handlerReturn
deriving DecidableEq

namespace Processor
variable [DecidableEq ρ] [DecidableEq υ]

/-- One step of the call `f`, whose callers are waiting. -/
def execute (s : Processor ρ υ) (f : Frame ρ υ) (callers : List (Frame ρ υ)) :
    Op ρ υ → Processor ρ υ
  | .saveMask o =>
      { s with irqStatus := Function.update s.irqStatus o s.primask, context := f :: callers }
  | .disableIrq => { s with primask := true, context := f :: callers }
  | .work => { s with context := f :: callers }
  | .call c => { s with context := .enter c s.primask :: f :: callers }
  | .enableIrqIfClear o =>
      { s with primask := if !s.irqStatus o then false else s.primask, context := f :: callers }

def step (s : Processor ρ υ) : InterruptEvent ρ υ → Option (Processor ρ υ × Option (Returned ρ υ))
  | .call c =>
      match s.context with
      | [] => some ({ s with context := [.enter c s.primask] }, none)
      | _ :: _ => none
  | .advance =>
      match s.context with
      | [] => none
      | ⟨c, atCall, []⟩ :: callers =>
          some ({ s with context := callers }, some ⟨c, atCall, s.primask⟩)
      | ⟨c, atCall, op :: rest⟩ :: callers => some (s.execute ⟨c, atCall, rest⟩ callers op, none)
  | .noInterrupts =>
      match s.context with
      | [] => some ({ s with primask := true }, none)
      | _ :: _ => none
  | .interrupts =>
      match s.context with
      | [] => some ({ s with primask := false }, none)
      | _ :: _ => none
  | .preempt =>
      if s.primask then none
      else some ({ s with context := [], suspended := s.context :: s.suspended }, none)
  | .handlerReturn =>
      match s.context, s.suspended with
      | [], interrupted :: others =>
          if s.primask then none
          else some ({ s with context := interrupted, suspended := others }, none)
      | _, _ => none

end Processor

def interruptMachine (ρ υ : Type) [DecidableEq ρ] [DecidableEq υ] :
    Machine (Processor ρ υ) (InterruptEvent ρ υ) (Option (Returned ρ υ)) where
  step := Processor.step

abbrev InterruptStep (ρ υ : Type) :=
  Transition (Processor ρ υ) (InterruptEvent ρ υ) (Option (Returned ρ υ))

/-- Before `main`: any mask, and any values in the members. -/
def started (primask : Bool) (irqStatus : Object ρ υ → Bool) : Processor ρ υ :=
  ⟨primask, irqStatus, [], []⟩

end CriticalSection
end SamdCore
