import SamdCore.SerialConfinement

/-!
What the host is sent of the bytes that were written.

The bytes in the ring are the slice outstanding, the padding up to the next
alignment, and the bytes not offered yet. Without the padding they are the bytes
accepted and not reported sent. A request for a configuration offers from the
same tail again: what was padding then is sent, unless the slice outstanding had
none.
-/
namespace SamdCore
open CircularSegment MachineRuns

/-- The byte that a call accepts. -/
def SerialEvent.accepted (event : SerialEvent) (result : SerialResult) : List UInt8 :=
  match event, result with
  | .writeChar c, .stored n => if n = 1 then [c] else []
  | _, _ => []

/-- The bytes that an event reports sent: those of the slice that completes. -/
def SerialEvent.reported (event : SerialEvent) (outstanding : List Slice) : List UInt8 :=
  match event with
  | .completion _ true => (outstanding.take 1).flatMap (·.data)
  | _ => []

def accepted (t : List SerialStep) : List UInt8 := t.flatMap fun x => x.event.accepted x.out.result

def reported (t : List SerialStep) : List UInt8 :=
  t.flatMap fun x => x.event.reported x.pre.epIn.outstanding

/-- The slices started, one after the other. -/
def sliced (t : List SerialStep) : List UInt8 := (startedIn (acted t)).flatMap (·.data)

/-- A call other than the block write. -/
def SerialEvent.writesBytes : SerialEvent → Bool
  | .write _ _ => false
  | _ => true

/-- A request for a configuration finds no padding behind the slice it abandons. -/
def abandonsWords (d : System) (event : SerialEvent) : Bool :=
  !event.configures || d.epIn.outstanding.all (·.length % 4 == 0)

/-- A request for a configuration finds no slice outstanding. -/
def abandonsNothing (d : System) (event : SerialEvent) : Bool :=
  !event.configures || d.epIn.outstanding.isEmpty

/-- The slices outstanding, what the ring holds, and what of it is not padding. -/
inductive Pending : List Slice → List UInt8 → List UInt8 → Prop
  | idle : Pending [] [] []
  | flying {x : Slice} {pad rest : List UInt8} : x.data.length = x.length →
      x.length + pad.length = alignUp4 x.length →
      Pending [x] (x.data ++ pad ++ rest) (x.data ++ rest)

/-- The invariant of the bytes on their way after a run. -/
structure Sent (t : List SerialStep) (d : System) (c p : List UInt8) : Prop where
  outgoing : (System.sender d).Outgoing c
  pending : Pending d.epIn.outstanding c p
  accounted : accepted t = reported t ++ p

/-- Every slice started is of the bytes accepted and not reported sent, from the oldest
on, and one that is offered in place of another begins with it. -/
def LeaksNoPadding (t : List SerialStep) : Prop :=
  ∀ past x future, t = past ++ x :: future → ∀ slice ∈ startedIn x.out.acts,
    slice.data <+: (accepted (past ++ [x])).drop (reported (past ++ [x])).length ∧
      (x.event.configures = true → ∀ abandoned ∈ x.pre.epIn.outstanding,
        abandoned.data <+: slice.data)

/-- What was sliced is what was accepted, up to the bytes not offered yet, and what has been
reported sent, up to the slice outstanding; that is in the ring as it was offered, and no
other is started over it. -/
structure StreamIntact (t : List SerialStep) (d : System) : Prop where
  inOrder : sliced t <+: accepted t
  conserved : sliced t = reported t ++ d.epIn.outstanding.flatMap (·.data)
  drained : d.epIn.outstanding = [] → sliced t = accepted t
  single : d.epIn.outstanding.length ≤ 1
  unmodified : ∀ x ∈ d.epIn.outstanding,
    slice d.client.txBuffer.buffer x.buffer x.length = x.data
  notRestarted : ∀ x ∈ t, ∀ a ∈ txPart x.out.acts, ¬ a.restarts

theorem SerialEvent.accepted_quiet {event : SerialEvent} {result : SerialResult}
    (h : event.reachesTx = false) : event.accepted result = [] := by
  unfold accepted
  split
  · cases h
  · rfl

theorem SerialEvent.reported_quiet {event : SerialEvent} {outstanding : List Slice}
    (h : event.reachesTx = false) : event.reported outstanding = [] := by
  unfold reported
  split
  · cases h
  · rfl

theorem accepted_snoc (t : List SerialStep) (x : SerialStep) :
    accepted (t ++ [x]) = accepted t ++ x.event.accepted x.out.result := by
  simp [accepted]

theorem reported_snoc (t : List SerialStep) (x : SerialStep) :
    reported (t ++ [x]) = reported t ++ x.event.reported x.pre.epIn.outstanding := by
  simp [reported]

theorem sliced_snoc (t : List SerialStep) (x : SerialStep) :
    sliced (t ++ [x]) = sliced t ++ (startedIn x.out.acts).flatMap (·.data) := by
  simp [sliced, acted_snoc, startedIn_append]

theorem Queued.accepted {c c' : List UInt8} {b : UInt8} {n : Nat} (h : Queued c b n c') :
    c' = c ++ if n = 1 then [b] else [] := by
  cases h with
  | stored _ => rfl
  | full _ => rw [if_neg (by decide), List.append_nil]

/-- Bytes written go behind what is pending. -/
theorem Pending.push {x : Slice} {c p : List UInt8} (h : Pending [x] c p) (bs : List UInt8) :
    Pending [x] (c ++ bs) (p ++ bs) := by
  cases h with
  | flying data pad =>
      rw [List.append_assoc _ _ bs, List.append_assoc _ _ bs]
      exact .flying data pad

/-- What is offered of bytes without padding is pending. -/
theorem Offered.pending {tail : Nat} {c c' : List UInt8} {started : List Slice}
    (h : Offered tail c started c') : Pending started c' c := by
  cases h with
  | nothing none =>
      rw [none]
      exact .idle
  | @slice x pad _ _ le data padded last _ =>
      have length : x.data.length = x.length := by
        rw [data, List.length_take]
        omega
      by_cases none : pad = []
      · have pending : Pending _ (x.data ++ pad ++ c.drop x.length) _ := .flying length padded
        rw [none, data, List.append_nil, List.take_append_drop] at pending
        rwa [none, List.append_nil]
      · have all : x.data = c := by rw [data, last none, List.take_length]
        have pending : Pending _ (x.data ++ pad ++ []) _ := .flying length padded
        rwa [all, List.append_nil, List.append_nil] at pending

theorem Offered.begins {tail : Nat} {c c' : List UInt8} {started : List Slice}
    (h : Offered tail c started c') : ∀ x ∈ started, x.data <+: c := by
  cases h with
  | nothing _ => exact nofun
  | slice _ _ _ data _ _ _ =>
      rw [List.forall_mem_singleton, data]
      exact List.take_prefix _ _

/-- A completed slice is taken from the front with its padding. -/
theorem Pending.drop {x : Slice} {c p : List UInt8} (h : Pending [x] c p) :
    alignUp4 x.length ≤ c.length ∧ p = x.data ++ c.drop (alignUp4 x.length) := by
  cases h with
  | @flying _ pad rest data padded =>
      have front : (x.data ++ pad).length = alignUp4 x.length := by
        rw [List.length_append, data, padded]
      refine ⟨by rw [List.length_append, front]; omega, ?_⟩
      rw [← front, List.drop_left]

/-- A slice of whole words has no padding behind it. -/
theorem Pending.unpadded {x : Slice} {c p : List UInt8} (h : Pending [x] c p)
    (words : x.length % 4 = 0) : c = p ∧ x.data = c.take x.length ∧ x.length ≤ c.length := by
  cases h with
  | @flying _ pad rest data padded =>
      have none : pad = [] := by
        apply List.length_eq_zero_iff.mp
        rw [alignUp4_of_word words] at padded
        omega
      rw [none, List.append_nil]
      refine ⟨rfl, ?_, by rw [List.length_append, data]; omega⟩
      rw [← data, List.take_left]

theorem Pending.idle_eq {c p : List UInt8} (h : Pending [] c p) : c = [] ∧ p = [] := by
  cases h with
  | idle => exact ⟨rfl, rfl⟩

/-- Offered again from the same tail, whole words come first. -/
theorem Offered.extends {s : Sender} {x : Slice} {c c' p : List UInt8} {started : List Slice}
    (flying : s.InFlight x) (before : Pending [x] c p) (words : x.length % 4 = 0)
    (h : Offered s.buffer.tailPtr c started c') : ∀ y ∈ started, x.data <+: y.data := by
  obtain ⟨-, data, le⟩ := before.unpadded words
  cases h with
  | nothing _ => exact nofun
  | @slice y pad _ _ _ data' _ _ largest =>
      have up := le_alignUp4 x.length
      have padded := flying.padded
      rw [flying.buffer] at padded
      rw [List.forall_mem_singleton, data, data']
      exact List.take_prefix_take_left (largest _ words le (by omega))

/-- The step lemma of byte writes: what is pending grows by what is accepted and shrinks
by what is reported, and every slice is of what is pending. -/
theorem SendStep.pending {s : Sender} {c c' p : List UInt8} {event : SerialEvent}
    {result : SerialResult} {started after : List Slice} (outgoing : s.Outgoing c)
    (before : Pending s.ep.outstanding c p) (bytes : event.writesBytes = true)
    (words : event.configures = true → ∀ x ∈ s.ep.outstanding, x.length % 4 = 0)
    (step : SendStep s c event result started after c') :
    ∃ p', Pending after c' p' ∧
      p ++ event.accepted result = event.reported s.ep.outstanding ++ p' ∧
      ∀ x ∈ started, x.data <+: p' ∧
        (event.configures = true → ∀ abandoned ∈ s.ep.outstanding, abandoned.data <+: x.data) := by
  cases step with
  | quiet elsewhere =>
      rw [SerialEvent.accepted_quiet elsewhere, SerialEvent.reported_quiet elsewhere]
      exact ⟨p, before, List.append_nil p, nofun⟩
  | block _ => cases bytes
  | @queued x b n _ flying queued =>
      rw [flying.outstanding] at before ⊢
      rw [queued.accepted]
      exact ⟨_, before.push _, rfl, nofun⟩
  | first idle queued offered =>
      rw [idle.outstanding] at before
      obtain ⟨rfl, rfl⟩ := before.idle_eq
      have all := queued.accepted
      refine ⟨_, offered.pending, all.symm, fun x hx => ⟨offered.begins x hx, nofun⟩⟩
  | @completed x out _ _ _ _ flying drop offered =>
      rw [flying.outstanding] at before ⊢
      obtain ⟨held, split⟩ := before.drop
      obtain rfl := drop held
      refine ⟨_, offered.pending, ?_, fun x hx => ⟨offered.begins x hx, nofun⟩⟩
      rw [split]
      simp [SerialEvent.accepted, SerialEvent.reported]
  | configured on offered =>
      rcases outgoing.flight with ⟨idle, _⟩ | ⟨x, flying⟩
      · rw [idle.outstanding] at before ⊢
        obtain ⟨rfl, rfl⟩ := before.idle_eq
        exact ⟨_, offered.pending, rfl, fun x hx => ⟨offered.begins x hx, fun _ => nofun⟩⟩
      · rw [flying.outstanding] at before words ⊢
        have word := words (decide_eq_true on) x (List.mem_singleton_self x)
        obtain ⟨rfl, -, -⟩ := before.unpadded word
        refine ⟨_, offered.pending, List.append_nil c, fun y hy => ⟨offered.begins y hy, ?_⟩⟩
        rw [List.forall_mem_singleton]
        exact fun _ => offered.extends flying before word y hy

/-- As long as nothing is abandoned, every slice started is outstanding or reported. -/
theorem SendStep.delivered {s : Sender} {c c' : List UInt8} {event : SerialEvent}
    {result : SerialResult} {started after : List Slice} (bytes : event.writesBytes = true)
    (calm : event.configures = true → s.ep.outstanding = [])
    (step : SendStep s c event result started after c') :
    s.ep.outstanding.flatMap (·.data) ++ started.flatMap (·.data) =
      event.reported s.ep.outstanding ++ after.flatMap (·.data) := by
  cases step with
  | quiet elsewhere =>
      rw [SerialEvent.reported_quiet elsewhere]
      exact List.append_nil _
  | block _ => cases bytes
  | queued _ _ => exact List.append_nil _
  | first idle _ _ =>
      rw [idle.outstanding]
      rfl
  | completed flying _ _ =>
      rw [flying.outstanding]
      rfl
  | configured on _ =>
      rw [calm (decide_eq_true on)]
      rfl

namespace System
variable {m : Storage} {d d' : System} {t : List SerialStep} {c p : List UInt8}

theorem abandonsWords_iff {event : SerialEvent} : abandonsWords d event = true ↔
    (event.configures = true → ∀ x ∈ d.epIn.outstanding, x.length % 4 = 0) := by
  cases h : event.configures <;> simp [abandonsWords, h]

theorem sent_step {event : SerialEvent} {out : SerialOutput} (h : Sent t d c p)
    (bytes : event.writesBytes = true) (words : abandonsWords d event = true)
    (taken : serialMachine.step d event = some (d', out)) :
    ∃ c' p', Sent (t ++ [⟨d, event, out, d'⟩]) d' c' p' ∧
      ∀ x ∈ startedIn out.acts, x.data <+: p' ∧
        (event.configures = true →
          ∀ abandoned ∈ d.epIn.outstanding, abandoned.data <+: x.data) := by
  obtain ⟨c', outgoing, step, -⟩ := send_step h.outgoing taken
  obtain ⟨p', pending, moved, started⟩ :=
    step.pending h.outgoing h.pending bytes (abandonsWords_iff.mp words)
  refine ⟨c', p', ⟨outgoing, pending, ?_⟩, started⟩
  rw [accepted_snoc, reported_snoc, h.accounted, List.append_assoc, List.append_assoc]
  exact congrArg (reported t ++ ·) moved

theorem sent_run (h : serialMachine.Runs (constructed m) t d)
    (bytes : ∀ x ∈ t, x.event.writesBytes = true)
    (words : ∀ x ∈ t, abandonsWords x.pre x.event = true) : ∃ c p, Sent t d c p := by
  induction h with
  | nil => exact ⟨[], [], outgoing_constructed m, .idle, rfl⟩
  | snoc _ taken ih =>
      rw [List.forall_mem_append, List.forall_mem_singleton] at bytes words
      obtain ⟨c, p, before⟩ := ih bytes.1 words.1
      obtain ⟨c', p', after, -⟩ := sent_step before bytes.2 words.2 taken
      exact ⟨c', p', after⟩

/-- Byte writes leak no padding as long as every request for a configuration finds whole
words outstanding. -/
theorem leaksNoPadding (m : Storage) (h : serialMachine.Runs (constructed m) t d)
    (bytes : ∀ x ∈ t, x.event.writesBytes = true)
    (words : ∀ x ∈ t, abandonsWords x.pre x.event = true) : LeaksNoPadding t := by
  rintro past ⟨d₁, event, out, d₂⟩ future rfl y hy
  obtain ⟨before, taken, -⟩ := h.at_step
  rw [List.forall_mem_append, List.forall_mem_cons] at bytes words
  obtain ⟨c, p, sent⟩ := sent_run before bytes.1 words.1
  obtain ⟨c', p', sent', started⟩ := sent_step sent bytes.2.1 words.2.1 taken
  rw [sent'.accounted, List.drop_left]
  exact started y hy

theorem leaksNoPadding_session :
    let run := serialMachine.exec (constructed zeroed)
      [.setConfiguration 1, .writeChar 1, .writeChar 2, .writeChar 3, .writeChar 4,
        .writeChar 5, .completion none true, .setConfiguration 1]
    ∃ ran : run.isSome, LeaksNoPadding (run.get ran).1 :=
  ⟨by decide, leaksNoPadding zeroed (Machine.runs_exec (by decide))
    (by decide +kernel) (by decide +kernel)⟩

/-- A byte written before the device is configured is sent with three bytes of padding. -/
theorem padding_leaked :
    let run := serialMachine.exec (constructed zeroed) [.writeChar 0x41, .setConfiguration 1]
    ∃ ran : run.isSome, ¬ LeaksNoPadding (run.get ran).1 := by
  intro run
  refine ⟨by decide, fun h => ?_⟩
  have leaked := (h ((run.get (by decide)).1.take 1) (run.get (by decide)).1[1] [] rfl
    ⟨(), 0, 4, false, [0x41, 0, 0, 0]⟩ (List.mem_singleton.mpr rfl)).1
  revert leaked
  decide

theorem sliced_run (h : serialMachine.Runs (constructed m) t d)
    (bytes : ∀ x ∈ t, x.event.writesBytes = true)
    (calm : ∀ x ∈ t, abandonsNothing x.pre x.event = true) :
    (∃ c p, Sent t d c p) ∧ sliced t = reported t ++ d.epIn.outstanding.flatMap (·.data) ∧
      ∀ x ∈ t, ∀ a ∈ txPart x.out.acts, ¬ a.restarts := by
  induction h with
  | nil =>
      have idle : (constructed m).epIn.outstanding = [] := rfl
      refine ⟨⟨[], [], outgoing_constructed m, .idle, rfl⟩, ?_, by simp⟩
      rw [idle]
      rfl
  | @snoc t s s' event out _ taken ih =>
      rw [List.forall_mem_append, List.forall_mem_singleton] at bytes calm
      obtain ⟨⟨c, p, before⟩, delivered, quiet⟩ := ih bytes.1 calm.1
      have idle : event.configures = true → s.epIn.outstanding = [] := by
        intro configures
        simpa [abandonsNothing, configures] using calm.2
      have words : abandonsWords s event = true :=
        abandonsWords_iff.mpr fun configures => by rw [idle configures]; exact nofun
      obtain ⟨c', p', after, -⟩ := sent_step before bytes.2 words taken
      obtain ⟨_, _, step, quiet'⟩ := send_step before.outgoing taken
      refine ⟨⟨c', p', after⟩, ?_, List.forall_mem_append.mpr ⟨quiet, ?_⟩⟩
      · rw [sliced_snoc, reported_snoc, delivered, List.append_assoc, List.append_assoc]
        exact congrArg (reported t ++ ·) (step.delivered bytes.2 idle)
      · rw [List.forall_mem_singleton]
        exact quiet'

theorem Sent.unmodified (h : Sent t d c p) : ∀ x ∈ d.epIn.outstanding,
    slice d.client.txBuffer.buffer x.buffer x.length = x.data := by
  have held : d.client.txBuffer.Holds c := h.outgoing.holds
  rcases h.outgoing.flight with ⟨idle, _⟩ | ⟨y, flying⟩
  · have none : d.epIn.outstanding = [] := idle.outstanding
    rw [none]
    exact nofun
  · have one : d.epIn.outstanding = [y] := flying.outstanding
    have pending := h.pending
    have at_tail : y.buffer = d.client.txBuffer.tailPtr := flying.buffer
    have inside := flying.confined.inside
    rw [one] at pending ⊢
    rw [List.forall_mem_singleton, at_tail]
    cases pending with
    | flying data _ =>
        rw [held.slice_tail (by simp only [List.length_append]; omega) (at_tail ▸ inside),
          List.append_assoc, ← data, List.take_left]

/-- Byte writes and completions in any order, with the device configured when nothing is
outstanding. -/
theorem stream_intact (m : Storage) (h : serialMachine.Runs (constructed m) t d)
    (bytes : ∀ x ∈ t, x.event.writesBytes = true)
    (calm : ∀ x ∈ t, abandonsNothing x.pre x.event = true) : StreamIntact t d := by
  obtain ⟨⟨c, p, sent⟩, delivered, quiet⟩ := sliced_run h bytes calm
  have accounted := sent.accounted
  have pending := sent.pending
  refine ⟨?_, delivered, ?_, ?_, Sent.unmodified sent, quiet⟩
  · rw [delivered, accounted]
    generalize d.epIn.outstanding = outstanding at pending
    cases pending with
    | idle => exact List.prefix_rfl
    | @flying x pad rest _ _ =>
        rw [List.flatMap_singleton, List.prefix_append_right_inj]
        exact List.prefix_append x.data rest
  · intro idle
    rw [idle] at pending
    rw [delivered, accounted, idle, pending.idle_eq.2]
    rfl
  · generalize d.epIn.outstanding = outstanding at pending
    cases pending with
    | idle => exact Nat.zero_le 1
    | flying _ _ => exact Nat.le_refl 1

theorem stream_intact_session :
    let run := serialMachine.exec (constructed zeroed)
      [.setConfiguration 1, .writeChar 1, .writeChar 2, .writeChar 3, .completion none true,
        .writeChar 4, .completion none true]
    ∃ ran : run.isSome, StreamIntact (run.get ran).1 (run.get ran).2 :=
  ⟨by decide, stream_intact zeroed (Machine.runs_exec (by decide)) (by decide +kernel)
    (by decide +kernel)⟩

end System
end SamdCore
