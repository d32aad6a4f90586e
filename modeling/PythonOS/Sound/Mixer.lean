import PythonOS.Lib.Bytes
import PythonOS.Lib.Runs

/-!
# PythonOS.Sound.Mixer

A `PCMStream` on the mixer (`mixer.py`), over a backend whose `write_pcm` takes any leading part
of what it is given.

`_submit` forgets the period in hand as soon as the backend has taken a byte of it.
`delivered_iff` says for which runs everything the producer returned, as far as it is not in
hand, has been queued; `rest_dropped` is one in which it has not.
-/

namespace PythonOS.Sound

open Lib List

/-- The sample formats; `other` is any other text. -/
inductive Fmt
  | int16 | float32 | other

/-- Mono to stereo. A byte that is half a sample leaves two zero bytes. -/
def duplicate : Bytes → Bytes
  | x :: y :: rest => x :: y :: x :: y :: duplicate rest
  | [_] => [0, 0]
  | [] => []

/-- `_to_int16_stereo`; `none` when it raises. `quantize` makes the two bytes of a sample of the
four of a float. -/
def toInt16Stereo (quantize : Bytes → Bytes) (samples : Bytes) (channels : Nat) :
    Fmt → Option Bytes
  | .int16 =>
    if channels = 2 then some samples
    else if channels = 1 then some (duplicate samples)
    else none
  | .float32 =>
    if samples.length % 4 = 0 then
      some ((range (samples.length / 4)).flatMap fun i =>
        let w := quantize ((samples.drop (4 * i)).take 4)
        if channels = 1 then w ++ w else w)
    else none
  | .other => none

/-- `PCMStream`, and its history: the periods the producer has returned and the bytes the backend
has taken. -/
structure PCMStream where
  quantize : Bytes → Bytes
  channels : Nat
  fmt : Fmt
  running : Bool := true
  pending : Option Bytes := none
  producedPeriods : Nat := 0
  acceptedPeriods : Nat := 0
  backpressure : Nat := 0
  producedBytes : Nat := 0
  acceptedBytes : Nat := 0
  lastError : String := ""
  produced : List Bytes := []
  queued : Bytes := []

/-- What happens to a stream: `pump` or the worker call `_submit`, with what the producer would
answer and how many bytes the backend has room for, or it is stopped. -/
inductive StreamEvent
  | submit (period : Except String Bytes) (room : Nat)
  | stop

namespace PCMStream

/-- What `play_pcm` makes of a period. -/
def convert (s : PCMStream) (period : Bytes) : Option Bytes :=
  toInt16Stereo s.quantize period s.channels s.fmt

/-- `_submit` from `play_pcm` on, with the period in hand. -/
def offer (s : PCMStream) (period : Bytes) (room : Nat) : PCMStream :=
  match s.convert period with
  | none => s
  | some pcm =>
    let accepted := min room pcm.length
    if accepted = 0 then { s with backpressure := s.backpressure + 1 }
    else
      { s with
        pending := none, queued := s.queued ++ pcm.take accepted
        acceptedPeriods := s.acceptedPeriods + 1, acceptedBytes := s.acceptedBytes + accepted }

/-- The producer has returned a period. -/
def produce (s : PCMStream) (period : Bytes) : PCMStream :=
  { s with
    pending := some period, produced := s.produced ++ [period]
    producedPeriods := s.producedPeriods + 1
    producedBytes := s.producedBytes + period.length }

def step (s : PCMStream) : StreamEvent → Option PCMStream
  | .submit period room =>
    match s.pending, period with
    | some p, _ => some (s.offer p room)
    | none, .ok p => some ((s.produce p).offer p room)
    | none, .error e => some { s with lastError := e, running := false }
  | .stop => some { s with running := false }

/-- What the periods that were returned come to. -/
def due (s : PCMStream) : Bytes := s.produced.flatMap fun p => (s.convert p).getD []

/-- What has been queued, and what is pending. -/
def held (s : PCMStream) : Bytes := s.queued ++ (s.pending.bind s.convert).getD []

/-- The bytes queued are those of the periods returned, up to the pending one. -/
def Delivered (s : PCMStream) : Prop := s.held = s.due

/-- The backend refuses the period `p` or takes the whole of it. -/
def WholePeriod (s : PCMStream) (p : Bytes) (room : Nat) : Prop :=
  ∀ pcm ∈ s.convert p, room = 0 ∨ pcm.length ≤ room

/-- So it does with the period in hand. -/
def Whole (s : PCMStream) : StreamEvent → Prop
  | .submit period room => ∀ p ∈ s.pending.or period.toOption, s.WholePeriod p room
  | .stop => True

/-! ### A step -/

variable {s s' : PCMStream} {p : Bytes} {room : Nat}

theorem offer_due : (s.offer p room).due = s.due := by
  unfold offer
  split
  · rfl
  · dsimp only
    split <;> rfl

/-- Bytes go from the pending period to the queue, and with them what the backend has not taken
goes too. -/
theorem offer_held (hp : s.pending = some p) :
    (s.WholePeriod p room → (s.offer p room).held = s.held) ∧
      (¬ s.WholePeriod p room → (s.offer p room).held.length < s.held.length) := by
  cases hc : s.convert p with
  | none => simp [offer, WholePeriod, hc]
  | some pcm =>
    have hwhole : s.WholePeriod p room ↔ room = 0 ∨ pcm.length ≤ room := by simp [WholePeriod, hc]
    have hheld : s.held = s.queued ++ pcm := by simp [held, hp, hc]
    have hheld' : (s.offer p room).held =
        s.queued ++ if min room pcm.length = 0 then pcm else pcm.take room := by
      unfold offer
      rw [hc]
      dsimp only
      split
      · exact hheld
      · simp [held, min_comm room]
    rw [hwhole, hheld, hheld']
    refine ⟨fun hall => ?_, fun hcut => ?_⟩
    · split
      · rfl
      · rw [take_of_length_le (by omega)]
    · rw [if_neg (by omega), length_append, length_append, length_take]
      omega

/-- Everything that is due is held, or a step has lost a part. -/
theorem step_held {e : StreamEvent} (h : s.step e = some s') : ∃ new, s'.due = s.due ++ new ∧
    (s.Whole e → s'.held = s.held ++ new) ∧
      (¬ s.Whole e → s'.held.length < (s.held ++ new).length) := by
  cases e with
  | stop =>
    cases h
    exact ⟨[], (append_nil _).symm, fun _ => (append_nil _).symm, fun hc => absurd trivial hc⟩
  | submit period room =>
    simp only [step] at h
    split at h <;> cases h
    · next p _ hp =>
      refine ⟨[], by rw [offer_due, append_nil], ?_⟩
      simpa [Whole, hp] using offer_held hp
    · next p hp =>
      have hdue : (s.produce p).due = s.due ++ (s.convert p).getD [] := by
        simp [due, produce, convert]
      have hheld : (s.produce p).held = s.held ++ (s.convert p).getD [] := by
        simp [held, produce, hp, convert]
      refine ⟨_, by rw [offer_due, hdue], ?_⟩
      rw [← hheld]
      have hwhole : s.Whole (.submit (.ok p) room) ↔ (s.produce p).WholePeriod p room := by
        simp [Whole, hp, Except.toOption, WholePeriod, convert, produce]
      rw [hwhole]
      exact offer_held rfl
    · next hp => simp [due, held, Whole, hp, Except.toOption, convert]

/-- **Delivery.** In every run the bytes queued are those of the periods returned, up to the
pending one, exactly if the backend refuses a period or takes the whole of it whenever it is
offered one. -/
theorem delivered_iff (quantize : Bytes → Bytes) (channels : Nat) (fmt : Fmt)
    (evs : List StreamEvent) (hrun : exec step { quantize, channels, fmt } evs = some s) :
    Guarded step Whole { quantize, channels, fmt } evs ↔ s.Delivered := by
  refine guarded_iff (B := fun s => s.held.length < s.due.length) ?_ ?_ ?_ ?_ rfl hrun
  · exact fun hgood hbad => absurd (congrArg length hgood) (Nat.ne_of_lt hbad)
  · intro s e s' hgood hwhole h
    obtain ⟨new, hdue, hheld, -⟩ := step_held h
    rw [Delivered, hheld hwhole, hdue, hgood]
  · intro s e s' hgood hcut h
    obtain ⟨new, hdue, -, hheld⟩ := step_held h
    rw [hdue, ← hgood]
    exact hheld hcut
  · intro s e s' hbad h
    obtain ⟨new, hdue, hwhole, hcut⟩ := step_held h
    rw [hdue]
    by_cases hc : s.Whole e
    · rw [hwhole hc, length_append, length_append]
      exact Nat.add_lt_add_right hbad _
    · refine Nat.lt_trans (hcut hc) ?_
      rw [length_append, length_append]
      exact Nat.add_lt_add_right hbad _

/-- Native samples, refused once and then taken. -/
theorem delivered_iff_retry : ∃ s : PCMStream,
    exec step { quantize := id, channels := 2, fmt := .int16 }
      [.submit (.ok [1, 2]) 0, .submit (.ok [3]) 9] = some s ∧
    (Guarded step Whole { quantize := id, channels := 2, fmt := .int16 }
      [.submit (.ok [1, 2]) 0, .submit (.ok [3]) 9] ↔ s.Delivered) :=
  (Option.isSome_iff_exists.mp rfl).imp fun _ hrun => ⟨hrun, delivered_iff id 2 .int16 _ hrun⟩

/-- The backend takes one byte of two, and the next period follows. -/
theorem rest_dropped : ∃ s : PCMStream, exec step { quantize := id, channels := 2, fmt := .int16 }
      [.submit (.ok [1, 2]) 1, .submit (.ok [3]) 9] = some s ∧ ¬ s.Delivered :=
  ⟨_, rfl, fun h => absurd (show [(1 : UInt8), 3] = [1, 2, 3] from h) (by decide)⟩

end PCMStream

end PythonOS.Sound
