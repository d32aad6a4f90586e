import PythonOS.Net.TcpReceive

/-!
# PythonOS.Net.TcpSend

Several tasks that send on one established connection.

`send` cuts its buffer into segments. `send_segment` reads `snd_seq` when it builds a segment,
then awaits `send_tcp_segment`, which suspends while the next hop's MAC address is unknown or
the NIC's queue is full; the transmission and the update of `snd_seq` that follows it are one
piece. So a segment that waits for the NIC holds a sequence number that another call may use
too. `send_reassembles` is the property for runs in which no call starts while another one is
suspended and no segment is dropped; `two_sends_same_sequence` is a run of two calls that are
suspended together.
-/

namespace PythonOS.Net

open Lib List

/-- `TCP_MAX_PAYLOAD`. -/
def tcpMaxPayload : Nat := 1200

/-- `TCP_TX_POLL_BURST`. -/
def tcpTxPollBurst : Nat := 32

/-- The flags of a data segment, `F_ACK | F_PSH`. -/
def dataFlags : Nat := fAck ||| fPsh

/-- `data[off:off + TCP_MAX_PAYLOAD]` for `off in range(0, len(data), TCP_MAX_PAYLOAD)`. -/
def segmentChunks (data : Bytes) : List Bytes :=
  (range ((data.length + (tcpMaxPayload - 1)) / tcpMaxPayload)).map fun k =>
    Bytes.slice data (k * tcpMaxPayload) (k * tcpMaxPayload + tcpMaxPayload)

/-- How `send_tcp_segment` returns: with the frame accepted by the NIC, or, without a NIC or
after an ARP timeout, with nothing transmitted. -/
inductive Outcome
  | sent | lost
  deriving Repr, DecidableEq

/-- A call of `send` suspended in `send_tcp_segment`: the segment in hand, the chunks behind it
and the whole buffer. -/
structure SendCall where
  seg : TCPSegment
  rest : List Bytes
  data : Bytes
  deriving Repr, DecidableEq

/-- A connection, the data segments transmitted on it, the suspended calls, and the buffers of
the calls that have returned (`send_nowait` with `True`). -/
structure SendWorld where
  conn : TCPConnection
  wire : List TCPSegment := []
  suspended : List SendCall := []
  done : List Bytes := []

/-- What can happen: a call starts or goes on, with the outcomes it meets before it is suspended
again; `send_nowait` runs through, with `accepted` segments taken by the NIC and the segments
that `poll_once` receives after each burst and at the end; or a segment is received. -/
inductive SendEvent
  | send (data : Bytes) (outs : List Outcome)
  | resume (k : Nat) (outs : List Outcome)
  | sendNowait (data : Bytes) (accepted : Nat) (polled : Nat → List TCPSegment)
      (last : List TCPSegment) (tx : TCPSegment → Bool)
  | receive (seg : TCPSegment) (sync : Bool) (tx : TCPSegment → Bool)

namespace SendWorld

/-- A data segment has left: the rest of `send_segment`. -/
def transmit (w : SendWorld) (o : Outcome) (seg : TCPSegment) : SendWorld :=
  { w with
    wire := match o with
      | .sent => w.wire ++ [seg]
      | .lost => w.wire
    conn := w.conn.advance dataFlags seg.payload }

/-- The loop of `send` from a segment in hand on, until it is suspended or ends. -/
def sendLoop (data : Bytes) : List Outcome → SendWorld → TCPSegment → List Bytes → SendWorld
  | [], w, seg, rest => { w with suspended := w.suspended ++ [⟨seg, rest, data⟩] }
  | o :: outs, w, seg, rest =>
    let w' := w.transmit o seg
    match rest with
    | [] => { w' with done := w'.done ++ [data] }
    | chunk :: rest => sendLoop data outs w' (w'.conn.segment dataFlags chunk) rest

/-- `send`. -/
def send (w : SendWorld) (data : Bytes) (outs : List Outcome) : SendWorld :=
  match segmentChunks data with
  | [] => { w with done := w.done ++ [data] }
  | chunk :: rest => sendLoop data outs w (w.conn.segment dataFlags chunk) rest

/-- `while stack.poll_once(): pass`, with the segments received. -/
def poll (tx : TCPSegment → Bool) (w : SendWorld) (segs : List TCPSegment) : SendWorld :=
  { w with conn := segs.foldl (fun c seg => (c.handleSegment tx seg true).1) w.conn }

/-- The loop of `send_nowait` after `count` segments. -/
def nowaitLoop (tx : TCPSegment → Bool) (accepted : Nat) (polled : Nat → List TCPSegment)
    (last : List TCPSegment) : Nat → List Bytes → SendWorld → Bool × SendWorld
  | _, [], w => (true, w.poll tx last)
  | count, chunk :: rest, w =>
    match w.conn.sendSegmentNowait (fun _ => decide (count < accepted)) dataFlags chunk with
    | (true, c, out) =>
      let w' := { w with conn := c, wire := w.wire ++ out }
      let w'' :=
        if (count + 1) % tcpTxPollBurst = 0 then w'.poll tx (polled (count + 1)) else w'
      nowaitLoop tx accepted polled last (count + 1) rest w''
    | (false, _, _) => (false, w)

/-- `send_nowait`. -/
def sendNowait (w : SendWorld) (data : Bytes) (accepted : Nat) (polled : Nat → List TCPSegment)
    (last : List TCPSegment) (tx : TCPSegment → Bool) : SendWorld :=
  match nowaitLoop tx accepted polled last 0 (segmentChunks data) w with
  | (true, w') => { w' with done := w'.done ++ [data] }
  | (false, w') => w'

/-- One event. -/
def step (w : SendWorld) : SendEvent → Option SendWorld
  | .send data outs => some (w.send data outs)
  | .resume k outs =>
    match w.suspended[k]? with
    | none => none
    | some c =>
      some (sendLoop c.data outs { w with suspended := w.suspended.eraseIdx k } c.seg c.rest)
  | .sendNowait data accepted polled last tx =>
    some (w.sendNowait data accepted polled last tx)
  | .receive seg sync tx => some { w with conn := (w.conn.handleSegment tx seg sync).1 }

end SendWorld

/-! ### The property -/

/-- Each segment starts where the one before it ends, the first at `pos`. -/
def Consecutive : Nat → List TCPSegment → Prop
  | _, [] => True
  | pos, seg :: segs => seg.seq = pos % 2 ^ 32 ∧ Consecutive (pos + seg.payload.length) segs

/-- In some order the segments are consecutive from the initial sequence number plus one on, and
their bytes are the buffers, one after the other, in some order. -/
def Reassembles (iss : Nat) (wire : List TCPSegment) (bufs : List Bytes) : Prop :=
  ∃ (segs : List TCPSegment) (order : List Bytes), segs.Perm wire ∧ order.Perm bufs ∧
    Consecutive (iss + 1) segs ∧
    payloads segs = order.flatten

/-- Right after the handshake. -/
def SendWorld.Fresh (iss : Nat) (w : SendWorld) : Prop :=
  w.conn.sndSeq = (iss + 1) % 2 ^ 32 ∧ w.wire = [] ∧ w.suspended = [] ∧ w.done = []

/-- No call starts while another is suspended, nothing is dropped, and `send_nowait` is not
refused half-way. -/
def SendWorld.Exclusive (w : SendWorld) : SendEvent → Prop
  | .send data outs => .lost ∉ outs ∧ (data ≠ [] → w.suspended = [])
  | .resume _ outs => .lost ∉ outs
  | .sendNowait data accepted _ _ _ =>
    accepted = 0 ∨ data = [] ∨ w.suspended = [] ∧ (segmentChunks data).length ≤ accepted
  | .receive .. => True

/-! ### Chunks and consecutive segments -/

theorem segmentChunks_flatten (data : Bytes) : (segmentChunks data).flatten = data := by
  have hprefix : ∀ m, ((range m).map fun k => Bytes.slice data (k * tcpMaxPayload)
      (k * tcpMaxPayload + tcpMaxPayload)).flatten = data.take (m * tcpMaxPayload) := by
    intro m
    induction m with
    | zero => simp
    | succ m ih =>
      have hjoin := @Bytes.slice_append_slice data 0 (m * tcpMaxPayload)
        (m * tcpMaxPayload + tcpMaxPayload) (Nat.zero_le _) (Nat.le_add_right _ _)
      rw [range_succ, map_append, flatten_append, ih, map_singleton,
        flatten_singleton, Nat.succ_mul]
      exact hjoin
  rw [segmentChunks, hprefix]
  apply take_of_length_le
  unfold tcpMaxPayload
  omega

theorem segmentChunks_ne_nil {data chunk : Bytes} (h : chunk ∈ segmentChunks data) :
    chunk ≠ [] := by
  obtain ⟨k, hk, rfl⟩ := mem_map.mp h
  have hk := mem_range.mp hk
  intro hnil
  have hlen := congrArg List.length hnil
  rw [Bytes.length_slice, length_nil] at hlen
  unfold tcpMaxPayload at hk hlen
  omega

theorem consecutive_append {pos : Nat} {segs segs' : List TCPSegment} :
    Consecutive pos (segs ++ segs') ↔
      Consecutive pos segs ∧ Consecutive (pos + (payloads segs).length) segs' := by
  induction segs generalizing pos with
  | nil => simp [Consecutive, payloads]
  | cons seg segs ih =>
    rw [cons_append, Consecutive, Consecutive, ih]
    simp only [payloads, flatMap_cons, length_append, Nat.add_assoc, and_assoc]

theorem advance_data (c : TCPConnection) {payload : Bytes} (h : payload ≠ []) :
    (c.advance dataFlags payload).sndSeq = (c.sndSeq + payload.length) % 2 ^ 32 := by
  have hpos : 0 < payload.length := length_pos_iff.mpr h
  unfold TCPConnection.advance
  rw [if_pos (.inl h)]
  rw [Nat.max_eq_left hpos]

namespace SendWorld

theorem poll_sndSeq (tx : TCPSegment → Bool) (w : SendWorld) (segs : List TCPSegment) :
    (w.poll tx segs).conn.sndSeq = w.conn.sndSeq := by
  induction segs generalizing w with
  | nil => rfl
  | cons seg segs ih =>
    have hrest := ih { w with conn := (w.conn.handleSegment tx seg true).1 }
    exact hrest.trans (handleSegment_fields tx w.conn seg true rfl).2.1

/-! ### The invariant -/

/-- The segments on the wire are consecutive and the send sequence number is where they end. -/
structure Aligned (iss : Nat) (w : SendWorld) : Prop where
  consecutive : Consecutive (iss + 1) w.wire
  seq : w.conn.sndSeq = (iss + 1 + (payloads w.wire).length) % 2 ^ 32

/-- The call `c` has put the part of its buffer before the segment in hand on the wire, behind
the buffers of the calls that have returned; the segment has the current sequence number. -/
structure Pending (w : SendWorld) (c : SendCall) : Prop where
  seq : c.seg.seq = w.conn.sndSeq
  payload : c.seg.payload ≠ []
  rest : ∀ chunk ∈ c.rest, chunk ≠ []
  part : ∃ part, payloads w.wire = w.done.flatten ++ part ∧
    part ++ (c.seg.payload ++ c.rest.flatten) = c.data

/-- Aligned, with at most one call suspended. -/
def Inv (iss : Nat) (w : SendWorld) : Prop :=
  w.Aligned iss ∧
    (w.suspended = [] ∧ payloads w.wire = w.done.flatten ∨ ∃ c, w.suspended = [c] ∧ w.Pending c)

variable {iss : Nat} {w w' : SendWorld} {data : Bytes}

theorem payloads_transmit (w : SendWorld) (seg : TCPSegment) :
    payloads (w.transmit .sent seg).wire = payloads w.wire ++ seg.payload :=
  payloads_concat w.wire seg

theorem Aligned.transmit (h : w.Aligned iss) {seg : TCPSegment} (hseq : seg.seq = w.conn.sndSeq)
    (hp : seg.payload ≠ []) : (w.transmit .sent seg).Aligned iss where
  consecutive := by
    refine consecutive_append.mpr ⟨h.consecutive, ?_, trivial⟩
    rw [hseq, h.seq]
  seq := by
    rw [payloads_transmit, length_append, ← Nat.add_assoc]
    show (w.conn.advance dataFlags seg.payload).sndSeq = _
    rw [advance_data w.conn hp, h.seq, Nat.mod_add_mod]

/-- The loop of `send`, from a segment that has the current sequence number on: it ends
suspended with such a segment, or with its whole buffer on the wire. -/
theorem sendLoop_inv : ∀ (outs : List Outcome) {w : SendWorld} {seg : TCPSegment}
    {rest : List Bytes}, .lost ∉ outs → w.Aligned iss → w.suspended = [] →
    w.Pending ⟨seg, rest, data⟩ → (sendLoop data outs w seg rest).Inv iss := by
  intro outs
  induction outs with
  | nil =>
    intro w seg rest _ hal hsus hpend
    refine ⟨⟨hal.consecutive, hal.seq⟩, .inr ⟨⟨seg, rest, data⟩, ?_, ?_⟩⟩
    · show w.suspended ++ _ = _
      rw [hsus, nil_append]
    · exact ⟨hpend.seq, hpend.payload, hpend.rest, hpend.part⟩
  | cons o outs ih =>
    intro w seg rest hlost hal hsus hpend
    obtain ⟨part, hwire, hdata⟩ := hpend.part
    have hdata : part ++ (seg.payload ++ rest.flatten) = data := hdata
    cases o with
    | lost => exact absurd (mem_cons_self ..) hlost
    | sent =>
      have hal' := hal.transmit hpend.seq hpend.payload
      have hwire' : payloads (w.transmit .sent seg).wire =
          (w.transmit .sent seg).done.flatten ++ (part ++ seg.payload) := by
        rw [payloads_transmit, hwire, append_assoc]
        rfl
      unfold sendLoop
      cases rest with
      | nil =>
        refine ⟨⟨hal'.consecutive, hal'.seq⟩, .inl ⟨hsus, ?_⟩⟩
        rw [hwire', flatten_append, flatten_singleton, ← hdata, flatten_nil, append_nil]
      | cons chunk rest =>
        refine ih (fun h => hlost (mem_cons_of_mem _ h)) hal' hsus ?_
        refine ⟨rfl, hpend.rest chunk (mem_cons_self ..), ?_, part ++ seg.payload, hwire', ?_⟩
        · intro c hc
          exact hpend.rest c (mem_cons_of_mem _ hc)
        · rw [← hdata, flatten_cons, append_assoc]
          rfl

/-- What leaves the wire, the suspended calls, the sequence number and the bytes of the calls
that have returned alone keeps the invariant. -/
theorem Inv.of_same (h : w.Inv iss) (hwire : w'.wire = w.wire)
    (hsus : w'.suspended = w.suspended) (hseq : w'.conn.sndSeq = w.conn.sndSeq)
    (hdone : w'.done.flatten = w.done.flatten) : w'.Inv iss := by
  obtain ⟨hal, hcalls⟩ := h
  refine ⟨⟨by rw [hwire]; exact hal.consecutive, by rw [hwire, hseq]; exact hal.seq⟩, ?_⟩
  rcases hcalls with ⟨hnone, hbytes⟩ | ⟨c, hone, hpend⟩
  · exact .inl ⟨by rw [hsus, hnone], by rw [hwire, hdone, hbytes]⟩
  · refine .inr ⟨c, by rw [hsus, hone], by rw [hseq]; exact hpend.seq, hpend.payload,
      hpend.rest, ?_⟩
    rw [hwire, hdone]
    exact hpend.part

theorem data_eq_nil (h : segmentChunks data = []) : data = [] := by
  rw [← segmentChunks_flatten data, h, flatten_nil]

theorem send_inv (h : w.Inv iss) {outs : List Outcome} (hlost : .lost ∉ outs)
    (hidle : data ≠ [] → w.suspended = []) : (w.send data outs).Inv iss := by
  unfold send
  cases hchunks : segmentChunks data with
  | nil =>
    refine h.of_same rfl rfl rfl ?_
    rw [data_eq_nil hchunks, flatten_append]
    exact append_nil _
  | cons chunk rest =>
    have hflat : chunk ++ rest.flatten = data := by
      rw [← flatten_cons, ← hchunks, segmentChunks_flatten]
    have hmem : ∀ c ∈ chunk :: rest, c ≠ [] := by
      rw [← hchunks]
      exact fun c hc => segmentChunks_ne_nil hc
    have hne : chunk ≠ [] := hmem chunk (mem_cons_self ..)
    have hsus := hidle (by rw [← hflat]; exact append_ne_nil_of_left_ne_nil hne _)
    rcases h.2 with ⟨-, hbytes⟩ | ⟨c, hone, -⟩
    · refine sendLoop_inv outs hlost h.1 hsus ⟨rfl, hne, ?_, [], ?_, hflat⟩
      · exact fun c hc => hmem c (mem_cons_of_mem _ hc)
      · rw [hbytes, append_nil]
    · rw [hone] at hsus
      cases hsus

theorem resume_inv (h : w.Inv iss) {k : Nat} {c : SendCall} {outs : List Outcome}
    (hlost : .lost ∉ outs) (hc : w.suspended[k]? = some c) :
    (sendLoop c.data outs { w with suspended := w.suspended.eraseIdx k } c.seg c.rest).Inv iss := by
  rcases h.2 with ⟨hnone, -⟩ | ⟨d, hone, hpend⟩
  · rw [hnone] at hc
    cases hc
  · rw [hone] at hc
    cases k with
    | zero =>
      cases hc
      refine sendLoop_inv outs hlost ⟨h.1.consecutive, h.1.seq⟩ ?_
        ⟨hpend.seq, hpend.payload, hpend.rest, hpend.part⟩
      rw [hone]
      rfl
    | succ k => cases hc

/-- `send_nowait` with every segment accepted puts all its chunks on the wire. -/
theorem nowaitLoop_all (tx : TCPSegment → Bool) (accepted : Nat) (polled : Nat → List TCPSegment)
    (last : List TCPSegment) : ∀ (chunks : List Bytes) (count : Nat) {w : SendWorld},
    count + chunks.length ≤ accepted → (∀ c ∈ chunks, c ≠ []) → w.Aligned iss →
    ∃ w', nowaitLoop tx accepted polled last count chunks w = (true, w') ∧ w'.Aligned iss ∧
      w'.suspended = w.suspended ∧ w'.done = w.done ∧
      payloads w'.wire = payloads w.wire ++ chunks.flatten := by
  intro chunks
  induction chunks with
  | nil =>
    intro count w _ _ hal
    refine ⟨w.poll tx last, rfl, ⟨hal.consecutive, ?_⟩, rfl, rfl, (append_nil _).symm⟩
    rw [poll_sndSeq]
    exact hal.seq
  | cons chunk rest ih =>
    intro count w hacc hne hal
    rw [length_cons] at hacc
    have hal' : (w.transmit .sent (w.conn.segment dataFlags chunk)).Aligned iss :=
      hal.transmit rfl (hne chunk (mem_cons_self ..))
    set w1 := w.transmit .sent (w.conn.segment dataFlags chunk) with hw1
    have hpolled : ∃ w2 : SendWorld, (if (count + 1) % tcpTxPollBurst = 0 then
        w1.poll tx (polled (count + 1)) else w1) = w2 ∧ w2.Aligned iss ∧
        w2.suspended = w.suspended ∧ w2.done = w.done ∧ w2.wire = w1.wire := by
      split
      · refine ⟨_, rfl, ⟨hal'.consecutive, ?_⟩, rfl, rfl, rfl⟩
        rw [poll_sndSeq]
        exact hal'.seq
      · exact ⟨_, rfl, hal', rfl, rfl, rfl⟩
    obtain ⟨w2, hw2, hal2, hsus2, hdone2, hwire2⟩ := hpolled
    obtain ⟨w', hrun, hal'', hsus', hdone', hbytes⟩ := ih (count + 1) (w := w2) (by omega)
      (fun c hc => hne c (mem_cons_of_mem _ hc)) hal2
    refine ⟨w', ?_, hal'', hsus'.trans hsus2, hdone'.trans hdone2, ?_⟩
    · unfold nowaitLoop TCPConnection.sendSegmentNowait
      dsimp only
      rw [if_pos (decide_eq_true (by omega))]
      exact (congrArg _ hw2).trans hrun
    · rw [hbytes, hwire2, hw1, payloads_transmit, append_assoc, flatten_cons]
      rfl

theorem sendNowait_inv (h : w.Inv iss) {accepted : Nat} {polled : Nat → List TCPSegment}
    {last : List TCPSegment} {tx : TCPSegment → Bool}
    (hok : accepted = 0 ∨ data = [] ∨ w.suspended = [] ∧ (segmentChunks data).length ≤ accepted) :
    (w.sendNowait data accepted polled last tx).Inv iss := by
  unfold sendNowait
  cases hchunks : segmentChunks data with
  | nil =>
    refine h.of_same rfl rfl (poll_sndSeq tx w last) ?_
    show (w.done ++ [data]).flatten = w.done.flatten
    rw [data_eq_nil hchunks, flatten_append]
    exact append_nil _
  | cons chunk rest =>
    rcases hok with rfl | rfl | ⟨hsus, hacc⟩
    · exact h
    · cases hchunks
    · have hne : ∀ c ∈ chunk :: rest, c ≠ [] := by
        rw [← hchunks]
        exact fun c hc => segmentChunks_ne_nil hc
      obtain ⟨w', hrun, hal', hsus', hdone', hbytes⟩ :=
        nowaitLoop_all tx accepted polled last (chunk :: rest) 0
          (by rw [← hchunks]; omega) hne h.1
      rw [hrun]
      rcases h.2 with ⟨-, hwire⟩ | ⟨c, hone, -⟩
      · refine ⟨⟨hal'.consecutive, hal'.seq⟩, .inl ⟨hsus'.trans hsus, ?_⟩⟩
        show payloads w'.wire = (w'.done ++ [data]).flatten
        rw [hbytes, hwire, hdone', ← hchunks, segmentChunks_flatten, flatten_append,
          flatten_singleton]
      · rw [hone] at hsus
        cases hsus

theorem step_inv (w : SendWorld) (e : SendEvent) (w' : SendWorld) (h : w.Inv iss)
    (hok : w.Exclusive e) (hstep : w.step e = some w') : w'.Inv iss := by
  cases e with
  | send data outs =>
    cases hstep
    exact send_inv h hok.1 hok.2
  | resume k outs =>
    simp only [step] at hstep
    split at hstep <;> cases hstep
    next c hc => exact resume_inv h hok hc
  | sendNowait data accepted polled last tx =>
    cases hstep
    exact sendNowait_inv h hok
  | receive seg sync tx =>
    cases hstep
    exact h.of_same rfl rfl (handleSegment_fields tx w.conn seg sync rfl).2.1 rfl

/-- **Concurrent sends.** In every run in which no call starts while another is suspended, no
segment is dropped and no `send_nowait` is refused half-way, the segments on the wire are
consecutive from the initial sequence number plus one on, and once no call is suspended their
bytes are the sent buffers, whole, in some order. -/
theorem send_reassembles (iss : Nat) (w₀ w : SendWorld) (evs : List SendEvent)
    (hfresh : w₀.Fresh iss) (hok : Guarded step Exclusive w₀ evs)
    (hrun : exec step w₀ evs = some w) :
    Consecutive (iss + 1) w.wire ∧ (w.suspended = [] → Reassembles iss w.wire w.done) := by
  obtain ⟨hseq, hwire, hsus, hdone⟩ := hfresh
  have hinit : w₀.Inv iss := by
    refine ⟨⟨by rw [hwire]; trivial, by rw [hwire]; exact hseq⟩, .inl ⟨hsus, ?_⟩⟩
    rw [hwire, hdone]
    rfl
  obtain ⟨hal, hcalls⟩ := guarded_invariant (Inv iss) step_inv hinit hok hrun
  refine ⟨hal.consecutive, fun hnone => ?_⟩
  rcases hcalls with ⟨-, hbytes⟩ | ⟨c, hone, -⟩
  · exact ⟨w.wire, w.done, List.Perm.refl _, List.Perm.refl _, hal.consecutive, hbytes⟩
  · rw [hone] at hnone
    cases hnone

/-- A connection whose initial sequence number was the largest one. -/
def sample : SendWorld :=
  { conn :=
      { localIp := [10, 0, 0, 2], remoteIp := [10, 0, 0, 1], localPort := 80, remotePort := 5000,
        state := .established, sndSeq := 0 } }

/-- A call that waits for the NIC and one that starts after it. -/
theorem send_reassembles_sample :
    ∃ w, exec step sample [.send [1, 2] [], .resume 0 [.sent], .send [3] [.sent]] = some w ∧
      Consecutive (2 ^ 32 - 1 + 1) w.wire ∧
        (w.suspended = [] → Reassembles (2 ^ 32 - 1) w.wire w.done) := by
  refine ⟨_, rfl, ?_⟩
  refine send_reassembles (2 ^ 32 - 1) sample _
    [.send [1, 2] [], .resume 0 [.sent], .send [3] [.sent]] ⟨rfl, rfl, rfl, rfl⟩ ?_ rfl
  have hlost : Outcome.lost ∉ [Outcome.sent] := by decide
  refine ⟨⟨by decide, fun _ => rfl⟩, fun w₁ h₁ => ⟨hlost, fun w₂ h₂ => ⟨⟨hlost, ?_⟩, ?_⟩⟩⟩
  · cases h₁
    cases h₂
    exact fun _ => rfl
  · exact fun _ _ => trivial

/-- Two calls that both wait for the NIC have built their segments with one sequence number. -/
theorem two_sends_same_sequence :
    ∃ w, exec step sample [.send [1] [], .send [2] [], .resume 0 [.sent], .resume 0 [.sent]] =
        some w ∧ w.suspended = [] ∧ ¬ Reassembles (2 ^ 32 - 1) w.wire w.done := by
  refine ⟨_, rfl, rfl, ?_⟩
  rintro ⟨segs, order, hperm, -, hcons, -⟩
  have hall : ∀ seg ∈ segs, seg.seq = 0 ∧ seg.payload.length = 1 := by
    intro seg hseg
    have hmem := hperm.mem_iff.mp hseg
    clear hseg
    revert seg
    decide
  match segs, hperm.length_eq, hcons with
  | [x, y], _, ⟨_, hy, _⟩ =>
    -- the second segment has to start where the first one ends
    rw [(hall x (by simp)).2, (hall y (by simp)).1] at hy
    exact absurd hy (by decide)

end SendWorld

end PythonOS.Net
