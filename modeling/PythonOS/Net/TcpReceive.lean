import Mathlib.Data.List.Induction
import PythonOS.Net.Tcp
import PythonOS.Lib.Runs

/-!
# PythonOS.Net.TcpReceive

What the receive side of the TCP stack guarantees.

Two systems are run here. `Receiver` is one established connection fed by a
network that may drop, duplicate and reorder the peer's segments; the stack
never compares a sequence number with `snd_ack`, so what it hands over is a
prefix of the peer's stream exactly as long as the network delivers in order.
`PeerLink` is a listener and one peer that sends its stream in order; there the
two places where data and a control flag share a segment decide whether bytes
and acknowledgement numbers come out right.
-/

namespace PythonOS.Net

open Lib List

/-! ### One segment -/

/-- Advancing the send sequence number touches nothing the receive side reads. -/
theorem advance_fields (c : TCPConnection) (flags : Nat) (payload : Bytes) :
    (c.advance flags payload).state = c.state ∧ (c.advance flags payload).rcvBuf = c.rcvBuf ∧
      (c.advance flags payload).sndAck = c.sndAck ∧ (c.advance flags payload).key = c.key := by
  unfold TCPConnection.advance
  split <;> exact ⟨rfl, rfl, rfl, rfl⟩

/-- An acknowledgement is empty, so it leaves the connection as it is. -/
@[simp] theorem acknowledge_fst (tx : TCPSegment → Bool) (sync : Bool) (c : TCPConnection) :
    (c.acknowledge tx sync).1 = c := by
  have hack : c.advance fAck [] = c := if_neg (by decide)
  unfold TCPConnection.acknowledge TCPConnection.sendSegmentNowait
  rw [hack]
  split
  · dsimp only
    split <;> rfl
  · rfl

variable {c : TCPConnection}

/-- Whatever an acknowledgement transmits carries the acknowledgement number
the connection holds at that moment. -/
theorem acknowledge_sent_ack {tx : TCPSegment → Bool} {sync : Bool} {seg : TCPSegment}
    (h : seg ∈ (c.acknowledge tx sync).2.sent) : seg.ack = c.sndAck := by
  unfold TCPConnection.acknowledge at h
  cases sync with
  | false => simp at h
  | true =>
    by_cases ht : tx (c.segment fAck [])
    · simp only [TCPConnection.sendSegmentNowait, ht, if_true, mem_singleton] at h
      rw [h]
      rfl
    · simp [TCPConnection.sendSegmentNowait, ht] at h

/-- The receive buffer grows by the payload in `ESTABLISHED` and is left alone in every
other state; the send sequence number and the four-tuple never move. -/
theorem handleSegment_fields (tx : TCPSegment → Bool) (c : TCPConnection) (seg : TCPSegment)
    (sync : Bool) {c' : TCPConnection} (h : (c.handleSegment tx seg sync).1 = c') :
    c'.rcvBuf = (if c.state = .established then c.rcvBuf ++ seg.payload else c.rcvBuf) ∧
      c'.sndSeq = c.sndSeq ∧ c'.localIp = c.localIp ∧ c'.localPort = c.localPort ∧
      c'.remoteIp = c.remoteIp ∧ c'.remotePort = c.remotePort := by
  subst h
  unfold TCPConnection.handleSegment
  cases hst : c.state with
  | established =>
    by_cases hp : seg.payload = [] <;> by_cases hf : hasFlag seg.flags fFin <;> simp [hp, hf]
  | synRcvd =>
    by_cases ha : hasFlag seg.flags fAck <;> simp [ha]
  | synSent =>
    by_cases hs : hasFlag seg.flags fSyn && hasFlag seg.flags fAck
    · simp [hs]
    · by_cases hr : hasFlag seg.flags fRst <;> simp [hs, hr]
  | _ => simp

theorem handleSegment_key (tx : TCPSegment → Bool) (c : TCPConnection) (seg : TCPSegment)
    (sync : Bool) : (c.handleSegment tx seg sync).1.key = c.key := by
  have hfields := handleSegment_fields tx c seg sync rfl
  simp only [TCPConnection.key, hfields]

theorem recv_fields (c : TCPConnection) (n : Int) :
    (c.recv n).2.state = c.state ∧ (c.recv n).2.sndAck = c.sndAck ∧ (c.recv n).2.key = c.key := by
  unfold TCPConnection.recv
  split
  · exact ⟨rfl, rfl, rfl⟩
  · split <;> exact ⟨rfl, rfl, rfl⟩

/-- State and acknowledgement number after a segment in `ESTABLISHED`: FIN has
the last word, and it counts from the segment's first byte. -/
theorem handleSegment_established (hst : c.state = .established) (tx : TCPSegment → Bool)
    (seg : TCPSegment) (sync : Bool) :
    (c.handleSegment tx seg sync).1.state =
        (if hasFlag seg.flags fFin then .closeWait else .established) ∧
      (c.handleSegment tx seg sync).1.sndAck =
        if hasFlag seg.flags fFin then (seg.seq + 1) % 2 ^ 32
        else if seg.payload ≠ [] then (seg.seq + seg.payload.length) % 2 ^ 32
        else c.sndAck := by
  unfold TCPConnection.handleSegment
  simp only [hst]
  by_cases hp : seg.payload = [] <;> by_cases hf : hasFlag seg.flags fFin <;> simp [hp, hf, hst]

/-- When a segment brings data or FIN but not both, what is transmitted on the
spot carries the acknowledgement number the segment leads to. -/
theorem handleSegment_established_sent (hst : c.state = .established) {tx : TCPSegment → Bool}
    {seg out : TCPSegment} {sync : Bool} (hplain : hasFlag seg.flags fFin = true → seg.payload = [])
    (hout : out ∈ (c.handleSegment tx seg sync).2.sent) :
    out.ack = (c.handleSegment tx seg sync).1.sndAck := by
  rw [(handleSegment_established hst tx seg sync).2]
  unfold TCPConnection.handleSegment at hout
  simp only [hst] at hout
  by_cases hf : hasFlag seg.flags fFin
  · have hp := hplain hf
    simp only [hf, hp, ne_eq, not_true_eq_false, if_false, if_true, nil_append] at hout ⊢
    exact acknowledge_sent_ack hout
  · by_cases hp : seg.payload = []
    · simp [hf, hp] at hout
    · simp only [hf, hp, ne_eq, not_false_eq_true, if_true, Bool.false_eq_true, if_false] at hout ⊢
      exact acknowledge_sent_ack hout

/-! ### A network that drops, duplicates and reorders -/

/-- An established connection and the bytes `recv` has returned so far. -/
structure Receiver where
  conn : TCPConnection
  received : Bytes

/-- What can happen to an established connection. A delivered segment names the
stream position of its first byte. -/
inductive NetEvent
  | deliver (seg : TCPSegment) (pos : Nat) (sync : Bool) (tx : TCPSegment → Bool)
  | recv (n : Int)
  | close

/-- `seg` is one of the peer's segments: its payload stands at `pos` in the
stream and its sequence number says so. -/
def Authentic (stream : Bytes) (isn : Nat) (seg : TCPSegment) (pos : Nat) : Prop :=
  seg.seq = (isn + 1 + pos) % 2 ^ 32 ∧ seg.payload <+: stream.drop pos

instance (stream : Bytes) (isn : Nat) (seg : TCPSegment) (pos : Nat) :
    Decidable (Authentic stream isn seg pos) := inferInstanceAs (Decidable (_ ∧ _))

namespace Receiver

/-- One event. Only segments the peer really sent can be delivered; the network
is free in everything else. -/
def step (stream : Bytes) (isn : Nat) (w : Receiver) : NetEvent → Option Receiver
  | .deliver seg pos sync tx =>
    if Authentic stream isn seg pos then
      some { w with conn := (w.conn.handleSegment tx seg sync).1 }
    else none
  | .recv n =>
    let r := w.conn.recv n
    some { conn := r.2, received := w.received ++ r.1.getD [] }
  | .close => some { w with conn := w.conn.close.1 }

/-- A connection that has just been established with a peer whose initial
sequence number is `isn`. -/
def Fresh (isn : Nat) (w : Receiver) : Prop :=
  w.conn.state = .established ∧ w.conn.rcvBuf = [] ∧
    w.conn.sndAck = (isn + 1) % 2 ^ 32 ∧ w.received = []

instance (isn : Nat) (w : Receiver) : Decidable (Fresh isn w) :=
  inferInstanceAs (Decidable (_ ∧ _))

/-- The delivery is in order: data that the connection will take starts right
after the bytes taken so far. -/
def InOrder (w : Receiver) : NetEvent → Prop
  | .deliver seg pos _ _ =>
    w.conn.state = .established → seg.payload ≠ [] →
      pos = w.received.length + w.conn.rcvBuf.length
  | _ => True

/-- Bytes handed over and bytes still buffered are the start of the stream. -/
def Inv (stream : Bytes) (w : Receiver) : Prop := w.received ++ w.conn.rcvBuf <+: stream

theorem prefix_append_of_drop {stream p q : Bytes} (hp : p <+: stream)
    (hq : q <+: stream.drop p.length) : p ++ q <+: stream := by
  obtain ⟨t, rfl⟩ := hp
  rw [drop_left] at hq
  exact (prefix_append_right_inj p).mpr hq

theorem recv_split (c : TCPConnection) (n : Int) :
    (c.recv n).1.getD [] ++ (c.recv n).2.rcvBuf = c.rcvBuf := by
  unfold TCPConnection.recv
  by_cases hb : c.rcvBuf = []
  · by_cases hs : c.state = .closeWait ∨ c.state = .closed <;> simp [hb, hs]
  · simp [hb]

theorem close_rcvBuf (c : TCPConnection) : c.close.1.rcvBuf = c.rcvBuf := by
  unfold TCPConnection.close
  cases c.state <;> rfl

theorem step_inv {stream : Bytes} {isn : Nat} (w : Receiver) (e : NetEvent) (w' : Receiver)
    (hinv : Inv stream w) (hord : InOrder w e) (h : step stream isn w e = some w') :
    Inv stream w' := by
  cases e with
  | deliver seg pos sync tx =>
    simp only [step] at h
    by_cases ha : Authentic stream isn seg pos
    · rw [if_pos ha] at h
      cases h
      simp only [Inv, (handleSegment_fields _ _ _ _ rfl).1]
      by_cases hs : w.conn.state = .established
      · rw [if_pos hs, ← append_assoc]
        by_cases hp : seg.payload = []
        · simpa [Inv, hp] using hinv
        · have hpos := hord hs hp
          refine prefix_append_of_drop hinv ?_
          rw [length_append, ← hpos]
          exact ha.2
      · rw [if_neg hs]
        exact hinv
    · rw [if_neg ha] at h
      cases h
  | recv n =>
    cases h
    simpa only [Inv, append_assoc, recv_split] using hinv
  | close =>
    cases h
    simpa only [Inv, close_rcvBuf] using hinv

/-- **In-order delivery gives a prefix.** In every run in which each piece of
data the connection takes starts where the data taken so far ends, what the
receiver has been handed is a prefix of the peer's stream. -/
theorem received_prefix_of_inOrder (stream : Bytes) (isn : Nat) (w₀ w : Receiver)
    (evs : List NetEvent) (hfresh : Fresh isn w₀)
    (hord : Guarded (step stream isn) InOrder w₀ evs)
    (hrun : exec (step stream isn) w₀ evs = some w) : w.received <+: stream := by
  have hinit : Inv stream w₀ := by
    simp [Inv, hfresh.2.1, hfresh.2.2.2]
  have hinv := guarded_invariant (Inv stream) step_inv hinit hord hrun
  exact (prefix_append w.received w.conn.rcvBuf).trans hinv

/-! A concrete connection for the runs below: the peer sends `hi`. -/

/-- The connection right after the handshake with a peer whose ISN is 7. -/
def sample : Receiver :=
  { conn :=
      { localIp := [10, 0, 0, 2], remoteIp := [10, 0, 0, 1], localPort := 80
        remotePort := 5000, state := .established, sndSeq := 1, sndAck := 8 }
    received := [] }

/-- The segment carrying `hi` with its true sequence number. -/
def hiSegment : TCPSegment :=
  { srcPort := 5000, dstPort := 80, seq := 8, ack := 1, flags := fAck ||| fPsh
    window := 65535, payload := [104, 105] }

/-- The hypotheses are met by delivering `hi` once and reading it. -/
theorem received_prefix_of_inOrder_hi :
    ∃ w, exec (step [104, 105] 7) sample
        [.deliver hiSegment 0 false (fun _ => true), .recv 10] = some w ∧
      w.received = [104, 105] ∧ w.received <+: [104, 105] :=
  ⟨_, rfl, rfl, received_prefix_of_inOrder [104, 105] 7 sample _
    [.deliver hiSegment 0 false (fun _ => true), .recv 10] (by decide)
    ⟨fun _ _ => rfl, fun _ _ => ⟨trivial, fun _ _ => trivial⟩⟩ rfl⟩

/-- A duplicated segment is taken twice: the receiver is handed `hihi` although
the peer's stream is `hi`. -/
theorem duplicate_not_prefix :
    ¬ ∀ (stream : Bytes) (isn : Nat) (w₀ w : Receiver) (evs : List NetEvent),
        Fresh isn w₀ → exec (step stream isn) w₀ evs = some w → w.received <+: stream := by
  intro h
  have hbad := h [104, 105] 7 sample _
    [.deliver hiSegment 0 true (fun _ => true), .deliver hiSegment 0 true (fun _ => true),
      .recv 10] (by decide) rfl
  exact absurd hbad (by decide)

end Receiver

/-! ### A peer that sends its stream in order -/

/-- All payload bytes of a list of segments. -/
def payloads (segs : List TCPSegment) : Bytes := segs.flatMap TCPSegment.payload

theorem payloads_append (segs segs' : List TCPSegment) :
    payloads (segs ++ segs') = payloads segs ++ payloads segs' := flatMap_append

@[simp] theorem payloads_concat (segs : List TCPSegment) (seg : TCPSegment) :
    payloads (segs ++ [seg]) = payloads segs ++ seg.payload := by
  simp [payloads]

/-- Has the peer ended its stream? -/
def finSeen (segs : List TCPSegment) : Bool := segs.any fun seg => hasFlag seg.flags fFin

/-- The acknowledgement number that is due once `segs` (the SYN first) have
been handled: one for the SYN, one for every byte, one for the FIN. -/
def expectedAck (isn : Nat) (segs : List TCPSegment) : Nat :=
  (isn + 1 + (payloads segs).length + (finSeen segs).toNat) % 2 ^ 32

/-- What an in-order peer with initial sequence number `isn` may send after
`handled`: first a SYN, then acknowledging segments numbered consecutively, and
nothing but bare acknowledgements once it has sent FIN. -/
def PeerSends (isn : Nat) (handled : List TCPSegment) (seg : TCPSegment) : Prop :=
  (handled = [] → hasFlag seg.flags fSyn = true ∧ hasFlag seg.flags fAck = false ∧ seg.seq = isn) ∧
    (handled ≠ [] → hasFlag seg.flags fSyn = false ∧ hasFlag seg.flags fAck = true ∧
      hasFlag seg.flags fRst = false ∧ seg.seq = expectedAck isn handled) ∧
    (finSeen handled = true → seg.payload = [] ∧ hasFlag seg.flags fFin = false)

instance (isn : Nat) (handled : List TCPSegment) (seg : TCPSegment) :
    Decidable (PeerSends isn handled seg) := inferInstanceAs (Decidable (_ ∧ _))

/-- `pkt` carries `seg` from the peer of `key`. -/
def FromPeer (key : ConnKey) (pkt : IPv4Packet) (seg : TCPSegment) : Prop :=
  pkt.proto = protoTcp ∧ pkt.src = key.remoteIp ∧ pkt.dst = key.localIp ∧
    seg.srcPort = key.remotePort ∧ seg.dstPort = key.localPort ∧ pkt.payload.length < 65536

instance (key : ConnKey) (pkt : IPv4Packet) (seg : TCPSegment) :
    Decidable (FromPeer key pkt seg) := inferInstanceAs (Decidable (_ ∧ _))

/-- A stack with a listener, the peer's segments handled so far, the bytes read
from the peer's connection, and the acknowledgement numbers sent to the peer,
each with the number of segments that had been handled by then. -/
structure PeerLink where
  stack : TCPStack
  handled : List TCPSegment := []
  received : Bytes := []
  acks : List (Nat × Nat) := []

/-- A packet of the peer arrives, the event loop runs a scheduled coroutine, an
`_on_syn` coroutine fails, or the owner of the connection calls `recv`. -/
inductive LinkEvent
  | packet (pkt : IPv4Packet) (sync : Bool) (iss : Nat) (tx : TCPSegment → Bool)
  | task (k : Nat)
  | synFails (k : Nat)
  | recv (n : Int)

namespace PeerLink

/-- Take over a new stack, logging what connection `i` sent on the way. -/
def record (w : PeerLink) (i : ConnId) (handled : List TCPSegment) (s : TCPStack) : PeerLink :=
  { w with
    stack := s, handled
    acks := w.acks ++ ((s.sent.drop w.stack.sent.length).filter fun p => p.1 = i).map fun p =>
        (handled.length, p.2.ack) }

/-- One event of the link; `i` is the object the peer's connection will be. -/
def step (key : ConnKey) (isn : Nat) (i : ConnId) (w : PeerLink) : LinkEvent → Option PeerLink
  | .packet pkt sync iss tx =>
    match TCPSegment.decode pkt.payload with
    | none => none
    | some seg =>
      if FromPeer key pkt seg ∧ PeerSends isn w.handled seg then
        some (w.record i (w.handled ++ [seg]) (w.stack.handleIpPacket tx iss pkt sync))
      else none
  | .task k => (w.stack.runTask k).map (w.record i w.handled)
  | .synFails k => (w.stack.failSyn k).map fun r => w.record i w.handled r.2
  | .recv n =>
    if w.handled = [] then none
    else
      let r := (w.stack.objs i).recv n
      some { w with stack := w.stack.setObj i r.2, received := w.received ++ r.1.getD [] }

/-- A listener waits on the peer's destination port and the peer is unknown. -/
def Listening (key : ConnKey) (s : TCPStack) : Prop :=
  s.connections.get? key = none ∧ (s.listeners.get? key.localPort).isSome = true ∧
    (∀ t ∈ s.tasks, t.conn < s.nextObj) ∧ (Dict.keys s.connections).Nodup

instance (key : ConnKey) (s : TCPStack) : Decidable (Listening key s) :=
  inferInstanceAs (Decidable (_ ∧ _))

/-- Everything sent has been received exactly once (read or buffered), and the
acknowledgement number is the one due, now and on every segment sent before. -/
def Good (isn : Nat) (i : ConnId) (w : PeerLink) : Prop :=
  (w.handled ≠ [] → w.received ++ (w.stack.objs i).rcvBuf = payloads w.handled ∧
        (w.stack.objs i).sndAck = expectedAck isn w.handled) ∧
    ∀ p ∈ w.acks, p.2 = expectedAck isn (w.handled.take p.1)

/-- A segment that carries neither data nor FIN. -/
def Bare (seg : TCPSegment) : Prop := seg.payload = [] ∧ hasFlag seg.flags fFin = false

instance (seg : TCPSegment) : Decidable (Bare seg) := inferInstanceAs (Decidable (_ ∧ _))

/-- No data comes where a control segment of the handshake or the FIN could lose it: the SYN and
the segment that completes the handshake are bare, and FIN comes without data. And the handshake
is not given up: the SYN-ACK is sent, and answered in time. -/
def Heard (key : ConnKey) (w : PeerLink) : LinkEvent → Prop
  | .packet pkt _ _ _ => ∀ seg ∈ TCPSegment.decode pkt.payload,
      (w.handled.length < 2 → Bare seg) ∧ (hasFlag seg.flags fFin = true → seg.payload = [])
  | .synFails k => ∀ r ∈ w.stack.failSyn k, w.handled = [] ∨ (w.stack.objs r.1).key ≠ key
  | .task _ | .recv _ => True

instance (key : ConnKey) (w : PeerLink) : (e : LinkEvent) → Decidable (Heard key w e)
  | .packet pkt _ _ _ => inferInstanceAs (Decidable (∀ seg ∈ TCPSegment.decode pkt.payload, _))
  | .synFails k => inferInstanceAs (Decidable (∀ r ∈ w.stack.failSyn k, _))
  | .task _ | .recv _ => isTrue trivial

/-! #### Segment lists -/

@[simp] theorem finSeen_append (segs : List TCPSegment) (seg : TCPSegment) :
    finSeen (segs ++ [seg]) = (finSeen segs || hasFlag seg.flags fFin) := by
  simp [finSeen]

variable {segs : List TCPSegment}

/-- One more segment of an open stream adds its data and its FIN. -/
theorem expectedAck_append {isn : Nat} (h : finSeen segs = false) (seg : TCPSegment) :
    expectedAck isn (segs ++ [seg]) =
      (expectedAck isn segs + seg.payload.length + (hasFlag seg.flags fFin).toNat) % 2 ^ 32 := by
  simp [expectedAck, h, Nat.add_assoc]

/-- A handled segment that is bare leaves the acknowledgement number due. -/
theorem expectedAck_append_bare {isn : Nat} {seg : TCPSegment}
    (h : Bare seg) : expectedAck isn (segs ++ [seg]) = expectedAck isn segs := by
  simp [expectedAck, h.1, h.2]

/-! #### The event loop between two packets -/

/-- Running a scheduled coroutine changes nothing the receive side reads. -/
structure Keeps (s s' : TCPStack) : Prop where
  objs : ∀ j, (s'.objs j).state = (s.objs j).state ∧ (s'.objs j).rcvBuf = (s.objs j).rcvBuf ∧
    (s'.objs j).sndAck = (s.objs j).sndAck ∧ (s'.objs j).key = (s.objs j).key
  connections : s'.connections = s.connections
  nextObj : s'.nextObj = s.nextObj
  listeners : ∀ port, (s'.listeners.get? port).isSome = (s.listeners.get? port).isSome

theorem setObj_advance_keeps (s : TCPStack) (i : ConnId) (flags : Nat) :
    Keeps s (s.setObj i ((s.objs i).advance flags [])) where
  objs j := by
    by_cases hj : j = i
    · subst hj
      simpa [TCPStack.setObj] using advance_fields (s.objs j) flags []
    · simp [TCPStack.setObj, Function.update_of_ne hj]
  connections := rfl
  nextObj := rfl
  listeners _ := rfl

theorem resume_keeps (s : TCPStack) (t : Task) : Keeps s (s.resume t).1 := by
  have hsame : ∀ s' : TCPStack, s'.objs = s.objs → s'.connections = s.connections →
      s'.nextObj = s.nextObj →
      (∀ port, (s'.listeners.get? port).isSome = (s.listeners.get? port).isSome) →
      Keeps s s' := fun s' ho hc hn hl =>
    ⟨fun j => by simp [ho], hc, hn, hl⟩
  cases t with
  | sendSegment j flags => exact hsame _ rfl rfl rfl fun _ => rfl
  | sendDone j flags => exact setObj_advance_keeps s j flags
  | onSyn j port => exact hsame _ rfl rfl rfl fun _ => rfl
  | onSynSent j port => exact setObj_advance_keeps s j _
  | onSynWait j port =>
    simp only [TCPStack.resume]
    split
    · split
      · split
        · next queue hq =>
          refine hsame _ rfl rfl rfl fun p => ?_
          by_cases hp : p = port
          · subst hp
            simp [hq]
          · simp [Dict.get?_set_of_ne _ _ hp]
        · exact hsame _ rfl rfl rfl fun _ => rfl
      · exact hsame _ rfl rfl rfl fun _ => rfl
    · exact hsame _ rfl rfl rfl fun _ => rfl

/-- What a resumed coroutine transmits belongs to its connection and carries
that connection's acknowledgement number. -/
theorem resume_sent (s : TCPStack) (t : Task) :
    ∃ out, (s.resume t).1.sent = s.sent ++ out ∧ (s.resume t).1.tasks = s.tasks ∧
      (∀ p ∈ out, p.1 = t.conn ∧ p.2.ack = (s.objs p.1).sndAck) ∧
      ∀ t' ∈ (s.resume t).2, t'.conn = t.conn := by
  cases t with
  | sendSegment j flags =>
    exact ⟨[(j, (s.objs j).segment flags [])], rfl, rfl, by simp [Task.conn, TCPConnection.segment],
      by simp [TCPStack.resume, Task.conn]⟩
  | sendDone j flags => exact ⟨[], by simp [TCPStack.resume, TCPStack.setObj], rfl, by simp,
      by simp [TCPStack.resume]⟩
  | onSyn j port =>
    exact ⟨[(j, (s.objs j).segment (fSyn ||| fAck) [])], rfl, rfl,
      by simp [Task.conn, TCPConnection.segment], by simp [TCPStack.resume, Task.conn]⟩
  | onSynSent j port => exact ⟨[], by simp [TCPStack.resume, TCPStack.setObj], rfl, by simp,
      by simp [TCPStack.resume, Task.conn]⟩
  | onSynWait j port =>
    refine ⟨[], ?_, ?_, by simp, ?_⟩
    · simp only [TCPStack.resume]
      split <;> (try split) <;> (try split) <;> simp
    · simp only [TCPStack.resume]
      split <;> (try split) <;> (try split) <;> rfl
    · simp only [TCPStack.resume]
      split <;> (try split) <;> (try split) <;> simp [Task.conn]

/-! #### The invariant -/

/-- The connection state the handled segments put the peer's connection in. -/
def stateAfter : List TCPSegment → TCPState
  | [] => .closed
  | [_] => .synRcvd
  | segs => if finSeen segs then .closeWait else .established

/-- What holds in every state of such a run: before the SYN nothing refers to
object `i`; from then on `i` is registered under the peer's key and its state
follows the segments; and the link is `Good`. -/
structure Inv (key : ConnKey) (isn : Nat) (i : ConnId) (w : PeerLink) : Prop where
  wf : w.stack.connections.Wf
  fresh : w.handled = [] → w.received = [] ∧ w.stack.connections.get? key = none ∧
    (w.stack.listeners.get? key.localPort).isSome = true ∧ w.stack.nextObj = i ∧
    ∀ t ∈ w.stack.tasks, t.conn ≠ i
  tuple : w.handled ≠ [] → (w.stack.objs i).key = key
  known : w.handled ≠ [] →
    w.stack.connections.get? key = some i ∧ (w.stack.objs i).state = stateAfter w.handled
  opened : w.handled.length < 2 → finSeen w.handled = false
  stamps : ∀ p ∈ w.acks, p.1 ≤ w.handled.length
  good : Good isn i w

variable {s : TCPStack}

theorem inv_init {key : ConnKey} (isn : Nat) (h : Listening key s) :
    Inv key isn s.nextObj { stack := s } where
  wf := h.2.2.2
  fresh _ := ⟨rfl, h.1, h.2.1, rfl, fun t ht => Nat.ne_of_lt (h.2.2.1 t ht)⟩
  tuple hne := absurd rfl hne
  known hne := absurd rfl hne
  opened _ := rfl
  stamps := by simp
  good := ⟨fun hne => absurd rfl hne, by simp⟩

variable {key : ConnKey} {isn : Nat} {i : ConnId} {w : PeerLink}

/-- Logging only right acknowledgement numbers keeps the log right. -/
theorem record_acks {handled : List TCPSegment} (out : List (ConnId × TCPSegment))
    (hlog : ∀ p ∈ w.acks, p.2 = expectedAck isn (handled.take p.1))
    (hsent : s.sent = w.stack.sent ++ out)
    (hout : ∀ p ∈ out, p.1 = i → p.2.ack = expectedAck isn handled) :
    ∀ p ∈ (w.record i handled s).acks, p.2 = expectedAck isn (handled.take p.1) := by
  intro p hp
  simp only [record, hsent, drop_left, mem_append, mem_map, mem_filter, decide_eq_true_eq] at hp
  rcases hp with hp | ⟨q, ⟨hq, hqi⟩, rfl⟩
  · exact hlog p hp
  · simpa using hout q hq hqi

theorem record_stamps {handled : List TCPSegment} (hlog : ∀ p ∈ w.acks, p.1 ≤ handled.length)
    (s : TCPStack) : ∀ p ∈ (w.record i handled s).acks, p.1 ≤ handled.length := by
  intro p hp
  simp only [record, mem_append, mem_map, mem_filter] at hp
  rcases hp with hp | ⟨q, -, rfl⟩
  · exact hlog p hp
  · exact le_rfl

/-- Between two packets the stack may change, but not what the connection has received and
acknowledges. -/
theorem Inv.between (hinv : Inv key isn i w) (hwf : s.connections.Wf)
    (hobj : (s.objs i).rcvBuf = (w.stack.objs i).rcvBuf ∧
      (s.objs i).sndAck = (w.stack.objs i).sndAck ∧ (s.objs i).key = (w.stack.objs i).key)
    (hfresh : w.handled = [] → s.connections.get? key = none ∧
      (s.listeners.get? key.localPort).isSome = true ∧ s.nextObj = i ∧ ∀ t ∈ s.tasks, t.conn ≠ i)
    (hknown : w.handled ≠ [] →
      s.connections.get? key = some i ∧ (s.objs i).state = stateAfter w.handled)
    {out : List (ConnId × TCPSegment)} (hsent : s.sent = w.stack.sent ++ out)
    (hout : ∀ p ∈ out, p.1 = i → p.2.ack = expectedAck isn w.handled) :
    Inv key isn i (w.record i w.handled s) where
  wf := hwf
  fresh he := ⟨(hinv.fresh he).1, hfresh he⟩
  tuple hne := hobj.2.2.trans (hinv.tuple hne)
  known := hknown
  opened := hinv.opened
  stamps := record_stamps hinv.stamps s
  good := by
    refine ⟨fun hne => ?_, record_acks out hinv.good.2 hsent hout⟩
    obtain ⟨hb, ha⟩ := hinv.good.1 hne
    exact ⟨by simpa [record, hobj.1] using hb, hobj.2.1.trans ha⟩

/-- Letting the event loop run a coroutine keeps the invariant. -/
theorem task_inv (hinv : Inv key isn i w) {k : Nat} (h : w.stack.runTask k = some s) :
    Inv key isn i (w.record i w.handled s) := by
  unfold TCPStack.runTask at h
  cases ht : w.stack.tasks[k]? with
  | none => rw [ht] at h; exact absurd h (by simp)
  | some t =>
    rw [ht] at h
    cases h
    have hmem : t ∈ w.stack.tasks := mem_of_getElem? ht
    obtain ⟨hobjs, hconn, hnext, hlis⟩ := resume_keeps w.stack t
    obtain ⟨out, hsent, htasks, hout, hnew⟩ := resume_sent w.stack t
    refine hinv.between ?_ (hobjs i).2 (fun he => ?_) (fun hne => ?_) hsent fun p hp hpi => ?_
    · dsimp only
      rw [hconn]
      exact hinv.wf
    · obtain ⟨-, hc, hl, hn, hts⟩ := hinv.fresh he
      dsimp only
      rw [hconn, hlis, hnext]
      refine ⟨hc, hl, hn, fun t' ht' => ?_⟩
      rw [htasks] at ht'
      rcases mem_append.mp ht' with ht' | ht'
      · exact hts t' (mem_of_mem_eraseIdx ht')
      · rw [hnew t' ht']
        exact hts t hmem
    · dsimp only
      rw [hconn, (hobjs i).1]
      exact hinv.known hne
    · obtain ⟨hcon, hack⟩ := hout p hp
      rw [hack, hpi]
      by_cases he : w.handled = []
      · exact absurd (hcon.symm.trans hpi) ((hinv.fresh he).2.2.2.2 t hmem)
      · exact (hinv.good.1 he).2

/-- What a failure of `_on_syn` for connection `j` changes: the table, and the state of `j`. -/
theorem failSyn_spec {s' : TCPStack} {k : Nat} {j : ConnId} (h : s.failSyn k = some (j, s')) :
    s'.connections = s.connections.erase (s.objs j).key ∧ s'.nextObj = s.nextObj ∧
      s'.listeners = s.listeners ∧ s'.sent = s.sent ∧ (∃ t ∈ s.tasks, t.conn = j) ∧
      (∀ t ∈ s'.tasks, t ∈ s.tasks) ∧ ∀ x, (s'.objs x).rcvBuf = (s.objs x).rcvBuf ∧
        (s'.objs x).sndAck = (s.objs x).sndAck ∧ (s'.objs x).key = (s.objs x).key ∧
        (x ≠ j → (s'.objs x).state = (s.objs x).state) := by
  unfold TCPStack.failSyn at h
  split at h <;> cases h
  · next ht => exact ⟨rfl, rfl, rfl, rfl, ⟨_, mem_of_getElem? ht, rfl⟩,
      fun _ => mem_of_mem_eraseIdx, fun _ => ⟨rfl, rfl, rfl, fun _ => rfl⟩⟩
  · next ht => exact ⟨rfl, rfl, rfl, rfl, ⟨_, mem_of_getElem? ht, rfl⟩,
      fun _ => mem_of_mem_eraseIdx, fun _ => ⟨rfl, rfl, rfl, fun _ => rfl⟩⟩
  · next ht =>
    refine ⟨?_, rfl, rfl, rfl, ⟨_, mem_of_getElem? ht, rfl⟩, fun _ => mem_of_mem_eraseIdx,
      fun x => ?_⟩
    · simp [TCPStack.removeConnection, TCPStack.setObj, TCPConnection.key]
    · by_cases hx : x = j
      · subst hx
        simp [TCPStack.removeConnection, TCPStack.setObj, TCPConnection.key]
      · simp [TCPStack.removeConnection, TCPStack.setObj, Function.update_of_ne hx]

/-- A failing `_on_syn` of another four-tuple leaves the peer's entry alone. -/
theorem synFails_inv (hinv : Inv key isn i w) {k : Nat} {j : ConnId}
    (h : w.stack.failSyn k = some (j, s)) (hother : w.handled = [] ∨ (w.stack.objs j).key ≠ key) :
    Inv key isn i (w.record i w.handled s) := by
  obtain ⟨hconn, hnext, hlis, hsent, -, htasks, hobjs⟩ := failSyn_spec h
  obtain ⟨hbuf, hack, hkey, hstate⟩ := hobjs i
  refine hinv.between (hconn ▸ hinv.wf.erase _) ⟨hbuf, hack, hkey⟩ (fun he => ?_) (fun hne => ?_)
    (hsent.trans (append_nil _).symm) nofun
  · obtain ⟨-, hc, hl, hn, hts⟩ := hinv.fresh he
    rw [hlis, hnext, hconn]
    refine ⟨?_, hl, hn, fun t' ht' => hts t' (htasks t' ht')⟩
    by_cases heq : key = (w.stack.objs j).key
    · rw [← heq, Dict.get?_erase_self hinv.wf]
    · rw [Dict.get?_erase_of_ne _ heq, hc]
  · have hne' := hother.resolve_left hne
    have hij : i ≠ j := by
      rintro rfl
      exact hne' (hinv.tuple hne)
    rw [hconn, Dict.get?_erase_of_ne _ hne'.symm, hstate hij]
    exact hinv.known hne

/-- Reading from the connection keeps the invariant. -/
theorem recv_inv (hinv : Inv key isn i w) (hne : w.handled ≠ []) (n : Int) :
    Inv key isn i { w with
        stack := w.stack.setObj i ((w.stack.objs i).recv n).2
        received := w.received ++ ((w.stack.objs i).recv n).1.getD [] } := by
  obtain ⟨hstate, hack, hkey⟩ := recv_fields (w.stack.objs i) n
  refine ⟨hinv.wf, fun he => absurd he hne, fun _ => ?_, fun _ => ?_, hinv.opened, hinv.stamps,
    fun _ => ?_, hinv.good.2⟩
  · simpa [TCPStack.setObj, hkey] using hinv.tuple hne
  · simpa [TCPStack.setObj, hstate] using hinv.known hne
  · obtain ⟨hb, ha⟩ := hinv.good.1 hne
    refine ⟨?_, by simpa [TCPStack.setObj, hack] using ha⟩
    simpa [TCPStack.setObj, Receiver.recv_split] using hb

/-! #### A packet of the peer -/

section Packet

variable {pkt : IPv4Packet} {seg : TCPSegment} (tx : TCPSegment → Bool) (iss : Nat) (sync : Bool)

theorem fromPeer_key (h : FromPeer key pkt seg) :
    (⟨pkt.dst, seg.dstPort, pkt.src, seg.srcPort⟩ : ConnKey) = key := by
  obtain ⟨-, hsrc, hdst, hsp, hdp, -⟩ := h
  rw [hsrc, hdst, hsp, hdp]

section

variable (hdec : TCPSegment.decode pkt.payload = some seg) (hpeer : FromPeer key pkt seg)

include hdec hpeer

/-- A packet for a registered connection goes to its state machine. -/
theorem handleIpPacket_known {s : TCPStack} (hknown : s.connections.get? key = some i) :
    s.handleIpPacket tx iss pkt sync =
      (s.setObj i ((s.objs i).handleSegment tx seg sync).1).perform i
        ((s.objs i).handleSegment tx seg sync).2 := by
  simp [TCPStack.handleIpPacket, hpeer.1, hdec, fromPeer_key hpeer, hknown]

/-- The first SYN of an unknown peer registers the next object. -/
theorem handleIpPacket_syn {s : TCPStack} (hnone : s.connections.get? key = none)
    (hlis : (s.listeners.get? key.localPort).isSome = true)
    (hsyn : hasFlag seg.flags fSyn = true) (hack : hasFlag seg.flags fAck = false) :
    (s.handleIpPacket tx iss pkt sync).connections = s.connections.set key s.nextObj ∧
      ((s.handleIpPacket tx iss pkt sync).objs s.nextObj).key = key ∧
      ((s.handleIpPacket tx iss pkt sync).objs s.nextObj).state = .synRcvd ∧
      ((s.handleIpPacket tx iss pkt sync).objs s.nextObj).rcvBuf = [] ∧
      ((s.handleIpPacket tx iss pkt sync).objs s.nextObj).sndAck = (seg.seq + 1) % 2 ^ 32 ∧
      (s.handleIpPacket tx iss pkt sync).sent = s.sent := by
  obtain ⟨queue, hq⟩ := Option.isSome_iff_exists.mp hlis
  rw [← hpeer.2.2.2.2.1] at hq
  simp [TCPStack.handleIpPacket, hpeer.1, hdec, fromPeer_key hpeer, hnone, hsyn, hack, hq,
    TCPStack.setObj, TCPConnection.key]

end

section

variable (hinv : Inv key isn i w)

include hinv

/-- After the SYN: nothing received, the acknowledgement number counts the SYN. -/
theorem syn_link (he : w.handled = [])
    (hdec : TCPSegment.decode pkt.payload = some seg) (hpeer : FromPeer key pkt seg)
    (hsends : PeerSends isn w.handled seg) :
    let w' := w.record i (w.handled ++ [seg]) (w.stack.handleIpPacket tx iss pkt sync)
    w'.stack.connections = w.stack.connections.set key i ∧ (w'.stack.objs i).key = key ∧
      (w'.stack.objs i).state = .synRcvd ∧ w'.received ++ (w'.stack.objs i).rcvBuf = [] ∧
      (w'.stack.objs i).sndAck = (isn + 1) % 2 ^ 32 ∧ w'.stack.sent = w.stack.sent := by
  obtain ⟨hrec, hnone, hlis, hnext, -⟩ := hinv.fresh he
  obtain ⟨hsyn, hack, hseq⟩ := hsends.1 he
  obtain ⟨hk, hkey, hst, hbuf, hsa, hsent⟩ :=
    handleIpPacket_syn tx iss sync hdec hpeer hnone hlis hsyn hack
  rw [hnext] at hk hkey hst hbuf hsa
  refine ⟨hk, hkey, hst, ?_, hsa.trans (by rw [hseq]), hsent⟩
  show w.received ++ _ = _
  rw [hrec, nil_append]
  exact hbuf

/-- A later packet: registration, state and buffers follow `handle_segment`. -/
theorem packet_link (hne : w.handled ≠ [])
    (hdec : TCPSegment.decode pkt.payload = some seg) (hpeer : FromPeer key pkt seg) :
    let w' := w.record i (w.handled ++ [seg]) (w.stack.handleIpPacket tx iss pkt sync)
    let r := (w.stack.objs i).handleSegment tx seg sync
    w'.stack.connections = w.stack.connections ∧ w'.stack.objs i = r.1 ∧
      w'.received = w.received ∧ w'.stack.sent = w.stack.sent ++ r.2.sent.map (i, ·) := by
  simp only [record, handleIpPacket_known tx iss sync hdec hpeer (hinv.known hne).1]
  exact ⟨rfl, by simp [TCPStack.perform, TCPStack.setObj], trivial, rfl⟩

/-- Acknowledgement numbers logged before a segment stay right after it. -/
theorem acks_append (seg : TCPSegment) :
    ∀ p ∈ w.acks, p.2 = expectedAck isn ((w.handled ++ [seg]).take p.1) := by
  intro p hp
  rw [take_append_of_le_length (hinv.stamps p hp)]
  exact hinv.good.2 p hp

theorem stamps_append (seg : TCPSegment) : ∀ p ∈ w.acks, p.1 ≤ (w.handled ++ [seg]).length := by
  intro p hp
  have := hinv.stamps p hp
  rw [length_append]
  omega

variable (hsends : PeerSends isn w.handled seg) (hfirst : w.handled.length < 2 → Bare seg)
  (hplain : hasFlag seg.flags fFin = true → seg.payload = [])

include hsends hfirst hplain

/-- The state machine's answer to the next segment. -/
theorem handleSegment_heard (hne : w.handled ≠ []) :
    let r := (w.stack.objs i).handleSegment tx seg sync
    r.1.state = stateAfter (w.handled ++ [seg]) ∧
      r.1.rcvBuf = (w.stack.objs i).rcvBuf ++ seg.payload ∧
      r.1.sndAck = expectedAck isn (w.handled ++ [seg]) ∧
      ∀ out ∈ r.2.sent, out.ack = r.1.sndAck := by
  obtain ⟨-, hack, -, hseq⟩ := hsends.2.1 hne
  have hsa := (hinv.good.1 hne).2
  have hst := (hinv.known hne).2
  match hh : w.handled with
  | [] => exact absurd hh hne
  | [syn] =>
    -- the segment that completes the handshake is bare
    have hbare : Bare seg := hfirst (by simp [hh])
    rw [hh] at hst hsa
    have hr : (w.stack.objs i).handleSegment tx seg sync =
        ({ w.stack.objs i with state := .established, acceptEvent := true }, {}) := by
      unfold TCPConnection.handleSegment
      rw [hst]
      simp [stateAfter, hack]
    have hfin : finSeen [syn] = false := hh ▸ hinv.opened (by simp [hh])
    rw [hr]
    refine ⟨?_, by simp [hbare.1], ?_, by simp⟩
    · have : finSeen ([syn] ++ [seg]) = false := by rw [finSeen_append, hfin, hbare.2]; rfl
      simpa [stateAfter] using this
    · rw [hsa, expectedAck_append_bare hbare]
  | syn :: ack :: rest =>
    rw [hh] at hst hsa hseq
    cases hfin : finSeen (syn :: ack :: rest) with
    | true =>
      -- the peer has ended its stream: only bare acknowledgements follow
      have hbare : Bare seg := hsends.2.2 (by rw [hh]; exact hfin)
      have hstate : (w.stack.objs i).state = .closeWait := by
        simpa [stateAfter, hfin] using hst
      have hr : (w.stack.objs i).handleSegment tx seg sync = (w.stack.objs i, {}) := by
        unfold TCPConnection.handleSegment
        rw [hstate]
      rw [hr]
      refine ⟨?_, by simp [hbare.1], ?_, by simp⟩
      · rw [hstate]
        have : finSeen ((syn :: ack :: rest) ++ [seg]) = true := by
          rw [finSeen_append, hfin]; rfl
        simpa [stateAfter] using this
      · rw [hsa, expectedAck_append_bare hbare]
    | false =>
      have hstate : (w.stack.objs i).state = .established := by
        simpa [stateAfter, hfin] using hst
      obtain ⟨hs', ha'⟩ := handleSegment_established hstate tx seg sync
      refine ⟨?_, by simp [(handleSegment_fields _ _ _ _ rfl).1, hstate], ?_,
        fun out hout => handleSegment_established_sent hstate hplain hout⟩
      · rw [hs']
        have hfin' : finSeen ((syn :: ack :: rest) ++ [seg]) = hasFlag seg.flags fFin := by
          rw [finSeen_append, hfin]; rfl
        simp only [cons_append, stateAfter] at hfin' ⊢
        rw [hfin']
      · rw [ha', hseq, expectedAck_append hfin]
        by_cases hf : hasFlag seg.flags fFin = true
        · simp [hf, hplain hf]
        · by_cases hp : seg.payload = []
          · simp [hf, hp, hsa, expectedAck]
          · simp [hf, hp]

/-- A packet that is heard keeps the invariant. -/
theorem packet_inv (hdec : TCPSegment.decode pkt.payload = some seg)
    (hpeer : FromPeer key pkt seg) :
    Inv key isn i (w.record i (w.handled ++ [seg]) (w.stack.handleIpPacket tx iss pkt sync)) := by
  have hnil : (w.handled ++ [seg]) ≠ [] := by simp
  by_cases he : w.handled = []
  · obtain ⟨hk, hkey, hst, hbuf, hsa, hsent⟩ :=
      syn_link tx iss sync hinv he hdec hpeer hsends
    have hbare : Bare seg := hfirst (by simp [he])
    refine ⟨hk ▸ hinv.wf.set _ _, fun h => absurd h hnil, fun _ => hkey, fun _ => ⟨?_, ?_⟩,
      fun _ => ?_, record_stamps (stamps_append hinv seg) _, fun _ => ⟨?_, ?_⟩, ?_⟩
    · rw [hk, Dict.get?_set_self]
    · rw [hst]
      simp [record, he, stateAfter]
    · simp [record, he, finSeen, hbare.2]
    · rw [hbuf]
      simp [record, he, payloads, hbare.1]
    · rw [hsa]
      show _ = expectedAck isn (w.handled ++ [seg])
      rw [expectedAck_append_bare hbare, he]
      simp [expectedAck, payloads, finSeen]
    · exact record_acks [] (acks_append hinv seg) (by simpa [record] using hsent) (by simp)
  · obtain ⟨hk, hobj, hrec, hsent⟩ :=
      packet_link tx iss sync hinv he hdec hpeer
    obtain ⟨hst, hbuf, hsa, hout⟩ :=
      handleSegment_heard tx sync hinv hsends hfirst hplain he
    refine ⟨hk ▸ hinv.wf, fun h => absurd h hnil, fun _ => ?_, fun _ => ⟨?_, hobj ▸ hst⟩,
      fun hlen => ?_, record_stamps (stamps_append hinv seg) _, fun _ => ⟨?_, hobj ▸ hsa⟩, ?_⟩
    · rw [hobj, handleSegment_key]
      exact hinv.tuple he
    · rw [hk]
      exact (hinv.known he).1
    · have hpos := length_pos_iff.mpr he
      simp only [record, length_append, length_singleton] at hlen
      omega
    · rw [hobj, hrec, hbuf, ← append_assoc, (hinv.good.1 he).1]
      exact (payloads_concat w.handled seg).symm
    · refine record_acks _ (acks_append hinv seg) hsent fun p hp _ => ?_
      obtain ⟨q, hq, rfl⟩ := mem_map.mp hp
      rw [hout q hq]
      exact hsa

end

end Packet

/-! #### Whole runs -/

theorem step_inv (w : PeerLink) (e : LinkEvent) (w' : PeerLink) (hinv : Inv key isn i w)
    (hok : Heard key w e) (h : step key isn i w e = some w') : Inv key isn i w' := by
  cases e with
  | packet pkt sync iss tx =>
    simp only [step] at h
    split at h
    · cases h
    · next seg hdec =>
      split at h <;> cases h
      next hc =>
        obtain ⟨hfirst, hplain⟩ := hok seg hdec
        exact packet_inv tx iss sync hinv hc.2 hfirst hplain hdec hc.1
  | task k =>
    obtain ⟨s, hs, rfl⟩ := Option.map_eq_some_iff.mp h
    exact task_inv hinv hs
  | synFails k =>
    obtain ⟨⟨j, s⟩, hs, rfl⟩ := Option.map_eq_some_iff.mp h
    exact synFails_inv hinv hs (hok (j, s) hs)
  | recv n =>
    simp only [step] at h
    split at h <;> cases h
    next hne => exact recv_inv hinv hne n

/-- A packet of the sample peer with a 20-byte TCP header. -/
def samplePacket (seq flags : UInt8) (payload : Bytes) : IPv4Packet :=
  { src := [10, 0, 0, 1], dst := [10, 0, 0, 2], proto := protoTcp, ttl := 64
    payload := [0x13, 0x88, 0, 80, 0, 0, 0, seq, 0, 0, 0, 0, 0x50, flags, 255, 255, 0, 0, 0, 0] ++
      payload }

end PeerLink

end PythonOS.Net
