import PythonOS.Net.Stack
import PythonOS.Net.TcpSend

/-!
# PythonOS.Bridge.TcpTransport

The bridge's byte stream over the kernel's TCP (`kernel/bridge/tcp_transport.py`):
`write_bytes` and `read_bytes`, with the synchronous send path of `tcp.py` and
`stack.py` under them.

What the NIC does is given to the model: `Link.ring` is what its `send_nowait`
will answer, one answer for each call, and `Link.arrivals` what its `recv_nowait`
will return. Both may be any lists; after their end the NIC refuses and has
nothing. A reading call that may poll without end gets a stream of frames instead.
-/

namespace PythonOS.Bridge

open Lib Net List Option

/-- A frame the NIC has received, whether it takes the acknowledgements that the frame
causes, and the initial sequence number of the connection it may open. -/
structure Arrival where
  raw : Bytes
  tx : TCPSegment → Bool
  iss : Nat

/-- `poll_once` on the stack: one frame, or none. -/
def pollNet (net : NetStack) : Option Arrival → NetStack
  | none => net
  | some a => (net.pollOnce a.tx a.iss (some a.raw)).1

/-- Polling receives segments; it sends none of the buffer and keeps the peer. -/
theorem pollNet_conn {i : ConnId} {net : NetStack} (a : Option Arrival) (hi : i < net.tcp.nextObj) :
    ((pollNet net a).tcp.objs i).sndSeq = (net.tcp.objs i).sndSeq ∧
      ((pollNet net a).tcp.objs i).remoteIp = (net.tcp.objs i).remoteIp ∧
      i < (pollNet net a).tcp.nextObj := by
  cases a with
  | none => exact ⟨rfl, rfl, hi⟩
  | some a =>
    rw [← and_assoc]
    refine ⟨?_, Nat.lt_of_lt_of_le hi (NetStack.receive_nextObj a.tx a.iss true net a.raw)⟩
    dsimp only [pollNet, NetStack.pollOnce]
    rw [NetStack.receive_obj a.tx a.iss true net a.raw hi]
    unfold handed
    split
    · exact ⟨rfl, rfl⟩
    · split
      · have hfields := handleSegment_fields a.tx (net.tcp.objs i) ‹_› true rfl
        exact ⟨hfields.2.1, hfields.2.2.2.2.1⟩
      · exact ⟨rfl, rfl⟩

theorem pollNet_arp {net : NetStack} (a : Option Arrival) {ip : Bytes}
    (h : net.arp.get? ip ≠ none) :
    (pollNet net a).localIp = net.localIp ∧ (pollNet net a).arp.get? ip ≠ none := by
  cases a with
  | none => exact ⟨rfl, h⟩
  | some a =>
    obtain ⟨frames, heq⟩ := NetStack.receive_eq a.tx a.iss true net a.raw
    dsimp only [pollNet, NetStack.pollOnce]
    rw [heq]
    refine ⟨rfl, ?_⟩
    dsimp only
    split
    · exact h
    · rw [Dict.get?_set]
      split
      · exact some_ne_none _
      · exact h

/-- The exceptions of the transport. -/
inductive TransportError
  | notConnected
  | couldNotTransmit
  deriving Repr, DecidableEq

/-- The network under the bridge, the connection (`_conn`), what the NIC will do, and the data
segments it has taken for the connection. -/
structure Link where
  net : NetStack
  gateway : Bytes
  conn : Option ConnId
  ring : List Bool
  arrivals : List (Option Arrival)
  wire : List TCPSegment := []

namespace Link

/-- `_send_frame_nowait`. -/
def sendFrameNowait (l : Link) : Bool × Link :=
  match l.ring with
  | [] => (false, l)
  | ok :: rest => (ok, { l with ring := rest })

/-- Where a packet for `dst` is sent to. -/
def nextHop (l : Link) (dst : Bytes) : Bytes :=
  if dst.take 3 = l.net.localIp.take 3 then dst else l.gateway

/-- `send_tcp_segment_nowait`: without the next hop's address an ARP request is sent instead. -/
def sendTcpSegmentNowait (l : Link) (dst : Bytes) : Bool × Link :=
  match l.net.arp.get? (l.nextHop dst) with
  | none => (false, l.sendFrameNowait.2)
  | some _ => l.sendFrameNowait

/-- `send_segment_nowait` of a data segment on connection `i`. -/
def sendSegmentNowait (l : Link) (i : ConnId) (payload : Bytes) : Bool × Link :=
  let c := l.net.tcp.objs i
  let (taken, l') := l.sendTcpSegmentNowait c.remoteIp
  let (ok, c', out) := c.sendSegmentNowait (fun _ => taken) dataFlags payload
  (ok, { l' with
    net := { l'.net with tcp := l'.net.tcp.setObj i c' }
    wire := l'.wire ++ out })

/-- `stack.poll_once()`. -/
def pollOnce (l : Link) : Link :=
  match l.arrivals with
  | [] => l
  | a :: rest => { l with net := pollNet l.net a, arrivals := rest }

/-- `while stack.poll_once(): pass`. -/
def drain : List (Option Arrival) → Link → Link
  | [], l => { l with arrivals := [] }
  | none :: rest, l => { l with arrivals := rest }
  | some a :: rest, l => drain rest { l with net := pollNet l.net (some a) }

/-- The loop of `send_nowait` after `count` segments. -/
def sendLoop (i : ConnId) : Nat → List Bytes → Link → Bool × Link
  | _, [], l => (true, drain l.arrivals l)
  | count, chunk :: rest, l =>
    match l.sendSegmentNowait i chunk with
    | (false, l') => (false, l')
    | (true, l') =>
      sendLoop i (count + 1) rest
        (if (count + 1) % tcpTxPollBurst = 0 then drain l'.arrivals l' else l')

/-- `send_nowait`. -/
def sendNowait (l : Link) (i : ConnId) (data : Bytes) : Bool × Link :=
  sendLoop i 0 (segmentChunks data) l

/-- The retries of `write_bytes`. -/
def retry (i : ConnId) (buf : Bytes) : Nat → Link → Link × Except TransportError Unit
  | 0, l => (l, .error .couldNotTransmit)
  | k + 1, l =>
    match l.pollOnce.sendNowait i buf with
    | (true, l') => (l', .ok ())
    | (false, l') => retry i buf k l'

/-- `write_bytes`. -/
def writeBytes (l : Link) (buf : Bytes) : Link × Except TransportError Unit :=
  match l.conn with
  | none => (l, .error .notConnected)
  | some i =>
    if buf = [] then (l, .ok ())
    else
      match l.sendNowait i buf with
      | (true, l') => (l', .ok ())
      | (false, l') => retry i buf 10000 l'

/-! ### What is sent -/

/-- What a call of `write_bytes` on `l` promises of its outcome. After a normal return the NIC has
taken, in addition, segments with consecutive sequence numbers from the connection's on, with the
bytes of the buffer; when the call raises, nothing. -/
def SentAs (l : Link) (buf : Bytes) : Link × Except TransportError Unit → Prop
  | (l', .ok ()) => ∃ segs, l'.wire = l.wire ++ segs ∧ payloads segs = buf ∧
      ∀ i, l.conn = some i → Consecutive (l.net.tcp.objs i).sndSeq segs
  | (l', .error _) => l'.wire = l.wire

/-- The buffer is sent once, or not at all. -/
def SentOnce (l : Link) (buf : Bytes) : Prop := SentAs l buf (l.writeBytes buf)

/-- The address of the next hop to the peer is known. -/
def Reaches (l : Link) (i : ConnId) : Prop :=
  l.net.arp.get? (l.nextHop (l.net.tcp.objs i).remoteIp) ≠ none

/-- The NIC can take a segment: the next hop is known and the ring has room. -/
def Opens (l : Link) (i : ConnId) : Prop := l.Reaches i ∧ l.ring[0]? = some true

/-- The ring and the network after `a` answers of the ring and as many frames. -/
def after : Nat → Link → Link
  | 0, l => l
  | a + 1, l => after a { l with ring := l.ring.tail }.pollOnce

/-- When the NIC can take a segment for the first time, after at most `k` answers, the ring has
room for every segment of the buffer: its next answers are yes, one for each 1200 bytes. -/
def Room (i : ConnId) (buf : Bytes) (k : Nat) (l : Link) : Prop :=
  ∀ a ≤ k, (l.after a).Opens i → (∀ b < a, ¬ (l.after b).Opens i) →
    ∀ j, j * tcpMaxPayload < buf.length → (l.after a).ring[j]? = some true

/-- The connection object exists and has a sequence number of 32 bits. -/
def Ready (l : Link) (i : ConnId) : Prop :=
  i < l.net.tcp.nextObj ∧ (l.net.tcp.objs i).sndSeq < 2 ^ 32

/-- From `l` to `l'` the segments `segs` of connection `i` were taken. -/
structure Took (i : ConnId) (l l' : Link) (segs : List TCPSegment) : Prop where
  wire : l'.wire = l.wire ++ segs
  consecutive : Consecutive (l.net.tcp.objs i).sndSeq segs
  seq : (l'.net.tcp.objs i).sndSeq =
    ((l.net.tcp.objs i).sndSeq + (payloads segs).length) % 2 ^ 32
  nonempty : ∀ seg ∈ segs, seg.payload ≠ []
  allocated : i < l'.net.tcp.nextObj
  reaches : l.Reaches i → l'.Reaches i

variable {i : ConnId} {l l' l'' : Link}

variable {segs : List TCPSegment}

theorem Took.ready (h : Took i l l' segs) : l'.Ready i :=
  ⟨h.allocated, by rw [h.seq]; exact Nat.mod_lt _ (by norm_num)⟩

theorem consecutive_mod {pos pos' : Nat} (h : pos % 2 ^ 32 = pos' % 2 ^ 32)
    (hc : Consecutive pos segs) : Consecutive pos' segs := by
  induction segs generalizing pos pos' with
  | nil => trivial
  | cons seg segs ih =>
    refine ⟨hc.1.trans h, ih ?_ hc.2⟩
    rw [Nat.add_mod, h, ← Nat.add_mod]

theorem Took.trans {segs' : List TCPSegment} (h : Took i l l' segs) (h' : Took i l' l'' segs') :
    Took i l l'' (segs ++ segs') where
  wire := by rw [h'.wire, h.wire, append_assoc]
  consecutive := by
    refine consecutive_append.mpr ⟨h.consecutive, consecutive_mod ?_ h'.consecutive⟩
    rw [h.seq, Nat.mod_mod]
  seq := by
    rw [h'.seq, h.seq, Nat.mod_add_mod, payloads_append, length_append, Nat.add_assoc]
  nonempty seg hseg := (mem_append.mp hseg).elim (h.nonempty seg) (h'.nonempty seg)
  allocated := h'.allocated
  reaches hreach := h'.reaches (h.reaches hreach)

theorem Took.payloads_eq_nil (h : Took i l l' segs) : payloads segs = [] ↔ segs = [] := by
  constructor
  · intro hnil
    cases segs with
    | nil => rfl
    | cons seg segs =>
      exact absurd (append_eq_nil_iff.mp hnil).1 (h.nonempty seg (.head _))
  · intro hnil
    rw [hnil]
    rfl

theorem Took.wire_eq (h : Took i l l' segs) : l'.wire = l.wire ↔ segs = [] := by
  rw [h.wire]
  exact append_right_eq_self

/-- A change that takes no segment and keeps the connection's sequence number. -/
theorem Took.nothing (hr : l.Ready i) (hwire : l'.wire = l.wire)
    (hseq : (l'.net.tcp.objs i).sndSeq = (l.net.tcp.objs i).sndSeq)
    (hal : i < l'.net.tcp.nextObj) (hreach : l.Reaches i → l'.Reaches i) : Took i l l' [] where
  wire := by rw [hwire, append_nil]
  consecutive := trivial
  seq := by
    rw [hseq]
    exact (Nat.mod_eq_of_lt hr.2).symm
  nonempty _ h := absurd h not_mem_nil
  allocated := hal
  reaches := hreach

/-- Polling takes nothing, and the next hop stays known. -/
theorem poll_took (a : Option Arrival) (arrivals : List (Option Arrival)) (hr : l.Ready i) :
    Took i l { l with net := pollNet l.net a, arrivals } [] := by
  obtain ⟨hseq, hip, hlt⟩ := pollNet_conn a hr.1
  refine .nothing hr rfl hseq hlt fun hreach => ?_
  obtain ⟨hlocal, hknown⟩ := pollNet_arp a hreach
  unfold Reaches nextHop
  dsimp only
  rw [hip, hlocal]
  exact hknown

theorem pollOnce_took (hr : l.Ready i) : Took i l l.pollOnce [] := by
  unfold pollOnce
  split
  · exact .nothing hr rfl rfl hr.1 id
  · exact poll_took _ _ hr

theorem drain_took (arrivals : List (Option Arrival)) (hr : l.Ready i) :
    Took i l (drain arrivals l) [] := by
  induction arrivals generalizing l with
  | nil => exact .nothing hr rfl rfl hr.1 id
  | cons a rest ih =>
    cases a with
    | none => exact .nothing hr rfl rfl hr.1 id
    | some a =>
      have hone := poll_took (some a) l.arrivals hr
      exact hone.trans (ih hone.ready)

theorem drain_ring (arrivals : List (Option Arrival)) : (drain arrivals l).ring = l.ring := by
  induction arrivals generalizing l with
  | nil => rfl
  | cons a rest ih =>
    cases a with
    | none => rfl
    | some a => exact ih

/-- Every segment uses up one answer of the ring, also one that is not sent for want of an
address. -/
theorem sendTcpSegmentNowait_eq (l : Link) (i : ConnId) :
    (l.Opens i ∧ l.sendTcpSegmentNowait (l.net.tcp.objs i).remoteIp =
      (true, { l with ring := l.ring.tail })) ∨
    (¬ l.Opens i ∧ l.sendTcpSegmentNowait (l.net.tcp.objs i).remoteIp =
      (false, { l with ring := l.ring.tail })) := by
  obtain ⟨net, gateway, conn, ring, arrivals, wire⟩ := l
  unfold Opens Reaches sendTcpSegmentNowait sendFrameNowait nextHop
  dsimp only
  generalize net.arp.get? _ = known
  cases known with
  | none => cases ring <;> exact .inr ⟨fun h => h.1 rfl, rfl⟩
  | some mac =>
    cases ring with
    | nil => exact .inr ⟨fun h => (by cases h.2), rfl⟩
    | cons ok rest =>
      cases ok with
      | false => exact .inr ⟨fun h => (by cases h.2), rfl⟩
      | true => exact .inl ⟨⟨some_ne_none _, rfl⟩, rfl⟩

/-- The segment is taken, with the connection's sequence number, or it is not. -/
theorem sendSegmentNowait_took (hr : l.Ready i) {payload : Bytes} (hp : payload ≠ []) :
    (∃ l', l.Opens i ∧ l.sendSegmentNowait i payload = (true, l') ∧ l'.ring = l.ring.tail ∧
      ∃ seg, Took i l l' [seg] ∧ seg.payload = payload) ∨
    (¬ l.Opens i ∧ l.sendSegmentNowait i payload = (false, { l with ring := l.ring.tail })) := by
  unfold sendSegmentNowait
  dsimp only
  rcases l.sendTcpSegmentNowait_eq i with ⟨hopen, heq⟩ | ⟨hshut, heq⟩
  · have hseg : (l.net.tcp.objs i).sendSegmentNowait (fun _ => true) dataFlags payload = (true,
        (l.net.tcp.objs i).advance dataFlags payload,
        [(l.net.tcp.objs i).segment dataFlags payload]) := rfl
    rw [heq]
    dsimp only
    rw [hseg]
    refine .inl ⟨_, hopen, rfl, rfl, (l.net.tcp.objs i).segment dataFlags payload,
      ⟨rfl, ⟨?_, trivial⟩, ?_, ?_, hr.1, fun h => ?_⟩, rfl⟩
    · exact (Nat.mod_eq_of_lt hr.2).symm
    · have hpay : payloads [(l.net.tcp.objs i).segment dataFlags payload] = payload :=
        append_nil payload
      rw [hpay]
      dsimp only [TCPStack.setObj]
      rw [Function.update_self, advance_data _ hp]
    · intro seg hseg
      rw [mem_singleton.mp hseg]
      exact hp
    · have hip : ((l.net.tcp.setObj i ((l.net.tcp.objs i).advance dataFlags payload)).objs
          i).remoteIp = (l.net.tcp.objs i).remoteIp := by
        dsimp only [TCPStack.setObj]
        rw [Function.update_self]
        exact congrArg ConnKey.remoteIp (advance_fields _ _ _).2.2.2
      unfold Reaches nextHop at h ⊢
      dsimp only
      rw [hip]
      exact h
  · rw [heq]
    refine .inr ⟨hshut, ?_⟩
    simp [TCPConnection.sendSegmentNowait, TCPStack.setObj]

/-- **The send loop.** What it takes are the first bytes of the chunks, and all of them when it
returns true. With the next hop known it returns true when the ring takes every chunk. -/
theorem sendLoop_took {chunks : List Bytes} (hne : ∀ c ∈ chunks, c ≠ []) (count : Nat)
    (hr : l.Ready i) :
    ∃ segs, Took i l (sendLoop i count chunks l).2 segs ∧
      ((sendLoop i count chunks l).1 = true → payloads segs = chunks.flatten) ∧
      (l.Opens i → chunks ≠ [] → segs ≠ []) ∧
      (l.Reaches i → ((sendLoop i count chunks l).1 = true ↔
        ∀ k < chunks.length, l.ring[k]? = some true)) := by
  induction chunks generalizing count l with
  | nil =>
    exact ⟨[], drain_took _ hr, fun _ => rfl, fun _ h => absurd rfl h,
      fun _ => ⟨fun _ k hk => absurd hk (Nat.not_lt_zero k), fun _ => rfl⟩⟩
  | cons chunk rest ih =>
    unfold sendLoop
    rcases sendSegmentNowait_took hr (hne chunk (.head _)) with
      ⟨l1, hopen, heq, hring, seg, htook, hpay⟩ | ⟨hshut, heq⟩
    · rw [heq]
      dsimp only
      generalize hpolled : (if (count + 1) % tcpTxPollBurst = 0 then drain l1.arrivals l1
        else l1) = l2
      have htook2 : Took i l1 l2 [] ∧ l2.ring = l1.ring := by
        rw [← hpolled]
        split
        · exact ⟨drain_took _ htook.ready, drain_ring _⟩
        · exact ⟨.nothing htook.ready rfl rfl htook.allocated id, rfl⟩
      obtain ⟨segs, htook', hall, -, hiff⟩ :=
        ih (fun c hc => hne c (.tail _ hc)) (count + 1) htook2.1.ready
      refine ⟨seg :: segs, htook.trans (htook2.1.trans htook'), fun h => ?_,
        fun _ _ => cons_ne_nil _ _, fun hreach => ?_⟩
      · rw [← singleton_append, payloads_append, hall h, flatten_cons, ← hpay]
        exact congrArg (· ++ rest.flatten) (append_nil _)
      · rw [hiff (htook2.1.reaches (htook.reaches hreach)), htook2.2, hring]
        constructor
        · intro h k hk
          cases k with
          | zero => exact hopen.2
          | succ k => exact getElem?_tail ▸ h k (Nat.lt_of_succ_lt_succ hk)
        · intro h k hk
          rw [getElem?_tail]
          exact h (k + 1) (Nat.succ_lt_succ hk)
    · rw [heq]
      refine ⟨[], .nothing hr rfl rfl hr.1 id, fun h => absurd h Bool.false_ne_true,
        fun h => absurd h hshut, fun hreach => ⟨fun h => absurd h Bool.false_ne_true, fun h => ?_⟩⟩
      exact absurd ⟨hreach, h 0 (Nat.succ_pos _)⟩ hshut

/-! ### The whole call -/

/-- After an attempt that took a segment it is too late. -/
theorem retry_not_sentAs {l0 : Link} (buf : Bytes) (k : Nat) (h : Took i l0 l segs)
    (hsegs : segs ≠ []) : ¬ SentAs l0 buf (retry i buf k l) := by
  induction k generalizing l segs with
  | zero => exact fun hwire => hsegs (h.wire_eq.mp hwire)
  | succ k ih =>
    have hpoll := pollOnce_took h.ready
    obtain ⟨segs', htook, hall, -, -⟩ :=
      sendLoop_took (fun _ h => segmentChunks_ne_nil h) 0 hpoll.ready
    have htotal := h.trans (hpoll.trans htook)
    rw [nil_append] at htotal
    unfold retry sendNowait
    generalize sendLoop i 0 (segmentChunks buf) l.pollOnce = r at htook hall htotal
    obtain ⟨ok, l1⟩ := r
    cases ok with
    | true =>
      rintro ⟨sent, hwire, hpay, -⟩
      rw [htotal.wire, append_cancel_left_eq] at hwire
      rw [← hwire, payloads_append, hall rfl, segmentChunks_flatten] at hpay
      exact hsegs (h.payloads_eq_nil.mp (append_left_eq_self.mp hpay))
    | false => exact ih htotal fun hnil => hsegs (append_eq_nil_iff.mp hnil).1

/-- An attempt to send and the `k` retries after it. -/
def attempts (i : ConnId) (buf : Bytes) (k : Nat) (l : Link) : Link × Except TransportError Unit :=
  match l.sendNowait i buf with
  | (true, l') => (l', .ok ())
  | (false, l') => retry i buf k l'

theorem sentAs_congr {buf : Bytes} (hconn : l.conn = some i) (hconn' : l'.conn = some i)
    (h : Took i l l' []) (hr : l.Ready i) (r : Link × Except TransportError Unit) :
    SentAs l buf r ↔ SentAs l' buf r := by
  have hwire : l'.wire = l.wire := h.wire_eq.mpr rfl
  have hseq : (l'.net.tcp.objs i).sndSeq = (l.net.tcp.objs i).sndSeq :=
    h.seq.trans (Nat.mod_eq_of_lt hr.2)
  obtain ⟨l'', e | ⟨⟩⟩ := r
  · simp only [SentAs, hwire]
  · simp only [SentAs, hwire, hconn, hconn', some_inj, forall_eq', hseq]

section

variable {buf : Bytes} (hbuf : buf ≠ []) (k : Nat) (hr : l.Ready i)

include hbuf hr

/-- An attempt that takes a segment decides: it is the last one if the ring has room for the rest,
and what it took is sent again if not. -/
theorem attempts_of_opens (hconn : l.conn = some i) (hopen : l.Opens i) :
    SentAs l buf (attempts i buf k l) ↔ Room i buf k l := by
  obtain ⟨segs, htook, hall, hsome, hiff⟩ :=
    sendLoop_took (fun _ h => segmentChunks_ne_nil h) 0 hr
  have hcount : ∀ j, j < (segmentChunks buf).length ↔ j * tcpMaxPayload < buf.length := by
    intro j
    simp only [segmentChunks, length_map, length_range, tcpMaxPayload]
    omega
  have hroom : Room i buf k l ↔ ∀ j < (segmentChunks buf).length, l.ring[j]? = some true := by
    simp only [hcount]
    constructor
    · exact fun h => h 0 (Nat.zero_le _) hopen fun b hb => absurd hb (Nat.not_lt_zero b)
    · intro h a _ _ hfirst
      cases a with
      | zero => exact h
      | succ a => exact absurd hopen (hfirst 0 (Nat.succ_pos a))
  rw [hroom, ← hiff hopen.1]
  unfold attempts sendNowait
  generalize sendLoop i 0 (segmentChunks buf) l = r at htook hall
  obtain ⟨ok, l1⟩ := r
  cases ok with
  | true =>
    refine ⟨fun _ => rfl, fun _ => ⟨segs, htook.wire, ?_, fun j hj => ?_⟩⟩
    · rw [hall rfl, segmentChunks_flatten]
    · rw [hconn, some_inj] at hj
      subst hj
      exact htook.consecutive
  | false =>
    have hsegs : segs ≠ [] := hsome hopen fun hnil => hbuf (SendWorld.data_eq_nil hnil)
    exact ⟨fun h => absurd h (retry_not_sentAs buf k htook hsegs),
      fun h => absurd h Bool.false_ne_true⟩

/-- An attempt that takes nothing uses up one answer. -/
theorem attempts_of_not_opens (hshut : ¬ l.Opens i) :
    attempts i buf k l = retry i buf k { l with ring := l.ring.tail } := by
  unfold attempts sendNowait
  cases hchunks : segmentChunks buf with
  | nil => exact absurd (SendWorld.data_eq_nil hchunks) hbuf
  | cons chunk rest =>
    have hne : chunk ≠ [] := segmentChunks_ne_nil (hchunks ▸ mem_cons_self)
    unfold sendLoop
    rcases sendSegmentNowait_took hr hne with ⟨_, hopen, -⟩ | ⟨-, heq⟩
    · exact absurd hopen hshut
    · rw [heq]

/-- The retries, by induction on their number: each starts from the link after one answer and one
frame. -/
theorem attempts_sentAs (hconn : l.conn = some i) :
    SentAs l buf (attempts i buf k l) ↔ Room i buf k l := by
  induction k generalizing l with
  | zero =>
    by_cases hopen : l.Opens i
    · exact attempts_of_opens hbuf 0 hr hconn hopen
    · rw [attempts_of_not_opens hbuf 0 hr hopen]
      refine ⟨fun _ a ha h => ?_, fun _ => rfl⟩
      obtain rfl := Nat.le_zero.mp ha
      exact absurd h hopen
  | succ k ih =>
    by_cases hopen : l.Opens i
    · exact attempts_of_opens hbuf _ hr hconn hopen
    · have htail : Took i l { l with ring := l.ring.tail } [] := .nothing hr rfl rfl hr.1 id
      have hpoll := htail.trans (pollOnce_took htail.ready)
      have hconn' : ({ l with ring := l.ring.tail }.pollOnce).conn = some i := by
        unfold pollOnce
        split <;> exact hconn
      rw [attempts_of_not_opens hbuf _ hr hopen, sentAs_congr hconn hconn' hpoll hr]
      refine (ih hpoll.ready hconn').trans ⟨fun h a ha hop hfirst => ?_,
        fun h a ha hop hfirst => ?_⟩
      · cases a with
        | zero => exact absurd hop hopen
        | succ a =>
          refine h a (Nat.le_of_succ_le_succ ha) hop fun b hb => ?_
          exact hfirst (b + 1) (Nat.succ_lt_succ hb)
      · refine h (a + 1) (Nat.succ_le_succ ha) hop fun b hb => ?_
        cases b with
        | zero => exact hopen
        | succ b => exact hfirst b (Nat.lt_of_succ_lt_succ hb)

end

/-- **`write_bytes`.** The buffer is sent once or not at all exactly when, at the first moment at
which the NIC can take a segment, the ring has room for all of them. -/
theorem sentOnce_iff_room (l : Link) (buf : Bytes)
    (hready : ∀ i, l.conn = some i → l.Ready i) :
    SentOnce l buf ↔ ∀ i, l.conn = some i → Room i buf 10000 l := by
  unfold SentOnce writeBytes
  cases hconn : l.conn with
  | none => exact ⟨fun _ i hi => (by cases hi), fun _ => rfl⟩
  | some i =>
    dsimp only
    by_cases hbuf : buf = []
    · subst hbuf
      rw [if_pos rfl]
      refine ⟨fun _ _ _ _ _ _ _ j hj => absurd hj (Nat.not_lt_zero _),
        fun _ => ⟨[], ?_, rfl, fun _ _ => trivial⟩⟩
      exact (append_nil _).symm
    · rw [if_neg hbuf]
      refine (attempts_sentAs hbuf 10000 (hready i hconn) hconn).trans ?_
      exact ⟨fun h j hj => some_inj.mp hj ▸ h, fun h => h i rfl⟩

/-- An established connection whose peer's address is known. -/
def sample (ring : List Bool) : Link :=
  { net := { NetStack.sample with arp := [([10, 0, 0, 1], [2, 0, 0, 0, 0, 1])] }
    gateway := [10, 0, 0, 254], conn := some 0, ring, arrivals := [] }

theorem sample_ready (ring : List Bool) (i : ConnId) (h : (sample ring).conn = some i) :
    (sample ring).Ready i := by
  obtain rfl := some_inj.mp h
  exact ⟨Nat.one_pos, show 1 < 2 ^ 32 by norm_num⟩

theorem sentOnce_iff_room_sample : SentOnce (sample [false, true]) [1, 2, 3] := by
  refine (sentOnce_iff_room (sample [false, true]) [1, 2, 3] (sample_ready _)).mpr ?_
  intro i _ a _ hopen _ j hj
  have hj : j = 0 := by
    simp only [tcpMaxPayload, length_cons, length_nil] at hj
    omega
  rw [hj]
  exact hopen.2

/-- The second of two segments is refused once: the retry starts from the first again, and the
peer gets 1200 bytes twice. -/
theorem refused_second_segment_sent_again :
    let r := (sample [true, false, true, true]).writeBytes (replicate 1201 0)
    r.2 = .ok () ∧ (payloads r.1.wire).length = 2401 ∧
      ¬ SentOnce (sample [true, false, true, true]) (replicate 1201 0) := by
  have hlen : (payloads ((sample [true, false, true, true]).writeBytes
      (replicate 1201 0)).1.wire).length = 2401 := by decide +kernel
  have hok : ((sample [true, false, true, true]).writeBytes (replicate 1201 0)).2 = .ok () := by
    decide +kernel
  refine ⟨hok, hlen, ?_⟩
  unfold SentOnce
  generalize (sample [true, false, true, true]).writeBytes (replicate 1201 0) = r at hlen hok
  obtain ⟨l', res⟩ := r
  subst hok
  rintro ⟨segs, hwire, hpay, -⟩
  have hwire : l'.wire = segs := hwire
  rw [hwire, hpay, length_replicate] at hlen
  exact absurd hlen (by decide)

end Link

/-! ### Reading -/

/-- What a reading call meets: the frame each poll finds, and the readings of `uptime_ms`, the
first when the deadline is computed and one after each poll. -/
structure Polling where
  frames : Nat → Option Arrival
  clock : Nat → Int

/-- `state.name in ("CLOSE_WAIT", "CLOSED")`. -/
def closedDown (c : TCPConnection) : Bool := c.state = .closeWait ∨ c.state = .closed

/-- Has the time `t` reached the deadline, if there is one? -/
def expired (deadline : Option Int) (t : Int) : Bool :=
  match deadline with
  | none => false
  | some d => d ≤ t

namespace Polling

variable (e : Polling)

/-- The loop of `read_bytes` after `j` polls, for at most `fuel` rounds. -/
def readLoop (i : ConnId) (n : Nat) (deadline : Option Int) :
    Nat → Nat → NetStack → Option (NetStack × Option Bytes)
  | 0, _, _ => none
  | fuel + 1, j, net =>
    let c := net.tcp.objs i
    if c.rcvBuf.length < n then
      let net' := pollNet net (e.frames j)
      let c' := net'.tcp.objs i
      if closedDown c' && c'.rcvBuf.isEmpty then some (net', none)
      else if expired deadline (e.clock (j + 1)) then some (net', none)
      else readLoop i n deadline fuel (j + 1) net'
    else
      some ({ net with tcp := net.tcp.setObj i { c with rcvBuf := c.rcvBuf.drop n } },
        some (c.rcvBuf.take n))

/-- The deadline of a call. -/
def deadline (timeout : Option Int) : Option Int := timeout.map fun ms => e.clock 0 + max 0 ms

/-- `read_bytes`, for at most `fuel` rounds. -/
def readBytes (net : NetStack) (conn : Option ConnId) (n : Nat) (timeout : Option Int)
    (fuel : Nat) : Option (Except TransportError (NetStack × Option Bytes)) :=
  match conn with
  | none => some (.error .notConnected)
  | some i => (e.readLoop i n (e.deadline timeout) fuel 0 net).map .ok

/-- The call ends. -/
def Stops (net : NetStack) (conn : Option ConnId) (n : Nat) (timeout : Option Int) : Prop :=
  ∃ fuel, (e.readBytes net conn n timeout fuel).isSome

/-- The stack after `j` polls. -/
def netAt (net : NetStack) : Nat → NetStack
  | 0 => net
  | j + 1 => pollNet (netAt net j) (e.frames j)

/-- The connection after `j` polls. -/
def connAt (net : NetStack) (i : ConnId) (j : Nat) : TCPConnection := (e.netAt net j).tcp.objs i

/-- The segment that poll `j` hands to connection `i`. -/
def segmentAt (net : NetStack) (i : ConnId) (j : Nat) : Option TCPSegment :=
  match e.frames j with
  | none => none
  | some a =>
    match (e.netAt net j).segmentFor a.raw with
    | none => none
    | some (k, seg) => if k = i then some seg else none

/-- After `k` polls the peer has closed or reset the connection: before the call (`k = 0`), or
with the segment that the last of them received. No segment after that has data. -/
def PeerEnded (net : NetStack) (i : ConnId) (k : Nat) : Prop :=
  (∀ j, k = j + 1 → ∃ seg, e.segmentAt net i j = some seg ∧
    (hasFlag seg.flags fFin ∨ hasFlag seg.flags fRst)) ∧
  ∀ j, k ≤ j → ∀ seg, e.segmentAt net i j = some seg → seg.payload = []

/-- The segment closes the connection down: FIN in `ESTABLISHED`, or RST in `SYN_SENT` without
SYN and ACK. -/
def Closes (c : TCPConnection) (seg : TCPSegment) : Prop :=
  c.state = .established ∧ hasFlag seg.flags fFin ∨
    c.state = .synSent ∧ hasFlag seg.flags fRst ∧
      ¬ (hasFlag seg.flags fSyn ∧ hasFlag seg.flags fAck)

/-- After `j` polls the connection is closed down: before the call, or by a segment that one of
them has handed to it. -/
def ClosedAt (net : NetStack) (i : ConnId) : Nat → Prop
  | 0 => closedDown (net.tcp.objs i)
  | j + 1 => ClosedAt net i j ∨
    ∃ seg, e.segmentAt net i j = some seg ∧ Closes (e.connAt net i j) seg

/-- The loop leaves in round `j`. -/
def ExitsAt (net : NetStack) (i : ConnId) (n : Nat) (deadline : Option Int) (j : Nat) : Prop :=
  n ≤ (e.connAt net i j).rcvBuf.length ∨
    (closedDown (e.connAt net i (j + 1)) ∧ (e.connAt net i (j + 1)).rcvBuf = []) ∨
    expired deadline (e.clock (j + 1))

section

variable {e} {net : NetStack} {i : ConnId} {n : Nat} {deadline : Option Int}

/-- One round: it leaves the loop, or the loop goes on with the next. -/
theorem readLoop_succ_isSome (fuel j : Nat) :
    (e.readLoop i n deadline (fuel + 1) j (e.netAt net j)).isSome ↔ e.ExitsAt net i n deadline j ∨
        (e.readLoop i n deadline fuel (j + 1) (e.netAt net (j + 1))).isSome := by
  have hunfold : e.readLoop i n deadline (fuel + 1) j (e.netAt net j) =
      if (e.connAt net i j).rcvBuf.length < n then
        if closedDown (e.connAt net i (j + 1)) && (e.connAt net i (j + 1)).rcvBuf.isEmpty then
          some (e.netAt net (j + 1), none)
        else if expired deadline (e.clock (j + 1)) then some (e.netAt net (j + 1), none)
        else e.readLoop i n deadline fuel (j + 1) (e.netAt net (j + 1))
      else
        some ({ e.netAt net j with
            tcp := (e.netAt net j).tcp.setObj i
              { e.connAt net i j with rcvBuf := (e.connAt net i j).rcvBuf.drop n } },
          some ((e.connAt net i j).rcvBuf.take n)) := rfl
  rw [hunfold]
  unfold ExitsAt
  split
  · next hlen =>
    rw [or_iff_right (Nat.not_le_of_lt hlen)]
    split
    · next hclosed =>
      rw [Bool.and_eq_true, List.isEmpty_iff] at hclosed
      exact ⟨fun _ => .inl (.inl hclosed), fun _ => rfl⟩
    · next hopen =>
      rw [Bool.and_eq_true, List.isEmpty_iff] at hopen
      rw [or_iff_right hopen]
      split
      · next hexp => exact ⟨fun _ => .inl hexp, fun _ => rfl⟩
      · next hexp => exact (or_iff_right hexp).symm
  · next hlen => exact ⟨fun _ => .inl (.inl (Nat.le_of_not_lt hlen)), fun _ => rfl⟩

/-- A loop of `fuel` rounds returns when one of these rounds leaves it. -/
theorem readLoop_isSome (fuel j : Nat) :
    (e.readLoop i n deadline fuel j (e.netAt net j)).isSome ↔
      ∃ k, j ≤ k ∧ k < j + fuel ∧ e.ExitsAt net i n deadline k := by
  induction fuel generalizing j with
  | zero =>
    constructor
    · intro h
      cases h
    · omega
  | succ fuel ih =>
    rw [readLoop_succ_isSome, ih]
    constructor
    · rintro (h | ⟨k, hjk, hk, h⟩)
      · exact ⟨j, le_rfl, by omega, h⟩
      · exact ⟨k, by omega, by omega, h⟩
    · rintro ⟨k, hjk, hk, h⟩
      rcases Nat.eq_or_lt_of_le hjk with rfl | hlt
      · exact .inl h
      · exact .inr ⟨k, hlt, by omega, h⟩

/-- The call stops when some round leaves the loop. -/
theorem stops_iff (timeout : Option Int) :
    e.Stops net (some i) n timeout ↔ ∃ j, e.ExitsAt net i n (e.deadline timeout) j := by
  unfold Stops readBytes
  simp only [isSome_map]
  constructor
  · rintro ⟨fuel, h⟩
    obtain ⟨k, -, -, hk⟩ := (readLoop_isSome fuel 0).mp h
    exact ⟨k, hk⟩
  · rintro ⟨j, hj⟩
    exact ⟨j + 1, (readLoop_isSome (j + 1) 0).mpr ⟨j, Nat.zero_le _, by omega, hj⟩⟩

theorem closedDown_handleSegment {c : TCPConnection} (hopen : ¬ closedDown c)
    (tx : TCPSegment → Bool) (seg : TCPSegment) :
    closedDown (c.handleSegment tx seg true).1 ↔ Closes c seg := by
  unfold closedDown Closes at *
  cases hst : c.state with
  | established =>
    rw [(handleSegment_established hst tx seg true).1]
    by_cases hfin : hasFlag seg.flags fFin = true <;> simp [hfin]
  | synSent =>
    unfold TCPConnection.handleSegment
    rw [hst]
    dsimp only
    split_ifs with hsyn hrst <;> simp_all
  | synRcvd =>
    unfold TCPConnection.handleSegment
    rw [hst]
    dsimp only
    split <;> simp [hst]
  | _ =>
    unfold TCPConnection.handleSegment
    simp_all

section

variable (hi : i < net.tcp.nextObj)

include hi

theorem netAt_nextObj (j : Nat) : i < (e.netAt net j).tcp.nextObj := by
  induction j with
  | zero => exact hi
  | succ j ih => exact (pollNet_conn (e.frames j) ih).2.2

/-- A poll hands the connection its segment, or leaves it alone. -/
theorem connAt_succ (j : Nat) :
    (∃ tx seg, e.segmentAt net i j = some seg ∧
      e.connAt net i (j + 1) = ((e.connAt net i j).handleSegment tx seg true).1) ∨
    (e.segmentAt net i j = none ∧ e.connAt net i (j + 1) = e.connAt net i j) := by
  have hi : i < (e.netAt net j).tcp.nextObj := netAt_nextObj hi j
  have hnet : e.netAt net (j + 1) = pollNet (e.netAt net j) (e.frames j) := rfl
  unfold segmentAt connAt
  rw [hnet]
  cases e.frames j with
  | none => exact .inr ⟨rfl, rfl⟩
  | some a =>
    dsimp only [pollNet, NetStack.pollOnce]
    rw [NetStack.receive_obj a.tx a.iss true _ a.raw hi]
    cases (e.netAt net j).segmentFor a.raw with
    | none => exact .inr ⟨rfl, rfl⟩
    | some r =>
      obtain ⟨k, seg⟩ := r
      dsimp only [handed]
      by_cases hk : k = i
      · rw [if_pos hk, if_pos hk]
        exact .inl ⟨a.tx, seg, rfl, rfl⟩
      · rw [if_neg hk, if_neg hk]
        exact .inr ⟨rfl, rfl⟩

theorem rcvBuf_succ (j : Nat) :
    (e.connAt net i j).rcvBuf.length ≤ (e.connAt net i (j + 1)).rcvBuf.length := by
  rcases connAt_succ hi j with ⟨tx, seg, -, hc⟩ | ⟨-, hc⟩
  · rw [hc, (handleSegment_fields _ _ _ _ rfl).1]
    split
    · rw [length_append]
      exact Nat.le_add_right _ _
    · exact le_rfl
  · rw [hc]

/-- Once the connection is closed down, polling changes nothing about it. -/
theorem connAt_of_closedDown {j k : Nat} (hclosed : closedDown (e.connAt net i j)) (hjk : j ≤ k) :
    e.connAt net i k = e.connAt net i j := by
  induction k, hjk using Nat.le_induction with
  | base => rfl
  | succ k _ ih =>
    rcases connAt_succ hi k with ⟨tx, seg, -, hc⟩ | ⟨-, hc⟩
    · rw [hc, ih]
      unfold TCPConnection.handleSegment
      rcases of_decide_eq_true hclosed with hst | hst <;> rw [hst]
    · rw [hc, ih]

/-- Only these segments close the connection down. -/
theorem closedAt_iff (j : Nat) : e.ClosedAt net i j ↔ closedDown (e.connAt net i j) := by
  induction j with
  | zero => exact Iff.rfl
  | succ j ih =>
    rw [ClosedAt, ih]
    by_cases hclosed : closedDown (e.connAt net i j)
    · simp [hclosed, connAt_of_closedDown hi hclosed (Nat.le_succ j)]
    · rcases connAt_succ hi j with ⟨tx, seg, hseg, hc⟩ | ⟨hnone, hc⟩
      · rw [hc, closedDown_handleSegment hclosed]
        simp [hclosed, hseg]
      · simp [hclosed, hnone, hc]

/-- After the peer's end the buffer stays as it is. -/
theorem PeerEnded.rcvBuf_eq {j k : Nat} (hend : e.PeerEnded net i k)
    (hkj : k ≤ j) : (e.connAt net i j).rcvBuf = (e.connAt net i k).rcvBuf := by
  induction j, hkj using Nat.le_induction with
  | base => rfl
  | succ j hkj ih =>
    rcases connAt_succ hi j with ⟨tx, seg, hseg, hc⟩ | ⟨-, hc⟩
    · rw [hc, (handleSegment_fields _ _ _ _ rfl).1, hend.2 j hkj seg hseg, append_nil, ite_self, ih]
    · rw [hc, ih]

end

/-- **`read_bytes` after the peer's end** stops in three cases only: the bytes asked for are in the
buffer; the buffer is empty and the connection was closed down before the call or is closed down by
FIN in `ESTABLISHED` or RST in `SYN_SENT`; or there is a timeout and it expires. -/
theorem stops_iff_of_peerEnded (hi : i < net.tcp.nextObj) {k : Nat} (timeout : Option Int)
    (hend : e.PeerEnded net i k) :
    e.Stops net (some i) n timeout ↔ n ≤ (e.connAt net i k).rcvBuf.length ∨
      ((e.connAt net i k).rcvBuf = [] ∧ ∃ j, e.ClosedAt net i (j + 1)) ∨
      ∃ j, expired (e.deadline timeout) (e.clock (j + 1)) := by
  simp only [stops_iff, closedAt_iff hi]
  constructor
  · rintro ⟨j, hlen | ⟨hclosed, hnil⟩ | hexp⟩
    · left
      rcases Nat.le_total j k with hjk | hkj
      · have hmono : Monotone fun j => (e.connAt net i j).rcvBuf.length :=
          monotone_nat_of_le_succ (rcvBuf_succ hi)
        exact hlen.trans (hmono hjk)
      · rwa [hend.rcvBuf_eq hi hkj] at hlen
    · right; left
      refine ⟨?_, j, hclosed⟩
      rcases Nat.le_total (j + 1) k with hjk | hkj
      · rw [connAt_of_closedDown hi hclosed hjk, hnil]
      · rw [← hend.rcvBuf_eq hi hkj, hnil]
    · exact .inr (.inr ⟨j, hexp⟩)
  · rintro (hlen | ⟨hnil, j, hclosed⟩ | ⟨j, hexp⟩)
    · exact ⟨k, .inl hlen⟩
    · -- a round in which the connection is closed down and the peer has ended
      have hlate := connAt_of_closedDown hi hclosed (Nat.le_add_right (j + 1) k)
      have hbuf := hend.rcvBuf_eq hi (Nat.le_add_left k (j + 1))
      refine ⟨j + k, .inr (.inl ?_)⟩
      rw [show j + k + 1 = j + 1 + k by omega]
      exact ⟨hlate ▸ hclosed, hbuf.trans hnil⟩
    · exact ⟨j, .inr (.inr hexp)⟩

end

/-- A frame without data for the connection of `NetStack.sample`. -/
def controlFrame (flags : UInt8) : Bytes :=
  [2, 0, 0, 0, 0, 2, 2, 0, 0, 0, 0, 1, 0x08, 0x00] ++
    [0x45, 0, 0, 40, 0, 1, 0x40, 0, 64, 6, 0, 0, 10, 0, 0, 1, 10, 0, 0, 2] ++
    [0x13, 0x88, 0, 80, 0, 0, 0, 1, 0, 0, 0, 1, 0x50, flags, 255, 255, 0, 0, 0, 0]

/-- One frame, then silence. -/
def once (raw : Bytes) : Polling where
  frames j := if j = 0 then some ⟨raw, fun _ => true, 0⟩ else none
  clock j := j

/-- The stack of `NetStack.sample` with bytes in the receive buffer. -/
def buffered (data : Bytes) : NetStack :=
  { NetStack.sample with
    tcp := NetStack.sample.tcp.setObj 0 { NetStack.sample.tcp.objs 0 with rcvBuf := data } }

theorem once_peerEnded {raw data : Bytes}
    (h : ∃ seg, (once raw).segmentAt (buffered data) 0 0 = some seg ∧
      (hasFlag seg.flags fFin ∨ hasFlag seg.flags fRst)) :
    (once raw).PeerEnded (buffered data) 0 1 := by
  refine ⟨fun j hj => ?_, fun j hj seg hseg => ?_⟩
  · obtain rfl : j = 0 := by omega
    exact h
  · have hnone : (once raw).frames j = none := if_neg (by omega)
    rw [segmentAt, hnone] at hseg
    cases hseg

/-- A FIN while the buffer is empty ends the call. -/
theorem stops_iff_of_peerEnded_fin : (once (controlFrame 0x11)).Stops (buffered [])
    (some 0) 4 none :=
  (stops_iff_of_peerEnded Nat.one_pos none (once_peerEnded ⟨_, rfl, by decide⟩)).mpr
    (.inr (.inl ⟨rfl, 0, .inr ⟨_, rfl, .inl ⟨rfl, rfl⟩⟩⟩))

theorem once_connAt (raw data : Bytes) (j : Nat) :
    (once raw).connAt (buffered data) 0 (j + 1) = (once raw).connAt (buffered data) 0 1 := by
  induction j with
  | zero => rfl
  | succ j ih => exact ih

/-- With one byte in the buffer, a call for four bytes goes on polling after the peer's FIN; and
after a RST it does so with an empty buffer too. -/
theorem polls_forever_after_end :
    ((once (controlFrame 0x11)).PeerEnded (buffered [7]) 0 1 ∧
      ¬ (once (controlFrame 0x11)).Stops (buffered [7]) (some 0) 4 none) ∧
    ((once (controlFrame 0x14)).PeerEnded (buffered []) 0 1 ∧
      ¬ (once (controlFrame 0x14)).Stops (buffered []) (some 0) 4 none) := by
  refine ⟨⟨once_peerEnded ⟨_, rfl, by decide⟩, ?_⟩, once_peerEnded ⟨_, rfl, by decide⟩, ?_⟩
  · rw [stops_iff]
    rintro ⟨j, hlen | ⟨-, hnil⟩ | hexp⟩
    · cases j with
      | zero => exact absurd hlen (by decide)
      | succ j =>
        rw [once_connAt] at hlen
        exact absurd hlen (by decide +kernel)
    · rw [once_connAt] at hnil
      exact absurd hnil (by decide +kernel)
    · cases hexp
  · rw [stops_iff]
    rintro ⟨j, hlen | ⟨hclosed, -⟩ | hexp⟩
    · cases j with
      | zero => exact absurd hlen (by decide)
      | succ j =>
        rw [once_connAt] at hlen
        exact absurd hlen (by decide +kernel)
    · rw [once_connAt] at hclosed
      exact absurd hclosed (by decide +kernel)
    · cases hexp

end Polling

end PythonOS.Bridge
