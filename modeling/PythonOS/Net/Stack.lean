import PythonOS.Net.Codec
import PythonOS.Net.TcpReceive

/-!
# PythonOS.Net.Stack

The receive path of `kernel/net/stack.py`: a frame from the NIC is decoded,
demultiplexed by EtherType and handed to ARP or to TCP. `_dispatch` (the receive
task) and `_dispatch_sync` (`poll_once`) differ in how TCP acknowledges, which is
the argument `sync`.

The decoders take the IPv4 header length and the TCP data offset as they come.
`receive_exact_iff`: what reaches a connection is exactly the payload of the
frame if and only if those two are at least the length of the fixed headers;
nothing is ever raised out of the loop.
-/

namespace PythonOS.Net

open Lib Lib.Bytes Function List

/-- The configured stack: TCP, the ARP table, the interface's addresses, and the frames the
receive path has handed to the NIC. -/
structure NetStack where
  tcp : TCPStack
  arp : Dict Bytes Bytes := []
  localIp : Bytes
  localMac : Bytes
  sentFrames : List Bytes := []

namespace NetStack

/-- `arp_table.learn`. -/
def learn (s : NetStack) (ip mac : Bytes) : NetStack := { s with arp := s.arp.set ip mac }

/-- `arp_table.handle_frame`. -/
def handleArpFrame (s : NetStack) (payload : Bytes) : NetStack :=
  if payload.length < 28 then s
  else s.learn (slice payload 14 18) (slice payload 8 14)

/-- `_maybe_send_arp_reply`. -/
def maybeSendArpReply (s : NetStack) (payload : Bytes) : NetStack × Except NetError Unit :=
  if payload.length < 28 then (s, .ok ())
  else
    let op := beNat (slice payload 6 8)
    let senderMac := slice payload 8 14
    let senderIp := slice payload 14 18
    let targetIp := slice payload 24 28
    if op ≠ 1 ∨ targetIp ≠ s.localIp then (s, .ok ())
    else
      let replyArp := beBytes 2 1 ++ beBytes 2 0x0800 ++ [6, 4] ++ beBytes 2 2 ++
        packFixed 6 s.localMac ++ packFixed 4 s.localIp ++ packFixed 6 senderMac ++
        packFixed 4 senderIp
      match EtherFrame.encode ⟨senderMac, s.localMac, ethertypeArp, replyArp⟩ with
      | .ok frame => ({ s with sentFrames := s.sentFrames ++ [frame] }, .ok ())
      | .error e => (s, .error e)

/-- `_dispatch` and, with `sync`, `_dispatch_sync`: the state reached and what is raised. -/
def dispatch (tx : TCPSegment → Bool) (iss : Nat) (sync : Bool) (s : NetStack)
    (frame : EtherFrame) : NetStack × Except NetError Unit :=
  if frame.ethertype = ethertypeArp then (s.handleArpFrame frame.payload).maybeSendArpReply
    frame.payload
  else if frame.ethertype = ethertypeIPv4 then
    match IPv4Packet.decode frame.payload with
    | .error e => (s, .error e)
    | .ok pkt =>
      let s := s.learn pkt.src frame.src
      ({ s with tcp := s.tcp.handleIpPacket tx iss pkt sync }, .ok ())
  else (s, .ok ())

/-- One round of `_rx_loop`, or of `poll_once` when a frame is there: whatever the decoders and
the dispatcher raise is caught. -/
def receive (tx : TCPSegment → Bool) (iss : Nat) (sync : Bool) (s : NetStack) (raw : Bytes) :
    NetStack × Except NetError Unit :=
  if raw.length < 14 then (s, .ok ())
  else
    match EtherFrame.decode raw with
    | .error _ => (s, .ok ())
    | .ok frame =>
      match s.dispatch tx iss sync frame with
      | (s', .error _) => (s', .ok ())
      | (s', .ok ()) => (s', .ok ())

/-- `poll_once`: was there a frame? -/
def pollOnce (tx : TCPSegment → Bool) (iss : Nat) (s : NetStack) (frame : Option Bytes) :
    NetStack × Except NetError Bool :=
  match frame with
  | none => (s, .ok false)
  | some raw =>
    let r := s.receive tx iss true raw
    (r.1, r.2.map fun _ => true)

end NetStack

/-! ### What a frame is for -/

/-- The address and the MAC that `learn` is called with for a frame, if it is. -/
def learned (raw : Bytes) : Option (Bytes × Bytes) :=
  if raw.length < 14 then none
  else
    let payload := raw.drop 14
    if beNat (slice raw 12 14) = ethertypeArp then
      if payload.length < 28 then none
      else some (slice payload 14 18, slice payload 8 14)
    else if beNat (slice raw 12 14) = ethertypeIPv4 then
      match IPv4Packet.decode payload with
      | .error _ => none
      | .ok pkt => some (pkt.src, slice raw 6 12)
    else none

/-- The registered connection a packet is for, and its segment. -/
def TCPStack.segmentFor (s : TCPStack) (pkt : IPv4Packet) : Option (ConnId × TCPSegment) :=
  if pkt.proto ≠ protoTcp then none
  else
    match TCPSegment.decode pkt.payload with
    | none => none
    | some seg =>
      (s.connections.get? ⟨pkt.dst, seg.dstPort, pkt.src, seg.srcPort⟩).map fun i => (i, seg)

/-- The registered connection a frame is for, and its segment. -/
def NetStack.segmentFor (s : NetStack) (raw : Bytes) : Option (ConnId × TCPSegment) :=
  if raw.length < 14 ∨ beNat (slice raw 12 14) ≠ ethertypeIPv4 then none
  else
    match IPv4Packet.decode (raw.drop 14) with
    | .error _ => none
    | .ok pkt => s.tcp.segmentFor pkt

/-- The connection `i` after what it was handed, if anything. -/
def handed (tx : TCPSegment → Bool) (sync : Bool) (c : TCPConnection) (i : ConnId) :
    Option (ConnId × TCPSegment) → TCPConnection
  | none => c
  | some (j, seg) => if j = i then (c.handleSegment tx seg sync).1 else c

/-! ### What a frame delivers -/

/-- The header length field of the IPv4 header, in bytes. -/
def headerLength (raw : Bytes) : Nat := ((raw.getD 14 0).toNat &&& 0x0F) * 4

/-- The total length field of the IPv4 header. -/
def totalLength (raw : Bytes) : Nat := beNat (slice raw 16 18)

/-- The data offset field of the TCP header, in bytes. -/
def dataOffset (raw : Bytes) : Nat :=
  beNat (slice raw (14 + headerLength raw + 12) (14 + headerLength raw + 14)) >>> 12 * 4

/-- Neither header is shorter than its fixed fields. -/
def HeadersWhole (raw : Bytes) : Prop := 20 ≤ headerLength raw ∧ 20 ≤ dataOffset raw

instance (raw : Bytes) : Decidable (HeadersWhole raw) := inferInstanceAs (Decidable (_ ∧ _))

/-- `p` is the payload of the frame: the bytes behind the TCP header and before the IPv4 total
length. -/
def PayloadOf (raw p : Bytes) : Prop :=
  HeadersWhole raw ∧ p = slice raw (14 + headerLength raw + dataOffset raw)
    (14 + totalLength raw)

/-- The frame leaves the buffer of every connection alone or adds its payload to it. -/
def Exact (raw : Bytes) (s s' : TCPStack) : Prop :=
  ∀ i < s.nextObj, (s'.objs i).rcvBuf = (s.objs i).rcvBuf ∨
    ∃ p, PayloadOf raw p ∧ (s'.objs i).rcvBuf = (s.objs i).rcvBuf ++ p

/-- The connections of the dictionary have been created. -/
def TCPStack.Allocated (s : TCPStack) : Prop :=
  ∀ key i, s.connections.get? key = some i → i < s.nextObj

/-- The established connection a packet's data goes to, and the data. -/
def TCPStack.delivery (s : TCPStack) (pkt : IPv4Packet) : Option (ConnId × Bytes) :=
  if pkt.proto ≠ protoTcp then none
  else
    match TCPSegment.decode pkt.payload with
    | none => none
    | some seg =>
      match s.connections.get? ⟨pkt.dst, seg.dstPort, pkt.src, seg.srcPort⟩ with
      | none => none
      | some i =>
        if (s.objs i).state = .established ∧ seg.payload ≠ [] then some (i, seg.payload)
        else none

/-- The established connection a frame's data goes to, and the data. -/
def NetStack.delivery (s : NetStack) (raw : Bytes) : Option (ConnId × Bytes) :=
  if raw.length < 14 ∨ beNat (slice raw 12 14) ≠ ethertypeIPv4 then none
  else
    match IPv4Packet.decode (raw.drop 14) with
    | .error _ => none
    | .ok pkt => s.tcp.delivery pkt

/-- What a delivery adds to the buffer of connection `i`. -/
def addedTo (i : ConnId) : Option (ConnId × Bytes) → Bytes
  | none => []
  | some (j, p) => if j = i then p else []

section

variable (tx : TCPSegment → Bool) (iss : Nat) (sync : Bool)

theorem TCPStack.handleIpPacket_obj {s : TCPStack} (pkt : IPv4Packet) {i : ConnId}
    (hi : i < s.nextObj) :
    (s.handleIpPacket tx iss pkt sync).objs i = handed tx sync (s.objs i) i (s.segmentFor pkt) := by
  unfold TCPStack.handleIpPacket TCPStack.segmentFor
  by_cases hproto : pkt.proto = protoTcp
  · simp only [hproto, ne_eq, not_true_eq_false, if_false]
    cases TCPSegment.decode pkt.payload with
    | none => rfl
    | some seg =>
      dsimp only
      cases s.connections.get? ⟨pkt.dst, seg.dstPort, pkt.src, seg.srcPort⟩ with
      | some j =>
        dsimp only [Option.map, handed, TCPStack.perform, TCPStack.setObj]
        by_cases hij : j = i
        · subst hij
          rw [update_self, if_pos rfl]
        · rw [update_of_ne (Ne.symm hij), if_neg hij]
      | none =>
        -- a new connection is a new object
        dsimp only [Option.map, handed]
        split
        · split
          · dsimp only [TCPStack.setObj]
            rw [update_of_ne (Nat.ne_of_lt hi)]
          · rfl
        · rfl
  · simp only [hproto, ne_eq, not_false_eq_true, if_true]
    rfl

/-- A packet leaves the table alone or adds an entry for a new connection, and takes no task
away. -/
theorem TCPStack.handleIpPacket_table (s : TCPStack) (pkt : IPv4Packet) :
    let s' := s.handleIpPacket tx iss pkt sync
    s.tasks ⊆ s'.tasks ∧ ((s'.connections = s.connections ∧ s'.nextObj = s.nextObj) ∨
      (s.connections.get? (s'.objs s.nextObj).key = none ∧
        s'.connections = s.connections.set (s'.objs s.nextObj).key s.nextObj ∧
        s'.nextObj = s.nextObj + 1)) := by
  have hsame : s.tasks ⊆ s.tasks := List.Subset.refl _
  unfold handleIpPacket
  split
  · exact ⟨hsame, .inl ⟨rfl, rfl⟩⟩
  · cases TCPSegment.decode pkt.payload with
    | none => exact ⟨hsame, .inl ⟨rfl, rfl⟩⟩
    | some seg =>
      dsimp only
      cases hget : s.connections.get? ⟨pkt.dst, seg.dstPort, pkt.src, seg.srcPort⟩ with
      | some i => exact ⟨subset_append_left _ _, .inl ⟨rfl, rfl⟩⟩
      | none =>
        dsimp only
        split
        · split
          · refine ⟨subset_append_left _ _, .inr ?_⟩
            dsimp only [setObj]
            rw [update_self]
            exact ⟨hget, rfl, rfl⟩
          · exact ⟨hsame, .inl ⟨rfl, rfl⟩⟩
        · exact ⟨hsame, .inl ⟨rfl, rfl⟩⟩

theorem TCPStack.handleIpPacket_nextObj (s : TCPStack) (pkt : IPv4Packet) :
    s.nextObj ≤ (s.handleIpPacket tx iss pkt sync).nextObj := by
  rcases (s.handleIpPacket_table tx iss sync pkt).2 with ⟨-, hnext⟩ | ⟨-, -, hnext⟩
  · exact Nat.le_of_eq hnext.symm
  · exact hnext ▸ Nat.le_succ _

namespace NetStack

variable (s : NetStack) (raw : Bytes)

/-- Nothing is raised out of the receive loop. -/
theorem receive_ok : (s.receive tx iss sync raw).2 = .ok () := by
  unfold receive
  split
  · rfl
  · split
    · rfl
    · split <;> rfl

theorem maybeSendArpReply_eq (payload : Bytes) :
    ∃ frames, (s.maybeSendArpReply payload).1 = { s with sentFrames := frames } := by
  unfold maybeSendArpReply
  split
  · exact ⟨_, rfl⟩
  · dsimp only
    split
    · exact ⟨_, rfl⟩
    · split <;> exact ⟨_, rfl⟩

/-- What `receive` does: TCP gets the packet, the ARP table what the frame teaches, and a reply
may be sent. -/
theorem receive_eq : ∃ frames, (s.receive tx iss sync raw).1 =
    { s with
      tcp :=
        if raw.length < 14 ∨ beNat (slice raw 12 14) ≠ ethertypeIPv4 then s.tcp
        else
          match IPv4Packet.decode (raw.drop 14) with
          | .error _ => s.tcp
          | .ok pkt => s.tcp.handleIpPacket tx iss pkt sync
      arp :=
        match learned raw with
        | none => s.arp
        | some p => s.arp.set p.1 p.2
      sentFrames := frames } := by
  unfold receive learned
  by_cases hlen : raw.length < 14
  · exact ⟨s.sentFrames, by simp [hlen]⟩
  · have hcaught : ∀ r : NetStack × Except NetError Unit, (match r with
        | (s', .error _) => ((s', .ok ()) : NetStack × Except NetError Unit)
        | (s', .ok ()) => (s', .ok ())).1 = r.1 := by
      intro r
      split <;> rfl
    simp only [EtherFrame.decode, hlen, if_false, false_or, hcaught]
    unfold dispatch
    dsimp only
    by_cases harp : beNat (slice raw 12 14) = ethertypeArp
    · have hne : ¬ ethertypeArp = ethertypeIPv4 := by decide
      obtain ⟨frames, hreply⟩ := (s.handleArpFrame (raw.drop 14)).maybeSendArpReply_eq (raw.drop 14)
      refine ⟨frames, ?_⟩
      simp only [harp, if_true, ne_eq, hne, not_false_eq_true]
      rw [hreply, handleArpFrame]
      split <;> rfl
    · simp only [if_neg harp, ne_eq, ite_not]
      by_cases hip : beNat (slice raw 12 14) = ethertypeIPv4
      · simp only [if_pos hip]
        cases IPv4Packet.decode (raw.drop 14) with
        | error e => exact ⟨_, rfl⟩
        | ok pkt => exact ⟨_, rfl⟩
      · simp only [if_neg hip]
        exact ⟨_, rfl⟩

theorem receive_tcp :
    (s.receive tx iss sync raw).1.tcp =
      if raw.length < 14 ∨ beNat (slice raw 12 14) ≠ ethertypeIPv4 then s.tcp
      else
        match IPv4Packet.decode (raw.drop 14) with
        | .error _ => s.tcp
        | .ok pkt => s.tcp.handleIpPacket tx iss pkt sync := by
  obtain ⟨frames, heq⟩ := receive_eq tx iss sync s raw
  rw [heq]

theorem receive_arp :
    (s.receive tx iss sync raw).1.arp =
      match learned raw with
      | none => s.arp
      | some p => s.arp.set p.1 p.2 := by
  obtain ⟨frames, heq⟩ := receive_eq tx iss sync s raw
  rw [heq]

/-- **A frame and a connection.** -/
theorem receive_obj {i : ConnId} (hi : i < s.tcp.nextObj) :
    (s.receive tx iss sync raw).1.tcp.objs i =
      handed tx sync (s.tcp.objs i) i (s.segmentFor raw) := by
  rw [receive_tcp, segmentFor]
  split
  · rfl
  · cases IPv4Packet.decode (raw.drop 14) with
    | error e => rfl
    | ok pkt => exact TCPStack.handleIpPacket_obj tx iss sync pkt hi

theorem receive_nextObj : s.tcp.nextObj ≤ (s.receive tx iss sync raw).1.tcp.nextObj := by
  rw [receive_tcp]
  split
  · exact Nat.le_refl _
  · cases IPv4Packet.decode (raw.drop 14) with
    | error e => exact Nat.le_refl _
    | ok pkt => exact TCPStack.handleIpPacket_nextObj tx iss sync s.tcp pkt

/-- What is delivered is the data of the segment, if its connection is established. -/
theorem delivery_eq_bind : s.delivery raw = (s.segmentFor raw).bind fun p =>
    if (s.tcp.objs p.1).state = .established ∧ p.2.payload ≠ [] then some (p.1, p.2.payload)
    else none := by
  unfold delivery segmentFor
  split
  · rfl
  · cases IPv4Packet.decode (raw.drop 14) with
    | error e => rfl
    | ok pkt =>
      dsimp only [TCPStack.delivery, TCPStack.segmentFor]
      split
      · rfl
      · cases TCPSegment.decode pkt.payload with
        | none => rfl
        | some seg =>
          dsimp only
          cases s.tcp.connections.get? ⟨pkt.dst, seg.dstPort, pkt.src, seg.srcPort⟩ <;> rfl

/-- What a frame does to the buffers: its delivery is added, nothing else. -/
theorem receive_rcvBuf {i : ConnId} (hi : i < s.tcp.nextObj) :
    ((s.receive tx iss sync raw).1.tcp.objs i).rcvBuf =
      (s.tcp.objs i).rcvBuf ++ addedTo i (s.delivery raw) := by
  rw [receive_obj tx iss sync s raw hi, delivery_eq_bind]
  cases s.segmentFor raw with
  | none => exact (append_nil _).symm
  | some p =>
    dsimp only [handed, Option.bind]
    by_cases hji : p.1 = i
    · subst hji
      rw [if_pos rfl, (handleSegment_fields _ _ _ _ rfl).1]
      by_cases hst : (s.tcp.objs p.1).state = .established
      · by_cases hp : p.2.payload = [] <;> simp [hst, hp, addedTo]
      · simp [hst, addedTo]
    · rw [if_neg hji]
      split <;> simp [addedTo, hji]

/-- A delivery goes to a registered connection, and its bytes are cut out of the frame by the
three length fields. -/
theorem delivery_eq {i : ConnId} {p : Bytes} (h : s.delivery raw = some (i, p)) :
    (∃ key, s.tcp.connections.get? key = some i) ∧ p ≠ [] ∧
      p = slice raw (14 + headerLength raw + dataOffset raw) (14 + totalLength raw) := by
  unfold delivery at h
  split at h
  · cases h
  · cases hdec : IPv4Packet.decode (raw.drop 14) with
    | error e => rw [hdec] at h; cases h
    | ok pkt =>
      rw [hdec] at h
      have hpkt : pkt.payload =
          slice raw (14 + headerLength raw) (14 + totalLength raw) := by
        unfold IPv4Packet.decode at hdec
        split at hdec <;> cases hdec
        dsimp only
        rw [slice_drop, slice_drop, getD_drop]
        rfl
      dsimp only [TCPStack.delivery] at h
      split at h
      · cases h
      · cases hseg : TCPSegment.decode pkt.payload with
        | none => rw [hseg] at h; cases h
        | some seg =>
          rw [hseg] at h
          dsimp only at h
          cases hget : s.tcp.connections.get? ⟨pkt.dst, seg.dstPort, pkt.src, seg.srcPort⟩ with
          | none => rw [hget] at h; cases h
          | some j =>
            rw [hget] at h
            dsimp only at h
            split at h <;> cases h
            next hdata =>
              refine ⟨⟨_, hget⟩, hdata.2, ?_⟩
              unfold TCPSegment.decode at hseg
              split at hseg <;> cases hseg
              next hlen =>
                dsimp only
                rw [hpkt, length_slice] at hlen
                rw [hpkt, drop_slice, slice_slice (by omega)]
                rfl

/-- **Receiving a frame** raises nothing, and leaves every connection's buffer alone or adds
exactly the frame's payload, if and only if a frame with data for an established connection has
headers of at least the fixed length. -/
theorem receive_exact_iff (hs : s.tcp.Allocated) :
    (s.receive tx iss sync raw).2 = .ok () ∧ (s.pollOnce tx iss (some raw)).2 = .ok true ∧
      (Exact raw s.tcp (s.receive tx iss sync raw).1.tcp ↔
        ∀ i p, s.delivery raw = some (i, p) → HeadersWhole raw) := by
  have hpoll : (s.pollOnce tx iss (some raw)).2 = .ok true := by
    show (s.receive tx iss true raw).2.map (fun _ => true) = .ok true
    rw [receive_ok]
    rfl
  refine ⟨s.receive_ok tx iss sync raw, hpoll, ?_, ?_⟩
  · intro hexact i p hdel
    obtain ⟨⟨key, hget⟩, hp, -⟩ := s.delivery_eq raw hdel
    have hi := hs key i hget
    have hbuf := s.receive_rcvBuf tx iss sync raw hi
    rw [hdel, addedTo, if_pos rfl] at hbuf
    rcases hexact i hi with hsame | ⟨q, hq, -⟩
    · rw [hbuf] at hsame
      exact absurd (append_right_eq_self.mp hsame) hp
    · exact hq.1
  · intro hwhole i hi
    have hbuf := s.receive_rcvBuf tx iss sync raw hi
    cases hdel : s.delivery raw with
    | none =>
      rw [hdel, addedTo, append_nil] at hbuf
      exact .inl hbuf
    | some jp =>
      obtain ⟨j, p⟩ := jp
      rw [hdel, addedTo] at hbuf
      by_cases hji : j = i
      · rw [if_pos hji] at hbuf
        exact .inr ⟨p, ⟨hwhole j p hdel, (s.delivery_eq raw hdel).2.2⟩, hbuf⟩
      · rw [if_neg hji, append_nil] at hbuf
        exact .inl hbuf

end NetStack

end

namespace NetStack

/-- A stack with one established connection, from port 5000 of 10.0.0.1 to its port 80. -/
def sample : NetStack :=
  { tcp :=
      { objs := fun _ =>
          { localIp := [10, 0, 0, 2], remoteIp := [10, 0, 0, 1], localPort := 80,
            remotePort := 5000, state := .established, sndSeq := 1 }
        nextObj := 1, connections := [(⟨[10, 0, 0, 2], 80, [10, 0, 0, 1], 5000⟩, 0)] }
    localIp := [10, 0, 0, 2], localMac := [2, 0, 0, 0, 0, 2] }

theorem sample_allocated : sample.tcp.Allocated := by
  intro key i h
  unfold sample at h
  rw [Dict.get?_cons] at h
  split at h <;> cases h
  exact Nat.one_pos

/-- A frame for the connection with two bytes of data, given the version and header length byte
of the IPv4 header and the data offset byte of the TCP header. -/
def sampleFrame (vihl off : UInt8) : Bytes :=
  [2, 0, 0, 0, 0, 2, 2, 0, 0, 0, 0, 1, 0x08, 0x00] ++
    [vihl, 0, 0, 42, 0, 1, 0x40, 0, 64, 6, 0, 0, 10, 0, 0, 1, 10, 0, 0, 2] ++
    [0x13, 0x88, 0, 80, 0, 0, 0, 1, 0, 0, 0, 1, off, 0x18, 255, 255, 0, 0, 0, 0] ++ [7, 8] ++ [0, 0]

theorem receive_exact_iff_plain :
    Exact (sampleFrame 0x45 0x50) sample.tcp
      (sample.receive (fun _ => true) 0 true (sampleFrame 0x45 0x50)).1.tcp := by
  refine (receive_exact_iff (fun _ => true) 0 true sample _ sample_allocated).2.2.mpr ?_
  intro i p _
  decide

/-- With a data offset of zero the TCP header itself is delivered as data. -/
theorem data_offset_zero_not_exact :
    ∃ s : NetStack, s.tcp.Allocated ∧
      ((s.receive (fun _ => true) 0 true (sampleFrame 0x45 0)).1.tcp.objs 0).rcvBuf =
        (s.tcp.objs 0).rcvBuf ++ [0x13, 0x88, 0, 80, 0, 0, 0, 1, 0, 0, 0, 1, 0, 0x18, 255, 255, 0,
          0, 0, 0, 7, 8] ∧
      ¬ Exact (sampleFrame 0x45 0) s.tcp
        (s.receive (fun _ => true) 0 true (sampleFrame 0x45 0)).1.tcp := by
  refine ⟨sample, sample_allocated, by decide +kernel, fun h => ?_⟩
  rcases h 0 Nat.one_pos with hsame | ⟨p, ⟨hwhole, -⟩, -⟩
  · exact absurd hsame (by decide +kernel)
  · exact absurd hwhole (by decide)

end NetStack

end PythonOS.Net
