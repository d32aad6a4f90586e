import PythonOS.Lib.Bytes
import PythonOS.Lib.Dict

/-!
# PythonOS.Net.Tcp

The TCP stack of `kernel/net/tcp.py`: segments, the connection state machine
and the demultiplexer.

Python objects that are shared and mutated (`TCPConnection`) live in an object
store indexed by `ConnId`; the dictionaries of the stack hold ids. Coroutines
started with `asyncio.ensure_future` are entries of `TCPStack.tasks`, and the
event loop may run any of them between two packets (`TCPStack.runTask`). What
the NIC does with a frame is outside the stack: `tx` says whether the
synchronous transmit path accepts a segment.
-/

namespace PythonOS.Net

open Lib Lib.Bytes

/-- `TCPState`. -/
inductive TCPState
  | closed | listen | synSent | synRcvd | established
  | finWait1 | finWait2 | closeWait | closing | lastAck | timeWait
  deriving Repr, DecidableEq

def fFin : Nat := 0x01
def fSyn : Nat := 0x02
def fRst : Nat := 0x04
def fPsh : Nat := 0x08
def fAck : Nat := 0x10

/-- `PROTO_TCP`. -/
def protoTcp : Nat := 6

/-- Is the flag bit `f` set (`flags & f`)? -/
def hasFlag (flags f : Nat) : Bool := flags &&& f != 0

/-- A decoded TCP segment. -/
structure TCPSegment where
  srcPort : Nat
  dstPort : Nat
  seq : Nat
  ack : Nat
  flags : Nat
  window : Nat
  payload : Bytes
  deriving Repr, DecidableEq

/-- `IPv4Packet`. The TCP layer reads `src`, `dst`, `proto` and `payload`; `flags` is Don't
Fragment unless given. -/
structure IPv4Packet where
  src : Bytes
  dst : Bytes
  proto : Nat
  ttl : Nat
  payload : Bytes
  tos : Nat := 0
  flags : Nat := 0x4000
  deriving Repr, DecidableEq

/-- `TCPSegment.decode`: a 20-byte header at least, the payload from the data
offset on. -/
def TCPSegment.decode (raw : Bytes) : Option TCPSegment :=
  if raw.length < 20 then none
  else
    let offFlags := beNat (slice raw 12 14)
    some
      { srcPort := beNat (slice raw 0 2)
        dstPort := beNat (slice raw 2 4)
        seq := beNat (slice raw 4 8)
        ack := beNat (slice raw 8 12)
        flags := offFlags &&& 0x1FF
        window := beNat (slice raw 14 16)
        payload := raw.drop ((offFlags >>> 12) * 4) }

/-- What the future `_connected` holds. -/
inductive Connected
  | pending | result | refused
  deriving Repr, DecidableEq

/-- `TCPConnection`. The two events are their flags. -/
structure TCPConnection where
  localIp : Bytes
  remoteIp : Bytes
  localPort : Nat
  remotePort : Nat
  state : TCPState := .closed
  sndSeq : Nat
  sndAck : Nat := 0
  sndWnd : Nat := 65535
  rcvBuf : Bytes := []
  rxEvent : Bool := false
  acceptEvent : Bool := false
  connected : Option Connected := none
  deriving Repr, DecidableEq

/-- What handling a segment does besides changing the connection: segments
handed to the NIC on the synchronous path, and `send_segment(flags)` coroutines
scheduled with `ensure_future`. -/
structure Effects where
  sent : List TCPSegment := []
  spawned : List Nat := []
  deriving Repr, DecidableEq

namespace TCPConnection

/-- The segment `send_segment` builds from the connection's current fields. -/
def segment (c : TCPConnection) (flags : Nat) (payload : Bytes) : TCPSegment :=
  { srcPort := c.localPort, dstPort := c.remotePort, seq := c.sndSeq, ack := c.sndAck,
    flags, window := c.sndWnd, payload }

/-- The sequence-number update after a transmitted segment. -/
def advance (c : TCPConnection) (flags : Nat) (payload : Bytes) : TCPConnection :=
  if payload ≠ [] ∨ hasFlag flags (fSyn ||| fFin) then
    { c with sndSeq := (c.sndSeq + max payload.length 1) % 2 ^ 32 }
  else c

/-- `send_segment_nowait`. -/
def sendSegmentNowait (tx : TCPSegment → Bool) (c : TCPConnection) (flags : Nat)
    (payload : Bytes) : Bool × TCPConnection × List TCPSegment :=
  let seg := c.segment flags payload
  if tx seg then (true, c.advance flags payload, [seg]) else (false, c, [])

/-- Acknowledge now (`sync`) or through a scheduled coroutine. -/
def acknowledge (tx : TCPSegment → Bool) (sync : Bool) (c : TCPConnection) :
    TCPConnection × Effects :=
  if sync then
    let (_, c', out) := c.sendSegmentNowait tx fAck []
    (c', { sent := out })
  else (c, { spawned := [fAck] })

/-- `handle_segment`. -/
def handleSegment (tx : TCPSegment → Bool) (c : TCPConnection) (seg : TCPSegment)
    (sync : Bool) : TCPConnection × Effects :=
  match c.state with
  | .synRcvd =>
    -- the source returns here whatever else the segment carries
    if hasFlag seg.flags fAck then
      ({ c with state := .established, acceptEvent := true }, {})
    else (c, {})
  | .synSent =>
    if hasFlag seg.flags fSyn && hasFlag seg.flags fAck then
      ({ c with
          sndAck := (seg.seq + 1) % 2 ^ 32, state := .established
          connected := c.connected.map fun f => if f = .pending then .result else f },
        { spawned := [fAck] })
    else if hasFlag seg.flags fRst then
      ({ c with
          state := .closed
          connected := c.connected.map fun f => if f = .pending then .refused else f }, {})
    else (c, {})
  | .established =>
    let r₁ :=
      if seg.payload ≠ [] then
        acknowledge tx sync
          { c with
            sndAck := (seg.seq + seg.payload.length) % 2 ^ 32
            rcvBuf := c.rcvBuf ++ seg.payload, rxEvent := true }
      else (c, {})
    if hasFlag seg.flags fFin then
      let r₂ := acknowledge tx sync { r₁.1 with sndAck := (seg.seq + 1) % 2 ^ 32 }
      ({ r₂.1 with state := .closeWait, rxEvent := true },
        { sent := r₁.2.sent ++ r₂.2.sent, spawned := r₁.2.spawned ++ r₂.2.spawned })
    else r₁
  | _ => (c, {})

/-- `recv(n)` up to its first suspension: the bytes it returns, or `none` when
it goes on waiting for the receive event. -/
def recv (c : TCPConnection) (n : Int) : Option Bytes × TCPConnection :=
  if c.rcvBuf ≠ [] then
    let k := sliceEnd c.rcvBuf.length n
    (some (c.rcvBuf.take k), { c with rcvBuf := c.rcvBuf.drop k })
  else if c.state = .closeWait ∨ c.state = .closed then (some [], c)
  else (none, { c with rxEvent := false })

/-- `close`: the new connection and the flags of the scheduled segment. -/
def close (c : TCPConnection) : TCPConnection × Effects :=
  match c.state with
  | .established => ({ c with state := .finWait1 }, { spawned := [fFin ||| fAck] })
  | .closeWait => ({ c with state := .lastAck }, { spawned := [fFin ||| fAck] })
  | _ => (c, {})

end TCPConnection

/-! ### The stack -/

/-- Index of a `TCPConnection` object. -/
abbrev ConnId := Nat

/-- The four-tuple a connection is registered under. -/
structure ConnKey where
  localIp : Bytes
  localPort : Nat
  remoteIp : Bytes
  remotePort : Nat
  deriving Repr, DecidableEq

/-- The four-tuple of a connection. -/
def TCPConnection.key (c : TCPConnection) : ConnKey :=
  ⟨c.localIp, c.localPort, c.remoteIp, c.remotePort⟩

/-- A scheduled coroutine, by the point it stands at. -/
inductive Task
  /-- `conn.send_segment(flags)`, not started. -/
  | sendSegment (conn : ConnId) (flags : Nat)
  /-- `send_segment` after the transmit returned: the sequence update is due. -/
  | sendDone (conn : ConnId) (flags : Nat)
  /-- `listener._on_syn(conn)`, not started. -/
  | onSyn (conn : ConnId) (port : Nat)
  /-- `_on_syn` after the SYN-ACK was transmitted. -/
  | onSynSent (conn : ConnId) (port : Nat)
  /-- `_on_syn` waiting for the accept event. -/
  | onSynWait (conn : ConnId) (port : Nat)
  deriving Repr, DecidableEq

/-- The connection a task works on. -/
def Task.conn : Task → ConnId
  | .sendSegment i _ | .sendDone i _ | .onSyn i _ | .onSynSent i _ | .onSynWait i _ => i

/-- `TCPStack`, with the object store, the scheduled coroutines and the log of
transmitted segments. A listener is its accept queue. -/
structure TCPStack where
  objs : ConnId → TCPConnection
  nextObj : ConnId
  connections : Dict ConnKey ConnId := []
  listeners : Dict Nat (List ConnId) := []
  tasks : List Task := []
  sent : List (ConnId × TCPSegment) := []

namespace TCPStack

/-- Replace the object `i`. -/
def setObj (s : TCPStack) (i : ConnId) (c : TCPConnection) : TCPStack :=
  { s with objs := Function.update s.objs i c }

/-- Perform the effects of connection `i`. -/
def perform (s : TCPStack) (i : ConnId) (e : Effects) : TCPStack :=
  { s with
    sent := s.sent ++ e.sent.map (i, ·)
    tasks := s.tasks ++ e.spawned.map (Task.sendSegment i) }

/-- `handle_ip_packet`. `iss` is the random initial sequence number a new
connection draws. -/
def handleIpPacket (tx : TCPSegment → Bool) (iss : Nat) (s : TCPStack) (pkt : IPv4Packet)
    (sync : Bool) : TCPStack :=
  if pkt.proto ≠ protoTcp then s
  else
    match TCPSegment.decode pkt.payload with
    | none => s
    | some seg =>
      let key : ConnKey := ⟨pkt.dst, seg.dstPort, pkt.src, seg.srcPort⟩
      match s.connections.get? key with
      | some i =>
        let r := (s.objs i).handleSegment tx seg sync
        (s.setObj i r.1).perform i r.2
      | none =>
        if hasFlag seg.flags fSyn && !hasFlag seg.flags fAck then
          match s.listeners.get? seg.dstPort with
          | some _ =>
            let i := s.nextObj
            { s.setObj i
                { localIp := pkt.dst, remoteIp := pkt.src, localPort := seg.dstPort
                  remotePort := seg.srcPort, state := .synRcvd, sndSeq := iss
                  sndAck := (seg.seq + 1) % 2 ^ 32 } with
              nextObj := i + 1
              connections := s.connections.set key i
              tasks := s.tasks ++ [.onSyn i seg.dstPort] }
          | none => s
        else s

/-- Resume one scheduled coroutine until it suspends again or ends; the
coroutines it leaves scheduled replace it. -/
def resume (s : TCPStack) : Task → TCPStack × List Task
  | .sendSegment i flags =>
    ({ s with sent := s.sent ++ [(i, (s.objs i).segment flags [])] }, [.sendDone i flags])
  | .sendDone i flags => (s.setObj i ((s.objs i).advance flags []), [])
  | .onSyn i port =>
    ({ s with sent := s.sent ++ [(i, (s.objs i).segment (fSyn ||| fAck) [])] },
      [.onSynSent i port])
  | .onSynSent i port =>
    (s.setObj i ((s.objs i).advance (fSyn ||| fAck) []), [.onSynWait i port])
  | .onSynWait i port =>
    if (s.objs i).acceptEvent then
      if (s.objs i).state = .established ∨ (s.objs i).state = .closeWait then
        match s.listeners.get? port with
        | some queue => ({ s with listeners := s.listeners.set port (queue ++ [i]) }, [])
        | none => (s, [])
      else (s, [])
    else (s, [.onSynWait i port])

/-- Let the event loop run the scheduled coroutine number `k`. -/
def runTask (s : TCPStack) (k : Nat) : Option TCPStack :=
  match s.tasks[k]? with
  | none => none
  | some t =>
    let r := s.resume t
    some { r.1 with tasks := r.1.tasks.eraseIdx k ++ r.2 }

/-- `remove_connection`: pop by key, whoever has the entry. -/
def removeConnection (s : TCPStack) (i : ConnId) : TCPStack :=
  { s with connections := s.connections.erase (s.objs i).key }

/-- The `_on_syn` coroutine number `k` gives up: sending the SYN-ACK has raised, or the ten seconds
are over, and then the connection is closed too. `wait_for` may time out although the event it
waits for was set just before. -/
def failSyn (s : TCPStack) (k : Nat) : Option (ConnId × TCPStack) :=
  match s.tasks[k]? with
  | some (.onSyn i _) | some (.onSynSent i _) =>
    some (i, { s.removeConnection i with tasks := s.tasks.eraseIdx k })
  | some (.onSynWait i _) =>
    let s := s.setObj i { s.objs i with state := .closed }
    some (i, { s.removeConnection i with tasks := s.tasks.eraseIdx k })
  | _ => none

end TCPStack

end PythonOS.Net
