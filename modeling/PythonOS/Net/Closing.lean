import PythonOS.Net.Registration

/-!
# PythonOS.Net.Closing

The end of a connection: local `close`, the peer's FIN and RST, tasks blocked in `recv`, and the
connection's entry in the table.

A blocked `recv` waits for the receive event; `_rx_event.set()` makes its wakeup pending. What
should hold (`Good`): when the peer has ended its stream, every blocked `recv` has its wakeup
pending; and when both sides have closed and nothing is left to send, the connection is out of
the table.

`handle_segment` reads FIN in `ESTABLISHED` only and RST in no state after the handshake, `recv`
does not count `LAST_ACK` among the ended states, and nothing in the stack removes a connection
whose both sides have closed. `good_of_orderly` is the property for the runs that stay clear of
these; `ended_and_not_good` has a run for each.
-/

namespace PythonOS.Net

open Lib List Option

/-- A task in `recv(n)` at `await self._rx_event.wait()`; `woken` when its wakeup is pending. -/
structure BlockedRecv where
  n : Int
  woken : Bool := false
  deriving Repr, DecidableEq

/-- The stack, the tasks blocked in `recv` on the connection, whether a FIN or RST of the peer
was handed to it, and whether `close` and `remove_connection` were called. -/
structure ClosingWorld where
  tcp : TCPStack
  blocked : List BlockedRecv := []
  peerEnded : Bool := false
  localClosed : Bool := false
  removed : Bool := false

/-- What can happen: a packet arrives, a scheduled coroutine runs, the owner closes the
connection or removes it, a task calls `recv`, and a woken task goes on. -/
inductive ClosingEvent
  | packet (pkt : IPv4Packet) (sync : Bool) (iss : Nat) (tx : TCPSegment → Bool)
  | task (k : Nat)
  | close
  | recv (n : Int)
  | resume (t : Nat)
  | removeConnection

/-- Does `handle_segment` set the receive event? -/
def TCPConnection.setsRx (c : TCPConnection) (seg : TCPSegment) : Bool :=
  c.state = .established ∧ (seg.payload ≠ [] ∨ hasFlag seg.flags fFin)

/-- Is the segment the end of the peer's stream? -/
def TCPSegment.ends (seg : TCPSegment) : Bool := hasFlag seg.flags fFin || hasFlag seg.flags fRst

namespace ClosingWorld

/-- `recv(n)` from its first line, or from the top of its loop after a wakeup. -/
def runRecv (i : ConnId) (w : ClosingWorld) (n : Int) : ClosingWorld :=
  match (w.tcp.objs i).recv n with
  | (some _, c) => { w with tcp := w.tcp.setObj i c }
  | (none, c) => { w with tcp := w.tcp.setObj i c, blocked := w.blocked ++ [{ n }] }

/-- A segment of the peer has been handed to the connection. -/
def notice (w : ClosingWorld) (c : TCPConnection) (seg : TCPSegment) : ClosingWorld :=
  { w with
    blocked := if c.setsRx seg then w.blocked.map ({ · with woken := true }) else w.blocked
    peerEnded := w.peerEnded || seg.ends }

/-- One event, for the connection `i`. -/
def step (i : ConnId) (w : ClosingWorld) : ClosingEvent → Option ClosingWorld
  | .packet pkt sync iss tx =>
    let w' := { w with tcp := w.tcp.handleIpPacket tx iss pkt sync }
    match w.tcp.segmentFor pkt with
    | none => some w'
    | some (j, seg) => some (if j = i then w'.notice (w.tcp.objs i) seg else w')
  | .task k => (w.tcp.runTask k).map fun tcp => { w with tcp }
  | .close =>
    let r := (w.tcp.objs i).close
    some { w with tcp := (w.tcp.setObj i r.1).perform i r.2, localClosed := true }
  | .recv n => some (w.runRecv i n)
  | .resume t =>
    match w.blocked[t]? with
    | none => none
    | some r => if r.woken then some ({ w with blocked := w.blocked.eraseIdx t }.runRecv i r.n)
        else none
  | .removeConnection =>
    some { w with tcp := w.tcp.removeConnection i, removed := true }

/-- Right after the handshake. -/
structure Fresh (i : ConnId) (w : ClosingWorld) : Prop where
  exist : i < w.tcp.nextObj
  wf : w.tcp.connections.Wf
  established : (w.tcp.objs i).state = .established
  blocked : w.blocked = []
  peerEnded : w.peerEnded = false
  localClosed : w.localClosed = false
  removed : w.removed = false

/-- Nothing is scheduled for the connection. -/
def Settled (i : ConnId) (w : ClosingWorld) : Prop := ∀ t ∈ w.tcp.tasks, t.conn ≠ i

/-- The connection is in the table. -/
def Listed (i : ConnId) (w : ClosingWorld) : Prop :=
  w.tcp.connections.get? (w.tcp.objs i).key = some i

/-- After the peer's end nobody stays blocked, and after both ends the connection is out of the
table once nothing is left to send. -/
def Good (i : ConnId) (w : ClosingWorld) : Prop :=
  (w.peerEnded = true → ∀ r ∈ w.blocked, r.woken = true) ∧
    (w.Settled i → w.peerEnded = true → w.localClosed = true → ¬ w.Listed i)

instance (i : ConnId) (w : ClosingWorld) : Decidable (w.Settled i) :=
  inferInstanceAs (Decidable (∀ t ∈ w.tcp.tasks, t.conn ≠ i))

instance (i : ConnId) (w : ClosingWorld) : Decidable (w.Listed i) :=
  inferInstanceAs (Decidable (_ = _))

instance (i : ConnId) (w : ClosingWorld) : Decidable (w.Good i) :=
  inferInstanceAs (Decidable (_ ∧ _))

/-- The peer does not reset the connection and its FIN comes while the local side is open; no
task reads past the end of the stream after the local side has closed too; and by the time a
scheduled coroutine runs after both ends, the owner has called `remove_connection`. -/
def Orderly (i : ConnId) (w : ClosingWorld) : ClosingEvent → Prop
  | .packet pkt _ _ _ => ∀ seg, w.tcp.segmentFor pkt = some (i, seg) →
      hasFlag seg.flags fRst = false ∧
        (hasFlag seg.flags fFin = true → (w.tcp.objs i).state = .established)
  | .recv _ | .resume _ => (w.tcp.objs i).state = .lastAck → (w.tcp.objs i).rcvBuf ≠ []
  | .task _ => w.peerEnded = true → w.localClosed = true → w.removed = true
  | .close | .removeConnection => True

/-! ### The invariant -/

/-- How the state of the connection goes with the two ends. -/
structure Phase (st : TCPState) (peer here : Bool) : Prop where
  ended : peer = true → st = .closeWait ∨ st = .lastAck
  closed : here = true → st = .finWait1 ∨ st = .lastAck
  opened : here = false → st = .established ∨ st = .closeWait

/-- The phase of the connection, the two parts of `Good`, and that a connection which was removed
stays out of the table. -/
structure Inv (i : ConnId) (w : ClosingWorld) : Prop where
  exist : i < w.tcp.nextObj
  wf : w.tcp.connections.Wf
  phase : Phase (w.tcp.objs i).state w.peerEnded w.localClosed
  awake : w.peerEnded = true → ∀ r ∈ w.blocked, r.woken = true
  left : w.removed = true ∨ w.Settled i ∧ w.peerEnded = true ∧ w.localClosed = true →
    ¬ w.Listed i

theorem phase_established : Phase .established false false where
  ended h := by cases h
  closed h := by cases h
  opened _ := .inl rfl

/-- The four states of a connection after the handshake. -/
theorem Phase.cases {st : TCPState} {peer here : Bool} (h : Phase st peer here) :
    (st = .established ∧ peer = false ∧ here = false) ∨
      (st = .finWait1 ∧ peer = false ∧ here = true) ∨ (st = .closeWait ∧ here = false) ∨
      (st = .lastAck ∧ here = true) := by
  have hpeer : st ≠ .closeWait → st ≠ .lastAck → peer = false := by
    intro hcw hla
    rw [Bool.eq_false_iff]
    exact fun he => (h.ended he).elim hcw hla
  cases here with
  | true =>
    rcases h.closed rfl with rfl | hst
    · exact .inr (.inl ⟨rfl, hpeer (by decide) (by decide), rfl⟩)
    · exact .inr (.inr (.inr ⟨hst, rfl⟩))
  | false =>
    rcases h.opened rfl with rfl | hst
    · exact .inl ⟨rfl, hpeer (by decide) (by decide), rfl⟩
    · exact .inr (.inr (.inl ⟨hst, rfl⟩))

theorem Fresh.inv {i : ConnId} {w : ClosingWorld} (h : Fresh i w) : Inv i w where
  exist := h.exist
  wf := h.wf
  phase := by
    rw [h.established, h.peerEnded, h.localClosed]
    exact phase_established
  awake he := by
    rw [h.peerEnded] at he
    cases he
  left hout := by
    rw [h.removed, h.peerEnded] at hout
    rcases hout with hr | ⟨-, he, -⟩
    · cases hr
    · cases he

variable {i : ConnId} {w w' : ClosingWorld}

/-- After the handshake only `ESTABLISHED` reacts to segments. -/
theorem handleSegment_ignored {c : TCPConnection} {peer here : Bool}
    (h : Phase c.state peer here) (hne : c.state ≠ .established) (tx : TCPSegment → Bool)
    (seg : TCPSegment) (sync : Bool) : c.handleSegment tx seg sync = (c, {}) := by
  unfold TCPConnection.handleSegment
  rcases h.cases with ⟨hst, -⟩ | ⟨hst, -⟩ | ⟨hst, -⟩ | ⟨hst, -⟩
  · exact absurd hst hne
  · rw [hst]
  · rw [hst]
  · rw [hst]

variable {s : TCPStack} {pkt : IPv4Packet} {sync : Bool}

/-- A packet registers no connection that exists already. -/
theorem handleIpPacket_listed (tx : TCPSegment → Bool) (iss : Nat) (pkt : IPv4Packet) (sync : Bool)
    (hi : i < s.nextObj) {key : ConnKey}
    (h : (s.handleIpPacket tx iss pkt sync).connections.get? key = some i) :
    s.connections.get? key = some i := by
  rcases (s.handleIpPacket_table tx iss sync pkt).2 with ⟨htable, -⟩ | ⟨-, htable, -⟩
  · rwa [htable] at h
  · rw [htable, Dict.get?_set] at h
    split at h
    · cases h
      exact absurd hi (Nat.lt_irrefl _)
    · exact h

theorem handleIpPacket_wf (tx : TCPSegment → Bool) (iss : Nat) (pkt : IPv4Packet) (sync : Bool)
    (h : s.connections.Wf) : (s.handleIpPacket tx iss pkt sync).connections.Wf := by
  rcases (s.handleIpPacket_table tx iss sync pkt).2 with ⟨htable, -⟩ | ⟨-, htable, -⟩
  · rwa [htable]
  · rw [htable]
    exact h.set _ _

variable {tx : TCPSegment → Bool}

theorem Inv.listed_packet (h : Inv i w) {iss : Nat}
    (htcp : w'.tcp = w.tcp.handleIpPacket tx iss pkt sync) (hlist : w'.Listed i) : w.Listed i := by
  unfold Listed at hlist ⊢
  rw [htcp, TCPStack.handleIpPacket_key tx iss w.tcp pkt sync h.exist] at hlist
  exact handleIpPacket_listed tx iss pkt sync h.exist hlist

/-- A packet takes no coroutine away: `w'` is `w` with the packet handled and perhaps a segment
noticed that does not end the stream. -/
theorem Inv.left_packet (h : Inv i w) {iss : Nat}
    (htcp : w'.tcp = w.tcp.handleIpPacket tx iss pkt sync) (hended : w'.peerEnded = w.peerEnded)
    (hclosed : w'.localClosed = w.localClosed) (hremoved : w'.removed = w.removed) :
    w'.removed = true ∨ w'.Settled i ∧ w'.peerEnded = true ∧ w'.localClosed = true →
      ¬ w'.Listed i := by
  rw [hended, hclosed, hremoved]
  intro hout hlist
  refine h.left (hout.imp_right fun hboth => ⟨fun t ht => hboth.1 t ?_, hboth.2⟩)
    (h.listed_packet htcp hlist)
  rw [htcp]
  exact (w.tcp.handleIpPacket_table tx iss sync pkt).1 ht

/-- A packet that is not for the connection. -/
theorem other_packet_inv (h : Inv i w) {iss : Nat}
    (hother : ∀ seg, w.tcp.segmentFor pkt ≠ some (i, seg)) :
    Inv i { w with tcp := w.tcp.handleIpPacket tx iss pkt sync } := by
  have hobj : (w.tcp.handleIpPacket tx iss pkt sync).objs i = w.tcp.objs i := by
    rw [TCPStack.handleIpPacket_obj tx iss sync pkt h.exist]
    unfold handed
    split
    · rfl
    · next j seg hseg =>
      refine if_neg ?_
      rintro rfl
      exact hother seg hseg
  refine ⟨?_, handleIpPacket_wf tx iss pkt sync h.wf, ?_, h.awake, h.left_packet rfl rfl rfl rfl⟩
  · exact Nat.lt_of_lt_of_le h.exist (TCPStack.handleIpPacket_nextObj tx iss sync w.tcp pkt)
  · rw [hobj]
    exact h.phase

/-- A segment of the peer: in `ESTABLISHED` its FIN ends the stream and wakes every blocked task,
in the other states it is ignored. -/
theorem own_packet_inv (h : Inv i w) {iss : Nat} {seg : TCPSegment}
    (hseg : w.tcp.segmentFor pkt = some (i, seg)) (hrst : hasFlag seg.flags fRst = false)
    (hfin : hasFlag seg.flags fFin = true → (w.tcp.objs i).state = .established) :
    Inv i (notice { w with tcp := w.tcp.handleIpPacket tx iss pkt sync } (w.tcp.objs i) seg) := by
  have hobj : (w.tcp.handleIpPacket tx iss pkt sync).objs i =
      ((w.tcp.objs i).handleSegment tx seg sync).1 := by
    rw [TCPStack.handleIpPacket_obj tx iss sync pkt h.exist, hseg]
    exact if_pos rfl
  have hexist := Nat.lt_of_lt_of_le h.exist
    (TCPStack.handleIpPacket_nextObj tx iss sync w.tcp pkt)
  have hwf := handleIpPacket_wf tx iss pkt sync h.wf
  by_cases hest : (w.tcp.objs i).state = .established
  · have hstate := (handleSegment_established hest tx seg sync).1
    obtain ⟨hended, hclosed⟩ : w.peerEnded = false ∧ w.localClosed = false := by
      rcases h.phase.cases with ⟨-, hboth⟩ | ⟨hst, -⟩ | ⟨hst, -⟩ | ⟨hst, -⟩
      · exact hboth
      · rw [hest] at hst; cases hst
      · rw [hest] at hst; cases hst
      · rw [hest] at hst; cases hst
    have hends : (w.peerEnded || seg.ends) = hasFlag seg.flags fFin := by
      rw [hended, Bool.false_or, TCPSegment.ends, hrst, Bool.or_false]
    refine ⟨hexist, hwf, ?_, fun he r hr => ?_, fun hout hlist => ?_⟩
    · show Phase ((w.tcp.handleIpPacket tx iss pkt sync).objs i).state (w.peerEnded || seg.ends)
        w.localClosed
      rw [hobj, hstate, hends, hclosed]
      cases hasFlag seg.flags fFin with
      | false => exact phase_established
      | true => exact ⟨fun _ => .inl rfl, fun h => (by cases h), fun _ => .inr rfl⟩
    · have hf : hasFlag seg.flags fFin = true := hends ▸ he
      have hsets : (w.tcp.objs i).setsRx seg = true := decide_eq_true ⟨hest, .inr hf⟩
      dsimp only [notice] at hr
      rw [if_pos hsets] at hr
      obtain ⟨r', -, rfl⟩ := mem_map.mp hr
      rfl
    · refine h.left (.inl (hout.resolve_right fun hboth => ?_)) (h.listed_packet rfl hlist)
      exact absurd (hclosed.symm.trans hboth.2.2) Bool.false_ne_true
  · have hnofin : hasFlag seg.flags fFin = false := by
      rw [Bool.eq_false_iff]
      exact fun hf => hest (hfin hf)
    have hends : (w.peerEnded || seg.ends) = w.peerEnded := by
      rw [TCPSegment.ends, hnofin, hrst, Bool.or_false, Bool.or_false]
    have hsets : (w.tcp.objs i).setsRx seg = false := decide_eq_false fun hs => hest hs.1
    refine ⟨hexist, hwf, ?_, fun he r hr => ?_, h.left_packet rfl hends rfl rfl⟩
    · show Phase ((w.tcp.handleIpPacket tx iss pkt sync).objs i).state (w.peerEnded || seg.ends)
        w.localClosed
      rw [hobj, handleSegment_ignored h.phase hest, hends]
      exact h.phase
    · dsimp only [notice] at hr
      rw [hsets] at hr
      exact h.awake (hends ▸ he) r hr

theorem runTask_state {s' : TCPStack} {k : Nat} (h : s.runTask k = some s') (j : ConnId) :
    (s'.objs j).state = (s.objs j).state := by
  unfold TCPStack.runTask at h
  cases ht : s.tasks[k]? with
  | none =>
    rw [ht] at h
    cases h
  | some t =>
    rw [ht] at h
    cases h
    exact ((PeerLink.resume_keeps s t).objs j).1

/-- A scheduled coroutine changes neither the state nor the table. -/
theorem task_inv (h : Inv i w) {k : Nat} (hrun : w.tcp.runTask k = some s)
    (hremoved : w.peerEnded = true → w.localClosed = true → w.removed = true) :
    Inv i { w with tcp := s } := by
  obtain ⟨htable, hnext, hkey⟩ := TCPStack.runTask_table hrun
  have hstate : (s.objs i).state = (w.tcp.objs i).state := runTask_state hrun i
  refine ⟨?_, ?_, ?_, h.awake, fun hout hlist => ?_⟩
  · rw [hnext]
    exact h.exist
  · rw [htable]
    exact h.wf
  · rw [hstate]
    exact h.phase
  · refine h.left (.inl (hout.elim id fun hboth => hremoved hboth.2.1 hboth.2.2)) ?_
    unfold Listed at hlist ⊢
    rw [← htable, ← hkey i]
    exact hlist

theorem recv_eq_none {c : TCPConnection} {n : Int} (h : (c.recv n).1 = none) :
    c.rcvBuf = [] ∧ c.state ≠ .closeWait := by
  unfold TCPConnection.recv at h
  split at h
  · cases h
  · next hbuf =>
    split at h
    · cases h
    · next hst => exact ⟨not_not.mp hbuf, fun hcw => hst (.inl hcw)⟩

/-- A new connection object of the same state and four-tuple, and other blocked tasks. -/
theorem Inv.setObj (h : Inv i w) {c : TCPConnection} (hstate : c.state = (w.tcp.objs i).state)
    (hkey : c.key = (w.tcp.objs i).key) {blocked : List BlockedRecv}
    (hblocked : w.peerEnded = true → ∀ r ∈ blocked, r.woken = true) :
    Inv i { w with tcp := w.tcp.setObj i c, blocked } := by
  have hobj := w.tcp.setObj_self i c
  refine ⟨h.exist, h.wf, ?_, hblocked, fun hout hlist => ?_⟩
  · rw [hobj, hstate]
    exact h.phase
  · refine h.left hout ?_
    have hlist : w.tcp.connections.get? ((w.tcp.setObj i c).objs i).key = some i := hlist
    rwa [hobj, hkey] at hlist

/-- `recv` blocks a task only before the peer's end. -/
theorem runRecv_inv (h : Inv i w) (n : Int)
    (hread : (w.tcp.objs i).state = .lastAck → (w.tcp.objs i).rcvBuf ≠ []) :
    Inv i (w.runRecv i n) := by
  obtain ⟨hstate, -, hkey⟩ := recv_fields (w.tcp.objs i) n
  have hnone := @recv_eq_none (w.tcp.objs i) n
  unfold runRecv
  generalize (w.tcp.objs i).recv n = r at hstate hkey hnone
  obtain ⟨out, c⟩ := r
  cases out with
  | some data => exact h.setObj hstate hkey h.awake
  | none =>
    refine h.setObj hstate hkey fun he r hr => ?_
    obtain ⟨hbuf, hst⟩ := hnone rfl
    rcases h.phase.ended he with hcw | hla
    · exact absurd hcw hst
    · exact absurd hbuf (hread hla)

/-- `close` sends FIN from the two open states and does nothing in the others. -/
theorem close_inv (h : Inv i w) :
    Inv i { w with
      tcp := (w.tcp.setObj i (w.tcp.objs i).close.1).perform i (w.tcp.objs i).close.2
      localClosed := true } := by
  have hobj := w.tcp.setObj_self i (w.tcp.objs i).close.1
  refine ⟨h.exist, h.wf, ?_, h.awake, fun hout hlist => ?_⟩
  · show Phase ((w.tcp.setObj i (w.tcp.objs i).close.1).objs i).state w.peerEnded true
    rw [hobj]
    unfold TCPConnection.close
    rcases h.phase.cases with ⟨hst, hp, -⟩ | ⟨hst, hp, -⟩ | ⟨hst, -⟩ | ⟨hst, -⟩
    · rw [hst, hp]
      exact ⟨fun h => (by cases h), fun _ => .inl rfl, fun h => (by cases h)⟩
    · rw [hst, hp]
      exact ⟨fun h => (by cases h), fun _ => .inl hst, fun h => (by cases h)⟩
    · rw [hst]
      exact ⟨fun _ => .inr rfl, fun _ => .inr rfl, fun h => (by cases h)⟩
    · rw [hst]
      exact ⟨fun _ => .inr hst, fun _ => .inr hst, fun h => (by cases h)⟩
  · have hlist : w.Listed i := by
      have hlist : w.tcp.connections.get?
          ((w.tcp.setObj i (w.tcp.objs i).close.1).objs i).key = some i := hlist
      rwa [hobj, close_key] at hlist
    rcases hout with hr | ⟨hset, he, -⟩
    · exact h.left (.inl hr) hlist
    have hset : ∀ t ∈ w.tcp.tasks ++ (w.tcp.objs i).close.2.spawned.map (Task.sendSegment i),
        t.conn ≠ i := hset
    rcases h.phase.cases with ⟨-, hp, -⟩ | ⟨-, hp, -⟩ | ⟨hst, -⟩ | ⟨-, hc⟩
    · exact absurd (hp.symm.trans he) Bool.false_ne_true
    · exact absurd (hp.symm.trans he) Bool.false_ne_true
    · -- the FIN is scheduled
      have hspawned : (w.tcp.objs i).close.2.spawned = [fFin ||| fAck] := by
        unfold TCPConnection.close
        rw [hst]
      rw [hspawned] at hset
      exact hset (.sendSegment i (fFin ||| fAck)) (mem_append_right _ (.head _)) rfl
    · exact h.left (.inr ⟨fun t ht => hset t (mem_append_left _ ht), he, hc⟩) hlist

theorem remove_inv (h : Inv i w) :
    Inv i { w with tcp := w.tcp.removeConnection i, removed := true } := by
  refine ⟨h.exist, h.wf.erase _, h.phase, h.awake, fun _ hlist => ?_⟩
  have hlist : Dict.get? (w.tcp.connections.erase (w.tcp.objs i).key) (w.tcp.objs i).key = some i :=
    hlist
  rw [Dict.get?_erase_self h.wf] at hlist
  cases hlist

theorem step_inv (w : ClosingWorld) (e : ClosingEvent) (w' : ClosingWorld) (h : Inv i w)
    (ho : Orderly i w e) (hstep : step i w e = some w') : Inv i w' := by
  cases e with
  | packet pkt sync iss tx =>
    simp only [step] at hstep
    cases hseg : w.tcp.segmentFor pkt with
    | none =>
      rw [hseg] at hstep
      cases hstep
      exact other_packet_inv h fun seg hs => by rw [hseg] at hs; cases hs
    | some r =>
      obtain ⟨j, seg⟩ := r
      rw [hseg] at hstep
      cases hstep
      by_cases hj : j = i
      · subst hj
        rw [if_pos rfl]
        obtain ⟨hrst, hfin⟩ := ho seg hseg
        exact own_packet_inv h hseg hrst hfin
      · rw [if_neg hj]
        refine other_packet_inv h fun seg' hs => hj ?_
        rw [hseg] at hs
        cases hs
        rfl
  | task k =>
    obtain ⟨s, hrun, rfl⟩ := map_eq_some_iff.mp hstep
    exact task_inv h hrun ho
  | close =>
    cases hstep
    exact close_inv h
  | recv n =>
    cases hstep
    exact runRecv_inv h n ho
  | resume t =>
    simp only [step] at hstep
    cases hr : w.blocked[t]? with
    | none =>
      rw [hr] at hstep
      cases hstep
    | some r =>
      rw [hr] at hstep
      dsimp only at hstep
      split at hstep <;> cases hstep
      have herased : Inv i { w with blocked := w.blocked.eraseIdx t } :=
        ⟨h.exist, h.wf, h.phase, fun he r hr => h.awake he r (mem_of_mem_eraseIdx hr), h.left⟩
      exact runRecv_inv herased r.n ho
  | removeConnection =>
    cases hstep
    exact remove_inv h

/-- **The end of a connection.** In every orderly run from an established connection, nobody stays
blocked after the peer's end, and after both ends the connection is out of the table. -/
theorem good_of_orderly (i : ConnId) (w₀ w : ClosingWorld) (evs : List ClosingEvent)
    (hfresh : Fresh i w₀) (hguard : Guarded (step i) (Orderly i) w₀ evs)
    (hrun : exec (step i) w₀ evs = some w) : w.Good i := by
  have hinv := guarded_invariant (Inv i) step_inv hfresh.inv hguard hrun
  exact ⟨hinv.awake, fun hset he hc => hinv.left (.inr ⟨hset, he, hc⟩)⟩

instance (i : ConnId) (w : ClosingWorld) (e : ClosingEvent) : Decidable (Orderly i w e) :=
  match e with
  | .packet pkt _ _ _ =>
    match h : w.tcp.segmentFor pkt with
    | none => .isTrue fun _ hs => (by cases h.symm.trans hs)
    | some (j, seg) =>
      decidable_of_iff (j = i → hasFlag seg.flags fRst = false ∧
          (hasFlag seg.flags fFin = true → (w.tcp.objs i).state = .established))
        ⟨fun hj seg' hs => by
          obtain ⟨rfl, rfl⟩ := Prod.mk.inj (some_inj.mp (h.symm.trans hs))
          exact hj rfl,
        fun hall hj => hall seg (hj ▸ h)⟩
  | .recv _ => inferInstanceAs (Decidable (_ → _))
  | .resume _ => inferInstanceAs (Decidable (_ → _))
  | .task _ => inferInstanceAs (Decidable (_ → _ → _))
  | .close => .isTrue trivial
  | .removeConnection => .isTrue trivial

/-- The established connection of `NetStack.sample`. -/
def sample : ClosingWorld := { tcp := NetStack.sample.tcp }

theorem sample_fresh : Fresh 0 sample where
  exist := Nat.one_pos
  wf := nodup_singleton _
  established := rfl
  blocked := rfl
  peerEnded := rfl
  localClosed := rfl
  removed := rfl

/-- A segment of the peer without data. -/
def control (flags : UInt8) : ClosingEvent :=
  .packet (PeerLink.samplePacket 1 flags []) true 0 fun _ => true

/-- A reader is woken by FIN; the owner closes and removes the connection before its own FIN is
sent. -/
def farewell : List ClosingEvent :=
  [.recv 4, control 0x11, .resume 0, .close, .removeConnection, .task 0, .task 0]

theorem good_of_orderly_farewell :
    ∃ w, exec (step 0) sample farewell = some w ∧ (w.peerEnded, w.localClosed) = (true, true) ∧
      w.Good 0 := by
  have hends : (exec (step 0) sample farewell).map (fun w => (w.peerEnded, w.localClosed)) =
      some (true, true) := by decide +kernel
  obtain ⟨w, hrun, hw⟩ := map_eq_some_iff.mp hends
  have hguard : guardedBy (step 0) (fun w e => decide (Orderly 0 w e)) sample farewell = true := by
    decide +kernel
  refine ⟨w, hrun, hw, good_of_orderly 0 sample w farewell sample_fresh ?_ hrun⟩
  exact Guarded.of_guardedBy (fun _ _ h => of_decide_eq_true h) hguard

/-- Four runs that end in a state that is not good: FIN after the local close, RST, `recv` after
both ends, and both ends with nothing left to send. -/
theorem ended_and_not_good :
    (exec (step 0) sample [.close, .recv 4, control 0x11]).map
        (fun w => (w.blocked, decide (w.Good 0))) = some ([{ n := 4 }], false) ∧
      (exec (step 0) sample [.recv 4, control 0x14]).map
        (fun w => (w.blocked, decide (w.Good 0))) = some ([{ n := 4 }], false) ∧
      (exec (step 0) sample [control 0x11, .close, .recv 4]).map
        (fun w => (w.blocked, decide (w.Good 0))) = some ([{ n := 4 }], false) ∧
      (exec (step 0) sample [control 0x11, .close, .task 0, .task 0]).map
        (fun w => (decide (w.Settled 0), decide (w.Listed 0), decide (w.Good 0))) =
          some (true, true, false) := by
  refine ⟨?_, ?_, ?_, ?_⟩
  · decide +kernel
  · decide +kernel
  · decide +kernel
  · decide +kernel

end ClosingWorld

end PythonOS.Net
