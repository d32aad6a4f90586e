import PythonOS.Net.Stack

/-!
# PythonOS.Net.Registration

The connection table of `TCPStack` over whole histories: outgoing connects, incoming SYNs,
failures and removals.

A connection is *live* from the moment `connect` or a SYN creates it until it fails or is
removed. `step_change` says what an event can do to the table: nothing, an entry for a new
connection, or the removal of the entry under one connection's four-tuple. The removal is by
key, whoever holds the entry, and `connect` takes the next port of the ephemeral range without a
look at the table: call number `n` gets port `49152 + n % 16384`. `stayRegistered_iff_apart` says
for which histories the live connections stay registered; `port_counter_wraps` is one in which
they do not.
-/

namespace PythonOS.Net

open Lib Function List Option

/-- What can happen to the table. `connect` is given the random initial sequence number;
`connectFails` is any exception after it has registered the connection, `synFails` the same for
`_on_syn`. -/
inductive TableEvent
  | connect (remoteIp : Bytes) (remotePort : Nat) (localIp : Bytes) (iss : Nat)
  | connectReturns (i : ConnId)
  | connectFails (i : ConnId)
  | packet (pkt : IPv4Packet) (sync : Bool) (iss : Nat) (tx : TCPSegment → Bool)
  | task (k : Nat)
  | synFails (k : Nat)
  | removeConnection (i : ConnId)
  | close (i : ConnId)
  | listen (port : Nat)
  | unlisten (port : Nat)

/-- The stack with its port counter, the calls of `connect` that have not returned, the live
connections, and how often `connect` was called. -/
structure TableWorld where
  tcp : TCPStack
  nextPort : Nat := 49152
  connecting : List ConnId := []
  live : List ConnId := []
  connects : Nat := 0

namespace TableWorld

/-- The counter after `_alloc_port`. -/
def portAfter (port : Nat) : Nat := (port + 1 - 49152) % 16384 + 49152

/-- The connection `connect` builds. -/
def outgoing (w : TableWorld) (remoteIp : Bytes) (remotePort : Nat) (localIp : Bytes) (iss : Nat) :
    TCPConnection :=
  { localIp, remoteIp, localPort := w.nextPort, remotePort, state := .synSent, sndSeq := iss
    connected := some .pending }

/-- `remove_connection`, and the `except` of `connect`: pop by key. -/
def unregister (w : TableWorld) (i : ConnId) : TableWorld :=
  { w with tcp := w.tcp.removeConnection i, live := w.live.filter (· ≠ i) }

/-- One event. -/
def step (w : TableWorld) : TableEvent → Option TableWorld
  | .connect remoteIp remotePort localIp iss =>
    let i := w.tcp.nextObj
    let c := w.outgoing remoteIp remotePort localIp iss
    some
      { tcp :=
          { w.tcp.setObj i c with
            nextObj := i + 1
            connections := w.tcp.connections.set c.key i
            tasks := w.tcp.tasks ++ [.sendDone i fSyn]
            sent := w.tcp.sent ++ [(i, c.segment fSyn [])] }
        nextPort := portAfter w.nextPort
        connecting := i :: w.connecting
        live := i :: w.live
        connects := w.connects + 1 }
  | .connectReturns i =>
    if i ∈ w.connecting ∧ (w.tcp.objs i).connected = some .result then
      some { w with connecting := w.connecting.filter (· ≠ i) }
    else none
  | .connectFails i =>
    if i ∈ w.connecting then
      -- when `send_segment` raises, the update of the sequence number is not reached
      let tcp := { w.tcp with tasks := w.tcp.tasks.filter (· ≠ .sendDone i fSyn) }
      some ({ w with tcp, connecting := w.connecting.filter (· ≠ i) }.unregister i)
    else none
  | .packet pkt sync iss tx =>
    let tcp := w.tcp.handleIpPacket tx iss pkt sync
    some
      { w with
        tcp
        live := if w.tcp.nextObj < tcp.nextObj then w.tcp.nextObj :: w.live else w.live }
  | .task k => (w.tcp.runTask k).map fun tcp => { w with tcp }
  | .synFails k =>
    (w.tcp.failSyn k).map fun r => { w with tcp := r.2, live := w.live.filter (· ≠ r.1) }
  | .removeConnection i => if i < w.tcp.nextObj then some (w.unregister i) else none
  | .close i =>
    if i < w.tcp.nextObj then
      let r := (w.tcp.objs i).close
      some { w with tcp := (w.tcp.setObj i r.1).perform i r.2 }
    else none
  | .listen port =>
    if (w.tcp.listeners.get? port).isSome then none
    else some { w with tcp := { w.tcp with listeners := w.tcp.listeners.set port [] } }
  | .unlisten port =>
    some { w with tcp := { w.tcp with listeners := w.tcp.listeners.erase port } }

/-- A new stack. -/
def start (objs : ConnId → TCPConnection) : TableWorld := { tcp := { objs, nextObj := 0 } }

/-! ### The property and its condition -/

/-- Every live connection is registered under its own four-tuple. -/
def Registered (w : TableWorld) : Prop :=
  ∀ i ∈ w.live, w.tcp.connections.get? (w.tcp.objs i).key = some i

/-- Along the whole history the live connections are registered. -/
def StayRegistered (w : TableWorld) (evs : List TableEvent) : Prop :=
  Guarded step (fun w e => ∀ w', step w e = some w' → w'.Registered) w evs

/-- The port that call number `n` of `connect` gets. -/
def portOf (n : Nat) : Nat := 49152 + n % 16384

/-- The connection is live, or no live connection has its four-tuple. -/
def OwnTuple (w : TableWorld) (i : ConnId) : Prop :=
  i ∈ w.live ∨ ∀ j ∈ w.live, (w.tcp.objs j).key ≠ (w.tcp.objs i).key

/-- What the history has to keep apart, because the source does not look: when `connect` is called
for the `n`-th time, no live connection between the same two ends may have the port `n % 16384`
places into the range; and a connection may fail or be removed while it is live, but not again
after another one has taken its four-tuple. -/
def Apart (w : TableWorld) : TableEvent → Prop
  | .connect remoteIp remotePort localIp _ =>
    ∀ i ∈ w.live, (w.tcp.objs i).key ≠ ⟨localIp, portOf w.connects, remoteIp, remotePort⟩
  | .connectFails i | .removeConnection i => w.OwnTuple i
  | .synFails k => ∀ i tcp, w.tcp.failSyn k = some (i, tcp) → w.OwnTuple i
  | _ => True

end TableWorld

/-! ### The four-tuple never changes -/

theorem close_key (c : TCPConnection) : c.close.1.key = c.key := by
  unfold TCPConnection.close
  split <;> rfl

namespace TCPStack

theorem setObj_self (s : TCPStack) (i : ConnId) (c : TCPConnection) :
    (s.setObj i c).objs i = c := by
  dsimp only [setObj]
  rw [update_self]

theorem setObj_key (s : TCPStack) {i : ConnId} {c : TCPConnection} (h : c.key = (s.objs i).key)
    (j : ConnId) : ((s.setObj i c).objs j).key = (s.objs j).key := by
  dsimp only [setObj]
  by_cases hj : j = i
  · subst hj
    rw [update_self, h]
  · rw [update_of_ne hj]

/-- A coroutine of the stack leaves the table alone. -/
theorem runTask_table {s s' : TCPStack} {k : Nat} (h : s.runTask k = some s') :
    s'.connections = s.connections ∧ s'.nextObj = s.nextObj ∧
      ∀ j, (s'.objs j).key = (s.objs j).key := by
  unfold runTask at h
  cases ht : s.tasks[k]? with
  | none =>
    rw [ht] at h
    cases h
  | some t =>
    rw [ht] at h
    cases h
    have hkeeps := PeerLink.resume_keeps s t
    exact ⟨hkeeps.connections, hkeeps.nextObj, fun j => (hkeeps.objs j).2.2.2⟩

/-- A packet leaves the table alone, or it registers a new connection under a free four-tuple. -/
theorem handleIpPacket_key (tx : TCPSegment → Bool) (iss : Nat) (s : TCPStack)
    (pkt : IPv4Packet) (sync : Bool) {j : ConnId} (hj : j < s.nextObj) :
    ((s.handleIpPacket tx iss pkt sync).objs j).key = (s.objs j).key := by
  rw [handleIpPacket_obj tx iss sync pkt hj]
  unfold handed
  split
  · rfl
  · split
    · exact handleSegment_key _ _ _ _
    · rfl

end TCPStack

/-! ### What an event does to the table -/

namespace TableWorld

/-- What an event that makes `w'` of `w` does: it leaves the table alone, adds an entry for a new
connection, or drops the entry under a four-tuple. `free` is when it takes no live connection's
entry. -/
inductive Change (w w' : TableWorld) (free : Prop) : Prop
  | kept (table : w'.tcp.connections = w.tcp.connections) (live : w'.live = w.live)
      (next : w'.tcp.nextObj = w.tcp.nextObj) (hfree : free)
  | added (table : w'.tcp.connections =
        w.tcp.connections.set (w'.tcp.objs w.tcp.nextObj).key w.tcp.nextObj)
      (live : w'.live = w.tcp.nextObj :: w.live) (next : w'.tcp.nextObj = w.tcp.nextObj + 1)
      (hfree : free ↔ ∀ i ∈ w.live, (w.tcp.objs i).key ≠ (w'.tcp.objs w.tcp.nextObj).key)
  | dropped (i : ConnId) (table : w'.tcp.connections = w.tcp.connections.erase (w.tcp.objs i).key)
      (live : w'.live = w.live.filter (· ≠ i)) (next : w'.tcp.nextObj = w.tcp.nextObj)
      (hfree : free ↔ w.OwnTuple i)

theorem portAfter_portOf (n : Nat) : portAfter (portOf n) = portOf (n + 1) := by
  unfold portAfter portOf
  omega

/-! ### Histories -/

/-- The table has no key twice, its entries are live connections under their own four-tuples,
live connections exist, and the counter has gone round with the calls of `connect`. -/
structure Sound (w : TableWorld) : Prop where
  wf : w.tcp.connections.Wf
  entry : ∀ key i, w.tcp.connections.get? key = some i → i ∈ w.live ∧ (w.tcp.objs i).key = key
  exist : ∀ i ∈ w.live, i < w.tcp.nextObj
  port : w.nextPort = portOf w.connects

theorem start_sound (objs : ConnId → TCPConnection) : (start objs).Sound where
  wf := Dict.wf_nil
  entry _ _ h := by cases h
  exist _ h := by cases h
  port := rfl

variable {w w' : TableWorld} {e : TableEvent}

section Step

variable (hs : w.Sound) (hreg : w.Registered) (h : w.step e = some w')

include hs hreg h

/-- Inversion of a step, as long as the live connections are registered. -/
theorem step_change :
    Change w w' (w.Apart e) ∧
      (∀ j, j < w.tcp.nextObj → (w'.tcp.objs j).key = (w.tcp.objs j).key) ∧
      w'.nextPort = portOf w'.connects := by
  cases e with
  | connect remoteIp remotePort localIp iss =>
    cases h
    refine ⟨.added ?_ rfl rfl ?_, fun j hj => ?_, ?_⟩
    · dsimp only [TCPStack.setObj]
      rw [update_self]
    · dsimp only [TCPStack.setObj]
      rw [update_self, Apart, ← hs.port]
      exact .rfl
    · dsimp only [TCPStack.setObj]
      rw [update_of_ne (Nat.ne_of_lt hj)]
    · dsimp only
      rw [hs.port, portAfter_portOf]
  | connectReturns _ | listen _ =>
    simp only [step] at h
    split at h <;> cases h
    exact ⟨.kept rfl rfl rfl trivial, fun _ _ => rfl, hs.port⟩
  | connectFails i | removeConnection i =>
    simp only [step] at h
    split at h <;> cases h
    exact ⟨.dropped i rfl rfl rfl .rfl, fun _ _ => rfl, hs.port⟩
  | packet pkt sync iss tx =>
    cases h
    refine ⟨?_, fun j hj => TCPStack.handleIpPacket_key tx iss w.tcp pkt sync hj, hs.port⟩
    rcases (w.tcp.handleIpPacket_table tx iss sync pkt).2 with
      ⟨htable, hnext⟩ | ⟨hnone, htable, hnext⟩
    · refine .kept htable ?_ hnext trivial
      exact if_neg (Nat.not_lt_of_le (Nat.le_of_eq hnext))
    · refine .added htable ?_ hnext ⟨fun _ i hi heq => ?_, fun _ => trivial⟩
      · exact if_pos (Nat.lt_of_lt_of_eq (Nat.lt_succ_self _) hnext.symm)
      · have hget := hreg i hi
        rw [heq, hnone] at hget
        cases hget
  | task k =>
    obtain ⟨tcp, hrun, rfl⟩ := map_eq_some_iff.mp h
    obtain ⟨htable, hnext, hkey⟩ := TCPStack.runTask_table hrun
    exact ⟨.kept htable rfl hnext trivial, fun j _ => hkey j, hs.port⟩
  | synFails k =>
    obtain ⟨⟨i, tcp⟩, hfail, rfl⟩ := map_eq_some_iff.mp h
    obtain ⟨htable, hnext, -, -, -, -, hobjs⟩ := PeerLink.failSyn_spec hfail
    refine ⟨.dropped i htable rfl hnext ?_, fun j _ => (hobjs j).2.2.1, hs.port⟩
    refine ⟨fun hall => hall i tcp hfail, fun hown i' tcp' hfail' => ?_⟩
    cases hfail.symm.trans hfail'
    exact hown
  | close i =>
    simp only [step] at h
    split at h <;> cases h
    exact ⟨.kept rfl rfl rfl trivial, fun j _ => w.tcp.setObj_key (close_key _) j, hs.port⟩
  | unlisten port =>
    cases h
    exact ⟨.kept rfl rfl rfl trivial, fun _ _ => rfl, hs.port⟩

theorem step_sound : w'.Sound := by
  obtain ⟨hchange, hkey, hport⟩ := step_change hs hreg h
  cases hchange with
  | kept table live next _ =>
    refine ⟨table ▸ hs.wf, fun key i hget => ?_, fun i hi => ?_, hport⟩
    · rw [table] at hget
      obtain ⟨hlive, hk⟩ := hs.entry key i hget
      exact ⟨live ▸ hlive, (hkey i (hs.exist i hlive)).trans hk⟩
    · rw [live] at hi
      exact next ▸ hs.exist i hi
  | added table live next _ =>
    refine ⟨table ▸ hs.wf.set _ _, fun key i hget => ?_, fun i hi => ?_, hport⟩
    · rw [table, Dict.get?_set] at hget
      rw [live]
      split at hget
      · next heq =>
        cases hget
        exact ⟨.head _, heq.symm⟩
      · obtain ⟨hlive, hk⟩ := hs.entry key i hget
        exact ⟨.tail _ hlive, (hkey i (hs.exist i hlive)).trans hk⟩
    · rw [live] at hi
      rw [next]
      cases hi with
      | head => exact Nat.lt_succ_self _
      | tail _ hi => exact Nat.lt_succ_of_lt (hs.exist i hi)
  | dropped i table live next _ =>
    refine ⟨table ▸ hs.wf.erase _, fun key j hget => ?_, fun j hj => ?_, hport⟩
    · rw [table] at hget
      obtain ⟨hne, hget⟩ := (Dict.get?_erase_eq_some hs.wf).mp hget
      obtain ⟨hlive, hk⟩ := hs.entry key j hget
      have hji : j ≠ i := by
        rintro rfl
        exact hne hk.symm
      rw [live]
      exact ⟨mem_filter.mpr ⟨hlive, decide_eq_true hji⟩, (hkey j (hs.exist j hlive)).trans hk⟩
    · rw [live] at hj
      exact next ▸ hs.exist j (mem_filter.mp hj).1

/-- One event keeps the live connections registered exactly when it keeps them apart. -/
theorem step_registered_iff : w'.Registered ↔ w.Apart e := by
  obtain ⟨hchange, hkey, -⟩ := step_change hs hreg h
  cases hchange with
  | kept table live next hfree =>
    refine ⟨fun _ => hfree, fun _ i hi => ?_⟩
    rw [live] at hi
    rw [table, hkey i (hs.exist i hi)]
    exact hreg i hi
  | added table live next hfree =>
    rw [hfree]
    constructor
    · -- with the same four-tuple the entry of `i` would be the new connection's
      intro hreg' i hi heq
      have hlt := hs.exist i hi
      have hget := hreg' i (live ▸ .tail _ hi)
      rw [table, hkey i hlt, heq, Dict.get?_set_self] at hget
      exact absurd (some_inj.mp hget) (Nat.ne_of_gt hlt)
    · intro hne i hi
      rw [live] at hi
      rw [table]
      cases hi with
      | head => exact Dict.get?_set_self _ _ _
      | tail _ hi => rw [hkey i (hs.exist i hi), Dict.get?_set_of_ne _ _ (hne i hi), hreg i hi]
  | dropped i table live next hfree =>
    rw [hfree]
    constructor
    · intro hreg'
      by_cases hi : i ∈ w.live
      · exact .inl hi
      · refine .inr fun j hj heq => ?_
        have hji : j ≠ i := fun hji => hi (hji ▸ hj)
        have hget := hreg' j (live ▸ mem_filter.mpr ⟨hj, decide_eq_true hji⟩)
        rw [table, hkey j (hs.exist j hj), heq, Dict.get?_erase_self hs.wf] at hget
        cases hget
    · intro hown j hj
      rw [live] at hj
      obtain ⟨hj, hji⟩ := mem_filter.mp hj
      have hne : (w.tcp.objs j).key ≠ (w.tcp.objs i).key := by
        rcases hown with hi | hother
        · intro heq
          have hget := hreg j hj
          rw [heq, hreg i hi] at hget
          exact of_decide_eq_true hji (some_inj.mp hget).symm
        · exact hother j hj
      rw [table, hkey j (hs.exist j hj), Dict.get?_erase_of_ne _ hne, hreg j hj]

end Step

theorem stayRegistered_iff (hs : w.Sound) (hreg : w.Registered) (evs : List TableEvent)
    (hrun : (exec step w evs).isSome) : w.StayRegistered evs ↔ Guarded step Apart w evs := by
  constructor
  · intro hstay
    induction evs generalizing w with
    | nil => trivial
    | cons e evs ih =>
      obtain ⟨t, ht⟩ := isSome_iff_exists.mp hrun
      obtain ⟨w', hstep, hrest⟩ := exec_cons_eq_some.mp ht
      have hreg' := hstay.1 w' hstep
      refine ⟨(step_registered_iff hs hreg hstep).mp hreg', fun w'' hstep' => ?_⟩
      obtain rfl := some_inj.mp (hstep.symm.trans hstep')
      exact ih (step_sound hs hreg hstep) hreg' (hrest ▸ rfl) (hstay.2 w' hstep)
  · exact .of_guarded_invariant (fun w => w.Sound ∧ w.Registered)
      (fun _ _ _ h hapart hstep => ⟨step_sound h.1 h.2 hstep,
        (step_registered_iff h.1 h.2 hstep).mpr hapart⟩)
      (fun _ _ h hapart _ hstep => (step_registered_iff h.1 h.2 hstep).mpr hapart) ⟨hs, hreg⟩

/-- **The connection table.** Over every history of a new stack, the live connections stay
registered under their four-tuples if and only if no connect comes round to the port of a live
connection to the same remote end, and no connection fails or is removed after its four-tuple
has gone to another. -/
theorem stayRegistered_iff_apart (objs : ConnId → TCPConnection) (evs : List TableEvent)
    (hrun : (exec step (start objs) evs).isSome) :
    (start objs).StayRegistered evs ↔ Guarded step Apart (start objs) evs :=
  stayRegistered_iff (start_sound objs) (fun _ h => (by cases h)) evs hrun

/-! ### A counter that comes round -/

/-- A new stack; no object exists in it. -/
def blank : TableWorld :=
  start fun _ => { localIp := [], remoteIp := [], localPort := 0, remotePort := 0, sndSeq := 0 }

/-- What every `connect` below asks for. -/
def dial : TableEvent := .connect [10, 0, 0, 1] 80 [10, 0, 0, 2] 0

/-- The four-tuple of the first of them. -/
def firstKey : ConnKey := ⟨[10, 0, 0, 2], 49152, [10, 0, 0, 1], 80⟩

theorem stayRegistered_iff_apart_dial :
    blank.StayRegistered [dial, dial, .connectFails 0, dial] := by
  refine (stayRegistered_iff_apart _ _ rfl).mpr ⟨fun _ h => (by cases h), fun w hw => ?_⟩
  cases hw
  refine ⟨fun i hi => ?_, fun w hw => ?_⟩
  · obtain rfl := mem_singleton.mp hi
    decide
  · cases hw
    refine ⟨.inl (.tail _ (.head _)), fun w hw => ?_⟩
    cases hw
    refine ⟨fun i hi => ?_, fun _ _ => trivial⟩
    obtain rfl := mem_singleton.mp hi
    decide

/-- A `connect`, and `n` more that fail. -/
def refusals : Nat → List TableEvent
  | 0 => [dial]
  | n + 1 => refusals n ++ [dial, .connectFails (n + 1)]

/-- What is left of them: connection 0, and the counter. -/
structure Holding (n : Nat) (w : TableWorld) : Prop where
  wf : w.tcp.connections.Wf
  live : 0 ∈ w.live
  key : (w.tcp.objs 0).key = firstKey
  next : w.tcp.nextObj = n + 1
  port : w.nextPort = portOf (n + 1)

theorem refusals_holding (n : Nat) : ∃ w, exec step blank (refusals n) = some w ∧ Holding n w := by
  induction n with
  | zero => exact ⟨_, rfl, Dict.wf_nil.set _ _, .head _, rfl, rfl, rfl⟩
  | succ n ih =>
    obtain ⟨w, hrun, h⟩ := ih
    let c := w.outgoing [10, 0, 0, 1] 80 [10, 0, 0, 2] 0
    have hzero : 0 ≠ n + 1 := (Nat.succ_ne_zero n).symm
    have hfail : n + 1 ∈ w.tcp.nextObj :: w.connecting := h.next ▸ .head _
    obtain ⟨w', hrest, h'⟩ : ∃ w', exec step w [dial, .connectFails (n + 1)] = some w' ∧
        Holding (n + 1) w' := by
      refine ⟨_, exec_cons_eq_some.mpr ⟨_, rfl, exec_cons_eq_some.mpr ⟨_, if_pos hfail, rfl⟩⟩,
        (h.wf.set _ _).erase _, mem_filter.mpr ⟨.tail _ h.live, decide_eq_true hzero⟩, ?_,
        congrArg (· + 1) h.next, ?_⟩
      · show (update w.tcp.objs w.tcp.nextObj c 0).key = firstKey
        rw [h.next, update_of_ne hzero, h.key]
      · show portAfter w.nextPort = _
        rw [h.port, portAfter_portOf]
    refine ⟨w', ?_, h'⟩
    rw [refusals, exec_append, hrun]
    exact hrest

/-- One connection stays live while the 16383 connects after it fail: the next one gets the same
port, and its entry replaces the live connection's. Removing the first connection then
unregisters the second. -/
theorem port_counter_wraps :
    let evs := refusals 16383 ++ [dial]
    (∃ w, exec step blank evs = some w ∧ 0 ∈ w.live ∧
      w.tcp.connections.get? (w.tcp.objs 0).key = some 16384) ∧
    (∃ w, exec step blank (evs ++ [.removeConnection 0]) = some w ∧ 16384 ∈ w.live ∧
      w.tcp.connections.get? (w.tcp.objs 16384).key = none) ∧
    ¬ blank.StayRegistered evs := by
  obtain ⟨w, hrun, wf, live, key, next, port⟩ := refusals_holding 16383
  generalize refusals 16383 = evs at hrun
  -- the last connect, and the removal after it
  let c := w.outgoing [10, 0, 0, 1] 80 [10, 0, 0, 2] 0
  have hckey : c.key = firstKey := congrArg (ConnKey.mk [10, 0, 0, 2] · [10, 0, 0, 1] 80) port
  obtain ⟨w', hlast, hobjs, htable, hlive, hnext⟩ :
      ∃ w', step w dial = some w' ∧ w'.tcp.objs = update w.tcp.objs w.tcp.nextObj c ∧
        w'.tcp.connections = w.tcp.connections.set c.key w.tcp.nextObj ∧
        w'.live = w.tcp.nextObj :: w.live ∧ w'.tcp.nextObj = w.tcp.nextObj + 1 :=
    ⟨_, rfl, rfl, rfl, rfl, rfl⟩
  rw [hckey] at htable
  rw [next] at hobjs htable hlive hnext
  have hkey₀ : (w'.tcp.objs 0).key = firstKey := by
    rw [hobjs, update_of_ne (show (0 : Nat) ≠ 16383 + 1 by omega), key]
  have hkey₁ : (w'.tcp.objs 16384).key = firstKey := by
    rw [hobjs, update_self, hckey]
  have hrun : exec step blank (evs ++ [dial]) = some w' := by
    rw [exec_append, hrun]
    exact exec_cons_eq_some.mpr ⟨w', hlast, rfl⟩
  have hzero : 0 ∈ w'.live := hlive ▸ .tail _ live
  have hlost : w'.tcp.connections.get? (w'.tcp.objs 0).key = some 16384 := by
    rw [htable, hkey₀, Dict.get?_set_self]
  refine ⟨⟨w', hrun, hzero, hlost⟩, ⟨w'.unregister 0, ?_, ?_, ?_⟩, fun hstay => ?_⟩
  · rw [exec_append, hrun]
    exact exec_cons_eq_some.mpr ⟨_, if_pos (hnext ▸ Nat.succ_pos _), rfl⟩
  · exact mem_filter.mpr ⟨hlive ▸ .head _, rfl⟩
  · show Dict.get? (w'.tcp.connections.erase (w'.tcp.objs 0).key) (w'.tcp.objs 16384).key = none
    rw [hkey₀, hkey₁, Dict.get?_erase_self (htable ▸ wf.set _ _)]
  · have hreg := guarded_invariant Registered (fun _ _ s' _ hkeep hstep => hkeep s' hstep)
      (fun _ h => (by cases h)) hstay hrun 0 hzero
    rw [hlost] at hreg
    cases hreg

end TableWorld

end PythonOS.Net
