import PythonOS.Net.Stack

/-!
# PythonOS.Net.Arp

Address resolution with any number of tasks (`kernel/net/arp.py`): `resolve` registers a future
for the address in `_pending` and waits for it at most three seconds; `learn`, which every ARP
and IPv4 frame leads to, completes the future registered for the address.

`_pending` has one slot for an address. A second `resolve` of it takes the slot over, so that
`learn` does not reach the first call any more, and a call that times out pops the slot whoever
holds it. And `wait_for` looks only whether its timer has fired: when it fires after the future
was completed but before the task runs again, the call returns `None`.

`resolve_served` is for the runs without these: no call registers for an address that another
call is still out for, and no timer fires after the address was learned.
-/

namespace PythonOS.Net

open Lib Lib.Bytes Function

/-! ### The calls of `resolve` -/

/-- The future of a call. -/
inductive ResolveFuture
  | pending
  | result (mac : Bytes)
  | cancelled
  deriving Repr, DecidableEq

/-- A call of `resolve`: its future, `timeout_expired` of its `wait_for`, and what it has returned.
`owed` is the MAC that was learned while the call was waiting. -/
structure ResolveCall where
  ip : Bytes
  fut : ResolveFuture := .pending
  expired : Bool := false
  out : Option (Option Bytes) := none
  owed : Option Bytes := none
  deriving Repr, DecidableEq

/-- Is the call waiting for the address? -/
def ResolveCall.WaitsFor (c : ResolveCall) (ip : Bytes) : Prop :=
  c.ip = ip ∧ c.out = none ∧ c.fut = .pending ∧ c.expired = false

instance (c : ResolveCall) (ip : Bytes) : Decidable (c.WaitsFor ip) :=
  inferInstanceAs (Decidable (_ ∧ _))

/-- What a call is owed it has been given: it has returned the MAC, or its future holds it. -/
def ResolveCall.Served (c : ResolveCall) : Prop :=
  match c.owed with
  | none => True
  | some mac =>
    match c.out with
    | none => c.fut = .result mac
    | some r => r = some mac

instance : (c : ResolveCall) → Decidable c.Served
  | ⟨_, _, _, _, none⟩ => .isTrue trivial
  | ⟨_, fut, _, none, some mac⟩ => inferInstanceAs (Decidable (fut = .result mac))
  | ⟨_, _, _, some r, some mac⟩ => inferInstanceAs (Decidable (r = some mac))

/-- `ARPTable`, with the calls of `resolve` so far; `_pending` maps to calls. -/
structure ArpWorld where
  table : Dict Bytes Bytes
  pending : Dict Bytes Nat := []
  calls : Nat → ResolveCall := fun _ => { ip := [] }
  next : Nat := 0

/-- What can happen: a task calls `resolve`, a frame arrives, the timer of a call fires, and the
task of a call runs again. -/
inductive ArpEvent
  | resolve (ip : Bytes)
  | frame (raw : Bytes)
  | timer (k : Nat)
  | resume (k : Nat)

namespace ArpWorld

/-- Replace the call `k`. -/
def setCall (w : ArpWorld) (k : Nat) (c : ResolveCall) : ArpWorld :=
  { w with calls := update w.calls k c }

/-- The calls waiting for `ip` are owed `mac`. -/
def promise (w : ArpWorld) (ip mac : Bytes) : ArpWorld :=
  { w with calls := fun j =>
      if j < w.next ∧ (w.calls j).WaitsFor ip then { w.calls j with owed := some mac }
      else w.calls j }

/-- `fut.set_result(mac)` unless the future is done. -/
def deliver (w : ArpWorld) (k : Nat) (mac : Bytes) : ArpWorld :=
  if (w.calls k).fut = .pending then w.setCall k { w.calls k with fut := .result mac } else w

/-- `learn`. -/
def learn (w : ArpWorld) (ip mac : Bytes) : ArpWorld :=
  let w := { w.promise ip mac with table := w.table.set ip mac }
  match w.pending.get? ip with
  | none => w
  | some k => { w with pending := w.pending.erase ip }.deliver k mac

/-- A call that has to wait: its future goes into the slot of the address. -/
def register (w : ArpWorld) (ip : Bytes) : ArpWorld :=
  { w.setCall w.next { ip } with pending := w.pending.set ip w.next, next := w.next + 1 }

/-- `resolve` up to its `await`. -/
def resolve (w : ArpWorld) (ip : Bytes) : ArpWorld :=
  match w.table.get? ip with
  | none => w.register ip
  | some mac =>
    if mac ≠ [] then { w.setCall w.next { ip, out := some (some mac) } with next := w.next + 1 }
    else w.register ip

/-- The task of the call `c` runs again after `done.wait()`. -/
def finishCall (w : ArpWorld) (k : Nat) (c : ResolveCall) : Option ArpWorld :=
  if c.expired then
    some { w.setCall k { c with out := some none } with pending := w.pending.erase c.ip }
  else
    match c.fut with
    | .result mac => some (w.setCall k { c with out := some (some mac) })
    | _ => none

/-- One event. -/
def step (w : ArpWorld) : ArpEvent → Option ArpWorld
  | .resolve ip => some (w.resolve ip)
  | .frame raw =>
    match learned raw with
    | none => some w
    | some (ip, mac) => some (w.learn ip mac)
  | .timer k =>
    let c := w.calls k
    if k < w.next ∧ c.out = none ∧ c.expired = false then
      some (w.setCall k
        { c with expired := true, fut := if c.fut = .pending then .cancelled else c.fut })
    else none
  | .resume k =>
    if k < w.next ∧ (w.calls k).out = none then w.finishCall k (w.calls k) else none

/-- No call is out. -/
def start (table : Dict Bytes Bytes) : ArpWorld := { table }

/-! ### The property -/

/-- Every call has what it is owed. -/
def Good (w : ArpWorld) : Prop := ∀ k < w.next, (w.calls k).Served

/-- A call that is owed a MAC and still out returns it as soon as its task runs. -/
def Returns (w : ArpWorld) : Prop :=
  ∀ k < w.next, ∀ mac, (w.calls k).owed = some mac → (w.calls k).out = none →
    ∃ w', step w (.resume k) = some w' ∧ (w'.calls k).out = some (some mac)

/-- When a call times out, the slots of the other calls stay as they are. -/
def Unaffected (w : ArpWorld) (e : ArpEvent) (w' : ArpWorld) : Prop :=
  ∀ k, e = .timer k ∨ e = .resume k ∧ (w.calls k).expired = true →
    ∀ ip j, j ≠ k → w.pending.get? ip = some j → w'.pending.get? ip = some j

/-- The property of one step. -/
def Serves (w : ArpWorld) (e : ArpEvent) : Prop :=
  ∀ w', step w e = some w' → w'.Good ∧ w'.Returns ∧ Unaffected w e w'

/-- A call that has to wait is the only one out for its address, and a timer fires only before the
address is learned. -/
def Apart (w : ArpWorld) : ArpEvent → Prop
  | .resolve ip => (∀ mac, w.table.get? ip = some mac → mac = []) →
      ∀ k < w.next, (w.calls k).ip = ip → (w.calls k).out ≠ none
  | .timer k => (w.calls k).fut = .pending
  | .frame _ | .resume _ => True

instance (w : ArpWorld) : Decidable w.Good :=
  inferInstanceAs (Decidable (∀ k, k < w.next → (w.calls k).Served))

/-! ### The invariant -/

end ArpWorld

/-- How the future, the timer and the results of a call go together when no timer fires after the
address was learned. -/
structure ResolveCall.Sound (c : ResolveCall) : Prop where
  expired : c.expired = true → c.fut = .cancelled
  owed : ∀ mac, c.owed = some mac →
    c.fut = .result mac ∧ (c.out = none ∨ c.out = some (some mac))

namespace ArpWorld

/-- Every call that still waits has the slot of its address, a slot belongs to a call that is out
and not completed, and there is one call out for an address. -/
structure Inv (w : ArpWorld) : Prop where
  wf : w.pending.Wf
  sound : ∀ k < w.next, (w.calls k).Sound
  held : ∀ k < w.next, (w.calls k).WaitsFor (w.calls k).ip →
    w.pending.get? (w.calls k).ip = some k
  slot : ∀ ip k, w.pending.get? ip = some k → k < w.next ∧ (w.calls k).ip = ip ∧
    (w.calls k).out = none ∧ ∀ mac, (w.calls k).fut ≠ .result mac
  one : ∀ j < w.next, ∀ k < w.next, (w.calls j).out = none → (w.calls k).out = none →
    (w.calls j).ip = (w.calls k).ip → j = k

theorem start_inv (table : Dict Bytes Bytes) : (start table).Inv where
  wf := Dict.wf_nil
  sound _ h := absurd h (Nat.not_lt_zero _)
  held _ h := absurd h (Nat.not_lt_zero _)
  slot _ _ h := by cases h
  one _ h := absurd h (Nat.not_lt_zero _)

variable {w w' : ArpWorld}

/-- A frame does to the table what the receive path of the stack does to it. -/
theorem frame_table {s : NetStack} (htable : w.table = s.arp) {raw : Bytes}
    (hstep : step w (.frame raw) = some w') (tx : TCPSegment → Bool) (iss : Nat) (sync : Bool) :
    w'.table = (s.receive tx iss sync raw).1.arp := by
  rw [NetStack.receive_arp, ← htable]
  simp only [step] at hstep
  cases hl : learned raw with
  | none =>
    rw [hl] at hstep
    cases hstep
    rfl
  | some p =>
    rw [hl] at hstep
    cases hstep
    dsimp only [learn, deliver]
    split
    · rfl
    · split <;> rfl

theorem Inv.good (h : w.Inv) : w.Good := by
  intro k hk
  have hsound := (h.sound k hk).owed
  unfold ResolveCall.Served
  split
  · trivial
  · next mac howed =>
    obtain ⟨hfut, hout⟩ := hsound mac howed
    rcases hout with hout | hout
    · rw [hout]
      exact hfut
    · rw [hout]

theorem setCall_of_ne (w : ArpWorld) {j k : Nat} (c : ResolveCall) (h : j ≠ k) :
    (w.setCall k c).calls j = w.calls j := by
  dsimp only [setCall]
  rw [update_of_ne h]

theorem setCall_self (w : ArpWorld) (k : Nat) (c : ResolveCall) : (w.setCall k c).calls k = c := by
  dsimp only [setCall]
  rw [update_self]

theorem Inv.returns (h : w.Inv) : w.Returns := by
  intro k hk mac howed hout
  obtain ⟨hfut, -⟩ := (h.sound k hk).owed mac howed
  have hexp : ¬ (w.calls k).expired = true := by
    intro hexp
    rw [(h.sound k hk).expired hexp] at hfut
    cases hfut
  refine ⟨w.setCall k { w.calls k with out := some (some mac) }, ?_, ?_⟩
  · simp only [step, finishCall]
    rw [if_pos ⟨hk, hout⟩, if_neg hexp, hfut]
  · rw [setCall_self]

variable {k : Nat}

section

variable (h : w.Inv)

include h

/-- **One call changes.** The other calls keep their slots, and the call itself loses its slot at
the latest when it does not wait any more. -/
theorem Inv.setCall (hk : k < w.next) {c : ResolveCall}
    {table : Dict Bytes Bytes} {pending : Dict Bytes Nat} (hip : c.ip = (w.calls k).ip)
    (hsound : c.Sound) (hout : c.out = none → (w.calls k).out = none) (hwf : pending.Wf)
    (hother : ∀ ip j, j ≠ k → (pending.get? ip = some j ↔ w.pending.get? ip = some j))
    (hslot : ∀ ip, pending.get? ip = some k → w.pending.get? ip = some k ∧ c.out = none ∧
      ∀ mac, c.fut ≠ .result mac)
    (hheld : c.WaitsFor c.ip → pending.get? c.ip = some k) :
    Inv { w.setCall k c with table, pending } := by
  refine ⟨hwf, fun j hj => ?_, fun j hj => ?_, fun ip j hget => ?_, fun i hi j hj => ?_⟩
  · by_cases hjk : j = k
    · subst hjk
      rw [setCall_self]
      exact hsound
    · rw [setCall_of_ne w c hjk]
      exact h.sound j hj
  · by_cases hjk : j = k
    · subst hjk
      rw [setCall_self]
      exact hheld
    · rw [setCall_of_ne w c hjk, hother _ j hjk]
      exact h.held j hj
  · by_cases hjk : j = k
    · subst hjk
      rw [setCall_self]
      obtain ⟨hget, hnone, hres⟩ := hslot ip hget
      exact ⟨hk, hip.trans (h.slot ip j hget).2.1, hnone, hres⟩
    · rw [setCall_of_ne w c hjk]
      exact h.slot ip j ((hother ip j hjk).mp hget)
  · have hfields : ∀ m, (((w.setCall k c).calls m).out = none → (w.calls m).out = none) ∧
        ((w.setCall k c).calls m).ip = (w.calls m).ip := by
      intro m
      by_cases hmk : m = k
      · subst hmk
        rw [setCall_self]
        exact ⟨hout, hip⟩
      · rw [setCall_of_ne w c hmk]
        exact ⟨id, rfl⟩
    intro hi' hj' heq
    rw [(hfields i).2, (hfields j).2] at heq
    exact h.one i hi j hj ((hfields i).1 hi') ((hfields j).1 hj') heq

/-- Popping the slot of an address that no call but `k` is out for. -/
theorem Inv.get?_erase (hk : k < w.next) (hout : (w.calls k).out = none)
    {ip : Bytes} {j : Nat} (hjk : j ≠ k) :
    Dict.get? (w.pending.erase (w.calls k).ip) ip = some j ↔ w.pending.get? ip = some j := by
  rw [Dict.get?_erase_eq_some h.wf, and_iff_right_iff_imp]
  intro hj hip
  obtain ⟨hlt, heq, hnone, -⟩ := h.slot _ j hj
  exact hjk (h.one j hlt k hk hnone hout (heq.trans hip))

/-! ### Learning -/

/-- Nobody waits without holding the slot. -/
theorem Inv.waitsFor_slot {j : Nat} (hj : j < w.next) {ip : Bytes}
    (hw : (w.calls j).WaitsFor ip) : w.pending.get? ip = some j := by
  have hheld := h.held j hj (hw.1.symm ▸ hw)
  rwa [hw.1] at hheld

omit h in
theorem promise_eq_self {ip mac : Bytes}
    (h : ∀ j < w.next, ¬ (w.calls j).WaitsFor ip) : w.promise ip mac = w := by
  unfold promise
  have hcalls : (fun j => if j < w.next ∧ (w.calls j).WaitsFor ip then
      { w.calls j with owed := some mac } else w.calls j) = w.calls := by
    funext j
    exact if_neg fun hj => h j hj.1 hj.2
  rw [hcalls]

omit h in
theorem promise_eq_setCall {ip mac : Bytes} (hk : k < w.next)
    (hw : (w.calls k).WaitsFor ip) (honly : ∀ j < w.next, (w.calls j).WaitsFor ip → j = k) :
    w.promise ip mac = w.setCall k { w.calls k with owed := some mac } := by
  unfold promise setCall
  congr 1
  funext j
  by_cases hjk : j = k
  · subst hjk
    rw [update_self, if_pos ⟨hk, hw⟩]
  · rw [update_of_ne hjk, if_neg fun hj => hjk (honly j hj.1 hj.2)]

theorem learn_inv (ip mac : Bytes) : (w.learn ip mac).Inv := by
  cases hget : w.pending.get? ip with
  | none =>
    have hself : w.promise ip mac = w := promise_eq_self fun j hj hw => by
      rw [h.waitsFor_slot hj hw] at hget
      cases hget
    dsimp only [learn]
    rw [hself, hget]
    exact ⟨h.wf, h.sound, h.held, h.slot, h.one⟩
  | some k =>
    obtain ⟨hk, hip, hout, hres⟩ := h.slot ip k hget
    have honly : ∀ j < w.next, (w.calls j).WaitsFor ip → j = k := fun j hj hw =>
      Option.some_inj.mp ((h.waitsFor_slot hj hw).symm.trans hget)
    have hpopped : ∀ ip', Dict.get? (w.pending.erase ip) ip' = some k → False := by
      intro ip' hget'
      obtain ⟨hne, hget'⟩ := (Dict.get?_erase_eq_some h.wf).mp hget'
      exact hne ((h.slot ip' k hget').2.1.symm.trans hip)
    have hother : ∀ ip' j, j ≠ k → (Dict.get? (w.pending.erase ip) ip' = some j ↔
        w.pending.get? ip' = some j) := fun ip' j hjk => hip ▸ h.get?_erase hk hout hjk
    by_cases hfut : (w.calls k).fut = .pending
    · -- the call that holds the slot waits, and nobody else does
      have hexp : (w.calls k).expired = false := by
        rw [Bool.eq_false_iff]
        intro hexp
        rw [(h.sound k hk).expired hexp] at hfut
        cases hfut
      have hlearn : w.learn ip mac =
          { w.setCall k { w.calls k with owed := some mac, fut := .result mac } with
            table := w.table.set ip mac, pending := w.pending.erase ip } := by
        dsimp only [learn]
        rw [promise_eq_setCall hk ⟨hip, hout, hfut, hexp⟩ honly]
        dsimp only [setCall]
        rw [hget]
        dsimp only [deliver, setCall]
        simp only [update_self, hfut, if_true, update_idem]
      rw [hlearn]
      refine h.setCall hk rfl ⟨fun he => ?_, fun mac' howed => ?_⟩ id (h.wf.erase ip) hother
        (fun ip' hget' => (hpopped ip' hget').elim) (fun hw => (by cases hw.2.2.1))
      · exact absurd (hexp.symm.trans he) Bool.false_ne_true
      · cases howed
        exact ⟨rfl, .inl hout⟩
    · have hself : w.promise ip mac = w := promise_eq_self fun j hj hw => by
        obtain rfl := honly j hj hw
        exact hfut hw.2.2.1
      have hlearn : w.learn ip mac =
          { w.setCall k (w.calls k) with
            table := w.table.set ip mac, pending := w.pending.erase ip } := by
        dsimp only [learn]
        rw [hself, hget]
        dsimp only [deliver, setCall]
        rw [if_neg hfut, update_eq_self]
      rw [hlearn]
      exact h.setCall hk rfl (h.sound k hk) id (h.wf.erase ip) hother
        (fun ip' hget' => (hpopped ip' hget').elim) (fun hw => absurd hw.2.2.1 hfut)

theorem finishCall_inv (hk : k < w.next) (hout : (w.calls k).out = none)
    (hfin : w.finishCall k (w.calls k) = some w') : w'.Inv := by
  have hs := h.sound k hk
  unfold finishCall at hfin
  split at hfin
  · next hexp =>
    cases hfin
    have hnone : ∀ mac, (w.calls k).owed ≠ some mac := by
      intro mac howed
      have hfut := (hs.owed mac howed).1
      rw [hs.expired hexp] at hfut
      cases hfut
    refine h.setCall hk rfl ⟨hs.expired, fun mac howed => absurd howed (hnone mac)⟩
      (fun hn => (by cases hn)) (h.wf.erase _) (fun ip j hjk => h.get?_erase hk hout hjk)
      (fun ip hget => ?_) (fun hw => (by cases hw.2.1))
    obtain ⟨hne, hget⟩ := (Dict.get?_erase_eq_some h.wf).mp hget
    exact absurd (h.slot ip k hget).2.1.symm hne
  · next hexp =>
    split at hfin <;> cases hfin
    next mac hfut =>
      refine h.setCall hk rfl ⟨hs.expired, fun mac' howed => ?_⟩ (fun hn => (by cases hn)) h.wf
        (fun _ _ _ => .rfl) (fun ip hget => ?_) (fun hw => (by cases hw.2.1))
      · have hfut' := (hs.owed mac' howed).1
        rw [hfut] at hfut'
        cases hfut'
        exact ⟨hfut, .inr rfl⟩
      · exact absurd hfut ((h.slot ip k hget).2.2.2 mac)

theorem timer_inv (hk : k < w.next) (hout : (w.calls k).out = none)
    (hfut : (w.calls k).fut = .pending) :
    (w.setCall k { w.calls k with expired := true, fut := .cancelled }).Inv := by
  refine h.setCall hk rfl ⟨fun _ => rfl, fun mac howed => ?_⟩ id h.wf (fun _ _ _ => .rfl)
    (fun ip hget => ⟨hget, hout, fun mac hm => (by cases hm)⟩) (fun hw => (by cases hw.2.2.1))
  have hres := ((h.sound k hk).owed mac howed).1
  rw [hfut] at hres
  cases hres

/-! ### Calling -/

/-- A new call is added, with the slot of its address when it waits. -/
theorem addCall_inv {c : ResolveCall} {pending : Dict Bytes Nat} (hsound : c.Sound)
    (hwf : pending.Wf)
    (hget : ∀ ip, pending.get? ip =
      if c.out = none ∧ ip = c.ip then some w.next else w.pending.get? ip)
    (hres : ∀ mac, c.fut ≠ .result mac)
    (halone : c.out = none → ∀ k < w.next, (w.calls k).ip = c.ip → (w.calls k).out ≠ none) :
    Inv { w.setCall w.next c with pending, next := w.next + 1 } := by
  have hcall : ∀ j < w.next, (w.setCall w.next c).calls j = w.calls j := fun j hj =>
    setCall_of_ne w c (Nat.ne_of_lt hj)
  have hnew : (w.setCall w.next c).calls w.next = c := setCall_self w w.next c
  -- a call that is out has another address than the new one
  have hkeep : ∀ j < w.next, (w.calls j).out = none →
      pending.get? (w.calls j).ip = w.pending.get? (w.calls j).ip := by
    intro j hj hout
    rw [hget, if_neg]
    rintro ⟨hnone, hip⟩
    exact halone hnone j hj hip hout
  refine ⟨hwf, fun j hj => ?_, fun j hj => ?_, fun ip j hj => ?_, fun i hi j hj => ?_⟩
  · rcases Nat.lt_succ_iff_lt_or_eq.mp hj with hj | rfl
    · rw [hcall j hj]
      exact h.sound j hj
    · rw [hnew]
      exact hsound
  · rcases Nat.lt_succ_iff_lt_or_eq.mp hj with hj | rfl
    · rw [hcall j hj]
      intro hw
      rw [hkeep j hj hw.2.1]
      exact h.held j hj hw
    · rw [hnew]
      intro hw
      rw [hget, if_pos ⟨hw.2.1, rfl⟩]
  · rw [hget] at hj
    split at hj
    · next hc =>
      cases hj
      rw [hnew]
      exact ⟨Nat.lt_succ_self _, hc.2.symm, hc.1, hres⟩
    · obtain ⟨hlt, hslot⟩ := h.slot ip j hj
      rw [hcall j hlt]
      exact ⟨Nat.lt_succ_of_lt hlt, hslot⟩
  · rcases Nat.lt_succ_iff_lt_or_eq.mp hi with hi | rfl
    · rcases Nat.lt_succ_iff_lt_or_eq.mp hj with hj | rfl
      · rw [hcall i hi, hcall j hj]
        exact h.one i hi j hj
      · rw [hcall i hi, hnew]
        exact fun hout hnone hip => absurd hout (halone hnone i hi hip)
    · rcases Nat.lt_succ_iff_lt_or_eq.mp hj with hj | rfl
      · rw [hcall j hj, hnew]
        exact fun hnone hout hip => absurd hout (halone hnone j hj hip.symm)
      · exact fun _ _ _ => rfl

theorem register_inv {ip : Bytes}
    (halone : ∀ k < w.next, (w.calls k).ip = ip → (w.calls k).out ≠ none) :
    (w.register ip).Inv := by
  refine addCall_inv h ⟨fun he => (by cases he), fun mac howed => (by cases howed)⟩
    (h.wf.set ip w.next) (fun ip' => ?_) (fun mac hm => (by cases hm)) (fun _ => halone)
  rw [Dict.get?_set]
  simp only [true_and]

theorem resolve_inv {ip : Bytes} (hapart : w.Apart (.resolve ip)) :
    (w.resolve ip).Inv := by
  unfold resolve
  cases hget : w.table.get? ip with
  | none =>
    refine register_inv h (hapart fun mac hmac => ?_)
    rw [hget] at hmac
    cases hmac
  | some mac =>
    dsimp only
    split
    · exact addCall_inv h ⟨fun he => (by cases he), fun mac howed => (by cases howed)⟩ h.wf
        (fun ip' => (if_neg fun hc => (by cases hc.1)).symm) (fun mac hm => (by cases hm))
        (fun hnone => (by cases hnone))
    · next hmac =>
      refine register_inv h (hapart fun mac' hmac' => ?_)
      rw [hget] at hmac'
      cases hmac'
      exact not_not.mp hmac

end

/-! ### Runs -/

theorem step_inv (w : ArpWorld) (e : ArpEvent) (w' : ArpWorld) (h : w.Inv) (hapart : w.Apart e)
    (hstep : step w e = some w') : w'.Inv := by
  cases e with
  | resolve ip =>
    cases hstep
    exact resolve_inv h hapart
  | frame raw =>
    simp only [step] at hstep
    cases hl : learned raw with
    | none =>
      rw [hl] at hstep
      cases hstep
      exact h
    | some p =>
      rw [hl] at hstep
      cases hstep
      exact learn_inv h p.1 p.2
  | timer k =>
    have hfut : (w.calls k).fut = .pending := hapart
    simp only [step] at hstep
    split at hstep <;> cases hstep
    next hc => exact timer_inv h hc.1 hc.2.1 hfut
  | resume k =>
    simp only [step] at hstep
    split at hstep
    · next hc => exact finishCall_inv h hc.1 hc.2 hstep
    · cases hstep

/-- A call that times out pops its own slot or none. -/
theorem step_unaffected (h : w.Inv) {e : ArpEvent} (hstep : step w e = some w') :
    Unaffected w e w' := by
  intro k hk ip j hjk hget
  rcases hk with rfl | ⟨rfl, hexp⟩
  · simp only [step] at hstep
    split at hstep <;> cases hstep
    exact hget
  · simp only [step] at hstep
    split at hstep
    · next hc =>
      unfold finishCall at hstep
      rw [if_pos hexp] at hstep
      cases hstep
      exact (h.get?_erase hc.1 hc.2 hjk).mpr hget
    · cases hstep

/-- **Address resolution.** In every run in which the calls keep apart, a call that waits when its
address is learned has returned the MAC or does so when its task runs, and a call
that times out takes no other call's slot. -/
theorem resolve_served (table : Dict Bytes Bytes) (evs : List ArpEvent)
    (h : Guarded step Apart (start table) evs) : Guarded step Serves (start table) evs :=
  Guarded.of_guarded_invariant Inv step_inv
    (fun w e hinv hapart w' hstep =>
      have hinv' := step_inv w e w' hinv hapart hstep
      ⟨hinv'.good, hinv'.returns, step_unaffected hinv hstep⟩)
    (start_inv table) h

/-- An ARP reply of 10.0.0.1. -/
def sampleReply : Bytes :=
  [2, 0, 0, 0, 0, 2, 2, 0, 0, 0, 0, 1, 0x08, 0x06] ++
    [0, 1, 8, 0, 6, 4, 0, 2, 2, 0, 0, 0, 0, 1, 10, 0, 0, 1, 2, 0, 0, 0, 0, 2, 10, 0, 0, 2]

/-- Two calls for two addresses: one is answered, the other times out. -/
def twoAddresses : List ArpEvent :=
  [.resolve [10, 0, 0, 1], .resolve [10, 0, 0, 9], .frame sampleReply, .timer 1, .resume 1,
    .resume 0]

/-- `Apart` for addresses that are not in the table. -/
def apartBy (w : ArpWorld) : ArpEvent → Bool
  | .resolve ip => decide (∀ k < w.next, (w.calls k).ip = ip → (w.calls k).out ≠ none)
  | .timer k => decide ((w.calls k).fut = .pending)
  | .frame _ | .resume _ => true

theorem apart_of_apartBy (w : ArpWorld) (e : ArpEvent) (h : w.apartBy e = true) : w.Apart e := by
  cases e with
  | resolve ip => exact fun _ => of_decide_eq_true h
  | frame raw => trivial
  | timer k =>
    have hfut : (w.calls k).fut = .pending := of_decide_eq_true h
    exact hfut
  | resume k => trivial

theorem resolve_served_twoAddresses : Guarded step Serves (start []) twoAddresses :=
  resolve_served [] twoAddresses (Guarded.of_guardedBy apart_of_apartBy (by decide +kernel))

/-- Two calls for one address: the reply reaches the second only. When the first times out it pops
the slot of the second, and the reply reaches neither. With one call, its timer may fire between
the reply and the moment its task runs, and the call returns `None`. -/
theorem overlapping_calls_not_served :
    (exec step (start []) [.resolve [10, 0, 0, 1], .resolve [10, 0, 0, 1],
        .frame sampleReply]).map (fun w => (w.calls 0, decide w.Good)) =
      some ({ ip := [10, 0, 0, 1], owed := some [2, 0, 0, 0, 0, 1] }, false) ∧
    (exec step (start []) [.resolve [10, 0, 0, 1], .resolve [10, 0, 0, 1], .timer 0, .resume 0,
        .frame sampleReply]).map (fun w => (w.calls 1, decide w.Good)) =
      some ({ ip := [10, 0, 0, 1], owed := some [2, 0, 0, 0, 0, 1] }, false) ∧
    (exec step (start []) [.resolve [10, 0, 0, 1], .frame sampleReply, .timer 0,
        .resume 0]).map (fun w => ((w.calls 0).out, decide w.Good)) =
      some (some none, false) := by
  refine ⟨?_, ?_, ?_⟩
  · decide +kernel
  · decide +kernel
  · decide +kernel

end ArpWorld

end PythonOS.Net
