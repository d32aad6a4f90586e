import PythonOS.Desktop.Restore
import PythonOS.Desktop.Rules

/-!
# PythonOS.Desktop.Isolation

What one session can do to another: nothing.

All sessions share one desktop, one set of players and one renderer. `Others s`
says that the sessions other than `s` are as they were: their views, revisions,
queues and resources. Every function that serves a request of `s` writes to the
session `s` and to what is nobody's; only a tick, which `sync` and the debug
operations run, looks after all sessions.

The reply of `inspect` is about the session's own views. What it says about their
place on the desktop depends on the other sessions only through the order of its
own windows, its own focus, and whether its own window is on top (`SameFor`).
-/

set_option linter.dupNamespace false

namespace PythonOS.Desktop

open Lib Option PyState

/-- The sessions other than `s` are as they were. -/
structure Service.Others (s : SessionId) (σ σ' : Service) : Prop where
  store : ∀ s', s' ≠ s → σ'.desktop.store s' = σ.desktop.store s'
  assets : ∀ s', s' ≠ s → σ'.assets s' = σ.assets s'

namespace Service.Others

variable {s : SessionId} {σ0 σ : Service}

theorem refl (s : SessionId) (σ : Service) : Others s σ σ := ⟨fun _ _ => rfl, fun _ _ => rfl⟩

/-- A change of the session `s`. -/
theorem setSession (h : Others s σ0 σ) (session : Session) :
    Others s σ0 { σ with desktop := σ.desktop.setSession s session } := by
  refine ⟨fun s' hs' => ?_, h.assets⟩
  rw [Desktop.store_setSession, if_neg hs']
  exact h.store s' hs'

theorem setAssets (h : Others s σ0 σ) (as : Dict String Asset) :
    Others s σ0 (σ.setAssets s as) := by
  refine ⟨(h.setSession _).store, fun s' hs' => ?_⟩
  unfold Service.setAssets
  dsimp only
  rw [Function.update_of_ne hs']
  exact h.assets s' hs'

/-- Media functions for `s` leave the others alone. -/
theorem playerStable (s : SessionId) (σ0 : Service) : PlayerStable (· = s) (Others s σ0) where
  call _ _ h := ⟨h.store, h.assets⟩
  assets σ s' as hs h := by
    cases hs
    exact h.setAssets as
  emit σ s' body hs h := by
    cases hs
    exact h.setSession _
  globals _ _ _ h := ⟨h.store, h.assets⟩

end Service.Others

/-! ### Requests -/

variable {s : SessionId} {σ0 : Service}

/-- A function of the desktop that leaves the stores of the others alone. -/
theorem others_onDesktop {α : Type} {m : D α}
    (hm : ∀ st : SessionId → Session, Keeps (fun d => ∀ s', s' ≠ s → d.store s' = st s') m) :
    Keeps (Service.Others s σ0) (onDesktop m) := by
  refine keeps_onDesktop fun σ d h => ?_
  refine wp_mono (hm σ0.desktop.store d h.store) ?_ ?_
  · exact fun _ d' hd' => ⟨hd', h.assets⟩
  · exact fun _ d' hd' => ⟨hd', h.assets⟩

theorem dispatchCommit_others (revision commands : Json) (st : SessionId → Session) :
    Keeps (fun d => ∀ s', s' ≠ s → d.store s' = st s') (dispatchCommit s revision commands) := by
  intro d h
  have hcommitted : ∀ s', s' ≠ s → committed d s revision commands s' = st s' := by
    intro s' hs'
    unfold committed
    cases (d.store s).prepare revision commands (some (d.store s).resources) with
    | error e =>
      dsimp only
      rw [Desktop.store_setSession, if_neg hs']
      exact h s' hs'
    | ok draft =>
      dsimp only
      rw [Desktop.store_setSession, if_neg hs']
      exact h s' hs'
  refine wp_mono (dispatchCommit_store d s revision commands) ?_ ?_
  · exact fun _ d' hd' s' hs' => hd' ▸ hcommitted s' hs'
  · exact fun _ d' hd' s' hs' => hd' ▸ hcommitted s' hs'

theorem setDirty_others (st : SessionId → Session) :
    Keeps (fun d => ∀ s', s' ≠ s → d.store s' = st s') setDirty := keeps_modify fun _ h => h

theorem revisionReply_others : Keeps (Service.Others s σ0) (revisionReply s) :=
  keeps_get_bind fun _ _ => keeps_pure _

theorem commitRequest_others (p : Fields) : Keeps (Service.Others s σ0) (commitRequest s p) :=
  keeps_get_bind fun _ _ => keeps_liftPy_bind fun _ _ =>
    (others_onDesktop (dispatchCommit_others _ _)).bind fun _ => revisionReply_others

theorem pollRequest_others : Keeps (Service.Others s σ0) (pollRequest s) :=
  keeps_get_bind fun _ h => Keeps.bind (keeps_set (h.setSession _)) fun _ => keeps_pure _

theorem resourceRequest_others [Codecs] (op : String) (p : Fields) :
    Keeps (Service.Others s σ0) (resourceRequest s op p) :=
  keeps_get_bind fun _ _ => keeps_liftPy_bind fun _ _ =>
    ((Service.Others.playerStable s σ0).mediaRequest rfl op p).bind fun _ =>
      (others_onDesktop setDirty_others).bind fun _ => keeps_pure _

/-- **A request** of `s` that is no tick leaves the others alone. -/
theorem dispatch_others [Codecs] [FloatText] {op : String}
    (hsync : ServiceOp.ofString op ≠ .sync) (hdebug : ServiceOp.ofString op ≠ .debug)
    (p : Fields) : Keeps (Service.Others s σ0) (dispatch s op p) := by
  unfold dispatch
  cases hop : ServiceOp.ofString op with
  | commit => exact commitRequest_others p
  | poll => exact pollRequest_others
  | inspect => exact keeps_get_bind fun _ _ => keeps_liftPy _
  | sync => exact absurd hop hsync
  | resource => exact resourceRequest_others op p
  | debug => exact absurd hop hdebug
  | unknown => exact keeps_throw _

/-- A surface that is given back belongs to no session's record. -/
theorem releaseSession_others : Keeps (Service.Others s σ0) (releaseSession s) := by
  refine keeps_get_bind fun σ _ => Keeps.forM (fun key => keeps_onlyIf fun _ => ?_) _
  refine keeps_get_bind fun σ _ => keeps_liftPy_bind fun entry _ => ?_
  refine Keeps.bind ((Service.Others.playerStable s σ0).calls _) fun _ => ?_
  exact keeps_modify fun _ h => ⟨h.store, h.assets⟩

/-- **The end of a connection** leaves the others alone. -/
theorem cleanup_others : Keeps (Service.Others s σ0) (cleanup s) := by
  have hsync : ∀ st : SessionId → Session,
      Keeps (fun d => ∀ s', s' ≠ s → d.store s' = st s') sync :=
    fun _ => RefStable.sync fun _ _ h hstore _ _ _ s' hs' => hstore ▸ h s' hs'
  refine Keeps.bind (keeps_modify fun _ h => ⟨h.store, h.assets⟩) fun _ => ?_
  refine (others_onDesktop hsync).bind fun _ => keeps_get_bind fun σ _ => ?_
  refine Keeps.bind (Keeps.forM (fun rid => ?_) _) fun _ => releaseSession_others
  exact (Service.Others.playerStable s σ0).releaseResource rfl rid

/-! ### Inspection -/

namespace Service

/-- For the session `s` the two services look the same: its own views and revision, the order of
its windows, its focus, and its window if that is on top. -/
structure SameFor (s : SessionId) (σ σ' : Service) : Prop where
  views : (σ'.desktop.store s).views = (σ.desktop.store s).views
  revision : (σ'.desktop.store s).revision = (σ.desktop.store s).revision
  stacking : σ'.desktop.stack.filter (·.1 == s) = σ.desktop.stack.filter (·.1 == s)
  focus : σ'.desktop.focus.filter (·.session == s) = σ.desktop.focus.filter (·.session == s)
  top : ∀ shown shown', σ.desktop.visibleStack = .ok shown → σ'.desktop.visibleStack = .ok shown' →
    shown'.getLast?.filter (·.1 == s) = shown.getLast?.filter (·.1 == s)

end Service

/-- Whether something of one's own is meant can be told from what is one's own. -/
theorem beq_of_filter_eq {α : Type} [BEq α] [LawfulBEq α] {p : α → Bool} {o o' : Option α} {a : α}
    (h : o'.filter p = o.filter p) (ha : p a = true) : (o' == some a) = (o == some a) := by
  have hiff : ∀ o : Option α, o = some a ↔ o.filter p = some a := by
    intro o
    rw [filter_eq_some_iff]
    exact ⟨fun ho => ⟨ho, ha⟩, fun ho => ho.1⟩
  rw [Bool.eq_iff_iff, beq_iff_eq, beq_iff_eq, hiff o', hiff o, h]

/-- What `inspect` says about a session does not depend on the others. -/
theorem describe_sameFor {σ σ' : Service} (h : σ.SameFor s σ') {r r' : Json}
    (hr : describe σ.desktop s = .ok r) (hr' : describe σ'.desktop s = .ok r') : r = r' := by
  obtain ⟨shown, hshown, hreply⟩ := bind_eq_ok hr
  obtain ⟨shown', hshown', hreply'⟩ := bind_eq_ok hr'
  have htop := h.top shown shown' hshown hshown'
  have hnode : ∀ vid nid node g, describeNode σ'.desktop ⟨s, vid, nid⟩ node g =
      describeNode σ.desktop ⟨s, vid, nid⟩ node g := by
    intro vid nid node g
    unfold describeNode
    rw [beq_of_filter_eq h.focus (beq_self_eq_true s)]
  have hview : ∀ vid v, describeView σ'.desktop shown'.getLast? s vid v =
      describeView σ.desktop shown.getLast? s vid v := by
    intro vid v
    unfold describeView
    simp only [hnode]
    rw [beq_of_filter_eq (a := (s, vid)) htop (beq_self_eq_true s)]
  cases hreply
  cases hreply'
  simp only [h.views, h.revision, h.stacking, hview]

/-! ### Isolation -/

/-- What a session itself brings about, apart from ticks. -/
def ServiceEvent.OfSession (s : SessionId) : ServiceEvent → Prop
  | .request s' op _ =>
    s' = s ∧ ServiceOp.ofString op ≠ .sync ∧ ServiceOp.ofString op ≠ .debug
  | .drop s' => s' = s
  | .cleanup s' => s' = s
  | .connect => False
  | .tick => False

/-- **Sessions are isolated.** In any state, whatever a session asks for (other than to tick) and
however its connection ends, the views, revisions, queues and resources of every other session
stay as they are. And `inspect` tells a session about itself only: in two states that agree on
the session's own views and on their standing, the replies are the same. -/
theorem sessions_isolated [Codecs] [FloatText] (s : SessionId) :
    (∀ (σ σ' : Service) (e : ServiceEvent), e.OfSession s → σ.next e = some σ' → σ.Others s σ') ∧
    ∀ (σ σ' : Service) (p : Fields) (r r' : Json), σ.SameFor s σ' →
      ((dispatch s "inspect" p).run.run σ).1 = .ok r →
      ((dispatch s "inspect" p).run.run σ').1 = .ok r' → r = r' := by
  refine ⟨fun σ σ' e he hnext => ?_, fun σ σ' p r r' h hr hr' => ?_⟩
  · cases e with
    | connect => exact he.elim
    | tick => exact he.elim
    | request s' op p =>
      obtain ⟨rfl, hsync, hdebug⟩ := he
      simp only [Service.next, ite_none_right_eq_some, Option.some.injEq] at hnext
      rw [← hnext.2]
      exact (dispatch_others hsync hdebug p).run (Service.Others.refl s' σ)
    | drop s' =>
      simp only [Service.next, ite_none_right_eq_some, Option.some.injEq] at hnext
      rw [← hnext.2]
      exact ⟨fun _ _ => rfl, fun _ _ => rfl⟩
    | cleanup s' =>
      cases he
      simp only [Service.next, ite_none_right_eq_some, Option.some.injEq] at hnext
      rw [← hnext.2]
      exact cleanup_others.run (Service.Others.refl s σ)
  · have hinspect : ∀ (τ : Service) (v : Json), ((dispatch s "inspect" p).run.run τ).1 = .ok v →
        describe τ.desktop s = .ok v := by
      intro τ v hv
      have hreply : (dispatch s "inspect" p).run.run τ =
          (liftPy (describe τ.desktop s)).run.run τ := rfl
      rw [hreply] at hv
      cases hd : describe τ.desktop s with
      | error e =>
        rw [hd] at hv
        cases hv
      | ok a =>
        rw [hd] at hv
        cases hv
        rfl
    exact describe_sameFor h (hinspect σ r hr) (hinspect σ' r' hr')

end PythonOS.Desktop
