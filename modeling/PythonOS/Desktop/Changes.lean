import PythonOS.Desktop.Commands
import PythonOS.Desktop.Invariant

/-!
# PythonOS.Desktop.Changes

What input can write.

`input` is a large function, but it writes to the sessions in four ways only: an
event is put into a queue, a window is moved, a value of a control changes, and a
window is closed. Everything else it changes are the desktop's references and
flags. A property of desktops that is kept by these writes (`Stable`) is kept by
every input event, and so the case analysis over the event is made here once. That
each write leaves an orderly desktop in order is part of the case analysis, so it
is a premise of the rules, and `Desktop.Ok` is the first instance.
-/

set_option linter.dupNamespace false

namespace PythonOS.Desktop

open Lib PyState

/-- The dictionary with every value replaced by its outline. -/
def mapValues {α β : Type} (f : α → β) (d : Dict String α) : Dict String β :=
  d.map fun p => (p.1, f p.2)

/-- Putting something with the same outline in a value's place. -/
theorem mapValues_set {α β : Type} (f : α → β) {d : Dict String α}
    {k : String} {a a' : α} (hget : Dict.get? d k = some a)
    (hf : f a' = f a) : mapValues f (Dict.set d k a') = mapValues f d := by
  induction d with
  | nil => cases hget
  | cons p d ih =>
    obtain ⟨k', b⟩ := p
    by_cases hk : k' = k
    · subst hk
      rw [Dict.get?_cons, if_pos rfl] at hget
      cases hget
      simp [Dict.set, mapValues, hf]
    · rw [Dict.get?_cons, if_neg hk] at hget
      have hrest := ih hget
      unfold mapValues at hrest ⊢
      simp [Dict.set, hk, hrest]

/-- A node without its value. -/
def Node.still (n : Node) : Node := { n with value := none }

/-- A view without its position and size and the values of its nodes. -/
def View.still (v : View) : View :=
  { v with toGeometry := { x := 0, y := 0, w := 0, h := 0 }, nodes := mapValues Node.still v.nodes }

/-- Kept by every change of the desktop's references and flags that keeps its order. -/
def RefStable (Inv : Desktop → Prop) : Prop :=
  ∀ ⦃d d' : Desktop⦄, Inv d → d'.store = d.store → d'.sessions = d.sessions →
    d'.nextSession = d.nextSession → (d.Ok → d'.Ok) → Inv d'

/-- Kept by everything that input, `sync` and window actions do. -/
structure Stable (Inv : Desktop → Prop) : Prop where
  refs : RefStable Inv
  emit : ∀ {d : Desktop} (s : SessionId) (body : EventBody), Inv d →
    Inv (d.setSession s ((d.store s).emit body))
  view : ∀ {d : Desktop} {s : SessionId} {vid : String} {v v' : View},
    Dict.get? (d.store s).views vid = some v → v'.still = v.still → (d.Ok → v'.Ok) → Inv d →
    Inv (d.setViews s (Dict.set (d.store s).views vid v'))
  close : ∀ (s : SessionId) (vid : String), Keeps Inv (closeView s vid)

section

variable {Inv : Desktop → Prop} {d d' : Desktop} {α β : Type}

/-! ### The stack -/

theorem keeps_dropStale {target : Desktop → Option α}
    {stale : Desktop → α → Except PyExc Bool} {drop : Desktop → Desktop}
    (hdrop : ∀ d, Inv d → Inv (drop d)) : Keeps Inv (dropStale target stale drop) := by
  refine keeps_get_bind fun d _ => ?_
  cases target d with
  | none => exact keeps_pure _
  | some t =>
    exact keeps_lift_bind fun _ _ => keeps_ite (fun _ => keeps_modify hdrop) fun _ => keeps_pure _

variable (hrefs : RefStable Inv)

include hrefs

/-- References that at most stop a resize. -/
theorem RefStable.same (hd : Inv d) (hstore : d'.store = d.store)
    (hsessions : d'.sessions = d.sessions) (hnext : d'.nextSession = d.nextSession)
    (hresize : d'.resize = d.resize ∨ d'.resize = none) : Inv d' :=
  hrefs hd hstore hsessions hnext fun hok => hok.congr (fun _ => by rw [hstore]) hresize

theorem RefStable.sync : Keeps Inv sync := by
  refine Keeps.bind (keeps_modify ?_) fun _ => Keeps.bind (keeps_dropStale ?_) fun _ =>
    Keeps.bind (keeps_dropStale ?_) fun _ => Keeps.bind (keeps_dropStale ?_) fun _ =>
    Keeps.bind (keeps_dropStale ?_) fun _ => Keeps.bind (keeps_dropStale ?_) fun _ =>
    keeps_modify ?_
  all_goals first
    | exact fun _ hd => hrefs.same hd rfl rfl rfl (.inl rfl)
    | exact fun _ hd => hrefs.same hd rfl rfl rfl (.inr rfl)

theorem RefStable.removeFromStack (p : SessionId × String) : Keeps Inv (removeFromStack p) :=
  keeps_get_bind fun _ hd => keeps_ite
    (fun _ => keeps_set (hrefs.same hd rfl rfl rfl (.inl rfl))) fun _ => keeps_throw _

theorem RefStable.windowAction (s : SessionId) (action : WindowOp) (vid : String) :
    Keeps Inv (windowAction s action vid) := by
  refine (hrefs.removeFromStack _).bind fun _ => Keeps.bind (keeps_modify fun d hd => ?_) fun _ =>
    keeps_modify fun _ hd => hrefs.same hd rfl rfl rfl (.inl rfl)
  cases action with
  | focusView => exact hrefs.same hd rfl rfl rfl (.inl rfl)
  | lowerView => exact hrefs.same hd rfl rfl rfl (.inl rfl)

end

namespace Stable

variable {Inv : Desktop → Prop} (h : Stable Inv)

include h

/-! ### Single writes -/

theorem setDirty : Keeps Inv setDirty :=
  keeps_modify fun _ hd => h.refs.same hd rfl rfl rfl (.inl rfl)

theorem emitTo (s : SessionId) (body : EventBody) : Keeps Inv (emitTo s body) :=
  keeps_modify fun _ hd => h.emit s body hd

variable {d : Desktop} (hd : Inv d) (t : Target) (x y : Int) (e : InputEvent)

include hd in
theorem updateView (s : SessionId) (vid : String) {f : View → View}
    (hf : ∀ v, d.viewOf s vid = .ok v → (f v).still = v.still ∧ (d.Ok → (f v).Ok)) :
    KeepsFrom Inv d (updateView s vid f) :=
  .get <| .lift hd fun v hv => h.view (Desktop.viewOf_eq_ok hv) (hf v hv).1 (hf v hv).2 hd

include hd in
/-- The node that is put back is one that was read from the same view. -/
theorem updateNode {f : Node → Except PyExc Node}
    (hf : ∀ n n', d.nodeOf t = .ok n → f n = .ok n' → n'.still = n.still ∧ (n.Ok → n'.Ok)) :
    KeepsFrom Inv d (updateNode t f) := by
  refine .get (.lift hd fun n hn => .lift hd fun n' hn' => ?_)
  obtain ⟨v, hv, hget⟩ := Desktop.nodeOf_eq_ok hn
  obtain ⟨hstill, hok⟩ := hf n n' hn hn'
  refine h.updateView hd _ _ fun u hu => ?_
  obtain rfl : v = u := by simpa [hv] using hu
  have hkind : n'.kind = n.kind := (congrArg Node.kind hstill :)
  refine ⟨?_, fun hd => (hd.view hv).setNode hget hkind (hok (hd.node hn))⟩
  unfold View.still
  rw [mapValues_set Node.still hget hstill]

/-! ### Controls -/

theorem changed : Keeps Inv (changed t) :=
  keeps_get_bind fun _ _ => keeps_lift_bind fun _ _ => keeps_lift_bind fun _ _ =>
    (h.emitTo _ _).bind fun _ => h.setDirty

theorem activate : Keeps Inv (activate t) := by
  refine fun d hd => KeepsFrom.get (.lift hd fun node hnode => ?_)
  split
  · next hkind =>
    refine (h.updateNode hd t fun n n' hn hn' => ?_).bind fun _ => h.changed t
    obtain rfl : node = n := by simpa [hnode] using hn
    refine ⟨?_, fun hok => (toggle_ok hok hkind hn').1⟩
    obtain ⟨v, -, hv⟩ := bind_eq_ok hn'
    cases hv
    rfl
  · exact h.emitTo _ _ d hd
  · exact hd

variable {t}

include hd in
theorem slider (hkind : d.KindAt t .slider) : KeepsFrom Inv d (slider t x) := by
  refine .get (.lift hd fun v _ => .lift hd fun i hi => ?_)
  refine .lift hd fun n _ => .lift hd fun old _ => ?_
  refine wp_ite.mpr ⟨fun _ => hd, fun _ => ?_⟩
  refine (h.updateNode hd t fun m n' hm hn' => ?_).bind fun _ => h.setDirty
  cases hn'
  refine ⟨rfl, fun hok => hok.setValue ?_⟩
  rw [hkind m hm]
  exact slider_value_ok (sliderValue_mem hi)

include hd in
theorem typeInto (hkind : d.KindAt t .entry) : KeepsFrom Inv d (typeInto t e) := by
  refine .get (.lift hd fun n hn => .lift hd fun v hv => ?_)
  refine .lift hd fun old hold => (h.updateNode hd t fun m n' hm hn' => ?_).bind fun _ =>
    keeps_ite (fun _ => h.changed t) fun _ => keeps_pure _
  cases hn'
  obtain rfl : n = m := by simpa [hn] using hm
  refine ⟨rfl, fun hok => hok.setValue ?_⟩
  obtain ⟨s, hs, hlabel⟩ : ∃ s, n.value = some (.str s) ∧ IsLabel s := by
    have hvalue := hok.value
    rw [hkind n hn] at hvalue
    exact hvalue
  rw [hs] at hv
  cases hv
  cases hold
  rw [hkind n hn]
  exact ⟨_, rfl, typed_isLabel hlabel e⟩

include hd in
theorem nudgeSlider (hkind : d.KindAt t .slider) (delta : Int) :
    KeepsFrom Inv d (nudgeSlider t delta) := by
  refine (h.updateNode hd t fun n n' hn hn' => ?_).bind fun _ => h.changed t
  obtain ⟨v, hv, hnew⟩ := bind_eq_ok hn'
  obtain ⟨w, hw, hnew⟩ := bind_eq_ok hnew
  cases hnew
  refine ⟨rfl, fun hok => hok.setValue ?_⟩
  obtain ⟨i, hi, -⟩ : ∃ i, n.value = some (.num i) ∧ i.inRange 0 100 = true := by
    have hvalue := hok.value
    rw [hkind n hn] at hvalue
    exact hvalue
  rw [hi] at hv
  cases hv
  cases hw
  rw [hkind n hn]
  exact ⟨_, rfl, PyNum.clamp_mem 0 100 (by decide) _⟩

omit h in
/-- The pressed slider is read and changed in the same state. -/
theorem onPressedSlider {act : Target → D Unit}
    (hact : ∀ d t, Inv d → d.KindAt t .slider → KeepsFrom Inv d (act t)) :
    Keeps Inv (onPressedSlider act) := by
  intro d hd
  simp only [Desktop.onPressedSlider, wp_bind, wp_get]
  cases d.pressed with
  | none => exact hd
  | some t =>
    refine KeepsFrom.lift hd fun n hn => wp_ite.mpr ⟨fun hkind => ?_, fun _ => hd⟩
    refine hact d t hd fun m hm => ?_
    obtain rfl : n = m := by simpa [hn] using hm
    exact hkind

theorem pressedSlider : Keeps Inv (Desktop.onPressedSlider fun t => Desktop.slider t x) :=
  onPressedSlider fun _ _ hd hkind => h.slider hd x hkind

/-! ### The pointer and the keyboard -/

theorem moveDragged : Keeps Inv (moveDragged x y) := by
  intro d hd
  simp only [Desktop.moveDragged, wp_bind, wp_get]
  cases d.drag with
  | none => exact hd
  | some w =>
    refine KeepsFrom.bind (h.updateView hd _ _ fun v hv => ⟨rfl, fun hok => ?_⟩) fun _ => h.setDirty
    exact dragTo_ok (hok.view hv) x y w.2.1 w.2.2

theorem moveResized : Keeps Inv (moveResized x y) := by
  intro d hd
  simp only [Desktop.moveResized, wp_bind, wp_get]
  cases hw : d.resize with
  | none => exact hd
  | some w =>
    refine KeepsFrom.bind (h.updateView hd _ _ fun v hv => ⟨rfl, fun hok => ?_⟩) fun _ => h.setDirty
    exact resizeTo_ok (hok.view hv) (hok.resize w v hw (Desktop.viewOf_eq_ok hv)) x y

theorem pointerMoved : Keeps Inv (pointerMoved x y) := by
  refine (h.moveDragged x y).bind fun _ => (h.moveResized x y).bind fun _ => ?_
  refine (h.pressedSlider x).bind fun _ => ?_
  refine keeps_get_bind fun d hd => keeps_lift_bind fun hit _ => ?_
  exact keeps_ite (fun _ => keeps_set (h.refs.same hd rfl rfl rfl (.inl rfl))) fun _ => keeps_pure _

theorem pressControl (t : Target) : Keeps Inv (pressControl x t) :=
  Keeps.bind (keeps_modify fun _ hd => h.refs.same hd rfl rfl rfl (.inl rfl)) fun _ =>
    h.pressedSlider x

theorem pressOn (hit : Hit) : Keeps Inv (pressOn x y hit) := by
  refine (h.refs.removeFromStack _).bind fun _ => ?_
  refine Keeps.bind (keeps_modify fun _ hd => h.refs.same hd rfl rfl rfl (.inl rfl)) fun _ => ?_
  refine keeps_get_bind fun d hd => keeps_lift_bind fun v hv => ?_
  refine keeps_ite (fun _ => h.close _ _) fun _ => ?_
  refine keeps_ite (fun _ => keeps_set (h.refs.same hd rfl rfl rfl (.inl rfl))) fun _ => ?_
  refine keeps_ite (fun hcorner => keeps_set (h.refs hd rfl rfl rfl fun hok =>
    ⟨hok.views, fun w u hw hu => ?_⟩)) fun _ => ?_
  · -- the window to be resized is the one just read
    obtain rfl : (hit.1, hit.2.1) = w := Option.some.inj hw
    obtain rfl : v = u := Option.some.inj ((Desktop.viewOf_eq_ok hv).symm.trans hu)
    exact hcorner.2.2
  · cases hit.target? with
    | none => exact keeps_pure _
    | some t => exact h.pressControl x t

theorem buttonDown : Keeps Inv (buttonDown x y) := by
  refine keeps_get_bind fun d _ => keeps_lift_bind fun hit _ => ?_
  refine Keeps.bind (keeps_modify fun _ hd => h.refs.same hd rfl rfl rfl (.inl rfl)) fun _ => ?_
  refine Keeps.bind ?_ fun _ => h.setDirty
  cases hit with
  | none => exact keeps_pure _
  | some hit => exact h.pressOn x y hit

theorem reportConfigured : Keeps Inv reportConfigured := by
  refine keeps_get_bind fun d _ => ?_
  cases (d.drag.map (·.1)).or d.resize with
  | none => exact keeps_pure _
  | some w => exact keeps_lift_bind fun _ _ => h.emitTo _ _

theorem activatePressed : Keeps Inv (activatePressed x y) := by
  refine keeps_get_bind fun d _ => ?_
  cases d.pressed with
  | none => exact keeps_pure _
  | some t =>
    exact keeps_lift_bind fun _ _ => keeps_ite (fun _ => h.activate t) fun _ => keeps_pure _

theorem buttonUp : Keeps Inv (buttonUp x y) := by
  refine h.reportConfigured.bind fun _ => ?_
  refine (onPressedSlider fun d t hd _ => h.changed t d hd).bind fun _ => ?_
  exact (h.activatePressed x y).bind fun _ =>
    keeps_modify fun _ hd => h.refs.same hd rfl rfl rfl (.inr rfl)

theorem keyOn (t : Target) : Keeps Inv (keyOn t e) := by
  refine fun d hd => KeepsFrom.get (.lift hd fun n hn => ?_)
  have hkindAt : ∀ {kind : Kind}, n.kind = kind → d.KindAt t kind := by
    intro kind hkind m hm
    obtain rfl : n = m := by simpa [hn] using hm
    exact hkind
  refine wp_ite.mpr ⟨fun hentry => h.typeInto hd e (hkindAt hentry), fun _ => wp_ite.mpr ⟨?_, ?_⟩⟩
  · exact fun hslider => h.nudgeSlider hd (hkindAt hslider.1) _
  · exact fun _ => keeps_ite (fun _ => h.activate t) (fun _ => keeps_pure _) d hd

theorem keyDown : Keeps Inv (keyDown e) := by
  refine keeps_get_bind fun d hd => keeps_lift_bind fun stack _ => ?_
  cases stack.getLast? with
  | none => exact keeps_pure _
  | some w =>
    refine keeps_lift_bind fun view _ => keeps_lift_bind fun buttons _ => ?_
    refine keeps_ite (fun _ => keeps_set (h.refs.same hd rfl rfl rfl (.inl rfl))) fun _ => ?_
    cases d.focus with
    | none => exact keeps_pure _
    | some t => exact keeps_ite (fun _ => h.keyOn e t) fun _ => keeps_pure _

/-- **Input keeps what its writes keep.** -/
theorem input : Keeps Inv (input e) := by
  refine keeps_ite (fun _ => keeps_modify fun _ hd =>
    h.refs.same hd rfl rfl rfl (.inl rfl)) fun _ => ?_
  refine keeps_ite (fun _ => h.pointerMoved _ _) fun _ => ?_
  refine keeps_ite (fun _ => h.buttonDown _ _) fun _ => ?_
  refine keeps_ite (fun _ => h.buttonUp _ _) fun _ => ?_
  exact keeps_ite (fun _ => h.keyDown e) fun _ => keeps_pure _

end Stable

/-- **One instance**: input leaves the desktop in order. -/
theorem ok_stable : Stable Desktop.Ok where
  refs _ _ hd _ _ _ hok := hok hd
  emit {d} s _ hd := hd.congr (d.sameViews_setSession s (Session.views_emit _ _)) (.inl rfl)
  view hv hstill hok hd :=
    hd.setView (Desktop.viewOf_of_get? hv) (hok hd) (congrArg View.state hstill :)
  close s vid d hd := by
    -- `sync` needs no more of the other windows than that they are in order
    simp only [closeView, emitTo, wp_bind, wp_modify]
    refine wp_imp (sync_wp fun s' => ?_) (fun _ _ hok => hok)
    rw [Desktop.sameViews_setSession _ s (Session.views_emit _ _) s', Desktop.setViews,
      Desktop.store_setSession]
    split
    · exact fun p hp => hd.views s p (Dict.mem_erase hp)
    · exact hd.views s'

/-! ### Commits -/

/-- A method call on a session is that method run on the session in the store. -/
theorem onSession_wp {α : Type} {s : SessionId} {m : PyState PyExc Session α} {d : Desktop}
    {Q : α → Desktop → Prop} {E : PyExc → Desktop → Prop}
    (h : wp m (fun a session => Q a (d.setSession s session))
      (fun e session => E e (d.setSession s session)) (d.store s)) : wp (onSession s m) Q E d := by
  unfold wp at h
  simp only [onSession, wp_bind, wp_get]
  split at h
  · next a session hm =>
    rw [hm]
    exact h
  · next e session hm =>
    rw [hm]
    exact h

/-- **A commit keeps what the assignment of its views keeps.** -/
theorem Stable.dispatchCommit {Inv : Desktop → Prop} (h : Stable Inv) {s : SessionId}
    {revision commands : Json} (hcommit : ∀ (d : Desktop) (draft : Draft), Inv d →
      (d.store s).prepare revision commands (some (d.store s).resources) = .ok draft →
      Inv (d.setSession s
        { d.store s with views := draft.1, revision := (d.store s).revision + 1 })) :
    Keeps Inv (dispatchCommit s revision commands) := by
  intro d hd
  simp only [Desktop.dispatchCommit, wp_bind, wp_get]
  refine onSession_wp ?_
  simp only [Session.commit, wp_bind, wp_get, wp_liftExcept, wp_set, wp_pure]
  cases hprepare : (d.store s).prepare revision commands (some (d.store s).resources) with
  | error e => exact h.refs.same hd (Function.update_eq_self s d.store) rfl rfl (.inl rfl)
  | ok draft =>
    have hnew := hcommit d draft hd hprepare
    refine wp_imp (h.refs.sync _ hnew) fun _ d' hd' => ?_
    exact Keeps.forM (fun a => h.refs.windowAction s a.1 a.2) draft.2 d' hd'

end PythonOS.Desktop
