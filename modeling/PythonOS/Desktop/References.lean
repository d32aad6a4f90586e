import PythonOS.Desktop.Requests

/-!
# PythonOS.Desktop.References

What the desktop refers to.

The stack lists windows, and hover, press, focus, drag and resize point at a
control or a window, while commits and the close button delete, hide and disable
what they point at. `Desktop.Sound` says that none of them is stale; `sync` makes
it so, and every path that deletes or disables something runs `sync` before the
references are used again.

Input changes positions and values only. The `Outline` of a view is the rest of
it; a function that keeps all outlines and the references (`Frame`) keeps
`Sound`, so only the few functions that set a reference need an argument of their
own.

With sound references every lookup of the input handler succeeds. What is left to
go wrong is the division in `slider`: `input_raises_iff`.
-/

set_option linter.dupNamespace false

namespace PythonOS.Desktop

open Lib List Option PyState

/-! ### Stale and sound references -/

namespace Desktop

/-- All windows of the connected sessions. -/
def windows (d : Desktop) : List (SessionId × String) :=
  d.sessions.flatMap fun s => (Dict.keys (d.store s).views).map fun v => (s, v)

/-- `v` is the window `w` of a connected session, and it is on the screen. -/
def Shown (d : Desktop) (w : SessionId × String) (v : View) : Prop :=
  w.1 ∈ d.sessions ∧ Dict.get? (d.store w.1).views w.2 = some v ∧ visible v = true

variable {w : SessionId × String}

variable {d : Desktop}

theorem Shown.connected {v : View} (h : d.Shown w v) :
    w.1 ∈ d.sessions := h.1

theorem Shown.get {v : View} (h : d.Shown w v) :
    Dict.get? (d.store w.1).views w.2 = some v := h.2.1

theorem Shown.visible {v : View} (h : d.Shown w v) :
    visible v = true := h.2.2

/-- The target is an enabled control of a window on the screen. -/
def Active (d : Desktop) (t : Target) : Prop :=
  ∃ v n, d.Shown (t.session, t.view) v ∧ Dict.get? v.nodes t.node = some n ∧
    n.kind.isControl = true ∧ n.enabled = some true

/-- The window is on the screen and in the normal state. -/
def Movable (d : Desktop) (w : SessionId × String) : Prop := ∃ v, d.Shown w v ∧ v.state = .normal

/-- The stack is a permutation of all windows, and nothing refers to a window or
control that is gone, hidden, disabled or not in a state allowing it. -/
structure Sound (d : Desktop) : Prop where
  stack : d.stack.Perm d.windows
  hover : ∀ t ∈ d.hover, d.Active t
  pressed : ∀ t ∈ d.pressed, d.Active t
  focus : ∀ t ∈ d.focus, d.Active t
  drag : ∀ w ∈ d.drag, d.Movable w.1
  resize : ∀ w ∈ d.resize, d.Movable w

end Desktop

/-! ### Outlines -/

/-- A view without title, position, size and the values of its nodes. -/
structure Outline where
  visible : Bool
  state : WindowState
  restore : Option Geometry
  nodes : Dict String (Kind × Option Bool)

def Node.outline (n : Node) : Kind × Option Bool := (n.kind, n.enabled)

def View.outline (v : View) : Outline :=
  { visible := v.visible, state := v.state, restore := v.restore,
    nodes := mapValues Node.outline v.nodes }

abbrev outlines (views : Views) : Dict String Outline := mapValues View.outline views

section

variable {α β : Type} (f : α → β)

@[simp] theorem keys_mapValues (d : Dict String α) : Dict.keys (mapValues f d) = Dict.keys d := by
  simp [Dict.keys, mapValues]

@[simp] theorem get?_mapValues (d : Dict String α) (k : String) :
    Dict.get? (mapValues f d) k = (Dict.get? d k).map f := by
  induction d with
  | nil => rfl
  | cons p d ih =>
    obtain ⟨k', a⟩ := p
    show Dict.get? ((k', f a) :: mapValues f d) k = _
    rw [Dict.get?_cons, Dict.get?_cons, ih]
    split <;> rfl

/-- A value of a dictionary with the same outlines. -/
theorem get?_of_mapValues_eq {d d' : Dict String α} (h : mapValues f d' = mapValues f d)
    {k : String} {a : α} (hget : Dict.get? d k = some a) :
    ∃ a', Dict.get? d' k = some a' ∧ f a' = f a := by
  have hmap : (Dict.get? d' k).map f = some (f a) := by
    rw [← get?_mapValues, h, get?_mapValues, hget]
    rfl
  exact map_eq_some_iff.mp hmap

end

/-- What depends on the outline only. -/
theorem visible_of_outline {v v' : View} (h : v'.outline = v.outline) : visible v' = visible v := by
  have hv : v'.visible = v.visible := congrArg Outline.visible h
  have hs : v'.state = v.state := congrArg Outline.state h
  unfold visible
  rw [hv, hs]

/-- No name stands twice, and only controls can be enabled. -/
structure TidyViews (views : Views) : Prop where
  wf : Dict.Wf views
  nodes : ∀ p ∈ views, Dict.Wf p.2.nodes
  controls : ∀ p ∈ views, ∀ q ∈ p.2.nodes, q.2.enabled.isSome = true → q.2.kind.isControl = true

theorem TidyViews.of_outlines {views views' : Views} (h : TidyViews views)
    (hout : outlines views' = outlines views) : TidyViews views' := by
  have hback : ∀ p' ∈ views', ∃ p ∈ views, mapValues Node.outline p'.2.nodes =
      mapValues Node.outline p.2.nodes := by
    intro p' hp'
    have hmem : (p'.1, p'.2.outline) ∈ outlines views := hout ▸ mem_map.mpr ⟨p', hp', rfl⟩
    obtain ⟨p, hp, heq⟩ := mem_map.mp hmem
    exact ⟨p, hp, (congrArg (fun q => q.2.nodes) heq).symm⟩
  refine ⟨?_, fun p' hp' => ?_, fun p' hp' q' hq' hen => ?_⟩
  · have hkeys := congrArg Dict.keys hout
    simp only [keys_mapValues] at hkeys
    unfold Dict.Wf
    rw [hkeys]
    exact h.wf
  · obtain ⟨p, hp, hnodes⟩ := hback p' hp'
    have hkeys := congrArg Dict.keys hnodes
    simp only [keys_mapValues] at hkeys
    unfold Dict.Wf
    rw [hkeys]
    exact h.nodes p hp
  · obtain ⟨p, hp, hnodes⟩ := hback p' hp'
    have hmem : (q'.1, q'.2.outline) ∈ mapValues Node.outline p.2.nodes :=
      hnodes ▸ mem_map.mpr ⟨q', hq', rfl⟩
    obtain ⟨q, hq, heq⟩ := mem_map.mp hmem
    have hkind : q.2.kind = q'.2.kind := congrArg (fun r => r.2.1) heq
    have henabled : q.2.enabled = q'.2.enabled := congrArg (fun r => r.2.2) heq
    exact hkind ▸ h.controls p hp q hq (henabled ▸ hen)

namespace Desktop

/-- The same sessions with the same windows, up to positions and values. -/
structure Scene (d d' : Desktop) : Prop where
  sessions : d'.sessions = d.sessions
  next : d'.nextSession = d.nextSession
  outlines : ∀ s, outlines (d'.store s).views = outlines (d.store s).views

/-- The same scene with the same references to it. -/
structure Frame (d d' : Desktop) : Prop extends Scene d d' where
  stack : d'.stack = d.stack
  hover : d'.hover = d.hover
  pressed : d'.pressed = d.pressed
  focus : d'.focus = d.focus
  drag : d'.drag = d.drag
  resize : d'.resize = d.resize

/-- The views of all sessions are tidy, and new sessions are new. -/
structure Tidy (d : Desktop) : Prop where
  views : ∀ s, TidyViews (d.store s).views
  nodup : d.sessions.Nodup
  fresh : ∀ s ∈ d.sessions, s < d.nextSession

/-- The views that are left have the state and the saved geometry they had. -/
def Saved (d d' : Desktop) : Prop :=
  ∀ s vid v', Dict.get? (d'.store s).views vid = some v' →
    ∃ v, Dict.get? (d.store s).views vid = some v ∧ v'.state = v.state ∧ v'.restore = v.restore

variable {d d' d'' : Desktop}

theorem Scene.refl (d : Desktop) : Scene d d := ⟨rfl, rfl, fun _ => rfl⟩

theorem Scene.trans (h : Scene d d') (h' : Scene d' d'') : Scene d d'' :=
  ⟨h'.sessions.trans h.sessions, h'.next.trans h.next, fun s =>
    (h'.outlines s).trans (h.outlines s)⟩

theorem Frame.refl (d : Desktop) : Frame d d := ⟨Scene.refl d, rfl, rfl, rfl, rfl, rfl, rfl⟩

theorem Frame.trans (h : Frame d d') (h' : Frame d' d'') : Frame d d'' :=
  ⟨h.toScene.trans h'.toScene, h'.stack.trans h.stack, h'.hover.trans h.hover,
    h'.pressed.trans h.pressed, h'.focus.trans h.focus, h'.drag.trans h.drag,
    h'.resize.trans h.resize⟩

theorem Scene.keys (h : Scene d d') (s : SessionId) :
    Dict.keys (d'.store s).views = Dict.keys (d.store s).views := by
  have hkeys := congrArg Dict.keys (h.outlines s)
  simpa only [keys_mapValues] using hkeys

theorem Scene.windows (h : Scene d d') : d'.windows = d.windows := by
  unfold Desktop.windows
  rw [h.sessions]
  congr 1
  funext s
  rw [h.keys]

variable {w : SessionId × String}

section

variable (h : Scene d d')

include h

theorem Scene.shown {v : View} (hv : d.Shown w v) :
    ∃ v', d'.Shown w v' ∧ v'.outline = v.outline := by
  obtain ⟨v', hget, hout⟩ := get?_of_mapValues_eq View.outline (h.outlines w.1) hv.get
  exact ⟨v', ⟨h.sessions ▸ hv.connected, hget, (visible_of_outline hout).trans hv.visible⟩, hout⟩

theorem Scene.active {t : Target} (ht : d.Active t) : d'.Active t := by
  obtain ⟨v, n, hv, hn, hkind, hen⟩ := ht
  obtain ⟨v', hv', hout⟩ := h.shown hv
  obtain ⟨n', hn', hno⟩ := get?_of_mapValues_eq Node.outline (congrArg Outline.nodes hout) hn
  have hkind' : n'.kind = n.kind := congrArg Prod.fst hno
  have hen' : n'.enabled = n.enabled := congrArg Prod.snd hno
  exact ⟨v', n', hv', hn', hkind' ▸ hkind, hen'.trans hen⟩

theorem Scene.movable (hw : d.Movable w) : d'.Movable w := by
  obtain ⟨v, hv, hstate⟩ := hw
  obtain ⟨v', hv', hout⟩ := h.shown hv
  exact ⟨v', hv', (congrArg Outline.state hout).trans hstate⟩

theorem Scene.tidy (ht : d.Tidy) : d'.Tidy where
  views s := (ht.views s).of_outlines (h.outlines s)
  nodup := h.sessions ▸ ht.nodup
  fresh := by
    rw [h.sessions, h.next]
    exact ht.fresh

theorem Scene.saved : Saved d d' := by
  intro s vid v' hv'
  obtain ⟨v, hget, hout⟩ := get?_of_mapValues_eq View.outline (h.outlines s).symm hv'
  exact ⟨v, hget, (congrArg Outline.state hout).symm, (congrArg Outline.restore hout).symm⟩

end

theorem Saved.trans (h : Saved d d') (h' : Saved d' d'') : Saved d d'' := by
  intro s vid v'' hv''
  obtain ⟨v', hv', hstate, hrestore⟩ := h' s vid v'' hv''
  obtain ⟨v, hv, hstate', hrestore'⟩ := h s vid v' hv'
  exact ⟨v, hv, hstate.trans hstate', hrestore.trans hrestore'⟩

/-- References into a scene stay sound as long as the scene stays. -/
theorem Sound.of_scene (h : Scene d d') (hstack : d'.stack.Perm d.windows)
    (hhover : ∀ t ∈ d'.hover, d.Active t) (hpressed : ∀ t ∈ d'.pressed, d.Active t)
    (hfocus : ∀ t ∈ d'.focus, d.Active t) (hdrag : ∀ w ∈ d'.drag, d.Movable w.1)
    (hresize : ∀ w ∈ d'.resize, d.Movable w) : d'.Sound where
  stack := h.windows ▸ hstack
  hover t ht := h.active (hhover t ht)
  pressed t ht := h.active (hpressed t ht)
  focus t ht := h.active (hfocus t ht)
  drag w hw := h.movable (hdrag w hw)
  resize w hw := h.movable (hresize w hw)

theorem Frame.sound (h : Frame d d') (hs : d.Sound) : d'.Sound := by
  refine Sound.of_scene h.toScene (h.stack ▸ hs.stack) ?_ ?_ ?_ ?_ ?_
  · exact h.hover ▸ hs.hover
  · exact h.pressed ▸ hs.pressed
  · exact h.focus ▸ hs.focus
  · exact h.drag ▸ hs.drag
  · exact h.resize ▸ hs.resize

/-- New views of one session with the outlines of the old ones. -/
theorem frame_setSession {s : SessionId} {session : Session}
    (h : outlines session.views = outlines (d.store s).views) :
      Frame d (d.setSession s session) := by
  refine ⟨⟨rfl, rfl, fun s' => ?_⟩, rfl, rfl, rfl, rfl, rfl, rfl⟩
  rw [store_setSession]
  split
  · next hs => rw [h, hs]
  · rfl

theorem Active.node {t : Target} (h : d.Active t) : ∃ n, d.nodeOf t = .ok n := by
  obtain ⟨v, n, hv, hn, -, -⟩ := h
  have hview : d.viewOf t.session t.view = .ok v := viewOf_of_get? hv.get
  refine ⟨n, ?_⟩
  simp only [nodeOf, hview, bind, Except.bind, hn]
  rfl

theorem Movable.view (h : d.Movable w) : ∃ v, d.viewOf w.1 w.2 = .ok v ∧ v.state = .normal := by
  obtain ⟨v, hv, hstate⟩ := h
  exact ⟨v, viewOf_of_get? hv.get, hstate⟩

end Desktop

/-! ### Functions that keep the frame

Each of them succeeds and leaves the references and all outlines as they are. -/

/-- Run from `d`, `m` returns and keeps the frame. -/
abbrev Framed (d : Desktop) {α : Type} (m : D α) : Prop :=
  returns m (fun _ => Desktop.Frame d) d

theorem wp_and {ε σ α : Type} {m : PyState ε σ α} {Q Q' : α → σ → Prop} {E E' : ε → σ → Prop}
    {s : σ} (h : wp m Q E s) (h' : wp m Q' E' s) :
    wp m (fun a s' => Q a s' ∧ Q' a s') (fun e s' => E e s' ∧ E' e s') s := by
  unfold wp at h h' ⊢
  split
  · next hm =>
    rw [hm] at h h'
    exact ⟨h, h'⟩
  · next hm =>
    rw [hm] at h h'
    exact ⟨h, h'⟩

variable {d : Desktop} {n : Node}

/-- A framed function followed by another one, with the desktop in order in between. -/
theorem Framed.bind {α β : Type} {m : D α} {f : α → D β} {Q : β → Desktop → Prop}
    {E : PyExc → Desktop → Prop} (hm : Framed d m) (hok : Keeps Desktop.Ok m) (h : d.Ok)
    (hf : ∀ a d', d.Frame d' → d'.Ok → wp (f a) Q E d') : wp (m >>= f) Q E d := by
  rw [wp_bind]
  refine wp_mono (wp_and hm (hok d h)) (fun a d' hd' => hf a d' hd'.1 hd'.2) ?_
  exact fun _ _ hfalse => hfalse.1.elim

theorem setDirty_framed (d : Desktop) : Framed d setDirty :=
  ⟨⟨rfl, rfl, fun _ => rfl⟩, rfl, rfl, rfl, rfl, rfl, rfl⟩

theorem emitTo_framed (d : Desktop) (s : SessionId) (body : EventBody) : Framed d (emitTo s body) :=
  Desktop.frame_setSession (congrArg outlines (Session.views_emit _ _))

theorem updateView_framed {s : SessionId} {vid : String} {v : View} (hv : d.viewOf s vid = .ok v)
    {f : View → View} (hf : (f v).outline = v.outline) :
    returns (updateView s vid f) (fun _ d' => d.Frame d' ∧ d'.viewOf s vid = .ok (f v)) d := by
  simp only [updateView, wp_bind, wp_get, wp_liftExcept, wp_set, hv]
  refine ⟨Desktop.frame_setSession (mapValues_set _ (Desktop.viewOf_eq_ok hv) hf), ?_⟩
  refine Desktop.viewOf_of_get? ?_
  rw [Desktop.setViews, Desktop.store_setSession, if_pos rfl]
  exact Dict.get?_set_self _ _ _

variable {t : Target}

theorem changed_framed {value : Json} (hn : d.nodeOf t = .ok n) (hv : n.value = some value) :
    Framed d (changed t) := by
  simp only [Framed, changed, wp_bind, wp_get, wp_liftExcept, hn, hv, lookup]
  refine wp_imp (emitTo_framed d _ _) (fun _ d' hd' => ?_)
  exact wp_imp (setDirty_framed d') (fun _ d'' hd'' => hd'.trans hd'')

section

variable {n' : Node} {f : Node → Except PyExc Node} (hn : d.nodeOf t = .ok n) (hf : f n = .ok n')
  (hout : n'.outline = n.outline)

include hn hf hout

theorem updateNode_framed :
    returns (updateNode t f) (fun _ d' => d.Frame d' ∧ d'.nodeOf t = .ok n') d := by
  obtain ⟨v, hv, hget⟩ := Desktop.nodeOf_eq_ok hn
  simp only [updateNode, wp_bind, wp_get, wp_liftExcept, hn, hf]
  have hview : ({ v with nodes := Dict.set v.nodes t.node n' } : View).outline = v.outline := by
    unfold View.outline
    rw [mapValues_set Node.outline hget hout]
  refine wp_imp (updateView_framed hv (f := fun v => { v with nodes := Dict.set v.nodes t.node n' })
    hview) (fun _ d' hd' => ⟨hd'.1, ?_⟩)
  simp only [Desktop.nodeOf, hd'.2, bind, Except.bind, Dict.get?_set_self]
  rfl

/-- A change of a node that is then reported. -/
theorem updateNode_changed_framed {value : Json} (hvalue : n'.value = some value) :
    Framed d (updateNode t f >>= fun _ => changed t) := by
  refine (wp_bind _ _).mpr ?_
  refine wp_imp (updateNode_framed hn hf hout) (fun _ d' hd' => ?_)
  exact wp_imp (changed_framed hd'.2 hvalue) (fun _ d'' hd'' => hd'.1.trans hd'')

end

section

variable (h : d.Ok) (hn : d.nodeOf t = .ok n)

include h hn

theorem activate_framed : Framed d (activate t) := by
  have hvalue := (h.node hn).value
  simp only [Framed, activate, wp_bind, wp_get, wp_liftExcept, hn]
  split
  · next hkind =>
    rw [hkind] at hvalue
    obtain ⟨b, hb⟩ := hvalue
    have htoggle : toggle n = .ok { n with value := some (.bool (!(Json.bool b).truthy)) } := by
      simp [toggle, hb, lookup, bind, Except.bind, pure, Except.pure]
    exact updateNode_changed_framed hn htoggle rfl rfl
  · exact emitTo_framed d _ _
  · exact .refl d

theorem typeInto_framed (hkind : n.kind = .entry) (e : InputEvent) : Framed d (typeInto t e) := by
  have hvalue := (h.node hn).value
  rw [hkind] at hvalue
  obtain ⟨old, hold, -⟩ := hvalue
  simp only [Framed, typeInto, wp_bind, wp_get, wp_liftExcept, hn, hold, lookup, asString]
  let f : Node → Except PyExc Node := fun n => .ok { n with value := some (.str (typed old e)) }
  have htyped : f n = .ok { n with value := some (.str (typed old e)) } := rfl
  refine wp_imp (updateNode_framed hn htyped rfl) (fun _ d' hd' => ?_)
  rw [wp_ite]
  refine ⟨fun _ => ?_, fun _ => hd'.1⟩
  exact wp_imp (changed_framed hd'.2 rfl) (fun _ d'' hd'' => hd'.1.trans hd'')

theorem nudgeSlider_framed (hkind : n.kind = .slider) (delta : Int) :
    Framed d (nudgeSlider t delta) := by
  have hvalue := (h.node hn).value
  rw [hkind] at hvalue
  obtain ⟨v, hv, -⟩ := hvalue
  have hnudge : (do
      let v ← nudge (← lookup "value" n.value) delta
      return { n with value := some (.num v) } : Except PyExc Node) =
      .ok { n with value := some (.num ((v.addInt delta).clamp 0 100)) } := by
    simp [hv, lookup, nudge, bind, Except.bind, pure, Except.pure]
  exact updateNode_changed_framed hn hnudge rfl rfl

theorem keyOn_framed (e : InputEvent) : Framed d (keyOn t e) := by
  simp only [Framed, keyOn, wp_bind, wp_get, wp_liftExcept, hn]
  rw [wp_ite]
  refine ⟨fun hentry => typeInto_framed h hn hentry e, fun _ => wp_ite.mpr ⟨?_, fun _ => ?_⟩⟩
  · exact fun hslider => nudgeSlider_framed h hn hslider.1 _
  · rw [wp_ite]
    exact ⟨fun _ => activate_framed h hn, fun _ => .refl d⟩

end

/-! ### What is under the pointer -/

theorem outline_dragTo (x y dx dy : Int) (v : View) :
    (dragTo x y dx dy v).outline = v.outline := rfl

theorem outline_resizeTo (x y : Int) (v : View) : (resizeTo x y v).outline = v.outline := rfl

theorem moveDragged_framed (h : d.Sound) (x y : Int) : Framed d (moveDragged x y) := by
  simp only [Framed, moveDragged, wp_bind, wp_get]
  cases hw : d.drag with
  | none => exact .refl d
  | some w =>
    obtain ⟨v, hv, -⟩ := (h.drag w hw).view
    rw [wp_bind]
    refine wp_imp (updateView_framed hv (outline_dragTo x y w.2.1 w.2.2 v)) (fun _ d' hd' => ?_)
    exact wp_imp (setDirty_framed d') (fun _ d'' hd'' => hd'.1.trans hd'')

theorem moveResized_framed (h : d.Sound) (x y : Int) : Framed d (moveResized x y) := by
  simp only [Framed, moveResized, wp_bind, wp_get]
  cases hw : d.resize with
  | none => exact .refl d
  | some w =>
    obtain ⟨v, hv, -⟩ := (h.resize w hw).view
    rw [wp_bind]
    refine wp_imp (updateView_framed hv (outline_resizeTo x y v)) (fun _ d' hd' => ?_)
    exact wp_imp (setDirty_framed d') (fun _ d'' hd'' => hd'.1.trans hd'')

namespace Desktop

variable {d : Desktop}

theorem mem_windows {w : SessionId × String} :
    w ∈ d.windows ↔ w.1 ∈ d.sessions ∧ ∃ v, Dict.get? (d.store w.1).views w.2 = some v := by
  have hkeys : ∀ s vid, vid ∈ Dict.keys (d.store s).views ↔
      ∃ v, Dict.get? (d.store s).views vid = some v := by
    intro s vid
    rw [← isSome_iff_exists, isSome_iff_ne_none, Ne, Dict.get?_eq_none_iff, not_not]
  rw [← hkeys]
  constructor
  · intro h
    obtain ⟨s, hs, hw⟩ := mem_flatMap.mp h
    obtain ⟨vid, hvid, rfl⟩ := mem_map.mp hw
    exact ⟨hs, hvid⟩
  · intro h
    exact mem_flatMap.mpr ⟨w.1, h.1, mem_map.mpr ⟨w.2, h.2, rfl⟩⟩

theorem Shown.mem_stack (h : d.Sound) {w : SessionId × String} {v : View} (hv : d.Shown w v) :
    w ∈ d.stack :=
  h.stack.mem_iff.mpr (mem_windows.mpr ⟨hv.connected, v, hv.get⟩)

/-- Filtering a list of windows that all exist. -/
theorem filterAuxM_visible {ws acc : List (SessionId × String)}
    (hws : ∀ w ∈ ws, w.1 ∈ d.sessions ∧ ∃ v, Dict.get? (d.store w.1).views w.2 = some v)
    (hacc : ∀ w ∈ acc, ∃ v, d.Shown w v) :
    ∃ out, ws.filterAuxM (fun p => do return visible (← d.viewOf p.1 p.2)) acc = .ok out ∧
      ∀ w ∈ out, ∃ v, d.Shown w v := by
  induction ws generalizing acc with
  | nil => exact ⟨acc, rfl, hacc⟩
  | cons w ws ih =>
    obtain ⟨hin, v, hv⟩ := hws w mem_cons_self
    have hrest : ∀ w' ∈ ws, w'.1 ∈ d.sessions ∧ ∃ v, Dict.get? (d.store w'.1).views w'.2 = some v :=
      fun w' hw' => hws w' (mem_cons_of_mem w hw')
    have hview : d.viewOf w.1 w.2 = .ok v := viewOf_of_get? hv
    simp only [filterAuxM, hview, bind, Except.bind, pure, Except.pure]
    refine ih hrest ?_
    cases hvis : visible v with
    | false => exact hacc
    | true =>
      intro w' hw'
      rcases mem_cons.mp hw' with rfl | hw'
      · exact ⟨v, hin, hv, hvis⟩
      · exact hacc w' hw'

/-- `visible_stack` succeeds, and what it returns is on the screen. -/
theorem Sound.visibleStack (h : d.Sound) :
    ∃ ws, d.visibleStack = .ok ws ∧ ∀ w ∈ ws, ∃ v, d.Shown w v := by
  have hnil : ∀ w ∈ ([] : List (SessionId × String)), ∃ v, d.Shown w v :=
    fun w hw => absurd hw not_mem_nil
  obtain ⟨out, hout, hshown⟩ := filterAuxM_visible (fun w hw =>
    mem_windows.mp (h.stack.mem_iff.mp hw)) hnil
  refine ⟨out.reverse, ?_, fun w hw => hshown w (mem_reverse.mp hw)⟩
  unfold Desktop.visibleStack filterM
  rw [hout]
  rfl

end Desktop

/-- The control found under the pointer is an enabled control of the view. -/
theorem controlAt_eq {v : View} (hnodes : ∀ p ∈ v.nodes, p.2.Ok) (x y : Int) :
    ∃ o, controlAt x y (layout v) = .ok o ∧ ∀ nid ∈ o, ∃ n, (nid, n) ∈ v.nodes ∧
      n.kind.isControl = true ∧ n.enabled = some true := by
  have hfrom : ∀ (nodes : Dict String Node) (top : Int), (∀ p ∈ nodes, p.2.Ok) →
      ∃ o, controlAt x y (layoutFrom v top nodes) = .ok o ∧ ∀ nid ∈ o, ∃ n, (nid, n) ∈ nodes ∧
        n.kind.isControl = true ∧ n.enabled = some true := by
    intro nodes
    induction nodes with
    | nil => exact fun _ _ => ⟨none, rfl, fun _ h => by cases h⟩
    | cons p nodes ih =>
      intro top hok
      obtain ⟨nid, n⟩ := p
      obtain ⟨o, ho, hmem⟩ := ih (top + (if n.kind.isVisual then 172 else 26) + 12)
        fun q hq => hok q (mem_cons_of_mem _ hq)
      have hlater : ∀ nid' ∈ o, ∃ m, (nid', m) ∈ (nid, n) :: nodes ∧
          m.kind.isControl = true ∧ m.enabled = some true := by
        intro nid' hnid'
        obtain ⟨m, hm, hctl⟩ := hmem nid' hnid'
        exact ⟨m, mem_cons_of_mem _ hm, hctl⟩
      simp only [layoutFrom, controlAt]
      generalize (if n.kind.isVisual = true then (172 : Int) else 26) = tall at ho ⊢
      split
      · next hctl =>
        have hn : n.Ok := hok (nid, n) mem_cons_self
        obtain ⟨b, hb⟩ := isSome_iff_exists.mp (hn.enabled hctl)
        simp only [hb, lookup, bind, Except.bind]
        split
        · next hinside =>
          refine ⟨some nid, rfl, fun nid' hnid' => ?_⟩
          cases hnid'
          rw [Bool.and_eq_true] at hinside
          exact ⟨n, mem_cons_self, hctl, hinside.1 ▸ hb⟩
        · exact ⟨o, ho, hlater⟩
      · exact ⟨o, ho, hlater⟩
  exact hfrom v.nodes _ hnodes

namespace Desktop

variable {d : Desktop}

/-- The window of a hit is on the screen at that point, and its control is active. -/
def HitOk (d : Desktop) (x y : Int) (h : Hit) : Prop :=
  (∃ v, d.Shown (h.1, h.2.1) v ∧ inside x y v.toGeometry = true) ∧
    ∀ nid ∈ h.2.2, d.Active ⟨h.1, h.2.1, nid⟩

theorem hitIn_eq (hok : d.Ok) (ht : d.Tidy) (x y : Int) {ws : List (SessionId × String)}
    (hws : ∀ w ∈ ws, ∃ v, d.Shown w v) :
    ∃ o, d.hitIn x y ws = .ok o ∧ ∀ h ∈ o, d.HitOk x y h := by
  induction ws with
  | nil => exact ⟨none, rfl, fun _ h => by cases h⟩
  | cons w ws ih =>
    obtain ⟨s, vid⟩ := w
    obtain ⟨v, hv⟩ := hws (s, vid) mem_cons_self
    obtain ⟨o, ho, hmem⟩ := ih fun w hw => hws w (mem_cons_of_mem _ hw)
    have hview : d.viewOf s vid = .ok v := viewOf_of_get? hv.get
    obtain ⟨nid?, hctl, hactive⟩ := controlAt_eq (hok.view hview).nodes x y
    simp only [hitIn, hview, bind, Except.bind]
    split
    · next hinside =>
      refine ⟨some (s, vid, nid?), by rw [hctl]; rfl, fun h hh => ?_⟩
      cases hh
      refine ⟨⟨v, hv, hinside⟩, fun nid hnid => ?_⟩
      obtain ⟨n, hn, hkind, hen⟩ := hactive nid hnid
      have hwf := (ht.views s).nodes (vid, v) (Dict.mem_of_get? hv.get)
      exact ⟨v, n, hv, Dict.get?_of_mem hwf hn, hkind, hen⟩
    · exact ⟨o, ho, hmem⟩

/-- `hit` succeeds, and what it finds is there. -/
theorem Sound.hit (hok : d.Ok) (ht : d.Tidy) (hs : d.Sound) (x y : Int) :
    ∃ o, d.hit x y = .ok o ∧ ∀ h ∈ o, d.HitOk x y h := by
  obtain ⟨ws, hws, hshown⟩ := hs.visibleStack
  have hshown : ∀ w ∈ ws.reverse, ∃ v, d.Shown w v :=
    fun w hw => hshown w (mem_reverse.mp hw)
  obtain ⟨o, ho, hmem⟩ := hitIn_eq hok ht x y hshown
  refine ⟨o, ?_, hmem⟩
  unfold Desktop.hit
  rw [hws]
  exact ho

theorem HitOk.target {x y : Int} {h : Hit} (hh : d.HitOk x y h) {t : Target}
    (ht : t ∈ h.target?) : d.Active t := by
  obtain ⟨s, vid, nid?⟩ := h
  cases nid? with
  | none => cases ht
  | some nid =>
    simp only [Hit.target?, mem_def] at ht
    split at ht <;> cases ht
    exact hh.2 nid rfl

end Desktop

end PythonOS.Desktop
