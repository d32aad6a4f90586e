import PythonOS.Desktop.References

/-!
# PythonOS.Desktop.Steady

Whole runs of the desktop keep its references sound.

* `sync_sound`: whatever a commit or the close button left behind, `sync` brings
  the stack and the five references back in order;
* `input_wp`: one input event, from sound references, keeps them sound and
  raises nothing but the overflow of a slider's division;
* `references_sound`: after any run of requests the references are sound, and the
  next event raises exactly when that division overflows.
-/

set_option linter.dupNamespace false

namespace PythonOS.Desktop

open Lib List PyState

/-! ### `sync` -/

namespace Desktop

variable {d d' : Desktop}

theorem Tidy.windows_nodup (h : d.Tidy) : d.windows.Nodup := by
  refine nodup_flatMap.mpr ⟨fun s _ => ?_, ?_⟩
  · exact (h.views s).wf.map fun _ _ heq => (Prod.mk.inj heq).2
  · refine h.nodup.imp ?_
    intro s s' hne w hw hw'
    obtain ⟨_, -, rfl⟩ := mem_map.mp hw
    obtain ⟨_, -, heq⟩ := mem_map.mp hw'
    exact hne (Prod.mk.inj heq).1.symm

/-- Appending what is missing keeps a list without duplicates. -/
theorem nodup_foldl_append {α : Type} [BEq α] [LawfulBEq α] (all : List α) {kept : List α}
    (h : kept.Nodup) :
    (all.foldl (fun stack p => if stack.contains p then stack else stack ++ [p]) kept).Nodup := by
  induction all generalizing kept with
  | nil => exact h
  | cons a all ih =>
    rw [foldl_cons]
    split
    · exact ih h
    · next ha =>
      refine ih (nodup_append.mpr ⟨h, nodup_singleton a, fun b hb c hc => ?_⟩)
      rw [mem_singleton.mp hc]
      exact fun heq => ha (contains_iff_mem.mpr (heq ▸ hb))

theorem syncedStack_perm (h : d.Tidy) (hn : d.stack.Nodup) : d.syncedStack.Perm d.windows := by
  have hkept : (d.stack.filter fun p =>
      d.sessions.contains p.1 && Dict.contains (d.store p.1).views p.2).Nodup := hn.filter _
  refine (perm_ext_iff_of_nodup (nodup_foldl_append d.windows hkept) h.windows_nodup).mpr
    fun w => mem_foldl_append.trans ?_
  constructor
  · rintro (hw | hw)
    · have hcond := (mem_filter.mp hw).2
      rw [Bool.and_eq_true] at hcond
      exact mem_windows.mpr ⟨contains_iff_mem.mp hcond.1, Option.isSome_iff_exists.mp hcond.2⟩
    · exact hw
  · exact .inr

theorem listed_of_perm (h : d.stack.Perm d.windows) : Listed d := by
  intro w hw
  obtain ⟨-, v, hv⟩ := mem_windows.mp (h.mem_iff.mp hw)
  exact ⟨v, viewOf_of_get? hv⟩

theorem active_of_not_stale (ht : d.Tidy) (hstack : d.stack.Perm d.windows) {t : Target}
    (h : d.controlStale t = .ok false) : d.Active t := by
  unfold controlStale at h
  split_ifs at h with hmem
  · obtain ⟨hin, v, hv⟩ := mem_windows.mp (hstack.mem_iff.mp hmem)
    have hview : d.viewOf t.session t.view = .ok v := viewOf_of_get? hv
    simp only [hview, bind, Except.bind] at h
    split_ifs at h with hvis
    · cases h
    · split at h
      · cases h
      · next n hn =>
        have hen : n.enabled = some true := by
          cases hb : n.enabled with
          | none => simp [hb, pure, Except.pure] at h
          | some b => simpa [hb, pure, Except.pure] using h
        have hctl := (ht.views t.session).controls _ (Dict.mem_of_get? hv) _
          (Dict.mem_of_get? hn) (hen ▸ rfl)
        exact ⟨v, n, ⟨hin, hv, by simpa using hvis⟩, hn, hctl, hen⟩
  · cases h

theorem movable_of_not_stale (hstack : d.stack.Perm d.windows) {w : SessionId × String}
    (h : d.windowStale w = .ok false) : d.Movable w := by
  unfold windowStale at h
  split_ifs at h with hmem
  · obtain ⟨hin, v, hv⟩ := mem_windows.mp (hstack.mem_iff.mp hmem)
    have hview : d.viewOf w.1 w.2 = .ok v := viewOf_of_get? hv
    simp only [hview, bind, Except.bind, pure, Except.pure, Except.ok.injEq, Bool.or_eq_false_iff,
      bne_eq_false_iff_eq, Bool.not_eq_false'] at h
    exact ⟨v, ⟨hin, hv, h.1⟩, h.2⟩
  · cases h

end Desktop

variable {d : Desktop} {n : Node} {nodes : Dict String Node} {c : Fields}

/-- **`sync` repairs the references**: it needs no more than a stack without
duplicates, raises nothing and changes no view. -/
theorem sync_sound (ht : d.Tidy) (hn : d.stack.Nodup) :
    returns sync (fun _ d' => d'.Sound ∧ d'.store = d.store ∧ d'.sessions = d.sessions ∧
      d'.nextSession = d.nextSession) d := by
  -- what every round leaves alone
  let Base : Desktop → Prop := fun d' => d'.store = d.store ∧ d'.sessions = d.sessions ∧
    d'.nextSession = d.nextSession ∧ d'.stack = d.syncedStack
  have hscene : ∀ {d' : Desktop}, Base d' → d.Scene d' :=
    fun hb => ⟨hb.2.1, hb.2.2.1, fun s => by rw [hb.1]⟩
  have hperm : ∀ {d' : Desktop}, Base d' → d'.stack.Perm d'.windows := by
    intro d' hb
    rw [(hscene hb).windows, hb.2.2.2]
    exact Desktop.syncedStack_perm ht hn
  have hcontrol : ∀ {d' : Desktop}, Base d' → ∀ t, ∃ b, d'.controlStale t = .ok b :=
    fun hb t => controlStale_isOk (Desktop.listed_of_perm (hperm hb)) t
  have hwindow : ∀ {d' : Desktop}, Base d' → ∀ w, ∃ b, d'.windowStale w = .ok b :=
    fun hb w => windowStale_isOk (Desktop.listed_of_perm (hperm hb)) w
  have hactive : ∀ {d' : Desktop} {t : Target}, Base d' → d'.controlStale t = .ok false →
      d'.Active t :=
    fun hb h => Desktop.active_of_not_stale ((hscene hb).tidy ht) (hperm hb) h
  have hmovable : ∀ {d' : Desktop} {w : SessionId × String}, Base d' →
      d'.windowStale w = .ok false → d'.Movable w :=
    fun hb h => Desktop.movable_of_not_stale (hperm hb) h
  have hbase : Base { d with stack := d.syncedStack } := ⟨rfl, rfl, rfl, rfl⟩
  -- the rounds, one reference after the other
  let R1 : Desktop → Prop := fun d' => Base d' ∧ ∀ t ∈ d'.hover, d'.Active t
  let R2 : Desktop → Prop := fun d' => R1 d' ∧ ∀ t ∈ d'.pressed, d'.Active t
  let R3 : Desktop → Prop := fun d' => R2 d' ∧ ∀ t ∈ d'.focus, d'.Active t
  let R4 : Desktop → Prop := fun d' => R3 d' ∧ ∀ w ∈ d'.drag, d'.Movable w.1
  let R5 : Desktop → Prop := fun d' => R4 d' ∧ ∀ w ∈ d'.resize, d'.Movable w
  simp only [sync, wp_bind, wp_modify]
  refine wp_imp (dropStale_wp (Q := R1) (hcontrol hbase) (fun hkeep => ?_) ?_)
    (fun _ d1 h1 => ?_)
  · exact ⟨hbase, fun t hmem => hactive hbase (hkeep t hmem)⟩
  · exact ⟨hbase, fun t hmem => by cases hmem⟩
  refine wp_imp (dropStale_wp (Q := R2) (hcontrol h1.1) (fun hkeep => ?_) ?_)
    (fun _ d2 h2 => ?_)
  · exact ⟨h1, fun t hmem => hactive h1.1 (hkeep t hmem)⟩
  · exact ⟨h1, fun t hmem => by cases hmem⟩
  refine wp_imp (dropStale_wp (Q := R3) (hcontrol h2.1.1) (fun hkeep => ?_) ?_)
    (fun _ d3 h3 => ?_)
  · exact ⟨h2, fun t hmem => hactive h2.1.1 (hkeep t hmem)⟩
  · exact ⟨h2, fun t hmem => by cases hmem⟩
  have hb3 : Base d3 := h3.1.1.1
  refine wp_imp (dropStale_wp (Q := R4) (fun t => hwindow hb3 t.1) (fun hkeep => ?_) ?_)
    (fun _ d4 h4 => ?_)
  · exact ⟨h3, fun w hmem => hmovable hb3 (hkeep w hmem)⟩
  · exact ⟨h3, fun w hmem => by cases hmem⟩
  have hb4 : Base d4 := h4.1.1.1.1
  refine wp_imp (dropStale_wp (Q := R5) (hwindow hb4) (fun hkeep => ?_) ?_)
    (fun _ d5 h5 => ?_)
  · exact ⟨h4, fun w hmem => hmovable hb4 (hkeep w hmem)⟩
  · exact ⟨h4, fun w hmem => by cases hmem⟩
  obtain ⟨⟨⟨⟨⟨hb, hhover⟩, hpressed⟩, hfocus⟩, hdrag⟩, hresize⟩ := h5
  exact ⟨⟨hperm hb, hhover, hpressed, hfocus, hdrag, hresize⟩, hb.1, hb.2.1, hb.2.2.1⟩

/-! ### Sliders -/

/-- What an input event keeps: sound references, tidy views and, of the views that
are left, the state and the saved geometry. -/
structure Desktop.Steady (d d' : Desktop) : Prop where
  sound : d'.Sound
  tidy : d'.Tidy
  saved : d.Saved d'

theorem Desktop.Scene.steady {d' : Desktop} (h : d.Scene d') (hs : d'.Sound) (ht : d.Tidy) :
    d.Steady d' :=
  ⟨hs, h.tidy ht, h.saved⟩

theorem Desktop.Frame.steady {d' : Desktop} (h : d.Frame d') (hs : d.Sound) (ht : d.Tidy) :
    d.Steady d' :=
  h.toScene.steady (h.sound hs) ht

theorem Desktop.Steady.after {d' d'' : Desktop} (h : d.Scene d') (h' : d'.Steady d'') :
    d.Steady d'' :=
  ⟨h'.sound, h'.tidy, h.saved.trans h'.saved⟩

/-- With the pointer at `x`, the quotient that `slider` forms is no float. -/
def Overflows (v : View) (x : Int) : Prop :=
  trueDiv ((x - v.x - 20) * 100) (v.w - 40) = .error .overflowError

theorem sliderValue_cases {v : View} (h : v.toGeometry.Ok) (x : Int) :
    (Overflows v x ∧ sliderValue v x = .error .overflowError) ∨
      (¬ Overflows v x ∧ ∃ i, sliderValue v x = .ok i) := by
  have hw := h.w_ge
  unfold Overflows sliderValue
  have hcases : trueDiv ((x - v.x - 20) * 100) (v.w - 40) = .error .overflowError ∨
      ∃ q, trueDiv ((x - v.x - 20) * 100) (v.w - 40) = .ok q := by
    unfold trueDiv
    rw [if_neg (by omega)]
    split
    · exact .inl rfl
    · exact .inr ⟨_, rfl⟩
  rcases hcases with hover | ⟨q, hq⟩
  · refine .inl ⟨hover, ?_⟩
    rw [hover]
    rfl
  · refine .inr ⟨fun hover => ?_, ?_⟩
    · rw [hq] at hover
      cases hover
    · obtain ⟨i, hi, -⟩ := PyNum.round_mem (PyNum.clamp_mem 0 100 (by decide) q)
      rw [hq]
      exact ⟨i, hi⟩

/-- A pointer that is not absurdly far away does not overflow the quotient. -/
theorem not_overflows {v : View} (h : v.toGeometry.Ok) {x : Int} (hx : |x| ≤ 2 ^ 1000) :
    ¬ Overflows v x := by
  have hbound : |(x - v.x - 20) * 100| ≤ 2 ^ 1010 := by
    have hx0 := h.x_ge
    have hx1 := h.x_le
    have hw := h.w_ge
    simp only [width] at hx1
    rw [abs_le] at hx ⊢
    constructor <;> omega
  obtain ⟨q, hq⟩ := trueDiv_isOk (b := v.w - 40) (by have := h.w_ge; omega) hbound
  unfold Overflows
  rw [hq]
  exact fun h => by cases h

theorem slider_wp (h : d.Ok) {t : Target} {v : View} (hn : d.nodeOf t = .ok n)
    (hv : d.viewOf t.session t.view = .ok v) (hkind : n.kind = .slider) (x : Int) :
    wp (slider t x) (fun _ d' => d.Frame d' ∧ ¬ Overflows v x)
      (fun _ d' => d' = d ∧ Overflows v x) d := by
  have hvalue := (h.node hn).value
  rw [hkind] at hvalue
  obtain ⟨old, hold, -⟩ := hvalue
  simp only [slider, wp_bind, wp_get, wp_liftExcept, hv]
  rcases sliderValue_cases (h.view hv).geometry x with ⟨hover, hval⟩ | ⟨hfine, i, hval⟩
  · rw [hval]
    exact ⟨trivial, hover⟩
  · rw [hval]
    simp only [hn, hold, lookup]
    rw [wp_ite]
    refine ⟨fun _ => ⟨Desktop.Frame.refl d, hfine⟩, fun _ => ?_⟩
    let f : Node → Except PyExc Node := fun n => .ok { n with value := some (.num (.int i)) }
    have hset : f n = .ok { n with value := some (.num (.int i)) } := rfl
    rw [wp_bind]
    refine wp_imp (updateNode_framed hn hset rfl) (fun _ d' hd' => ?_)
    exact wp_imp (setDirty_framed d') (fun _ d'' hd'' => ⟨hd'.1.trans hd'', hfine⟩)

/-- Whatever is done with the pressed slider, the press is on an active control. -/
theorem onPressedSlider_wp (hs : d.Sound) {act : Target → D Unit} {Q : Desktop → Prop}
    {E : PyExc → Desktop → Prop}
    (hact : ∀ t n, d.pressed = some t → d.nodeOf t = .ok n → n.kind = .slider →
      wp (act t) (fun _ => Q) E d)
    (hskip : (∀ t n, d.pressed = some t → d.nodeOf t = .ok n → n.kind ≠ .slider) → Q d) :
    wp (onPressedSlider act) (fun _ => Q) E d := by
  simp only [onPressedSlider, wp_bind, wp_get]
  cases ht : d.pressed with
  | none => exact hskip fun t n hp => by cases ht.symm.trans hp
  | some t =>
    obtain ⟨n, hn⟩ := (hs.pressed t ht).node
    simp only [wp_bind, wp_liftExcept, hn]
    rw [wp_ite]
    refine ⟨fun hkind => hact t n ht hn hkind, fun hkind => hskip fun t' n' hp hn' => ?_⟩
    obtain rfl := Option.some.inj (ht.symm.trans hp)
    obtain rfl := Except.ok.inj (hn.symm.trans hn')
    exact hkind

/-! ### Moving the pointer -/

theorem wp_run {ε σ α : Type} (m : PyState ε σ α) (s : σ) :
    wp m (fun a s' => m.run.run s = (.ok a, s')) (fun e s' => m.run.run s = (.error e, s')) s := by
  unfold wp
  split
  · next h => exact h
  · next h => exact h

namespace Desktop

/-- The desktop once the window being moved or resized has followed the pointer. -/
def moved (d : Desktop) (x y : Int) : Desktop :=
  ((moveDragged x y >>= fun _ => moveResized x y : D Unit).run.run d).2

/-- A slider is pressed whose quotient at `x` is no float. -/
def SliderOverflows (d : Desktop) (x : Int) : Prop :=
  ∃ t n v, d.pressed = some t ∧ d.nodeOf t = .ok n ∧ n.kind = .slider ∧
    d.viewOf t.session t.view = .ok v ∧ Overflows v x

end Desktop

theorem move_wp (h : d.Ok) (hs : d.Sound) (x y : Int) :
    returns (moveDragged x y >>= fun _ => moveResized x y)
      (fun _ d' => d' = d.moved x y ∧ d.Frame d' ∧ d'.Ok) d := by
  have hframe : Framed d (moveDragged x y >>= fun _ => moveResized x y) := by
    refine (moveDragged_framed hs x y).bind (ok_stable.moveDragged x y) h fun _ d' hd' _ => ?_
    refine wp_imp (moveResized_framed (hd'.sound hs) x y) ?_
    exact fun _ d'' hd'' => hd'.trans hd''
  have hok : Keeps Desktop.Ok (moveDragged x y >>= fun _ => moveResized x y) :=
    (ok_stable.moveDragged x y).bind fun _ => ok_stable.moveResized x y
  refine wp_mono (wp_and (wp_and hframe (hok d h)) (wp_run _ d)) ?_ fun _ _ h => h.1.1
  rintro _ d' ⟨⟨hf, hd'⟩, hrun⟩
  refine ⟨?_, hf, hd'⟩
  unfold Desktop.moved
  rw [hrun]

theorem closeView_wp (ht : d.Tidy) (hn : d.stack.Nodup) (s : SessionId) (vid : String) :
    returns (closeView s vid) (fun _ d' => d.Steady d') d := by
  simp only [closeView, emitTo, wp_bind, wp_modify]
  -- the desktop without the window, before `sync`
  generalize hd1 : (d.setViews s (Dict.erase (d.store s).views vid)).setSession s
    (((d.setViews s (Dict.erase (d.store s).views vid)).store s).emit (.closed vid)) = d1
  have hviews : ∀ s', (d1.store s').views =
      if s' = s then Dict.erase (d.store s).views vid else (d.store s').views := by
    intro s'
    rw [← hd1, Desktop.sameViews_setSession _ s (Session.views_emit _ _) s', Desktop.setViews,
      Desktop.store_setSession]
    split <;> rfl
  have hsub : ∀ s', ∀ p ∈ (d1.store s').views, p ∈ (d.store s').views := by
    intro s' p hp
    rw [hviews] at hp
    split at hp
    · next hs => exact hs ▸ Dict.mem_erase hp
    · exact hp
  have ht1 : d1.Tidy := by
    refine ⟨fun s' => ⟨?_, fun p hp => (ht.views s').nodes p (hsub s' p hp),
      fun p hp => (ht.views s').controls p (hsub s' p hp)⟩, hd1 ▸ ht.nodup, hd1 ▸ ht.fresh⟩
    rw [hviews]
    split
    · exact (ht.views s).wf.erase vid
    · exact (ht.views s').wf
  have hsaved : d.Saved d1 := by
    intro s' vid' v' hv'
    have hmem := hsub s' _ (Dict.mem_of_get? hv')
    exact ⟨v', Dict.get?_of_mem (ht.views s').wf hmem, rfl, rfl⟩
  have hn1 : d1.stack.Nodup := hd1 ▸ hn
  refine wp_imp (sync_sound ht1 hn1) ?_
  rintro _ d2 ⟨hsound, hstore, hsessions, hnext⟩
  have hscene : d1.Scene d2 := ⟨hsessions, hnext, fun s' => by rw [hstore]⟩
  exact ⟨hsound, hscene.tidy ht1, hsaved.trans hscene.saved⟩

theorem reportConfigured_framed (hs : d.Sound) : Framed d reportConfigured := by
  simp only [Framed, reportConfigured, wp_bind, wp_get]
  cases hw : (d.drag.map (·.1)).or d.resize with
  | none => exact .refl d
  | some w =>
    have hmovable : d.Movable w := by
      rcases Option.or_eq_some_iff.mp hw with hdrag | ⟨-, hresize⟩
      · obtain ⟨w', hw', rfl⟩ := Option.map_eq_some_iff.mp hdrag
        exact hs.drag w' hw'
      · exact hs.resize w hresize
    obtain ⟨v, hv, -⟩ := hmovable.view
    simp only [wp_bind, wp_liftExcept, hv]
    exact emitTo_framed d _ _

theorem pressedChanged_framed (h : d.Ok) (hs : d.Sound) : Framed d (onPressedSlider changed) := by
  refine onPressedSlider_wp hs (fun t n _ hn hkind => ?_) fun _ => .refl d
  have hvalue := (h.node hn).value
  rw [hkind] at hvalue
  obtain ⟨v, hv, -⟩ := hvalue
  exact changed_framed hn hv

theorem buttonsOf_eq (s : SessionId) (vid : String) (h : ∀ p ∈ nodes, p.2.Ok) :
    ∃ bs, buttonsOf s vid nodes = .ok bs ∧ ∀ t ∈ bs, t.session = s ∧ t.view = vid ∧
      ∃ n, (t.node, n) ∈ nodes ∧ n.kind.isControl = true ∧ n.enabled = some true := by
  induction nodes with
  | nil => exact ⟨[], rfl, fun t ht => absurd ht not_mem_nil⟩
  | cons p nodes ih =>
    obtain ⟨nid, n⟩ := p
    obtain ⟨bs, hbs, hmem⟩ := ih fun q hq => h q (mem_cons_of_mem _ hq)
    have hn : n.Ok := h (nid, n) mem_cons_self
    have hlater : ∀ t ∈ bs, t.session = s ∧ t.view = vid ∧ ∃ m, (t.node, m) ∈ (nid, n) :: nodes ∧
        m.kind.isControl = true ∧ m.enabled = some true := by
      intro t ht
      obtain ⟨hsess, hview, m, hm, hctl⟩ := hmem t ht
      exact ⟨hsess, hview, m, mem_cons_of_mem _ hm, hctl⟩
    unfold buttonsOf
    split
    · next hctl =>
      obtain ⟨b, hb⟩ := Option.isSome_iff_exists.mp (hn.enabled hctl)
      simp only [hb, hbs, lookup, bind, Except.bind, pure, Except.pure]
      cases b with
      | false => exact ⟨bs, rfl, hlater⟩
      | true =>
        refine ⟨⟨s, vid, nid⟩ :: bs, rfl, fun t ht => ?_⟩
        rcases mem_cons.mp ht with rfl | ht
        · exact ⟨rfl, rfl, n, mem_cons_self, hctl, hb⟩
        · exact hlater t ht
    · exact ⟨bs, hbs, hlater⟩

/-- The event moves the pointer while a slider is pressed, to where its quotient is
no float. -/
def Desktop.InputOverflows (d : Desktop) (e : InputEvent) : Prop :=
  e.kind = some 3 ∧ (d.moved e.x e.y).SliderOverflows e.x

section Sound

variable (h : d.Ok) (ht : d.Tidy) (hs : d.Sound)

include h ht hs

/-- The end of `input` for a pointer that moves: what it hovers over. -/
theorem setHover_wp (x y : Int) :
    returns (do
      let d ← get
      let hover := (← d.hit x y).bind Hit.target?
      if hover ≠ d.hover then set { d with hover, dirty := true } else return () : D Unit)
      (fun _ d' => d.Steady d') d := by
  obtain ⟨o, ho, hmem⟩ := hs.hit h ht x y
  have hactive : ∀ t ∈ o.bind Hit.target?, d.Active t := by
    intro t htarget
    obtain ⟨hit, hhit, hin⟩ := Option.bind_eq_some_iff.mp htarget
    exact (hmem hit hhit).target hin
  simp only [wp_bind, wp_get, wp_liftExcept, ho]
  rw [wp_ite]
  refine ⟨fun _ => ?_, fun _ => (Desktop.Frame.refl d).steady hs ht⟩
  have hscene : d.Scene { d with hover := o.bind Hit.target?, dirty := true } :=
    ⟨rfl, rfl, fun _ => rfl⟩
  exact hscene.steady (.of_scene hscene hs.stack hactive hs.pressed hs.focus hs.drag hs.resize) ht

theorem pointerMoved_wp (x y : Int) :
    wp (pointerMoved x y) (fun _ d' => d.Steady d' ∧ ¬ (d.moved x y).SliderOverflows x)
      (fun _ d' => d.Steady d' ∧ (d.moved x y).SliderOverflows x) d := by
  unfold pointerMoved
  rw [wp_bind]
  simp only [wp_bind (moveResized x y)]
  refine (wp_bind (moveDragged x y) fun _ => moveResized x y).mp ?_
  refine wp_imp (move_wp h hs x y) ?_
  rintro _ d1 ⟨heq, hframe, hok1⟩
  rw [← heq]
  have hs1 := hframe.sound hs
  have ht1 := hframe.toScene.tidy ht
  rw [wp_bind]
  -- the slider, then the hover
  refine wp_mono (wp_and (onPressedSlider_wp hs1
      (Q := fun d' => d1.Frame d' ∧ ¬ d1.SliderOverflows x)
      (E := fun _ d' => d' = d1 ∧ d1.SliderOverflows x) ?_ ?_)
    (ok_stable.pressedSlider x d1 hok1)) ?_ ?_
  · intro t n hp hn hkind
    obtain ⟨v, hv, -⟩ := Desktop.nodeOf_eq_ok hn
    refine wp_mono (slider_wp hok1 hn hv hkind x) (fun _ d' hd' => ⟨hd'.1, ?_⟩) fun _ d' hd' => ?_
    · rintro ⟨t', n', v', hp', -, -, hv', hover⟩
      obtain rfl := Option.some.inj (hp.symm.trans hp')
      obtain rfl := Except.ok.inj (hv.symm.trans hv')
      exact hd'.2 hover
    · exact ⟨hd'.1, t, n, v, hp, hn, hkind, hv, hd'.2⟩
  · exact fun hno => ⟨Desktop.Frame.refl d1, fun ⟨t, n, _, hp, hn, hkind, _, _⟩ =>
      hno t n hp hn hkind⟩
  · rintro _ d2 ⟨⟨hframe2, hfine⟩, hok2⟩
    refine wp_imp (setHover_wp hok2 (hframe2.toScene.tidy ht1) (hframe2.sound hs1) x y) ?_
    exact fun _ d3 hd3 => ⟨hd3.after (hframe.trans hframe2).toScene, hfine⟩
  · rintro _ d2 ⟨⟨rfl, hover⟩, -⟩
    exact ⟨hframe.steady hs ht, hover⟩

/-! ### The button -/

/-- A press on a control: the pointer is inside its window, so no quotient overflows. -/
theorem pressControl_wp {x : Int} {t : Target} (hactive : d.Active t) (hx : |x| ≤ 2 ^ 1000) :
    returns (pressControl x t) (fun _ d' => d.Steady d') d := by
  unfold pressControl
  simp only [wp_bind, wp_modify]
  have hscene : d.Scene { d with pressed := some t, focus := some t } :=
    ⟨rfl, rfl, fun _ => rfl⟩
  have hset : ∀ t' ∈ some t, d.Active t' := fun t' ht' => Option.some.inj ht' ▸ hactive
  have hs1 : Desktop.Sound { d with pressed := some t, focus := some t } :=
    .of_scene hscene hs.stack hs.hover hset hset hs.drag hs.resize
  have hok1 : Desktop.Ok { d with pressed := some t, focus := some t } :=
    h.congr (fun _ => rfl) (.inl rfl)
  refine onPressedSlider_wp hs1 (fun t' n hp hn hkind => ?_) fun _ => ?_
  · obtain ⟨v, hv, -⟩ := Desktop.nodeOf_eq_ok hn
    refine wp_mono (slider_wp hok1 hn hv hkind x) (fun _ d' hd' => ?_) fun _ d' hd' => ?_
    · exact (hd'.1.steady hs1 (hscene.tidy ht)).after hscene
    · exact not_overflows (hok1.view hv).geometry hx hd'.2
  · exact hscene.steady hs1 ht

theorem pressOn_wp {x y : Int} {hit : Hit} (hhit : d.HitOk x y hit) :
    returns (pressOn x y hit) (fun _ d' => d.Steady d') d := by
  obtain ⟨⟨v, hv, hinside⟩, -⟩ := hhit.1, hhit.2
  have hmem := hv.mem_stack hs
  have hview : d.viewOf hit.1 hit.2.1 = .ok v := Desktop.viewOf_of_get? hv.get
  have hremove : returns (removeFromStack (hit.1, hit.2.1))
      (fun _ d' => d' = { d with stack := d.stack.erase (hit.1, hit.2.1) }) d := by
    simp only [removeFromStack, wp_bind, wp_get]
    rw [if_pos hmem]
    rfl
  have hperm := (perm_append_singleton _ _).trans (perm_cons_erase hmem).symm
  unfold pressOn
  refine (wp_bind _ _).mpr ?_
  refine wp_imp hremove (fun _ d0 hd0 => ?_)
  rw [wp_bind, wp_modify, hd0]
  -- the desktop with the window on top
  generalize hd1 : ({ { d with stack := d.stack.erase (hit.1, hit.2.1) } with
    stack := d.stack.erase (hit.1, hit.2.1) ++ [(hit.1, hit.2.1)] } : Desktop) = d1
  have hscene : d.Scene d1 := hd1 ▸ ⟨rfl, rfl, fun _ => rfl⟩
  have hok1 : d1.Ok := hd1 ▸ h.congr (fun _ => rfl) (.inl rfl)
  have ht1 := hscene.tidy ht
  have hview1 : d1.viewOf hit.1 hit.2.1 = .ok v := hd1 ▸ hview
  have hshown1 : d1.Shown (hit.1, hit.2.1) v := hd1 ▸ hv
  have hs1 : d1.Sound := by
    subst hd1
    exact .of_scene hscene (hperm.trans hs.stack) hs.hover hs.pressed hs.focus hs.drag hs.resize
  have hnodup : d1.stack.Nodup := hs1.stack.nodup_iff.mpr ht1.windows_nodup
  rw [wp_bind, wp_get, wp_bind, wp_liftExcept, hview1]
  dsimp only
  rw [wp_ite]
  refine ⟨fun _ => ?_, fun _ => wp_ite.mpr ⟨fun htitle => ?_, fun _ =>
    wp_ite.mpr ⟨?_, fun _ => ?_⟩⟩⟩
  · exact wp_imp (closeView_wp ht1 hnodup _ _) (fun _ d' hd' => hd'.after hscene)
  · refine .after hscene (Desktop.Scene.steady ⟨rfl, rfl, fun _ => rfl⟩ ?_ ht1)
    refine .of_scene ⟨rfl, rfl, fun _ => rfl⟩ hs1.stack hs1.hover hs1.pressed hs1.focus
      (fun w hw => ?_) hs1.resize
    cases hw
    exact ⟨v, hshown1, htitle.2⟩
  · intro hcorner
    refine .after hscene (Desktop.Scene.steady ⟨rfl, rfl, fun _ => rfl⟩ ?_ ht1)
    refine .of_scene ⟨rfl, rfl, fun _ => rfl⟩ hs1.stack hs1.hover hs1.pressed hs1.focus
      hs1.drag fun w hw => ?_
    cases hw
    exact ⟨v, hshown1, hcorner.2.2⟩
  · cases htarget : hit.target? with
    | none => exact ⟨hs1, ht1, hscene.saved⟩
    | some t =>
      have hactive := hscene.active (hhit.target htarget)
      have hx : |x| ≤ 2 ^ 1000 := by
        have hgeo := (h.view hview).geometry
        have hx0 := hgeo.x_ge
        have hx1 := hgeo.x_le
        simp only [inside, Bool.and_eq_true, decide_eq_true_eq] at hinside
        simp only [width] at hx1
        rw [abs_le]
        constructor <;> omega
      exact wp_imp (pressControl_wp hok1 ht1 hs1 hactive hx) (fun _ d' hd' => hd'.after hscene)

theorem buttonDown_wp (x y : Int) : returns (buttonDown x y) (fun _ d' => d.Steady d') d := by
  obtain ⟨o, ho, hmem⟩ := hs.hit h ht x y
  simp only [buttonDown, wp_bind, wp_get, wp_liftExcept, wp_modify, ho]
  generalize hd1 : ({ d with pressed := none, focus := none } : Desktop) = d1
  have hscene : d.Scene d1 := hd1 ▸ ⟨rfl, rfl, fun _ => rfl⟩
  have hok1 : d1.Ok := hd1 ▸ h.congr (fun _ => rfl) (.inl rfl)
  have hs1 : d1.Sound := by
    subst hd1
    exact .of_scene hscene hs.stack hs.hover (fun _ hm => by cases hm) (fun _ hm => by cases hm)
      hs.drag hs.resize
  have ht1 := hscene.tidy ht
  have hpress : returns (pressHit x y o) (fun _ d' => d1.Steady d') d1 := by
    cases o with
    | none => exact (Desktop.Frame.refl d1).steady hs1 ht1
    | some hit =>
      obtain ⟨⟨v, hv, hinside⟩, hnode⟩ := hmem hit rfl
      exact pressOn_wp hok1 ht1 hs1 ⟨⟨v, hd1 ▸ hv, hinside⟩, fun nid hnid =>
        hscene.active (hnode nid hnid)⟩
  refine wp_imp hpress (fun _ d2 hd2 => ?_)
  refine wp_imp (setDirty_framed d2) (fun _ d3 hd3 => ?_)
  have hsteady := hd3.steady hd2.sound hd2.tidy
  exact .after hscene ⟨hsteady.sound, hsteady.tidy, hd2.saved.trans hsteady.saved⟩

theorem activatePressed_framed (x y : Int) : Framed d (activatePressed x y) := by
  simp only [Framed, activatePressed, wp_bind, wp_get]
  cases hp : d.pressed with
  | none => exact .refl d
  | some t =>
    obtain ⟨o, ho, -⟩ := hs.hit h ht x y
    obtain ⟨n, hn⟩ := (hs.pressed t hp).node
    simp only [wp_bind, wp_liftExcept, ho]
    rw [wp_ite]
    exact ⟨fun _ => activate_framed h hn, fun _ => .refl d⟩

theorem buttonUp_wp (x y : Int) : returns (buttonUp x y) (fun _ d' => d.Steady d') d := by
  refine (reportConfigured_framed hs).bind ok_stable.reportConfigured h fun _ d1 hf1 hok1 => ?_
  refine (pressedChanged_framed hok1 (hf1.sound hs)).bind
    (Stable.onPressedSlider fun d t h _ => ok_stable.changed t d h) hok1 fun _ d2 hf2 hok2 => ?_
  have hf := hf1.trans hf2
  refine (activatePressed_framed hok2 (hf.toScene.tidy ht) (hf.sound hs) x y).bind
    (ok_stable.activatePressed x y) hok2 fun _ d3 hf3 _ => ?_
  have hs3 := (hf.trans hf3).sound hs
  have ht3 := (hf.trans hf3).toScene.tidy ht
  refine .after (hf.trans hf3).toScene (Desktop.Scene.steady ⟨rfl, rfl, fun _ => rfl⟩ ?_ ht3)
  exact .of_scene (d := d3) ⟨rfl, rfl, fun _ => rfl⟩ hs3.stack hs3.hover (fun _ hm => by cases hm)
    hs3.focus (fun _ hm => by cases hm) fun _ hm => by cases hm

/-! ### The keyboard -/

theorem keyDown_wp (e : InputEvent) : returns (keyDown e) (fun _ d' => d.Steady d') d := by
  have hsame : d.Steady d := (Desktop.Frame.refl d).steady hs ht
  obtain ⟨ws, hws, hshown⟩ := hs.visibleStack
  simp only [keyDown, wp_bind, wp_get, wp_liftExcept, hws]
  cases hlast : ws.getLast? with
  | none => exact hsame
  | some w =>
    obtain ⟨v, hv⟩ := hshown w (mem_of_getLast? hlast)
    have hview : d.viewOf w.1 w.2 = .ok v := Desktop.viewOf_of_get? hv.get
    obtain ⟨bs, hbs, hmem⟩ := buttonsOf_eq w.1 w.2 (h.view hview).nodes
    have hactive : ∀ t ∈ bs, d.Active t := by
      intro t htb
      obtain ⟨hsess, hvid, n, hn, hctl, hen⟩ := hmem t htb
      have hwf := (ht.views w.1).nodes _ (Dict.mem_of_get? hv.get)
      refine ⟨v, n, ?_, Dict.get?_of_mem hwf hn, hctl, hen⟩
      rw [hsess, hvid]
      exact hv
    simp only [wp_bind, wp_liftExcept, hview, hbs]
    rw [wp_ite]
    refine ⟨fun _ => ?_, fun _ => ?_⟩
    · have hscene : d.Scene
          { d with focus := nextFocus bs d.focus (e.mod % 4 ≠ 0), dirty := true } :=
        ⟨rfl, rfl, fun _ => rfl⟩
      exact hscene.steady (.of_scene hscene hs.stack hs.hover hs.pressed
        (fun t hfocus => hactive t (mem_of_getElem? hfocus)) hs.drag hs.resize) ht
    · cases hfocus : d.focus with
      | none => exact hsame
      | some t =>
        rw [wp_ite]
        refine ⟨fun htb => ?_, fun _ => hsame⟩
        obtain ⟨n, hn⟩ := (hactive t htb).node
        exact wp_imp (keyOn_framed h hn e) (fun _ d' hd' => hd'.steady hs ht)

/-! ### All input -/

/-- **One input event.** -/
theorem input_wp (e : InputEvent) :
    wp (input e) (fun _ d' => d.Steady d' ∧ ¬ d.InputOverflows e)
      (fun _ d' => d.Steady d' ∧ d.InputOverflows e) d := by
  have hsame : d.Steady d := (Desktop.Frame.refl d).steady hs ht
  have hother : ∀ {m : D Unit}, e.kind ≠ some 3 →
      returns m (fun _ d' => d.Steady d') d →
      wp m (fun _ d' => d.Steady d' ∧ ¬ d.InputOverflows e)
        (fun _ d' => d.Steady d' ∧ d.InputOverflows e) d :=
    fun hkind hm => wp_imp hm (fun _ d' hd' => ⟨hd', fun hover => hkind hover.1⟩)
  have hne : ∀ {k : Int}, e.kind = some k → k ≠ 3 → e.kind ≠ some 3 :=
    fun hk hk3 heq => hk3 (Option.some.inj (hk.symm.trans heq))
  unfold input
  rw [wp_ite]
  refine ⟨fun hquit => hother (hne hquit (by decide)) ?_, fun _ => wp_ite.mpr ⟨fun hmove => ?_,
    fun hmove => wp_ite.mpr ⟨fun _ => hother hmove (buttonDown_wp h ht hs _ _),
    fun _ => wp_ite.mpr ⟨fun _ => hother hmove (buttonUp_wp h ht hs _ _),
    fun _ => wp_ite.mpr ⟨fun _ => hother hmove (keyDown_wp h ht hs e),
    fun _ => hother hmove hsame⟩⟩⟩⟩⟩
  · have hframe : d.Frame { d with running := false } :=
      ⟨⟨rfl, rfl, fun _ => rfl⟩, rfl, rfl, rfl, rfl, rfl, rfl⟩
    exact hframe.steady hs ht
  · refine wp_mono (pointerMoved_wp h ht hs e.x e.y) ?_ ?_
    · exact fun _ d' hd' => ⟨hd'.1, fun hover => hd'.2 hover.2⟩
    · exact fun _ d' hd' => ⟨hd'.1, hmove, hd'.2⟩

/-- The event raises exactly when it overflows. -/
theorem input_raises_iff (e : InputEvent) :
    (∃ exc d', (input e).run.run d = (.error exc, d')) ↔ d.InputOverflows e := by
  have hw := input_wp h ht hs e
  unfold wp at hw
  constructor
  · rintro ⟨exc, d', hrun⟩
    rw [hrun] at hw
    exact hw.2
  · intro hover
    split at hw
    · exact absurd hover hw.2
    · next exc d' hrun => exact ⟨exc, d', hrun⟩

end Sound

/-! ### Commits -/

theorem withContent_outline {n' : Node} (h : withContent n c = .ok n') :
    n'.outline = n.outline := by
  unfold withContent at h
  split at h
  case h_6 =>
    split at h
    · obtain ⟨_, -, h⟩ := bind_eq_ok h
      exact (Except.ok.inj h).symm ▸ rfl
    · cases h
  all_goals try obtain ⟨_, -, h⟩ := bind_eq_ok h
  all_goals exact (Except.ok.inj h).symm ▸ rfl

/-- Only controls can be enabled. -/
def Node.Tidy (n : Node) : Prop := n.enabled.isSome = true → n.kind.isControl = true

theorem Node.Tidy.of_outline {n' : Node} (h : n.Tidy) (hout : n'.outline = n.outline) :
    n'.Tidy := by
  have hkind : n'.kind = n.kind := congrArg Prod.fst hout
  have hen : n'.enabled = n.enabled := congrArg Prod.snd hout
  unfold Node.Tidy
  rw [hkind, hen]
  exact h

theorem createNode_eq_ok {nodes' : Dict String Node} {nid : String}
    (h : createNode nodes nid c = .ok nodes') :
    ∃ n : Node, n.Tidy ∧ nodes' = Dict.set nodes nid n := by
  obtain ⟨_, -, h⟩ := bind_eq_ok h
  obtain ⟨kind, -, h⟩ := bind_eq_ok h
  obtain ⟨_, -, h⟩ := bind_eq_ok h
  obtain ⟨text, -, h⟩ := bind_eq_ok h
  obtain ⟨n, hn, h⟩ := bind_eq_ok h
  obtain ⟨n', hn', h⟩ := bind_eq_ok h
  refine ⟨n', Node.Tidy.of_outline ?_ (withContent_outline hn'), (Except.ok.inj h).symm⟩
  unfold withEnabled at hn
  split at hn
  · next hctl =>
    obtain ⟨b, -, hn⟩ := bind_eq_ok hn
    cases hn
    exact fun _ => hctl
  · cases hn
    exact fun hen => by cases hen

theorem changeNode_tidy {n' : Node} {op : Op} (hn : n.Tidy) (h : changeNode n op c = .ok n') :
    n'.Tidy := by
  unfold changeNode at h
  split at h
  · obtain ⟨_, -, h⟩ := bind_eq_ok h
    exact hn.of_outline ((Except.ok.inj h).symm ▸ rfl)
  · obtain ⟨_, -, h⟩ := bind_eq_ok h
    split at h
    · obtain ⟨_, -, h⟩ := bind_eq_ok h
      split at h
      · obtain ⟨_, -, h⟩ := bind_eq_ok h
        exact hn.of_outline ((Except.ok.inj h).symm ▸ rfl)
      · cases h
    · cases h
  · obtain ⟨_, hctl, h⟩ := bind_eq_ok h
    obtain ⟨_, -, h⟩ := bind_eq_ok h
    cases h
    exact fun _ => require_eq_ok hctl
  · obtain ⟨_, -, h⟩ := bind_eq_ok h
    exact hn.of_outline ((Except.ok.inj h).symm ▸ rfl)
  · obtain ⟨_, -, h⟩ := bind_eq_ok h
    obtain ⟨_, -, h⟩ := bind_eq_ok h
    exact hn.of_outline ((Except.ok.inj h).symm ▸ rfl)
  · cases h

/-- Nodes without duplicates of which only controls can be enabled. -/
def TidyNodes (nodes : Dict String Node) : Prop := Dict.Wf nodes ∧ ∀ q ∈ nodes, q.2.Tidy

theorem TidyNodes.set (h : TidyNodes nodes) (nid : String) (hn : n.Tidy) :
    TidyNodes (Dict.set nodes nid n) := by
  refine ⟨h.1.set nid n, fun q hq => ?_⟩
  rcases Dict.mem_set hq with rfl | hq
  · exact hn
  · exact h.2 q hq

theorem nodeCommand_tidy {nodes' : Dict String Node} {op : Op} (h : TidyNodes nodes)
    (hc : nodeCommand nodes op c = .ok nodes') : TidyNodes nodes' := by
  obtain ⟨nid, -, hc⟩ := bind_eq_ok hc
  split at hc
  · obtain ⟨n, hn, rfl⟩ := createNode_eq_ok hc
    exact h.set nid hn
  · split at hc
    · cases hc
    · next n hget =>
      split at hc
      · cases hc
        exact ⟨h.1.erase nid, fun q hq => h.2 q (Dict.mem_erase hq)⟩
      · obtain ⟨n', hn', hc⟩ := bind_eq_ok hc
        cases hc
        exact h.set nid (changeNode_tidy (h.2 _ (Dict.mem_of_get? hget)) hn')

namespace TidyViews

variable {views : Views}

theorem tidyNodes (h : TidyViews views) {vid : String} {v : View}
    (hv : Dict.get? views vid = some v) : TidyNodes v.nodes :=
  ⟨h.nodes _ (Dict.mem_of_get? hv), h.controls _ (Dict.mem_of_get? hv)⟩

theorem set (h : TidyViews views) (vid : String) {v : View} (hv : TidyNodes v.nodes) :
    TidyViews (Dict.set views vid v) := by
  refine ⟨h.wf.set vid v, fun p hp => ?_, fun p hp => ?_⟩
  · rcases Dict.mem_set hp with rfl | hp
    · exact hv.1
    · exact h.nodes p hp
  · rcases Dict.mem_set hp with rfl | hp
    · exact hv.2
    · exact h.controls p hp

theorem nil : TidyViews [] :=
  ⟨nodup_nil, fun _ h => absurd h not_mem_nil, fun _ h => absurd h not_mem_nil⟩

end TidyViews

theorem Applied.tidy {vid : String} {draft draft' : Draft} (h : Applied c vid draft draft')
    (ht : TidyViews draft.1) : TidyViews draft'.1 := by
  cases h with
  | create op fresh geometry state nodes configured =>
    refine ht.set vid ?_
    rw [(configure_eq_ok configured).1, nodes]
    exact ⟨nodup_nil, fun _ h => absurd h not_mem_nil⟩
  | destroy get =>
    exact ⟨ht.wf.erase vid, fun p hp => ht.nodes p (Dict.mem_erase hp),
      fun p hp => ht.controls p (Dict.mem_erase hp)⟩
  | configure op get properties configured =>
    refine ht.set vid ?_
    rw [(configure_eq_ok configured).1]
    exact ht.tidyNodes get
  | window get shown => exact ht
  | node get changed => exact ht.set vid (nodeCommand_tidy (ht.tidyNodes get) changed)

theorem foldlM_tidy {cs : List Json} {draft draft' : Draft} (ht : TidyViews draft.1)
    (h : cs.foldlM applyCommand draft = .ok draft') : TidyViews draft'.1 := by
  induction cs generalizing draft with
  | nil =>
    cases h
    exact ht
  | cons c cs ih =>
    obtain ⟨draft1, hc, h⟩ := bind_eq_ok h
    obtain ⟨_, _, -, -, happlied⟩ := applyCommand_applied hc
    exact ih (happlied.tidy ht) h

/-! ### Requests -/

/-- What holds between two requests. -/
structure Desktop.Invariant (d : Desktop) : Prop where
  ok : d.Ok
  tidy : d.Tidy
  sound : d.Sound

theorem windowAction_sound (s : SessionId) (action : WindowOp) (vid : String) :
    Keeps (fun d => d.Tidy ∧ d.Sound) (windowAction s action vid) := by
  rintro d ⟨ht, hs⟩
  unfold windowAction removeFromStack
  rw [wp_bind, wp_bind, wp_get, wp_ite]
  refine ⟨fun hmem => ?_, fun _ => ⟨ht, hs⟩⟩
  have hperm : ∀ stack : List (SessionId × String),
      stack.Perm ((s, vid) :: d.stack.erase (s, vid)) →
      stack.Perm d.windows :=
    fun stack hstack => hstack.trans ((perm_cons_erase hmem).symm.trans hs.stack)
  cases action with
  | focusView =>
    refine ⟨Desktop.Scene.tidy (d := d) ⟨rfl, rfl, fun _ => rfl⟩ ht, ?_⟩
    exact .of_scene (d := d) ⟨rfl, rfl, fun _ => rfl⟩ (hperm _ perm_append_comm) hs.hover
      (fun _ hm => by cases hm) (fun _ hm => by cases hm) hs.drag hs.resize
  | lowerView =>
    refine ⟨Desktop.Scene.tidy (d := d) ⟨rfl, rfl, fun _ => rfl⟩ ht, ?_⟩
    exact .of_scene (d := d) ⟨rfl, rfl, fun _ => rfl⟩ (hperm _ (List.Perm.refl _)) hs.hover
      (fun _ hm => by cases hm) (fun _ hm => by cases hm) hs.drag hs.resize

/-- `sync` after any change of the views and sessions that leaves them tidy. -/
theorem sync_invariant (ht : d.Tidy) (hn : d.stack.Nodup) :
    returns sync (fun _ d' => d'.Tidy ∧ d'.Sound) d := by
  refine wp_imp (sync_sound ht hn) ?_
  rintro _ d' ⟨hsound, hstore, hsessions, hnext⟩
  exact ⟨Desktop.Scene.tidy ⟨hsessions, hnext, fun s => by rw [hstore]⟩ ht, hsound⟩

theorem Desktop.Invariant.stack_nodup (h : d.Invariant) : d.stack.Nodup :=
  h.sound.stack.nodup_iff.mpr h.tidy.windows_nodup

theorem dispatchCommit_sound (h : d.Invariant) (s : SessionId) (revision commands : Json) :
    wp (dispatchCommit s revision commands) (fun _ d' => d'.Tidy ∧ d'.Sound)
      (fun _ d' => d'.Tidy ∧ d'.Sound) d := by
  simp only [dispatchCommit, wp_bind, wp_get]
  refine onSession_wp (wp_mono (commit_wp _ (h.ok.views s) _ _) ?_ ?_)
  · rintro actions session ⟨cs, views, -, -, hfold, -, rfl⟩
    have ht : Desktop.Tidy (d.setSession s
        { d.store s with views, revision := (d.store s).revision + 1 }) := by
      refine ⟨fun s' => ?_, h.tidy.nodup, h.tidy.fresh⟩
      rw [Desktop.store_setSession]
      split
      · exact foldlM_tidy (h.tidy.views s) hfold
      · exact h.tidy.views s'
    refine wp_imp (sync_invariant ht h.stack_nodup) (fun _ d' hd' => ?_)
    exact Keeps.forM (fun a => windowAction_sound s a.1 a.2) actions d' hd'
  · rintro e session ⟨-, rfl⟩
    have hframe : d.Frame (d.setSession s (d.store s)) := Desktop.frame_setSession rfl
    exact ⟨hframe.toScene.tidy h.tidy, hframe.sound h.sound⟩

/-- A new session has no windows, and nothing refers to it. -/
theorem connect_sound (h : d.Invariant) :
    wp (handle .connect) (fun _ d' => d'.Tidy ∧ d'.Sound) (fun _ d' => d'.Tidy ∧ d'.Sound) d := by
  have hother : ∀ s ∈ d.sessions, ((d.setSession d.nextSession {}).store s) = d.store s := by
    intro s hs
    rw [Desktop.store_setSession, if_neg (Nat.ne_of_lt (h.tidy.fresh s hs))]
  have hshown : ∀ {w : SessionId × String} {v : View}, d.Shown w v →
      Desktop.Shown { (d.setSession d.nextSession {}) with
        sessions := d.sessions ++ [d.nextSession], nextSession := d.nextSession + 1 } w v := by
    rintro w v ⟨hin, hget, hvis⟩
    exact ⟨mem_append_left _ hin, by rw [hother w.1 hin]; exact hget, hvis⟩
  have hactive : ∀ {t : Target}, d.Active t → _ :=
    fun ⟨v, n, hv, hrest⟩ => (⟨v, n, hshown hv, hrest⟩ : Desktop.Active _ _)
  have hmovable : ∀ {w : SessionId × String}, d.Movable w → _ :=
    fun ⟨v, hv, hstate⟩ => (⟨v, hshown hv, hstate⟩ : Desktop.Movable _ _)
  refine ⟨⟨fun s => ?_, ?_, fun s hs => ?_⟩, ⟨?_, fun t ht => hactive (h.sound.hover t ht),
    fun t ht => hactive (h.sound.pressed t ht), fun t ht => hactive (h.sound.focus t ht),
    fun w hw => hmovable (h.sound.drag w hw), fun w hw => hmovable (h.sound.resize w hw)⟩⟩
  · rw [Desktop.store_setSession]
    split
    · exact TidyViews.nil
    · exact h.tidy.views s
  · refine nodup_append.mpr ⟨h.tidy.nodup, nodup_singleton _, fun s hs s' hs' => ?_⟩
    rw [mem_singleton.mp hs']
    exact Nat.ne_of_lt (h.tidy.fresh s hs)
  · rcases mem_append.mp hs with hold | hnew
    · exact Nat.lt_succ_of_lt (h.tidy.fresh s hold)
    · rw [mem_singleton.mp hnew]
      exact Nat.lt_succ_self _
  · -- the new session adds no window
    have hwindows : Desktop.windows { (d.setSession d.nextSession {}) with
        sessions := d.sessions ++ [d.nextSession], nextSession := d.nextSession + 1 } =
        d.windows := by
      unfold Desktop.windows
      rw [flatMap_append, flatMap_singleton, Desktop.store_setSession, if_pos rfl]
      have hold : d.sessions.flatMap (fun s =>
          (Dict.keys ((d.setSession d.nextSession {}).store s).views).map
          fun v => (s, v)) = d.sessions.flatMap fun s => (Dict.keys (d.store s).views).map
          fun v => (s, v) :=
        flatMap_congr fun s hs => by rw [hother s hs]
      rw [hold]
      exact append_nil _
    rw [hwindows]
    exact h.sound.stack

theorem disconnect_sound (h : d.Invariant) (s : SessionId) :
    wp (handle (.disconnect s)) (fun _ d' => d'.Tidy ∧ d'.Sound)
      (fun _ d' => d'.Tidy ∧ d'.Sound) d := by
  simp only [handle, wp_bind, wp_modify]
  have ht : Desktop.Tidy { d with sessions := d.sessions.erase s } :=
    ⟨h.tidy.views, h.tidy.nodup.erase s, fun s' hs' => h.tidy.fresh s' (mem_of_mem_erase hs')⟩
  exact wp_imp (sync_invariant ht h.stack_nodup) (fun _ _ hd => hd)

/-- **One request** keeps the references sound, also when it raises an exception. -/
theorem handle_invariant (r : Request) : Keeps Desktop.Invariant (handle r) := by
  intro d h
  have hsound : wp (handle r) (fun _ d' => d'.Tidy ∧ d'.Sound)
      (fun _ d' => d'.Tidy ∧ d'.Sound) d := by
    have hframe : ∀ (s : SessionId) (session : Session), session.views = (d.store s).views →
        (d.setSession s session).Tidy ∧ (d.setSession s session).Sound := by
      intro s session hviews
      have hf : d.Frame (d.setSession s session) := Desktop.frame_setSession (by rw [hviews])
      exact ⟨hf.toScene.tidy h.tidy, hf.sound h.sound⟩
    cases r with
    | connect => exact connect_sound h
    | disconnect s => exact disconnect_sound h s
    | commit s revision commands => exact dispatchCommit_sound h s revision commands
    | input e =>
      refine wp_mono (input_wp h.ok h.tidy h.sound e) ?_ ?_
      · exact fun _ d' hd' => ⟨hd'.1.tidy, hd'.1.sound⟩
      · exact fun _ d' hd' => ⟨hd'.1.tidy, hd'.1.sound⟩
    | poll s => exact hframe s _ rfl
    | media s resources events => exact hframe s _ (Session.views_emits events _)
  refine wp_mono (wp_and (handle_keeps r d h.ok) hsound) ?_ ?_
  · exact fun _ d' hd' => ⟨hd'.1, hd'.2.1, hd'.2.2⟩
  · exact fun _ d' hd' => ⟨hd'.1, hd'.2.1, hd'.2.2⟩

theorem invariant_initial : Desktop.Invariant {} where
  ok := ok_initial
  tidy := ⟨fun _ => TidyViews.nil, nodup_nil, fun _ hs => absurd hs not_mem_nil⟩
  sound := ⟨List.Perm.refl _, fun _ h => (by cases h), fun _ h => (by cases h),
    fun _ h => (by cases h),
    fun _ h => (by cases h), fun _ h => (by cases h)⟩

theorem invariant_of_run {rs : List Request} (h : exec step {} rs = some d) : d.Invariant :=
  exec_invariant Desktop.Invariant
    (fun _ r _ hd hstep => Option.some.inj hstep ▸ (handle_invariant r).run hd) invariant_initial h

/-- **References are sound, and input raises only on overflow.** After any
interleaving of requests the stack is a permutation of all windows, and hover,
press, focus, drag and resize refer to what is there and may be used; the next
input event raises exactly when it moves the pointer, with a slider pressed, so far
away that the slider's quotient is no float. That takes more than a thousand
binary digits. -/
theorem references_sound (rs : List Request) :
    ∃ d, exec step {} rs = some d ∧ d.Sound ∧
      ∀ e, ((∃ exc d', (input e).run.run d = (.error exc, d')) ↔ d.InputOverflows e) ∧
        (|e.x| ≤ 2 ^ 1000 → ¬ d.InputOverflows e) := by
  obtain ⟨d, hd⟩ := exec_step_isSome rs {}
  have hinv := invariant_of_run hd
  refine ⟨d, hd, hinv.sound, fun e => ⟨input_raises_iff hinv.ok hinv.tidy hinv.sound e,
    fun hx => ?_⟩⟩
  rintro ⟨-, t, n, v, -, -, -, hv, hover⟩
  -- the window is in order after it has followed the pointer, too
  have hok : (d.moved e.x e.y).Ok :=
    ((ok_stable.moveDragged e.x e.y).bind fun _ => ok_stable.moveResized e.x e.y).run hinv.ok
  exact not_overflows (hok.view hv).geometry hx hover

/-- A session creates a window with a slider, and the button goes down on it. -/
def pressedSlider : List Request :=
  [.connect, .commit 0 (.num (.int 1)) (.arr
      [.obj [("op", .str "create_view"), ("view", .str "v")],
        .obj [("op", .str "create_node"), ("view", .str "v"), ("id", .str "s"),
          ("kind", .str "slider")]]),
    .input { kind := some 4, x := 100, y := 130, button := some 1 }]

theorem Desktop.moved_of_still (hdrag : d.drag = none) (hresize : d.resize = none) (x y : Int) :
    d.moved x y = d := by
  refine wp_state (P := fun d' => d' = d) ?_
  simp only [moveDragged, moveResized, wp_bind, wp_get, hdrag, hresize, wp_pure]

/-- Moving the pointer far to the right raises `OverflowError`. -/
theorem far_pointer_raises :
    ∃ d, exec step {} pressedSlider = some d ∧
      ∃ exc d', (input { kind := some 3, x := 2 ^ 1100 }).run.run d = (.error exc, d') := by
  obtain ⟨d, hd, hrefs⟩ := Option.map_eq_some_iff.mp
    (show (exec step {} pressedSlider).map (fun d => (d.pressed, d.drag.isNone, d.resize.isNone)) =
      some (some ⟨0, "v", "s"⟩, true, true) by decide +kernel)
  have hslider : (exec step {} pressedSlider).map (fun d => ((d.viewOf 0 "v").toOption.map
      View.toGeometry, (d.nodeOf ⟨0, "v", "s"⟩).toOption.map Node.kind)) =
      some (some ⟨80, 76, 640, 480⟩, some .slider) := by decide +kernel
  rw [hd, Option.map_some, Option.some.injEq, Prod.mk.injEq] at hslider
  simp only [Prod.mk.injEq, Option.isNone_iff_eq_none] at hrefs
  obtain ⟨hpressed, hdrag, hresize⟩ := hrefs
  obtain ⟨v, hv, hgeometry⟩ := Option.map_eq_some_iff.mp hslider.1
  obtain ⟨n, hn, hkind⟩ := Option.map_eq_some_iff.mp hslider.2
  have hinv := invariant_of_run hd
  refine ⟨d, hd, (input_raises_iff hinv.ok hinv.tidy hinv.sound _).mpr ⟨rfl, ?_⟩⟩
  rw [Desktop.moved_of_still hdrag hresize]
  have hok : ∀ {α : Type} {x : Except PyExc α} {a : α}, x.toOption = some a → x = .ok a := by
    intro α x a h
    cases x with
    | error e => cases h
    | ok b => rw [Option.some.inj h]
  refine ⟨⟨0, "v", "s"⟩, n, v, hpressed, hok hn, hkind, hok hv, ?_⟩
  have hx : v.x = 80 := congrArg Geometry.x hgeometry
  have hw : v.w = 640 := congrArg Geometry.w hgeometry
  unfold Overflows
  rw [hx, hw]
  refine trueDiv_overflow (by decide) ?_
  rw [show 1100 = 1026 + 74 from rfl, pow_add]
  have hone : (1 : ℚ) ≤ 2 ^ 1026 := one_le_pow₀ (by norm_num)
  push_cast
  generalize (2 : ℚ) ^ 1026 = p at hone ⊢
  linarith

end PythonOS.Desktop
