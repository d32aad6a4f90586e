import PythonOS.Desktop.Commit
import PythonOS.Desktop.Input

/-!
# PythonOS.Desktop.Invariant

Every request keeps every view of every session in order (`View.Ok`).

Commits and input change views independently, and the clamping of a resize is
only right for a window in its normal state: a maximized one may have content
that is higher than the room below its top edge. So the invariant of the
desktop also says that a window being resized is in the normal state. A commit
may break that part; `sync`, which follows it, restores it.
-/

set_option linter.dupNamespace false

namespace PythonOS.Desktop

open Lib List PyState

/-- Every view is in order, and a window being resized is in the normal state. -/
structure Desktop.Ok (d : Desktop) : Prop where
  views : ∀ s, AllOk (d.store s).views
  resize : ∀ w v, d.resize = some w → Dict.get? (d.store w.1).views w.2 = some v →
    v.state = .normal

/-! ### Views under the pointer -/

variable {v : View} {n : Node}

theorem dragTo_ok (h : v.Ok) (x y dx dy : Int) : (dragTo x y dx dy v).Ok := by
  have hg := h.geometry
  refine ⟨⟨?_, h.restore_iff, h.restore, h.nodes⟩, ?_⟩
  · have := hg.x_le
    have := hg.y_le
    have := hg.x_ge
    have := hg.y_ge
    refine ⟨hg.w_ge, hg.w_le, hg.h_ge, hg.h_le, ?_, ?_, ?_, ?_⟩ <;> simp only [dragTo] <;> omega
  · have hroom : contentRoom (dragTo x y dx dy v) = contentRoom v := by
      unfold contentRoom
      cases hr : v.restore with
      | none => simp [dragTo, hr]
      | some g => simp [dragTo, hr]
    show contentHeight v + 62 ≤ _
    rw [hroom]
    exact h.fits

theorem resizeTo_ok (h : v.Ok) (hstate : v.state = .normal) (x y : Int) : (resizeTo x y v).Ok := by
  obtain ⟨hw, hw', hh, hh', hx, hx', hy, hy'⟩ := h.geometry
  have hroom : ∀ u : View, u.state = .normal → contentRoom u = u.h := by
    intro u hu
    simp [contentRoom, hu]
  have hfits : contentHeight v + 62 ≤ v.h := by
    rw [← hroom v hstate]
    exact h.fits
  refine ⟨⟨⟨?_, ?_, ?_, ?_, hx, ?_, hy, ?_⟩, h.restore_iff, h.restore, h.nodes⟩, ?_⟩
  case refine_7 =>
    show contentHeight v + 62 ≤ contentRoom (resizeTo x y v)
    rw [hroom (resizeTo x y v) hstate]
    simp only [resizeTo]
    omega
  all_goals simp only [resizeTo, width, height] at *; omega

/-! ### Nodes under the pointer and the keyboard -/

/-- Replacing a node by one of the same kind leaves the content as high as it was. -/
theorem values_set_sum {nodes : Dict String Node} {nid : String} {n' : Node}
    (hget : Dict.get? nodes nid = some n) (hkind : n'.kind = n.kind) :
    ((Dict.values (Dict.set nodes nid n')).map nodeHeight).sum =
      ((Dict.values nodes).map nodeHeight).sum := by
  induction nodes with
  | nil => cases hget
  | cons p rest ih =>
    obtain ⟨k, m⟩ := p
    by_cases hk : k = nid
    · obtain rfl : m = n := by simpa [Dict.get?_cons, hk] using hget
      simp [Dict.set, Dict.values, hk, nodeHeight, hkind]
    · have hrest : Dict.get? rest nid = some n := by simpa [Dict.get?_cons, hk] using hget
      have hsum := ih hrest
      simp only [Dict.values, map_map] at hsum
      simp [Dict.set, Dict.values, hk, hsum]

theorem View.Ok.setNode (h : v.Ok) {nid : String} {n' : Node}
    (hget : Dict.get? v.nodes nid = some n) (hkind : n'.kind = n.kind) (hn' : n'.Ok) :
    ({ v with nodes := Dict.set v.nodes nid n' } : View).Ok := by
  refine ⟨⟨h.geometry, h.restore_iff, h.restore, AllNodesOk.set h.nodes nid hn'⟩, ?_⟩
  show ((Dict.values (Dict.set v.nodes nid n')).map nodeHeight).sum + 62 ≤ contentRoom v
  rw [values_set_sum hget hkind]
  exact h.fits

/-- A control with another value of its kind. -/
theorem Node.Ok.setValue (h : n.Ok) {value : Json} (hv : ControlValue n.kind (some value)) :
    ({ n with value := some value } : Node).Ok :=
  ⟨hv, h.enabled, h.samples, h.resource⟩

theorem toggle_ok {n' : Node} (h : n.Ok) (hkind : n.kind = .checkbox) (ht : toggle n = .ok n') :
    n'.Ok ∧ n'.kind = n.kind := by
  unfold toggle at ht
  cases hv : n.value with
  | none => exact absurd ht (by simp [hv, lookup, bind, Except.bind])
  | some v =>
    obtain rfl : { n with value := some (.bool (!v.truthy)) } = n' := by
      simpa [hv, lookup, bind, Except.bind, pure, Except.pure] using ht
    refine ⟨h.setValue ?_, rfl⟩
    rw [hkind]
    exact ⟨_, rfl⟩

theorem sliderValue_mem {x i : Int} (h : sliderValue v x = .ok i) : 0 ≤ i ∧ i ≤ 100 := by
  unfold sliderValue at h
  cases hq : trueDiv ((x - v.x - 20) * 100) (v.w - 40) with
  | error e => exact absurd h (by simp [hq, bind, Except.bind])
  | ok q =>
    have hround : (q.clamp 0 100).round = .ok i := by simpa [hq, bind, Except.bind] using h
    obtain ⟨j, hj, hmem⟩ := PyNum.round_mem (PyNum.clamp_mem 0 100 (by decide) q)
    obtain rfl : j = i := by simpa [hj] using hround
    exact hmem

theorem slider_value_ok {i : Int} (h : 0 ≤ i ∧ i ≤ 100) :
    ControlValue .slider (some (.num (.int i))) := by
  refine ⟨_, rfl, ?_⟩
  simp only [PyNum.inRange, PyNum.toRat?, Bool.and_eq_true, decide_eq_true_eq]
  exact_mod_cast h

/-- Editing an entry keeps its text a label. -/
theorem typed_isLabel {old : String} (h : IsLabel old) (e : InputEvent) :
    IsLabel (typed old e) := by
  obtain ⟨hlen, hprint⟩ := h
  unfold printable at hprint
  rw [all_eq_true] at hprint
  unfold typed
  split_ifs with hback htext
  · refine ⟨?_, ?_⟩
    · simp only [String.length_ofList, length_dropLast, String.length_toList]
      omega
    · simp only [printable, String.toList_ofList, all_eq_true]
      exact fun c hc => hprint c (dropLast_subset _ hc)
  · refine ⟨?_, ?_⟩
    · simp only [String.length_ofList, length_take]
      omega
    · unfold printable at htext
      rw [all_eq_true] at htext
      simp only [printable, String.toList_ofList, all_eq_true]
      intro c hc
      rcases mem_append.mp (mem_of_mem_take hc) with hold | hnew
      · exact hprint c hold
      · exact htext c hnew
  · exact ⟨hlen, all_eq_true.mpr hprint⟩

/-! ### Changes of the desktop -/

@[simp] theorem Session.views_emit (s : Session) (body : EventBody) :
    (s.emit body).views = s.views := by
  unfold Session.emit
  split <;> rfl

theorem Session.views_emits (bodies : List EventBody) (s : Session) :
    (bodies.foldl Session.emit s).views = s.views := by
  induction bodies generalizing s with
  | nil => rfl
  | cons b bodies ih => rw [foldl_cons, ih, Session.views_emit]

namespace Desktop

theorem store_setSession (d : Desktop) (s s' : SessionId) (session : Session) :
    (d.setSession s session).store s' = if s' = s then session else d.store s' := by
  unfold setSession
  by_cases h : s' = s
  · subst h
    simp
  · simp [h]

/-- The views of all sessions are those of `d`. -/
def SameViews (d d' : Desktop) : Prop := ∀ s, (d'.store s).views = (d.store s).views

theorem sameViews_setSession (d : Desktop) (s : SessionId) {session : Session}
    (h : session.views = (d.store s).views) : SameViews d (d.setSession s session) := by
  intro s'
  rw [store_setSession]
  split
  · next hs =>
    rw [h, hs]
  · rfl

variable {d : Desktop} {s : SessionId} {v : View} {vid : String}

/-- Changes that leave the views alone, and at most stop a resize. -/
theorem Ok.congr {d' : Desktop} (h : d.Ok) (hviews : SameViews d d')
    (hresize : d'.resize = d.resize ∨ d'.resize = none) : d'.Ok := by
  refine ⟨fun s => ?_, fun w v hw hv => ?_⟩
  · rw [hviews s]
    exact h.views s
  · rcases hresize with heq | hnone
    · rw [hviews] at hv
      exact h.resize w v (heq ▸ hw) hv
    · rw [hnone] at hw
      cases hw

theorem viewOf_eq_ok (h : d.viewOf s vid = .ok v) : Dict.get? (d.store s).views vid = some v := by
  unfold viewOf lookup at h
  split at h
  · next hget =>
    rw [hget, Except.ok.inj h]
  · cases h

theorem viewOf_of_get? (h : Dict.get? (d.store s).views vid = some v) : d.viewOf s vid = .ok v := by
  rw [viewOf, h]
  rfl

/-- A view that can be read is in order. -/
theorem Ok.view (h : d.Ok) (hv : d.viewOf s vid = .ok v) : v.Ok :=
  h.views s (vid, v) (Dict.mem_of_get? (viewOf_eq_ok hv))

/-- A view in place of another one in the same state. -/
theorem Ok.setView (h : d.Ok) {v' : View} (hv : d.viewOf s vid = .ok v) (hv' : v'.Ok)
    (hstate : v'.state = v.state) : (d.setViews s (Dict.set (d.store s).views vid v')).Ok := by
  have hget := viewOf_eq_ok hv
  refine ⟨fun s' => ?_, fun w u hw hu => ?_⟩
  · rw [setViews, store_setSession]
    split
    · intro p hp
      rcases Dict.mem_set hp with hnew | hold
      · rw [hnew]
        exact hv'
      · exact h.views s p hold
    · exact h.views s'
  · rw [setViews, store_setSession] at hu
    split at hu
    · next hs =>
      rw [Dict.get?_set] at hu
      split at hu
      · next hvid =>
        cases hu
        rw [hstate]
        exact h.resize w v hw (by rw [hs, hvid]; exact hget)
      · exact h.resize w u hw (by rw [hs]; exact hu)
    · exact h.resize w u hw hu

/-- The node that can be read at a target is of a kind. -/
def KindAt (d : Desktop) (t : Target) (kind : Kind) : Prop :=
  ∀ n, d.nodeOf t = .ok n → n.kind = kind

theorem nodeOf_eq_ok {t : Target} {n : Node} (h : d.nodeOf t = .ok n) :
    ∃ v, d.viewOf t.session t.view = .ok v ∧ Dict.get? v.nodes t.node = some n := by
  unfold nodeOf at h
  cases hv : d.viewOf t.session t.view with
  | error e => exact absurd h (by simp [hv, bind, Except.bind])
  | ok v =>
    refine ⟨v, rfl, ?_⟩
    simp only [hv, bind, Except.bind, lookup] at h
    split at h
    · next hget =>
      rw [hget, Except.ok.inj h]
    · cases h

theorem Ok.node (h : d.Ok) {t : Target} {n : Node} (hn : d.nodeOf t = .ok n) : n.Ok := by
  obtain ⟨v, hv, hget⟩ := nodeOf_eq_ok hn
  exact (h.view hv).nodes (t.node, n) (Dict.mem_of_get? hget)

end Desktop

variable {d : Desktop}

/-! ### `sync` -/

/-- Every window of the stack exists. -/
def Listed (d : Desktop) : Prop := ∀ p ∈ d.stack, ∃ v, d.viewOf p.1 p.2 = .ok v

theorem viewOf_of_contains {s : SessionId} {vid : String}
    (h : Dict.contains (d.store s).views vid = true) : ∃ v, d.viewOf s vid = .ok v := by
  obtain ⟨v, hv⟩ := Option.isSome_iff_exists.mp h
  exact ⟨v, Desktop.viewOf_of_get? hv⟩

/-- Appending what is missing covers both lists and adds nothing else. -/
theorem mem_foldl_append {α : Type} [BEq α] [LawfulBEq α] {all kept : List α} {p : α} :
    p ∈ all.foldl (fun stack p => if stack.contains p then stack else stack ++ [p]) kept ↔
      p ∈ kept ∨ p ∈ all := by
  induction all generalizing kept with
  | nil => simp
  | cons a all ih =>
    rw [foldl_cons, ih, mem_cons, ← or_assoc]
    refine or_congr_left ?_
    split
    · next ha => exact ⟨.inl, fun hp => hp.elim id fun hp => hp ▸ contains_iff_mem.mp ha⟩
    · rw [mem_append, mem_singleton]

theorem listed_syncedStack (d : Desktop) : Listed { d with stack := d.syncedStack } := by
  intro p hp
  rcases mem_foldl_append.mp hp with hkept | hall
  · have hcond := (mem_filter.mp hkept).2
    rw [Bool.and_eq_true] at hcond
    exact viewOf_of_contains hcond.2
  · obtain ⟨s, -, hs⟩ := mem_flatMap.mp hall
    obtain ⟨vid, hvid, rfl⟩ := mem_map.mp hs
    refine viewOf_of_contains (d := d) (Option.isSome_iff_ne_none.mpr fun hnone => ?_)
    exact Dict.get?_eq_none_iff.mp hnone hvid

theorem controlStale_isOk (h : Listed d) (t : Target) : ∃ b, d.controlStale t = .ok b := by
  unfold Desktop.controlStale
  split_ifs with hmem
  · obtain ⟨v, hv⟩ := h _ hmem
    simp only [hv, bind, Except.bind]
    split_ifs
    · exact ⟨true, rfl⟩
    · split <;> exact ⟨_, rfl⟩
  · exact ⟨true, rfl⟩

theorem windowStale_isOk (h : Listed d) (w : SessionId × String) :
    ∃ b, d.windowStale w = .ok b := by
  unfold Desktop.windowStale
  split_ifs with hmem
  · obtain ⟨v, hv⟩ := h _ hmem
    simp only [hv, bind, Except.bind]
    exact ⟨_, rfl⟩
  · exact ⟨true, rfl⟩

/-- A window that is not let go is in the normal state. -/
theorem windowStale_false {w : SessionId × String} (h : d.windowStale w = .ok false)
    (hv : d.viewOf w.1 w.2 = .ok v) : v.state = .normal := by
  unfold Desktop.windowStale at h
  split_ifs at h with hmem
  · simp only [hv, bind, Except.bind, pure, Except.pure, Except.ok.injEq, Bool.or_eq_false_iff,
      bne_eq_false_iff_eq] at h
    exact h.2
  · cases h

theorem dropStale_wp {α : Type} {target : Desktop → Option α}
    {stale : Desktop → α → Except PyExc Bool} {drop : Desktop → Desktop}
    {Q : Desktop → Prop} (hstale : ∀ t, ∃ b, stale d t = .ok b)
    (hkeep : (∀ t, target d = some t → stale d t = .ok false) → Q d) (hdrop : Q (drop d)) :
    returns (dropStale target stale drop) (fun _ => Q) d := by
  simp only [dropStale, wp_bind, wp_get]
  cases ht : target d with
  | none => exact hkeep fun t h => absurd h (by simp [ht])
  | some t =>
    obtain ⟨b, hb⟩ := hstale t
    simp only [wp_bind, wp_liftExcept, hb]
    cases b with
    | true => exact hdrop
    | false =>
      refine hkeep fun t' h' => ?_
      obtain rfl : t = t' := by simpa [ht] using h'
      exact hb

/-- **`sync` restores the invariant**: it needs the views in order, and raises
nothing. -/
theorem sync_wp (h : ∀ s, AllOk (d.store s).views) : returns sync (fun _ => Desktop.Ok) d := by
  -- what the rounds of the loop have in common
  let J : Desktop → Prop := fun d => (∀ s, AllOk (d.store s).views) ∧ Listed d
  have hcontrol : ∀ {d : Desktop}, J d → ∀ t, ∃ b, d.controlStale t = .ok b :=
    fun hd t => controlStale_isOk hd.2 t
  have hmono : ∀ {m : D Unit} {P : Desktop → Prop} {d : Desktop},
      returns m (fun _ => J) d →
      (∀ d', J d' → P d') → returns m (fun _ => P) d :=
    fun hm hP => wp_imp hm (fun _ d' hd' => hP d' hd')
  simp only [sync, wp_bind, wp_modify]
  refine hmono (dropStale_wp (hcontrol ⟨h, listed_syncedStack d⟩) ?_ ?_) fun d hd => ?_
  · exact fun _ => ⟨h, listed_syncedStack d⟩
  · exact ⟨h, listed_syncedStack d⟩
  refine hmono (dropStale_wp (hcontrol hd) (fun _ => hd) hd) fun d hd => ?_
  refine hmono (dropStale_wp (hcontrol hd) (fun _ => hd) hd) fun d hd => ?_
  refine hmono (dropStale_wp (fun t => windowStale_isOk hd.2 t.1) (fun _ => hd) hd) fun d hd => ?_
  refine dropStale_wp (fun t => windowStale_isOk hd.2 t) (fun hkeep => ?_) ?_
  · exact ⟨hd.1, fun w v hw hv => windowStale_false (hkeep w hw) (Desktop.viewOf_of_get? hv)⟩
  · exact ⟨hd.1, fun w v hw _ => absurd hw (by simp)⟩

end PythonOS.Desktop
