import PythonOS.Desktop.Session

/-!
# PythonOS.Desktop.Commands

What an accepted command does.

`Applied c vid draft draft'` lists the five things a command can do to the draft
of a commit; `applyCommand_applied` says there is nothing else. Properties of
commits are proved by a case split on it, and of `configure`, which most of them
are about, by `configure_eq_ok`.
-/

namespace PythonOS.Desktop

open Lib List Option

/-! ### Inversion of `Except` -/

theorem bind_eq_ok {α β : Type} {x : Except PyExc α} {f : α → Except PyExc β} {b : β}
    (h : (x >>= f) = .ok b) : ∃ a, x = .ok a ∧ f a = .ok b := by
  cases x with
  | error e => cases h
  | ok a => exact ⟨a, rfl, h⟩

theorem require_eq_ok {c : Bool} {message : String} {u : Unit}
    (h : require c message = .ok u) : c = true := by
  unfold require at h
  split at h
  · assumption
  · cases h

theorem identifier_eq_ok {v : Json} {s : String} (h : identifier v = .ok s) : v = .str s := by
  unfold identifier at h
  split at h
  · obtain ⟨_, -, hs⟩ := bind_eq_ok h
    rw [Except.ok.inj hs]
  · cases h

variable {changes : Fields}

theorem properties_eq_ok {v : Json} (h : properties v = .ok changes) : v = .obj changes := by
  unfold properties at h
  split at h
  · rw [Except.ok.inj h]
  · cases h

/-! ### Views -/

/-- Where a new view stands before its properties are looked at. -/
def initialGeometry (views : Views) : Geometry :=
  { x := 80 + views.length * 36, y := 76 + views.length * 36, w := 640, h := 480 }

/-- The properties give a position or a size. -/
def hasGeometry (changes : Fields) : Bool :=
  (Dict.keys changes).any (["x", "y", "w", "h"].contains ·)

/-- Where a view is when it is not maximized: the saved geometry while it is. -/
def View.home (v : View) : Option Geometry :=
  if v.state = .maximized then v.restore else some v.toGeometry

theorem coordinate_eq_old {key : String} {old new : Int}
    (hkey : key ∉ Dict.keys changes) (h : coordinate changes key old = .ok new) : new = old := by
  have hfield : field changes key (.num (.int old)) = .num (.int old) := by
    unfold field
    rw [Dict.get?_eq_none_iff.mpr hkey]
    rfl
  unfold coordinate integer at h
  rw [hfield] at h
  exact (Except.ok.inj h).symm

theorem not_mem_keys_of_hasGeometry (h : hasGeometry changes = false)
    {key : String} (hkey : ["x", "y", "w", "h"].contains key = true) : key ∉ Dict.keys changes := by
  intro hmem
  have hany : hasGeometry changes = true := any_eq_true.mpr ⟨key, hmem, hkey⟩
  rw [h] at hany
  cases hany

theorem changeTitle_eq_ok {v v' : View} (h : changeTitle v changes = .ok v') :
    ∃ title, v' = { v with title } := by
  unfold changeTitle at h
  split at h
  · obtain ⟨title, -, hv'⟩ := bind_eq_ok h
    exact ⟨title, (Except.ok.inj hv').symm⟩
  · exact ⟨v.title, (Except.ok.inj h).symm⟩

theorem changeVisible_eq_ok {v v' : View}
    (h : changeVisible v changes = .ok v') : ∃ visible, v' = { v with visible } := by
  unfold changeVisible at h
  split at h
  · obtain ⟨visible, -, hv'⟩ := bind_eq_ok h
    exact ⟨visible, (Except.ok.inj hv').symm⟩
  · exact ⟨v.visible, (Except.ok.inj h).symm⟩

/-- The way from the old state to the new one keeps the home of the view. -/
theorem leaveMaximized_home {v u : View} {state : WindowState}
    (h : leaveMaximized v state = .ok u) :
    ({ enterMaximized u state with state } : View).home = v.home ∧
      (enterMaximized u state).nodes = v.nodes := by
  unfold leaveMaximized at h
  split at h
  · next hcond =>
    obtain ⟨g, hg, hu⟩ := bind_eq_ok h
    cases hu
    have hrestore : v.restore = some g := by
      unfold lookup at hg
      split at hg
      · next hsome => rw [hsome, Except.ok.inj hg]
      · cases hg
    have henter : ∀ u : View, enterMaximized u state = u := fun u =>
      if_neg fun h => hcond.2 h.1
    rw [henter]
    refine ⟨?_, rfl⟩
    rw [View.home, if_neg hcond.2, View.home, if_pos hcond.1, hrestore]
  · next hcond =>
    cases h
    unfold enterMaximized
    split
    · next henter =>
      refine ⟨?_, rfl⟩
      rw [View.home, if_pos henter.1, View.home, if_neg henter.2]
    · next hstay =>
      refine ⟨?_, rfl⟩
      have hiff : v.state = .maximized ↔ state = .maximized :=
        ⟨fun h => not_not.mp fun hne => hcond ⟨h, hne⟩,
          fun h => not_not.mp fun hne => hstay ⟨h, hne⟩⟩
      simp only [View.home, hiff]

/-- **Inversion of `configure`.** The nodes stay; a maximized view is given no
geometry; and what is given no geometry keeps its home. -/
theorem configure_eq_ok {v v' : View} (h : configure v changes = .ok v') :
    v'.nodes = v.nodes ∧ (v'.state = .maximized → hasGeometry changes = false) ∧
      (hasGeometry changes = false → v'.home = v.home) := by
  obtain ⟨_, -, h⟩ := bind_eq_ok h
  obtain ⟨v1, h1, h⟩ := bind_eq_ok h
  obtain ⟨v2, h2, h⟩ := bind_eq_ok h
  obtain ⟨state, -, h⟩ := bind_eq_ok h
  obtain ⟨v3, h3, h⟩ := bind_eq_ok h
  obtain ⟨_, hgeometry, h⟩ := bind_eq_ok h
  obtain ⟨x, hx, h⟩ := bind_eq_ok h
  obtain ⟨y, hy, h⟩ := bind_eq_ok h
  obtain ⟨w, hw, h⟩ := bind_eq_ok h
  obtain ⟨hh, hhh, h⟩ := bind_eq_ok h
  obtain ⟨_, -, h⟩ := bind_eq_ok h
  cases h
  obtain ⟨title, rfl⟩ := changeTitle_eq_ok h1
  obtain ⟨visible, rfl⟩ := changeVisible_eq_ok h2
  obtain ⟨hhome, hnodes⟩ := leaveMaximized_home h3
  refine ⟨hnodes, fun hmax => ?_, fun hnone => ?_⟩
  · have hmax : state = .maximized := hmax
    have hcond := require_eq_ok hgeometry
    rw [hmax] at hcond
    simp only [bne_self_eq_false, Bool.or_false, List.isEmpty_iff, filter_eq_nil_iff] at hcond
    exact any_eq_false.mpr fun key hkey => by simpa using hcond key hkey
  · -- no coordinate changes, so only the state counts
    have hsame : ∀ {key : String}, ["x", "y", "w", "h"].contains key = true →
        key ∉ Dict.keys changes := fun hkey => not_mem_keys_of_hasGeometry hnone hkey
    obtain rfl := coordinate_eq_old (hsame (by decide)) hx
    obtain rfl := coordinate_eq_old (hsame (by decide)) hy
    obtain rfl := coordinate_eq_old (hsame (by decide)) hw
    obtain rfl := coordinate_eq_old (hsame (by decide)) hhh
    exact hhome

/-! ### Commands -/

/-- What the accepted command `c` on the view `vid` does to the draft. -/
inductive Applied (c : Fields) (vid : String) (draft : Draft) : Draft → Prop
  | create {view v : View} {changes : Fields}
      (op : Op.ofJson (field c "op" .null) = .createView) (fresh : Dict.get? draft.1 vid = none)
      (geometry : view.toGeometry = initialGeometry draft.1) (state : view.state = .normal)
      (nodes : view.nodes = []) (configured : configure view changes = .ok v) :
      Applied c vid draft (Dict.set draft.1 vid v, draft.2)
  | destroy {view : View} (get : Dict.get? draft.1 vid = some view) :
      Applied c vid draft (Dict.erase draft.1 vid, draft.2)
  | configure {view v : View} {changes : Fields}
      (op : Op.ofJson (field c "op" .null) = .configureView)
      (get : Dict.get? draft.1 vid = some view)
      (properties : field c "properties" .null = .obj changes)
      (configured : configure view changes = .ok v) :
      Applied c vid draft (Dict.set draft.1 vid v, draft.2)
  | window {view : View} {op : WindowOp} (get : Dict.get? draft.1 vid = some view)
      (shown : visible view = true) : Applied c vid draft (draft.1, draft.2 ++ [(op, vid)])
  | node {view : View} {nodes : Dict String Node} {op : Op}
      (get : Dict.get? draft.1 vid = some view)
        (changed : nodeCommand view.nodes op c = .ok nodes) :
      Applied c vid draft (Dict.set draft.1 vid { view with nodes }, draft.2)

theorem createView_eq_ok {views views' : Views} {vid : String} {c : Fields}
    (h : createView views vid c = .ok views') :
    ∃ (view v : View) (changes : Fields), Dict.get? views vid = none ∧
      view.toGeometry = initialGeometry views ∧ view.state = .normal ∧ view.nodes = [] ∧
      configure view changes = .ok v ∧ views' = Dict.set views vid v := by
  obtain ⟨_, hfresh, h⟩ := bind_eq_ok h
  obtain ⟨title, -, h⟩ := bind_eq_ok h
  obtain ⟨changes, -, h⟩ := bind_eq_ok h
  obtain ⟨v, hv, h⟩ := bind_eq_ok h
  have hfresh := require_eq_ok hfresh
  rw [Bool.and_eq_true, Bool.not_eq_true', Dict.contains, isSome_eq_false_iff,
    isNone_iff_eq_none] at hfresh
  exact ⟨_, v, changes, hfresh.1, rfl, rfl, rfl, hv, (Except.ok.inj h).symm⟩

theorem viewCommand_applied {draft draft' : Draft} {vid : String} {view : View} {op : Op}
    {c : Fields} (hop : Op.ofJson (field c "op" .null) = op)
    (hget : Dict.get? draft.1 vid = some view) (h : viewCommand draft vid view op c = .ok draft') :
    Applied c vid draft draft' := by
  unfold viewCommand at h
  split at h
  · cases h
    exact .destroy hget
  · obtain ⟨changes, hchanges, h⟩ := bind_eq_ok h
    obtain ⟨v, hv, h⟩ := bind_eq_ok h
    cases h
    exact .configure hop hget (properties_eq_ok hchanges) hv
  · obtain ⟨_, hshown, h⟩ := bind_eq_ok h
    cases h
    exact .window hget (require_eq_ok hshown)
  · obtain ⟨nodes, hnodes, h⟩ := bind_eq_ok h
    cases h
    exact .node hget hnodes

/-- **Inversion of a command.** -/
theorem applyCommand_applied {draft draft' : Draft} {command : Json}
    (h : applyCommand draft command = .ok draft') :
    ∃ c vid, command = .obj c ∧ field c "view" .null = .str vid ∧ Applied c vid draft draft' := by
  unfold applyCommand at h
  split at h
  · next c =>
    obtain ⟨vid, hvid, h⟩ := bind_eq_ok h
    refine ⟨c, vid, rfl, identifier_eq_ok hvid, ?_⟩
    split at h
    · next hop =>
      obtain ⟨views, hviews, h⟩ := bind_eq_ok h
      cases h
      obtain ⟨view, v, changes, hfresh, hgeo, hstate, hnodes, hconf, rfl⟩ :=
        createView_eq_ok hviews
      exact .create hop hfresh hgeo hstate hnodes hconf
    · split at h
      · cases h
      · next view hget => exact viewCommand_applied rfl hget h
  · cases h

end PythonOS.Desktop
