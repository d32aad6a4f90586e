import PythonOS.Desktop.Session

/-!
# PythonOS.Desktop.Commit

What the commands of a commit do to well-formed views: each leaves well-formed
views or raises `ValueError`.

`Accepts x P` says so of a function's result: it returns with `P` or raises
`ValueError`, and nothing else. The proofs follow the `do` blocks of the model,
one lemma for each function.
-/

namespace PythonOS.Desktop

open Lib List Option PyState

/-! ### Returning or raising `ValueError` -/

/-- `x` returns with `P` or raises `ValueError`. -/
def Accepts {α : Type} (x : Except PyExc α) (P : α → Prop) : Prop :=
  match x with
  | .ok a => P a
  | .error e => ∃ message, e = .valueError message

namespace Accepts

variable {α β : Type} {x : Except PyExc α} {P P' : α → Prop} {Q : β → Prop}

theorem error (message : String) : Accepts (Except.error (.valueError message)) P := ⟨message, rfl⟩

theorem bind {f : α → Except PyExc β} (hx : Accepts x P) (hf : ∀ a, P a → Accepts (f a) Q) :
    Accepts (x >>= f) Q := by
  cases x with
  | ok a => exact hf a hx
  | error e => exact hx

theorem mono (h : Accepts x P) (himp : ∀ a, P a → P' a) : Accepts x P' := by
  cases x with
  | ok a => exact himp a h
  | error e => exact h

/-- The returned value may be used together with where it comes from. -/
theorem with_eq (h : Accepts x P) : Accepts x fun a => P a ∧ x = .ok a := by
  cases x with
  | ok a => exact ⟨h, rfl⟩
  | error e => exact h

theorem foldlM {f : β → α → Except PyExc β} {R : α → Prop}
    (hf : ∀ b a, Q b → R a → Accepts (f b a) Q) {as : List α} (has : ∀ a ∈ as, R a) {b : β}
    (hb : Q b) : Accepts (as.foldlM f b) Q := by
  induction as generalizing b with
  | nil => exact hb
  | cons a as ih =>
    refine (hf b a hb (has a mem_cons_self)).bind fun b' hb' => ?_
    exact ih (fun a' ha' => has a' (mem_cons_of_mem a ha')) hb'

end Accepts

theorem require_accepts (c : Bool) (message : String) :
    Accepts (require c message) fun _ => c = true := by
  cases c with
  | false => exact Accepts.error message
  | true => rfl

theorem identifier_accepts (v : Json) : Accepts (identifier v) fun _ => True := by
  cases v with
  | str s => exact (require_accepts _ _).bind fun _ _ => trivial
  | _ => exact Accepts.error _

theorem boolean_accepts (v : Json) (message : String) :
    Accepts (boolean v message) fun _ => True := by
  cases v with
  | bool b => trivial
  | _ => exact Accepts.error _

theorem scene_accepts (v : Json) : Accepts (scene v) fun _ => True := by
  cases v with
  | arr vs =>
    exact (require_accepts _ _).bind fun _ _ => (require_accepts _ _).bind fun _ _ => trivial
  | _ => exact Accepts.error _

theorem properties_accepts (v : Json) : Accepts (properties v) fun _ => True := by
  cases v with
  | obj c => trivial
  | _ => exact Accepts.error _

/-- A label: printable and at most 120 characters. -/
def IsLabel (s : String) : Prop := s.length ≤ 120 ∧ printable s = true

theorem label_accepts (v : Json) : Accepts (label v) IsLabel := by
  cases v with
  | str s =>
    refine (require_accepts _ _).bind fun _ hlen => ?_
    refine (require_accepts _ _).bind fun _ hprint => ?_
    exact ⟨by simpa using hlen, hprint⟩
  | _ => exact Accepts.error _

theorem coordinate_accepts (changes : Fields) (key : String) (old : Int) :
    Accepts (coordinate changes key old) fun _ => True := by
  unfold coordinate integer
  split
  · trivial
  · exact Accepts.error _

/-! ### Well-formed views -/

/-- The window lies on the desktop, below the menu strip, and is not too small. -/
structure Geometry.Ok (g : Geometry) : Prop where
  w_ge : 320 ≤ g.w
  w_le : g.w ≤ width
  h_ge : 180 ≤ g.h
  h_le : g.h ≤ height - 44
  x_ge : 0 ≤ g.x
  x_le : g.x ≤ width - g.w
  y_ge : 44 ≤ g.y
  y_le : g.y ≤ height - g.h

/-- A control's value is of its kind and within range. -/
def ControlValue (kind : Kind) (value : Option Json) : Prop :=
  match kind with
  | .checkbox => ∃ b, value = some (.bool b)
  | .entry => ∃ s, value = some (.str s) ∧ IsLabel s
  | .slider => ∃ v, value = some (.num v) ∧ v.inRange 0 100 = true
  | _ => True

/-- A node has the keys of its kind. -/
structure Node.Ok (n : Node) : Prop where
  value : ControlValue n.kind n.value
  enabled : n.kind.isControl = true → n.enabled.isSome = true
  samples : n.kind = .plot → n.values.isSome = true
  resource : n.kind = .video → n.resource.isSome = true

/-- What every command keeps: geometry, restore geometry and nodes are in
order. -/
structure View.Shape (v : View) : Prop where
  geometry : v.toGeometry.Ok
  restore_iff : v.restore.isSome = true ↔ v.state = .maximized
  restore : ∀ g, v.restore = some g → g.Ok
  nodes : ∀ p ∈ v.nodes, p.2.Ok

/-- The content fits. -/
def View.Fits (v : View) : Prop := contentHeight v + 62 ≤ contentRoom v

/-- What holds between commits. -/
structure View.Ok (v : View) : Prop extends View.Shape v where
  fits : v.Fits

theorem checkGeometry_accepts (g : Geometry) : Accepts (checkGeometry g) fun _ => g.Ok := by
  refine (require_accepts _ _).bind fun _ hsize => ?_
  refine (require_accepts _ _).mono fun _ hpos => ?_
  simp only [Bool.and_eq_true, decide_eq_true_eq] at hsize hpos
  obtain ⟨⟨⟨hw, hw'⟩, hh⟩, hh'⟩ := hsize
  obtain ⟨⟨⟨hx, hx'⟩, hy⟩, hy'⟩ := hpos
  exact ⟨hw, hw', hh, hh', hx, hx', hy, hy'⟩

theorem maximized_geometry_ok : Geometry.Ok { x := 0, y := 44, w := width, h := height - 44 } := by
  constructor <;> decide

variable {v : View}

/-- A view on its way to `state`: out of the maximized state if it has to be. -/
theorem leaveMaximized_accepts (hv : v.Shape) (state : WindowState) :
    Accepts (leaveMaximized v state) fun u =>
      { enterMaximized u state with state }.Shape := by
  unfold leaveMaximized
  split
  · next hcond =>
    obtain ⟨g, hg⟩ := isSome_iff_exists.mp (hv.restore_iff.mpr hcond.1)
    rw [hg]
    have henter : ∀ u : View, enterMaximized u state = u := fun u =>
      if_neg fun h => hcond.2 h.1
    show ({ enterMaximized _ state with state } : View).Shape
    rw [henter]
    exact ⟨hv.restore g hg, by simp [hcond.2], fun _ h => absurd h (by simp), hv.nodes⟩
  · next hcond =>
    show ({ enterMaximized v state with state } : View).Shape
    unfold enterMaximized
    split
    · next henter =>
      refine ⟨maximized_geometry_ok, by simp [henter.1], fun g hg => ?_, hv.nodes⟩
      obtain rfl : v.toGeometry = g := by simpa using hg
      exact hv.geometry
    · next hstay =>
      refine ⟨hv.geometry, hv.restore_iff.trans ?_, hv.restore, hv.nodes⟩
      constructor
      · exact fun h => not_not.mp fun hne => hcond ⟨h, hne⟩
      · exact fun h => not_not.mp fun hne => hstay ⟨h, hne⟩

theorem changeTitle_accepts (hv : v.Shape) (changes : Fields) :
    Accepts (changeTitle v changes) View.Shape := by
  unfold changeTitle
  split
  · exact (label_accepts _).bind fun _ _ => ⟨hv.geometry, hv.restore_iff, hv.restore, hv.nodes⟩
  · exact hv

theorem changeVisible_accepts (hv : v.Shape) (changes : Fields) :
    Accepts (changeVisible v changes) View.Shape := by
  unfold changeVisible
  split
  · exact (boolean_accepts _ _).bind fun _ _ =>
      ⟨hv.geometry, hv.restore_iff, hv.restore, hv.nodes⟩
  · exact hv

theorem newState_accepts (v : View) (changes : Fields) :
    Accepts (newState v changes) fun _ => True := by
  unfold newState
  split
  · trivial
  · split
    · trivial
    · exact Accepts.error _

theorem configure_accepts (hv : v.Shape) (changes : Fields) :
    Accepts (configure v changes) View.Shape := by
  refine (require_accepts _ _).bind fun _ _ => ?_
  refine (changeTitle_accepts hv changes).bind fun v hv => ?_
  refine (changeVisible_accepts hv changes).bind fun v hv => ?_
  refine (newState_accepts v changes).bind fun state _ => ?_
  refine (leaveMaximized_accepts hv state).bind fun v hv => ?_
  refine (require_accepts _ _).bind fun _ _ => ?_
  refine (coordinate_accepts _ _ _).bind fun x _ => ?_
  refine (coordinate_accepts _ _ _).bind fun y _ => ?_
  refine (coordinate_accepts _ _ _).bind fun w _ => ?_
  refine (coordinate_accepts _ _ _).bind fun h _ => ?_
  refine (checkGeometry_accepts _).bind fun _ hg => ?_
  exact ⟨hg, hv.restore_iff, hv.restore, hv.nodes⟩

/-! ### Commands -/

/-- All views are in order. -/
def AllShape (views : Views) : Prop := ∀ p ∈ views, p.2.Shape

variable {views : Views} {n : Node}

theorem AllShape.set (h : AllShape views) (vid : String) (hv : v.Shape) :
    AllShape (Dict.set views vid v) := by
  intro p hp
  rcases Dict.mem_set hp with rfl | hp
  · exact hv
  · exact h p hp

theorem createView_accepts (h : AllShape views) (vid : String) (c : Fields) :
    Accepts (createView views vid c) AllShape := by
  refine (require_accepts _ _).bind fun _ hroom => ?_
  refine (label_accepts _).bind fun title _ => ?_
  refine (properties_accepts _).bind fun changes _ => ?_
  have hlen : views.length < 4 := by
    simp only [Bool.and_eq_true, decide_eq_true_eq] at hroom
    exact hroom.2
  have hshape : View.Shape { title := title, x := 80 + (views.length * 36 : Int),
                             y := 76 + (views.length * 36 : Int), w := 640, h := 480 } := by
    refine ⟨?_, by simp, fun _ hg => absurd hg (by simp), fun _ hp => absurd hp (by simp)⟩
    constructor <;> simp only [width, height] <;> omega
  refine (configure_accepts hshape changes).bind fun v hv => ?_
  exact h.set vid hv

theorem withContent_accepts (hen : n.kind.isControl = true → n.enabled.isSome = true) (c : Fields) :
    Accepts (withContent n c) Node.Ok := by
  obtain ⟨kind, text, enabled, value, vertices, resource, lo, hi, values⟩ := n
  cases kind with
  | checkbox =>
    refine (boolean_accepts _ _).bind fun b _ => ?_
    exact ⟨⟨b, rfl⟩, hen, by simp, by simp⟩
  | entry =>
    refine (label_accepts _).bind fun s hs => ?_
    exact ⟨⟨s, rfl, hs⟩, hen, by simp, by simp⟩
  | slider =>
    refine (require_accepts _ _).bind fun _ hnum => ?_
    refine ⟨?_, hen, by simp, by simp⟩
    cases hv : field c "value" (.num (.int 0)) with
    | num v =>
      rw [hv] at hnum
      exact ⟨v, rfl, hnum⟩
    | _ =>
      rw [hv] at hnum
      exact absurd hnum (by simp [number])
  | scene =>
    refine (scene_accepts _).bind fun vs _ => ?_
    exact ⟨trivial, hen, by simp, by simp⟩
  | video =>
    refine (identifier_accepts _).bind fun r _ => ?_
    exact ⟨trivial, hen, by simp, by simp⟩
  | plot =>
    unfold withContent
    dsimp only
    split
    · refine (require_accepts _ _).bind fun _ _ => ?_
      exact ⟨trivial, hen, by simp, by simp⟩
    · exact Accepts.error _
  | text => exact ⟨trivial, hen, by simp, by simp⟩
  | button => exact ⟨trivial, hen, by simp, by simp⟩

theorem withEnabled_accepts (n : Node) (c : Fields) :
    Accepts (withEnabled n c) fun n' => n'.kind.isControl = true → n'.enabled.isSome = true := by
  unfold withEnabled
  split
  · exact (boolean_accepts _ _).bind fun _ _ _ => rfl
  · next hno => exact fun h => absurd h hno

theorem nodeKind_accepts (v : Json) : Accepts (nodeKind v) fun _ => True := by
  unfold nodeKind
  split
  · trivial
  · exact Accepts.error _

/-- All nodes are in order. -/
def AllNodesOk (nodes : Dict String Node) : Prop := ∀ p ∈ nodes, p.2.Ok

variable {nodes : Dict String Node}

theorem AllNodesOk.set (h : AllNodesOk nodes) (nid : String) (hn : n.Ok) :
    AllNodesOk (Dict.set nodes nid n) := by
  intro p hp
  rcases Dict.mem_set hp with rfl | hp
  · exact hn
  · exact h p hp

theorem createNode_accepts (h : AllNodesOk nodes) (nid : String)
    (c : Fields) : Accepts (createNode nodes nid c) AllNodesOk := by
  refine (require_accepts _ _).bind fun _ _ => ?_
  refine (nodeKind_accepts _).bind fun kind _ => ?_
  refine (require_accepts _ _).bind fun _ _ => ?_
  refine (label_accepts _).bind fun text _ => ?_
  refine (withEnabled_accepts _ c).bind fun n hen => ?_
  refine (withContent_accepts hen c).bind fun n hn => ?_
  exact h.set nid hn

theorem controlValue_accepts (kind : Kind) (v : Json) :
    Accepts (controlValue kind v) fun w => ControlValue kind (some w) := by
  unfold controlValue
  split
  · exact ⟨_, rfl⟩
  · split
    · next hr => exact ⟨_, rfl, hr⟩
    · exact Accepts.error _
  · exact (label_accepts _).bind fun s hs => ⟨s, rfl, hs⟩
  · exact Accepts.error _

theorem appendData_accepts (hn : n.Ok) (v : Json) : Accepts (appendData n v) Node.Ok := by
  refine (require_accepts _ _).bind fun _ hplot => ?_
  have hk : n.kind = .plot := by simpa using hplot
  obtain ⟨old, hold⟩ := isSome_iff_exists.mp (hn.samples hk)
  split
  · refine (require_accepts _ _).bind fun _ _ => ?_
    split
    · rw [hold]
      exact ⟨hn.value, hn.enabled, fun _ => rfl, hn.resource⟩
    · exact Accepts.error _
  · exact Accepts.error _

theorem changeNode_accepts (hn : n.Ok) (op : Op) (c : Fields) :
    Accepts (changeNode n op c) Node.Ok := by
  unfold changeNode
  split
  · refine (label_accepts _).bind fun text _ => ?_
    exact ⟨hn.value, hn.enabled, hn.samples, hn.resource⟩
  · exact appendData_accepts hn _
  · refine (require_accepts _ _).bind fun _ _ => ?_
    refine (boolean_accepts _ _).bind fun b _ => ?_
    exact ⟨hn.value, fun _ => rfl, hn.samples, hn.resource⟩
  · refine (controlValue_accepts _ _).bind fun v hv => ?_
    exact ⟨hv, hn.enabled, hn.samples, hn.resource⟩
  · refine (require_accepts _ _).bind fun _ _ => ?_
    refine (scene_accepts _).bind fun vs _ => ?_
    exact ⟨hn.value, hn.enabled, hn.samples, hn.resource⟩
  · exact Accepts.error _

theorem nodeCommand_accepts (h : AllNodesOk nodes) (op : Op)
    (c : Fields) : Accepts (nodeCommand nodes op c) AllNodesOk := by
  refine (identifier_accepts _).bind fun nid _ => ?_
  split
  · exact createNode_accepts h nid c
  · split
    · exact Accepts.error _
    · next n hget =>
      have hn : n.Ok := h _ (Dict.mem_of_get? hget)
      split
      · exact fun p hp => h p (Dict.mem_erase hp)
      · exact (changeNode_accepts hn op c).bind fun n' hn' => h.set nid hn'

theorem viewCommand_accepts {draft : Draft} (h : AllShape draft.1) {vid : String}
    (hget : Dict.get? draft.1 vid = some v) (op : Op) (c : Fields) :
    Accepts (viewCommand draft vid v op c) fun d => AllShape d.1 := by
  have hv : v.Shape := h _ (Dict.mem_of_get? hget)
  unfold viewCommand
  split
  · exact fun p hp => h p (Dict.mem_erase hp)
  · refine (properties_accepts _).bind fun changes _ => ?_
    exact (configure_accepts hv changes).bind fun v' hv' => h.set vid hv'
  · exact (require_accepts _ _).bind fun _ _ => h
  · refine (nodeCommand_accepts hv.nodes _ c).bind fun nodes hnodes => ?_
    exact h.set vid ⟨hv.geometry, hv.restore_iff, hv.restore, hnodes⟩

/-- **Every command keeps the views in order or raises `ValueError`.** -/
theorem applyCommand_accepts {draft : Draft} (h : AllShape draft.1) (command : Json) :
    Accepts (applyCommand draft command) fun d => AllShape d.1 := by
  unfold applyCommand
  split
  · refine (identifier_accepts _).bind fun vid _ => ?_
    split
    · exact (createView_accepts h vid _).bind fun views hviews => hviews
    · split
      · exact Accepts.error _
      · next v hget => exact viewCommand_accepts h hget _ _
  · exact Accepts.error _

/-! ### The final checks -/

variable (resources : Option (Dict String Resource))

theorem checkNode_accepts (used : List String) (hn : n.Ok) :
    Accepts (checkNode resources used n) fun _ => True := by
  unfold checkNode
  split
  · next hk =>
    obtain ⟨rid, hrid⟩ := isSome_iff_exists.mp (hn.resource hk)
    rw [hrid]
    have hres : Accepts (checkResource resources rid) fun _ => True := by
      unfold checkResource
      split
      · exact (require_accepts _ _).mono fun _ _ => trivial
      · exact Accepts.error _
    refine hres.bind fun _ _ => ?_
    exact (require_accepts _ _).bind fun _ _ => trivial
  · trivial

theorem checkView_accepts (used : List String) (hv : v.Shape) :
    Accepts (checkView resources used v) fun _ => v.Fits := by
  refine (require_accepts _ _).bind fun _ hfit => ?_
  have hnodes : ∀ n ∈ Dict.values v.nodes, n.Ok := by
    intro n hn
    obtain ⟨p, hp, rfl⟩ := mem_map.mp hn
    exact hv.nodes p hp
  have hfold : Accepts ((Dict.values v.nodes).foldlM (checkNode resources) used) fun _ => True :=
    Accepts.foldlM (R := Node.Ok) (fun used _ _ hn => checkNode_accepts resources used hn) hnodes
      trivial
  refine hfold.mono fun _ _ => ?_
  have hle : contentHeight v ≤ contentRoom v - 62 := by simpa using hfit
  show contentHeight v + 62 ≤ contentRoom v
  omega

theorem checkViews_accepts {vs : List View} (h : ∀ v ∈ vs, v.Shape) (used : List String) :
    Accepts (vs.foldlM (checkView resources) used) fun _ => ∀ v ∈ vs, v.Fits := by
  induction vs generalizing used with
  | nil => exact fun v hv => absurd hv (by simp)
  | cons v vs ih =>
    refine (checkView_accepts resources used (h v mem_cons_self)).bind fun used' hfit => ?_
    refine (ih (fun u hu => h u (mem_cons_of_mem v hu)) used').mono fun _ hrest u hu => ?_
    rcases mem_cons.mp hu with rfl | hu
    · exact hfit
    · exact hrest u hu

theorem checkActions_accepts (views : Views) (actions : List (WindowOp × String)) :
    Accepts (actions.forM (checkAction views)) fun _ => True := by
  induction actions with
  | nil => trivial
  | cons a as ih =>
    have hone : Accepts (checkAction views a) fun _ => True := by
      unfold checkAction
      split
      · exact (require_accepts _ _).mono fun _ _ => trivial
      · exact Accepts.error _
    exact hone.bind fun _ _ => ih

/-! ### `commit` -/

/-- All views of a session are in order. -/
def AllOk (views : Views) : Prop := ∀ p ∈ views, p.2.Ok

theorem AllOk.shape (h : AllOk views) : AllShape views :=
  fun p hp => (h p hp).toShape

theorem integer_accepts (v : Json) (message : String) :
    Accepts (integer v message) fun i => v = .num (.int i) := by
  unfold integer
  split
  · rfl
  · exact Accepts.error _

/-- An accepted commit is for the next revision, applies all commands in order
and leaves all views in order. -/
theorem prepare_accepts {s : Session} (h : AllOk s.views) (revision commands : Json) :
    Accepts (s.prepare revision commands resources) fun d =>
      AllOk d.1 ∧ revision = .num (.int (s.revision + 1)) ∧
        ∃ cs, commands = .arr cs ∧ cs.foldlM applyCommand (s.views, []) = .ok d := by
  refine (integer_accepts _ _).bind fun r hr => ?_
  refine (require_accepts _ _).bind fun _ hnext => ?_
  have hrev : revision = .num (.int (s.revision + 1)) := by
    rw [hr, eq_of_beq hnext]
  split
  · next cs =>
    refine (require_accepts _ _).bind fun _ _ => ?_
    have hfold : Accepts (cs.foldlM applyCommand (s.views, [])) fun d => AllShape d.1 :=
      Accepts.foldlM (R := fun _ => True) (fun _ c hd _ => applyCommand_accepts hd c)
        (fun _ _ => trivial) h.shape
    refine hfold.with_eq.bind fun d hd => ?_
    have hshape : ∀ v ∈ Dict.values d.1, v.Shape := by
      intro v hv
      obtain ⟨p, hp, rfl⟩ := mem_map.mp hv
      exact hd.1 p hp
    refine (checkViews_accepts resources hshape []).bind fun _ hfits => ?_
    refine (checkActions_accepts d.1 d.2).bind fun _ _ => ?_
    refine ⟨fun p hp => ⟨hd.1 p hp, hfits p.2 ?_⟩, hrev, cs, rfl, hd.2⟩
    exact mem_map.mpr ⟨p, hp, rfl⟩
  · exact Accepts.error _

/-- **Specification of `commit`.** It installs the result of all commands and
raises the revision by one, or raises `ValueError` and changes nothing. -/
theorem commit_wp {s : Session} (h : AllOk s.views) (revision commands : Json) :
    wp (Session.commit revision commands resources)
      (fun actions s' => ∃ cs views, commands = .arr cs ∧ revision = .num (.int (s.revision + 1)) ∧
        cs.foldlM applyCommand (s.views, []) = .ok (views, actions) ∧ AllOk views ∧
        s' = { s with views, revision := s.revision + 1 })
      (fun e s' => (∃ message, e = .valueError message) ∧ s' = s) s := by
  have hprep := prepare_accepts resources h revision commands
  simp only [Session.commit, wp_bind, wp_get, wp_liftExcept, wp_set, wp_pure]
  cases hp : s.prepare revision commands resources with
  | ok d =>
    rw [hp] at hprep
    obtain ⟨hok, hrev, cs, hcs, hfold⟩ := hprep
    exact ⟨cs, d.1, hcs, hrev, hfold, hok, rfl⟩
  | error e =>
    rw [hp] at hprep
    exact ⟨hprep, trivial⟩

end PythonOS.Desktop
