import PythonOS.Lib.PyState
import PythonOS.Lib.PyValue

/-!
# PythonOS.Desktop.Session

Sessions of the message desktop (`tools/desktop_service/model.py`): views, their
nodes, and the transaction `commit`.

A view or node is a Python dictionary; the keys it always has are fields, the
keys it may lack are optional fields, and reading an absent one is a `KeyError`.
`commit` works on a deep copy of the views, so the commands are functions from
views to views; only the last assignment touches the session.
-/

namespace PythonOS.Desktop

open Lib

def width : Int := 1000
def height : Int := 720
def limitViews : Nat := 4
def limitNodes : Nat := 24
def limitSamples : Nat := 256
def limitCommands : Nat := 64
def limitEvents : Nat := 64

/-- The kinds of nodes: `"text"`, `CONTROLS` and `VISUALS`. -/
inductive Kind
  | text | button | checkbox | entry | slider | plot | scene | video
  deriving Repr, DecidableEq

namespace Kind

def isControl : Kind → Bool
  | button | checkbox | entry | slider => true
  | _ => false

def isVisual : Kind → Bool
  | plot | scene | video => true
  | _ => false

def ofJson : Json → Option Kind
  | .str "text" => some text
  | .str "button" => some button
  | .str "checkbox" => some checkbox
  | .str "entry" => some entry
  | .str "slider" => some slider
  | .str "plot" => some plot
  | .str "scene" => some scene
  | .str "video" => some video
  | _ => none

end Kind

inductive WindowState
  | normal | minimized | maximized
  deriving Repr, DecidableEq

def WindowState.ofJson : Json → Option WindowState
  | .str "normal" => some normal
  | .str "minimized" => some minimized
  | .str "maximized" => some maximized
  | _ => none

structure Node where
  kind : Kind
  text : String
  enabled : Option Bool := none
  value : Option Json := none
  vertices : Option (List Json) := none
  resource : Option String := none
  min : Option PyNum := none
  max : Option PyNum := none
  values : Option (List PyNum) := none

/-- Position and size of a window. -/
structure Geometry where
  x : Int
  y : Int
  w : Int
  h : Int
  deriving Repr, DecidableEq

structure View extends Geometry where
  title : String
  visible : Bool := true
  state : WindowState := .normal
  nodes : Dict String Node := []
  restore : Option Geometry := none

/-- A media resource, as far as `commit` looks at it. -/
structure Resource where
  isVideo : Bool
  ready : Bool
  deriving Repr, DecidableEq

/-- What a session is told about. -/
inductive EventBody
  | activate (view target : String)
  | change (view target : String) (value : Json)
  | closed (view : String)
  | configured (view : String) (geometry : Geometry)
  | mediaEnded (resource : String)
  | mediaError (resource message : String)

structure Event where
  body : EventBody
  revision : Int

abbrev Views := Dict String View

structure Session where
  views : Views := []
  revision : Int := 0
  events : List Event := []
  overflow : Bool := false
  resources : Dict String Resource := []

/-- The two window actions of a commit. -/
inductive WindowOp
  | focusView | lowerView
  deriving Repr, DecidableEq

/-- `d[key]` on a dictionary that may lack the key. -/
def lookup {α : Type} (key : String) : Option α → Except PyExc α
  | some a => .ok a
  | none => .error (.keyError key)

/-- `require`. -/
def require (condition : Bool) (message : String) : Except PyExc Unit :=
  if condition then .ok () else .error (.valueError message)

/-- `number`. -/
def number (value : Json) (lo hi : ℚ) : Bool :=
  match value with
  | .num v => v.inRange lo hi
  | _ => false

/-- One vertex of a scene: four coordinates and three colour components. -/
def sceneVertex : Json → Bool
  | .arr v => v.length == 7 && (v.take 4).all (number · (-1000000) 1000000) &&
      (v.drop 4).all (number · 0 1)
  | _ => false

/-- `scene`. -/
def scene (vertices : Json) : Except PyExc (List Json) :=
  match vertices with
  | .arr vs => do
    require (vs.length ≤ 768 && vs.length % 3 == 0) "scene requires at most 256 triangles"
    require (vs.all sceneVertex) "invalid scene vertex"
    return vs
  | _ => .error (.valueError "scene requires at most 256 triangles")

/-- `visible`. -/
def visible (view : View) : Bool := view.visible && view.state != .minimized

/-- The height a node of a kind takes up. -/
def nodeHeight (n : Node) : Int := if n.kind.isVisual then 184 else 38

/-- `content_height`. -/
def contentHeight (view : View) : Int := ((Dict.values view.nodes).map nodeHeight).sum

/-- `identifier`. -/
def identifier (value : Json) : Except PyExc String :=
  match value with
  | .str s => do
    require (0 < s.length && s.length ≤ 64) "invalid identifier"
    return s
  | _ => .error (.valueError "invalid identifier")

/-- Printable ASCII. -/
def printable (s : String) : Bool := s.toList.all fun c => 32 ≤ c.toNat && c.toNat ≤ 126

/-- `label`. -/
def label (value : Json) : Except PyExc String :=
  match value with
  | .str s => do
    require (s.length ≤ 120) "invalid label"
    require (printable s) "labels must be printable ASCII"
    return s
  | _ => .error (.valueError "invalid label")

/-- `type(value) is bool`, with the value. -/
def boolean (value : Json) (message : String) : Except PyExc Bool :=
  match value with
  | .bool b => .ok b
  | _ => .error (.valueError message)

/-- `type(value) is int`, with the value. -/
def integer (value : Json) (message : String) : Except PyExc Int :=
  match value with
  | .num (.int i) => .ok i
  | _ => .error (.valueError message)

/-- The object a command or its properties are. -/
abbrev Fields := Dict String Json

/-- `c.get(key, default)`. -/
def field (c : Fields) (key : String) (default : Json) : Json := (Dict.get? c key).getD default

/-- Size and position checks at the end of `configure`. -/
def checkGeometry (g : Geometry) : Except PyExc Unit := do
  require (320 ≤ g.w && g.w ≤ width && 180 ≤ g.h && g.h ≤ height - 44) "invalid window size"
  require (0 ≤ g.x && g.x ≤ width - g.w && 44 ≤ g.y && g.y ≤ height - g.h)
    "window must fit the desktop"

/-- `configure`: a maximized view that changes state takes its saved geometry. -/
def leaveMaximized (view : View) (state : WindowState) : Except PyExc View :=
  if view.state = .maximized ∧ state ≠ .maximized then do
    let g ← lookup "restore" view.restore
    return { view with toGeometry := g, restore := none }
  else .ok view

/-- `configure`: a view that becomes maximized saves its geometry. -/
def enterMaximized (view : View) (state : WindowState) : View :=
  if state = .maximized ∧ view.state ≠ .maximized then
    { view with
      restore := some view.toGeometry
      toGeometry := { x := 0, y := 44, w := width, h := height - 44 } }
  else view

/-- `configure`: the title, if given. -/
def changeTitle (view : View) (changes : Fields) : Except PyExc View :=
  match Dict.get? changes "title" with
  | some t => do return { view with title := ← label t }
  | none => .ok view

/-- `configure`: visibility, if given. -/
def changeVisible (view : View) (changes : Fields) : Except PyExc View :=
  match Dict.get? changes "visible" with
  | some v => do return { view with visible := ← boolean v "visible must be boolean" }
  | none => .ok view

/-- `configure`: the state the view is to be in. -/
def newState (view : View) (changes : Fields) : Except PyExc WindowState :=
  match Dict.get? changes "state" with
  | none => .ok view.state
  | some s =>
    match WindowState.ofJson s with
    | some state => .ok state
    | none => .error (.valueError "invalid window state")

/-- The coordinate `key` after `view.update(geometry)`. -/
def coordinate (changes : Fields) (key : String) (old : Int) : Except PyExc Int :=
  integer (field changes key (.num (.int old))) "geometry must be integer"

/-- `configure`. -/
def configure (view : View) (changes : Fields) : Except PyExc View := do
  require ((Dict.keys changes).all (["title", "x", "y", "w", "h", "visible", "state"].contains ·))
    "unknown view property"
  let view ← changeTitle view changes
  let view ← changeVisible view changes
  let state ← newState view changes
  let view ← leaveMaximized view state
  let view := { enterMaximized view state with state }
  let geometry := (Dict.keys changes).filter (["x", "y", "w", "h"].contains ·)
  require (geometry.isEmpty || state != .maximized) "restore before changing maximized geometry"
  let x ← coordinate changes "x" view.x
  let y ← coordinate changes "y" view.y
  let w ← coordinate changes "w" view.w
  let h ← coordinate changes "h" view.h
  checkGeometry { x, y, w, h }
  return { view with toGeometry := { x, y, w, h } }

/-- The operations of a commit. -/
inductive Op
  | createView | destroyView | configureView | window (op : WindowOp)
  | createNode | setText | appendData | destroyNode | setEnabled | setValue | setScene
  | unknown
  deriving Repr, DecidableEq

def Op.ofJson : Json → Op
  | .str "create_view" => createView
  | .str "destroy_view" => destroyView
  | .str "configure_view" => configureView
  | .str "focus_view" => window .focusView
  | .str "lower_view" => window .lowerView
  | .str "create_node" => createNode
  | .str "set_text" => setText
  | .str "append_data" => appendData
  | .str "destroy_node" => destroyNode
  | .str "set_enabled" => setEnabled
  | .str "set_value" => setValue
  | .str "set_scene" => setScene
  | _ => unknown

/-- `type(v) in (int, float) and abs(v) <= 1e9 and math.isfinite(v)`, with the
value. -/
def sample : Json → Option PyNum
  | .num v => if v.inRange (-1000000000) 1000000000 then some v else none
  | _ => none

/-- `properties` of a command, with a default. -/
def properties (value : Json) : Except PyExc Fields :=
  match value with
  | .obj changes => .ok changes
  | _ => .error (.valueError "properties must be an object")

/-- `create_view`. -/
def createView (views : Views) (vid : String) (c : Fields) : Except PyExc Views := do
  require (!Dict.contains views vid && views.length < limitViews) "view exists or limit reached"
  let offset : Int := views.length * 36
  let title ← label (field c "title" (.str vid))
  let view : View := { title, x := 80 + offset, y := 76 + offset, w := 640, h := 480 }
  let changes ← properties (field c "properties" (.obj []))
  return Dict.set views vid (← configure view changes)

/-- `create_node`: the kind. -/
def nodeKind (value : Json) : Except PyExc Kind :=
  match Kind.ofJson value with
  | some kind => .ok kind
  | none => .error (.valueError "unsupported node kind")

/-- `create_node`: whether a control is enabled. -/
def withEnabled (node : Node) (c : Fields) : Except PyExc Node :=
  if node.kind.isControl then do
    return { node with
      enabled := some (← boolean (field c "enabled" (.bool true)) "enabled must be boolean") }
  else .ok node

/-- `create_node`: the keys of the node's kind. -/
def withContent (node : Node) (c : Fields) : Except PyExc Node :=
  match node.kind with
  | .checkbox => do
    let b ← boolean (field c "value" (.bool false)) "checkbox value must be boolean"
    return { node with value := some (.bool b) }
  | .entry => do return { node with value := some (.str (← label (field c "value" (.str "")))) }
  | .slider => do
    let v := field c "value" (.num (.int 0))
    require (number v 0 100) "slider value must be 0..100"
    return { node with value := some v }
  | .scene => do return { node with vertices := some (← scene (field c "vertices" (.arr []))) }
  | .video => do return { node with resource := some (← identifier (field c "resource" .null)) }
  | .plot =>
    match sample (field c "min" (.num (.int 0))), sample (field c "max" (.num (.int 100))) with
    | some lo, some hi => do
      require (lo.lt hi) "invalid plot range"
      return { node with min := some lo, max := some hi, values := some [] }
    | _, _ => .error (.valueError "invalid plot range")
  | .text | .button => .ok node

/-- `create_node`. -/
def createNode (nodes : Dict String Node) (nid : String) (c : Fields) :
    Except PyExc (Dict String Node) := do
  require (!Dict.contains nodes nid && nodes.length < limitNodes) "node exists or limit reached"
  let kind ← nodeKind (field c "kind" .null)
  require (kind != .plot || !(Dict.values nodes).any (·.kind == .plot)) "one plot per view"
  let text ← label (field c "text" (.str ""))
  let node ← withEnabled { kind, text } c
  let node ← withContent node c
  return Dict.set nodes nid node

/-- `set_value`: the value a control of a kind takes. -/
def controlValue (kind : Kind) (value : Json) : Except PyExc Json :=
  match kind, value with
  | .checkbox, .bool b => .ok (.bool b)
  | .slider, .num v =>
    if v.inRange 0 100 then .ok (.num v) else .error (.valueError "invalid control value")
  | .entry, .str s => do return .str (← label (.str s))
  | _, _ => .error (.valueError "invalid control value")

/-- `append_data`. -/
def appendData (node : Node) (values : Json) : Except PyExc Node := do
  require (node.kind == .plot) "append requires a plot"
  match values with
  | .arr vs => do
    require (vs.length ≤ limitSamples) "invalid sample count"
    match vs.mapM sample with
    | some vs => do
      let old ← lookup "values" node.values
      let all := old ++ vs
      return { node with values := some (all.drop (all.length - limitSamples)) }
    | none => throw (.valueError "samples must be finite numbers within +/-1e9")
  | _ => throw (.valueError "invalid sample count")

/-- The commands that change a node. -/
def changeNode (node : Node) (op : Op) (c : Fields) : Except PyExc Node :=
  match op with
  | .setText => do return { node with text := ← label (field c "text" .null) }
  | .appendData => appendData node (field c "values" .null)
  | .setEnabled => do
    require node.kind.isControl "set_enabled requires control and boolean"
    let b ← boolean (field c "enabled" .null) "set_enabled requires control and boolean"
    return { node with enabled := some b }
  | .setValue => do
    return { node with value := some (← controlValue node.kind (field c "value" .null)) }
  | .setScene => do
    require (node.kind == .scene) "set_scene requires a scene node"
    return { node with vertices := some (← scene (field c "vertices" .null)) }
  | _ => .error (.valueError "unknown command")

/-- A command on the nodes of a view. -/
def nodeCommand (nodes : Dict String Node) (op : Op) (c : Fields) :
    Except PyExc (Dict String Node) := do
  let nid ← identifier (field c "id" .null)
  if op = .createNode then createNode nodes nid c
  else
    match Dict.get? nodes nid with
    | none => throw (.valueError "unknown node")
    | some node =>
      if op = .destroyNode then return Dict.erase nodes nid
      else return Dict.set nodes nid (← changeNode node op c)

/-- The views a commit works on, and the window actions it has collected. -/
abbrev Draft := Views × List (WindowOp × String)

/-- A command on a view that exists. -/
def viewCommand (draft : Draft) (vid : String) (view : View) (op : Op) (c : Fields) :
    Except PyExc Draft :=
  match op with
  | .destroyView => .ok (Dict.erase draft.1 vid, draft.2)
  | .configureView => do
    let changes ← properties (field c "properties" .null)
    return (Dict.set draft.1 vid (← configure view changes), draft.2)
  | .window op => do
    require (visible view) "cannot focus/lower a hidden or minimized view"
    return (draft.1, draft.2 ++ [(op, vid)])
  | op => do
    let nodes ← nodeCommand view.nodes op c
    return (Dict.set draft.1 vid { view with nodes }, draft.2)

/-- One command. -/
def applyCommand (draft : Draft) (command : Json) : Except PyExc Draft :=
  match command with
  | .obj c => do
    let op := Op.ofJson (field c "op" .null)
    let vid ← identifier (field c "view" .null)
    if op = .createView then return (← createView draft.1 vid c, draft.2)
    else
      match Dict.get? draft.1 vid with
      | none => throw (.valueError "unknown view")
      | some view => viewCommand draft vid view op c
  | _ => .error (.valueError "command must be an object")

/-- The resource of a video node is owned, ready and a video. -/
def checkResource (resources : Option (Dict String Resource)) (rid : String) :
    Except PyExc Unit :=
  match resources.bind (Dict.get? · rid) with
  | some r => require (r.ready && r.isVideo) "video requires an owned, ready video resource"
  | none => .error (.valueError "video requires an owned, ready video resource")

/-- The check of one node of the final state: a video needs a ready resource
that no other node uses. -/
def checkNode (resources : Option (Dict String Resource)) (used : List String) (node : Node) :
    Except PyExc (List String) :=
  if node.kind = .video then do
    let rid ← lookup "resource" node.resource
    checkResource resources rid
    require (!used.contains rid) "a video resource can have only one player node"
    return used ++ [rid]
  else .ok used

/-- The height the content has to fit in. -/
def contentRoom (view : View) : Int :=
  if view.state = .maximized then (view.restore.getD view.toGeometry).h else view.h

/-- The check of one view of the final state. -/
def checkView (resources : Option (Dict String Resource)) (used : List String) (view : View) :
    Except PyExc (List String) := do
  require (contentHeight view ≤ contentRoom view - 62) "view content exceeds available height"
  (Dict.values view.nodes).foldlM (checkNode resources) used

/-- The final check of one window action. -/
def checkAction (views : Views) (action : WindowOp × String) : Except PyExc Unit :=
  match Dict.get? views action.2 with
  | some view => require (visible view) "window action target no longer visible"
  | none => .error (.valueError "window action target no longer visible")

namespace Session

/-- `Session.emit`. -/
def emit (s : Session) (body : EventBody) : Session :=
  if s.events.length = limitEvents then { s with overflow := true }
  else { s with events := s.events ++ [{ body, revision := s.revision }] }

/-- `commit` up to the assignment of the new views. -/
def prepare (s : Session) (revision commands : Json)
    (resources : Option (Dict String Resource)) : Except PyExc Draft := do
  let r ← integer revision "revision must be the next session revision"
  require (r == s.revision + 1) "revision must be the next session revision"
  match commands with
  | .arr cs => do
    require (0 < cs.length && cs.length ≤ limitCommands) "invalid command count"
    let draft ← cs.foldlM applyCommand (s.views, [])
    let _ ← (Dict.values draft.1).foldlM (checkView resources) []
    draft.2.forM (checkAction draft.1)
    return draft
  | _ => throw (.valueError "invalid command count")

/-- `Session.commit`. -/
def commit (revision commands : Json) (resources : Option (Dict String Resource)) :
    PyState PyExc Session (List (WindowOp × String)) := do
  let s ← get
  let (views, actions) ← prepare s revision commands resources
  set { s with views, revision := s.revision + 1 }
  return actions

end Session

end PythonOS.Desktop
