import Mathlib.Logic.Function.Basic
import PythonOS.Desktop.Session
import PythonOS.Lib.Runs

/-!
# PythonOS.Desktop.Input

The desktop (`class Desktop` of `tools/desktop_service/model.py`): the stack of
all windows, what the pointer and the keyboard are on, and `input`, with the
requests of `server.py` that change it.

Sessions are objects: a `SessionId` stands for the reference, `store` for what it
refers to. All functions run in `D`, state that survives an exception.
-/

set_option linter.dupNamespace false

namespace PythonOS.Desktop

open Lib

abbrev SessionId := Nat

/-- A control of a view of a session. -/
structure Target where
  session : SessionId
  view : String
  node : String
  deriving Repr, DecidableEq

structure Desktop where
  /-- The sessions that have said hello. -/
  sessions : List SessionId := []
  store : SessionId → Session := fun _ => {}
  nextSession : SessionId := 0
  /-- Bottom to top. -/
  stack : List (SessionId × String) := []
  hover : Option Target := none
  pressed : Option Target := none
  focus : Option Target := none
  /-- A window being moved, and where it was grabbed. -/
  drag : Option ((SessionId × String) × Int × Int) := none
  resize : Option (SessionId × String) := none
  dirty : Bool := true
  running : Bool := true

abbrev D := PyState PyExc Desktop

/-- An input event of the host. Absent keys have the defaults of `e.get`. -/
structure InputEvent where
  kind : Option Int := none
  x : Int := 0
  y : Int := 0
  button : Option Int := none
  code : Option Int := none
  mod : Int := 0
  text : String := ""

/-! ### Access to sessions -/

namespace Desktop

/-- `s.views[vid]`. -/
def viewOf (d : Desktop) (s : SessionId) (vid : String) : Except PyExc View :=
  lookup vid (Dict.get? (d.store s).views vid)

/-- `s.views[vid]["nodes"][nid]`. -/
def nodeOf (d : Desktop) (t : Target) : Except PyExc Node := do
  let view ← d.viewOf t.session t.view
  lookup t.node (Dict.get? view.nodes t.node)

def setSession (d : Desktop) (s : SessionId) (session : Session) : Desktop :=
  { d with store := Function.update d.store s session }

def setViews (d : Desktop) (s : SessionId) (views : Views) : Desktop :=
  d.setSession s { d.store s with views }

end Desktop

/-- Change a view in place. -/
def updateView (s : SessionId) (vid : String) (f : View → View) : D Unit := do
  let d ← get
  let view ← d.viewOf s vid
  set (d.setViews s (Dict.set (d.store s).views vid (f view)))

/-- Change a node in place. -/
def updateNode (t : Target) (f : Node → Except PyExc Node) : D Unit := do
  let d ← get
  let node ← d.nodeOf t
  let node ← f node
  updateView t.session t.view fun view => { view with nodes := Dict.set view.nodes t.node node }

/-- `s.emit(...)`. -/
def emitTo (s : SessionId) (body : EventBody) : D Unit :=
  modify fun d => d.setSession s ((d.store s).emit body)

def setDirty : D Unit := modify fun d => { d with dirty := true }

/-! ### The stack -/

namespace Desktop

/-- Whether a window being moved or resized has to be let go. -/
def windowStale (d : Desktop) (w : SessionId × String) : Except PyExc Bool :=
  if w ∉ d.stack then .ok true
  else do
    let view ← d.viewOf w.1 w.2
    return !visible view || view.state != .normal

/-- Whether a control that is hovered, pressed or focused has to be let go. -/
def controlStale (d : Desktop) (t : Target) : Except PyExc Bool :=
  if (t.session, t.view) ∉ d.stack then .ok true
  else do
    let view ← d.viewOf t.session t.view
    if !visible view then return true
    else
      match Dict.get? view.nodes t.node with
      | none => return true
      | some n => return !(n.enabled.getD false)

/-- The stack without the windows that are gone and with the new ones on top. -/
def syncedStack (d : Desktop) : List (SessionId × String) :=
  let kept := d.stack.filter fun p =>
    d.sessions.contains p.1 && Dict.contains (d.store p.1).views p.2
  let all := d.sessions.flatMap fun s => (Dict.keys (d.store s).views).map fun v => (s, v)
  all.foldl (fun stack p => if stack.contains p then stack else stack ++ [p]) kept

/-- `visible_stack`. -/
def visibleStack (d : Desktop) : Except PyExc (List (SessionId × String)) :=
  d.stack.filterM fun p => do return visible (← d.viewOf p.1 p.2)

end Desktop

/-- One round of the loop at the end of `sync`. -/
def dropStale {α : Type} (target : Desktop → Option α)
    (stale : Desktop → α → Except PyExc Bool) (drop : Desktop → Desktop) : D Unit := do
  let d ← get
  match target d with
  | none => return ()
  | some t => if ← stale d t then modify drop else return ()

/-- `sync`. -/
def sync : D Unit := do
  modify fun d => { d with stack := d.syncedStack }
  dropStale (·.hover) Desktop.controlStale fun d => { d with hover := none }
  dropStale (·.pressed) Desktop.controlStale fun d => { d with pressed := none }
  dropStale (·.focus) Desktop.controlStale fun d => { d with focus := none }
  dropStale (·.drag) (fun d t => d.windowStale t.1) fun d => { d with drag := none }
  dropStale (·.resize) Desktop.windowStale fun d => { d with resize := none }
  setDirty

/-- `self.stack.remove(p)`. -/
def removeFromStack (p : SessionId × String) : D Unit := do
  let d ← get
  if p ∈ d.stack then set { d with stack := d.stack.erase p }
  else throw (.valueError "list.remove(x): x not in list")

/-- `window_action`. -/
def windowAction (s : SessionId) (action : WindowOp) (vid : String) : D Unit := do
  removeFromStack (s, vid)
  modify fun d => match action with
    | .focusView => { d with stack := d.stack ++ [(s, vid)] }
    | .lowerView => { d with stack := (s, vid) :: d.stack }
  modify fun d => { d with focus := none, pressed := none, dirty := true }

/-! ### Where the pointer is -/

/-- The nodes of a view with their rectangles, from height `y` on. -/
def layoutFrom (view : View) (y : Int) :
    Dict String Node → List (String × Node × Geometry)
  | [] => []
  | (nid, node) :: rest =>
    let h := if node.kind.isVisual then 172 else 26
    (nid, node, { x := view.x + 20, y := y, w := view.w - 40, h := h }) ::
      layoutFrom view (y + h + 12) rest

/-- `layout`. -/
def layout (view : View) : List (String × Node × Geometry) :=
  layoutFrom view (view.y + 50) view.nodes

/-- `inside`. -/
def inside (x y : Int) (r : Geometry) : Bool :=
  r.x ≤ x && x < r.x + r.w && r.y ≤ y && y < r.y + r.h

/-- The first enabled control that contains the point. -/
def controlAt (x y : Int) : List (String × Node × Geometry) → Except PyExc (Option String)
  | [] => .ok none
  | (nid, node, rect) :: rest =>
    if node.kind.isControl then do
      let enabled ← lookup "enabled" node.enabled
      if enabled && inside x y rect then return some nid else controlAt x y rest
    else controlAt x y rest

/-- A window, and the control in it that contains a point. -/
abbrev Hit := SessionId × String × Option String

namespace Desktop

/-- The search of `hit`, from the top window down. -/
def hitIn (d : Desktop) (x y : Int) : List (SessionId × String) → Except PyExc (Option Hit)
  | [] => .ok none
  | (s, vid) :: rest => do
    let v ← d.viewOf s vid
    if inside x y v.toGeometry then return some (s, vid, ← controlAt x y (layout v))
    else d.hitIn x y rest

/-- `hit`. -/
def hit (d : Desktop) (x y : Int) : Except PyExc (Option Hit) := do
  let stack ← d.visibleStack
  d.hitIn x y stack.reverse

end Desktop

/-- The control of a hit, unless there is none. -/
def Hit.target? : Hit → Option Target
  | (s, vid, some nid) => if nid = "" then none else some ⟨s, vid, nid⟩
  | (_, _, none) => none

/-! ### Controls -/

/-- `changed`. -/
def changed (t : Target) : D Unit := do
  let d ← get
  let node ← d.nodeOf t
  let value ← lookup "value" node.value
  emitTo t.session (.change t.view t.node value)
  setDirty

/-- `n["value"] = not n["value"]`. -/
def toggle (n : Node) : Except PyExc Node := do
  let v ← lookup "value" n.value
  return { n with value := some (.bool (!v.truthy)) }

/-- `activate`. -/
def activate (t : Target) : D Unit := do
  let d ← get
  let node ← d.nodeOf t
  match node.kind with
  | .checkbox => do
    updateNode t toggle
    changed t
  | .button => emitTo t.session (.activate t.view t.node)
  | _ => return ()

/-- The value a slider takes when the pointer is at `x`. -/
def sliderValue (view : View) (x : Int) : Except PyExc Int := do
  let q ← trueDiv ((x - view.x - 20) * 100) (view.w - 40)
  (q.clamp 0 100).round

/-- `slider`. -/
def slider (t : Target) (x : Int) : D Unit := do
  let d ← get
  let view ← d.viewOf t.session t.view
  let value ← sliderValue view x
  let node ← d.nodeOf t
  let old ← lookup "value" node.value
  if old.eqInt value then return ()
  else do
    updateNode t fun n => .ok { n with value := some (.num (.int value)) }
    setDirty

/-- The string a value is; anything else cannot be sliced or added to one. -/
def asString : Json → Except PyExc String
  | .str s => .ok s
  | _ => .error .typeError

/-- The text of an entry after a key event. -/
def typed (old : String) (e : InputEvent) : String :=
  if e.code = some 8 then String.ofList old.toList.dropLast
  else if printable e.text then String.ofList ((old.toList ++ e.text.toList).take 120)
  else old

/-- A key event on a focused entry. -/
def typeInto (t : Target) (e : InputEvent) : D Unit := do
  let d ← get
  let node ← d.nodeOf t
  let old ← asString (← lookup "value" node.value)
  updateNode t fun n => .ok { n with value := some (.str (typed old e)) }
  if old ≠ typed old e then changed t else return ()

def keyLeft : Int := 0x40000050
def keyRight : Int := 0x4000004F

/-- `max(0, min(100, value + delta))`. -/
def nudge (value : Json) (delta : Int) : Except PyExc PyNum :=
  match value with
  | .num v => .ok ((v.addInt delta).clamp 0 100)
  | .bool b => .ok ((PyNum.int ((if b then 1 else 0) + delta)).clamp 0 100)
  | _ => .error .typeError

/-- An arrow key on a focused slider. -/
def nudgeSlider (t : Target) (delta : Int) : D Unit := do
  updateNode t fun n => do
    let v ← nudge (← lookup "value" n.value) delta
    return { n with value := some (.num v) }
  changed t

/-! ### `input` -/

/-- Moving a window, from where it was grabbed. -/
def dragTo (x y dx dy : Int) (v : View) : View :=
  let x' := max 0 (min (width - v.w) (x - dx))
  let y' := max 44 (min (height - v.h) (y - dy))
  { v with x := x', y := y' }

/-- Resizing a window. -/
def resizeTo (x y : Int) (v : View) : View :=
  let w' := max 320 (min (width - v.x) (x - v.x + 1))
  let h' := max 180 (max (contentHeight v + 62) (min (height - v.y) (y - v.y + 1)))
  { v with w := w', h := h' }

/-- If the pressed control is a slider, `act` on it. -/
def onPressedSlider (act : Target → D Unit) : D Unit := do
  let d ← get
  match d.pressed with
  | none => return ()
  | some t => do
    let node ← d.nodeOf t
    if node.kind = .slider then act t else return ()

/-- The window being moved follows the pointer. -/
def moveDragged (x y : Int) : D Unit := do
  match (← get).drag with
  | some (w, dx, dy) => do
    updateView w.1 w.2 (dragTo x y dx dy)
    setDirty
  | none => return ()

/-- The window being resized follows the pointer. -/
def moveResized (x y : Int) : D Unit := do
  match (← get).resize with
  | some w => do
    updateView w.1 w.2 (resizeTo x y)
    setDirty
  | none => return ()

/-- The pointer moves (`kind == 3`). -/
def pointerMoved (x y : Int) : D Unit := do
  moveDragged x y
  moveResized x y
  onPressedSlider fun t => slider t x
  let d ← get
  let hover := (← d.hit x y).bind Hit.target?
  if hover ≠ d.hover then set { d with hover, dirty := true } else return ()

/-- The close button of the window `(s, vid)`. -/
def closeView (s : SessionId) (vid : String) : D Unit := do
  modify fun d => d.setViews s (Dict.erase (d.store s).views vid)
  emitTo s (.closed vid)
  sync

/-- The button goes down on a control. -/
def pressControl (x : Int) (t : Target) : D Unit := do
  modify fun d => { d with pressed := some t, focus := some t }
  onPressedSlider fun t => slider t x

/-- The button goes down on a window. -/
def pressOn (x y : Int) (h : Hit) : D Unit := do
  let w := (h.1, h.2.1)
  removeFromStack w
  modify fun d => { d with stack := d.stack ++ [w] }
  let d ← get
  let v ← d.viewOf w.1 w.2
  if inside x y { x := v.x + v.w - 38, y := v.y, w := 38, h := 32 } then closeView w.1 w.2
  else if y < v.y + 32 ∧ v.state = .normal then
    set { d with drag := some (w, x - v.x, y - v.y) }
  else if x ≥ v.x + v.w - 14 ∧ y ≥ v.y + v.h - 14 ∧ v.state = .normal then
    set { d with resize := some w }
  else
    match Hit.target? h with
    | some t => pressControl x t
    | none => return ()

/-- `if hit: ...`. -/
def pressHit (x y : Int) : Option Hit → D Unit
  | some h => pressOn x y h
  | none => return ()

/-- The button goes down (`kind == 4`). -/
def buttonDown (x y : Int) : D Unit := do
  let h ← (← get).hit x y
  modify fun d => { d with pressed := none, focus := none }
  pressHit x y h
  setDirty

/-- The session of a window that was moved or resized is told where it is. -/
def reportConfigured : D Unit := do
  let d ← get
  match (d.drag.map (·.1)).or d.resize with
  | some (s, vid) => do
    let v ← d.viewOf s vid
    emitTo s (.configured vid v.toGeometry)
  | none => return ()

/-- A control is activated when the button goes up where it went down. -/
def activatePressed (x y : Int) : D Unit := do
  let d ← get
  match d.pressed with
  | some t => do
    let h ← d.hit x y
    if h = some (t.session, t.view, some t.node) then activate t else return ()
  | none => return ()

/-- The button goes up (`kind == 5`). -/
def buttonUp (x y : Int) : D Unit := do
  reportConfigured
  onPressedSlider changed
  activatePressed x y
  modify fun d => { d with pressed := none, drag := none, resize := none, dirty := true }

/-- The enabled controls of a view, in order. -/
def buttonsOf (s : SessionId) (vid : String) : Dict String Node → Except PyExc (List Target)
  | [] => .ok []
  | (nid, n) :: rest =>
    if n.kind.isControl then do
      let enabled ← lookup "enabled" n.enabled
      let others ← buttonsOf s vid rest
      return if enabled then ⟨s, vid, nid⟩ :: others else others
    else buttonsOf s vid rest

/-- The control the tab key moves to. -/
def nextFocus (buttons : List Target) (focus : Option Target) (back : Bool) : Option Target :=
  let step : Int := if back then -1 else 1
  let idx : Int := match focus.bind fun t => buttons.idxOf? t with
    | some i => i
    | none => if back then 0 else -1
  buttons[((idx + step) % buttons.length).toNat]?

/-- A key other than tab on the focused control. -/
def keyOn (t : Target) (e : InputEvent) : D Unit := do
  let node ← (← get).nodeOf t
  if node.kind = .entry then typeInto t e
  else if node.kind = .slider ∧ (e.code = some keyLeft ∨ e.code = some keyRight) then
    nudgeSlider t (if e.code = some keyLeft then -1 else 1)
  else if e.code = some 13 ∨ e.code = some 32 then activate t
  else return ()

/-- A key goes down (`kind == 1`). -/
def keyDown (e : InputEvent) : D Unit := do
  let d ← get
  match (← d.visibleStack).getLast? with
  | none => return ()
  | some (s, vid) => do
    let view ← d.viewOf s vid
    let buttons ← buttonsOf s vid view.nodes
    if e.code = some 9 ∧ buttons ≠ [] then
      set { d with focus := nextFocus buttons d.focus (e.mod % 4 ≠ 0), dirty := true }
    else
      match d.focus with
      | some t => if t ∈ buttons then keyOn t e else return ()
      | none => return ()

/-- `input`. -/
def input (e : InputEvent) : D Unit :=
  if e.kind = some 6 then modify fun d => { d with running := false }
  else if e.kind = some 3 then pointerMoved e.x e.y
  else if e.kind = some 4 ∧ e.button = some 1 then buttonDown e.x e.y
  else if e.kind = some 5 ∧ e.button = some 1 then buttonUp e.x e.y
  else if e.kind = some 1 then keyDown e
  else return ()

/-! ### Requests -/

/-- Call a method of a session. -/
def onSession {α : Type} (s : SessionId) (m : PyState PyExc Session α) : D α := do
  let d ← get
  match m.run.run (d.store s) with
  | (.ok a, session) => do
    set (d.setSession s session)
    return a
  | (.error e, session) => do
    set (d.setSession s session)
    throw e

/-- The `commit` request. -/
def dispatchCommit (s : SessionId) (revision commands : Json) : D Unit := do
  let d ← get
  let actions ← onSession s (Session.commit revision commands (some (d.store s).resources))
  sync
  actions.forM fun a => windowAction s a.1 a.2

/-- What happens to the desktop. -/
inductive Request
  | connect
  | disconnect (s : SessionId)
  | commit (s : SessionId) (revision commands : Json)
  | input (e : InputEvent)
  /-- The session reads its events. -/
  | poll (s : SessionId)
  /-- Media requests and players change the resources and report to the session. -/
  | media (s : SessionId) (resources : Dict String Resource) (events : List EventBody)

/-- One request. -/
def handle : Request → D Unit
  | .connect => modify fun d =>
    { (d.setSession d.nextSession {}) with
      sessions := d.sessions ++ [d.nextSession], nextSession := d.nextSession + 1 }
  | .disconnect s => do
    modify fun d => { d with sessions := d.sessions.erase s }
    sync
  | .commit s revision commands => dispatchCommit s revision commands
  | .input e => input e
  | .poll s => modify fun d => d.setSession s { d.store s with events := [] }
  | .media s resources events => modify fun d =>
    d.setSession s (events.foldl Session.emit { d.store s with resources })

/-- The desktop after a request, whether it raised an exception or not. -/
def step (d : Desktop) (r : Request) : Option Desktop := some ((handle r).run.run d).2

end PythonOS.Desktop
