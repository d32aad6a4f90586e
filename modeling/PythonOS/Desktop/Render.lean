import PythonOS.Desktop.Media

/-!
# PythonOS.Desktop.Render

The renderer (`tools/desktop_service/render.py`): `prepare` keeps one backend
surface for each scene and video node, `draw` turns the desktop into drawing
operations and commits them as a frame.
-/

set_option linter.dupNamespace false

namespace PythonOS.Desktop

open Lib

/-! ### Surfaces -/

/-- A scene up to `==`: the numbers of its vertices. -/
def scenePoints (vertices : List Json) : List (List (Option ℚ)) :=
  vertices.map fun v =>
    match v with
    | .arr ns => ns.map fun n =>
      match n with
      | .num q => q.toRat?
      | _ => none
    | _ => []

namespace Desktop

/-- All nodes of the connected sessions, with the rectangles the layout gives them. -/
def laidOut (d : Desktop) : List (Target × Node × Geometry) :=
  d.sessions.flatMap fun s => (d.store s).views.flatMap fun p =>
    (layout p.2).map fun q => (⟨s, p.1, q.1⟩, q.2.1, q.2.2)

/-- The scene and video nodes of the connected sessions. -/
def pictures (d : Desktop) : List (Target × Node × Geometry) :=
  d.laidOut.filter fun q => q.2.1.kind == .scene || q.2.1.kind == .video

end Desktop

def setSurface (key : Target) (entry : Surface) : M Unit :=
  modify fun σ => { σ with surfaces := Dict.set σ.surfaces key entry }

/-- A surface of the backend is given back, and its entry deleted. -/
def destroySurface (key : Target) (entry : Surface) : M Unit := do
  let _ ← call (.surfaceDestroy entry.handle)
  modify fun σ => { σ with surfaces := Dict.erase σ.surfaces key }

/-- A new entry for a node. -/
def createSurface (key : Target) (node : Node) (rect : Geometry) : M Surface := do
  let result ← call (.surfaceCreate rect.w rect.h)
  let entry : Surface := { handle := result.handle, w := rect.w, h := rect.h, kind := node.kind }
  setSurface key entry
  return entry

/-- The entry of a node, with the size and kind of the node. -/
def ensureSurface (key : Target) (node : Node) (rect : Geometry) : M Surface := do
  let σ ← get
  match Dict.get? σ.surfaces key with
  | none => createSurface key node rect
  | some entry =>
    if (entry.w, entry.h, entry.kind) ≠ (rect.w, rect.h, node.kind) then do
      destroySurface key entry
      createSurface key node rect
    else return entry

/-- A scene is rendered when it is not what the surface shows. -/
def prepareScene (key : Target) (node : Node) (entry : Surface) : M Unit := do
  let vertices ← liftPy (lookup "vertices" node.vertices)
  onlyIf (entry.content ≠ some (.scene (scenePoints vertices))) do
    let _ ← call (.sceneRender entry.handle vertices)
    setSurface key { entry with content := some (.scene (scenePoints vertices)) }
    onDesktop setDirty

/-- `video.tick`; a clip that is rejected is paused, and its session is told. -/
def tickOrPause (key : Target) (rid : String) (entry : Surface) (r : Asset) : M (Option Result) :=
  tryCatch (some <$> call (.videoTick r.handle entry.handle)) fun e =>
    match e with
    | .py (.valueError message) => do
      let _ ← call (.videoPause r.handle)
      updateAsset key.session rid fun r =>
        { r with playing := false, refresh := false, error := some message }
      setSurface key { entry with content := some (.video r.handle) }
      onDesktop (emitTo key.session (.mediaError rid message))
      return none
    | e => throw e

/-- What a video has come to. -/
def showVideo (key : Target) (rid : String) (entry : Surface) (r : Asset) (result : Result) :
    M Unit := do
  onlyIf (result.eof = true ∧ r.eof = false) (onDesktop (emitTo key.session (.mediaEnded rid)))
  updateAsset key.session rid fun r =>
    { r with
      eof := result.eof
      seconds := result.seconds
      refresh := false
      playing := if result.eof then false else r.playing }
  setSurface key { entry with content := some (.video r.handle) }
  onDesktop setDirty

/-- A video that shows something new: it plays, was moved, or is new to its surface. -/
def tickVideo (key : Target) (rid : String) (entry : Surface) (r : Asset) : M Unit := do
  match ← tickOrPause key rid entry r with
  | none => return ()
  | some result => showVideo key rid entry r result

/-- The player of a video node. -/
def prepareVideo (key : Target) (node : Node) (entry : Surface) : M Unit := do
  let rid ← liftPy (lookup "resource" node.resource)
  let r ← assetOf key.session rid
  onlyIf (entry.content ≠ some (.video r.handle)) do
    let _ ← call (.videoSeek r.handle r.seconds)
  onlyIf (r.playing = true ∨ r.refresh = true ∨ entry.content ≠ some (.video r.handle))
    (tickVideo key rid entry r)

/-- `prepare` for one node. -/
def prepareNode (q : Target × Node × Geometry) : M Unit := do
  let entry ← ensureSurface q.1 q.2.1 q.2.2
  if q.2.1.kind = .scene then prepareScene q.1 q.2.1 entry
  else prepareVideo q.1 q.2.1 entry

/-- The entry of a node that is gone. -/
def dropSurface (live : List Target) (key : Target) : M Unit := do
  onlyIf (key ∉ live) do
    let σ ← get
    let entry ← liftPy (lookup key.node (Dict.get? σ.surfaces key))
    destroySurface key entry

/-- `Renderer.prepare`. -/
def prepare : M Unit := do
  let σ ← get
  σ.desktop.pictures.forM prepareNode
  let live := σ.desktop.pictures.map (·.1)
  let σ ← get
  (Dict.keys σ.surfaces).forM (dropSurface live)

/-- `Renderer.release_session` for one entry. -/
def releaseSurface (s : SessionId) (key : Target) : M Unit := do
  onlyIf (key.session = s) do
    let σ ← get
    let entry ← liftPy (lookup key.node (Dict.get? σ.surfaces key))
    destroySurface key entry

/-- `Renderer.release_session`. -/
def releaseSession (s : SessionId) : M Unit := do
  let σ ← get
  (Dict.keys σ.surfaces).forM (releaseSurface s)

/-! ### Drawing -/

/-- `repr` of a float. -/
class FloatText where
  repr : PyFloat → String

variable [FloatText]

/-- `str` of a number. -/
def numText : PyNum → String
  | .int i => toString i
  | .float f => FloatText.repr f

/-- `str(value)` of a slider's value. -/
def valueText : Json → String
  | .num n => numText n
  | .bool b => if b then "True" else "False"
  | _ => ""

/-- `value[:columns]`. -/
def clip (value : String) (columns : Int) : String :=
  String.ofList (value.toList.take (Bytes.sliceEnd value.length columns))

def rect (x y w h : Int) (rgb : Nat) : DrawOp := .fillRect { x, y, w, h } rgb

def textOp (x y : Int) (value : String) (columns : Int) (fg : Nat) : DrawOp :=
  .text x y (clip value columns) fg

/-- The bar of a slider: `int((w - 8) * value / 100)` pixels. -/
def sliderBar (w : Int) (value : Json) : Except PyExc Int :=
  match value with
  | .num v => do ((← (v.mulInt (w - 8)).div (.int 100))).trunc
  | _ => .error .typeError

/-- `max(0, min(1, v))`. -/
def unitClamp (v : PyNum) : PyNum := v.clamp 0 1

/-- The height of a sample in a plot. -/
def plotHeight (ph : Int) (lo hi value : PyNum) : Except PyExc Int := do
  let q ← (value.sub lo).div (hi.sub lo)
  ((unitClamp q).mulInt ph).trunc

/-- The points of a plot. -/
def plotPoints (left top pw ph : Int) (lo hi : PyNum) (values : List PyNum) :
    Except PyExc (List (Int × Int)) :=
  values.zipIdx.mapM fun p => do
    let height ← plotHeight ph lo hi p.1
    return (left + (p.2 * pw).fdiv (max 1 ((values.length : Int) - 1)), top + ph - height)

/-- What a plot looks like. -/
def drawPlot (node : Node) (g : Geometry) : Except PyExc (List DrawOp) := do
  let left := g.x + 14
  let top := g.y + 36
  let pw := g.w - 28
  let ph := g.h - 50
  let values ← lookup "values" node.values
  let lo ← lookup "min" node.min
  let hi ← lookup "max" node.max
  let points ← plotPoints left top pw ph lo hi values
  let grid := (List.range 5).map fun (j : Nat) =>
    let y := top + ((j : Int) * ph).fdiv 4
    DrawOp.line left y (left + pw) y 0x29394C
  let lines := (points.zip points.tail).map fun p =>
    DrawOp.line p.1.1 p.1.2 p.2.1 p.2.2 0x82DCC8
  return [rect g.x g.y g.w g.h 0x172230,
      textOp (g.x + 12) (g.y + 9) node.text ((g.w - 24).fdiv 8) 0x91A8BD] ++ grid ++ lines

/-- What a control looks like. -/
def drawControl (d : Desktop) (key : Target) (node : Node) (g : Geometry) :
    Except PyExc (List DrawOp) := do
  let color := if d.pressed = some key then 0x247F79 else if d.hover = some key then 0x3D657D
    else 0x304A62
  let frame := [rect g.x g.y g.w g.h (if d.focus = some key then 0x82DCC8 else color),
    rect (g.x + 2) (g.y + 2) (g.w - 4) (g.h - 4) color]
  let (bar, caption) ← match node.kind with
    | .checkbox => do
      let value ← lookup "value" node.value
      pure ([], (if value.truthy then "[x] " else "[ ] ") ++ node.text)
    | .entry => do
      let value ← asString (← lookup "value" node.value)
      pure ([], value ++ (if d.focus = some key then "_" else ""))
    | .slider => do
      let value ← lookup "value" node.value
      let bar ← sliderBar g.w value
      pure ([rect (g.x + 4) (g.y + g.h - 6) bar 3 0x82DCC8], node.text ++ "  " ++ valueText value)
    | _ => pure ([], node.text)
  let enabled ← lookup "enabled" node.enabled
  return frame ++ bar ++ [textOp (g.x + 10) (g.y + 5) caption ((g.w - 20).fdiv 8)
    (if enabled then 0xD9E4F0 else 0x758398)]

/-- What a node looks like, with the surfaces it copies. -/
def drawNode (d : Desktop) (surfaces : Dict Target Surface) (key : Target) (node : Node)
    (g : Geometry) : Except PyExc (List DrawOp × List (Option Content)) :=
  if node.kind = .text then
    .ok ([textOp g.x (g.y + 5) node.text (g.w.fdiv 8) 0xD9E4F0], [])
  else if node.kind.isControl then do return (← drawControl d key node g, [])
  else if node.kind = .scene ∨ node.kind = .video then do
    let entry ← lookup key.node (Dict.get? surfaces key)
    return ([.blit entry.handle g], [entry.content])
  else do return (← drawPlot node g, [])

/-- What a window looks like. -/
def drawView (d : Desktop) (surfaces : Dict Target Surface) (top : Option (SessionId × String))
    (w : SessionId × String) : Except PyExc (List DrawOp × List (Option Content)) := do
  let v ← d.viewOf w.1 w.2
  let chrome := [rect (v.x + 6) (v.y + 6) v.w v.h 0x080D14, rect v.x v.y v.w v.h 0x223044,
    rect v.x v.y v.w 32 (if top = some w then 0x36516D else 0x2A3B50),
    textOp (v.x + 14) (v.y + 8) v.title ((v.w - 60).fdiv 8) 0xD9E4F0,
    textOp (v.x + v.w - 24) (v.y + 8) "x" 74 0xD9E4F0,
    textOp (v.x + v.w - 12) (v.y + v.h - 12) "/" 74 0x8094AA]
  let parts ← (layout v).mapM fun q => drawNode d surfaces ⟨w.1, w.2, q.1⟩ q.2.1 q.2.2
  return (chrome ++ parts.flatMap (·.1), parts.flatMap (·.2))

/-- The background. -/
def backdrop : List DrawOp :=
  [rect 0 0 width height 0x111923, rect 0 0 width 44 0x202F40,
    textOp 20 14 "MESSAGE DESKTOP" 74 0x82DCC8,
    textOp 710 14 "Retained views / protocol 1" 34 0xD9E4F0,
    textOp 20 (height - 28) "Drag a title bar  |  Tab to focus  |  Enter to activate" 74 0x8094AA]

/-- The drawing of the desktop. -/
def drawing (d : Desktop) (surfaces : Dict Target Surface) : Except PyExc Frame := do
  let shown ← d.visibleStack
  let parts ← shown.mapM (drawView d surfaces shown.getLast?)
  return { ops := backdrop ++ parts.flatMap (·.1), shown := parts.flatMap (·.2) }

/-- The batches of a drawing. -/
def batches (n : Nat) (ops : List DrawOp) : List (List DrawOp) := ops.toChunks n

/-- One batch. -/
def renderBatch (ops : List DrawOp) : M Unit := do
  let result ← call (.renderBatch ops)
  onlyIf (result.errors = true) (throw (.runtimeError "RemoteOS rejected drawing operations"))

/-- `Renderer.draw`. -/
def draw : M Result := do
  let σ ← get
  let frame ← liftPy (drawing σ.desktop σ.surfaces)
  modify fun σ => { σ with desktop := { σ.desktop with dirty := false } }
  (batches σ.batchSize frame.ops).forM renderBatch
  let result ← call .frameCommit
  modify fun σ => { σ with frame := some frame }
  return result

end PythonOS.Desktop
