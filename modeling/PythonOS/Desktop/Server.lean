import PythonOS.Desktop.Render

/-!
# PythonOS.Desktop.Server

The service (`tools/desktop_service/server.py`): the requests of the clients, the
end of a connection, and the tick that reads the input, keeps the players going
and draws.

Requests, ticks and the end of a connection hold the service's lock from beginning
to end, so each of them is one step of the service.
-/

set_option linter.dupNamespace false

namespace PythonOS.Desktop

open Lib

variable [Codecs] [FloatText]

/-! ### Inspection -/

def jsonOfInt (i : Int) : Json := .num (.int i)

/-- A node as `inspect` shows it: all its keys but the vertices, its rectangle, and whether
it has the focus. -/
def describeNode (d : Desktop) (key : Target) (node : Node) (g : Geometry) : Json :=
  .obj ([("kind", .str (kindName node.kind)), ("text", .str node.text)] ++
    node.enabled.toList.map (fun b => ("enabled", .bool b)) ++
    node.value.toList.map (fun v => ("value", v)) ++
    node.resource.toList.map (fun r => ("resource", .str r)) ++
    node.min.toList.map (fun v => ("min", .num v)) ++
    node.max.toList.map (fun v => ("max", .num v)) ++
    node.values.toList.map (fun vs => ("values", .arr (vs.map .num))) ++
    [("rect", .arr [jsonOfInt g.x, jsonOfInt g.y, jsonOfInt g.w, jsonOfInt g.h]),
      ("focused", .bool (d.focus == some key))])
where
  kindName : Kind → String
    | .text => "text"
    | .button => "button"
    | .checkbox => "checkbox"
    | .entry => "entry"
    | .slider => "slider"
    | .plot => "plot"
    | .scene => "scene"
    | .video => "video"

def stateName : WindowState → String
  | .normal => "normal"
  | .minimized => "minimized"
  | .maximized => "maximized"

/-- A view as `inspect` shows it. -/
def describeView (d : Desktop) (top : Option (SessionId × String)) (s : SessionId) (vid : String)
    (v : View) : Json :=
  .obj [("title", .str v.title), ("x", jsonOfInt v.x), ("y", jsonOfInt v.y), ("w", jsonOfInt v.w),
    ("h", jsonOfInt v.h), ("visible", .bool v.visible), ("state", .str (stateName v.state)),
    ("focused", .bool (top == some (s, vid))),
    ("nodes", .obj ((layout v).map fun q => (q.1, describeNode d ⟨s, vid, q.1⟩ q.2.1 q.2.2)))]

/-- `Desktop.describe`. -/
def describe (d : Desktop) (s : SessionId) : Except PyExc Json := do
  let top := (← d.visibleStack).getLast?
  return .obj [("revision", jsonOfInt (d.store s).revision),
    ("views", .obj ((d.store s).views.map fun p => (p.1, describeView d top s p.1 p.2))),
    ("stacking", .arr ((d.stack.filter (·.1 == s)).map fun w => .str w.2))]

/-- An event as `poll` returns it. -/
def eventJson (e : Event) : Json :=
  .obj (body e.body ++ [("revision", jsonOfInt e.revision)])
where
  body : EventBody → Fields
    | .activate view target =>
      [("event", .str "activate"), ("view", .str view), ("target", .str target)]
    | .change view target value =>
      [("event", .str "change"), ("view", .str view), ("target", .str target), ("value", value)]
    | .closed view => [("event", .str "closed"), ("view", .str view)]
    | .configured view g =>
      [("event", .str "configured"), ("view", .str view), ("x", jsonOfInt g.x),
        ("y", jsonOfInt g.y), ("w", jsonOfInt g.w), ("h", jsonOfInt g.h)]
    | .mediaEnded resource => [("event", .str "media_ended"), ("resource", .str resource)]
    | .mediaError resource message =>
      [("event", .str "media_error"), ("resource", .str resource), ("message", .str message)]

/-! ### The tick -/

/-- The input that the backend has collected. -/
def pollInput : M Unit := do
  let result ← call .eventPoll
  result.events.forM fun e => onDesktop (input e)

/-- The desktop is drawn if it has changed; more input comes with the answer. -/
def redraw : M Unit := do
  let σ ← get
  onlyIf (σ.desktop.dirty = true) do
    let result ← draw
    result.events.forM fun e => onDesktop (input e)

/-- The connections of the clients that have lost events are closed. -/
def closeOverflowed : M Unit := modify fun σ =>
  { σ with closed := σ.closed ++ σ.clients.filter fun s => (σ.desktop.store s).overflow }

/-- `Service.tick`. -/
def tick : M Unit := do
  pollInput
  reconcile
  prepare
  redraw
  closeOverflowed

/-- A tick, and a second one where the first left something to draw. -/
def tickTwice : M Unit := do
  tick
  let σ ← get
  onlyIf (σ.desktop.dirty = true) tick

/-! ### Requests -/

/-- The features that the nodes of a commit need. -/
def requireFeatures (features : List String) : Json → Except PyExc Unit
  | .arr commands => commands.forM fun c =>
    match c with
    | .obj c =>
      match field c "kind" .null with
      | .str "scene" => require (features.contains "scene3d.render")
          "backend feature unavailable: scene3d.render"
      | .str "video" => require (features.contains "video.playback")
          "backend feature unavailable: video.playback"
      | _ => .ok ()
    | _ => .ok ()
  | _ => .ok ()

/-- The revision of a session, as a reply. -/
def revisionReply (s : SessionId) : M Json := do
  let σ ← get
  return .obj [("revision", jsonOfInt (σ.desktop.store s).revision)]

/-- The `commit` request. -/
def commitRequest (s : SessionId) (p : Fields) : M Json := do
  let σ ← get
  liftPy (requireFeatures σ.features (field p "commands" .null))
  onDesktop (dispatchCommit s (field p "revision" .null) (field p "commands" .null))
  revisionReply s

/-- The `poll` request. -/
def pollRequest (s : SessionId) : M Json := do
  let σ ← get
  let session := σ.desktop.store s
  set { σ with desktop := σ.desktop.setSession s { session with events := [] } }
  return .obj [("events", .arr (session.events.map eventJson)),
    ("revision", jsonOfInt session.revision)]

/-- The numbers and the text of an injected event. -/
def checkInput (p : Fields) : Except PyExc Unit := do
  require ((Dict.keys p).all fun k => ["kind", "x", "y", "button", "code", "mod",
    "text"].contains k)
    "invalid input field"
  let kind ← integer (field p "kind" .null) "invalid input kind"
  require (1 ≤ kind && kind ≤ 6) "invalid input kind"
  require (p.all fun q => q.1 == "text" || match q.2 with
    | .num (.int i) => -2147483648 ≤ i && i ≤ 2147483647
    | _ => false) "invalid input number"
  match field p "text" (.str "") with
  | .str t => require (t.length ≤ 16) "invalid input text"
  | _ => .error (.valueError "invalid input text")

/-- The `debug` requests. The result of the backend and the name of the captured file are left
out of the replies. -/
def debugRequest (op : String) (p : Fields) : M Json := do
  let σ ← get
  liftPy (require σ.automation "automation disabled")
  if op = "debug.input" then do
    liftPy (checkInput p)
    let _ ← call (.debugInject p)
    return .obj []
  else if op = "debug.capture" then do
    liftPy (require p.isEmpty "capture paths are service-owned")
    tickTwice
    let _ ← call .debugCapture
    return .obj []
  else if op = "debug.stats" then do
    let σ ← get
    let live := σ.desktop.sessions
    let _ ← call .telemetry
    return .obj [("sessions", jsonOfInt live.length),
      ("views", jsonOfInt (live.map fun s => ((σ.desktop.store s).views.length : Int)).sum),
      ("surfaces", jsonOfInt σ.surfaces.length),
      ("resources", jsonOfInt (live.map fun s => ((σ.assets s).length : Int)).sum)]
  else raisePy (.valueError "unknown operation")

/-- A video can only be created where videos can be played. -/
def requirePlayback (features : List String) (op : String) (p : Fields) : Except PyExc Unit :=
  match op, field p "kind" .null with
  | "resource.create", .str "video" =>
    require (features.contains "video.playback") "video playback unavailable"
  | _, _ => .ok ()

/-- A resource or media request: afterwards the desktop is drawn again. -/
def resourceRequest (s : SessionId) (op : String) (p : Fields) : M Json := do
  let σ ← get
  liftPy (requirePlayback σ.features op p)
  let result ← mediaRequest s op p
  onDesktop setDirty
  return result

/-- The operations of a request. -/
inductive ServiceOp
  | commit | poll | inspect | sync | resource | debug | unknown
  deriving Repr, DecidableEq

def ServiceOp.ofString (op : String) : ServiceOp :=
  if op = "commit" then .commit
  else if op = "poll" then .poll
  else if op = "inspect" then .inspect
  else if op = "sync" then .sync
  else if "resource.".toList.isPrefixOf op.toList || "media.".toList.isPrefixOf op.toList then
    .resource
  else if "debug.".toList.isPrefixOf op.toList then .debug
  else .unknown

/-- `Service.dispatch`. -/
def dispatch (s : SessionId) (op : String) (p : Fields) : M Json :=
  match ServiceOp.ofString op with
  | .commit => commitRequest s p
  | .poll => pollRequest s
  | .inspect => do
    let σ ← get
    liftPy (describe σ.desktop s)
  | .sync => do
    tickTwice
    revisionReply s
  | .resource => resourceRequest s op p
  | .debug => debugRequest op p
  | .unknown => raisePy (.valueError "unknown operation")

/-- The end of a connection, under the lock. -/
def cleanup (s : SessionId) : M Unit := do
  modify fun σ =>
    { σ with desktop := { σ.desktop with sessions := σ.desktop.sessions.erase s } }
  onDesktop sync
  let σ ← get
  (Dict.keys (σ.assets s)).forM (releaseResource s)
  releaseSession s

/-! ### Runs -/

/-- What happens to the service. -/
inductive ServiceEvent
  /-- A client that says hello. -/
  | connect
  | request (s : SessionId) (op : String) (p : Fields)
  /-- The connection of a client ends, and later its handler cleans up. -/
  | drop (s : SessionId)
  | cleanup (s : SessionId)
  | tick

namespace Service

/-- A function of the service, whatever it returns or raises. -/
def after {α : Type} (σ : Service) (m : M α) : Service := (m.run.run σ).2

/-- The service after an event; `none` where the event is not possible. -/
def next (σ : Service) : ServiceEvent → Option Service
  | .connect =>
    if σ.clients.length < 8 then
      some { σ.after (onDesktop (handle .connect)) with
        clients := σ.clients ++ [σ.desktop.nextSession] }
    else none
  | .request s op p => if s ∈ σ.clients then some (σ.after (dispatch s op p)) else none
  | .drop s => if s ∈ σ.clients then some { σ with clients := σ.clients.erase s } else none
  | .cleanup s =>
    if s ∉ σ.clients ∧ s < σ.desktop.nextSession then some (σ.after (cleanup s)) else none
  | .tick => some (σ.after tick)

end Service

end PythonOS.Desktop
