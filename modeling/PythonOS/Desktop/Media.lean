import PythonOS.Desktop.Input
import PythonOS.Lib.Bytes

/-!
# PythonOS.Desktop.Media

The desktop service around the desktop: the calls of the display backend
(`tools/desktop_service/wire.py`) and the media resources of the sessions
(`tools/desktop_service/media.py`).

Everything that changes the service runs under one lock, so its functions are
functions of the whole state `Service`. What the backend answers is given to the
model, one answer for each call (`Service.backend`); a call that it rejects raises
a `ValueError`. The record of a resource (`session.resources[rid]`) is an `Asset`;
the desktop's own `Resource` is the part of it that a commit looks at, and
`setAssets` keeps both.
-/

set_option linter.dupNamespace false

namespace PythonOS.Desktop

open Lib

/-! ### The service and its backend -/

/-- What the service raises. -/
inductive Exc
  | py (e : PyExc)
  | runtimeError (message : String)
  deriving Repr, DecidableEq

inductive MediaKind
  | audio | video
  deriving Repr, DecidableEq

/-- The record of a resource. Keys it may lack have the value that `get` gives for them. -/
structure Asset where
  kind : MediaKind
  size : Int
  data : Bytes := []
  ready : Bool := false
  handle : Int := 0
  width : Int := 0
  height : Int := 0
  rate : Int := 0
  pcm : Bytes := []
  offset : Int := 0
  playing : Bool := false
  seconds : PyNum := .int 0
  eof : Bool := false
  refresh : Bool := false
  error : Option String := none
  /-- The chunks that were accepted, which nothing reads. -/
  accepted : List Bytes := []

/-- The part of the record that a commit looks at. -/
def Asset.resource (a : Asset) : Resource := { isVideo := a.kind == .video, ready := a.ready }

/-- What a surface shows: a scene, up to the equality of its numbers, or a video. -/
inductive Content
  | scene (points : List (List (Option ℚ)))
  | video (handle : Int)
  deriving DecidableEq

/-- An entry of `Renderer.surfaces`. -/
structure Surface where
  handle : Int
  w : Int
  h : Int
  kind : Kind
  content : Option Content := none
  deriving DecidableEq

/-- A drawing operation of a batch. -/
inductive DrawOp
  | fillRect (rect : Geometry) (rgb : Nat)
  | text (x y : Int) (value : String) (fg : Nat)
  | line (x0 y0 x1 y1 : Int) (rgb : Nat)
  | blit (src : Int) (dst : Geometry)
  deriving DecidableEq

/-- The operations of the backend. -/
inductive BackendOp
  | eventPoll
  | surfaceCreate (w h : Int)
  | surfaceDestroy (handle : Int)
  | sceneRender (handle : Int) (vertices : List Json)
  | videoOpen (payload : Bytes)
  | videoClose (handle : Int)
  | videoPlay (handle : Int)
  | videoPause (handle : Int)
  | videoSeek (handle : Int) (seconds : PyNum)
  | videoTick (handle destination : Int)
  | audioOpen (rate : Int)
  | audioQueue (payload : Bytes)
  | audioClose
  | audioStatus
  | renderBatch (ops : List DrawOp)
  | frameCommit
  | debugInject (params : Fields)
  | debugCapture
  | telemetry

/-- The results of all operations: each operation has some of the keys. -/
structure Result where
  handle : Int := 0
  width : Int := 0
  height : Int := 0
  queuedBytes : Int := 0
  eof : Bool := false
  seconds : PyNum := .int 0
  events : List InputEvent := []
  errors : Bool := false

/-- What is on the screen: the operations that drew it, and what the surfaces showed that they
copied. -/
structure Frame where
  ops : List DrawOp
  shown : List (Option Content)
  deriving DecidableEq

structure Service where
  desktop : Desktop := {}
  /-- `session.resources`. -/
  assets : SessionId → Dict String Asset := fun _ => []
  /-- The clients, and those whose connection the service has closed. -/
  clients : List SessionId := []
  closed : List SessionId := []
  audioOwner : Option (SessionId × String) := none
  videoCount : Int := 0
  surfaces : Dict Target Surface := []
  features : List String := []
  batchSize : Nat := 256
  automation : Bool := false
  /-- The calls made so far, with their answers, and what the backend will answer. -/
  calls : List (BackendOp × Except String Result) := []
  backend : Nat → Except String Result := fun _ => .ok {}
  /-- The last frame that was committed. -/
  frame : Option Frame := none

abbrev M := PyState Exc Service

/-- An exception of the language itself. -/
def raisePy {α : Type} (e : PyExc) : M α := throw (.py e)

/-- A function without state. -/
def liftPy {α : Type} (x : Except PyExc α) : M α :=
  match x with
  | .ok a => return a
  | .error e => raisePy e

/-- A function of the desktop. -/
def onDesktop {α : Type} (m : D α) : M α := do
  let σ ← get
  match m.run.run σ.desktop with
  | (.ok a, d) => do
    set { σ with desktop := d }
    return a
  | (.error e, d) => do
    set { σ with desktop := d }
    raisePy e

/-- `RemoteOS.call`. -/
def call (op : BackendOp) : M Result := do
  let σ ← get
  let answer := σ.backend σ.calls.length
  set { σ with calls := σ.calls ++ [(op, answer)] }
  match answer with
  | .ok r => return r
  | .error message => raisePy (.valueError ("RemoteOS rejected operation: " ++ message))

namespace Service

/-- The resources of a session, and the part of them that the desktop looks at. -/
def setAssets (σ : Service) (s : SessionId) (as : Dict String Asset) : Service :=
  { σ with
    assets := Function.update σ.assets s as
    desktop := σ.desktop.setSession s
      { σ.desktop.store s with resources := as.map fun p => (p.1, p.2.resource) } }

/-- Some node of a session plays the resource. -/
def attached (σ : Service) (s : SessionId) (rid : String) : Bool :=
  (Dict.values (σ.desktop.store s).views).any fun v =>
    (Dict.values v.nodes).any fun n => n.resource == some rid

end Service

/-- `session.resources[rid]`. -/
def assetOf (s : SessionId) (rid : String) : M Asset := do
  let σ ← get
  liftPy (lookup rid (Dict.get? (σ.assets s) rid))

/-- Change the record of a resource in place. -/
def updateAsset (s : SessionId) (rid : String) (f : Asset → Asset) : M Unit := do
  let σ ← get
  let r ← assetOf s rid
  set (σ.setAssets s (Dict.set (σ.assets s) rid (f r)))

/-! ### Resources -/

def limitResources : Nat := 4
def limitResourceBytes : Int := 4 * 1024 * 1024
def limitSessionBytes : Int := 8 * 1024 * 1024
def limitChunkBytes : Nat := 24576

/-- What `wave` reads from a file. -/
structure Wav where
  channels : Int
  sampleWidth : Int
  frameRate : Int
  uncompressed : Bool
  frameCount : Int
  /-- All frames; `none` where reading them fails. -/
  frames : Option Bytes

/-- The library functions for encoded data; `none` where they raise. -/
class Codecs where
  b64decode : String → Option Bytes
  wave : Bytes → Option Wav

variable [Codecs]

/-- `Media.get`. -/
def getResource (s : SessionId) (rid : String) (ready : Bool) : M Asset := do
  let σ ← get
  match Dict.get? (σ.assets s) rid with
  | none => raisePy (.valueError "unknown owned resource")
  | some r => do
    liftPy (require (!ready || r.ready) "resource upload is not finished")
    return r

def mediaKind (value : Json) : Except PyExc MediaKind :=
  match value with
  | .str "audio" => .ok .audio
  | .str "video" => .ok .video
  | _ => .error (.valueError "resource kind must be audio or video")

/-- `resource.create`. -/
def createResource (s : SessionId) (rid : String) (p : Fields) : M Json := do
  let σ ← get
  let resources := σ.assets s
  liftPy (require (!Dict.contains resources rid && resources.length < limitResources)
    "resource exists or session resource limit reached")
  let kind ← liftPy (mediaKind (field p "kind" .null))
  let size ← liftPy (integer (field p "bytes" .null) "invalid resource size")
  liftPy (require (0 < size && size ≤ limitResourceBytes) "invalid resource size")
  liftPy (require (size + ((Dict.values resources).map Asset.size).sum ≤ limitSessionBytes)
    "session resource byte limit reached")
  set (σ.setAssets s (Dict.set resources rid { kind, size }))
  return .obj []

/-- The text of a chunk. -/
def chunkText (value : Json) : Except PyExc String :=
  match value with
  | .str encoded => do
    require (encoded.length ≤ 32768) "invalid chunk"
    return encoded
  | _ => .error (.valueError "invalid chunk")

/-- `base64.b64decode(encoded, validate=True)`. -/
def decodeChunk (encoded : String) : Except PyExc Bytes :=
  match Codecs.b64decode encoded with
  | some chunk => .ok chunk
  | none => .error (.valueError "invalid base64 chunk")

/-- `resource.append`. -/
def appendResource (s : SessionId) (rid : String) (r : Asset) (p : Fields) : M Json := do
  liftPy (require (!r.ready) "resource already sealed")
  let offset ← liftPy (integer (field p "offset" .null) "unexpected upload offset")
  liftPy (require (offset == r.data.length) "unexpected upload offset")
  let encoded ← liftPy (chunkText (field p "data" .null))
  let chunk ← liftPy (decodeChunk encoded)
  liftPy (require (0 < chunk.length && chunk.length ≤ limitChunkBytes &&
    ((r.data.length + chunk.length : Nat) : Int) ≤ r.size) "chunk exceeds declared size")
  updateAsset s rid fun r =>
    { r with data := r.data ++ chunk, accepted := r.accepted ++ [chunk] }
  return .obj [("offset", .num (.int (r.data.length + chunk.length)))]

/-- `status`. -/
def status (r : Asset) : Json :=
  .obj ([("kind", .str (if r.kind = .audio then "audio" else "video")), ("ready", .bool r.ready)] ++
    (if r.ready then
      [("playing", .bool r.playing), ("seconds", .num r.seconds), ("eof", .bool r.eof)]
    else []) ++ (r.error.toList.map fun e => ("error", .str e)))

/-- The frames of a WAV file that can be played. -/
def readWav (s : SessionId) (rid : String) (data : Bytes) : M Bytes :=
  match Codecs.wave data with
  | none => raisePy (.valueError "invalid WAV")
  | some wav => do
    liftPy (require (wav.channels == 2 && wav.sampleWidth == 2 && 8000 ≤ wav.frameRate &&
      wav.frameRate ≤ 192000 && wav.uncompressed) "audio requires stereo 16-bit PCM WAV")
    liftPy (require (0 < wav.frameCount && wav.frameCount ≤ wav.frameRate * 10)
      "audio limit is ten seconds")
    updateAsset s rid fun r => { r with rate := wav.frameRate }
    match wav.frames with
    | none => raisePy (.valueError "invalid WAV")
    | some pcm => do
      liftPy (require ((pcm.length : Int) == wav.frameCount * 4) "truncated WAV")
      return pcm

/-- `resource.finish`: a video is opened by the backend, the frames of an audio file are read. -/
def openMedia (s : SessionId) (rid : String) (r : Asset) : M Unit :=
  match r.kind with
  | .video => do
    let σ ← get
    liftPy (require (σ.videoCount < 4) "global video limit reached")
    let result ← call (.videoOpen r.data)
    updateAsset s rid fun r =>
      { r with handle := result.handle, width := result.width, height := result.height }
    modify fun σ => { σ with videoCount := σ.videoCount + 1 }
  | .audio => do
    let pcm ← readWav s rid r.data
    updateAsset s rid fun r => { r with pcm, offset := 0 }

/-- `resource.finish`. The data, which nothing reads any more, is kept. -/
def finishResource (s : SessionId) (rid : String) (r : Asset) : M Json := do
  liftPy (require (!r.ready && (r.data.length : Int) == r.size)
    "incomplete or already sealed resource")
  openMedia s rid r
  updateAsset s rid fun r =>
    { r with ready := true, playing := false, seconds := .int 0, eof := false }
  return status (← assetOf s rid)

/-! ### Players -/

/-- `r["offset"] / (r["rate"] * 4)`. -/
def position (offset rate : Int) : Except PyExc PyNum := trueDiv offset (rate * 4)

/-- `refresh_audio`. -/
def refreshAudio (s : SessionId) (rid : String) : M Unit := do
  let r ← assetOf s rid
  let σ ← get
  onlyIf (r.kind = .audio ∧ r.playing = true ∧ σ.audioOwner = some (s, rid)) do
    let queued := (← call .audioStatus).queuedBytes
    let offset := (r.pcm.length : Int) - queued
    updateAsset s rid fun r => { r with offset }
    let seconds ← liftPy (position offset r.rate)
    updateAsset s rid fun r => { r with seconds }
    onlyIf (queued = 0) do
      updateAsset s rid fun r => { r with playing := false, eof := true }
      onDesktop (emitTo s (.mediaEnded rid))
      let _ ← call .audioClose
      modify fun σ => { σ with audioOwner := none }

/-- `Media.release`: the player of a resource is closed. -/
def closeMedia (s : SessionId) (rid : String) (r : Asset) : M Unit := do
  let σ ← get
  if r.ready = true ∧ r.kind = .video then do
    let _ ← call (.videoClose r.handle)
    modify fun σ => { σ with videoCount := σ.videoCount - 1 }
  else onlyIf (σ.audioOwner = some (s, rid)) do
    let _ ← call .audioClose

/-- `Media.release`. -/
def releaseResource (s : SessionId) (rid : String) : M Unit := do
  let r ← assetOf s rid
  closeMedia s rid r
  modify fun σ =>
    if σ.audioOwner = some (s, rid) then { σ with audioOwner := none } else σ
  modify fun σ => σ.setAssets s (Dict.erase (σ.assets s) rid)

inductive Action
  | play | pause | stop | seek
  deriving Repr, DecidableEq

def Action.ofJson : Json → Except PyExc Action
  | .str "play" => .ok .play
  | .str "pause" => .ok .pause
  | .str "stop" => .ok .stop
  | .str "seek" => .ok .seek
  | _ => .error (.valueError "invalid media action")

/-- A number in the range of a player. -/
def seekPosition (value : Json) (hi : ℚ) : Except PyExc PyNum :=
  match value with
  | .num v => do
    require (v.inRange 0 hi) "invalid seek position"
    return v
  | _ => .error (.valueError "invalid seek position")

/-- What a control action does to a video. -/
def moveVideo (s : SessionId) (rid : String) (r : Asset) (p : Fields) : Action → M Unit
  | .play => do
    onlyIf (r.eof = true) do
      let _ ← call (.videoSeek r.handle (.int 0))
      updateAsset s rid fun r => { r with seconds := .int 0, eof := false }
    let _ ← call (.videoPlay r.handle)
    updateAsset s rid fun r => { r with playing := true }
  | .pause => do
    let _ ← call (.videoPause r.handle)
    updateAsset s rid fun r => { r with playing := false }
  | .stop => do
    let _ ← call (.videoPause r.handle)
    updateAsset s rid fun r => { r with playing := false }
    let _ ← call (.videoSeek r.handle (.int 0))
    updateAsset s rid fun r => { r with seconds := .int 0, eof := false }
  | .seek => do
    let seconds ← liftPy (seekPosition (field p "seconds" .null) 86400)
    let _ ← call (.videoSeek r.handle seconds)
    updateAsset s rid fun r => { r with seconds, eof := false }

/-- `media.control` on a video. -/
def controlVideo (s : SessionId) (rid : String) (r : Asset) (action : Action) (p : Fields) :
    M Unit := do
  let σ ← get
  liftPy (require (σ.attached s rid) "video requires an attached player node")
  moveVideo s rid r p action
  onlyIf (action = .play) do
    modify fun σ => { σ with audioOwner := some (s, rid) }
  updateAsset s rid fun r => { r with refresh := true }

/-- `b[i:]`. -/
def sliceFrom (b : Bytes) (i : Int) : Bytes := b.drop (Bytes.sliceEnd b.length i)

/-- `audio.queue`; the output is closed again where that is rejected. -/
def queueOrClose (payload : Bytes) : M Unit :=
  tryCatch (do let _ ← call (.audioQueue payload)) fun e =>
    match e with
    | .py (.valueError message) => do
      let _ ← call .audioClose
      throw (.py (.valueError message))
    | e => throw e

/-- `media.control` with `play` on an audio resource that is not playing. -/
def playAudio (s : SessionId) (rid : String) : M Unit := do
  let r ← assetOf s rid
  onlyIf (r.eof = true ∨ (r.pcm.length : Int) ≤ r.offset) do
    updateAsset s rid fun r => { r with offset := 0 }
  let r ← assetOf s rid
  let _ ← call (.audioOpen r.rate)
  queueOrClose (sliceFrom r.pcm r.offset)
  modify fun σ => { σ with audioOwner := some (s, rid) }
  let seconds ← liftPy (position r.offset r.rate)
  updateAsset s rid fun r => { r with playing := true, eof := false, seconds }

/-- Where an audio resource is moved to: a checked position, or its start. -/
def audioTarget (action : Action) (r : Asset) (p : Fields) : Except PyExc PyNum :=
  if action = .seek then do
    match ← position r.pcm.length r.rate with
    | .float (.fin hi _) => seekPosition (field p "seconds" .null) hi
    | _ => .error (.valueError "invalid seek position")
  else .ok (.int 0)

/-- `media.control` with `pause`, `stop` or `seek` on an audio resource. -/
def haltAudio (s : SessionId) (rid : String) (action : Action) (p : Fields) : M Unit := do
  let r ← assetOf s rid
  let target ← liftPy (audioTarget action r p)
  let σ ← get
  onlyIf (σ.audioOwner = some (s, rid)) do
    let _ ← call .audioClose
    modify fun σ => { σ with audioOwner := none }
  updateAsset s rid fun r => { r with playing := false }
  onlyIf (action = .stop ∨ action = .seek) do
    let n ← liftPy (target.mulInt r.rate).trunc
    let offset := n * 4
    updateAsset s rid fun r => { r with offset }
    let seconds ← liftPy (position offset r.rate)
    updateAsset s rid fun r => { r with seconds, eof := false }

/-- `media.control` on an audio resource. -/
def controlAudio (s : SessionId) (rid : String) (action : Action) (p : Fields) : M Unit := do
  refreshAudio s rid
  let r ← assetOf s rid
  if action = .play then onlyIf (r.playing = false) (playAudio s rid)
  else haltAudio s rid action p

/-- `media.control` on a resource of either kind. -/
def controlMedia (s : SessionId) (rid : String) (r : Asset) (action : Action) (p : Fields) :
    M Unit :=
  match r.kind with
  | .video => controlVideo s rid r action p
  | .audio => controlAudio s rid action p

/-- `media.control`. -/
def control (s : SessionId) (rid : String) (r : Asset) (p : Fields) : M Json := do
  let action ← liftPy (Action.ofJson (field p "action" .null))
  let σ ← get
  liftPy (require (action != .play || σ.audioOwner == none || σ.audioOwner == some (s, rid))
    "audio output is owned by another player; release it first")
  controlMedia s rid r action p
  return status (← assetOf s rid)

/-- `Media.request`. -/
def mediaRequest (s : SessionId) (op : String) (p : Fields) : M Json := do
  let rid ← liftPy (identifier (field p "resource" .null))
  if op = "resource.create" then createResource s rid p
  else do
    let r ← getResource s rid false
    if op = "resource.append" then appendResource s rid r p
    else if op = "resource.finish" then finishResource s rid r
    else if op = "resource.release" then do
      let σ ← get
      liftPy (require (!σ.attached s rid) "resource still attached to a view")
      releaseResource s rid
      return .obj []
    else do
      liftPy (require r.ready "resource upload is not finished")
      if op = "media.status" then do
        refreshAudio s rid
        return status (← assetOf s rid)
      else do
        liftPy (require (op == "media.control") "unknown resource/media operation")
        control s rid r p

/-- The video resources that the nodes of a session play. -/
def attachedVideos (views : Views) : Except PyExc (List String) :=
  ((Dict.values views).flatMap fun v => (Dict.values v.nodes).filter (·.kind == .video)).mapM
    fun n => lookup "resource" n.resource

/-- `Media.reconcile` for one resource. -/
def reconcileOne (s : SessionId) (attached : List String) (rid : String) : M Unit := do
  let r ← assetOf s rid
  onlyIf (r.kind = .video ∧ r.playing = true ∧ rid ∉ attached) do
    let _ ← call (.videoPause r.handle)
    updateAsset s rid fun r => { r with playing := false }
  refreshAudio s rid

/-- `Media.reconcile`. -/
def reconcile : M Unit := do
  let σ ← get
  σ.desktop.sessions.forM fun s => do
    let σ ← get
    let attached ← liftPy (attachedVideos (σ.desktop.store s).views)
    (Dict.keys (σ.assets s)).forM (reconcileOne s attached)

end PythonOS.Desktop
