import Mathlib.Data.Nat.Digits.Lemmas
import PythonOS.Lib.Bytes
import PythonOS.Lib.PyValue
import PythonOS.Lib.Runs

/-!
# PythonOS.Bridge.Calls

The client of the host service (`kernel/bridge/__init__.py`): `cast`, `flush`,
`call` and `notify` over a byte stream that loses and reorders nothing.

The host answers every request with an id other than 0 once and in order. Its
replies are on their way (`transit`) until their bytes arrive in the buffer of the
transport (`inbox`); how many have arrived when a read ends, and whether it ends at
its deadline, is given to the model (`Wait`).

* `Client.serves_of_timely`: as long as no read runs into its deadline, a call
  that returns has the reply to its own request, and the next call can succeed;
* `Client.late_reply_ends_calls`: once a call has given up on a reply, that reply is read
  by the next call, its id does not match, and so on for every later call.
-/

namespace PythonOS.Bridge

open Lib List Lib.Bytes

/-! ### Requests and replies -/

def protocolVersion : Int := 2

/-- The longest reply body that is read. -/
def maxLength : Nat := 16 * 1024 * 1024

/-- What `_send_locked` raises. -/
inductive BridgeError
  /-- `BridgeError(-4, "timeout waiting for bridge response")` -/
  | timeout
  /-- `BridgeError(-4, "timeout waiting for bridge response body")` -/
  | bodyTimeout
  /-- `BridgeError(-1, f"absurd response length {length}")` -/
  | absurdLength (length : Nat)
  /-- `BridgeError(-5, f"protocol mismatch in response: {v}")` -/
  | protocolMismatch (v : Option Json)
  /-- `BridgeError(-2, f"id mismatch (sent {sent}, got {got})")` -/
  | idMismatch (sent : Nat) (got : Option Json)
  /-- `BridgeError(code, msg)` of the host's error -/
  | refused (code msg : Json)
  /-- the body is not the text of a JSON object, or its `error` is no object -/
  | notAnObject

abbrev Fields := Dict String Json

def jsonInt (i : Int) : Json := .num (.int i)

theorem eqInt_jsonInt (i j : Int) : (jsonInt i).eqInt j = decide (i = j) := by
  unfold jsonInt Json.eqInt PyNum.toRat?
  by_cases h : i = j <;> simp [h]

/-- A request as it is sent: envelope and binary trailer. -/
structure Request where
  id : Nat
  op : String
  params : Fields
  payload : Bytes

/-- The envelope of a request. -/
def Request.envelope (req : Request) : Json :=
  .obj [("v", jsonInt protocolVersion), ("id", jsonInt req.id), ("op", .str req.op),
    ("params", .obj req.params)]

/-- `env_params`. -/
def envParams (params : Fields) (payload : Bytes) : Fields :=
  if payload.isEmpty then params else Dict.set params "payload_len" (jsonInt payload.length)

/-- `json`, and the host: what it answers to a request, and the text of the answer. -/
class Host where
  dumps : Json → Bytes
  loads : Bytes → Option Json
  answer : Request → Fields
  body : Request → Bytes
  loads_body : ∀ req, loads (body req) = some (.obj (answer req))
  body_ne_nil : ∀ req, body req ≠ []
  answer_v : ∀ req, ∃ v, Dict.get? (answer req) "v" = some v ∧ v.eqInt protocolVersion = true
  answer_id : ∀ req, Dict.get? (answer req) "id" = some (jsonInt req.id)

/-- `dict.get(key) == i`. -/
def fieldIs (env : Fields) (key : String) (i : Int) : Bool :=
  match Dict.get? env key with
  | some v => v.eqInt i
  | none => false

/-- `dict.get(key) or {}`; `none` where the value has no `get`. -/
def fieldsOr (env : Fields) (key : String) : Option Fields :=
  match Dict.get? env key with
  | some (.obj fields) => some fields
  | some v => if v.truthy then none else some []
  | none => some []

/-- `_send_locked` after the checks of version and id: the result, or the host's error. -/
def outcome (env : Fields) : Except BridgeError Json :=
  if ((Dict.get? env "ok").map Json.truthy).getD false = false then
    match fieldsOr env "error" with
    | none => .error .notAnObject
    | some err =>
      .error (.refused ((Dict.get? err "code").getD (jsonInt (-3)))
        ((Dict.get? err "msg").getD (.str "unknown error")))
  else
    .ok (match Dict.get? env "result" with
      | some r => if r.truthy then r else .obj []
      | none => .obj [])

/-- `_send_locked`: the reply against the id that was sent. -/
def checkReply (id : Nat) (env : Fields) : Except BridgeError Json :=
  if ¬ fieldIs env "v" protocolVersion then .error (.protocolMismatch (Dict.get? env "v"))
  else if ¬ fieldIs env "id" id then .error (.idMismatch id (Dict.get? env "id"))
  else outcome env

/-! ### The stream -/

/-- `Bridge` together with its stream. -/
structure Client where
  nextId : Nat := 1
  pending : List (String × Fields) := []
  written : Bytes := []
  inbox : Bytes := []
  transit : Bytes := []

/-- How a read that has to wait ends: when enough has arrived, or at its deadline. -/
inductive Wait
  | filled (arrived : Nat)
  | expired (arrived : Nat)

/-- The read runs into its deadline. -/
def Wait.Expired : Wait → Prop
  | .filled _ => False
  | .expired _ => True

/-- How the two reads of a reply end. -/
structure Waits where
  header : Wait
  body : Wait

/-- Neither read runs into its deadline. -/
def Waits.Prompt (w : Waits) : Prop := ¬ w.header.Expired ∧ ¬ w.body.Expired

namespace Client

/-- Bytes on their way arrive. -/
def arrive (b : Client) (n : Nat) : Client :=
  { b with inbox := b.inbox ++ b.transit.take n, transit := b.transit.drop n }

/-- The first bytes of the buffer. -/
def take (b : Client) (n : Nat) : Bytes × Client :=
  (b.inbox.take n, { b with inbox := b.inbox.drop n })

/-- `read_bytes`, with a deadline or without; `none` where it does not end in the way given. A
read that runs into its deadline takes nothing. -/
def readBytes (b : Client) (n : Nat) (timeoutMs : Option Nat) (w : Wait) :
    Option (Option Bytes × Client) :=
  if n ≤ b.inbox.length then some (some (b.take n).1, (b.take n).2)
  else match w with
    | .filled k =>
      let b' := b.arrive k
      if n ≤ b'.inbox.length then some (some (b'.take n).1, (b'.take n).2) else none
    | .expired k => if timeoutMs.isSome then some (none, b.arrive k) else none

/-- What has been sent and not been read. -/
def stream (b : Client) : Bytes := b.inbox ++ b.transit

theorem stream_arrive (b : Client) (n : Nat) : (b.arrive n).stream = b.stream := by
  simp [stream, arrive]

theorem stream_take {b : Client} {n : Nat} (h : n ≤ b.inbox.length) :
    (b.take n).1 = b.stream.take n ∧ (b.take n).2.stream = b.stream.drop n := by
  unfold stream take
  constructor
  · rw [take_append_of_le_length h]
  · rw [drop_append_of_le_length h]

/-- A read takes the first bytes of the stream, or nothing at its deadline. -/
theorem readBytes_spec {b b' : Client} {n : Nat} {t : Option Nat} {w : Wait} {r : Option Bytes}
    (h : b.readBytes n t w = some (r, b')) : b'.nextId = b.nextId ∧
      ((r = some (b.stream.take n) ∧ b'.stream = b.stream.drop n) ∨
        (r = none ∧ b'.stream = b.stream ∧ w.Expired)) := by
  unfold readBytes at h
  split at h
  · next hn =>
    cases h
    exact ⟨rfl, .inl ⟨congrArg some (stream_take hn).1, (stream_take hn).2⟩⟩
  · cases w with
    | filled k =>
      dsimp only at h
      split at h
      · next hn =>
        cases h
        obtain ⟨htake, hdrop⟩ := stream_take hn
        rw [stream_arrive] at htake hdrop
        exact ⟨rfl, .inl ⟨congrArg some htake, hdrop⟩⟩
      · cases h
    | expired k =>
      dsimp only at h
      split at h
      · cases h
        exact ⟨rfl, .inr ⟨rfl, stream_arrive b k, trivial⟩⟩
      · cases h

/-- A read of bytes that are on their way can succeed. -/
theorem readBytes_filled (b : Client) {n : Nat} (t : Option Nat) (hn : n ≤ b.stream.length) :
    ∃ w b', b.readBytes n t w = some (some (b.stream.take n), b') ∧ ¬ w.Expired := by
  have hbuf : n ≤ (b.arrive b.transit.length).inbox.length := by
    simpa [arrive, stream] using hn
  by_cases hin : n ≤ b.inbox.length
  · refine ⟨.filled 0, (b.take n).2, ?_, id⟩
    unfold readBytes
    rw [if_pos hin, (stream_take hin).1]
  · refine ⟨.filled b.transit.length, ((b.arrive b.transit.length).take n).2, ?_, id⟩
    unfold readBytes
    rw [if_neg hin]
    dsimp only
    rw [if_pos hbuf, (stream_take hbuf).1, stream_arrive]

end Client

/-! ### The client -/

section

variable [Host]

/-- `_send_locked`: the body of a reply. -/
def decodeReply (id : Nat) (body : Bytes) : Except BridgeError Json :=
  match Host.loads body with
  | some (.obj env) => checkReply id env
  | _ => .error .notAnObject

/-- A reply as it is sent. -/
def replyFrame (req : Request) : Bytes := beBytes 4 (Host.body req).length ++ Host.body req

namespace Client

/-- A request is written, and the host answers it. -/
def write (b : Client) (req : Request) : Client :=
  let body := Host.dumps req.envelope
  { b with
    written := b.written ++ (beBytes 4 body.length ++ body) ++ req.payload
    transit := if req.id = 0 then b.transit else b.transit ++ replyFrame req }

/-- `_send_locked` after the request is written. -/
def receive (b : Client) (id : Nat) (timeoutMs : Option Nat) (w : Waits) :
    Option (Except BridgeError Json × Client) :=
  match b.readBytes 4 timeoutMs w.header with
  | none => none
  | some (none, b) => some (.error .timeout, b)
  | some (some hdr, b) =>
    let length := beNat hdr
    if length = 0 ∨ maxLength < length then some (.error (.absurdLength length), b)
    else match b.readBytes length timeoutMs w.body with
      | none => none
      | some (none, b) => some (.error .bodyTimeout, b)
      | some (some body, b) => some (decodeReply id body, b)

/-- `_send` and `_send_locked`. -/
def send (b : Client) (op : String) (params : Fields) (payload : Bytes) (timeoutMs : Option Nat)
    (w : Waits) : Option (Except BridgeError Json × Client) :=
  let req : Request := ⟨b.nextId, op, envParams params payload, payload⟩
  ({ b with nextId := b.nextId + 1 }.write req).receive req.id timeoutMs w

/-- `{"ops": ops}`. -/
def batchParams (ops : List (String × Fields)) : Fields :=
  [("ops", .arr (ops.map fun o => .obj [("op", .str o.1), ("params", .obj o.2)]))]

/-- `cast`. -/
def cast (b : Client) (op : String) (params : Fields) : Client :=
  { b with pending := b.pending ++ [(op, params)] }

/-- The casts that are queued, sent as one batch. -/
def sendPending (b : Client) (timeoutMs : Option Nat) (w : Waits) :
    Option (Except BridgeError Unit × Client) :=
  if b.pending.isEmpty then some (.ok (), b)
  else match { b with pending := [] }.send "render.batch" (batchParams b.pending)
    [] timeoutMs w with
    | none => none
    | some (.error e, b) => some (.error e, b)
    | some (.ok _, b) => some (.ok (), b)

/-- `flush`. -/
def flush (b : Client) (w : Waits) : Option (Except BridgeError Unit × Client) :=
  b.sendPending none w

/-- The arguments of a call. -/
structure Call where
  op : String
  params : Fields := []
  payload : Bytes := []
  timeoutMs : Option Nat := none

/-- `call`; `batch` and `own` say how the replies to the queued casts and to the request itself
are waited for. -/
def call (b : Client) (c : Call) (batch own : Waits) : Option (Except BridgeError Json × Client) :=
  match b.sendPending c.timeoutMs batch with
  | none => none
  | some (.error e, b) => some (.error e, b)
  | some (.ok _, b) => b.send c.op c.params c.payload c.timeoutMs own

/-- `notify`: id 0, and no reply. -/
def notify (b : Client) (op : String) (params : Fields) (payload : Bytes) (w : Waits) :
    Option (Except BridgeError Unit × Client) :=
  match b.flush w with
  | none => none
  | some (.error e, b) => some (.error e, b)
  | some (.ok _, b) => some (.ok (), b.write ⟨0, op, envParams params payload, payload⟩)

end Client

/-! ### One reply -/

theorem fieldIs_v (req : Request) : fieldIs (Host.answer req) "v" protocolVersion = true := by
  obtain ⟨v, hget, hv⟩ := Host.answer_v req
  unfold fieldIs
  rw [hget]
  exact hv

theorem fieldIs_id (req : Request) (id : Nat) :
    fieldIs (Host.answer req) "id" id = decide (req.id = id) := by
  unfold fieldIs
  rw [Host.answer_id]
  dsimp only
  rw [eqInt_jsonInt]
  simp

theorem decodeReply_own (req : Request) :
    decodeReply req.id (Host.body req) = outcome (Host.answer req) := by
  unfold decodeReply checkReply
  rw [Host.loads_body]
  simp [fieldIs_v, fieldIs_id]

theorem decodeReply_other {req : Request} {id : Nat} (h : req.id ≠ id) :
    decodeReply id (Host.body req) = .error (.idMismatch id (some (jsonInt req.id))) := by
  unfold decodeReply checkReply
  rw [Host.loads_body]
  simp [fieldIs_v, fieldIs_id, h, Host.answer_id]

/-- The reply to a request is short enough to be read. -/
def Short (req : Request) : Prop := (Host.body req).length ≤ maxLength

namespace Client

variable {req : Request}

theorem beNat_header (hshort : Short req) (rest : Bytes) :
    beNat ((replyFrame req ++ rest).take 4) = (Host.body req).length := by
  have htake : (replyFrame req ++ rest).take 4 = beBytes 4 (Host.body req).length := by
    unfold replyFrame
    rw [append_assoc, take_append_of_le_length (by rw [length_beBytes])]
    rw [take_of_length_le (by rw [length_beBytes])]
  rw [htake]
  refine beNat_beBytes_of_lt (Nat.lt_of_le_of_lt hshort ?_)
  decide

theorem drop_header (req : Request) (rest : Bytes) :
    (replyFrame req ++ rest).drop 4 = Host.body req ++ rest := by
  unfold replyFrame
  rw [append_assoc, drop_append_of_le_length (by rw [length_beBytes]),
    drop_of_length_le (by rw [length_beBytes]), nil_append]

theorem length_ok (hshort : Short req) :
    ¬ ((Host.body req).length = 0 ∨ maxLength < (Host.body req).length) := by
  rintro (hzero | hlong)
  · exact Host.body_ne_nil req (eq_nil_of_length_eq_zero hzero)
  · exact absurd hshort (Nat.not_le_of_lt hlong)

variable {o : Except BridgeError Json} {b b' : Client} {t : Option Nat} {w : Waits}

/-- With a reply at the head of the stream, `receive` reads that reply or gives up. -/
theorem receive_spec {id : Nat} {rest : Bytes} (hshort : Short req)
    (hstream : b.stream = replyFrame req ++ rest) (h : b.receive id t w = some (o, b')) :
    b'.nextId = b.nextId ∧ ((o = decodeReply id (Host.body req) ∧ b'.stream = rest) ∨
        ((∃ e, o = .error e) ∧ ¬ w.Prompt)) := by
  unfold receive at h
  cases hhdr : b.readBytes 4 t w.header with
  | none =>
    rw [hhdr] at h
    cases h
  | some found =>
    obtain ⟨r, b1⟩ := found
    obtain ⟨hsame, ⟨rfl, hrest⟩ | ⟨rfl, -, hexp⟩⟩ := readBytes_spec hhdr
    · rw [hhdr] at h
      dsimp only at h
      rw [hstream, beNat_header hshort, if_neg (length_ok hshort)] at h
      rw [hstream, drop_header] at hrest
      cases hbody : b1.readBytes (Host.body req).length t w.body with
      | none =>
        rw [hbody] at h
        cases h
      | some found =>
        obtain ⟨r, b2⟩ := found
        obtain ⟨hsame', ⟨rfl, hrest'⟩ | ⟨rfl, -, hexp⟩⟩ := readBytes_spec hbody
        · rw [hbody] at h
          cases h
          rw [hrest, drop_left] at hrest'
          rw [hrest, take_left]
          exact ⟨hsame'.trans hsame, .inl ⟨rfl, hrest'⟩⟩
        · rw [hbody] at h
          cases h
          exact ⟨hsame'.trans hsame, .inr ⟨⟨_, rfl⟩, fun hw => hw.2 hexp⟩⟩
    · rw [hhdr] at h
      cases h
      exact ⟨hsame, .inr ⟨⟨_, rfl⟩, fun hw => hw.1 hexp⟩⟩

variable {b : Client}

/-- A reply that is on its way can be received. -/
theorem receive_filled (id : Nat) (t : Option Nat) {rest : Bytes} (hshort : Short req)
    (hstream : b.stream = replyFrame req ++ rest) :
    ∃ w b', b.receive id t w = some (decodeReply id (Host.body req), b') ∧ w.Prompt := by
  have hlen : 4 ≤ b.stream.length := by
    rw [hstream]
    simp [replyFrame, length_beBytes]
  obtain ⟨w1, b1, hhdr, hw1⟩ := readBytes_filled b t hlen
  obtain ⟨-, ⟨-, hrest⟩ | ⟨hr, -⟩⟩ := readBytes_spec hhdr
  · rw [hstream, drop_header] at hrest
    have hlen' : (Host.body req).length ≤ b1.stream.length := by
      rw [hrest, length_append]
      omega
    obtain ⟨w2, b2, hbody, hw2⟩ := readBytes_filled b1 t hlen'
    refine ⟨⟨w1, w2⟩, b2, ?_, hw1, hw2⟩
    rw [hrest, take_left] at hbody
    unfold receive
    rw [hhdr]
    dsimp only
    rw [hstream, beNat_header hshort, if_neg (length_ok hshort), hbody]
  · cases hr

/-! ### One request -/

/-- The request of a send. -/
def request (b : Client) (op : String) (params : Fields) (payload : Bytes) : Request :=
  ⟨b.nextId, op, envParams params payload, payload⟩

/-- The reply to a request comes after what is outstanding. -/
theorem stream_write (hb : 0 < b.nextId) (op : String) (params : Fields) (payload : Bytes) :
    ({ b with nextId := b.nextId + 1 }.write (b.request op params payload)).stream =
      b.stream ++ replyFrame (b.request op params payload) := by
  have hid : (b.request op params payload).id ≠ 0 := Nat.ne_of_gt hb
  simp [write, stream, hid]

/-- No reply is outstanding. -/
structure Synced (b : Client) : Prop where
  positive : 0 < b.nextId
  nothing : b.stream = []

/-- The reply to an earlier request is outstanding. -/
structure Behind (b : Client) : Prop where
  positive : 0 < b.nextId
  late : ∃ req : Request, req.id < b.nextId ∧ Short req ∧ b.stream = replyFrame req

variable {params : Fields} {payload : Bytes}

variable {op : String}

theorem Synced.stream_write (hb : b.Synced) :
    ({ b with nextId := b.nextId + 1 }.write (b.request op params payload)).stream =
      replyFrame (b.request op params payload) ++ [] := by
  rw [Client.stream_write hb.positive, hb.nothing, nil_append, append_nil]

/-- In sync, a send gets the reply to its own request, or gives up. -/
theorem Synced.send_spec (hb : b.Synced) (hshort : Short (b.request op params payload))
    (h : b.send op params payload t w = some (o, b')) :
    b'.nextId = b.nextId + 1 ∧
      ((o = outcome (Host.answer (b.request op params payload)) ∧ b'.Synced) ∨
        ((∃ e, o = .error e) ∧ ¬ w.Prompt)) := by
  obtain ⟨hsame, ⟨rfl, hrest⟩ | hgave⟩ := receive_spec hshort hb.stream_write h
  · refine ⟨hsame, .inl ⟨decodeReply_own _, ?_, hrest⟩⟩
    rw [hsame]
    exact Nat.succ_pos _
  · exact ⟨hsame, .inr hgave⟩

/-- In sync, a send whose reply arrives in time gets it. -/
theorem Synced.send_filled (hb : b.Synced) (hshort : Short (b.request op params payload))
    (t : Option Nat) :
    ∃ w b', b.send op params payload t w =
      some (outcome (Host.answer (b.request op params payload)), b') ∧ w.Prompt := by
  rw [← decodeReply_own]
  exact receive_filled _ t hshort hb.stream_write

/-- Behind, a send reads the reply to an earlier request, and its own reply is outstanding
after it. -/
theorem Behind.send_spec (hb : b.Behind) (h : b.send op params payload t w = some (o, b')) :
    (∃ e, o = .error e) ∧ (w.Prompt → Short (b.request op params payload) → b'.Behind) := by
  obtain ⟨late, hlate, hshort, hpast⟩ := hb.late
  have hstream : ({ b with nextId := b.nextId + 1 }.write (b.request op params payload)).stream =
      replyFrame late ++ replyFrame (b.request op params payload) := by
    rw [stream_write hb.positive, hpast]
  obtain ⟨hsame, ⟨rfl, hrest⟩ | ⟨herr, hexp⟩⟩ := receive_spec hshort hstream h
  · refine ⟨⟨_, decodeReply_other (Nat.ne_of_lt hlate)⟩, fun _ hown => ⟨?_, ?_⟩⟩
    · rw [hsame]
      exact Nat.succ_pos _
    · refine ⟨_, ?_, hown, hrest⟩
      rw [hsame]
      exact Nat.lt_succ_self _
  · exact ⟨herr, fun hw => absurd hw hexp⟩

/-- A send takes one id. -/
theorem send_nextId (h : b.send op params payload t w = some (o, b')) :
    b'.nextId = b.nextId + 1 := by
  unfold send receive at h
  dsimp only at h
  cases hhdr : ({ b with nextId := b.nextId + 1 }.write
      ⟨b.nextId, op, envParams params payload, payload⟩).readBytes 4 t w.header with
  | none =>
    rw [hhdr] at h
    cases h
  | some found =>
    obtain ⟨r, b1⟩ := found
    have hsame := (readBytes_spec hhdr).1
    rw [hhdr] at h
    cases r with
    | none =>
      cases h
      exact hsame
    | some hdr =>
      dsimp only at h
      split at h
      · cases h
        exact hsame
      · cases hbody : b1.readBytes (beNat hdr) t w.body with
        | none =>
          rw [hbody] at h
          cases h
        | some found =>
          obtain ⟨r, b2⟩ := found
          have hsame' := (readBytes_spec hbody).1.trans hsame
          rw [hbody] at h
          cases r with
          | none =>
            cases h
            exact hsame'
          | some body =>
            cases h
            exact hsame'

/-! ### Runs -/

theorem sendPending_cases {o : Except BridgeError Unit} (h : b.sendPending t w = some (o, b')) :
    (b.pending.isEmpty = true ∧ o = .ok () ∧ b' = b) ∨
    (b.pending.isEmpty = false ∧ ∃ o', { b with pending := [] }.send "render.batch"
      (batchParams b.pending) [] t w = some (o', b') ∧ o = o'.map fun _ => ()) := by
  unfold sendPending at h
  split at h
  · next hempty =>
    cases h
    exact .inl ⟨hempty, rfl, rfl⟩
  · next hempty =>
    right
    refine ⟨by simpa using hempty, ?_⟩
    cases hsend : { b with pending := [] }.send "render.batch" (batchParams b.pending) [] t w with
    | none =>
      rw [hsend] at h
      cases h
    | some found =>
      obtain ⟨o', b1⟩ := found
      rw [hsend] at h
      cases o' with
      | error e =>
        cases h
        exact ⟨_, rfl, rfl⟩
      | ok r =>
        cases h
        exact ⟨_, rfl, rfl⟩

variable {batch : Waits} {c : Call}

theorem call_cases {own : Waits} (h : b.call c batch own = some (o, b')) :
    (∃ e, b.sendPending c.timeoutMs batch = some (.error e, b') ∧ o = .error e) ∨
    ∃ b1, b.sendPending c.timeoutMs batch = some (.ok (), b1) ∧
      b1.send c.op c.params c.payload c.timeoutMs own = some (o, b') := by
  unfold call at h
  cases hpending : b.sendPending c.timeoutMs batch with
  | none =>
    rw [hpending] at h
    cases h
  | some found =>
    obtain ⟨o1, b1⟩ := found
    rw [hpending] at h
    cases o1 with
    | error e =>
      cases h
      exact .inl ⟨e, rfl, rfl⟩
    | ok r => exact .inr ⟨b1, rfl, h⟩

/-- What the programs using the bridge do, and the arrival of bytes in between. -/
inductive Event
  | cast (op : String) (params : Fields)
  | flush (w : Waits)
  | call (c : Call) (batch own : Waits)
  | notify (op : String) (params : Fields) (payload : Bytes) (w : Waits)
  | arrive (n : Nat)

def step (b : Client) : Event → Option Client
  | .cast op params => some (b.cast op params)
  | .flush w => (b.flush w).map Prod.snd
  | .call c batch own => (b.call c batch own).map Prod.snd
  | .notify op params payload w => (b.notify op params payload w).map Prod.snd
  | .arrive n => some (b.arrive n)

/-- No read of the event runs into its deadline. -/
def Event.Prompt : Event → Prop
  | .cast _ _ | .arrive _ => True
  | .flush w | .notify _ _ _ w => w.Prompt
  | .call _ batch own => batch.Prompt ∧ own.Prompt

/-- The request that the queued casts are sent as. -/
def batchRequest (b : Client) : Request := b.request "render.batch" (batchParams b.pending) []

/-- The request of a call: the queued casts go first, as a request of their own. -/
def ownRequest (b : Client) (c : Call) : Request :=
  ⟨if b.pending.isEmpty then b.nextId else b.nextId + 1, c.op, envParams c.params c.payload,
    c.payload⟩

/-- The replies to the requests of a call are short. -/
structure ShortCall (b : Client) (c : Call) : Prop where
  batch : Short b.batchRequest
  own : Short (b.ownRequest c)

/-- The replies to the requests of an event are short. -/
def ShortEvent (b : Client) : Event → Prop
  | .cast _ _ | .arrive _ => True
  | .flush _ | .notify _ _ _ _ => Short b.batchRequest
  | .call c _ _ => b.ShortCall c

/-- No read of the event runs into its deadline, and it finds no reply too long. -/
structure Timely (b : Client) (e : Event) : Prop where
  prompt : e.Prompt
  short : b.ShortEvent e

/-- The call's request follows that of the queued casts. -/
theorem request_of_sendPending {b1 : Client} {o : Except BridgeError Unit}
    (h : b.sendPending t w = some (o, b1)) (c : Call) :
    b1.request c.op c.params c.payload = b.ownRequest c := by
  unfold ownRequest request
  rcases sendPending_cases h with ⟨hempty, -, rfl⟩ | ⟨hempty, o', hbatch, -⟩
  · rw [hempty]
    rfl
  · rw [hempty, send_nextId hbatch]
    rfl

/-- A property of the ids and the stream that timely sends keep. -/
structure Kept (I : Client → Prop) : Prop where
  frame : ∀ {b b' : Client}, I b → b'.nextId = b.nextId → b'.stream = b.stream → I b'
  send : ∀ {b b' : Client} {op : String} {params : Fields} {payload : Bytes} {t : Option Nat}
    {w : Waits} {o : Except BridgeError Json}, I b →
    b.send op params payload t w = some (o, b') → w.Prompt →
    Short (b.request op params payload) → I b'

theorem kept_synced : Kept Synced where
  frame := by
    intro b b' hb hid hstream
    exact ⟨hid ▸ hb.positive, hstream.trans hb.nothing⟩
  send := by
    intro b b' op params payload t w o hb h hw hshort
    rcases (hb.send_spec hshort h).2 with ⟨-, hsynced⟩ | ⟨-, hexp⟩
    · exact hsynced
    · exact absurd hw hexp

theorem kept_behind : Kept Behind where
  frame := by
    intro b b' hb hid hstream
    obtain ⟨late, hlate, hshort, hpast⟩ := hb.late
    exact ⟨hid ▸ hb.positive, late, hid ▸ hlate, hshort, hstream.trans hpast⟩
  send := by
    intro b b' op params payload t w o hb h hw hshort
    exact (hb.send_spec h).2 hw hshort

variable {I : Client → Prop}

theorem Kept.sendPending (hI : Kept I) (hb : I b) {o : Except BridgeError Unit}
    (h : b.sendPending t w = some (o, b')) (hw : w.Prompt) (hshort : Short b.batchRequest) :
    I b' := by
  rcases sendPending_cases h with ⟨-, -, rfl⟩ | ⟨-, o', hsend, -⟩
  · exact hb
  · have hb0 : I { b with pending := [] } := hI.frame hb rfl rfl
    exact hI.send hb0 hsend hw hshort

theorem Kept.step_timely (hI : Kept I) {e : Event} (hb : I b) (he : b.Timely e)
    (h : b.step e = some b') : I b' := by
  obtain ⟨hprompt, hshort⟩ := he
  cases e with
  | cast op params =>
    cases h
    exact hI.frame hb rfl rfl
  | arrive n =>
    cases h
    exact hI.frame hb rfl (stream_arrive b n)
  | flush w =>
    obtain ⟨⟨o, b1⟩, hflush, rfl⟩ := Option.map_eq_some_iff.1 h
    exact hI.sendPending hb hflush hprompt hshort
  | call c batch own =>
    obtain ⟨⟨o, b1⟩, hcall, rfl⟩ := Option.map_eq_some_iff.1 h
    rcases call_cases hcall with ⟨e, hpending, -⟩ | ⟨b2, hpending, hsend⟩
    · exact hI.sendPending hb hpending hprompt.1 hshort.batch
    · refine hI.send (hI.sendPending hb hpending hprompt.1 hshort.batch) hsend hprompt.2 ?_
      rw [request_of_sendPending hpending]
      exact hshort.own
  | notify op params payload w =>
    obtain ⟨⟨o, b1⟩, hnotify, rfl⟩ := Option.map_eq_some_iff.1 h
    unfold notify at hnotify
    cases hflush : b.flush w with
    | none =>
      rw [hflush] at hnotify
      cases hnotify
    | some found =>
      obtain ⟨o1, b2⟩ := found
      have hb2 : I b2 := hI.sendPending hb hflush hprompt hshort
      rw [hflush] at hnotify
      cases o1 with
      | error e =>
        cases hnotify
        exact hb2
      | ok r =>
        -- a notification has id 0 and gets no reply
        cases hnotify
        exact hI.frame hb2 rfl rfl

theorem Kept.run (hI : Kept I) {evs : List Event} (hb : I b) (htimely : Guarded step Timely b evs)
    (hrun : exec step b evs = some b') : I b' :=
  guarded_invariant I (fun _ _ _ h he hs => hI.step_timely h he hs) hb htimely hrun

/-! ### Calls that are served -/

/-- What the host's replies make of a call. -/
def answers (b : Client) (c : Call) : Except BridgeError Json :=
  if b.pending.isEmpty then outcome (Host.answer (b.ownRequest c))
  else match outcome (Host.answer b.batchRequest) with
    | .error e => .error e
    | .ok _ => outcome (Host.answer (b.ownRequest c))

/-- A call that returns normally returns the reply to its own request, and where all replies
have arrived, a call can get what the host answers. -/
structure Serves (b : Client) : Prop where
  own : ∀ c, b.ShortCall c → ∀ batch own r b', b.call c batch own = some (.ok r, b') →
    .ok r = outcome (Host.answer (b.ownRequest c))
  again : b.transit = [] → ∀ c, b.ShortCall c →
    ∃ batch own b', b.call c batch own = some (b.answers c, b')

theorem Synced.own (hb : b.Synced) (hshort : b.ShortCall c) {own : Waits} {r : Json}
    (hcall : b.call c batch own = some (.ok r, b')) :
    .ok r = outcome (Host.answer (b.ownRequest c)) := by
  rcases call_cases hcall with ⟨e, -, herr⟩ | ⟨b1, hpending, hsend⟩
  · cases herr
  · -- the casts are answered before, so the client is in sync when it sends the request
    have hsynced : b1.Synced := by
      rcases sendPending_cases hpending with ⟨-, -, rfl⟩ | ⟨-, o', hbatch, hok⟩
      · exact hb
      · have hb0 : Synced { b with pending := [] } := ⟨hb.positive, hb.nothing⟩
        rcases (hb0.send_spec hshort.batch hbatch).2 with ⟨-, hsynced⟩ | ⟨⟨e, rfl⟩, -⟩
        · exact hsynced
        · cases hok
    have hreq := request_of_sendPending hpending c
    have hown : Short (b1.request c.op c.params c.payload) := hreq ▸ hshort.own
    rw [← hreq]
    rcases (hsynced.send_spec hown hsend).2 with ⟨hown, -⟩ | ⟨⟨e, herr⟩, -⟩
    · exact hown
    · cases herr

theorem Synced.again (hb : b.Synced) (hshort : b.ShortCall c) :
    ∃ batch own b', b.call c batch own = some (b.answers c, b') ∧ batch.Prompt ∧ own.Prompt := by
  by_cases hempty : b.pending.isEmpty = true
  · have hreq : b.request c.op c.params c.payload = b.ownRequest c := by
      unfold ownRequest request
      rw [hempty]
      rfl
    obtain ⟨own, b', hsend, hw⟩ := hb.send_filled (hreq ▸ hshort.own) c.timeoutMs
    refine ⟨own, own, b', ?_, hw, hw⟩
    unfold call sendPending answers
    rw [if_pos hempty, if_pos hempty, ← hreq]
    exact hsend
  · have hb0 : Synced { b with pending := [] } := ⟨hb.positive, hb.nothing⟩
    obtain ⟨batch, b1, hbatch, hw⟩ := hb0.send_filled hshort.batch c.timeoutMs
    have hsynced : b1.Synced := kept_synced.send hb0 hbatch hw hshort.batch
    have hreq : b1.request c.op c.params c.payload = b.ownRequest c := by
      unfold ownRequest request
      rw [send_nextId hbatch, if_neg hempty]
    obtain ⟨own, b', hsend, hw'⟩ := hsynced.send_filled (hreq ▸ hshort.own) c.timeoutMs
    unfold answers
    rw [if_neg hempty]
    change { b with pending := [] }.send "render.batch" (batchParams b.pending) [] c.timeoutMs
      batch = some (outcome (Host.answer b.batchRequest), b1) at hbatch
    cases hout : outcome (Host.answer b.batchRequest) with
    | error e =>
      refine ⟨batch, own, b1, ?_, hw, hw'⟩
      unfold call sendPending
      rw [if_neg hempty, hbatch, hout]
    | ok r =>
      refine ⟨batch, own, b', ?_, hw, hw'⟩
      unfold call sendPending
      rw [if_neg hempty, hbatch, hout, ← hreq]
      exact hsend

theorem Synced.serves (hb : b.Synced) : b.Serves where
  own := fun _ hshort _ _ _ _ hcall => hb.own hshort hcall
  again := by
    intro _ c hshort
    obtain ⟨batch, own, b', hcall, -⟩ := hb.again hshort
    exact ⟨batch, own, b', hcall⟩

/-- In a run in which no read runs into its deadline, every call is served. -/
theorem serves_of_timely {evs : List Event} {b : Client} (htimely : Guarded step Timely {} evs)
    (hrun : exec step {} evs = some b) : b.Serves :=
  (kept_synced.run ⟨Nat.one_pos, rfl⟩ htimely hrun).serves

/-! ### After a late reply -/

/-- Behind, every call fails. -/
theorem Behind.call_fails (hb : b.Behind) {own : Waits}
    (hcall : b.call c batch own = some (o, b')) : ∃ e, o = .error e := by
  rcases call_cases hcall with ⟨e, -, herr⟩ | ⟨b1, hpending, hsend⟩
  · exact ⟨e, herr⟩
  · rcases sendPending_cases hpending with ⟨-, -, rfl⟩ | ⟨-, o', hbatch, hok⟩
    · exact (hb.send_spec hsend).1
    · have hb0 : Behind { b with pending := [] } := ⟨hb.positive, hb.late⟩
      obtain ⟨e, rfl⟩ := (hb0.send_spec hbatch).1
      cases hok

end Client

end

/-! ### A host that always agrees -/

def asciiBytes (cs : List Char) : Bytes := cs.map fun c => UInt8.ofNat c.toNat

/-- The text before the id. -/
def okHead : Bytes :=
  asciiBytes ['{', '"', 'v', '"', ':', ' ', '2', ',', ' ', '"', 'i', 'd', '"', ':', ' ']

/-- The text after the id. -/
def okTail : Bytes :=
  asciiBytes [',', ' ', '"', 'o', 'k', '"', ':', ' ', 't', 'r', 'u', 'e', '}']

/-- The decimal digits of a number. -/
def digitBytes (n : Nat) : Bytes := (Nat.digits 10 n).reverse.map fun d => UInt8.ofNat (d + 48)

def isDigit (x : UInt8) : Bool := 48 ≤ x.toNat ∧ x.toNat ≤ 57

def okFields (id : Nat) : Fields :=
  [("v", jsonInt protocolVersion), ("id", jsonInt id), ("ok", .bool true)]

/-- `json.loads` on the texts of this host. -/
def okLoads (b : Bytes) : Option Json :=
  let digits := (b.drop okHead.length).takeWhile isDigit
  if b = okHead ++ digits ++ okTail then
    some (.obj (okFields (Nat.ofDigits 10 (digits.reverse.map fun x => x.toNat - 48))))
  else none

theorem toNat_digit {n d : Nat} (h : d ∈ Nat.digits 10 n) :
    (UInt8.ofNat (d + 48)).toNat = d + 48 := by
  have hlt : d < 10 := Nat.digits_lt_base (by decide) h
  simp
  omega

theorem takeWhile_digitBytes (n : Nat) :
    (digitBytes n ++ okTail).takeWhile isDigit = digitBytes n := by
  have hall : ∀ x ∈ digitBytes n, isDigit x = true := by
    intro x hx
    obtain ⟨d, hd, rfl⟩ := mem_map.1 hx
    rw [mem_reverse] at hd
    have hlt : d < 10 := Nat.digits_lt_base (by decide) hd
    unfold isDigit
    simp
    omega
  rw [takeWhile_append_of_pos hall]
  have htail : okTail.takeWhile isDigit = [] := by decide
  rw [htail, append_nil]

theorem ofDigits_digitBytes (n : Nat) :
    Nat.ofDigits 10 ((digitBytes n).reverse.map fun x => x.toNat - 48) = n := by
  have hmap : (digitBytes n).reverse.map (fun x => x.toNat - 48) = Nat.digits 10 n := by
    unfold digitBytes
    rw [← map_reverse, reverse_reverse, map_map]
    conv_rhs => rw [← map_id (Nat.digits 10 n)]
    refine map_congr_left fun d hd => ?_
    dsimp only [Function.comp]
    rw [toNat_digit hd]
    simp
  rw [hmap, Nat.ofDigits_digits]

theorem okLoads_body (n : Nat) :
    okLoads (okHead ++ digitBytes n ++ okTail) = some (.obj (okFields n)) := by
  unfold okLoads
  rw [append_assoc, drop_left, takeWhile_digitBytes, if_pos (by rw [append_assoc]),
    ofDigits_digitBytes]

/-- Texts separated by commas, between brackets. -/
def okJoin (left right : Char) (texts : List Bytes) : Bytes :=
  asciiBytes [left] ++ intercalate (asciiBytes [',', ' ']) texts ++ asciiBytes [right]

def okQuote (s : String) : Bytes := asciiBytes ('"' :: s.toList ++ ['"'])

/-- `json.dumps` of values without floats, where no character of a text needs an escape. -/
def okDumps : Json → Bytes
  | .null => asciiBytes "null".toList
  | .bool b => asciiBytes (toString b).toList
  | .num (.int i) => asciiBytes (toString i).toList
  | .num (.float _) => []
  | .str s => okQuote s
  | .arr items => okJoin '[' ']' (items.map okDumps)
  | .obj fields =>
    okJoin '{' '}' (fields.map fun f => okQuote f.1 ++ asciiBytes [':', ' '] ++ okDumps f.2)
decreasing_by
  · decreasing_tactic
  · next h =>
    have hlt := sizeOf_lt_of_mem h
    cases f
    simp at hlt ⊢
    omega

/-- A host that agrees to every request. -/
@[reducible] def okHost : Host where
  dumps := okDumps
  loads := okLoads
  answer := fun req => okFields req.id
  body := fun req => okHead ++ digitBytes req.id ++ okTail
  loads_body := fun req => okLoads_body req.id
  body_ne_nil := by
    intro req h
    simp [okHead, asciiBytes] at h
  answer_v := fun req => ⟨_, rfl, by rfl⟩
  answer_id := fun req => rfl

theorem okHost_length {req : Request} (h : req.id < 10) : (okHost.body req).length ≤ 29 := by
  have hlen : (Nat.digits 10 req.id).length ≤ 1 := (Nat.digits_length_le_iff (by decide) _).2 h
  have hhead : okHead.length = 15 := rfl
  have htail : okTail.length = 13 := rfl
  show (okHead ++ digitBytes req.id ++ okTail).length ≤ 29
  rw [length_append, length_append, hhead, htail]
  unfold digitBytes
  rw [length_map, length_reverse]
  omega

namespace Client

/-- The probe of the host. -/
def hello : Call := { op := "hello", timeoutMs := some 2000 }

/-- The request of the probe. -/
def helloRequest : Request := ⟨1, "hello", [], []⟩

/-- A probe, a cast, and a call that sends the cast first. -/
def castRun (w batch own : Waits) : List Event :=
  [.call hello w w, .cast "surface.fill" [], .call { op := "event.poll" } batch own]

theorem serves_of_timely_hello : letI := okHost
    ∃ w batch own b, exec step {} (castRun w batch own) = some b ∧
      Guarded step Timely {} (castRun w batch own) ∧ b.Serves := by
  let _ := okHost
  have hle : 29 ≤ maxLength := by decide
  have hshort : ShortCall {} hello :=
    ⟨(okHost_length (by decide)).trans hle, (okHost_length (by decide)).trans hle⟩
  have hsynced : Synced {} := ⟨Nat.one_pos, rfl⟩
  obtain ⟨w, b1, hsend, hw⟩ := (hsynced.send_filled hshort.own (some 2000) :
    ∃ w b, send {} "hello" [] [] (some 2000) w = some (_, b) ∧ w.Prompt)
  have hid : b1.nextId = 2 := send_nextId hsend
  have hsynced' : Synced (b1.cast "surface.fill" []) :=
    kept_synced.frame (kept_synced.send hsynced hsend hw hshort.own) rfl rfl
  have hshort' : ShortCall (b1.cast "surface.fill" []) { op := "event.poll" } := by
    constructor
    · refine (okHost_length ?_).trans hle
      show b1.nextId < 10
      rw [hid]
      decide
    · refine (okHost_length ?_).trans hle
      show (if _ then b1.nextId else b1.nextId + 1) < 10
      rw [hid]
      split <;> decide
  obtain ⟨batch, own, b, hcall, hw'⟩ := hsynced'.again hshort'
  have hfirst : step {} (.call hello w w) = some b1 := by
    show (call {} hello w w).map Prod.snd = _
    have hcall : call {} hello w w = some (_, b1) := hsend
    rw [hcall]
    rfl
  have hlast : step (b1.cast "surface.fill" []) (.call { op := "event.poll" } batch own) =
      some b := by
    show (call _ _ _ _).map Prod.snd = _
    rw [hcall]
    rfl
  have hrun : exec step {} (castRun w batch own) = some b :=
    exec_cons_eq_some.mpr ⟨b1, hfirst, exec_cons_eq_some.mpr ⟨_, rfl,
      exec_cons_eq_some.mpr ⟨b, hlast, rfl⟩⟩⟩
  have hguard : Guarded step Timely {} (castRun w batch own) := by
    refine ⟨⟨⟨hw, hw⟩, hshort⟩, fun b' hb' => ?_⟩
    cases hfirst.symm.trans hb'
    refine ⟨⟨trivial, trivial⟩, fun b' hb' => ?_⟩
    cases hb'
    exact ⟨⟨hw', hshort'⟩, fun _ _ => trivial⟩
  exact ⟨w, batch, own, b, hrun, hguard, serves_of_timely hguard hrun⟩

/-- A probe of the host that gives up, and then its reply. -/
def lateRun : List Event :=
  [.call hello ⟨.filled 0, .filled 0⟩ ⟨.expired 0, .filled 0⟩, .arrive 100]

/-- After a reply that came too late, no call returns any more. -/
theorem late_reply_ends_calls : letI := okHost
    ∃ b : Client, exec step {} lateRun = some b ∧ b.transit = [] ∧ ¬ b.Serves ∧
      ∀ evs b', Guarded step Timely b evs → exec step b evs = some b' →
        ∀ c batch own o b'', b'.call c batch own = some (o, b'') → ∃ e, o = .error e := by
  let _ := okHost
  have hlen := okHost_length (show helloRequest.id < 10 by decide)
  have hframe : (replyFrame helloRequest).length ≤ 100 := by
    exact Nat.le_trans (Nat.add_le_add_left hlen 4) (by decide)
  let sent : Client := ({ nextId := 2 } : Client).write helloRequest
  have hrun : exec step {} lateRun = some ((sent.arrive 0).arrive 100) := rfl
  have hstream : ((sent.arrive 0).arrive 100).stream = replyFrame helloRequest := by
    rfl
  have hbehind : Behind ((sent.arrive 0).arrive 100) :=
    ⟨by decide, helloRequest, by decide, Nat.le_trans hlen (by decide), hstream⟩
  have htransit : ((sent.arrive 0).arrive 100).transit = [] :=
    drop_eq_nil_of_le hframe
  refine ⟨_, hrun, htransit, ?_, ?_⟩
  · intro hserves
    have hle : 29 ≤ maxLength := by decide
    obtain ⟨batch, own, b', hcall⟩ := hserves.again htransit { op := "hello" }
      ⟨(okHost_length (by decide)).trans hle, (okHost_length (by decide)).trans hle⟩
    obtain ⟨e, he⟩ := hbehind.call_fails hcall
    cases he
  · intro evs b' htimely hrun' c batch own o b'' hcall
    exact (kept_behind.run hbehind htimely hrun').call_fails hcall

end Client

end PythonOS.Bridge
