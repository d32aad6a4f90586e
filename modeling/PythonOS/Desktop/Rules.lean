import PythonOS.Desktop.Changes
import PythonOS.Desktop.Server

/-!
# PythonOS.Desktop.Rules

Rules for the functions of the service.

The first part says what the primitive functions do (`wp_call`, `wp_onDesktop`,
`wp_updateAsset`). The rest follows the source: a media function writes to the log
of calls, to the records and the queue of one session, and to the two global
variables of `Media`, and a property that these writes keep (`PlayerStable`) is
kept by every media function. `TickStable` is the same for the tick, which also
writes to the surfaces, the frame and the desktop.
-/

set_option linter.dupNamespace false

namespace PythonOS.Desktop

open Lib PyState

/-! ### Primitive functions -/

section Primitive

variable {α : Type} {Q : α → Service → Prop} {E : Exc → Service → Prop} {σ : Service}

@[simp] theorem wp_liftPy (x : Except PyExc α) :
    wp (liftPy x) Q E σ ↔ match x with
      | .ok a => Q a σ
      | .error e => E (.py e) σ := by
  cases x with
  | ok a => rfl
  | error e => rfl

/-- What a function of the desktop has done before it raises stays done. -/
theorem wp_onDesktop (m : D α) :
    wp (onDesktop m) Q E σ ↔ wp m (fun a d => Q a { σ with desktop := d })
      (fun e d => E (.py e) { σ with desktop := d }) σ.desktop := by
  unfold onDesktop
  rw [wp_bind, wp_get]
  unfold wp
  rcases m.run.run σ.desktop with ⟨r, d⟩
  cases r with
  | ok a => rfl
  | error e => rfl

/-- The service once a call has been made. -/
def Service.called (σ : Service) (op : BackendOp) : Service :=
  { σ with calls := σ.calls ++ [(op, σ.backend σ.calls.length)] }

/-- The text of the exception for a call that the backend rejects. -/
def rejection (message : String) : Exc :=
  .py (.valueError ("RemoteOS rejected operation: " ++ message))

/-- A call that is rejected has been made all the same. -/
theorem wp_call {Q : Result → Service → Prop} (op : BackendOp) :
    wp (call op) Q E σ ↔ match σ.backend σ.calls.length with
      | .ok r => Q r (σ.called op)
      | .error message => E (rejection message) (σ.called op) := by
  simp only [call, wp_bind, wp_get, wp_set]
  unfold Service.called
  cases σ.backend σ.calls.length with
  | ok r => rfl
  | error message => rfl

theorem wp_assetOf {Q : Asset → Service → Prop} (s : SessionId) (rid : String) :
    wp (assetOf s rid) Q E σ ↔ match Dict.get? (σ.assets s) rid with
      | some r => Q r σ
      | none => E (.py (.keyError rid)) σ := by
  simp only [assetOf, wp_bind, wp_get, wp_liftPy]
  cases Dict.get? (σ.assets s) rid with
  | none => rfl
  | some r => rfl

/-- The service with the record of one resource replaced. -/
def Service.setAsset (σ : Service) (s : SessionId) (rid : String) (r : Asset) : Service :=
  σ.setAssets s (Dict.set (σ.assets s) rid r)

theorem wp_updateAsset {Q : Unit → Service → Prop} (s : SessionId) (rid : String)
    (f : Asset → Asset) :
    wp (updateAsset s rid f) Q E σ ↔ match Dict.get? (σ.assets s) rid with
      | some r => Q () (σ.setAsset s rid (f r))
      | none => E (.py (.keyError rid)) σ := by
  simp only [updateAsset, wp_bind, wp_get, wp_assetOf]
  cases Dict.get? (σ.assets s) rid with
  | none => rfl
  | some r => rfl

/-- The service once a session has been told something. -/
def Service.told (σ : Service) (s : SessionId) (body : EventBody) : Service :=
  { σ with desktop := σ.desktop.setSession s ((σ.desktop.store s).emit body) }

theorem wp_emit {Q : Unit → Service → Prop} (s : SessionId) (body : EventBody) :
    wp (onDesktop (emitTo s body)) Q E σ ↔ Q () (σ.told s body) := by
  rfl

end Primitive

section

variable {α β : Type} {Inv : Service → Prop}

theorem keeps_liftPy (x : Except PyExc α) : Keeps Inv (liftPy x) := by
  intro σ hσ
  cases x with
  | ok a => exact hσ
  | error e => exact hσ

/-- A check before `f`: where it fails nothing has changed. -/
theorem keeps_liftPy_bind {x : Except PyExc α} {f : α → M β}
    (hf : ∀ a, x = .ok a → Keeps Inv (f a)) : Keeps Inv (liftPy x >>= f) := by
  intro σ hσ
  cases x with
  | ok a => exact hf a rfl σ hσ
  | error e => exact hσ

theorem wp_liftPy_bind {x : Except PyExc α} {f : α → M β} {Q : β → Service → Prop}
    {E : Exc → Service → Prop} {σ : Service} (hE : ∀ e, E e σ)
    (hf : ∀ a, x = .ok a → wp (f a) Q E σ) : wp (liftPy x >>= f) Q E σ := by
  cases x with
  | ok a => exact hf a rfl
  | error e => exact hE _

theorem keeps_call (h : ∀ σ op, Inv σ → Inv (σ.called op)) (op : BackendOp) :
    Keeps Inv (call op) := by
  intro σ hσ
  rw [wp_call]
  cases σ.backend σ.calls.length with
  | ok r => exact h σ op hσ
  | error message => exact h σ op hσ

theorem keeps_assetOf (s : SessionId) (rid : String) : Keeps Inv (assetOf s rid) :=
  keeps_get_bind fun _ _ => keeps_liftPy _

/-- A function of the desktop keeps what it keeps of the desktop. -/
theorem keeps_onDesktop {m : D α}
    (h : ∀ σ : Service, Keeps (fun d => Inv { σ with desktop := d }) m) :
    Keeps Inv (onDesktop m) := by
  intro σ hσ
  rw [wp_onDesktop]
  exact h σ σ.desktop hσ

end

/-! ### Players -/

/-- A record that changes only in what its player shows, and does not start to play. -/
structure Asset.Quiet (r r' : Asset) : Prop where
  kind : r'.kind = r.kind
  size : r'.size = r.size
  data : r'.data = r.data
  ready : r'.ready = r.ready
  handle : r'.handle = r.handle
  rate : r'.rate = r.rate
  pcm : r'.pcm = r.pcm
  accepted : r'.accepted = r.accepted
  playing : r'.playing = true → r.playing = true

/-- The position and what is shown of it may change, and playing may stop. -/
theorem Asset.Quiet.set {r : Asset} {offset : Int} {seconds : PyNum} {playing eof refresh : Bool}
    {error : Option String} (hp : playing = true → r.playing = true) :
    r.Quiet { r with offset, seconds, playing, eof, refresh, error } :=
  ⟨rfl, rfl, rfl, rfl, rfl, rfl, rfl, rfl, hp⟩

/-- What owns the audio output does not play. -/
def Service.Silent (σ : Service) : Prop :=
  ∀ s rid r, σ.audioOwner = some (s, rid) → Dict.get? (σ.assets s) rid = some r → r.playing = false

/-- Kept by calls, by quiet changes of the records and by the events of the sessions `P`. -/
structure RecordStable (P : SessionId → Prop) (Inv : Service → Prop) : Prop where
  call : ∀ σ op, Inv σ → Inv (σ.called op)
  update : ∀ σ s rid r r', P s → Dict.get? (σ.assets s) rid = some r → r.Quiet r' → Inv σ →
    Inv (σ.setAsset s rid r')
  emit : ∀ σ s body, P s → Inv σ → Inv (σ.told s body)

/-- Kept also when a player that has stopped gives up the audio output. -/
structure QuietStable (P : SessionId → Prop) (Inv : Service → Prop) : Prop
    extends RecordStable P Inv where
  silence : ∀ σ, σ.Silent → Inv σ → Inv { σ with audioOwner := none }

namespace RecordStable

variable {P : SessionId → Prop} {Inv : Service → Prop} (h : RecordStable P Inv)
variable {s : SessionId} (hs : P s)

include h

theorem calls (op : BackendOp) : Keeps Inv (Desktop.call op) := keeps_call h.call op

/-- The owner of the audio output does not change either. -/
theorem withOwner (owner : Option (SessionId × String)) :
    RecordStable P fun σ => Inv σ ∧ σ.audioOwner = owner where
  call σ op hσ := ⟨h.call σ op hσ.1, hσ.2⟩
  update σ s rid r r' hs hget hr hσ := ⟨h.update σ s rid r r' hs hget hr hσ.1, hσ.2⟩
  emit σ s body hs hσ := ⟨h.emit σ s body hs hσ.1, hσ.2⟩

include hs

theorem updateAsset (rid : String) {f : Asset → Asset} (hf : ∀ r : Asset, r.Quiet (f r)) :
    Keeps Inv (updateAsset s rid f) := by
  intro σ hσ
  rw [wp_updateAsset]
  cases hget : Dict.get? (σ.assets s) rid with
  | none => exact hσ
  | some r => exact h.update σ s rid r (f r) hs hget (hf r) hσ

theorem emitTo (body : EventBody) : Keeps Inv (onDesktop (emitTo s body)) := by
  intro σ hσ
  exact h.emit σ s body hs hσ

/-- A control action other than `play`. -/
theorem moveVideo (rid : String) (r : Asset) (p : Fields) {action : Action} (ha : action ≠ .play) :
    Keeps Inv (moveVideo s rid r p action) := by
  cases action with
  | play => exact absurd rfl ha
  | pause => exact (h.calls _).bind fun _ => h.updateAsset hs rid fun _ => .set nofun
  | stop =>
    refine (h.calls _).bind fun _ =>
      Keeps.bind (h.updateAsset hs rid fun _ => .set nofun) fun _ => ?_
    exact (h.calls _).bind fun _ => h.updateAsset hs rid fun _ => .set id
  | seek =>
    exact keeps_liftPy_bind fun _ _ => (h.calls _).bind fun _ =>
      h.updateAsset hs rid fun _ => .set id

omit hs in
theorem queueOrClose (payload : Bytes) : Keeps Inv (queueOrClose payload) := by
  refine Keeps.tryCatch ((h.calls _).bind fun _ => keeps_pure _) fun e => ?_
  cases e with
  | runtimeError message => exact keeps_throw _
  | py e =>
    cases e with
    | valueError message => exact (h.calls _).bind fun _ => keeps_throw _
    | _ => exact keeps_throw _

end RecordStable

/-- The session has a ready resource of that name. -/
def Service.HasReady (s : SessionId) (rid : String) (σ : Service) : Prop :=
  ∃ r, Dict.get? (σ.assets s) rid = some r ∧ r.ready = true

@[simp] theorem Service.get?_setAsset (σ : Service) (s : SessionId) (rid : String) (r : Asset) :
    Dict.get? ((σ.setAsset s rid r).assets s) rid = some r := by
  unfold Service.setAsset Service.setAssets
  simp

theorem Service.get?_setAsset_of_ne (σ : Service) {s s' : SessionId} {rid rid' : String} (r : Asset)
    (h : (s', rid') ≠ (s, rid)) :
    Dict.get? ((σ.setAsset s rid r).assets s') rid' = Dict.get? (σ.assets s') rid' := by
  unfold Service.setAsset Service.setAssets
  by_cases hs : s' = s
  · subst hs
    have hrid : rid' ≠ rid := fun e => h (by rw [e])
    dsimp only
    rw [Function.update_self, Dict.get?_set_of_ne _ _ hrid]
  · dsimp only
    rw [Function.update_of_ne hs]

theorem hasReady_quiet (s : SessionId) (rid : String) :
    QuietStable (fun _ => True) (Service.HasReady s rid) where
  call _ _ h := h
  update σ s' rid' r r' _ hget hq h := by
    obtain ⟨r0, hget0, hready⟩ := h
    by_cases hkey : (s, rid) = (s', rid')
    · obtain ⟨rfl, rfl⟩ := Prod.mk.inj hkey
      cases hget.symm.trans hget0
      exact ⟨r', σ.get?_setAsset s rid r', hq.ready.trans hready⟩
    · exact ⟨r0, (σ.get?_setAsset_of_ne r' hkey).trans hget0, hready⟩
  emit _ _ _ _ h := h
  silence _ _ h := h

namespace QuietStable

theorem and {P : SessionId → Prop} {Inv Inv' : Service → Prop} (h : QuietStable P Inv)
    (h' : QuietStable P Inv') : QuietStable P fun σ => Inv σ ∧ Inv' σ where
  call σ op hσ := ⟨h.call σ op hσ.1, h'.call σ op hσ.2⟩
  update σ s rid r r' hs hget hq hσ :=
    ⟨h.update σ s rid r r' hs hget hq hσ.1, h'.update σ s rid r r' hs hget hq hσ.2⟩
  emit σ s body hs hσ := ⟨h.emit σ s body hs hσ.1, h'.emit σ s body hs hσ.2⟩
  silence σ hsilent hσ := ⟨h.silence σ hsilent hσ.1, h'.silence σ hsilent hσ.2⟩

variable {P : SessionId → Prop} {Inv : Service → Prop} (h : QuietStable P Inv)
variable {s : SessionId} (hs : P s)

include h hs

/-- A sound that has come to its end. -/
theorem endAudio (rid : String) {σ : Service} (hσ : Inv σ) (howner : σ.audioOwner = some (s, rid)) :
    wp (do
      Desktop.updateAsset s rid fun r => { r with playing := false, eof := true }
      onDesktop (Desktop.emitTo s (.mediaEnded rid))
      let _ ← Desktop.call .audioClose
      modify fun σ => { σ with audioOwner := none } : M Unit) (fun _ => Inv) (fun _ => Inv) σ := by
  rw [wp_bind, wp_updateAsset]
  cases hget : Dict.get? (σ.assets s) rid with
  | none => exact hσ
  | some r =>
    dsimp only
    have hupdate := h.update σ s rid r { r with playing := false, eof := true } hs hget
      (.set nofun) hσ
    have htold := h.call _ .audioClose (h.emit _ s (.mediaEnded rid) hs hupdate)
    rw [wp_bind, wp_emit, wp_bind, wp_call]
    split
    · refine h.silence _ (fun s' rid' r' ho hget' => ?_) htold
      have hkey : (s, rid) = (s', rid') := Option.some.inj (howner.symm.trans ho)
      obtain ⟨rfl, rfl⟩ := Prod.mk.inj hkey
      have hrec := (σ.get?_setAsset s rid { r with playing := false, eof := true }).symm.trans hget'
      cases hrec
      rfl
    · exact htold

/-- The sound that plays, which may be at its end: the owner is known, so only its own player
can stop. -/
theorem refreshAudio (rid : String) : Keeps Inv (refreshAudio s rid) := by
  refine (keeps_assetOf s rid).bind fun r => ?_
  intro σ hσ
  rw [wp_bind, wp_get, wp_onlyIf]
  refine ⟨fun hplays => ?_, fun _ => hσ⟩
  have hr := h.toRecordStable.withOwner (some (s, rid))
  refine (hr.calls _).wp_bind ⟨hσ, hplays.2.2⟩ (fun _ _ hσ => hσ.1) fun status σ hσ => ?_
  refine Keeps.wp_bind (hr.updateAsset hs rid fun _ => .set id) hσ (fun _ _ hσ => hσ.1)
    fun _ σ hσ => ?_
  cases position ((r.pcm.length : Int) - status.queuedBytes) r.rate with
  | error e => exact hσ.1
  | ok seconds =>
    refine (hr.updateAsset hs rid (f := fun r => { r with seconds }) fun _ => .set id).wp_bind hσ
      (fun _ _ hσ => hσ.1) fun _ σ hσ => ?_
    rw [wp_onlyIf]
    exact ⟨fun _ => h.endAudio hs rid hσ.1 hσ.2, fun _ => hσ.1⟩

end QuietStable

/-! ### Media requests -/

/-- Kept by everything that the media functions do for the sessions `P`. -/
structure PlayerStable (P : SessionId → Prop) (Inv : Service → Prop) : Prop where
  call : ∀ σ op, Inv σ → Inv (σ.called op)
  assets : ∀ σ s as, P s → Inv σ → Inv (σ.setAssets s as)
  emit : ∀ σ s body, P s → Inv σ → Inv (σ.told s body)
  globals : ∀ σ owner count, Inv σ → Inv { σ with audioOwner := owner, videoCount := count }

namespace PlayerStable

variable {P : SessionId → Prop} {Inv : Service → Prop} (h : PlayerStable P Inv)
variable {s : SessionId} (hs : P s)

include h

theorem quiet : QuietStable P Inv where
  call := h.call
  update σ s _ _ _ hs _ _ hσ := h.assets σ s _ hs hσ
  emit := h.emit
  silence σ _ hσ := h.globals σ none σ.videoCount hσ

theorem calls (op : BackendOp) : Keeps Inv (Desktop.call op) := keeps_call h.call op

theorem setOwner (owner : Option (SessionId × String)) :
    Keeps Inv (modify fun σ => { σ with audioOwner := owner } : M Unit) :=
  keeps_modify fun σ hσ => h.globals σ owner σ.videoCount hσ

theorem setCount (f : Int → Int) :
    Keeps Inv (modify fun σ => { σ with videoCount := f σ.videoCount } : M Unit) :=
  keeps_modify fun σ hσ => h.globals σ σ.audioOwner (f σ.videoCount) hσ

include hs

variable (rid : String) (r : Asset) (action : Action) (p : Fields)

theorem updateAsset (f : Asset → Asset) : Keeps Inv (updateAsset s rid f) := by
  intro σ hσ
  rw [wp_updateAsset]
  cases Dict.get? (σ.assets s) rid with
  | none => exact hσ
  | some r => exact h.assets σ s _ hs hσ

omit hs in
theorem closeMedia : Keeps Inv (closeMedia s rid r) := by
  refine keeps_get_bind fun σ _ => keeps_ite (fun _ => ?_) fun _ => keeps_onlyIf fun _ => ?_
  · exact (h.calls _).bind fun _ => h.setCount (· - 1)
  · exact (h.calls _).bind fun _ => keeps_pure _

theorem releaseResource : Keeps Inv (releaseResource s rid) := by
  refine (keeps_assetOf s rid).bind fun r => (h.closeMedia rid r).bind fun _ =>
    Keeps.bind (keeps_modify fun σ hσ => ?_) fun _ => keeps_modify fun σ hσ => h.assets σ s _ hs hσ
  split
  · exact h.globals σ none σ.videoCount hσ
  · exact hσ

theorem createResource : Keeps Inv (createResource s rid p) := by
  refine keeps_get_bind fun σ hσ => keeps_liftPy_bind fun _ _ => keeps_liftPy_bind fun kind _ => ?_
  refine keeps_liftPy_bind fun size _ => keeps_liftPy_bind fun _ _ => ?_
  exact keeps_liftPy_bind fun _ _ => Keeps.bind (keeps_set (h.assets σ s _ hs hσ)) fun _ =>
    keeps_pure _

theorem appendResource [Codecs] : Keeps Inv (appendResource s rid r p) := by
  refine keeps_liftPy_bind fun _ _ => keeps_liftPy_bind fun offset _ => ?_
  refine keeps_liftPy_bind fun _ _ => keeps_liftPy_bind fun encoded _ => ?_
  refine keeps_liftPy_bind fun chunk _ => keeps_liftPy_bind fun _ _ => ?_
  exact (h.updateAsset hs rid _).bind fun _ => keeps_pure _

theorem readWav [Codecs] (data : Bytes) : Keeps Inv (readWav s rid data) := by
  unfold Desktop.readWav
  cases Codecs.wave data with
  | none => exact keeps_throw _
  | some wav =>
    refine keeps_liftPy_bind fun _ _ => keeps_liftPy_bind fun _ _ => ?_
    refine (h.updateAsset hs rid _).bind fun _ => ?_
    cases wav.frames with
    | none => exact keeps_throw _
    | some pcm => exact keeps_liftPy_bind fun _ _ => keeps_pure _

theorem openMedia [Codecs] : Keeps Inv (openMedia s rid r) := by
  unfold Desktop.openMedia
  cases r.kind with
  | video =>
    refine keeps_get_bind fun σ _ => keeps_liftPy_bind fun _ _ => (h.calls _).bind fun _ => ?_
    exact (h.updateAsset hs rid _).bind fun _ => h.setCount (· + 1)
  | audio => exact (h.readWav hs rid _).bind fun _ => h.updateAsset hs rid _

theorem finishResource [Codecs] : Keeps Inv (finishResource s rid r) :=
  keeps_liftPy_bind fun _ _ => (h.openMedia hs rid r).bind fun _ =>
    (h.updateAsset hs rid _).bind fun _ => (keeps_assetOf s rid).bind fun _ => keeps_pure _

theorem moveVideo (action : Action) : Keeps Inv (moveVideo s rid r p action) := by
  cases action with
  | play =>
    refine Keeps.bind (keeps_onlyIf fun _ => ?_) fun _ => ?_
    · exact (h.calls _).bind fun _ => h.updateAsset hs rid _
    · exact (h.calls _).bind fun _ => h.updateAsset hs rid _
  | pause => exact (h.calls _).bind fun _ => h.updateAsset hs rid _
  | stop =>
    refine (h.calls _).bind fun _ => (h.updateAsset hs rid _).bind fun _ => ?_
    exact (h.calls _).bind fun _ => h.updateAsset hs rid _
  | seek =>
    exact keeps_liftPy_bind fun _ _ => (h.calls _).bind fun _ => h.updateAsset hs rid _

theorem controlVideo : Keeps Inv (controlVideo s rid r action p) :=
  keeps_get_bind fun _ _ => keeps_liftPy_bind fun _ _ => (h.moveVideo hs rid r p action).bind
    fun _ => Keeps.bind (keeps_onlyIf fun _ => h.setOwner _) fun _ => h.updateAsset hs rid _

theorem playAudio : Keeps Inv (playAudio s rid) :=
  (keeps_assetOf s rid).bind fun _ =>
    Keeps.bind (keeps_onlyIf fun _ => h.updateAsset hs rid _) fun _ =>
    (keeps_assetOf s rid).bind fun _ => (h.calls _).bind fun _ =>
    (h.quiet.toRecordStable.queueOrClose _).bind fun _ =>
    (h.setOwner _).bind fun _ => keeps_liftPy_bind fun _ _ => h.updateAsset hs rid _

theorem haltAudio : Keeps Inv (haltAudio s rid action p) := by
  refine (keeps_assetOf s rid).bind fun r => keeps_liftPy_bind fun target _ =>
    keeps_get_bind fun σ _ => Keeps.bind (keeps_onlyIf fun _ => ?_) fun _ =>
    (h.updateAsset hs rid _).bind fun _ => keeps_onlyIf fun _ => keeps_liftPy_bind fun n _ => ?_
  · exact (h.calls _).bind fun _ => h.setOwner _
  · exact (h.updateAsset hs rid _).bind fun _ => keeps_liftPy_bind fun _ _ => h.updateAsset hs rid _

theorem controlAudio : Keeps Inv (controlAudio s rid action p) :=
  (h.quiet.refreshAudio hs rid).bind fun _ => (keeps_assetOf s rid).bind fun _ =>
    keeps_ite (fun _ => keeps_onlyIf fun _ => h.playAudio hs rid) fun _ =>
      h.haltAudio hs rid action p

theorem controlMedia : Keeps Inv (controlMedia s rid r action p) := by
  unfold Desktop.controlMedia
  cases r.kind with
  | video => exact h.controlVideo hs rid r action p
  | audio => exact h.controlAudio hs rid action p

theorem control : Keeps Inv (control s rid r p) :=
  keeps_liftPy_bind fun action _ => keeps_get_bind fun _ _ => keeps_liftPy_bind fun _ _ =>
    (h.controlMedia hs rid r action p).bind fun _ =>
    (keeps_assetOf s rid).bind fun _ => keeps_pure _

omit h hs in
theorem getResource (ready : Bool) : Keeps Inv (getResource s rid ready) := by
  refine keeps_get_bind fun σ _ => ?_
  cases Dict.get? (σ.assets s) rid with
  | none => exact keeps_throw _
  | some r => exact keeps_liftPy_bind fun _ _ => keeps_pure _

/-- **A media request keeps what its writes keep.** -/
theorem mediaRequest [Codecs] (op : String) (p : Fields) : Keeps Inv (mediaRequest s op p) := by
  refine keeps_liftPy_bind fun rid _ => ?_
  refine keeps_ite (fun _ => h.createResource hs rid p) fun _ => ?_
  refine (getResource rid false).bind fun r => ?_
  refine keeps_ite (fun _ => h.appendResource hs rid r p) fun _ => ?_
  refine keeps_ite (fun _ => h.finishResource hs rid r) fun _ => ?_
  refine keeps_ite (fun _ => ?_) fun _ => keeps_liftPy_bind fun _ _ => ?_
  · exact keeps_get_bind fun σ _ => keeps_liftPy_bind fun _ _ =>
      (h.releaseResource hs rid).bind fun _ => keeps_pure _
  refine keeps_ite (fun _ => ?_) fun _ => keeps_liftPy_bind fun _ _ => h.control hs rid r p
  exact (h.quiet.refreshAudio hs rid).bind fun _ => (keeps_assetOf s rid).bind fun _ => keeps_pure _

end PlayerStable

/-! ### The tick -/

/-- Kept by everything that a tick does. -/
structure TickStable (Inv : Service → Prop) : Prop extends QuietStable (fun _ => True) Inv where
  surfaces : ∀ σ surfaces, Inv σ → Inv { σ with surfaces }
  desktop : ∀ σ : Service, Stable fun d => Inv { σ with desktop := d }
  frame : ∀ σ frame, Inv σ → Inv { σ with frame }
  close : ∀ σ closed, Inv σ → Inv { σ with closed }

namespace TickStable

variable {Inv : Service → Prop} (h : TickStable Inv)

include h

theorem calls (op : BackendOp) : Keeps Inv (Desktop.call op) := h.toRecordStable.calls op

variable (key : Target) (s : SessionId) (rid : String) (entry : Surface) (node : Node)

theorem updateAsset {f : Asset → Asset} (hf : ∀ r : Asset, r.Quiet (f r)) :
    Keeps Inv (updateAsset s rid f) :=
  h.toRecordStable.updateAsset trivial rid hf

theorem emitTo (body : EventBody) : Keeps Inv (onDesktop (emitTo s body)) :=
  h.toRecordStable.emitTo trivial body

theorem refreshAudio : Keeps Inv (refreshAudio s rid) :=
  h.toQuietStable.refreshAudio trivial rid

theorem reconcileOne (attached : List String) (rid : String) :
    Keeps Inv (reconcileOne s attached rid) := by
  refine (keeps_assetOf s rid).bind fun r => Keeps.bind (keeps_onlyIf fun _ => ?_) fun _ =>
    h.refreshAudio s rid
  exact (h.calls _).bind fun _ => h.updateAsset s rid fun _ => .set nofun

theorem reconcile : Keeps Inv reconcile :=
  keeps_get_bind fun _ _ => Keeps.forM (fun s => keeps_get_bind fun _ _ =>
    keeps_liftPy_bind fun attached _ => Keeps.forM (h.reconcileOne s attached) _) _

/-! The surfaces. -/

theorem setDirty : Keeps Inv (onDesktop setDirty) := keeps_onDesktop fun σ => (h.desktop σ).setDirty

theorem setSurface : Keeps Inv (setSurface key entry) :=
  keeps_modify fun σ hσ => h.surfaces σ _ hσ

theorem destroySurface : Keeps Inv (destroySurface key entry) :=
  (h.calls _).bind fun _ => keeps_modify fun σ hσ => h.surfaces σ _ hσ

theorem createSurface (rect : Geometry) : Keeps Inv (createSurface key node rect) :=
  (h.calls _).bind fun _ => (h.setSurface key _).bind fun _ => keeps_pure _

theorem ensureSurface (rect : Geometry) : Keeps Inv (ensureSurface key node rect) := by
  refine keeps_get_bind fun σ _ => ?_
  cases Dict.get? σ.surfaces key with
  | none => exact h.createSurface key node rect
  | some entry =>
    refine keeps_ite (fun _ => ?_) fun _ => keeps_pure _
    exact (h.destroySurface key entry).bind fun _ => h.createSurface key node rect

theorem prepareScene (entry : Surface) : Keeps Inv (prepareScene key node entry) :=
  keeps_liftPy_bind fun _ _ => keeps_onlyIf fun _ => (h.calls _).bind fun _ =>
    (h.setSurface key _).bind fun _ => h.setDirty

theorem tickOrPause (r : Asset) : Keeps Inv (tickOrPause key rid entry r) := by
  refine Keeps.tryCatch ((h.calls _).bind fun _ => keeps_pure _) fun e => ?_
  cases e with
  | runtimeError message => exact keeps_throw _
  | py e =>
    cases e with
    | valueError message =>
      refine (h.calls _).bind fun _ =>
        Keeps.bind (h.updateAsset _ rid fun _ => .set nofun) fun _ => ?_
      exact (h.setSurface key _).bind fun _ => (h.emitTo _ _).bind fun _ => keeps_pure _
    | _ => exact keeps_throw _

theorem showVideo (r : Asset) (result : Result) : Keeps Inv (showVideo key rid entry r result) := by
  refine Keeps.bind (keeps_onlyIf fun _ => h.emitTo _ _) fun _ =>
    Keeps.bind (h.updateAsset _ rid fun r => ?_) fun _ =>
    (h.setSurface key _).bind fun _ => h.setDirty
  refine .set fun hp => ?_
  split at hp
  · cases hp
  · exact hp

theorem tickVideo (r : Asset) : Keeps Inv (tickVideo key rid entry r) := by
  refine (h.tickOrPause key rid entry r).bind fun result => ?_
  cases result with
  | none => exact keeps_pure _
  | some result => exact h.showVideo key rid entry r result

theorem prepareVideo (entry : Surface) : Keeps Inv (prepareVideo key node entry) :=
  keeps_liftPy_bind fun rid _ => (keeps_assetOf _ rid).bind fun r =>
    Keeps.bind (keeps_onlyIf fun _ => (h.calls _).bind fun _ => keeps_pure _) fun _ =>
    keeps_onlyIf fun _ => h.tickVideo key rid entry r

theorem prepareNode (q : Target × Node × Geometry) : Keeps Inv (prepareNode q) :=
  (h.ensureSurface _ _ _).bind fun entry =>
    keeps_ite (fun _ => h.prepareScene _ _ entry) fun _ => h.prepareVideo _ _ entry

theorem dropSurface (live : List Target) (key : Target) : Keeps Inv (dropSurface live key) :=
  keeps_onlyIf fun _ => keeps_get_bind fun _ _ => keeps_liftPy_bind fun entry _ =>
    h.destroySurface key entry

theorem prepare : Keeps Inv prepare :=
  keeps_get_bind fun _ _ => Keeps.bind (Keeps.forM h.prepareNode _) fun _ =>
    keeps_get_bind fun _ _ => Keeps.forM (h.dropSurface _) _

/-! Input and drawing. -/

theorem inputs (events : List InputEvent) : Keeps Inv (events.forM fun e => onDesktop (input e)) :=
  Keeps.forM (fun e => keeps_onDesktop fun σ => (h.desktop σ).input e) events

theorem pollInput : Keeps Inv pollInput := (h.calls _).bind fun _ => h.inputs _

theorem renderBatch (ops : List DrawOp) : Keeps Inv (renderBatch ops) :=
  (h.calls _).bind fun _ => keeps_onlyIf fun _ => keeps_throw _

theorem draw [FloatText] : Keeps Inv draw :=
  keeps_get_bind fun _ _ => keeps_liftPy_bind fun _ _ => Keeps.bind (keeps_modify fun σ hσ =>
    (h.desktop σ).refs.same (d := σ.desktop) hσ rfl rfl rfl (.inl rfl)) fun _ =>
    Keeps.bind (Keeps.forM h.renderBatch _) fun _ => (h.calls _).bind fun _ =>
    Keeps.bind (keeps_modify fun σ hσ => h.frame σ _ hσ) fun _ => keeps_pure _

theorem redraw [FloatText] : Keeps Inv redraw :=
  keeps_get_bind fun _ _ => keeps_onlyIf fun _ => h.draw.bind fun _ => h.inputs _

/-- **A tick keeps what its writes keep.** -/
theorem tick [FloatText] : Keeps Inv tick :=
  h.pollInput.bind fun _ => h.reconcile.bind fun _ => h.prepare.bind fun _ =>
    h.redraw.bind fun _ => keeps_modify fun σ hσ => h.close σ _ hσ

theorem tickTwice [FloatText] : Keeps Inv tickTwice :=
  h.tick.bind fun _ => keeps_get_bind fun _ _ => keeps_onlyIf fun _ => h.tick

theorem debugRequest [FloatText] (op : String) (p : Fields) : Keeps Inv (debugRequest op p) := by
  refine keeps_get_bind fun σ _ => keeps_liftPy_bind fun _ _ => ?_
  refine keeps_ite (fun _ => ?_) fun _ => keeps_ite (fun _ => ?_) fun _ =>
    keeps_ite (fun _ => ?_) fun _ => keeps_throw _
  · exact keeps_liftPy_bind fun _ _ => (h.calls _).bind fun _ => keeps_pure _
  · exact keeps_liftPy_bind fun _ _ => h.tickTwice.bind fun _ => (h.calls _).bind fun _ =>
      keeps_pure _
  · exact keeps_get_bind fun _ _ => (h.calls _).bind fun _ => keeps_pure _

end TickStable

end PythonOS.Desktop
