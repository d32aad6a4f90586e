import Mathlib.Algebra.BigOperators.Group.Finset.Piecewise
import PythonOS.Desktop.Restore
import PythonOS.Desktop.Rules

/-!
# PythonOS.Desktop.Assets

The resources of all sessions and the variables of `Media`.

A resource that plays owns the audio output, the counter of videos counts the
ready ones, the limits of a session hold, and the data of a resource are the chunks
that were accepted: `MediaOk`. The functions update the records and the two global
variables in several steps with fallible calls between them. Each call stands
before the writes that belong together, so at every point where a function can
stop the invariant holds.
-/

set_option linter.dupNamespace false

namespace PythonOS.Desktop

open Lib List Option PyState

/-! ### The invariant -/

def Asset.isReadyVideo (r : Asset) : Bool := r.ready && r.kind == .video

variable {r : Asset} {σ : Service}

theorem Asset.isReadyVideo_audio (h : r.kind = .audio) : r.isReadyVideo = false := by
  unfold Asset.isReadyVideo
  rw [h]
  exact Bool.and_false _

/-- A record on its own. -/
structure Asset.Ok (r : Asset) : Prop where
  data : r.data = r.accepted.flatten
  fits : (r.data.length : Int) ≤ r.size
  whole : r.ready = true → (r.data.length : Int) = r.size
  idle : r.ready = false → r.playing = false
  size_pos : 0 < r.size
  size_le : r.size ≤ limitResourceBytes
  /-- The rate of a sound that can be played. -/
  rate : r.ready = true → r.kind = .audio → 0 < r.rate

namespace Service

/-- The number of ready videos of a session. -/
def readyVideos (σ : Service) (s : SessionId) : Nat :=
  (Dict.values (σ.assets s)).countP Asset.isReadyVideo

/-- The number of ready videos of all sessions that there have been: also of those that are gone,
where `cleanup` has not come to their resources. -/
def allReadyVideos (σ : Service) : Nat :=
  ∑ s ∈ Finset.range σ.desktop.nextSession, σ.readyVideos s

/-- The bytes that the resources of a session are declared to have. -/
def declaredBytes (σ : Service) (s : SessionId) : Int :=
  ((Dict.values (σ.assets s)).map Asset.size).sum

structure MediaOk (σ : Service) : Prop where
  wf : ∀ s, Dict.Wf (σ.assets s)
  fresh : ∀ s, σ.desktop.nextSession ≤ s → σ.assets s = []
  clients : ∀ s ∈ σ.clients, s < σ.desktop.nextSession
  assets : ∀ s rid r, Dict.get? (σ.assets s) rid = some r → r.Ok
  playing : ∀ s rid r, Dict.get? (σ.assets s) rid = some r → r.playing = true →
    σ.audioOwner = some (s, rid)
  owner : ∀ s rid, σ.audioOwner = some (s, rid) → rid ∈ Dict.keys (σ.assets s)
  count : σ.videoCount = σ.allReadyVideos
  few : ∀ s, (σ.assets s).length ≤ limitResources
  bytes : ∀ s, σ.declaredBytes s ≤ limitSessionBytes
  /-- What a commit looks at is the part of the records that it needs. -/
  linked : ∀ s, (σ.desktop.store s).resources = mapValues Asset.resource (σ.assets s)

/-! ### Writes -/

variable {σ σ' : Service} {s : SessionId} {rid : String} {r : Asset}

/-- What the invariant does not look at. -/
theorem MediaOk.congr (h : σ.MediaOk) (hassets : σ'.assets = σ.assets)
    (howner : σ'.audioOwner = σ.audioOwner) (hcount : σ'.videoCount = σ.videoCount)
    (hclients : ∀ s ∈ σ'.clients, s < σ.desktop.nextSession)
    (hnext : σ'.desktop.nextSession = σ.desktop.nextSession)
    (hres : ∀ s, (σ'.desktop.store s).resources = (σ.desktop.store s).resources) :
    σ'.MediaOk where
  wf s := hassets ▸ h.wf s
  fresh s hs := by
    rw [hassets]
    exact h.fresh s (hnext ▸ hs)
  clients s hs := hnext ▸ hclients s hs
  assets s rid r hget := h.assets s rid r (hassets ▸ hget)
  playing s rid r hget hp := howner ▸ h.playing s rid r (hassets ▸ hget) hp
  owner s rid ho := hassets ▸ h.owner s rid (howner ▸ ho)
  count := by
    have hall : σ'.allReadyVideos = σ.allReadyVideos := by
      unfold allReadyVideos readyVideos
      rw [hassets, hnext]
    rw [hcount, hall]
    exact h.count
  few s := hassets ▸ h.few s
  bytes s := by
    unfold declaredBytes
    rw [hassets]
    exact h.bytes s
  linked s := by
    rw [hres, hassets]
    exact h.linked s

/-- A session that keeps what it knows of the resources. -/
theorem MediaOk.setSession (h : σ.MediaOk) {st : Session}
    (hres : st.resources = (σ.desktop.store s).resources) :
    MediaOk { σ with desktop := σ.desktop.setSession s st } := by
  refine h.congr rfl rfl rfl h.clients rfl fun s' => ?_
  rw [Desktop.store_setSession]
  split
  · next heq => rw [heq, hres]
  · rfl

theorem MediaOk.known (h : σ.MediaOk) (hget : Dict.get? (σ.assets s) rid = some r) :
    s < σ.desktop.nextSession := by
  by_contra hs
  rw [h.fresh s (Nat.le_of_not_lt hs)] at hget
  cases hget

@[simp] theorem assets_setAssets (σ : Service) (s s' : SessionId) (as : Dict String Asset) :
    (σ.setAssets s as).assets s' = if s' = s then as else σ.assets s' := by
  unfold setAssets
  by_cases hs : s' = s
  · subst hs
    simp
  · simp [hs]

@[simp] theorem assets_called (σ : Service) (op : BackendOp) :
    (σ.called op).assets = σ.assets := rfl

/-- New records for a session change the number of ready videos by the difference. -/
theorem allReadyVideos_setAssets (hs : s < σ.desktop.nextSession) (as : Dict String Asset) :
    (σ.setAssets s as).allReadyVideos + σ.readyVideos s =
      σ.allReadyVideos + (Dict.values as).countP Asset.isReadyVideo := by
  have hmem : s ∈ Finset.range σ.desktop.nextSession := Finset.mem_range.mpr hs
  have hupdate : (σ.setAssets s as).readyVideos =
      Function.update σ.readyVideos s ((Dict.values as).countP Asset.isReadyVideo) := by
    funext s'
    unfold readyVideos
    rw [assets_setAssets, Function.update_apply]
    split <;> rfl
  have hnew : (σ.setAssets s as).allReadyVideos =
      ∑ s' ∈ Finset.range σ.desktop.nextSession, (σ.setAssets s as).readyVideos s' := rfl
  rw [hnew, hupdate, Finset.sum_update_of_mem hmem, Finset.sdiff_singleton_eq_erase,
    allReadyVideos, ← Finset.add_sum_erase _ _ hmem]
  omega

section

variable (h : σ.MediaOk)

include h

/-- New records for a session, with the global variables that go with them. -/
theorem MediaOk.setAssets (hs : s < σ.desktop.nextSession)
    {as : Dict String Asset} (owner : Option (SessionId × String)) (count : Int)
    (hwf : Dict.Wf as) (hassets : ∀ rid r, Dict.get? as rid = some r → r.Ok)
    (hplaying : ∀ rid r, Dict.get? as rid = some r → r.playing = true → owner = some (s, rid))
    (hothers : ∀ s' rid r, s' ≠ s → Dict.get? (σ.assets s') rid = some r → r.playing = true →
      owner = some (s', rid))
    (howner : ∀ rid, owner = some (s, rid) → rid ∈ Dict.keys as)
    (hforeign : ∀ s' rid, s' ≠ s → owner = some (s', rid) → σ.audioOwner = some (s', rid))
    (hcount : count + σ.readyVideos s = σ.videoCount + (Dict.values as).countP Asset.isReadyVideo)
    (hfew : as.length ≤ limitResources)
    (hbytes : ((Dict.values as).map Asset.size).sum ≤ limitSessionBytes) :
    MediaOk { σ.setAssets s as with audioOwner := owner, videoCount := count } := by
  have hat : ∀ s', (σ.setAssets s as).assets s' = if s' = s then as else σ.assets s' :=
    fun s' => assets_setAssets σ s s' as
  refine ⟨fun s' => ?_, fun s' hs' => ?_, h.clients, fun s' rid r hget => ?_,
    fun s' rid r hget hp => ?_, fun s' rid ho => ?_, ?_, fun s' => ?_, fun s' => ?_, fun s' => ?_⟩
  · rw [hat]
    split
    · exact hwf
    · exact h.wf s'
  · have hne : s' ≠ s := fun e => absurd hs (Nat.not_lt.mpr (e ▸ hs'))
    rw [hat, if_neg hne]
    exact h.fresh s' hs'
  · rw [hat] at hget
    split at hget
    · exact hassets rid r hget
    · exact h.assets s' rid r hget
  · rw [hat] at hget
    split at hget
    · next e => exact e ▸ hplaying rid r hget hp
    · next e => exact hothers s' rid r e hget hp
  · rw [hat]
    split
    · next e => exact howner rid (e ▸ ho)
    · next e => exact h.owner s' rid (hforeign s' rid e ho)
  · have hall := allReadyVideos_setAssets hs as
    have hold := h.count
    show count = ((σ.setAssets s as).allReadyVideos : Int)
    omega
  · rw [hat]
    split
    · exact hfew
    · exact h.few s'
  · show (((Dict.values ((σ.setAssets s as).assets s')).map Asset.size).sum : Int) ≤ _
    rw [hat]
    split
    · exact hbytes
    · exact h.bytes s'
  · rw [hat]
    unfold Service.setAssets
    rw [Desktop.store_setSession]
    split
    · rfl
    · exact h.linked s'

/-- One record, with the count of videos that goes with it. -/
theorem MediaOk.setAsset (hget : Dict.get? (σ.assets s) rid = some r) (r' : Asset)
    (count : Int) (hok : r'.Ok) (hsize : r'.size = r.size)
    (hplaying : r'.playing = true → σ.audioOwner = some (s, rid))
    (hcount : count + r.isReadyVideo.toNat = σ.videoCount + r'.isReadyVideo.toNat) :
    MediaOk { σ.setAsset s rid r' with videoCount := count } := by
  have hmem := Dict.mem_keys_of_get? hget
  have hold := Dict.values_perm_erase hget
  have hnew := Dict.values_set_perm (σ.assets s) rid r'
  refine h.setAssets (h.known hget) σ.audioOwner count ((h.wf s).set rid r')
    (fun rid1 r1 hget1 => ?_) (fun rid1 r1 hget1 hp => ?_)
    (fun s' rid1 r1 _ => h.playing s' rid1 r1)
    (fun rid1 ho => ?_) (fun _ _ _ ho => ho) ?_ ?_ ?_
  · rw [Dict.get?_set] at hget1
    split at hget1
    · cases hget1
      exact hok
    · exact h.assets s rid1 r1 hget1
  · rw [Dict.get?_set] at hget1
    split at hget1
    · next heq =>
      cases hget1
      rw [heq]
      exact hplaying hp
    · exact h.playing s rid1 r1 hget1 hp
  · rw [Dict.keys_set_of_mem r' hmem]
    exact h.owner s rid1 ho
  · unfold readyVideos
    rw [hold.countP_eq, hnew.countP_eq, countP_cons, countP_cons]
    cases hr : r.isReadyVideo <;> cases hr' : r'.isReadyVideo <;>
      simp only [hr, hr', Bool.toNat_true, Bool.toNat_false, if_true, Bool.false_eq_true,
        if_false] at hcount ⊢ <;> omega
  · have hlen : (Dict.set (σ.assets s) rid r').length = (σ.assets s).length := by
      have hkeys := congrArg List.length (Dict.keys_set_of_mem r' hmem)
      simpa [Dict.keys] using hkeys
    rw [hlen]
    exact h.few s
  · have hbytes := h.bytes s
    unfold declaredBytes at hbytes
    rw [(hold.map Asset.size).sum_eq, map_cons, sum_cons] at hbytes
    rw [(hnew.map Asset.size).sum_eq, map_cons, sum_cons, hsize]
    exact hbytes

/-- A record is deleted with its player. -/
theorem MediaOk.deleteAsset (hget : Dict.get? (σ.assets s) rid = some r) :
    MediaOk { σ.setAssets s (Dict.erase (σ.assets s) rid) with
      audioOwner := if σ.audioOwner = some (s, rid) then none else σ.audioOwner
      videoCount := σ.videoCount - r.isReadyVideo.toNat } := by
  have hold := Dict.values_perm_erase hget
  have hother {rid1 r1} := Dict.get?_erase_eq_some (k := rid) (h.wf s) (j := rid1) (v := r1)
  have hstill : ∀ s' rid1 r1, (s', rid1) ≠ (s, rid) → Dict.get? (σ.assets s') rid1 = some r1 →
      r1.playing = true →
      (if σ.audioOwner = some (s, rid) then none else σ.audioOwner) = some (s', rid1) := by
    intro s' rid1 r1 hne hget1 hp
    have howned := h.playing s' rid1 r1 hget1 hp
    rw [howned, if_neg fun e => hne (Option.some.inj e)]
  have hwas : ∀ w, (if σ.audioOwner = some (s, rid) then none else σ.audioOwner) = some w →
      σ.audioOwner = some w ∧ w ≠ (s, rid) := by
    intro w hw
    split at hw
    · cases hw
    · next hne =>
      refine ⟨hw, fun heq => hne ?_⟩
      rw [hw, heq]
  refine h.setAssets (h.known hget) _ _ ((h.wf s).erase rid)
    (fun rid1 r1 hget1 => h.assets s rid1 r1 (hother.mp hget1).2)
    (fun rid1 r1 hget1 hp => ?_) (fun s' rid1 r1 hne hget1 hp => ?_) (fun rid1 ho => ?_)
    (fun s' rid1 _ ho => (hwas _ ho).1) ?_ ?_ ?_
  · obtain ⟨hne, hget1⟩ := hother.mp hget1
    exact hstill s rid1 r1 (fun e => hne (Prod.mk.inj e).2) hget1 hp
  · exact hstill s' rid1 r1 (fun e => hne (Prod.mk.inj e).1) hget1 hp
  · obtain ⟨howned, hne⟩ := hwas _ ho
    have hrid : rid1 ≠ rid := fun e => hne (by rw [e])
    have hmem := h.owner s rid1 howned
    by_contra hnot
    have hnone := Dict.get?_eq_none_iff.mpr hnot
    rw [Dict.get?_erase_of_ne _ hrid] at hnone
    exact Dict.get?_eq_none_iff.mp hnone hmem
  · unfold readyVideos
    rw [hold.countP_eq, countP_cons]
    cases hr : r.isReadyVideo <;>
      simp only [Bool.toNat_true, Bool.toNat_false, if_true, Bool.false_eq_true, if_false] <;> omega
  · have hlen : (Dict.erase (σ.assets s) rid).length ≤ (σ.assets s).length := by
      have hsub := (Dict.keys_erase_sublist (σ.assets s) rid).length_le
      simpa [Dict.keys] using hsub
    exact hlen.trans (h.few s)
  · have hbytes := h.bytes s
    have hpos := (h.assets s rid r hget).size_pos
    unfold declaredBytes at hbytes
    rw [(hold.map Asset.size).sum_eq, map_cons, sum_cons] at hbytes
    omega

/-- A new record. -/
theorem MediaOk.createAsset (hs : s < σ.desktop.nextSession)
    (hnew : rid ∉ Dict.keys (σ.assets s)) (hfew : (σ.assets s).length < limitResources)
    (hok : r.Ok) (hready : r.ready = false)
    (hbytes : r.size + σ.declaredBytes s ≤ limitSessionBytes) :
    MediaOk (σ.setAsset s rid r) := by
  have hidle := hok.idle hready
  have hvalues := Dict.values_set_perm (σ.assets s) rid r
  rw [Dict.erase_of_not_mem hnew] at hvalues
  refine h.setAssets hs σ.audioOwner σ.videoCount ((h.wf s).set rid r)
    (fun rid1 r1 hget1 => ?_) (fun rid1 r1 hget1 hp => ?_)
    (fun s' rid1 r1 _ hget1 hp => h.playing s' rid1 r1 hget1 hp) (fun rid1 ho => ?_)
    (fun _ _ _ ho => ho) ?_ ?_ ?_
  · rw [Dict.get?_set] at hget1
    split at hget1
    · cases hget1
      exact hok
    · exact h.assets s rid1 r1 hget1
  · rw [Dict.get?_set] at hget1
    split at hget1
    · cases hget1
      rw [hidle] at hp
      cases hp
    · exact h.playing s rid1 r1 hget1 hp
  · rw [Dict.keys_set_of_not_mem r hnew]
    exact mem_append_left _ (h.owner s rid1 ho)
  · unfold readyVideos
    have hnot : r.isReadyVideo = false := by simp [Asset.isReadyVideo, hready]
    rw [hvalues.countP_eq, countP_cons, hnot]
    simp
  · have hkeys := congrArg List.length (Dict.keys_set_of_not_mem r hnew)
    simp only [Dict.keys, length_map, length_append, length_singleton] at hkeys
    omega
  · rw [(hvalues.map Asset.size).sum_eq, map_cons, sum_cons]
    exact hbytes

/-- Another owner of the output, who is the only one that plays. -/
theorem MediaOk.setOwner {owner : Option (SessionId × String)}
    (hplaying : ∀ s rid r, Dict.get? (σ.assets s) rid = some r → r.playing = true →
      owner = some (s, rid))
    (howner : ∀ s rid, owner = some (s, rid) → rid ∈ Dict.keys (σ.assets s)) :
    MediaOk { σ with audioOwner := owner } :=
  { h with playing := hplaying, owner := howner }

/-- Nobody plays who owns the output: it can be given up. -/
theorem MediaOk.silence (hsilent : σ.Silent) :
    MediaOk { σ with audioOwner := none } := by
  refine h.setOwner (fun s rid r hget hp => ?_) fun _ _ ho => by cases ho
  cases (hsilent s rid r (h.playing s rid r hget hp) hget).symm.trans hp

/-- Nobody else plays: the output can be taken. -/
theorem MediaOk.takeOutput (hfree : σ.audioOwner = none ∨ σ.audioOwner = some (s, rid))
    (hget : Dict.get? (σ.assets s) rid = some r) :
    MediaOk { σ with audioOwner := some (s, rid) } := by
  refine h.setOwner (fun s' rid' r' hget' hp => ?_) fun s' rid' ho => ?_
  · have howned := h.playing s' rid' r' hget' hp
    rcases hfree with hnone | hself
    · cases hnone.symm.trans howned
    · exact hself.symm.trans howned
  · cases ho
    exact Dict.mem_keys_of_get? hget

theorem MediaOk.called (op : BackendOp) : (σ.called op).MediaOk :=
  h.congr rfl rfl rfl h.clients rfl fun _ => rfl

end

end Service

open Service

/-- Another record of the same upload. -/
theorem Asset.Ok.copy {r' : Asset} (h : r.Ok) (hdata : r'.data = r.data)
    (haccepted : r'.accepted = r.accepted) (hsize : r'.size = r.size)
    (hwhole : r'.ready = true → (r.data.length : Int) = r.size)
    (hidle : r'.ready = false → r'.playing = false)
    (hrate : r'.ready = true → r'.kind = .audio → 0 < r'.rate) : r'.Ok where
  data := by rw [hdata, haccepted, h.data]
  fits := by rw [hdata, hsize]; exact h.fits
  whole hr := by rw [hdata, hsize]; exact hwhole hr
  idle := hidle
  size_pos := hsize ▸ h.size_pos
  size_le := hsize ▸ h.size_le
  rate := hrate

theorem Asset.Ok.quiet {r' : Asset} (h : r.Ok) (hq : r.Quiet r') : r'.Ok := by
  refine h.copy hq.data hq.accepted hq.size (fun hr => h.whole (hq.ready ▸ hr)) (fun hr => ?_)
    fun hr hk => hq.rate ▸ h.rate (hq.ready ▸ hr) (hq.kind ▸ hk)
  by_contra hp
  have hidle := h.idle (hq.ready ▸ hr)
  rw [hq.playing (by simpa using hp)] at hidle
  cases hidle

theorem Session.resources_emit (s : Session) (body : EventBody) :
    (s.emit body).resources = s.resources := by
  unfold Session.emit
  split <;> rfl

/-! ### Functions -/

/-- The invariant, and a condition on the owner of the output that holds when there is none. -/
def Service.Players (F : Option (SessionId × String) → Prop) (σ : Service) : Prop :=
  σ.MediaOk ∧ F σ.audioOwner

/-- The desktop matters only for the part of the records it has. -/
theorem players_desktop (F : Option (SessionId × String) → Prop) (σ : Service) :
    Stable fun d => Players F { σ with desktop := d } := by
  have hrefs : RefStable fun d => Players F { σ with desktop := d } := by
    intro _ _ h hstore _ hnext _
    refine ⟨h.1.congr rfl rfl rfl h.1.clients hnext fun s => ?_, h.2⟩
    rw [hstore]
  refine ⟨hrefs, fun _ body h => ⟨h.1.setSession (Session.resources_emit _ body), h.2⟩,
    fun _ _ _ h => ⟨h.1.setSession rfl, h.2⟩, fun _ _ => ?_⟩
  refine Keeps.bind (keeps_modify fun _ h => ⟨h.1.setSession rfl, h.2⟩) fun _ => ?_
  exact Keeps.bind (keeps_modify fun _ h => ⟨h.1.setSession (Session.resources_emit _ _), h.2⟩)
    fun _ => hrefs.sync

/-- Everything that a tick does keeps the invariant. -/
theorem players_tick {F : Option (SessionId × String) → Prop} (hF : F none) :
    TickStable (Players F) where
  call _ op h := ⟨h.1.called op, h.2⟩
  update σ s rid r r' _ hget hq h := by
    refine ⟨?_, h.2⟩
    have hvideo : r'.isReadyVideo = r.isReadyVideo := by
      unfold Asset.isReadyVideo
      rw [hq.ready, hq.kind]
    refine h.1.setAsset hget r' σ.videoCount ((h.1.assets s rid r hget).quiet hq) hq.size
      (fun hp => ?_) (by rw [hvideo])
    exact h.1.playing s rid r hget (hq.playing hp)
  emit σ s body _ h := (players_desktop F σ).emit (d := σ.desktop) s body h
  silence _ hsilent h := ⟨h.1.silence hsilent, hF⟩
  surfaces _ _ h := ⟨h.1.congr rfl rfl rfl h.1.clients rfl fun _ => rfl, h.2⟩
  desktop σ := players_desktop F σ
  frame _ _ h := ⟨h.1.congr rfl rfl rfl h.1.clients rfl fun _ => rfl, h.2⟩
  close _ _ h := ⟨h.1.congr rfl rfl rfl h.1.clients rfl fun _ => rfl, h.2⟩

/-- The invariant itself. -/
theorem mediaOk_tick : TickStable MediaOk := by
  have h := players_tick (F := fun _ => True) trivial
  have heq : Players (fun _ => True) = MediaOk :=
    funext fun _ => propext (and_iff_left trivial)
  rw [heq] at h
  exact h

variable {s : SessionId} {rid : String}

/-! Creating, uploading and releasing. -/

theorem createResource_keeps (h : σ.MediaOk) (hs : s < σ.desktop.nextSession) (p : Fields) :
    KeepsFrom MediaOk σ (createResource s rid p) := by
  unfold createResource
  refine KeepsFrom.get ?_
  refine wp_liftPy_bind (fun _ => h) fun _ hnew => wp_liftPy_bind (fun _ => h) fun kind _ => ?_
  refine wp_liftPy_bind (fun _ => h) fun size _ => wp_liftPy_bind (fun _ => h) fun _ hsize => ?_
  refine wp_liftPy_bind (fun _ => h) fun _ hbytes => ?_
  have hnew := require_eq_ok hnew
  have hsize := require_eq_ok hsize
  have hbytes := require_eq_ok hbytes
  simp only [Bool.and_eq_true, decide_eq_true_eq, Bool.not_eq_true', Dict.contains,
    isSome_eq_false_iff, isNone_iff_eq_none, Dict.get?_eq_none_iff] at hnew hsize hbytes
  refine h.createAsset hs hnew.1 hnew.2 ?_ rfl hbytes
  exact ⟨rfl, hsize.1.le, fun hr => (by cases hr), fun _ => rfl, hsize.1, hsize.2,
    fun hr => (by cases hr)⟩

theorem appendResource_keeps [Codecs] (h : σ.MediaOk) (hget : Dict.get? (σ.assets s) rid = some r)
    (p : Fields) : KeepsFrom MediaOk σ (appendResource s rid r p) := by
  refine wp_liftPy_bind (fun _ => h) fun _ hopen => wp_liftPy_bind (fun _ => h) fun offset _ => ?_
  refine wp_liftPy_bind (fun _ => h) fun _ _ => wp_liftPy_bind (fun _ => h) fun encoded _ => ?_
  refine wp_liftPy_bind (fun _ => h) fun chunk _ => wp_liftPy_bind (fun _ => h) fun _ hfits => ?_
  have hopen := require_eq_ok hopen
  have hfits := require_eq_ok hfits
  simp only [Bool.and_eq_true, decide_eq_true_eq, Bool.not_eq_true'] at hopen hfits
  have hr := h.assets s rid r hget
  rw [wp_bind, wp_updateAsset, hget]
  refine h.setAsset hget _ σ.videoCount ?_ rfl (h.playing s rid r hget) rfl
  refine ⟨?_, ?_, ?_, fun _ => hr.idle hopen, hr.size_pos, hr.size_le, ?_⟩
  · rw [flatten_append, ← hr.data]
    simp
  · rw [length_append]
    exact hfits.2
  · intro hready
    cases hopen.symm.trans hready
  · intro hready
    cases hopen.symm.trans hready

/-- The end of a release, once the player is closed and no longer counted. -/
theorem deleteResource_keeps
    (h : MediaOk { σ with videoCount := σ.videoCount + r.isReadyVideo.toNat })
    (hget : Dict.get? (σ.assets s) rid = some r) :
    wp (do
      modify fun σ => if σ.audioOwner = some (s, rid) then { σ with audioOwner := none } else σ
      modify fun σ => σ.setAssets s (Dict.erase (σ.assets s) rid) : M Unit)
      (fun _ => MediaOk) (fun _ => MediaOk) σ := by
  have hdelete := h.deleteAsset hget
  have hcount : σ.videoCount + (r.isReadyVideo.toNat : Int) - r.isReadyVideo.toNat = σ.videoCount :=
    Int.add_sub_cancel ..
  rw [hcount] at hdelete
  simp only [wp_bind, wp_modify]
  by_cases howner : σ.audioOwner = some (s, rid)
  · rw [if_pos howner] at hdelete ⊢
    exact hdelete
  · rw [if_neg howner] at hdelete ⊢
    exact hdelete

theorem releaseResource_keeps (s : SessionId) (rid : String) :
    Keeps MediaOk (releaseResource s rid) := by
  intro σ h
  unfold releaseResource
  rw [wp_bind, wp_assetOf]
  cases hget : Dict.get? (σ.assets s) rid with
  | none => exact h
  | some r =>
    have hkeep : ∀ τ : Service, τ.MediaOk → r.isReadyVideo = false →
        MediaOk { τ with videoCount := τ.videoCount + r.isReadyVideo.toNat } := by
      intro τ hτ hready
      rw [hready]
      simpa using hτ
    dsimp only
    unfold closeMedia
    rw [wp_bind, wp_bind, wp_get, wp_ite]
    refine ⟨fun hvideo => ?_, fun hvideo => wp_onlyIf.mpr ⟨fun howner => ?_, fun howner => ?_⟩⟩
    · have hready : r.isReadyVideo = true := by simp [Asset.isReadyVideo, hvideo.1, hvideo.2]
      rw [wp_bind, wp_call]
      split
      · refine deleteResource_keeps (r := r) ?_ hget
        refine (h.called (.videoClose r.handle)).congr rfl rfl ?_ h.clients rfl fun _ => rfl
        rw [hready]
        exact Int.sub_add_cancel ..
      · exact h.called _
    · have hready : r.isReadyVideo = false := by simpa [Asset.isReadyVideo] using hvideo
      rw [wp_bind, wp_call]
      split
      · exact deleteResource_keeps (r := r) (hkeep _ (h.called _) hready) hget
      · exact h.called _
    · have hready : r.isReadyVideo = false := by simpa [Asset.isReadyVideo] using hvideo
      exact deleteResource_keeps (r := r) (hkeep _ h hready) hget

/-- A resource whose upload is complete, with what its player needs, becomes ready. -/
theorem Asset.Ok.seal (h : r.Ok) (r' : Asset) (hwhole : (r.data.length : Int) = r.size)
    (hdata : r'.data = r.data) (haccepted : r'.accepted = r.accepted) (hsize : r'.size = r.size)
    (hrate : r'.kind = .audio → 0 < r'.rate) :
    Asset.Ok { r' with ready := true, playing := false, seconds := .int 0, eof := false } :=
  h.copy hdata haccepted hsize (fun _ => hwhole) (fun _ => rfl) fun _ => hrate

section

variable (h : σ.MediaOk) (hget : Dict.get? (σ.assets s) rid = some r)

include h hget

/-- A change of a record that is not ready yet. -/
theorem Service.MediaOk.upload (r' : Asset) (hnot : r.ready = false) (hdata : r'.data = r.data)
    (haccepted : r'.accepted = r.accepted) (hsize : r'.size = r.size) (hready : r'.ready = r.ready)
    (hplaying : r'.playing = r.playing) : (σ.setAsset s rid r').MediaOk := by
  have hr := h.assets s rid r hget
  have hidle := hplaying.trans (hr.idle hnot)
  have hvideo : ∀ a : Asset, a.ready = false → a.isReadyVideo = false := by
    intro a ha
    simp [Asset.isReadyVideo, ha]
  refine h.setAsset hget r' σ.videoCount ?_ hsize (fun hp => ?_) ?_
  · refine hr.copy hdata haccepted hsize (fun hp => ?_) (fun _ => hidle) fun hp => ?_
    · cases (hready.trans hnot).symm.trans hp
    · cases (hready.trans hnot).symm.trans hp
  · cases hidle.symm.trans hp
  · rw [hvideo r hnot, hvideo r' (hready.trans hnot)]

/-- A WAV file that can be played has a rate. -/
theorem readWav_wp [Codecs] (hnot : r.ready = false) (data : Bytes) :
    wp (readWav s rid data)
      (fun _ σ' => ∃ rate : Int, 0 < rate ∧ σ' = σ.setAsset s rid { r with rate })
      (fun _ => MediaOk) σ := by
  unfold readWav
  cases Codecs.wave data with
  | none => exact h
  | some wav =>
    refine wp_liftPy_bind (fun _ => h) fun _ hformat => wp_liftPy_bind (fun _ => h) fun _ _ => ?_
    have hformat := require_eq_ok hformat
    simp only [Bool.and_eq_true, decide_eq_true_eq] at hformat
    have hupdate : (σ.setAsset s rid { r with rate := wav.frameRate }).MediaOk :=
      h.upload hget _ hnot rfl rfl rfl rfl rfl
    rw [wp_bind, wp_updateAsset, hget]
    cases wav.frames with
    | none => exact hupdate
    | some pcm =>
      refine wp_liftPy_bind (fun _ => hupdate) fun _ _ => ?_
      exact ⟨wav.frameRate, by omega, rfl⟩

theorem finishResource_keeps [Codecs] : KeepsFrom MediaOk σ (finishResource s rid r) := by
  refine wp_liftPy_bind (fun _ => h) fun _ hwhole => ?_
  have hwhole := require_eq_ok hwhole
  simp only [Bool.and_eq_true, Bool.not_eq_true', beq_iff_eq] at hwhole
  have hr := h.assets s rid r hget
  rw [wp_bind]
  unfold openMedia
  cases hkind : r.kind with
  | video =>
    refine wp_liftPy_bind (fun _ => h) fun _ _ => ?_
    rw [wp_bind, wp_call]
    split
    · next result _ =>
      have hopened := (h.called (.videoOpen r.data)).upload hget
        { r with handle := result.handle, width := result.width, height := result.height }
        hwhole.1 rfl rfl rfl rfl rfl
      have hsealed := hopened.setAsset (get?_setAsset _ s rid _) _ (σ.videoCount + 1)
        (hr.seal { r with handle := result.handle, width := result.width, height := result.height }
          hwhole.2 rfl rfl rfl fun hk => (by cases hkind.symm.trans hk))
        rfl (fun hp => by cases hp)
        (by simp [Asset.isReadyVideo, hwhole.1, hkind]; rfl)
      simp only [wp_bind, wp_updateAsset, wp_assetOf, wp_modify, wp_pure, hget,
        assets_called, get?_setAsset]
      exact hsealed
    · exact h.called _
  | audio =>
    rw [wp_bind]
    refine wp_imp (readWav_wp h hget hwhole.1 r.data) ?_
    rintro pcm _ ⟨rate, hrate, rfl⟩
    have hcount : ∀ a a' : Asset, a.kind = .audio → a'.kind = .audio →
        σ.videoCount + a.isReadyVideo.toNat = σ.videoCount + a'.isReadyVideo.toNat := by
      intro a a' ha ha'
      rw [Asset.isReadyVideo_audio ha, Asset.isReadyVideo_audio ha']
    have hrated : (σ.setAsset s rid { r with rate }).MediaOk :=
      h.upload hget _ hwhole.1 rfl rfl rfl rfl rfl
    have hread := hrated.upload (get?_setAsset _ s rid _)
      { r with rate, pcm, offset := 0 } hwhole.1 rfl rfl rfl rfl rfl
    have hsealed := hread.setAsset (get?_setAsset _ s rid _) _ σ.videoCount
      (hr.seal { r with rate, pcm, offset := 0 } hwhole.2 rfl rfl rfl fun _ => hrate)
      rfl (fun hp => by cases hp) (hcount _ _ hkind hkind)
    simp only [wp_bind, wp_updateAsset, wp_assetOf, wp_pure, get?_setAsset]
    exact hsealed

end

/-! Playing. -/

/-- The output is free for the player, whose resource is ready. -/
def Service.MayPlay (s : SessionId) (rid : String) (σ : Service) : Prop :=
  σ.Players (fun owner => owner = none ∨ owner = some (s, rid)) ∧ σ.HasReady s rid

theorem mayPlay_quiet (s : SessionId) (rid : String) :
    QuietStable (fun _ => True) (MayPlay s rid) :=
  (players_tick (.inl rfl)).toQuietStable.and (hasReady_quiet s rid)

/-- A ready resource starts to play once it owns the output. -/
theorem Service.MayPlay.play (h : σ.MayPlay s rid) (hget : Dict.get? (σ.assets s) rid = some r)
    (r' : Asset) (hkind : r'.kind = r.kind) (hsize : r'.size = r.size) (hdata : r'.data = r.data)
    (haccepted : r'.accepted = r.accepted) (hready : r'.ready = r.ready)
    (hrate : r'.rate = r.rate) :
    MediaOk { σ.setAsset s rid r' with audioOwner := some (s, rid) } := by
  obtain ⟨⟨hok, hfree⟩, r0, hget0, hready0⟩ := h
  cases hget.symm.trans hget0
  have hr := hok.assets s rid r hget
  refine (hok.takeOutput hfree hget).setAsset hget r' σ.videoCount ?_ hsize (fun _ => rfl) ?_
  · refine hr.copy hdata haccepted hsize (fun _ => hr.whole hready0) (fun hnot => ?_)
      fun _ hk => hrate ▸ hr.rate hready0 (hkind ▸ hk)
    cases (hready.trans hready0).symm.trans hnot
  · have hvideo : r'.isReadyVideo = r.isReadyVideo := by
      unfold Asset.isReadyVideo
      rw [hready, hkind]
    rw [hvideo]

theorem controlVideo_keeps (h : σ.MediaOk) (action : Action)
    (hplay : action = .play → σ.MayPlay s rid) (r : Asset) (p : Fields) :
    KeepsFrom MediaOk σ (controlVideo s rid r action p) := by
  refine wp_liftPy_bind (fun _ => h) fun _ _ => ?_
  by_cases ha : action = .play
  · have hmay := mayPlay_quiet s rid
    have hback : Keeps (MayPlay s rid) (onlyIf (r.eof = true) do
        let _ ← call (.videoSeek r.handle (.int 0))
        updateAsset s rid fun r => { r with seconds := .int 0, eof := false }) :=
      keeps_onlyIf fun _ => (hmay.toRecordStable.calls _).bind fun _ =>
        hmay.toRecordStable.updateAsset trivial rid fun _ => .set id
    have hstart := hplay ha
    subst ha
    rw [wp_bind]
    refine hback.wp_bind hstart (fun _ _ h => h.1.1) fun _ σ hσ => ?_
    refine (hmay.toRecordStable.calls _).wp_bind hσ (fun _ _ h => h.1.1) fun _ σ hσ => ?_
    rw [wp_updateAsset]
    cases hget : Dict.get? (σ.assets s) rid with
    | none => exact hσ.1.1
    | some r1 =>
      dsimp only
      rw [wp_bind, wp_onlyIf]
      refine ⟨fun _ => ?_, fun hnot => absurd rfl hnot⟩
      have hplays := hσ.play hget { r1 with playing := true } rfl rfl rfl rfl rfl rfl
      exact mediaOk_tick.updateAsset s rid (fun _ => .set id) _ hplays
  · refine (mediaOk_tick.toRecordStable.moveVideo trivial rid r p ha).wp_bind h
      (fun _ _ h => h) fun _ σ hσ => ?_
    rw [wp_bind, wp_onlyIf]
    refine ⟨fun heq => absurd heq ha, fun _ => ?_⟩
    exact mediaOk_tick.updateAsset s rid (fun _ => .set id) _ hσ

theorem playAudio_keeps (h : σ.MayPlay s rid) : KeepsFrom MediaOk σ (playAudio s rid) := by
  have hmay := mayPlay_quiet s rid
  have hE : ∀ (e : Exc) (σ : Service), σ.MayPlay s rid → σ.MediaOk := fun _ _ h => h.1.1
  refine (keeps_assetOf s rid).wp_bind h hE fun r σ hσ => ?_
  refine Keeps.wp_bind (keeps_onlyIf fun _ => hmay.toRecordStable.updateAsset trivial rid
    fun _ => .set id) hσ hE fun _ σ hσ => ?_
  refine (keeps_assetOf s rid).wp_bind hσ hE fun r σ hσ => ?_
  refine (hmay.toRecordStable.calls _).wp_bind hσ hE fun _ σ hσ => ?_
  refine (hmay.toRecordStable.queueOrClose _).wp_bind hσ hE fun _ σ hσ => ?_
  obtain ⟨r1, hget, hready⟩ := hσ.2
  have howned : MediaOk { σ with audioOwner := some (s, rid) } :=
    hσ.1.1.takeOutput hσ.1.2 hget
  refine wp_liftPy_bind (fun _ => howned) fun seconds _ => ?_
  rw [wp_updateAsset, hget]
  exact hσ.play hget { r1 with playing := true, eof := false, seconds } rfl rfl rfl rfl rfl rfl

theorem haltAudio_keeps (s : SessionId) (rid : String) (action : Action) (p : Fields) :
    Keeps MediaOk (haltAudio s rid action p) := by
  have htick := mediaOk_tick.toRecordStable
  have hrest : ∀ (r : Asset) (target : PyNum), Keeps MediaOk
      (onlyIf (action = .stop ∨ action = .seek) do
        let n ← liftPy (target.mulInt r.rate).trunc
        let offset := n * 4
        updateAsset s rid fun r => { r with offset }
        let seconds ← liftPy (position offset r.rate)
        updateAsset s rid fun r => { r with seconds, eof := false }) :=
    fun r target => keeps_onlyIf fun _ => keeps_liftPy_bind fun n _ =>
      Keeps.bind (htick.updateAsset trivial rid fun _ => .set id) fun _ =>
        keeps_liftPy_bind fun _ _ => htick.updateAsset trivial rid fun _ => .set id
  refine (keeps_assetOf s rid).bind fun r => keeps_liftPy_bind fun target _ => ?_
  intro σ h
  rw [wp_bind, wp_get, wp_bind, wp_onlyIf]
  refine ⟨fun howner => ?_, fun _ => ?_⟩
  · -- the output is given up before the record says that nothing plays
    rw [wp_bind, wp_call]
    split
    · rw [wp_modify, wp_bind]
      cases hget : Dict.get? (σ.assets s) rid with
      | none =>
        have hmem := h.owner s rid howner
        exact absurd hmem (Dict.get?_eq_none_iff.mp hget)
      | some r1 =>
        have hpaused := htick.update (σ.called .audioClose) s rid r1
          { r1 with playing := false } trivial hget (.set nofun)
          (h.called .audioClose)
        have hget' : Dict.get? ({ σ.called .audioClose with audioOwner := none }.assets s) rid =
          some r1 := hget
        rw [wp_updateAsset, hget']
        refine hrest r target _ (hpaused.silence fun s' rid' r' ho hget' => ?_)
        obtain ⟨rfl, rfl⟩ := Prod.mk.inj (Option.some.inj (howner.symm.trans ho))
        have hrec := (get?_setAsset _ s rid { r1 with playing := false }).symm.trans hget'
        cases hrec
        rfl
    · exact h.called _
  · refine KeepsFrom.bind (htick.updateAsset trivial rid (fun _ => ?_) σ h) fun _ => hrest r target
    exact .set nofun

theorem controlAudio_keeps (h : σ.MediaOk) (action : Action)
    (hplay : action = .play → σ.MayPlay s rid) (p : Fields) :
    KeepsFrom MediaOk σ (controlAudio s rid action p) := by
  by_cases ha : action = .play
  · refine ((mayPlay_quiet s rid).refreshAudio trivial rid).wp_bind (hplay ha)
      (fun _ _ h => h.1.1) fun _ σ hσ => ?_
    refine (keeps_assetOf s rid).wp_bind hσ (fun _ _ h => h.1.1) fun r σ hσ => ?_
    rw [if_pos ha, wp_onlyIf]
    exact ⟨fun _ => playAudio_keeps hσ, fun _ => hσ.1.1⟩
  · refine (mediaOk_tick.refreshAudio s rid).wp_bind h (fun _ _ h => h) fun _ σ hσ => ?_
    refine (keeps_assetOf s rid).wp_bind hσ (fun _ _ h => h) fun r σ hσ => ?_
    rw [if_neg ha]
    exact haltAudio_keeps s rid action p σ hσ

theorem control_keeps (h : σ.MediaOk) (hready : σ.HasReady s rid) (r : Asset) (p : Fields) :
    KeepsFrom MediaOk σ (control s rid r p) := by
  refine wp_liftPy_bind (fun _ => h) fun action _ => ?_
  refine wp_liftPy_bind (fun _ => h) fun _ hfree => ?_
  have hplay : action = .play → σ.MayPlay s rid := by
    intro ha
    have hfree := require_eq_ok hfree
    simp only [ha, bne_self_eq_false, Bool.false_or, Bool.or_eq_true, beq_iff_eq] at hfree
    exact ⟨⟨h, hfree⟩, hready⟩
  rw [wp_bind]
  refine wp_mono ?_ (fun _ σ hσ => ((keeps_assetOf s rid).bind fun _ => keeps_pure _) σ hσ)
    fun _ _ hσ => hσ
  unfold controlMedia
  cases r.kind with
  | video => exact controlVideo_keeps h action hplay r p
  | audio => exact controlAudio_keeps h action hplay p

/-- **Media requests.** -/
theorem mediaRequest_keeps [Codecs] (h : σ.MediaOk) (hs : s < σ.desktop.nextSession) (op : String)
    (p : Fields) : KeepsFrom MediaOk σ (mediaRequest s op p) := by
  refine wp_liftPy_bind (fun _ => h) fun rid _ => ?_
  rw [wp_ite]
  refine ⟨fun _ => createResource_keeps h hs p, fun _ => ?_⟩
  rw [wp_bind]
  unfold getResource
  rw [wp_bind, wp_get]
  cases hget : Dict.get? (σ.assets s) rid with
  | none => exact h
  | some r =>
    refine wp_liftPy_bind (fun _ => h) fun _ _ => ?_
    rw [wp_pure, wp_ite]
    refine ⟨fun _ => appendResource_keeps h hget p, fun _ => wp_ite.mpr
      ⟨fun _ => finishResource_keeps h hget, fun _ => wp_ite.mpr ⟨fun _ => ?_, fun _ => ?_⟩⟩⟩
    · refine wp_liftPy_bind (fun _ => h) fun _ _ => ?_
      exact (releaseResource_keeps s rid).bind (fun _ => keeps_pure _) σ h
    · refine wp_liftPy_bind (fun _ => h) fun _ hready => wp_ite.mpr ⟨fun _ => ?_, fun _ => ?_⟩
      · exact ((mediaOk_tick.refreshAudio s rid).bind fun _ => (keeps_assetOf s rid).bind fun _ =>
          keeps_pure _) σ h
      · exact wp_liftPy_bind (fun _ => h) fun _ _ =>
          control_keeps h ⟨r, hget, require_eq_ok hready⟩ r p

/-! ### Runs -/

theorem dispatch_mediaOk [Codecs] [FloatText] (h : σ.MediaOk) (hs : s < σ.desktop.nextSession)
    (op : String) (p : Fields) : KeepsFrom MediaOk σ (dispatch s op p) := by
  have hrevision : Keeps MediaOk (revisionReply s) :=
    keeps_get_bind fun _ _ => keeps_pure _
  unfold dispatch
  cases ServiceOp.ofString op with
  | commit =>
    exact (keeps_get_bind fun _ _ => keeps_liftPy_bind fun _ _ =>
      Keeps.bind (keeps_onDesktop fun σ => (mediaOk_tick.desktop σ).dispatchCommit fun _ _ h _ =>
        h.setSession rfl) fun _ => hrevision) σ h
  | poll => exact h.setSession rfl
  | inspect => exact (keeps_get_bind fun _ _ => keeps_liftPy _) σ h
  | sync => exact (mediaOk_tick.tickTwice.bind fun _ => hrevision) σ h
  | resource =>
    refine wp_liftPy_bind (fun _ => h) fun _ _ => ?_
    rw [wp_bind]
    exact wp_imp (mediaRequest_keeps h hs op p)
      (fun _ σ hσ => (mediaOk_tick.setDirty.bind fun _ => keeps_pure _) σ hσ)
  | debug => exact mediaOk_tick.debugRequest op p σ h
  | unknown => exact h

theorem cleanup_mediaOk (s : SessionId) : Keeps MediaOk (cleanup s) := by
  refine Keeps.bind (keeps_modify fun σ h => ?_) fun _ => ?_
  · exact h.congr rfl rfl rfl h.clients rfl fun _ => rfl
  refine (keeps_onDesktop fun σ => (mediaOk_tick.desktop σ).refs.sync).bind fun _ => ?_
  refine keeps_get_bind fun σ _ => Keeps.bind (Keeps.forM (releaseResource_keeps s) _) fun _ => ?_
  exact keeps_get_bind fun _ _ => Keeps.forM (fun key => keeps_onlyIf fun _ =>
    keeps_get_bind fun _ _ => keeps_liftPy_bind fun entry _ =>
      mediaOk_tick.destroySurface key entry) _

/-- A new session has no resources. -/
theorem connect_mediaOk (h : σ.MediaOk) :
    MediaOk { σ.after (onDesktop (handle .connect)) with
      clients := σ.clients ++ [σ.desktop.nextSession] } := by
  have hnew := h.fresh σ.desktop.nextSession (Nat.le_refl _)
  have hstate : ∀ s, (σ.desktop.setSession σ.desktop.nextSession {}).store s =
      if s = σ.desktop.nextSession then {} else σ.desktop.store s :=
    fun s => Desktop.store_setSession _ _ _ _
  refine ⟨h.wf, fun s hs => h.fresh s (Nat.le_of_succ_le hs), fun s hs => ?_, h.assets, h.playing,
    h.owner, ?_, h.few, h.bytes, fun s => ?_⟩
  · rcases mem_append.mp hs with hold | hlast
    · exact Nat.lt_succ_of_lt (h.clients s hold)
    · rw [mem_singleton.mp hlast]
      exact Nat.lt_succ_self _
  · have hzero : σ.readyVideos σ.desktop.nextSession = 0 := by
      unfold Service.readyVideos
      rw [hnew]
      rfl
    have hsum : ∑ s ∈ Finset.range (σ.desktop.nextSession + 1), σ.readyVideos s =
        σ.allReadyVideos := by
      rw [Finset.sum_range_succ, hzero]
      rfl
    show σ.videoCount = ((∑ s ∈ Finset.range (σ.desktop.nextSession + 1),
        σ.readyVideos s : Nat) : Int)
    rw [hsum]
    exact h.count
  · show ((σ.desktop.setSession σ.desktop.nextSession {}).store s).resources = _
    rw [hstate]
    split
    · next heq =>
      subst heq
      show [] = mapValues Asset.resource (σ.assets σ.desktop.nextSession)
      rw [hnew]
      rfl
    · exact h.linked s

/-- **One event** keeps the invariant, wherever the backend rejects a call. -/
theorem next_mediaOk [Codecs] [FloatText] {σ' : Service} (h : σ.MediaOk) (e : ServiceEvent)
    (hnext : σ.next e = some σ') : σ'.MediaOk := by
  cases e with
  | connect =>
    obtain ⟨-, rfl⟩ := ite_some_none_eq_some.mp hnext
    exact connect_mediaOk h
  | request s op p =>
    obtain ⟨hs, rfl⟩ := ite_some_none_eq_some.mp hnext
    exact wp_state (dispatch_mediaOk h (h.clients s hs) op p)
  | drop s =>
    obtain ⟨-, rfl⟩ := ite_some_none_eq_some.mp hnext
    exact h.congr rfl rfl rfl (fun s' hs' => h.clients s' (mem_of_mem_erase hs')) rfl
      fun _ => rfl
  | cleanup s =>
    obtain ⟨-, rfl⟩ := ite_some_none_eq_some.mp hnext
    exact (cleanup_mediaOk s).run h
  | tick =>
    cases hnext
    exact mediaOk_tick.tick.run h

/-- The service before the first client, with any backend. -/
structure Service.Initial (σ : Service) : Prop where
  desktop : σ.desktop = {}
  assets : σ.assets = fun _ => []
  clients : σ.clients = []
  closed : σ.closed = []
  audioOwner : σ.audioOwner = none
  videoCount : σ.videoCount = 0
  surfaces : σ.surfaces = []
  frame : σ.frame = none

theorem Service.Initial.mediaOk (h : σ.Initial) : σ.MediaOk := by
  have hnil : ∀ s, σ.assets s = [] := fun s => by rw [h.assets]
  refine ⟨fun s => ?_, fun s _ => hnil s, fun s hs => ?_, fun s rid r hget => ?_,
    fun s rid r hget => ?_, fun s rid ho => ?_, ?_, fun s => ?_, fun s => ?_, fun s => ?_⟩
  · rw [hnil]
    exact Dict.wf_nil
  · rw [h.clients] at hs
    cases hs
  · rw [hnil] at hget
    cases hget
  · rw [hnil] at hget
    cases hget
  · rw [h.audioOwner] at ho
    cases ho
  · unfold Service.allReadyVideos
    rw [h.videoCount, h.desktop]
    rfl
  · rw [hnil]
    exact Nat.zero_le _
  · unfold Service.declaredBytes
    rw [hnil]
    decide
  · rw [hnil, h.desktop]
    rfl

/-- **Resources and players are consistent.** After any run of the service, with a backend that
rejects any of its calls: whatever plays owns the audio output, so at most one resource plays;
the counter counts the ready videos; no session has more resources or declared bytes than it may
have; and the data of a sealed resource are its accepted chunks, of the declared size. -/
theorem media_consistent [Codecs] [FloatText] (σ₀ σ : Service) (h₀ : σ₀.Initial)
    (events : List ServiceEvent) (hrun : exec Service.next σ₀ events = some σ) :
    (∀ s rid r, Dict.get? (σ.assets s) rid = some r → r.playing = true →
      σ.audioOwner = some (s, rid) ∧
      ∀ s' rid' r', Dict.get? (σ.assets s') rid' = some r' → r'.playing = true →
        (s', rid') = (s, rid)) ∧
    σ.videoCount = σ.allReadyVideos ∧
    (∀ s, (σ.assets s).length ≤ limitResources ∧ σ.declaredBytes s ≤ limitSessionBytes ∧
      ∀ rid r, Dict.get? (σ.assets s) rid = some r → r.size ≤ limitResourceBytes ∧
        (r.ready = true → r.data = r.accepted.flatten ∧ (r.data.length : Int) = r.size)) := by
  have h := exec_invariant MediaOk (fun _ e _ h hnext => next_mediaOk h e hnext) h₀.mediaOk
    hrun
  refine ⟨fun s rid r hget hp => ⟨h.playing s rid r hget hp, fun s' rid' r' hget' hp' => ?_⟩,
    h.count, fun s => ⟨h.few s, h.bytes s, fun rid r hget => ?_⟩⟩
  · have howner := h.playing s rid r hget hp
    have howner' := h.playing s' rid' r' hget' hp'
    exact Option.some.inj (howner'.symm.trans howner)
  · have hr := h.assets s rid r hget
    exact ⟨hr.size_le, fun hready => ⟨hr.data, hr.whole hready⟩⟩

/-- Codecs for runs: every chunk is one byte, and every file a WAV file of one frame. -/
@[reducible] def oneByte : Codecs where
  b64decode _ := some [7]
  wave _ := some ⟨2, 2, 8000, true, 1, some [1, 2, 3, 4]⟩

@[reducible] def plainText : FloatText := { repr := fun _ => "0.0" }

/-- A backend that does not take the audio data the first time. -/
def busyOnce : Service where
  features := ["video.playback"]
  backend n := if n = 2 then .error "busy" else .ok {}

/-- A client uploads a resource. -/
def upload (rid kind : String) : List ServiceEvent :=
  [.request 0 "resource.create"
      [("resource", .str rid), ("kind", .str kind), ("bytes", .num (.int 1))],
    .request 0 "resource.append"
      [("resource", .str rid), ("offset", .num (.int 0)), ("data", .str "Bw==")],
    .request 0 "resource.finish" [("resource", .str rid)]]

def playSong : ServiceEvent :=
  .request 0 "media.control" [("resource", .str "song"), ("action", .str "play")]

/-- A clip and a song, which is played at the second attempt. -/
def clipAndSong : List ServiceEvent :=
  .connect :: upload "clip" "video" ++ upload "song" "audio" ++ [playSong, playSong]

theorem media_consistent_clipAndSong :
    letI := oneByte; letI := plainText
    ∃ σ r, exec Service.next busyOnce clipAndSong = some σ ∧
      (σ.calls.any fun c => c.2.toOption.isNone) ∧ σ.videoCount = 1 ∧
      Dict.get? (σ.assets 0) "song" = some r ∧ r.playing = true ∧
      (σ.allReadyVideos : Int) = 1 ∧ σ.audioOwner = some (0, "song") := by
  let := oneByte
  let := plainText
  have hrun : (exec Service.next busyOnce clipAndSong).map (fun σ =>
      (σ.calls.any fun c => c.2.toOption.isNone, σ.videoCount,
        (Dict.get? (σ.assets 0) "song").map Asset.playing)) = some (true, 1, some true) := by
    decide +kernel
  obtain ⟨σ, hσ, heq⟩ := map_eq_some_iff.mp hrun
  simp only [Prod.mk.injEq, map_eq_some_iff] at heq
  obtain ⟨hcalls, hcount, r, hget, hplays⟩ := heq
  have h := media_consistent _ σ ⟨rfl, rfl, rfl, rfl, rfl, rfl, rfl, rfl⟩ clipAndSong hσ
  exact ⟨σ, r, hσ, hcalls, hcount, hget, hplays, h.2.1.symm.trans hcount,
    (h.1 0 "song" r hget hplays).1⟩

end PythonOS.Desktop
