import PythonOS.Desktop.Steady

/-!
# PythonOS.Desktop.Restore

A maximized view comes back to where it was.

`configure` saves position and size when a view becomes maximized and puts them
back when it leaves that state. In between are commits, of this session and of
others, and input events; none of them touches what was saved. The argument is
that a view has a *home* (`View.home`: where it is when it is not maximized), that
a command keeps it unless it gives the view geometry, and that input keeps it as
long as the view is maximized.

A commit is a list of commands, so a view can be maximized and restored within
one. What is followed is therefore the view after every command (`viewTrace`).
-/

set_option linter.dupNamespace false

namespace PythonOS.Desktop

open Lib List Option PyState

/-! ### A view during a request -/

/-- The drafts after each of the commands, up to the first one that is refused. -/
def draftsAfter (draft : Draft) : List Json → List Draft
  | [] => []
  | c :: cs =>
    match applyCommand draft c with
    | .ok draft' => draft' :: draftsAfter draft' cs
    | .error _ => []

/-- The commit is accepted. -/
def Accepted (d : Desktop) (s : SessionId) (revision : Json) (cs : List Json) : Prop :=
  ∃ draft, (d.store s).prepare revision (.arr cs) (some (d.store s).resources) = .ok draft

/-- The desktop after a request. -/
def next (d : Desktop) (r : Request) : Desktop := ((handle r).run.run d).2

/-- What the view `vid` of session `s` is after each command of an accepted commit of
that session, and after any other request. -/
def InTrace (s : SessionId) (vid : String) (d : Desktop) (r : Request) (o : Option View) : Prop :=
  (∃ revision cs, r = .commit s revision (.arr cs) ∧ Accepted d s revision cs ∧
    ∃ draft ∈ draftsAfter ((d.store s).views, []) cs, o = Dict.get? draft.1 vid) ∨
  o = Dict.get? ((next d r).store s).views vid

/-- The view is there and maximized. -/
def IsMaximized (o : Option View) : Prop := ∃ v, o = some v ∧ v.state = .maximized

/-- Throughout the request the view is there and maximized. -/
def StaysMaximized (s : SessionId) (vid : String) (d : Desktop) (r : Request) : Prop :=
  ∀ o, InTrace s vid d r o → IsMaximized o

/-- The request is an accepted commit, one of whose commands maximizes the view, which
stays so to the end of the commit; `g` is where the view was before that command, or
where a view is put that the command creates. -/
def Maximizes (s : SessionId) (vid : String) (d : Desktop) (r : Request) (g : Geometry) : Prop :=
  ∃ revision pre c post draft, r = .commit s revision (.arr (pre ++ c :: post)) ∧
    Accepted d s revision (pre ++ c :: post) ∧
    pre.foldlM applyCommand ((d.store s).views, []) = .ok draft ∧
    ((∃ v, Dict.get? draft.1 vid = some v ∧ v.state ≠ .maximized ∧ v.toGeometry = g) ∨
      (Dict.get? draft.1 vid = none ∧ initialGeometry draft.1 = g)) ∧
    ∀ draft' ∈ draftsAfter draft (c :: post), IsMaximized (Dict.get? draft'.1 vid)

/-- The command gives position or size to the view. -/
def givesGeometry (vid : String) (command : Json) : Bool :=
  match command with
  | .obj c =>
    match field c "view" .null, Op.ofJson (field c "op" .null), field c "properties" .null with
    | .str vid', .configureView, .obj changes => vid' = vid && hasGeometry changes
    | _, _, _ => false
  | _ => false

/-- The request is an accepted commit that returns the view to normal or minimized without
giving it geometry. The view is not destroyed on the way. -/
def Returns (s : SessionId) (vid : String) (d : Desktop) (r : Request) : Prop :=
  ∃ revision cs, r = .commit s revision (.arr cs) ∧ Accepted d s revision cs ∧
    (∀ c ∈ cs, givesGeometry vid c = false) ∧
    (∀ o, InTrace s vid d r o → o.isSome = true) ∧
    ∃ v, Dict.get? ((next d r).store s).views vid = some v ∧ v.state ≠ .maximized

/-! ### Commands keep the home -/

variable {draft draft' : Draft}

theorem Applied.get?_other {c : Fields} {vid vid' : String}
    (h : Applied c vid' draft draft') (hne : vid ≠ vid') :
    Dict.get? draft'.1 vid = Dict.get? draft.1 vid := by
  cases h with
  | create _ _ _ _ _ _ => exact Dict.get?_set_of_ne _ _ hne
  | destroy _ => exact Dict.get?_erase_of_ne _ hne
  | configure _ _ _ _ => exact Dict.get?_set_of_ne _ _ hne
  | window _ _ => rfl
  | node _ _ => exact Dict.get?_set_of_ne _ _ hne

variable {vid : String}

variable {v : View} {revision : Json} {r : Request}

section

variable {command : Json} {v' : View} (h : applyCommand draft command = .ok draft')
  (hv' : Dict.get? draft'.1 vid = some v')

include h hv'

/-- A command on an existing view that is still there afterwards keeps its home, unless it
gives geometry to a view that is not maximized afterwards. -/
theorem applyCommand_home (ht : TidyViews draft.1) (hv : Dict.get? draft.1 vid = some v)
    (hgeo : givesGeometry vid command = false ∨ v'.state = .maximized) : v'.home = v.home := by
  obtain ⟨c, vid', rfl, hview, happlied⟩ := applyCommand_applied h
  by_cases hne : vid = vid'
  · subst hne
    cases happlied with
    | create op fresh _ _ _ _ => exact absurd (fresh.symm.trans hv) (by simp)
    | destroy get => exact absurd (hv'.symm.trans (Dict.get?_erase_self ht.wf vid)) (by simp)
    | configure op get properties configured =>
      obtain rfl := Option.some.inj (hv.symm.trans get)
      obtain rfl := Option.some.inj (hv'.symm.trans (Dict.get?_set_self _ _ _))
      obtain ⟨-, hmax, hhome⟩ := configure_eq_ok configured
      refine hhome ?_
      rcases hgeo with hnone | hstate
      · simpa [givesGeometry, hview, op, properties] using hnone
      · exact hmax hstate
    | window get shown =>
      obtain rfl := Option.some.inj (hv.symm.trans hv')
      rfl
    | node get changed =>
      obtain rfl := Option.some.inj (hv.symm.trans get)
      obtain rfl := Option.some.inj (hv'.symm.trans (Dict.get?_set_self _ _ _))
      rfl
  · rw [happlied.get?_other hne, hv] at hv'
    cases hv'
    rfl

/-- A command that creates the view maximized puts its home where new views are put. -/
theorem applyCommand_home_new (hv : Dict.get? draft.1 vid = none) (hstate : v'.state = .maximized) :
    v'.home = some (initialGeometry draft.1) := by
  obtain ⟨c, vid', rfl, -, happlied⟩ := applyCommand_applied h
  by_cases hne : vid = vid'
  · subst hne
    cases happlied with
    | create op fresh geometry state nodes configured =>
      obtain rfl := Option.some.inj (hv'.symm.trans (Dict.get?_set_self _ _ _))
      obtain ⟨-, hmax, hhome⟩ := configure_eq_ok configured
      rw [hhome (hmax hstate), View.home, state, geometry]
      rfl
    | destroy get | configure _ get _ _ | window get _ | node get _ =>
      exact absurd (hv.symm.trans get) (by simp)
  · rw [happlied.get?_other hne, hv] at hv'
    cases hv'

end

variable {cs : List Json}

theorem foldlM_cons_eq_ok {c : Json} (h : (c :: cs).foldlM applyCommand draft = .ok draft') :
    ∃ draft1, applyCommand draft c = .ok draft1 ∧ cs.foldlM applyCommand draft1 = .ok draft' ∧
      draftsAfter draft (c :: cs) = draft1 :: draftsAfter draft1 cs := by
  obtain ⟨draft1, hc, h⟩ := bind_eq_ok h
  refine ⟨draft1, hc, h, ?_⟩
  simp only [draftsAfter, hc]

/-- A list of commands along which the view stays, and each of which keeps its home. -/
theorem foldlM_home (ht : TidyViews draft.1) (h : cs.foldlM applyCommand draft = .ok draft')
    (hv : Dict.get? draft.1 vid = some v)
    (hstays : ∀ d ∈ draftsAfter draft cs, (Dict.get? d.1 vid).isSome = true)
    (hgeo : (∀ c ∈ cs, givesGeometry vid c = false) ∨
      ∀ d ∈ draftsAfter draft cs, IsMaximized (Dict.get? d.1 vid)) :
    ∃ v', Dict.get? draft'.1 vid = some v' ∧ v'.home = v.home := by
  induction cs generalizing draft v with
  | nil =>
    cases h
    exact ⟨v, hv, rfl⟩
  | cons c cs ih =>
    obtain ⟨draft1, hc, hrest, hdrafts⟩ := foldlM_cons_eq_ok h
    rw [hdrafts] at hstays hgeo
    obtain ⟨v1, hv1⟩ := isSome_iff_exists.mp (hstays draft1 mem_cons_self)
    have hone : givesGeometry vid c = false ∨ v1.state = .maximized := by
      rcases hgeo with hnone | hmax
      · exact .inl (hnone c mem_cons_self)
      · obtain ⟨u, hu, hstate⟩ := hmax draft1 mem_cons_self
        obtain rfl := Option.some.inj (hv1.symm.trans hu)
        exact .inr hstate
    have hhome := applyCommand_home hc hv1 ht hv hone
    obtain ⟨_, _, -, -, happlied⟩ := applyCommand_applied hc
    obtain ⟨v', hv', hhome'⟩ := ih (happlied.tidy ht) hrest hv1
      (fun d hd => hstays d (mem_cons_of_mem _ hd))
      (hgeo.imp (fun hn c' hc' => hn c' (mem_cons_of_mem _ hc'))
        fun hm d hd => hm d (mem_cons_of_mem _ hd))
    exact ⟨v', hv', hhome'.trans hhome⟩

/-! ### Requests keep the home of a maximized view -/

theorem refStable_store (st : SessionId → Session) : RefStable fun d => d.store = st :=
  fun _ _ hd hstore _ _ _ => hstore.trans hd

/-- The sessions after a commit: the one that commits gets the views of its draft, if it is
accepted, and nothing else changes. -/
def committed (d : Desktop) (s : SessionId) (revision commands : Json) : SessionId → Session :=
  match (d.store s).prepare revision commands (some (d.store s).resources) with
  | .error _ => (d.setSession s (d.store s)).store
  | .ok draft => (d.setSession s
      { d.store s with views := draft.1, revision := (d.store s).revision + 1 }).store

theorem dispatchCommit_store (d : Desktop) (s : SessionId) (revision commands : Json) :
    wp (dispatchCommit s revision commands) (fun _ d' => d'.store = committed d s revision commands)
      (fun _ d' => d'.store = committed d s revision commands) d := by
  simp only [dispatchCommit, wp_bind, wp_get]
  refine onSession_wp ?_
  simp only [Session.commit, wp_bind, wp_get, wp_liftExcept, wp_set, wp_pure]
  unfold committed
  cases (d.store s).prepare revision commands (some (d.store s).resources) with
  | error e => rfl
  | ok draft =>
    dsimp only
    generalize d.setSession s
      { d.store s with views := draft.1, revision := (d.store s).revision + 1 } = d1
    refine wp_imp ((refStable_store d1.store).sync d1 rfl) (fun _ d2 hd2 => ?_)
    exact Keeps.forM (fun a => (refStable_store d1.store).windowAction s a.1 a.2) draft.2 d2 hd2

theorem next_commit (d : Desktop) (s : SessionId) (revision commands : Json) :
    (next d (.commit s revision commands)).store = committed d s revision commands :=
  wp_state (dispatchCommit_store d s revision commands)

theorem prepare_eq_ok {session : Session} {resources : Option (Dict String Resource)}
    {draft : Draft} (h : session.prepare revision (.arr cs) resources = .ok draft) :
    cs.foldlM applyCommand (session.views, []) = .ok draft := by
  obtain ⟨_, -, h⟩ := bind_eq_ok h
  obtain ⟨_, -, h⟩ := bind_eq_ok h
  obtain ⟨_, -, h⟩ := bind_eq_ok h
  obtain ⟨draft', hfold, h⟩ := bind_eq_ok h
  obtain ⟨_, -, h⟩ := bind_eq_ok h
  obtain ⟨_, -, h⟩ := bind_eq_ok h
  cases h
  exact hfold

variable {s : SessionId} {d : Desktop}

/-- The views after an accepted commit are those its commands lead to. -/
theorem Accepted.views (h : Accepted d s revision cs) :
    ∃ draft, cs.foldlM applyCommand ((d.store s).views, []) = .ok draft ∧
      ((next d (.commit s revision (.arr cs))).store s).views = draft.1 := by
  obtain ⟨draft, hdraft⟩ := h
  refine ⟨draft, prepare_eq_ok hdraft, ?_⟩
  rw [next_commit, committed, hdraft]
  dsimp only
  rw [Desktop.store_setSession, if_pos rfl]

/-- Any other request leaves the state and the saved geometry of the views it leaves. -/
theorem next_saved (h : d.Invariant)
    (hr : ∀ revision cs, r = .commit s revision (.arr cs) → ¬ Accepted d s revision cs) {v' : View}
    (hv' : Dict.get? ((next d r).store s).views vid = some v') :
    ∃ v, Dict.get? (d.store s).views vid = some v ∧ v'.state = v.state ∧
      v'.restore = v.restore := by
  have hsame : ((next d r).store s).views = (d.store s).views →
      ∃ v, Dict.get? (d.store s).views vid = some v ∧ v'.state = v.state ∧ v'.restore = v.restore :=
    fun heq => ⟨v', heq ▸ hv', rfl, rfl⟩
  cases r with
  | connect =>
    have hstore : ((next d .connect).store s).views =
        if s = d.nextSession then [] else (d.store s).views := by
      show ((d.setSession d.nextSession {}).store s).views = _
      rw [Desktop.store_setSession]
      split <;> rfl
    by_cases hs : s = d.nextSession
    · rw [hstore, if_pos hs] at hv'
      cases hv'
    · exact hsame (by rw [hstore, if_neg hs])
  | disconnect s' =>
    have hkeep : Keeps (fun d' : Desktop => d'.store = d.store) (handle (.disconnect s')) :=
      Keeps.bind (keeps_modify fun _ h => h) fun _ => (refStable_store d.store).sync
    exact hsame (congrArg Session.views (congrFun (hkeep.run rfl) s))
  | commit s' revision commands =>
    refine hsame ?_
    rw [next_commit, committed]
    cases hdraft : (d.store s').prepare revision commands (some (d.store s').resources) with
    | error e => exact d.sameViews_setSession s' rfl s
    | ok draft =>
      dsimp only
      rw [Desktop.store_setSession]
      split
      · next hs =>
        -- the session's own commit, which has a list of commands
        subst hs
        cases commands with
        | arr cs => exact absurd ⟨draft, hdraft⟩ (hr revision cs rfl)
        | _ =>
          obtain ⟨_, -, hdraft⟩ := bind_eq_ok hdraft
          obtain ⟨_, -, hdraft⟩ := bind_eq_ok hdraft
          cases hdraft
      · rfl
  | input e =>
    have hsaved : d.Saved (next d (.input e)) :=
      wp_state (wp_mono (input_wp h.ok h.tidy h.sound e) (fun _ _ hd => hd.1.saved)
        fun _ _ hd => hd.1.saved)
    exact hsaved s vid v' hv'
  | poll s' =>
    have hviews : d.SameViews (next d (.poll s')) := d.sameViews_setSession s' rfl
    exact hsame (hviews s)
  | media s' resources events =>
    have hviews : d.SameViews (next d (.media s' resources events)) :=
      d.sameViews_setSession s' (Session.views_emits events _)
    exact hsame (hviews s)

/-- **One request** that leaves the view maximized throughout keeps its home. -/
theorem next_home (h : d.Invariant) (hv : Dict.get? (d.store s).views vid = some v)
    (hmax : v.state = .maximized) (hstays : StaysMaximized s vid d r) :
    ∃ v', Dict.get? ((next d r).store s).views vid = some v' ∧ v'.state = .maximized ∧
      v'.home = v.home := by
  obtain ⟨v', hv', hmax'⟩ := hstays _ (.inr rfl)
  refine ⟨v', hv', hmax', ?_⟩
  by_cases hr : ∃ revision cs, r = .commit s revision (.arr cs) ∧ Accepted d s revision cs
  · obtain ⟨revision, cs, rfl, hacc⟩ := hr
    obtain ⟨draft, hfold, hviews⟩ := hacc.views
    have htrace : ∀ d' ∈ draftsAfter ((d.store s).views, []) cs, IsMaximized (Dict.get? d'.1 vid) :=
      fun d' hd' => hstays _ (.inl ⟨revision, cs, rfl, hacc, d', hd', rfl⟩)
    obtain ⟨u, hu, hhome⟩ := foldlM_home (h.tidy.views s) hfold hv (fun d' hd' => by
      obtain ⟨w, hw, -⟩ := htrace d' hd'
      rw [hw]
      rfl) (.inr htrace)
    rw [hviews, hu] at hv'
    cases hv'
    exact hhome
  · obtain ⟨u, hu, hstate, hrestore⟩ :=
      next_saved h (fun revision cs heq hacc => hr ⟨revision, cs, heq, hacc⟩) hv'
    obtain rfl := Option.some.inj (hv.symm.trans hu)
    unfold View.home
    rw [hstate, hrestore, if_pos hmax, if_pos hmax]

/-- The commit that maximizes the view leaves it maximized, at home where it was before. -/
theorem Maximizes.home {g : Geometry} (hinv : d.Invariant) (h : Maximizes s vid d r g) :
    ∃ v, Dict.get? ((next d r).store s).views vid = some v ∧ v.state = .maximized ∧
      v.home = some g := by
  obtain ⟨revision, pre, c, post, draft, rfl, hacc, hpre, hbefore, hafter⟩ := h
  obtain ⟨final, hfold, hviews⟩ := hacc.views
  have ht : TidyViews draft.1 := foldlM_tidy (hinv.tidy.views s) hpre
  rw [foldlM_append, hpre] at hfold
  obtain ⟨draft1, hc, hrest, hdrafts⟩ := foldlM_cons_eq_ok hfold
  rw [hdrafts] at hafter
  obtain ⟨v1, hv1, hmax1⟩ := hafter draft1 mem_cons_self
  have hhome1 : v1.home = some g := by
    rcases hbefore with ⟨v, hv, hstate, rfl⟩ | ⟨hnone, rfl⟩
    · rw [applyCommand_home hc hv1 ht hv (.inr hmax1), View.home, if_neg hstate]
    · exact applyCommand_home_new hc hv1 hnone hmax1
  have hpost : ∀ d' ∈ draftsAfter draft1 post, IsMaximized (Dict.get? d'.1 vid) :=
    fun d' hd' => hafter d' (mem_cons_of_mem _ hd')
  obtain ⟨_, _, -, -, happlied⟩ := applyCommand_applied hc
  obtain ⟨v, hv, hhome⟩ := foldlM_home (happlied.tidy ht) hrest hv1 (fun d' hd' => by
    obtain ⟨w, hw, -⟩ := hpost d' hd'
    rw [hw]
    rfl) (.inr hpost)
  refine ⟨v, hviews ▸ hv, ?_, hhome.trans hhome1⟩
  -- the last draft is one of those the view is maximized in
  cases post with
  | nil =>
    cases hrest
    obtain rfl := Option.some.inj (hv1.symm.trans hv)
    exact hmax1
  | cons c' post' =>
    have hlast : ∀ (cs : List Json) (draft : Draft), cs ≠ [] →
        cs.foldlM applyCommand draft = .ok final → final ∈ draftsAfter draft cs := by
      intro cs
      induction cs with
      | nil => exact fun _ hne _ => absurd rfl hne
      | cons c cs ih =>
        intro draft _ hcs
        obtain ⟨draft2, -, hcs, hd2⟩ := foldlM_cons_eq_ok hcs
        rw [hd2]
        cases cs with
        | nil =>
          cases hcs
          exact mem_cons_self
        | cons c'' cs => exact mem_cons_of_mem _ (ih draft2 (by simp) hcs)
    obtain ⟨w, hw, hmax⟩ := hpost final (hlast _ _ (by simp) hrest)
    obtain rfl := Option.some.inj (hv.symm.trans hw)
    exact hmax

/-- The commit that returns the view puts it where its home is. -/
theorem Returns.geometry (hinv : d.Invariant) (h : Returns s vid d r)
    (hv : Dict.get? (d.store s).views vid = some v) :
    ∃ v', Dict.get? ((next d r).store s).views vid = some v' ∧ some v'.toGeometry = v.home := by
  obtain ⟨revision, cs, rfl, hacc, hnone, hsome, v', hv', hstate⟩ := h
  obtain ⟨draft, hfold, hviews⟩ := hacc.views
  obtain ⟨u, hu, hhome⟩ := foldlM_home (hinv.tidy.views s) hfold hv
    (fun d' hd' => hsome _ (.inl ⟨revision, cs, rfl, hacc, d', hd', rfl⟩)) (.inl hnone)
  refine ⟨v', hv', ?_⟩
  rw [hviews, hu] at hv'
  cases hv'
  rw [← hhome, View.home, if_neg hstate]

/-- **A maximized view comes back.** From any state a run of the desktop can reach, let a
commit maximize a view, let any requests follow during which the view stays maximized, and
let a commit then return it to normal or minimized without giving it geometry: the view has
the position and size it had just before it was maximized. -/
theorem geometry_restored {rs mid : List Request} {d₀ d₁ d₂ d₃ : Desktop} {s : SessionId}
    {vid : String} {r₁ r₂ : Request} {g : Geometry} (hreach : exec step {} rs = some d₀)
    (hmax : Maximizes s vid d₀ r₁ g) (h₁ : step d₀ r₁ = some d₁)
    (hmid : Guarded step (StaysMaximized s vid) d₁ mid) (h₂ : exec step d₁ mid = some d₂)
    (hret : Returns s vid d₂ r₂) (h₃ : step d₂ r₂ = some d₃) :
    ∃ v, Dict.get? (d₃.store s).views vid = some v ∧ v.toGeometry = g := by
  have hinv₀ := invariant_of_run hreach
  have hnext : ∀ {d d' : Desktop} {r : Request}, step d r = some d' → d' = next d r :=
    fun h => (Option.some.inj h).symm
  have hkeep : ∀ {d : Desktop} (r : Request), d.Invariant → (next d r).Invariant :=
    fun r h => (handle_invariant r).run h
  obtain ⟨v₁, hv₁, hmax₁, hhome₁⟩ := hmax.home hinv₀
  rw [← hnext h₁] at hv₁
  -- along the run the view is maximized and at home at `g`
  let J : Desktop → Prop := fun d => d.Invariant ∧
    ∃ v, Dict.get? (d.store s).views vid = some v ∧ v.state = .maximized ∧ v.home = some g
  have hJ : J d₂ := by
    refine guarded_invariant J ?_ ⟨hnext h₁ ▸ hkeep r₁ hinv₀, v₁, hv₁, hmax₁, hhome₁⟩ hmid h₂
    rintro d r d' ⟨hinv, v, hv, hstate, hhome⟩ hstays hstep
    obtain ⟨v', hv', hstate', hhome'⟩ := next_home hinv hv hstate hstays
    rw [hnext hstep]
    exact ⟨hkeep r hinv, v', hv', hstate', hhome'.trans hhome⟩
  obtain ⟨hinv₂, v₂, hv₂, -, hhome₂⟩ := hJ
  obtain ⟨v₃, hv₃, hgeo⟩ := hret.geometry hinv₂ hv₂
  rw [← hnext h₃] at hv₃
  exact ⟨v₃, hv₃, Option.some.inj (hgeo.trans hhome₂)⟩

theorem step_eq_next (d : Desktop) (r : Request) : step d r = some (next d r) := rfl

/-- A session and its window. -/
def oneWindow : List Request :=
  [.connect, .commit 0 (.num (.int 1)) (.arr [.obj [("op", .str "create_view"),
    ("view", .str "v")]])]

/-- The commit that puts the window into a state. -/
def stateCommit (revision : Int) (state : String) : Request :=
  .commit 0 (.num (.int revision)) (.arr [.obj [("op", .str "configure_view"), ("view", .str "v"),
    ("properties", .obj [("state", .str state)])]])

/-- The button goes down on the title bar of the maximized window. -/
def pressTitle : Request := .input { kind := some 4, x := 90, y := 50, button := some 1 }

def movePointer : Request := .input { kind := some 3, x := 300, y := 300 }

/-- The desktop after the window was created, maximized, and dragged at its title bar. -/
def windowCreated : Desktop := oneWindow.foldl next {}
def windowMaximized : Desktop := next windowCreated (stateCommit 2 "maximized")
def windowDragged : Desktop := next (next windowMaximized pressTitle) movePointer

theorem isMaximized_of_any {o : Option View} (h : o.any (·.state == .maximized) = true) :
    IsMaximized o := by
  obtain ⟨v, hv, hstate⟩ := (any_eq_true _ _).mp h
  exact ⟨v, hv, eq_of_beq hstate⟩

theorem accepted_of_isSome
    (h : ((d.store s).prepare revision (.arr cs)
      (some (d.store s).resources)).toOption.isSome = true) :
    Accepted d s revision cs := by
  cases hp : (d.store s).prepare revision (.arr cs) (some (d.store s).resources) with
  | error e =>
    rw [hp] at h
    cases h
  | ok draft => exact ⟨draft, hp⟩

theorem staysMaximized_input {e : InputEvent}
    (h : (Dict.get? ((next d (.input e)).store s).views vid).any (·.state == .maximized) = true) :
    StaysMaximized s vid d (.input e) := by
  rintro o (⟨_, _, hr, -⟩ | rfl)
  · cases hr
  · exact isMaximized_of_any h

theorem maximizes_window :
    Maximizes 0 "v" windowCreated (stateCommit 2 "maximized") ⟨80, 76, 640, 480⟩ := by
  obtain ⟨v, hv, hfields⟩ := map_eq_some_iff.mp
    (show (Dict.get? (windowCreated.store 0).views "v").map (fun v => (v.state, v.toGeometry)) =
      some (.normal, ⟨80, 76, 640, 480⟩) by decide +kernel)
  rw [Prod.mk.injEq] at hfields
  refine ⟨_, [], _, [], ((windowCreated.store 0).views, []), rfl,
    accepted_of_isSome (by decide +kernel), rfl,
    .inl ⟨v, hv, by rw [hfields.1]; decide, hfields.2⟩, fun draft hdraft => ?_⟩
  refine isMaximized_of_any ?_
  revert draft
  decide +kernel

theorem returns_window : Returns 0 "v" windowDragged (stateCommit 3 "minimized") := by
  obtain ⟨v, hv, hstate⟩ := map_eq_some_iff.mp
    (show (Dict.get? ((next windowDragged (stateCommit 3 "minimized")).store 0).views "v").map
      View.state = some .minimized by decide +kernel)
  refine ⟨_, _, rfl, accepted_of_isSome (by decide +kernel), by decide +kernel, ?_, v, hv,
    by rw [hstate]; decide⟩
  rintro o (⟨revision, cs, hr, -, draft, hdraft, rfl⟩ | rfl)
  · simp only [stateCommit, Request.commit.injEq, true_and, Json.arr.injEq] at hr
    rw [← hr.2] at hdraft
    revert draft
    decide +kernel
  · rw [hv]
    rfl

/-- Maximized, dragged at its title bar, and minimized. -/
theorem geometry_restored_title :
    exec step {} oneWindow = some windowCreated ∧
      exec step windowMaximized [pressTitle, movePointer] = some windowDragged ∧
      ∃ v, Dict.get? ((next windowDragged (stateCommit 3 "minimized")).store 0).views "v" = some v ∧
        v.toGeometry = ⟨80, 76, 640, 480⟩ := by
  have hreach : exec step {} oneWindow = some windowCreated := rfl
  have hmid : exec step windowMaximized [pressTitle, movePointer] = some windowDragged := rfl
  have hpress : StaysMaximized 0 "v" windowMaximized pressTitle :=
    staysMaximized_input (by decide +kernel)
  have hmove : StaysMaximized 0 "v" (next windowMaximized pressTitle) movePointer :=
    staysMaximized_input (by decide +kernel)
  have hguard : Guarded step (StaysMaximized 0 "v") windowMaximized [pressTitle, movePointer] := by
    refine ⟨hpress, fun d hd => ⟨?_, fun _ _ => trivial⟩⟩
    cases hd
    exact hmove
  exact ⟨hreach, hmid, geometry_restored hreach maximizes_window (step_eq_next _ _) hguard hmid
    returns_window (step_eq_next _ _)⟩

end PythonOS.Desktop
