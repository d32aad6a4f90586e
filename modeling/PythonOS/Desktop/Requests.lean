import PythonOS.Desktop.Changes

/-!
# PythonOS.Desktop.Requests

Whole runs of the desktop: any interleaving of input events, commits and the
other requests, by any number of sessions.

* `handle_keeps`: one request, whether it raises an exception or not, keeps the
  invariant of the desktop;
* `views_ok`: after any run, every view of every session is in order;
* `commit_atomic`: in any state a run ends in, a commit does all or nothing.
-/

namespace PythonOS.Desktop

open Lib PyState

/-! ### Requests -/

theorem dispatchCommit_keeps (s : SessionId) (revision commands : Json) :
    Keeps Desktop.Ok (dispatchCommit s revision commands) := by
  intro d h
  simp only [dispatchCommit, wp_bind, wp_get]
  refine onSession_wp (wp_mono (commit_wp _ (h.views s) _ _) ?_ ?_)
  · rintro actions session ⟨cs, views, -, -, -, hok, rfl⟩
    refine wp_imp (sync_wp fun s' => ?_) (fun _ d' hd' => ?_)
    · rw [Desktop.store_setSession]
      split
      · exact hok
      · exact h.views s'
    · exact Keeps.forM (fun a => ok_stable.refs.windowAction s a.1 a.2) actions d' hd'
  · rintro e session ⟨-, rfl⟩
    exact h.congr (d.sameViews_setSession s rfl) (.inl rfl)

theorem connect_keeps : Keeps Desktop.Ok (handle .connect) := by
  refine keeps_modify fun d h => ?_
  have hempty : ∀ s, ((d.setSession d.nextSession {}).store s).views = [] ∨
      ((d.setSession d.nextSession {}).store s).views = (d.store s).views := by
    intro s
    rw [Desktop.store_setSession]
    split
    · exact .inl rfl
    · exact .inr rfl
  refine ⟨fun s => ?_, fun w v hw hv => ?_⟩
  · rcases hempty s with hnil | hsame
    · exact fun p hp => absurd hp (by simp [hnil])
    · intro p hp
      exact h.views s p (hsame ▸ hp)
  · rcases hempty w.1 with hnil | hsame
    · exact absurd hv (by simp [hnil])
    · exact h.resize w v hw (hsame ▸ hv)

/-- **One request** keeps the invariant, also when it raises an exception. -/
theorem handle_keeps (r : Request) : Keeps Desktop.Ok (handle r) := by
  cases r with
  | connect => exact connect_keeps
  | disconnect s =>
    exact Keeps.bind (keeps_modify fun d h => h.congr (fun _ => rfl) (.inl rfl)) fun _ =>
      ok_stable.refs.sync
  | commit s revision commands => exact dispatchCommit_keeps s revision commands
  | input e => exact ok_stable.input e
  | poll s => exact keeps_modify fun d h => h.congr (d.sameViews_setSession s rfl) (.inl rfl)
  | media s resources events =>
    exact keeps_modify fun d h =>
      h.congr (d.sameViews_setSession s (Session.views_emits events _)) (.inl rfl)

/-! ### Runs -/

/-- A run never stops: every request leads to a next desktop. -/
theorem exec_step_isSome (rs : List Request) (d : Desktop) : ∃ d', exec step d rs = some d' := by
  induction rs generalizing d with
  | nil => exact ⟨d, rfl⟩
  | cons r rs ih => exact ih _

theorem ok_initial : Desktop.Ok {} :=
  ⟨fun _ _ hp => absurd hp (by simp), fun _ _ hw => absurd hw (by simp)⟩

theorem ok_of_run {rs : List Request} {d : Desktop} (h : exec step {} rs = some d) : d.Ok :=
  exec_invariant Desktop.Ok
    (fun _ r _ hd hstep => Option.some.inj hstep ▸ (handle_keeps r).run hd) ok_initial h

/-- **Views stay in order.** After any interleaving of commits, input events and
the other requests, every view of every session has its geometry on the desktop,
a valid restore geometry exactly when it is maximized, content that fits, and
controls with values of their kind. -/
theorem views_ok (rs : List Request) (s : SessionId) :
    ∃ d, exec step {} rs = some d ∧ AllOk (d.store s).views := by
  obtain ⟨d, hd⟩ := exec_step_isSome rs {}
  exact ⟨d, hd, (ok_of_run hd).views s⟩

/-- A session connects and creates a view. -/
example : (exec step {} [.connect, .commit 0 (.num (.int 1))
    (.arr [.obj [("op", .str "create_view"), ("view", .str "v")]])]).map
      (fun d => ((d.store 0).revision, Dict.keys (d.store 0).views)) = some (1, ["v"]) := by
  decide +kernel

/-- **Commits are atomic.** In any state a run of the desktop can reach, `commit`
either installs the result of all commands in order and raises the revision by
one, or raises `ValueError` and leaves the session as it was. -/
theorem commit_atomic (rs : List Request) (s : SessionId) (revision commands : Json)
    (resources : Option (Dict String Resource)) :
    ∃ d, exec step {} rs = some d ∧
      match (Session.commit revision commands resources).run.run (d.store s) with
      | (.ok actions, session) =>
        ∃ cs views, commands = .arr cs ∧ revision = .num (.int ((d.store s).revision + 1)) ∧
          cs.foldlM applyCommand ((d.store s).views, []) = .ok (views, actions) ∧
          session = { d.store s with views, revision := (d.store s).revision + 1 }
      | (.error e, session) => (∃ message, e = .valueError message) ∧ session = d.store s := by
  obtain ⟨d, hd⟩ := exec_step_isSome rs {}
  refine ⟨d, hd, ?_⟩
  have hw := commit_wp resources ((ok_of_run hd).views s) revision commands
  unfold wp at hw
  split
  · next actions session hm =>
    rw [hm] at hw
    obtain ⟨cs, views, hcs, hrev, hfold, -, hsession⟩ := hw
    exact ⟨cs, views, hcs, hrev, hfold, hsession⟩
  · next e session hm =>
    rw [hm] at hw
    exact hw

end PythonOS.Desktop
