/-
Who is signed in after a log-out.

The log-out presents the login screen after `signOut` whether it threw or not,
and requests that were pending complete behind that screen.
`log_out_ends_session_iff` says which log-outs end the session.
-/
import DailyDiary.Refinement

set_option autoImplicit false

namespace DailyDiary

open Device

/-- `ann` logs in and opens the profile. -/
def annOpensProfile : List Event :=
  [.typed (.logIn ann.email ann.password), .press .logInBtnPressed,
    .authCompleted 0 (.success ann.uid), .press .myProfilePageBtnPressed]

/-! ## Logging out -/

/-- A sign-in or a registration of device `i` completes with success. -/
def OpensSession (i : ℕ) (w : World) (e : ℕ × Event) : Prop :=
  e.1 = i ∧ ∃ u, (w.device i).label e.2 = .session u

theorem step_signedOut_iff {w w' : World} {e : ℕ × Event} {i : ℕ}
    (hinv : ∀ j, (w.device j).Inv) (hu : (w.device i).currentUser = none)
    (h : app.step w e = some w') :
    (w'.device i).currentUser = none ↔ ¬ OpensSession i w e := by
  obtain ⟨j, e⟩ := e
  obtain ⟨hstep, hne⟩ := app_step_eq_some.mp h
  by_cases hj : i = j
  · subst hj
    rw [(step_refines (hinv i).wf (hinv i).nav hstep).user_eq, hu]
    cases hl : (w.device i).label e with
    | ui => simp [OpensSession, hl, Label.after]
    | session u => simp [OpensSession, hl, Label.after]
    | logOut throws => simp [OpensSession, hl, Label.after]
    | forcedOut => simp [OpensSession, hl, Label.after]
  · rw [hne i hj]
    simp [OpensSession, hu, Ne.symm hj]

theorem throughout_signedOut_iff {w w' : World} {es : List (ℕ × Event)} {i : ℕ}
    (hinv : ∀ j, (w.device j).Inv) (hu : (w.device i).currentUser = none)
    (hr : app.run w es = some w') :
    app.Throughout (fun v => (v.device i).currentUser = none) w es ↔
      app.Always (fun v e => ¬ OpensSession i v e) w es := by
  refine app.throughout_iff_always
    (I := fun v => (∀ j, (v.device j).Inv) ∧ (v.device i).currentUser = none) ?_
    (fun v hv => hv.2) ?_ ⟨hinv, hu⟩ hr
  · rintro v e v' ⟨hinv, hv⟩ hno hs
    exact ⟨app_step_inv hinv hs, (step_signedOut_iff hinv hv hs).mpr hno⟩
  · rintro v e v' ⟨hinv, hv⟩ hopens hs hv'
    exact hopens ((step_signedOut_iff hinv hv hs).mp hv')

/-- What a log-out promises of the state `w₁` after it and of the run from there:
nobody is signed in, and the login screen is up only if the session has ended. -/
def LogOutEnds (i : ℕ) (w₁ : World) (es : List (ℕ × Event)) : Prop :=
  ((w₁.device i).currentUser ≠ none → (w₁.device i).nav.stack.head? ≠ some .logIn) ∧
    app.Throughout (fun w => (w.device i).currentUser = none) w₁ es

/-- `signOut` throws only where somebody is signed in. -/
theorem user_of_signOut_throws {srv srv' : Server} {d d' : Device} {text : String}
    (ha : d.alert = some MyProfileViewController.areYouSureToLogOut)
    (h : step srv d (.alertOk text true) = some (srv', d')) : d.currentUser ≠ none := by
  intro hu
  cases steps_of_step h with
  | alertOk hr =>
    obtain ⟨a, ha', hr⟩ := alertOk_eq_some.mp hr
    obtain rfl := Option.some.inj (ha.symm.trans ha')
    cases performs_of_perform hr with
    | signOut ht =>
      simp only [Device.perform, MyProfileViewController.areYouSureToLogOut, ht] at hr
      simp [hu] at hr

/-- **When a log-out ends the session.** It does exactly when `signOut` does not
throw and none of the sign-ins and registrations pending then, or pressed later,
completes with success in the run that follows. -/
theorem log_out_ends_session_iff {w w₁ w' : World} {i : ℕ} {text : String} {throws : Bool}
    {es : List (ℕ × Event)} (hw : app.Reachable w)
    (halert : (w.device i).alert = some MyProfileViewController.areYouSureToLogOut)
    (hout : app.step w (i, .alertOk text throws) = some w₁) (hr : app.run w₁ es = some w') :
    LogOutEnds i w₁ es ↔
      throws = false ∧ app.Always (fun v e => ¬ OpensSession i v e) w₁ es := by
  have hinv := reachable_inv hw
  have hinv₁ := app_step_inv hinv hout
  have hlabel : (w.device i).label (.alertOk text throws) = .logOut throws := by
    simp [label, halert, MyProfileViewController.areYouSureToLogOut]
  have hstep := (app_step_eq_some.mp hout).1
  have huser := (step_refines (hinv i).wf (hinv i).nav hstep).user_eq
  rw [hlabel] at huser
  cases throws with
  | true =>
    have hsome := user_of_signOut_throws halert hstep
    constructor
    · rintro ⟨_, hout⟩
      have hnone : (w₁.device i).currentUser = none := app.throughout_head hout
      exact absurd (huser.symm.trans hnone) hsome
    · rintro ⟨hthrows, _⟩
      cases hthrows
  | false =>
    have hnone : (w₁.device i).currentUser = none := huser
    have hiff := throughout_signedOut_iff hinv₁ hnone hr
    constructor
    · rintro ⟨_, hout⟩
      exact ⟨rfl, hiff.mp hout⟩
    · rintro ⟨_, halways⟩
      exact ⟨fun hu => absurd hnone hu, hiff.mpr halways⟩

/-- After `before`, the log-out whose `signOut` does as `throws` says is not the
end of the session: `after` follows, without a press of Log In or Register. -/
def LogOutFails (before : List Event) (throws : Bool) (after : List Event) : Prop :=
  ∃ w w₁ w', app.run (World.start ⟨[ann], none⟩) (alone before) = some w ∧
    (w.device 0).alert = some MyProfileViewController.areYouSureToLogOut ∧
    app.step w (0, .alertOk "" throws) = some w₁ ∧ app.run w₁ (alone after) = some w' ∧
    ¬ LogOutEnds 0 w₁ (alone after)

/-- Log In pressed twice: the first sign-in opens the list, the second is pending
when `ann` logs out. -/
def signInPending : List Event :=
  [.typed (.logIn ann.email ann.password), .press .logInBtnPressed, .press .logInBtnPressed,
    .authCompleted 0 (.success ann.uid), .press .myProfilePageBtnPressed, .press .logOutBtnPressed]

theorem log_out_fails :
    LogOutFails (annOpensProfile ++ [.press .logOutBtnPressed]) true [] ∧
      LogOutFails signInPending false [.authCompleted 0 (.success ann.uid)] := by
  constructor
  · have h : ((app.run (World.start ⟨[ann], none⟩)
        (alone (annOpensProfile ++ [.press .logOutBtnPressed]))).bind fun w =>
          (app.step w (0, .alertOk "" true)).map fun w₁ =>
            ((w.device 0).alert, (w₁.device 0).currentUser)) =
        some (some MyProfileViewController.areYouSureToLogOut, some ann.uid) := by decide
    obtain ⟨w, hw, h⟩ := Option.bind_eq_some_iff.mp h
    obtain ⟨w₁, hw₁, h⟩ := Option.map_eq_some_iff.mp h
    obtain ⟨halert, huser⟩ := Prod.mk.inj h
    refine ⟨w, w₁, w₁, hw, halert, hw₁, rfl, ?_⟩
    rintro ⟨_, hnone : (w₁.device 0).currentUser = none⟩
    rw [huser] at hnone
    cases hnone
  · have h : ((app.run (World.start ⟨[ann], none⟩) (alone signInPending)).bind fun w =>
          (app.step w (0, .alertOk "" false)).bind fun w₁ =>
            (app.step w₁ (0, .authCompleted 0 (.success ann.uid))).map fun w' =>
              ((w.device 0).alert, (w'.device 0).currentUser)) =
        some (some MyProfileViewController.areYouSureToLogOut, some ann.uid) := by decide
    obtain ⟨w, hw, h⟩ := Option.bind_eq_some_iff.mp h
    obtain ⟨w₁, hw₁, h⟩ := Option.bind_eq_some_iff.mp h
    obtain ⟨w', hw', h⟩ := Option.map_eq_some_iff.mp h
    obtain ⟨halert, huser⟩ := Prod.mk.inj h
    refine ⟨w, w₁, w', hw, halert, hw₁, ?_, ?_⟩
    · exact (app.run_cons_eq_some).mpr ⟨w', hw', rfl⟩
    · rintro ⟨_, hthroughout⟩
      have hnone : (w'.device 0).currentUser = none := hthroughout.2 w' hw'
      rw [huser] at hnone
      cases hnone

/-- `ann` logs out with nothing pending. -/
theorem log_out_ends_session_ann :
    ∃ w w₁, app.run (World.start ⟨[ann], none⟩)
        (alone (annOpensProfile ++ [.press .logOutBtnPressed])) = some w ∧
      app.step w (0, .alertOk "" false) = some w₁ ∧ LogOutEnds 0 w₁ (alone [.serverPush]) := by
  have h : ((app.run (World.start ⟨[ann], none⟩)
      (alone (annOpensProfile ++ [.press .logOutBtnPressed]))).bind fun w =>
        (app.step w (0, .alertOk "" false)).bind fun w₁ =>
          (app.run w₁ (alone [.serverPush])).map fun _ => (w.device 0).alert) =
      some (some MyProfileViewController.areYouSureToLogOut) := by decide
  obtain ⟨w, hw, h⟩ := Option.bind_eq_some_iff.mp h
  obtain ⟨w₁, hw₁, h⟩ := Option.bind_eq_some_iff.mp h
  obtain ⟨w', hw', halert⟩ := Option.map_eq_some_iff.mp h
  refine ⟨w, w₁, hw, hw₁, ?_⟩
  refine (log_out_ends_session_iff ⟨_, _, init_start _, hw⟩ halert hw₁ hw').mpr ⟨rfl, ?_, ?_⟩
  · rintro ⟨_, u, hu⟩
    cases hu
  · exact fun _ _ => trivial

end DailyDiary
