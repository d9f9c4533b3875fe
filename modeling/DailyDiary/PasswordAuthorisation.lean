/-
What authorises a change of the password: Done, pressed with the old password,
shows the two new fields and the Update button, and these flags of the screen are
all that is kept of it.

A screen that has been shown its fields stays on top until Back removes it for
good or its Update presents the success alert: nothing else can be presented over
it (`step_undisturbed`). So between its Done and its first Update nobody logs out
on the device and no other screen of the device changes a password. What can come
between is a second Update on the same screen, a late sign-in, and another device.
-/
import DailyDiary.PasswordChange
import DailyDiary.Session

set_option autoImplicit false

namespace DailyDiary

open Device

/-! ## A screen that is left alone -/

/-- The screen is on top, and an alert over it only goes away. -/
structure Device.Undisturbed (d : Device) (i : VcId) : Prop where
  top : d.stack.head? = some i
  alert : ∀ a, d.alert = some a → a.action = .dismissOnly

namespace Device

variable {d d₁ d' : Device} {self i : VcId}

theorem Undisturbed.silent (h : d.Undisturbed self) (hs : Silent d d') : d'.Undisturbed self where
  top := hs.stack ▸ h.top
  alert := hs.alert ▸ h.alert

theorem Undisturbed.presentAlert (h : d.Undisturbed self) (i : VcId) {a : Alert}
    (ha : a.action = .dismissOnly) : (d.presentAlert i a).Undisturbed self where
  top := h.top
  alert := by
    intro b hb
    by_cases hon : d.onTop i
    · rw [Device.presentAlert, if_pos hon] at hb
      obtain rfl := Option.some.inj hb
      exact ha
    · rw [Device.presentAlert, if_neg hon] at hb
      exact h.alert b hb

/-- Another controller is not on top. -/
theorem Undisturbed.not_onTop (h : d.Undisturbed self) (hi : i ≠ self) : ¬ d.onTop i := by
  intro hon
  exact hi (Option.some.inj (hon.1.symm.trans h.top))

theorem Undisturbed.present (h : d.Undisturbed self) (hi : i ≠ self) (v : ViewController) :
    d.present i v = .ok d := by
  unfold Device.present
  rw [if_neg (h.not_onTop hi)]
  rfl

theorem ne_of_screens {s : Screen} (hself : d.screens[self]? = some .changePassword)
    (hi : d.screens[i]? = some s) (hs : s ≠ .changePassword) : i ≠ self := by
  rintro rfl
  exact hs (Option.some.inj (hi.symm.trans hself))

/-- It is the only controller that can be visible. -/
theorem Undisturbed.of_visible (h : d.Undisturbed self)
    (hself : d.screens[self]? = some .changePassword) {v : ViewController}
    (hv : d.visible = some (i, v)) : i = self ∧ v.screen = .changePassword := by
  obtain rfl : i = self := Option.some.inj ((visible_eq_some.mp hv).1.1.symm.trans h.top)
  exact ⟨rfl, Option.some.inj ((screen_of_visible hv).symm.trans hself)⟩

theorem undisturbed_of_visible {v : ViewController} (hv : d.visible = some (self, v)) :
    d.Undisturbed self := by
  obtain ⟨htop, halert⟩ := (visible_eq_some.mp hv).1
  refine ⟨htop, ?_⟩
  intro a ha
  rw [halert] at ha
  cases ha

/-- The alert over the screen is not the one of the log-out. -/
theorem Undisturbed.label_ne (h : d.Undisturbed self) (e : Event) (throws : Bool) :
    d.label e ≠ .logOut throws := by
  intro hlabel
  cases e with
  | alertOk text throws' =>
    simp only [label] at hlabel
    split at hlabel
    · next haction =>
      obtain ⟨a, ha, hsign⟩ := Option.map_eq_some_iff.mp haction
      rw [h.alert a ha] at hsign
      cases hsign
    · cases hlabel
  | authCompleted k reply =>
    cases reply with
    | failure => cases hlabel
    | tokenInvalid =>
      simp only [label] at hlabel
      split at hlabel
      · split at hlabel <;> cases hlabel
      · cases hlabel
    | success v =>
      simp only [label] at hlabel
      split at hlabel <;> cases hlabel
  | _ => cases hlabel

/-- Back removes the screen for good; the stack holds no instance twice. -/
theorem undisturbed_dismiss (hwf : d.WellFormed) (h : d.Undisturbed self) :
    d.dismiss.Undisturbed self ∨ self ∉ d.dismiss.stack := by
  unfold dismiss
  split
  · next i j rest hstack =>
    refine Or.inr ?_
    have hids := (List.pairwise_cons.mp hwf.ids).2
    obtain rfl : i = self := by simpa [hstack] using h.top
    rw [hstack] at hids
    intro hmem
    rw [(silent_viewWillAppear j _).stack] at hmem
    exact absurd ((List.pairwise_cons.mp hids).1 i hmem) (lt_irrefl i)
  · exact Or.inl h

/-- Done leaves its own screen on top, with the hidden fields revealed or under an alert
that only goes away. -/
theorem undisturbed_doneBtnPressed {c : ChangePasswordViewController}
    (hself : d.screens[self]? = some .changePassword) (h : d.Undisturbed self) :
    (d.settle (c.doneBtnPressed self d)).Undisturbed self := by
  unfold ChangePasswordViewController.doneBtnPressed
  rcases Option.eq_none_or_eq_some d.currentUser with hu | ⟨u, hu⟩
  · rw [currentUid_of_none hu]
    exact ⟨h.top, h.alert⟩
  · rw [currentUid_of_some hu, Result.ok_bind]
    have hread := h.silent (silent_observeSingleEvent (userRef u) (.password self) d)
    dsimp only
    split
    · exact hread.presentAlert self rfl
    · have hset : Silent (d.observeSingleEvent (userRef u) (.password self)) _ := silent_setVc
        (v := .changePassword { c with oldPassword := c.oldPasswordTextField }) hself
      split
      · exact (hread.silent hset).presentAlert self rfl
      · refine (hread.silent hset).silent (silent_setVc ?_)
        rw [hset.screens]
        exact hself

/-- A rejected Update leaves the alert with the reason. -/
theorem undisturbed_updateBtnPressed {c : ChangePasswordViewController} {message : String}
    (hself : d.screens[self]? = some .changePassword) (h : d.Undisturbed self)
    (hon : d.onTop self) (hc : c.readFields.rejection = some message) :
    (d.settle (c.updateBtnPressed self d)).Undisturbed self := by
  have hset : Silent d (d.hudShow.setVc self (.changePassword c.readFields)) :=
    (silent_hudShow d).trans (silent_setVc hself)
  have hfirst := (h.silent hset).presentAlert self (a := okAlert "Alert" message) rfl
  have hup : ((d.hudShow.setVc self (.changePassword c.readFields)).presentAlert self
      (okAlert "Alert" message)).hudDismiss.alert = some (okAlert "Alert" message) :=
    if_pos ((hset.onTop_iff self).mpr hon)
  simp only [ChangePasswordViewController.updateBtnPressed, hc, Result.ok_bind,
    Result.pure_eq_ok, settle]
  refine ⟨hfirst.top, ?_⟩
  intro a ha
  rw [presentAlert_alert_of_some hup] at ha
  obtain rfl := Option.some.inj ha
  rfl

/-- What a press does to a screen with nothing but itself on top. -/
theorem press_undisturbed {b : Button} {r : Result Device} (hwf : d.WellFormed)
    (hself : d.screens[self]? = some .changePassword) (h : d.Undisturbed self)
    (hno : ∀ call, ¬ d.Requests (.press b) call)
    (hr : d.press b = some r) :
    (d.settle r).Undisturbed self ∨ self ∉ (d.settle r).stack := by
  cases presses_of_press hr with
  | changePasswordBack hv => exact undisturbed_dismiss hwf h
  | passwordDone hv hshown =>
    obtain ⟨rfl, -⟩ := h.of_visible hself hv
    exact Or.inl (undisturbed_doneBtnPressed hself h)
  | @update i c hv hshown =>
    obtain ⟨rfl, -⟩ := h.of_visible hself hv
    rcases Option.eq_none_or_eq_some c.readFields.rejection with hc | ⟨message, hmessage⟩
    · rcases Option.eq_none_or_eq_some d.currentUser with hu | ⟨u, hu⟩
      · -- after a sign-out by force the press stops the app
        refine Or.inl ?_
        have hstops : c.updateBtnPressed i d = .error .nilUser := by
          simp only [ChangePasswordViewController.updateBtnPressed, hc]
          rw [ChangePasswordViewController.updateStores_of_none (by exact hu)]
          rfl
        rw [hstops]
        exact ⟨h.top, h.alert⟩
      · -- an accepted press would make a request
        exact absurd (.updatePassword hv hshown hc hu) (hno _)
    · exact Or.inl (undisturbed_updateBtnPressed hself h (visible_eq_some.mp hv).1 hmessage)
  | _ =>
    -- a button of a screen that is not the visible one
    have hother := (h.of_visible hself ‹d.visible = some (_, _)›).2
    cases hother

/-- Completions report to other controllers, which are covered. -/
theorem completeAuth_undisturbed {srv srv' : Server} {k : ℕ} {reply : AuthReply}
    {r : Result Device} (hwf : d.WellFormed) (hself : d.screens[self]? = some .changePassword)
    (h : d.Undisturbed self) (hr : completeAuth srv d k reply = some (srv', r)) :
    (d.settle r).Undisturbed self := by
  obtain ⟨call, hcall, -, rfl⟩ := completeAuth_eq_some.mp hr
  have howned := hwf.auths call (List.mem_of_getElem? hcall)
  have h₁ : { d with auths := d.auths.eraseIdx k }.Undisturbed self := ⟨h.top, h.alert⟩
  cases call with
  | signIn i email password =>
    have hi := ne_of_screens hself howned nofun
    cases reply with
    | failure | tokenInvalid =>
      have halert := h₁.silent
        (silent_presentAlert (h₁.not_onTop hi) (okAlert "Alert" "Wrong  email or passwoed"))
      exact halert.silent (silent_hudDismiss _)
    | success u =>
      let d₁ : Device := { d with auths := d.auths.eraseIdx k, currentUser := some u, hud := false }
      have h₂ : d₁.Undisturbed self := ⟨h.top, h.alert⟩
      show (d.settle (d₁.present i (.myMemories {}))).Undisturbed self
      rw [h₂.present hi]
      exact h₂
  | createUser i email password name =>
    have hi := ne_of_screens hself howned nofun
    cases reply with
    | failure | tokenInvalid => exact h₁
    | success u =>
      let d₁ : Device := { d with auths := d.auths.eraseIdx k, currentUser := some u }
      have h₂ : d₁.Undisturbed self := ⟨h.top, h.alert⟩
      have h₃ := h₂.silent
        (silent_presentAlert (h₂.not_onTop hi) RegistrationViewController.congratulations)
      show (d.settle (RegistrationViewController.createUserCompleted i false d₁)).Undisturbed self
      rcases RegistrationViewController.createUserCompleted_of_some (d := d₁) rfl with
        ⟨c, -, heq⟩ | ⟨-, heq⟩
      · rw [heq]
        exact h₃.silent (silent_setValue _ _ .userRow trivial)
      · rw [heq]
        exact h₃
  | updatePassword v password =>
    cases reply with
    | failure => exact h₁
    | tokenInvalid =>
      show (signOutByForce v _).Undisturbed self
      unfold signOutByForce
      split
      · exact ⟨h.top, h.alert⟩
      · exact h₁
    | success u => exact h₁

/-- The completion of a write leaves the password screen on top undisturbed: the alerts of
the other screens need their own screen on top, and are not presented. -/
theorem completeWrite_undisturbed {srv : Server} {k : ℕ} {r : Result Device} (hwf : d.WellFormed)
    (hself : d.screens[self]? = some .changePassword) (h : d.Undisturbed self)
    (hr : completeWrite srv d k = some r) : (d.settle r).Undisturbed self := by
  obtain ⟨w, accepted, hw, -, rfl⟩ := completeWrite_eq_some.mp hr
  have howned := hwf.writes w (List.mem_of_getElem? hw)
  have herase := silent_eraseWrite k srv.db d
  have h₁ := h.silent herase
  cases hcompletion : w.completion with
  | none => exact h₁
  | userRow => exact h₁
  | password => exact h₁
  | memorySaved i =>
    rw [hcompletion] at howned
    have hi := ne_of_screens hself howned nofun
    cases accepted with
    | false => exact h₁
    | true => exact h₁.silent (silent_presentAlert (h₁.not_onTop hi) _)
  | userName i =>
    cases accepted with
    | false => exact h₁
    | true =>
      show (d.settle (getUserNameFromDatabase i _)).Undisturbed self
      rcases Option.eq_none_or_eq_some d.currentUser with hu | ⟨u, hu⟩
      · rw [getUserNameFromDatabase_of_none (herase.user.trans hu)]
        exact ⟨h.top, h.alert⟩
      · rw [getUserNameFromDatabase_of_some (herase.user.trans hu)]
        exact h₁.silent (silent_observeSingleEvent _ _ _)

/-- **A change-password screen on top stays there**, or is gone for good, in every
step that does not change a password with it. -/
theorem step_undisturbed {srv srv' : Server} {e : Event} (hd : d.Inv)
    (hself : d.screens[self]? = some .changePassword) (h : d.Undisturbed self)
    (hno : ∀ call, ¬ d.Requests e call) (hs : step srv d e = some (srv', d')) :
    d'.Undisturbed self ∨ self ∉ d'.stack := by
  cases steps_of_step hs with
  | typed ht =>
    obtain ⟨i, v, v', -, -, rfl⟩ := typed_eq_some.mp ht
    exact Or.inl ⟨h.top, h.alert⟩
  | press hr => exact press_undisturbed hd.wf hself h hno hr
  | alertOk hr =>
    obtain ⟨a, ha, hr⟩ := alertOk_eq_some.mp hr
    rw [h.alert a ha] at hr
    obtain rfl := Option.some.inj hr
    exact Or.inl ⟨h.top, nofun⟩
  | alertCancel hcancel =>
    obtain ⟨-, rfl⟩ := alertCancel_eq_some.mp hcancel
    exact Or.inl ⟨h.top, nofun⟩
  | authCompleted hr => exact Or.inl (completeAuth_undisturbed hd.wf hself h hr)
  | writeDecided hw => exact Or.inl (h.silent (silent_decideWrite hw))
  | writeCompleted hr => exact Or.inl (completeWrite_undisturbed hd.wf hself h hr)
  | serverPush => exact Or.inl (h.silent (silent_receive srv.db d))
  | readAnswered hr => exact Or.inl (h.silent (silent_answerRead hr))
  | readCompleted hr => exact Or.inl (h.silent (silent_completeRead hr))
  | childAdded hr =>
    obtain ⟨c, o, key, snapshot, hc, ho, hq, rfl⟩ := childAdded_eq_some.mp hr
    unfold MyMemoriesViewController.childAdded
    cases Memory.ofSnapshot snapshot with
    | error f => exact Or.inl ⟨h.top, h.alert⟩
    | ok m => exact Or.inl ⟨h.top, h.alert⟩

/-- A controller stays of its class. -/
theorem Assigns.screen {e : Event} {v v' : ViewController} (h : d.Assigns e i v v') :
    v'.screen = v.screen := by
  cases h with
  | typed hv ht => exact Typing.apply_screen ht
  | childAdded ho hq hm => simp [ViewController.screen, MyMemoriesViewController.reloadData, ho]
  | _ => rfl

theorem Effect.screens_kept {e : Event} {s : Screen} (h : d.Effect e d')
    (hs : d.screens[i]? = some s) : d'.screens[i]? = some s := by
  rw [screens_getElem?] at hs
  obtain ⟨v, hv, rfl⟩ := Option.map_eq_some_iff.mp hs
  obtain ⟨v', hv', v₁, hassign, hbecomes⟩ := h.kept hv
  have hv₁ : v₁.screen = v.screen := by
    rcases hassign with rfl | hassign
    · rfl
    · exact hassign.screen
  rw [screens_getElem?, hv', Option.map_some, ← hv₁]
  rcases hbecomes with ⟨rfl, -⟩ | rfl
  · rfl
  · rw [screen_refresh]

/-- What has left the stack does not come back. -/
theorem Effect.not_mem_stack {e : Event} (h : d.Effect e d') (hlt : self < d.vcs.length)
    (hself : self ∉ d.stack) : self ∉ d'.stack := by
  intro hmem
  rcases h.stack self hmem with hold | hnew
  · exact hself hold
  · exact absurd hnew hlt.ne

end Device

/-! ## Calls, acceptances and sessions in a run -/

/-- The step calls `updatePassword` for the account `u`. -/
def CallsUpdatePassword (w : World) (e : ℕ × Event) (u : Uid) : Prop :=
  ∃ w' p, app.step w e = some w' ∧
    (w'.device e.1).auths = (w.device e.1).auths ++ [.updatePassword u p]

/-- Done is pressed on the screen `self` with the password an earlier read left:
`showHiddenObjects` is executed. -/
def AcceptsPassword (i : ℕ) (self : VcId) (w : World) (e : ℕ × Event) : Prop :=
  e = (i, .press .passwordDoneBtnPressed) ∧
    ∃ c, (w.device i).visible = some (self, .changePassword c) ∧ c.accepts

/-- The session of device `i` ends, or another begins. -/
def ChangesSession (i : ℕ) (w : World) (e : ℕ × Event) : Prop :=
  OpensSession i w e ∨ (e.1 = i ∧ (w.device i).label e.2 = .logOut false)

/-- After the run `es` from `w₀`, a call of `updatePassword` for `u` on device `i`
has an authorisation of its own: an accepting Done on the device, in the same
session and after the previous call for `u` on any device. -/
def Authorised (w₀ : World) (es : List (ℕ × Event)) (i : ℕ) (u : Uid) : Prop :=
  ∃ before e between self v v', es = before ++ e :: between ∧ app.run w₀ before = some v ∧
    AcceptsPassword i self v e ∧ app.step v e = some v' ∧
    app.Always (fun x f => ¬ ChangesSession i x f ∧ ¬ CallsUpdatePassword x f u) v' between

/-- Every call of `updatePassword` in the run is authorised. -/
def EachChangeAuthorised (w₀ : World) (es : List (ℕ × Event)) : Prop :=
  ∀ before e after w u, es = before ++ e :: after → app.run w₀ before = some w →
    CallsUpdatePassword w e u → Authorised w₀ before e.1 u

/-- What can come between the Done and the Update of the screen `self` of device
`i`, used by `u`. -/
inductive Interferes (i : ℕ) (self : VcId) (u : Uid) (w : World) (e : ℕ × Event) : Prop where
  /-- the screen has changed a password already -/
  | again {v : ViewController} {u' : Uid} (hi : e.1 = i)
      (hv : (w.device i).visible = some (self, v)) (h : CallsUpdatePassword w e u')
  /-- a sign-in or a registration of the device completes with success -/
  | session (h : OpensSession i w e)
  /-- another device changes the password of the account -/
  | elsewhere (hi : e.1 ≠ i) (h : CallsUpdatePassword w e u)

/-- Between an accepting Done on a screen and a change of the password with that
screen, nothing interferes. -/
def EachScreenOnce (w₀ : World) (es : List (ℕ × Event)) : Prop :=
  ∀ before e between f after i self v v' w x u, es = before ++ e :: between ++ f :: after →
    app.run w₀ before = some v → AcceptsPassword i self v e → app.step v e = some v' →
    app.run v' between = some w → f.1 = i → (w.device i).visible = some (self, x) →
    CallsUpdatePassword w f u → app.Always (fun y g => ¬ Interferes i self u y g) v' between

theorem CallsUpdatePassword.requests {w : World} {e : ℕ × Event} {u : Uid}
    (h : CallsUpdatePassword w e u) : ∃ p, (w.device e.1).Requests e.2 (.updatePassword u p) := by
  obtain ⟨w', p, hs, hauths⟩ := h
  have hnew := (step_effect (app_step_eq_some.mp hs).1).auths
  rw [hauths] at hnew
  exact ⟨p, hnew.of_append _ (List.mem_singleton_self _)⟩

/-! ## The flags of a screen -/

/-- The instance is a change-password screen that shows its Update button. -/
def Device.ShowsUpdate (d : Device) (self : VcId) : Prop :=
  ∃ c, d.vcs[self]? = some (.changePassword c) ∧ c.updateBtnIsHidden = false

theorem Typing.apply_changePassword {t : Typing} {v : ViewController}
    {c' : ChangePasswordViewController} (h : t.apply v = some (.changePassword c')) :
    ∃ c, v = .changePassword c ∧ c'.updateBtnIsHidden = c.updateBtnIsHidden := by
  unfold Typing.apply at h
  split at h <;> try cases h
  all_goals
    split at h <;> cases h
    exact ⟨_, rfl, rfl⟩

/-- Only an accepting Done shows the button. -/
theorem step_showsUpdate {srv srv' : Server} {d d' : Device} {e : Event} {self : VcId}
    (hs : step srv d e = some (srv', d')) (h : d'.ShowsUpdate self) :
    d.ShowsUpdate self ∨ (e = .press .passwordDoneBtnPressed ∧
      ∃ c, d.visible = some (self, .changePassword c) ∧ c.accepts) := by
  obtain ⟨c', hc', hshown⟩ := h
  have hrefresh : ∀ {view : Option Json} {v : ViewController},
      .changePassword c' = v.refresh view → v = .changePassword c' := by
    intro view v hv
    cases v <;> cases hv
    rfl
  rcases (step_effect hs).vcs self _ hc' with ⟨v, hv, v₁, hassign, hbecomes⟩ | ⟨-, v, hopens, heq⟩
  · have hv₁ : v₁ = .changePassword c' := by
      rcases hbecomes with ⟨heq, -⟩ | heq
      · exact heq.symm
      · exact hrefresh heq
    subst hv₁
    rcases hassign with rfl | hassign
    · exact Or.inl ⟨c', hv, hshown⟩
    · cases hassign with
      | typed hvis ht =>
        obtain ⟨c, rfl, hsame⟩ := Typing.apply_changePassword ht
        exact Or.inl ⟨c, hv, hsame ▸ hshown⟩
      | passwordRejected hvis => exact Or.inl ⟨_, hv, hshown⟩
      | passwordAccepted hvis hc => exact Or.inr ⟨rfl, _, hvis, hc⟩
      | update hvis hbefore => exact Or.inl ⟨_, hv, hbefore⟩
      | passwordRead userPassword => exact Or.inl ⟨_, hv, hshown⟩
  · obtain rfl := hrefresh heq
    cases hopens with
    | initial hinit =>
      obtain rfl : c' = _ := hinit
      cases hshown

/-! ## Between Done and Update -/

section Segment

variable {w w' : World} {i : ℕ} {self : VcId} {u : Uid}

theorem run_not_mem_stack {es : List (ℕ × Event)} (hlt : self < (w.device i).vcs.length)
    (hself : self ∉ (w.device i).stack) (hr : app.run w es = some w') :
    self ∉ (w'.device i).stack := by
  refine (run_device (Q := fun d => self < d.vcs.length ∧ self ∉ d.stack) ?_ ⟨hlt, hself⟩ hr).2
  rintro srv d e srv' d' ⟨hlt, hself⟩ hs
  have heffect := step_effect hs
  exact ⟨hlt.trans_le heffect.length, heffect.not_mem_stack hlt hself⟩

/-- A request made while the screen is on top is its own. -/
theorem calls_of_requests {e : Event} {call : AuthCall}
    (hself : (w.device i).screens[self]? = some .changePassword)
    (h : (w.device i).Undisturbed self) (hreq : (w.device i).Requests e call)
    (hs : app.step w (i, e) = some w') :
    ∃ v u', (w.device i).visible = some (self, v) ∧ CallsUpdatePassword w (i, e) u' := by
  cases hreq with
  | signIn hv => cases (h.of_visible hself hv).2
  | createUser hv hc => cases (h.of_visible hself hv).2
  | updatePassword hv hshown hc hu =>
    obtain ⟨rfl, -⟩ := h.of_visible hself hv
    have hauths := (step_update_accepted hv hu hc (app_step_eq_some.mp hs).1).2.1
    exact ⟨_, _, hv, w', _, hs, hauths⟩

/-- **Between Done and the first Update.** With nothing interfering, a screen that
is left alone and still on the stack at the end has been on top all the time; so
nobody has logged out and no other screen has changed a password. -/
theorem always_undisturbed {es : List (ℕ × Event)} (hinv : ∀ j, (w.device j).Inv)
    (hself : (w.device i).screens[self]? = some .changePassword)
    (h : (w.device i).Undisturbed self) (hr : app.run w es = some w')
    (hend : self ∈ (w'.device i).stack)
    (hquiet : app.Always (fun x e => ¬ Interferes i self u x e) w es) :
    app.Always (fun x e => ¬ ChangesSession i x e ∧ ¬ CallsUpdatePassword x e u) w es := by
  induction es generalizing w with
  | nil => trivial
  | cons e es ih =>
    obtain ⟨j, e⟩ := e
    obtain ⟨w₁, h₁, h₂⟩ := (app.run_cons_eq_some).mp hr
    obtain ⟨hno, hrest⟩ := hquiet
    obtain ⟨hstep, hne⟩ := app_step_eq_some.mp h₁
    by_cases hj : j = i
    · subst hj
      have hnone : ∀ call, ¬ (w.device j).Requests e call := by
        intro call hreq
        obtain ⟨v, u', hv, hcall⟩ := calls_of_requests hself h hreq h₁
        exact hno (.again rfl hv hcall)
      refine ⟨⟨?_, ?_⟩, ?_⟩
      · rintro (hopens | ⟨-, hlabel⟩)
        · exact hno (.session hopens)
        · exact h.label_ne e false hlabel
      · intro hcall
        obtain ⟨p, hreq⟩ := hcall.requests
        exact hnone _ hreq
      · intro w₂ hw₂
        obtain rfl := Option.some.inj (h₁.symm.trans hw₂)
        have hlt : self < (w.device j).vcs.length := by
          rw [← length_screens]
          exact (List.getElem?_eq_some_iff.mp hself).1
        rcases step_undisturbed (hinv j) hself h hnone hstep with hleft | hgone
        · exact ih (app_step_inv hinv h₁) ((step_effect hstep).screens_kept hself) hleft h₂
            (hrest w₁ h₁)
        · have hlt₁ := hlt.trans_le (step_effect hstep).length
          exact absurd hend (run_not_mem_stack hlt₁ hgone h₂)
    · have hsame : w₁.device i = w.device i := hne i (Ne.symm hj)
      refine ⟨⟨?_, ?_⟩, ?_⟩
      · rintro (⟨hi, -⟩ | ⟨hi, -⟩)
        · exact hj hi
        · exact hj hi
      · exact fun hcall => hno (.elsewhere hj hcall)
      · intro w₂ hw₂
        obtain rfl := Option.some.inj (h₁.symm.trans hw₂)
        exact ih (app_step_inv hinv h₁) (hsame ▸ hself) (hsame ▸ h) h₂ (hrest w₁ h₁)

end Segment

/-- **Every password change has its own authorisation**, in every run from the
start in which, between the Done and the Update of a screen, that screen has not
changed a password already, no sign-in or registration has completed on the
device, and no other device has changed the password of the account. -/
theorem each_change_authorised {w₀ : World} {es : List (ℕ × Event)} (hw : app.init w₀)
    (honce : EachScreenOnce w₀ es) : EachChangeAuthorised w₀ es := by
  rintro before ⟨i, e⟩ after w u rfl hr hcall
  obtain ⟨p, hreq⟩ := hcall.requests
  cases hreq with
  | @updatePassword self c _ hv hshown hc hu =>
    have hshows : (w.device i).ShowsUpdate self := ⟨c, (visible_eq_some.mp hv).2, hshown⟩
    -- an accepting Done of this screen has shown the button
    have hcause := app.exists_cause (P := fun x => (x.device i).ShowsUpdate self)
      (C := AcceptsPassword i self) ?_ hr hshows
    · rcases hcause with ⟨c₀, hc₀, -⟩ | ⟨b, f, between, v, v', rfl, hb, haccepts, hf, hbetween⟩
      · obtain ⟨user, hlaunch⟩ := hw i
        rw [hlaunch] at hc₀
        cases List.mem_singleton.mp (List.mem_of_getElem? hc₀)
      · have hquiet := honce b f between _ after i self v v' w _ u rfl hb haccepts hf hbetween
          rfl hv hcall
        refine ⟨b, f, between, self, v, v', rfl, hb, haccepts, hf, ?_⟩
        obtain ⟨rfl, c₀, hv₀, hc₀⟩ := haccepts
        have hinv := reachable_inv ⟨w₀, b, hw, hb⟩
        have hend : self ∈ (w.device i).stack :=
          List.mem_of_mem_head? (visible_eq_some.mp hv).1.1
        have hself := screen_of_visible hv₀
        have halone := undisturbed_of_visible hv₀
        have hstep := (app_step_eq_some.mp hf).1
        have hnone : ∀ call, ¬ (v.device i).Requests (.press .passwordDoneBtnPressed) call := by
          intro call hreq
          cases hreq
        rcases step_undisturbed (hinv i) hself halone hnone hstep with hleft | hgone
        · exact always_undisturbed (app_step_inv hinv hf)
            ((step_effect hstep).screens_kept hself) hleft hbetween hend hquiet
        · have hlt : self < (v'.device i).vcs.length := by
            have hlt₀ := (List.getElem?_eq_some_iff.mp (visible_eq_some.mp hv₀).2).1
            exact hlt₀.trans_le (step_effect hstep).length
          exact absurd hend (run_not_mem_stack hlt hgone hbetween)
    · rintro x ⟨j, g⟩ x' hs hx'
      obtain ⟨hstep, hne⟩ := app_step_eq_some.mp hs
      by_cases hj : i = j
      · subst hj
        rcases step_showsUpdate hstep hx' with hx | ⟨rfl, c₀, hv₀, hc₀⟩
        · exact Or.inl hx
        · exact Or.inr ⟨rfl, c₀, hv₀, hc₀⟩
      · rw [hne i hj] at hx'
        exact Or.inl hx'

/-! ## Runs of `ann` -/

theorem eq_update_of_requests {d : Device} {e : Event} {u : Uid} {p : String}
    (h : d.Requests e (.updatePassword u p)) : e = .press .updateBtnPressed := by
  cases h
  rfl

/-- A run with a single Update, its last event, and no sign-in once a Done has
been pressed, uses each screen once. -/
theorem eachScreenOnce_of_last {w₀ w₁ : World} {pre post : List (ℕ × Event)} {f : ℕ × Event}
    (hpre : app.run w₀ pre = some w₁)
    (hdone : ∀ e ∈ pre, e.2 ≠ .press .passwordDoneBtnPressed)
    (hupdate : ∀ e ∈ pre ++ post, e.2 ≠ .press .updateBtnPressed)
    (hlabel : app.Always (fun x e => (x.device e.1).label e.2 = .ui) w₁ post) :
    EachScreenOnce w₀ (pre ++ post ++ [f]) := by
  intro before e between g after i self v v' w x u hes hb haccepts hstep hbetween hi hv hcall
  obtain ⟨p, hreq⟩ := hcall.requests
  have hg := eq_update_of_requests hreq
  rcases List.eq_nil_or_concat after with rfl | ⟨after, z, rfl⟩
  · have hsplit : pre ++ post = before ++ e :: between := (List.append_inj' hes rfl).1
    -- the Done is one of `post`
    obtain ⟨a, rfl, rfl⟩ : ∃ a, before = pre ++ a ∧ post = a ++ e :: between := by
      rcases List.append_eq_append_iff.mp hsplit with ⟨a, hbefore, hpost⟩ | ⟨c, hstart, hrest⟩
      · exact ⟨a, hbefore, hpost⟩
      · cases c with
        | nil => exact ⟨[], by simpa using hstart.symm, hrest.symm⟩
        | cons y c =>
          obtain rfl : e = y := (List.cons.inj hrest).1
          exact absurd (congrArg Prod.snd haccepts.1) (hdone e (by simp [hstart]))
    have ha := app.run_rest hb hpre
    refine app.always_mono ?_ ((app.always_append hlabel ha).2 v' hstep)
    intro y h hh hui hinterferes
    have hother : h.2 ≠ .press .updateBtnPressed := hupdate h (by simp [hh])
    cases hinterferes with
    | again hi hv hcall =>
      obtain ⟨p, hreq⟩ := hcall.requests
      exact hother (eq_update_of_requests hreq)
    | session hopens =>
      obtain ⟨rfl, u, hu⟩ := hopens
      rw [hui] at hu
      cases hu
    | elsewhere hi hcall =>
      obtain ⟨p, hreq⟩ := hcall.requests
      exact hother (eq_update_of_requests hreq)
  · have hes' : pre ++ post ++ [f] = (before ++ e :: between ++ g :: after) ++ [z] := by
      simpa using hes
    have hmem : g ∈ pre ++ post := by
      rw [(List.append_inj' hes' rfl).1]
      simp
    exact absurd hg (hupdate g hmem)

/-- `ann` types the new password twice. -/
def annTypes : List Event :=
  annVerifies ++ [.typed (.newPassword "Secret789" "Secret789")]

set_option maxRecDepth 10000 in
/-- She presses Update once. -/
theorem each_change_authorised_ann :
    EachChangeAuthorised (World.start ⟨[ann], annsRow⟩)
      (alone (annTypes ++ [.press .updateBtnPressed])) := by
  refine each_change_authorised (init_start _) ?_
  have hquiet : (app.run (World.start ⟨[ann], annsRow⟩) (alone (annTypes.take 3))).map (fun w =>
      decide (app.Always (fun x e => (x.device e.1).label e.2 = .ui) w
        (alone (annTypes.drop 3)))) = some true := by
    decide
  obtain ⟨w₁, hw₁, hquiet⟩ := Option.map_eq_some_iff.mp hquiet
  show EachScreenOnce _
    (alone (annTypes.take 3) ++ alone (annTypes.drop 3) ++ [(0, .press .updateBtnPressed)])
  refine eachScreenOnce_of_last hw₁ ?_ ?_ (of_decide_eq_true hquiet)
  · simp [annTypes, annVerifies, alone]
  · simp [annTypes, annVerifies, alone]

/-- A call after which no Done is pressed leaves nothing authorised. -/
theorem not_authorised_of_calls {w₀ w : World} {es rest : List (ℕ × Event)} {f : ℕ × Event}
    {i : ℕ} {u : Uid} (hr : app.run w₀ es = some w) (hcall : CallsUpdatePassword w f u)
    (hrest : ∀ e ∈ f :: rest, e.2 ≠ .press .passwordDoneBtnPressed) :
    ¬ Authorised w₀ (es ++ f :: rest) i u := by
  rintro ⟨before, e, between, self, v, v', hes, hb, haccepts, hstep, halways⟩
  have he : e.2 = .press .passwordDoneBtnPressed := congrArg Prod.snd haccepts.1
  rcases List.append_eq_append_iff.mp hes with ⟨a, -, hsplit⟩ | ⟨c, rfl, hsplit⟩
  · exact hrest e (by simp [hsplit]) he
  · cases c with
    | nil => exact hrest e (by simp [← (List.cons.inj hsplit).1]) he
    | cons y c =>
      -- the Done is before the call, so the call comes in between
      obtain ⟨rfl, rfl⟩ := List.cons.inj hsplit
      obtain ⟨v₂, hv₂, hr⟩ := app.run_middle hr hb
      obtain rfl := Option.some.inj (hstep.symm.trans hv₂)
      exact (app.always_append halways hr).1.2 hcall

/-- She presses Update, OK on the success alert, goes back from the profile to the
screen, and presses Update again. -/
def annReturns : List Event :=
  [.press .updateBtnPressed, .alertOk "" false, .press .backBtnPressed]

/-- What the call adds to the pending requests of device 0. -/
theorem exists_call (es : List Event) (calls : List AuthCall) (p : String)
    (h : ((app.run (World.start ⟨[ann], annsRow⟩) (alone es)).bind fun w =>
      (app.step w (0, .press .updateBtnPressed)).map fun w' =>
        ((w.device 0).auths, (w'.device 0).auths)) =
      some (calls, calls ++ [.updatePassword ann.uid p])) :
    ∃ w, app.run (World.start ⟨[ann], annsRow⟩) (alone es) = some w ∧
      CallsUpdatePassword w (0, .press .updateBtnPressed) ann.uid := by
  obtain ⟨w, hw, h⟩ := Option.bind_eq_some_iff.mp h
  obtain ⟨w', hw', h⟩ := Option.map_eq_some_iff.mp h
  obtain ⟨hbefore, hafter⟩ := Prod.mk.inj h
  exact ⟨w, hw, w', p, hw', by rw [hafter, hbefore]⟩

set_option maxRecDepth 10000 in
theorem second_change_unauthorised :
    ¬ ∀ (w₀ : World) (es : List (ℕ × Event)), app.init w₀ → EachChangeAuthorised w₀ es := by
  intro h
  obtain ⟨w₁, hw₁, hfirst⟩ := exists_call annTypes [] "Secret789" (by decide)
  obtain ⟨w₂, hw₂, hsecond⟩ := exists_call (annTypes ++ annReturns)
    [.updatePassword ann.uid "Secret789"] "Secret789" (by decide)
  have hauthorised := h _ (alone (annTypes ++ annReturns ++ [.press .updateBtnPressed]))
    (init_start _) (alone (annTypes ++ annReturns)) _ [] w₂ ann.uid rfl hw₂ hsecond
  have hnodone : ∀ e ∈ alone annReturns, e.2 ≠ .press .passwordDoneBtnPressed := by
    simp [annReturns, alone]
  exact not_authorised_of_calls hw₁ hfirst hnodone hauthorised

end DailyDiary
