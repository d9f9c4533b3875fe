/-
The progress HUD: one flag for the whole app, raised first thing by the handlers of
Log In, Register, the Done of a memory, and Update password.

The HUD is justified while a request of such a handler is pending or the alert that
reports its success is up. `Keeps` says what a call of the SDK or of UIKit leaves of
that, so the handlers that do not touch the HUD are a few lines each. `Strands` lists
the branches that leave it on with nothing left to take it down: the rejected inputs of
Log In and Register, and the answers that are not followed by an alert.
`hud_justified_iff` is that these are all.
-/
import DailyDiary.Effects

set_option autoImplicit false

namespace DailyDiary

/-! ## What the HUD waits for -/

/-- The request is started by a handler that shows the HUD. -/
def AuthCall.showsHud : AuthCall → Bool
  | .signIn _ _ _ | .createUser _ _ _ _ => true
  | .updatePassword _ _ => false

/-- The write is started by a handler that shows the HUD, or by the completion block of
one; the user name and a deletion are not. -/
def Completion.showsHud : Completion → Bool
  | .userRow | .memorySaved _ | .password => true
  | .none | .userName _ => false

/-- The alerts that report the success of such a request. -/
def Alert.reportsSuccess (a : Alert) : Bool :=
  a = RegistrationViewController.congratulations ∨ a = AddMemoryViewController.memoryIsSaved ∨
    a = ChangePasswordViewController.passwordUpdated

namespace Device

/-- A request of a handler that shows the HUD is pending. -/
def Busy (d : Device) : Prop :=
  (∃ call ∈ d.auths, call.showsHud = true) ∨ ∃ w ∈ d.writes, w.completion.showsHud = true

instance (d : Device) : Decidable d.Busy :=
  inferInstanceAs (Decidable (_ ∨ _))

/-- The alert that reports the success of such a request waits for its OK. -/
def Announces (d : Device) : Prop :=
  ∃ a ∈ d.alert, a.reportsSuccess = true

instance (d : Device) : Decidable d.Announces :=
  inferInstanceAs (Decidable (∃ _ ∈ _, _))

/-- The HUD is on screen only while something is in progress. -/
def HudJustified (d : Device) : Prop :=
  d.hud = true → d.Busy ∨ d.Announces

instance (d : Device) : Decidable d.HudJustified :=
  inferInstanceAs (Decidable (_ → _))

/-- The branches that leave the HUD on: a press of Log In without an e-mail or a
password, or of Register with texts it rejects, while no request is pending; and the
answer to the last pending request, while the HUD is on and no success is announced,
when the block of that answer announces none. -/
inductive Strands (d : Device) : Event → Prop where
  | logIn {i : VcId} {c : LogInViewController} (hv : d.visible = some (i, .logIn c))
      (hempty : c.userEmailTextField = "" ∨ c.userPasswordTextField = "") (hidle : ¬ d.Busy) :
      Strands d (.press .logInBtnPressed)
  | register {i : VcId} {c : RegistrationViewController}
      (hv : d.visible = some (i, .registration c)) (hrejected : c.readFields.rejection ≠ none)
      (hidle : ¬ d.Busy) : Strands d (.press .registerBtnPressed)
  | createUser {k : ℕ} {i : VcId} {email password userName : String}
      (hcall : d.auths[k]? = some (.createUser i email password userName))
      (hhud : d.hud = true) (hlast : ¬ { d with auths := d.auths.eraseIdx k }.Busy)
      (hquiet : ¬ d.Announces) : Strands d (.authCompleted k .failure)
  | write {k : ℕ} {w : Write} {accepted : Bool} (hw : d.writes[k]? = some w)
      (hverdict : w.verdict = some accepted)
      (hcompletion : w.completion = .userRow ∨ w.completion = .password ∨
        ∃ i, w.completion = .memorySaved i ∧ (accepted = false ∨ ¬ d.onTop i))
      (hhud : d.hud = true) (hlast : ¬ { d with writes := d.writes.eraseIdx k }.Busy)
      (hquiet : ¬ d.Announces) : Strands d (.writeCompleted k)

/-! ## What the calls leave of it -/

/-- `d'` shows the HUD only if `d` does, and whatever it waits for in `d` it still waits
for in `d'`. -/
structure Keeps (d d' : Device) : Prop where
  hud : d'.hud = true → d.hud = true
  busy : d.Busy → d'.Busy
  announces : d.Announces → d'.Announces
  /-- the alert of Update password comes up after the HUD is dismissed -/
  updated : d'.hud = true → d'.alert = some ChangePasswordViewController.passwordUpdated →
    d.alert = some ChangePasswordViewController.passwordUpdated

namespace Keeps

variable {d d' d'' : Device}

theorem of_eq (hhud : d'.hud = d.hud) (hauths : d'.auths = d.auths) (hwrites : d'.writes = d.writes)
    (halert : d'.alert = d.alert) : d.Keeps d' where
  hud := hhud ▸ id
  busy := by
    unfold Busy
    rw [hauths, hwrites]
    exact id
  announces := by
    unfold Announces
    rw [halert]
    exact id
  updated := fun _ ha => halert ▸ ha

theorem refl (d : Device) : d.Keeps d :=
  of_eq rfl rfl rfl rfl

theorem trans (h : d.Keeps d') (h' : d'.Keeps d'') : d.Keeps d'' where
  hud := fun hhud => h.hud (h'.hud hhud)
  busy := fun hb => h'.busy (h.busy hb)
  announces := fun ha => h'.announces (h.announces ha)
  updated := fun hhud ha => h.updated (h'.hud hhud) (h'.updated hhud ha)

end Keeps

variable {d d₁ d₂ d' : Device} {self : VcId} {srv srv' : Server} {e : Event}

theorem Busy.request (h : d.Busy) (call : AuthCall) : (d.request call).Busy :=
  h.imp (fun ⟨c, hc, hshows⟩ => ⟨c, List.mem_append_left _ hc, hshows⟩) id

theorem Busy.setValue (h : d.Busy) (ref : Ref) (value : Option Json) (completion : Completion) :
    (d.setValue ref value completion).Busy :=
  h.imp id fun ⟨w, hw, hshows⟩ => ⟨w, List.mem_append_left _ hw, hshows⟩

theorem busy_request {call : AuthCall} (h : call.showsHud = true) (d : Device) :
    (d.request call).Busy :=
  Or.inl ⟨call, List.mem_concat_self .., h⟩

theorem busy_setValue {completion : Completion} (h : completion.showsHud = true) (ref : Ref)
    (value : Option Json) (d : Device) : (d.setValue ref value completion).Busy :=
  Or.inr ⟨_, List.mem_concat_self .., h⟩

theorem keeps_setVc (i : VcId) (v : ViewController) (d : Device) : d.Keeps (d.setVc i v) :=
  .of_eq rfl rfl rfl rfl

theorem keeps_setValue (ref : Ref) (value : Option Json) (completion : Completion) (d : Device) :
    d.Keeps (d.setValue ref value completion) where
  hud := id
  busy := fun hb => hb.setValue ref value completion
  announces := id
  updated := fun _ ha => ha

theorem keeps_hudDismiss (d : Device) : d.Keeps d.hudDismiss where
  hud := nofun
  busy := id
  announces := id
  updated := nofun

theorem keeps_presentAlert {a : Alert} (ha : a ≠ ChangePasswordViewController.passwordUpdated)
    (d : Device) : d.Keeps (d.presentAlert self a) where
  hud := id
  busy := id
  announces := by
    rintro ⟨b, hb, hsuccess⟩
    exact ⟨b, presentAlert_alert_of_some hb, hsuccess⟩
  updated := by
    intro _ hupdated
    by_cases hon : d.onTop self
    · simp [presentAlert, hon, ha] at hupdated
    · simpa [presentAlert, hon] using hupdated

/-- An alert that does not report a success can be closed. -/
theorem keeps_closeAlert (h : ¬ d.Announces) : d.Keeps { d with alert := none } where
  hud := id
  busy := id
  announces := fun hann => absurd hann h
  updated := nofun

theorem keeps_viewWillAppear (i : VcId) (d : Device) : d.Keeps (d.viewWillAppear i) := by
  unfold viewWillAppear
  split
  · exact keeps_setVc i _ d
  · exact .refl d

theorem keeps_dismiss (d : Device) : d.Keeps d.dismiss := by
  unfold dismiss
  split
  · next j i rest hstack =>
    have hpop : d.Keeps { d with stack := i :: rest } := .of_eq rfl rfl rfl rfl
    exact hpop.trans (keeps_viewWillAppear i _)
  · exact .refl d

/-- Loading a controller starts at most a read. -/
theorem keeps_viewDidLoad {v v' : ViewController} (h : d.viewDidLoad self v = .ok (v', d')) :
    d.Keeps d' := by
  cases v with
  | myMemories c =>
    obtain ⟨c', -, hrest⟩ := Result.bind_eq_ok.mp h
    obtain ⟨-, rfl⟩ := Prod.mk.inj (Except.ok.inj hrest)
    exact .refl d
  | myProfile c =>
    obtain ⟨d₃, hd₃, hrest⟩ := Result.bind_eq_ok.mp h
    obtain ⟨u, -, hread⟩ := Result.bind_eq_ok.mp hd₃
    obtain rfl := Except.ok.inj hread
    obtain ⟨-, rfl⟩ := Prod.mk.inj (Except.ok.inj hrest)
    exact .of_eq rfl rfl rfl rfl
  | _ =>
    simp only [viewDidLoad, Result.pure_eq_ok, Except.ok.injEq, Prod.mk.injEq] at h
    obtain ⟨-, rfl⟩ := h
    exact .refl d

/-- A handler that stops the app leaves the HUD as it is. -/
def KeepsResult (d : Device) : Result Device → Prop
  | .ok d' => d.Keeps d'
  | .error _ => True

theorem KeepsResult.settle {r : Result Device} (h : d.KeepsResult r) : d.Keeps (d.settle r) := by
  cases r with
  | ok d' => exact h
  | error f => exact .of_eq rfl rfl rfl rfl

theorem keeps_present {v : ViewController} (h : d.Keeps d₁) : d.KeepsResult (d₁.present self v) := by
  unfold present
  split
  · cases hload : d₁.viewDidLoad d₁.vcs.length v with
    | error f => trivial
    | ok r =>
      obtain ⟨v', d₂⟩ := r
      exact (h.trans (keeps_viewDidLoad hload)).trans (.of_eq rfl rfl rfl rfl)
  · exact h

/-! ## The handlers that leave the HUD to itself -/

theorem keeps_setVc_presentAlert {i : VcId} {v : ViewController} {a : Alert}
    (ha : a ≠ ChangePasswordViewController.passwordUpdated) :
    d.Keeps ((d.setVc i v).presentAlert self a) :=
  (keeps_setVc i v d).trans (keeps_presentAlert ha _)

/-- Apart from the four buttons that show a HUD, no press shows one, and what a shown HUD
waits for is still awaited afterwards. -/
theorem keeps_press {b : Button} {r : Result Device} (hr : d.press b = some r)
    (hlogIn : b ≠ .logInBtnPressed) (hregister : b ≠ .registerBtnPressed)
    (hdone : ∀ draws, b ≠ .memoryDoneBtnPressed draws) (hupdate : b ≠ .updateBtnPressed) :
    d.KeepsResult r := by
  cases presses_of_press hr with
  -- the four handlers that show the HUD
  | logIn hv => exact absurd rfl hlogIn
  | register hv => exact absurd rfl hregister
  | memoryDone hv => exact absurd rfl (hdone _)
  | update hv hshown => exact absurd rfl hupdate
  -- a screen is dismissed
  | already hv => exact keeps_dismiss d
  | forgetPasswordBack hv => exact keeps_dismiss d
  | showMemoryBack hv => exact keeps_dismiss d
  | myProfileBack hv => exact keeps_dismiss d
  | imagePickerFinished hv => exact keeps_dismiss d
  | changePasswordBack hv => exact keeps_dismiss d
  -- an alert is presented, which is never the one of Update password
  | resend hv => exact keeps_presentAlert (by decide) d
  | delete hv => exact keeps_presentAlert (by decide) d
  | updateUserName hv => exact keeps_presentAlert (by decide) d
  | logOut hv => exact keeps_presentAlert (by decide) d
  | tapGesture hv => exact keeps_presentAlert (by decide) d
  | @reset i c hv =>
    unfold ForgetPasswordViewController.resetBtnPressed
    dsimp only
    split
    · -- without an e-mail both alerts are asked for
      exact (keeps_setVc_presentAlert (by decide)).trans (keeps_presentAlert (by decide) _)
    · exact keeps_setVc_presentAlert (by decide)
  | @confirmPin i c hv =>
    unfold ConfirmPINViewController.confirmPinBtnPressed
    dsimp only
    split
    · exact keeps_setVc_presentAlert (by decide)
    · split
      · exact keeps_setVc_presentAlert (by decide)
      · exact keeps_present (keeps_setVc i _ d)
  | @recreateDone i c hv =>
    unfold RecreatePasswordViewController.doneBtnPresed
    dsimp only
    split
    · exact keeps_setVc_presentAlert (by decide)
    · split
      · exact keeps_setVc_presentAlert (by decide)
      · exact keeps_setVc_presentAlert (by decide)
  | @didSelectRow row i c hv hrow =>
    unfold MyMemoriesViewController.didSelectRowAt
    split
    · exact keeps_present (.refl d)
    · trivial
  | @passwordDone i c hv hshown =>
    unfold ChangePasswordViewController.doneBtnPressed
    cases hu : d.currentUid with
    | error f => trivial
    | ok u =>
      rw [Result.ok_bind]
      -- the read is started before the text is looked at
      have hread : d.Keeps (d.observeSingleEvent (userRef u) (.password i)) :=
        .of_eq rfl rfl rfl rfl
      dsimp only
      split
      · exact hread.trans (keeps_presentAlert (by decide) _)
      · split
        · exact hread.trans (keeps_setVc_presentAlert (by decide))
        · exact (hread.trans (keeps_setVc i _ _)).trans (keeps_setVc i _ _)
  | _ => exact keeps_present (.refl d)

/-- An alert that reports no success: what its action runs leaves the HUD to itself, or
takes it down. -/
theorem keeps_perform {act : AlertAction} {text : String} {throws : Bool} {r : Result Device}
    (hr : d.perform act text throws = some r) : d.KeepsResult r := by
  cases performs_of_perform hr with
  | dismissOnly => exact .refl d
  | presentMemories ht => exact keeps_present (keeps_hudDismiss d)
  | @deleteMemory i c ht =>
    rcases ShowMemoryViewController.deleteConfirmed_cases i c d with
      ⟨f, hstops, -⟩ | ⟨u, -, -, hwrites⟩
    · rw [hstops]
      trivial
    · rw [hwrites]
      exact keeps_present (keeps_setValue ..)
  | @setUserName i c ht =>
    rcases Option.eq_none_or_eq_some d.currentUser with hu | ⟨u, hu⟩
    · rw [MyProfileViewController.userNameEntered_of_none hu]
      trivial
    · rw [MyProfileViewController.userNameEntered_of_some hu]
      exact keeps_setValue ..
  | @signOut i c ht =>
    -- the HUD is down at the end, whether `signOut` throws or not
    refine keeps_present ⟨nofun, ?_, ?_, nofun⟩
    · split <;> exact id
    · split <;> exact id
  | _ => exact keeps_present (.refl d)

/-! ## The invariant and its exact condition -/

/-- The HUD is justified, and down while the alert of Update password is up. -/
structure HudInv (d : Device) : Prop where
  justified : d.HudJustified
  updated : d.hud = true → d.alert ≠ some ChangePasswordViewController.passwordUpdated

theorem hudInv_of_down (h : d.hud = false) : d.HudInv where
  justified := fun hhud => absurd (h.symm.trans hhud) nofun
  updated := fun hhud => absurd (h.symm.trans hhud) nofun

namespace HudInv

theorem keeps (h : d.HudInv) (hk : d.Keeps d') : d'.HudInv where
  justified := fun hhud => (h.justified (hk.hud hhud)).imp hk.busy hk.announces
  updated := fun hhud ha => h.updated (hk.hud hhud) (hk.updated hhud ha)

/-- The device after the answer to a request, where the block of the answer does nothing. -/
theorem answered (h : d.HudInv) (hhud : d'.hud = d.hud) (halert : d'.alert = d.alert)
    (hleft : d.hud = true → ¬ d.Announces → d'.Busy) : d'.HudInv where
  justified := by
    rw [HudJustified, hhud, Announces, halert]
    intro hup
    by_cases hann : d.Announces
    · exact Or.inr hann
    · exact Or.inl (hleft hup hann)
  updated := by
    rw [hhud, halert]
    exact h.updated

/-- A request that shows no HUD is not what the HUD waits for. -/
theorem eraseAuth (h : d.HudInv) {k : ℕ} {call : AuthCall} (hcall : d.auths[k]? = some call)
    (hno : call.showsHud = false) : { d with auths := d.auths.eraseIdx k }.HudInv := by
  refine h.answered rfl rfl ?_
  intro hhud hquiet
  refine ((h.justified hhud).resolve_right hquiet).imp ?_ id
  rintro ⟨c, hc, hshows⟩
  refine ⟨c, mem_eraseIdx_of_ne hcall hc ?_, hshows⟩
  rintro rfl
  cases hno.symm.trans hshows

theorem eraseWrite (h : d.HudInv) {k : ℕ} {w : Write} (hw : d.writes[k]? = some w)
    (hno : w.completion.showsHud = false) (db : Option Json) :
    ({ d with writes := d.writes.eraseIdx k }.receive db).HudInv := by
  refine h.answered rfl rfl ?_
  intro hhud hquiet
  refine ((h.justified hhud).resolve_right hquiet).imp id ?_
  rintro ⟨v, hv, hshows⟩
  refine ⟨v, mem_eraseIdx_of_ne hw hv ?_, hshows⟩
  rintro rfl
  cases hno.symm.trans hshows

end HudInv

/-- After `hudDismiss`, whatever is presented. -/
theorem hudInv_present_hudDismiss {v : ViewController} (h : d.HudInv) :
    (d.settle (d₁.hudDismiss.present self v)).HudInv := by
  cases hr : d₁.hudDismiss.present self v with
  | ok d' =>
    have hkeeps : d₁.hudDismiss.KeepsResult (.ok d') := hr ▸ keeps_present (.refl _)
    have hdown : d'.hud = false := by
      by_contra hhud
      cases hkeeps.hud (Bool.not_eq_false _ ▸ hhud)
    exact hudInv_of_down hdown
  | error f => exact h.keeps (.of_eq rfl rfl rfl rfl)

/-- A handler shows the HUD and rejects the input while a request is pending. -/
theorem hudInv_rejected {v v' : ViewController} {a : Alert} (hv : d.visible = some (self, v))
    (ha : a ≠ ChangePasswordViewController.passwordUpdated) (hbusy : d.Busy) :
    ((d.hudShow.setVc self v').presentAlert self a).HudInv where
  justified := fun _ => Or.inl hbusy
  updated := by
    intro _ hupdated
    have hnone : d.alert = none := (visible_eq_some.mp hv).1.2
    have hkeeps : d.hudShow.Keeps ((d.hudShow.setVc self v').presentAlert self a) :=
      keeps_setVc_presentAlert ha
    cases hnone.symm.trans (hkeeps.updated rfl hupdated)

/-- A handler shows the HUD and starts a request. -/
theorem hudInv_started {v : ViewController} (hv : d.visible = some (self, v))
    (halert : d'.alert = d.alert) (hbusy : d'.Busy) : d'.HudInv where
  justified := fun _ => Or.inl hbusy
  updated := by
    intro _ hupdated
    have hnone : d.alert = none := (visible_eq_some.mp hv).1.2
    cases hnone.symm.trans (halert.symm.trans hupdated)

theorem logInBtnPressed_hudInv {c : LogInViewController} (hv : d.visible = some (self, .logIn c))
    (hno : ¬ d.Strands (.press .logInBtnPressed)) : (c.logInBtnPressed self d).HudInv := by
  have hbusy : c.userEmailTextField = "" ∨ c.userPasswordTextField = "" → d.Busy := by
    intro hempty
    by_contra hidle
    exact hno (.logIn hv hempty hidle)
  unfold LogInViewController.logInBtnPressed
  dsimp only
  -- no e-mail, no password, or a request to Auth
  split
  · next hemail =>
    exact hudInv_rejected hv (by decide) (hbusy (Or.inl (String.isEmpty_iff.mp hemail)))
  · split
    · next hpassword =>
      exact hudInv_rejected hv (by decide) (hbusy (Or.inr (String.isEmpty_iff.mp hpassword)))
    · exact hudInv_started hv rfl (busy_request rfl _)

theorem registerBtnPressed_hudInv {c : RegistrationViewController}
    (hv : d.visible = some (self, .registration c))
    (hno : ¬ d.Strands (.press .registerBtnPressed)) : (c.registerBtnPressed self d).HudInv := by
  unfold RegistrationViewController.registerBtnPressed
  dsimp only
  split
  · next message hrejected =>
    refine hudInv_rejected hv (by simp [okAlert, ChangePasswordViewController.passwordUpdated]) ?_
    by_contra hidle
    exact hno (.register hv (by rw [hrejected]; exact Option.some_ne_none _) hidle)
  · exact hudInv_started hv rfl (busy_request rfl _)

theorem memoryDoneBtnPressed_hudInv {c : AddMemoryViewController} {draws : Draws} (h : d.HudInv)
    (hv : d.visible = some (self, .addMemory c)) :
    (d.settle (c.doneBtnPressed self draws d)).HudInv := by
  rcases AddMemoryViewController.doneBtnPressed_cases self draws c d with
    ⟨f, hstops, -⟩ | ⟨c', u, -, -, -, hwrites⟩
  · rw [hstops]
    exact h.keeps (.of_eq rfl rfl rfl rfl)
  · rw [hwrites]
    exact hudInv_started hv rfl (busy_setValue rfl _ _ _)

/-- Whatever Update password does, it dismisses the HUD at the end. -/
theorem updateBtnPressed_hudInv {c : ChangePasswordViewController} (h : d.HudInv) :
    (d.settle (c.updateBtnPressed self d)).HudInv := by
  unfold ChangePasswordViewController.updateBtnPressed
  dsimp only
  split
  · exact hudInv_of_down rfl
  · -- the second request may stop the app, with the HUD as it was
    cases c.readFields.updateStores (d.hudShow.setVc self (.changePassword c.readFields)) with
    | error f => exact h.keeps (.of_eq rfl rfl rfl rfl)
    | ok d₁ => exact hudInv_of_down rfl

theorem press_hudInv {b : Button} {r : Result Device} (h : d.HudInv) (hr : d.press b = some r)
    (hno : ¬ d.Strands (.press b)) : (d.settle r).HudInv := by
  by_cases hkeeps : d.KeepsResult r
  · exact h.keeps hkeeps.settle
  -- only the handlers that show the HUD are left
  cases presses_of_press hr with
  | logIn hv => exact logInBtnPressed_hudInv hv hno
  | register hv => exact registerBtnPressed_hudInv hv hno
  | memoryDone hv => exact memoryDoneBtnPressed_hudInv h hv
  | update hv hshown => exact updateBtnPressed_hudInv h
  | _ => exact absurd (keeps_press hr nofun nofun nofun nofun) hkeeps

/-- An alert that reports a success has no cancel action, and its OK opens the list and
takes the HUD down, or is the one of Update password. -/
theorem Alert.eq_of_reportsSuccess {a : Alert} (h : a.reportsSuccess = true) :
    a.cancelTitle = none ∧
      (a.action = .presentMemories ∨ a = ChangePasswordViewController.passwordUpdated) := by
  have h := of_decide_eq_true h
  rcases h with rfl | rfl | rfl
  · exact ⟨rfl, Or.inl rfl⟩
  · exact ⟨rfl, Or.inl rfl⟩
  · exact ⟨rfl, Or.inr rfl⟩

/-- The OK handlers keep the invariant. They show no HUD, and whatever a shown one waits for
they leave in its queue. -/
theorem alertOk_hudInv {text : String} {throws : Bool} {r : Result Device} (h : d.HudInv)
    (hr : d.alertOk text throws = some r) : (d.settle r).HudInv := by
  obtain ⟨a, ha, hperform⟩ := alertOk_eq_some.mp hr
  have hkeeps := keeps_perform hperform
  by_cases hsuccess : a.reportsSuccess = true
  · rcases (Alert.eq_of_reportsSuccess hsuccess).2 with hopens | rfl
    · rw [hopens] at hperform
      cases performs_of_perform hperform with
      | presentMemories ht => exact hudInv_present_hudDismiss h
    · -- this alert is up only while the HUD is down
      have hdown : d.hud = false := by
        by_contra hhud
        exact h.updated (Bool.not_eq_false _ ▸ hhud) ha
      cases r with
      | error f => exact h.keeps (.of_eq rfl rfl rfl rfl)
      | ok d' =>
        refine hudInv_of_down ?_
        by_contra hhud
        exact absurd (hkeeps.hud (Bool.not_eq_false _ ▸ hhud)) (Bool.not_eq_true _ ▸ hdown)
  · have hclosed : d.Keeps { d with alert := none } := by
      refine keeps_closeAlert ?_
      rintro ⟨b, hb, hreports⟩
      cases ha.symm.trans hb
      exact hsuccess hreports
    cases r with
    | error f => exact h.keeps (.of_eq rfl rfl rfl rfl)
    | ok d' => exact h.keeps (hclosed.trans hkeeps)

theorem alertCancel_hudInv (h : d.HudInv) (hcancel : d.alertCancel = some d') : d'.HudInv := by
  obtain ⟨htitle, rfl⟩ := alertCancel_eq_some.mp hcancel
  refine h.keeps (keeps_closeAlert ?_)
  rintro ⟨a, ha, hreports⟩
  have ha : d.alert = some a := ha
  simp [ha, (Alert.eq_of_reportsSuccess hreports).1] at htitle

/-- The block of a `createUser` that has succeeded writes the row. -/
theorem createUserCompleted_hudInv {u : Uid}
    (h : d.hud = true → d.alert ≠ some ChangePasswordViewController.passwordUpdated)
    (hu : d.currentUser = some u) (hscreen : d.screens[self]? = some .registration) :
    ∃ d', RegistrationViewController.createUserCompleted self false d = .ok d' ∧ d'.HudInv := by
  have hkeeps : d.Keeps (d.presentAlert self RegistrationViewController.congratulations) :=
    keeps_presentAlert (by decide) d
  obtain ⟨c, hc⟩ := exists_registration hscreen
  rcases RegistrationViewController.createUserCompleted_of_some hu with ⟨c', -, heq⟩ | ⟨hno, -⟩
  · exact ⟨_, heq, fun _ => Or.inl (busy_setValue rfl _ _ _),
      fun hhud ha => h (hkeeps.hud hhud) (hkeeps.updated hhud ha)⟩
  · exact absurd hc (hno c)

/-- The completion of a request keeps the invariant: its block dismisses the HUD that the
press has shown, unless the screen is stranded with it. -/
theorem completeAuth_hudInv {k : ℕ} {reply : AuthReply} {r : Result Device} (h : d.HudInv)
    (hwf : d.WellFormed) (hr : completeAuth srv d k reply = some (srv', r))
    (hno : ¬ d.Strands (.authCompleted k reply)) : (d.settle r).HudInv := by
  obtain ⟨call, hcall, hanswer, rfl⟩ := completeAuth_eq_some.mp hr
  cases call with
  | signIn i email password =>
    -- both branches dismiss
    cases reply with
    | failure | tokenInvalid => exact hudInv_of_down rfl
    | success u => exact hudInv_present_hudDismiss h
  | createUser i email password userName =>
    cases reply with
    | failure =>
      -- the error branch only prints, so something else has to be in progress
      refine h.answered rfl rfl ?_
      intro hhud hquiet
      by_contra hlast
      exact hno (.createUser hcall hhud hlast hquiet)
    | tokenInvalid => cases hanswer
    | success u =>
      obtain ⟨d', hr, hd'⟩ := createUserCompleted_hudInv
        (d := { d with auths := d.auths.eraseIdx k, currentUser := some u }) h.updated rfl
        (hwf.auths _ (List.mem_of_getElem? hcall))
      show (d.settle (RegistrationViewController.createUserCompleted _ _ _)).HudInv
      rw [hr]
      exact hd'
  | updatePassword v password =>
    -- Update password has dismissed the HUD long before
    cases reply with
    | failure => exact h.eraseAuth hcall rfl
    | tokenInvalid =>
      have herase := h.eraseAuth hcall rfl
      show (signOutByForce v _).HudInv
      unfold signOutByForce
      split
      · exact ⟨herase.justified, herase.updated⟩
      · exact herase
    | success u => exact h.eraseAuth hcall rfl

/-- The alert of a saved memory comes up over its screen. -/
theorem hudInv_memorySaved (h : d.onTop self) :
    (d.presentAlert self AddMemoryViewController.memoryIsSaved).HudInv := by
  have halert : (d.presentAlert self AddMemoryViewController.memoryIsSaved).alert =
      some AddMemoryViewController.memoryIsSaved := by simp [presentAlert, h]
  refine ⟨fun _ => Or.inr ⟨_, halert, by decide⟩, ?_⟩
  intro _
  rw [halert]
  decide

/-- The completion of a write keeps the invariant. The only way out is to strand the screen
that waits for it, which the last hypothesis excludes. -/
theorem completeWrite_hudInv {k : ℕ} {r : Result Device} (h : d.HudInv)
    (hr : completeWrite srv d k = some r) (hno : ¬ d.Strands (.writeCompleted k)) :
    (d.settle r).HudInv := by
  obtain ⟨w, accepted, hw, hverdict, rfl⟩ := completeWrite_eq_some.mp hr
  -- a block that announces nothing
  have hquiet : (w.completion = .userRow ∨ w.completion = .password ∨
      ∃ i, w.completion = .memorySaved i ∧ (accepted = false ∨ ¬ d.onTop i)) →
      ({ d with writes := d.writes.eraseIdx k }.receive srv.db).HudInv := by
    intro hcompletion
    refine h.answered rfl rfl ?_
    intro hhud hann
    by_contra hlast
    exact hno (.write hw hverdict hcompletion hhud hlast hann)
  cases hcompletion : w.completion with
  | none => exact h.eraseWrite hw (by rw [hcompletion]; rfl) srv.db
  | userRow => exact hquiet (Or.inl hcompletion)
  | password => exact hquiet (Or.inr (Or.inl hcompletion))
  | memorySaved i =>
    cases accepted with
    | false => exact hquiet (Or.inr (Or.inr ⟨i, hcompletion, Or.inl rfl⟩))
    | true =>
      by_cases hon : d.onTop i
      · exact hudInv_memorySaved hon
      · -- UIKit ignores the alert of a screen that is covered
        have hanswered := hquiet (Or.inr (Or.inr ⟨i, hcompletion, Or.inr hon⟩))
        exact hanswered.keeps (keeps_presentAlert (by decide) _)
  | userName i =>
    -- the HUD does not wait for it; after a success the name is read again
    have hanswered := h.eraseWrite hw (by rw [hcompletion]; rfl) srv.db
    cases accepted with
    | false => exact hanswered
    | true =>
      show (d.settle (getUserNameFromDatabase i _)).HudInv
      rcases Option.eq_none_or_eq_some d.currentUser with hu | ⟨u, hu⟩
      · rw [getUserNameFromDatabase_of_none (by exact hu)]
        exact h.keeps (.of_eq rfl rfl rfl rfl)
      · rw [getUserNameFromDatabase_of_some (by exact hu)]
        exact hanswered.keeps (.of_eq rfl rfl rfl rfl)

/-- A pending request stays as what it is when the server decides a write. -/
theorem decideWrite_keeps {k : ℕ} {accepted : Bool}
    (h : decideWrite srv d k accepted = some (srv', d')) : d.Keeps d' := by
  obtain ⟨w, hw, -, -, rfl⟩ := decideWrite_eq_some.mp h
  refine ⟨id, Or.imp id ?_, id, fun _ ha => ha⟩
  rintro ⟨v, hv, hshows⟩
  obtain ⟨j, hj⟩ := List.mem_iff_getElem?.mp hv
  -- the write that is decided keeps its completion
  by_cases hjk : k = j
  · subst hjk
    cases hw.symm.trans hj
    obtain ⟨hlt, -⟩ := List.getElem?_eq_some_iff.mp hw
    exact ⟨_, List.mem_of_getElem? (List.getElem?_set_self hlt), hshows⟩
  · exact ⟨v, List.mem_of_getElem? ((List.getElem?_set_ne hjk).trans hj), hshows⟩

theorem readCompleted_keeps (handler : ReadHandler) (snapshot : Option Json) (d : Device) :
    d.Keeps (d.readCompleted handler snapshot) := by
  cases handler with
  | userName i =>
    simp only [readCompleted, MyProfileViewController.userNameRead]
    split
    · exact keeps_setVc i _ d
    · exact .refl d
  | password i =>
    simp only [readCompleted, ChangePasswordViewController.passwordRead]
    split
    · exact keeps_setVc i _ d
    · exact .refl d

theorem childAdded_keeps {i : VcId} {j : ℕ} {r : Result Device} (hr : d.childAdded i j = some r) :
    d.KeepsResult r := by
  obtain ⟨c, o, key, snapshot, -, -, -, rfl⟩ := childAdded_eq_some.mp hr
  unfold MyMemoriesViewController.childAdded
  cases Memory.ofSnapshot snapshot with
  | error f => trivial
  | ok m => exact keeps_setVc i _ d

theorem answerRead_keeps {k : ℕ} (h : answerRead srv d k = some d') : d.Keeps d' := by
  unfold answerRead at h
  split at h
  · split at h
    · obtain rfl := Option.some.inj h
      exact .of_eq rfl rfl rfl rfl
    · cases h
  · cases h

/-- **A step that does not strand the HUD keeps the invariant.** -/
theorem HudInv.step (h : d.HudInv) (hwf : d.WellFormed) (hno : ¬ d.Strands e)
    (hs : DailyDiary.step srv d e = some (srv', d')) : d'.HudInv := by
  cases steps_of_step hs with
  | typed ht =>
    obtain ⟨i, v, v', -, -, rfl⟩ := typed_eq_some.mp ht
    exact h.keeps (keeps_setVc i v' d)
  | press hr => exact press_hudInv h hr hno
  | alertOk hr => exact alertOk_hudInv h hr
  | alertCancel hcancel => exact alertCancel_hudInv h hcancel
  | authCompleted hr => exact completeAuth_hudInv h hwf hr hno
  | writeDecided hdecide => exact h.keeps (decideWrite_keeps hdecide)
  | writeCompleted hr => exact completeWrite_hudInv h hr hno
  | serverPush => exact h.keeps (.of_eq rfl rfl rfl rfl)
  | readAnswered hr => exact h.keeps (answerRead_keeps hr)
  | @readCompleted k d' hr =>
    obtain ⟨r, snapshot, -, -, rfl⟩ := completeRead_eq_some.mp hr
    have herase : d.Keeps { d with reads := d.reads.eraseIdx k } := .of_eq rfl rfl rfl rfl
    exact h.keeps (herase.trans (readCompleted_keeps r.handler snapshot _))
  | childAdded hr => exact h.keeps (childAdded_keeps hr).settle

/-- The HUD is shown, the input rejected and no request pending. -/
theorem not_justified_rejected {v v' : ViewController} {a : Alert}
    (hv : d.visible = some (self, v)) (ha : a.reportsSuccess = false) (hidle : ¬ d.Busy) :
    ¬ ((d.hudShow.setVc self v').presentAlert self a).HudJustified := by
  intro hjustified
  rcases hjustified rfl with hbusy | ⟨b, hb, hreports⟩
  · exact hidle hbusy
  · have hon : (d.hudShow.setVc self v').onTop self := (visible_eq_some.mp hv).1
    have hb : (if (d.hudShow.setVc self v').onTop self then some a else d.alert) = some b := hb
    rw [if_pos hon] at hb
    obtain rfl := Option.some.inj hb
    cases ha.symm.trans hreports

/-- The HUD is on after the last answer, and no success is announced. -/
theorem not_justified_answered (hhud : d'.hud = true) (halert : d'.alert = d.alert)
    (hidle : ¬ d'.Busy) (hquiet : ¬ d.Announces) : ¬ d'.HudJustified := by
  intro hjustified
  rcases hjustified hhud with hbusy | hann
  · exact hidle hbusy
  · rw [Announces, halert] at hann
    exact hquiet hann

/-- A step that strands the HUD leaves it on with nothing in progress. -/
theorem Strands.not_justified (h : d.Strands e)
    (hs : DailyDiary.step srv d e = some (srv', d')) : ¬ d'.HudJustified := by
  cases h with
  | logIn hv hempty hidle =>
    cases steps_of_step hs with
    | press hr =>
      cases presses_of_press hr with
      | logIn hv' =>
        cases hv.symm.trans hv'
        show ¬ (LogInViewController.logInBtnPressed _ _ d).HudJustified
        unfold LogInViewController.logInBtnPressed
        dsimp only
        split
        · exact not_justified_rejected hv (by decide) hidle
        · next hemail =>
          have hpassword := hempty.resolve_left fun h => hemail (String.isEmpty_iff.mpr h)
          rw [if_pos (String.isEmpty_iff.mpr hpassword)]
          exact not_justified_rejected hv (by decide) hidle
  | register hv hrejected hidle =>
    cases steps_of_step hs with
    | press hr =>
      cases presses_of_press hr with
      | register hv' =>
        cases hv.symm.trans hv'
        obtain ⟨message, hmessage⟩ := Option.ne_none_iff_exists'.mp hrejected
        show ¬ (RegistrationViewController.registerBtnPressed _ _ d).HudJustified
        simp only [RegistrationViewController.registerBtnPressed, hmessage]
        refine not_justified_rejected hv ?_ hidle
        simp [Alert.reportsSuccess, okAlert, RegistrationViewController.congratulations,
          AddMemoryViewController.memoryIsSaved, ChangePasswordViewController.passwordUpdated]
  | createUser hcall hhud hlast hquiet =>
    cases steps_of_step hs with
    | authCompleted hr =>
      obtain ⟨call, hcall', -, rfl⟩ := completeAuth_eq_some.mp hr
      cases hcall.symm.trans hcall'
      exact not_justified_answered hhud rfl hlast hquiet
  | @write k w accepted hw hverdict hcompletion hhud hlast hquiet =>
    cases steps_of_step hs with
    | writeCompleted hr =>
      obtain ⟨w', accepted', hw', hverdict', rfl⟩ := completeWrite_eq_some.mp hr
      cases hw.symm.trans hw'
      cases hverdict.symm.trans hverdict'
      rcases hcompletion with hrow | hpassword | ⟨i, hsaved, hfailed | hcovered⟩
      · rw [hrow]
        exact not_justified_answered hhud rfl hlast hquiet
      · rw [hpassword]
        exact not_justified_answered hhud rfl hlast hquiet
      · rw [hsaved, hfailed]
        exact not_justified_answered hhud rfl hlast hquiet
      · rw [hsaved]
        cases accepted with
        | false => exact not_justified_answered hhud rfl hlast hquiet
        | true =>
          refine not_justified_answered hhud ?_ hlast hquiet
          exact if_neg hcovered

end Device

/-! ## Runs -/

/-- **When the HUD is justified.** In a run from the start it is on each device, in every
state, exactly when no step strands it. -/
theorem hud_justified_iff {w w' : World} {es : List (ℕ × Event)} (hw : app.init w)
    (hr : app.run w es = some w') :
    app.Throughout (fun v => ∀ i, (v.device i).HudJustified) w es ↔
      app.Always (fun v e => ¬ (v.device e.1).Strands e.2) w es := by
  refine app.throughout_iff_always
    (I := fun v => ∀ i, (v.device i).Inv ∧ (v.device i).HudInv) ?_
    (fun v hv i => (hv i).2.justified) ?_ ?_ hr
  · rintro v ⟨i, e⟩ v' hv hno hs j
    refine ⟨app_step_inv (fun k => (hv k).1) hs j, ?_⟩
    obtain ⟨hstep, hne⟩ := app_step_eq_some.mp hs
    by_cases hj : j = i
    · subst hj
      exact (hv j).2.step (hv j).1.wf hno hstep
    · rw [hne j hj]
      exact (hv j).2
  · rintro v ⟨i, e⟩ v' hv hstrands hs hjustified
    exact (not_not.mp hstrands).not_justified (app_step_eq_some.mp hs).1 (hjustified i)
  · intro i
    exact ⟨init_inv hw i, of_init hw (fun _ => Device.hudInv_of_down rfl) i⟩

/-- Log In is pressed without an e-mail: no request is started, and the HUD stays. -/
theorem hud_stranded : ¬ ∀ w : World, app.Reachable w → ∀ i, (w.device i).HudJustified := by
  intro h
  have hstranded : (app.run (World.start ⟨[ann], none⟩) (alone [.press .logInBtnPressed])).map
      (fun w => decide (w.device 0).HudJustified) = some false := by decide
  obtain ⟨w, hr, hw⟩ := Option.map_eq_some_iff.mp hstranded
  exact of_decide_eq_false hw (h w ⟨_, _, init_start _, hr⟩ 0)

/-- `ann` logs in; the HUD is up until Auth answers. -/
def annLogsIn : List Event :=
  [.typed (.logIn ann.email ann.password), .press .logInBtnPressed,
    .authCompleted 0 (.success ann.uid)]

theorem hud_justified_ann :
    (app.run (World.start ⟨[ann], none⟩) (alone annLogsIn)).isSome = true ∧
      (app.Throughout (fun v => ∀ i, (v.device i).HudJustified) (World.start ⟨[ann], none⟩)
          (alone annLogsIn) ↔
        app.Always (fun v e => ¬ (v.device e.1).Strands e.2) (World.start ⟨[ann], none⟩)
          (alone annLogsIn)) := by
  have hruns : (app.run (World.start ⟨[ann], none⟩) (alone annLogsIn)).isSome = true := by decide
  obtain ⟨w', hr⟩ := Option.isSome_iff_exists.mp hruns
  exact ⟨hruns, hud_justified_iff (init_start _) hr⟩

end DailyDiary
