/-
What a step runs, said once.

The functions of `App.lean` are matches and `Option` blocks; here each is turned
around: from a result that is `some`, what was looked up and what was run.
`Presses` has one case for each button of each screen, `Performs` one for each
action of an alert, and `Steps` one for each event. What follows is proved by
cases on these three and does not unfold a match of the model again.
-/
import DailyDiary.App

set_option autoImplicit false

namespace DailyDiary

variable {srv srv' : Server} {d d' : Device}

/-! ## What was looked up -/

theorem Device.typed_eq_some {t : Typing} :
    d.typed t = some d' ↔
      ∃ i v v', d.visible = some (i, v) ∧ t.apply v = some v' ∧ d' = d.setVc i v' := by
  simp only [Device.typed, Option.bind_eq_bind, Option.bind_eq_some_iff]
  constructor
  · rintro ⟨⟨i, v⟩, hv, v', ht, heq⟩
    exact ⟨i, v, v', hv, ht, (Option.some.inj heq).symm⟩
  · rintro ⟨i, v, v', hv, ht, rfl⟩
    exact ⟨(i, v), hv, v', ht, rfl⟩

theorem Device.alertOk_eq_some {text : String} {throws : Bool} {r : Result Device} :
    d.alertOk text throws = some r ↔
      ∃ a, d.alert = some a ∧ { d with alert := none }.perform a.action text throws = some r :=
  Option.bind_eq_some_iff

theorem Device.alertCancel_eq_some :
    d.alertCancel = some d' ↔
      (d.alert.bind Alert.cancelTitle).isSome ∧ d' = { d with alert := none } := by
  cases ha : d.alert with
  | none => simp [Device.alertCancel, ha]
  | some a =>
    cases hc : a.cancelTitle with
    | none => simp [Device.alertCancel, ha, hc]
    | some title => simp [Device.alertCancel, ha, hc, eq_comm]

theorem completeAuth_eq_some {i : ℕ} {reply : AuthReply} {r : Result Device} :
    completeAuth srv d i reply = some (srv', r) ↔
      ∃ call, d.auths[i]? = some call ∧ srv.answer call reply = some srv' ∧
        r = { d with auths := d.auths.eraseIdx i }.authCompleted call reply := by
  simp only [completeAuth, Option.bind_eq_bind, Option.bind_eq_some_iff]
  constructor
  · rintro ⟨call, hcall, srv₁, hanswer, heq⟩
    obtain ⟨rfl, rfl⟩ := Prod.mk.inj (Option.some.inj heq)
    exact ⟨call, hcall, hanswer, rfl⟩
  · rintro ⟨call, hcall, hanswer, rfl⟩
    exact ⟨call, hcall, srv', hanswer, rfl⟩

/-- The server decides a write once, and only an accepted write is stored. -/
theorem decideWrite_eq_some {i : ℕ} {accepted : Bool} :
    decideWrite srv d i accepted = some (srv', d') ↔
      ∃ w, d.writes[i]? = some w ∧ w.verdict = none ∧
        srv' = (if accepted then { srv with db := PathTree.set w.ref w.value srv.db } else srv) ∧
        d' = { d with writes := d.writes.set i { w with verdict := some accepted } } := by
  cases hw : d.writes[i]? with
  | none => simp [decideWrite, hw]
  | some w =>
    by_cases hverdict : w.verdict = none
    · simp [decideWrite, hw, hverdict, eq_comm]
    · simp [decideWrite, hw, hverdict]

theorem completeWrite_eq_some {i : ℕ} {r : Result Device} :
    completeWrite srv d i = some r ↔
      ∃ w accepted, d.writes[i]? = some w ∧ w.verdict = some accepted ∧
        r = ({ d with writes := d.writes.eraseIdx i }.receive srv.db).writeCompleted
          w.completion (!accepted) := by
  simp only [completeWrite, Option.bind_eq_bind, Option.bind_eq_some_iff]
  constructor
  · rintro ⟨w, hw, accepted, hverdict, heq⟩
    exact ⟨w, accepted, hw, hverdict, (Option.some.inj heq).symm⟩
  · rintro ⟨w, accepted, hw, hverdict, rfl⟩
    exact ⟨w, hw, accepted, hverdict, rfl⟩

/-- The server answers a read once, with what the device would see then. -/
theorem answerRead_eq_some {i : ℕ} :
    answerRead srv d i = some d' ↔
      ∃ r, d.reads[i]? = some r ∧ r.snapshot = none ∧
        d' = { d with reads := d.reads.set i { r with
          snapshot := some (PathTree.get r.ref { d with cache := srv.db }.view) } } := by
  cases hr : d.reads[i]? with
  | none => simp [answerRead, hr]
  | some r =>
    cases hs : r.snapshot with
    | none => simp [answerRead, hr, hs, eq_comm]
    | some snapshot => simp [answerRead, hr, hs]

theorem completeRead_eq_some {i : ℕ} :
    completeRead d i = some d' ↔
      ∃ r snapshot, d.reads[i]? = some r ∧ r.snapshot = some snapshot ∧
        d' = { d with reads := d.reads.eraseIdx i }.readCompleted r.handler snapshot := by
  simp only [completeRead, Option.bind_eq_bind, Option.bind_eq_some_iff]
  constructor
  · rintro ⟨r, hr, snapshot, hs, heq⟩
    exact ⟨r, snapshot, hr, hs, (Option.some.inj heq).symm⟩
  · rintro ⟨r, snapshot, hr, hs, rfl⟩
    exact ⟨r, hr, snapshot, hs, rfl⟩

theorem Device.childAdded_eq_some {i : VcId} {j : ℕ} {r : Result Device} :
    d.childAdded i j = some r ↔
      ∃ c o key snapshot, d.vcs[i]? = some (.myMemories c) ∧ c.observer = some o ∧
        o.queue[j]? = some (key, snapshot) ∧
        r = ({ c with observer := some { o with queue := o.queue.eraseIdx j } }
          : MyMemoriesViewController).childAdded i snapshot d := by
  unfold Device.childAdded
  constructor
  · intro h
    split at h
    · next c hc =>
      obtain ⟨o, ho, h⟩ := Option.bind_eq_some_iff.mp h
      obtain ⟨⟨key, snapshot⟩, hq, h⟩ := Option.bind_eq_some_iff.mp h
      exact ⟨c, o, key, snapshot, hc, ho, hq, (Option.some.inj h).symm⟩
    · cases h
  · rintro ⟨c, o, key, snapshot, hc, ho, hq, rfl⟩
    simp [hc, ho, hq]

/-! ## Buttons and alerts -/

/-- What a button runs, by the controller that is visible. -/
inductive Device.Presses (d : Device) : Button → Result Device → Prop where
  | logIn {i : VcId} {c : LogInViewController} (hv : d.visible = some (i, .logIn c)) :
      Presses d .logInBtnPressed (.ok (c.logInBtnPressed i d))
  | forgetPassword {i : VcId} {c : LogInViewController} (hv : d.visible = some (i, .logIn c)) :
      Presses d .forgetPasswordBtnPressed (LogInViewController.forgetPasswordBtnPressed i d)
  | signUp {i : VcId} {c : LogInViewController} (hv : d.visible = some (i, .logIn c)) :
      Presses d .signUpBtnPressed (LogInViewController.signUpBtnPressed i d)
  | register {i : VcId} {c : RegistrationViewController}
      (hv : d.visible = some (i, .registration c)) :
      Presses d .registerBtnPressed (.ok (c.registerBtnPressed i d))
  | already {i : VcId} {c : RegistrationViewController}
      (hv : d.visible = some (i, .registration c)) :
      Presses d .alreadyBtnPressed (.ok (RegistrationViewController.alreadyBtnPressed d))
  | reset {i : VcId} {c : ForgetPasswordViewController}
      (hv : d.visible = some (i, .forgetPassword c)) :
      Presses d .resetBtnPressed (.ok (c.resetBtnPressed i d))
  | forgetPasswordBack {i : VcId} {c : ForgetPasswordViewController}
      (hv : d.visible = some (i, .forgetPassword c)) :
      Presses d .backBtnPressed (.ok (ForgetPasswordViewController.backBtnPressed d))
  | confirmPin {i : VcId} {c : ConfirmPINViewController}
      (hv : d.visible = some (i, .confirmPIN c)) :
      Presses d .confirmPinBtnPressed (c.confirmPinBtnPressed i d)
  | resend {i : VcId} {c : ConfirmPINViewController} (hv : d.visible = some (i, .confirmPIN c)) :
      Presses d .resendBtnPressed (.ok (ConfirmPINViewController.resendBtnPressed i d))
  | recreateDone {i : VcId} {c : RecreatePasswordViewController}
      (hv : d.visible = some (i, .recreatePassword c)) :
      Presses d .recreateDoneBtnPresed (.ok (c.doneBtnPresed i d))
  | addMemories {today : Date} {i : VcId} {c : MyMemoriesViewController}
      (hv : d.visible = some (i, .myMemories c)) :
      Presses d (.addMemoriesBtnPressed today)
        (MyMemoriesViewController.addMemoriesBtnPressed i today d)
  | myProfilePage {i : VcId} {c : MyMemoriesViewController}
      (hv : d.visible = some (i, .myMemories c)) :
      Presses d .myProfilePageBtnPressed (MyMemoriesViewController.myProfilePageBtnPressed i d)
  | didSelectRow {row : ℕ} {i : VcId} {c : MyMemoriesViewController}
      (hv : d.visible = some (i, .myMemories c)) (hrow : row < c.myMemoriesTable.length) :
      Presses d (.didSelectRowAt row) (c.didSelectRowAt i row d)
  | showMemoryBack {i : VcId} {c : ShowMemoryViewController}
      (hv : d.visible = some (i, .showMemory c)) :
      Presses d .backBtnPressed (.ok (ShowMemoryViewController.backBtnPressed d))
  | delete {i : VcId} {c : ShowMemoryViewController} (hv : d.visible = some (i, .showMemory c)) :
      Presses d .deleteBtnPressed (.ok (ShowMemoryViewController.deleteBtnPressed i d))
  | edit {today : Date} {i : VcId} {c : ShowMemoryViewController}
      (hv : d.visible = some (i, .showMemory c)) :
      Presses d (.editBtnPressed today) (c.editBtnPressed i today d)
  | memoryDone {draws : Draws} {i : VcId} {c : AddMemoryViewController}
      (hv : d.visible = some (i, .addMemory c)) :
      Presses d (.memoryDoneBtnPressed draws) (c.doneBtnPressed i draws d)
  | cancel {i : VcId} {c : AddMemoryViewController} (hv : d.visible = some (i, .addMemory c)) :
      Presses d .cancelBtnPressed (AddMemoryViewController.cancelBtnPressed i d)
  | myProfileBack {i : VcId} {c : MyProfileViewController}
      (hv : d.visible = some (i, .myProfile c)) :
      Presses d .backBtnPressed (.ok (MyProfileViewController.backBtnPressed d))
  | updateUserName {i : VcId} {c : MyProfileViewController}
      (hv : d.visible = some (i, .myProfile c)) :
      Presses d .updateUserNameBtnPressed
        (.ok (MyProfileViewController.updateUserNameBtnPressed i d))
  | updatePassword {i : VcId} {c : MyProfileViewController}
      (hv : d.visible = some (i, .myProfile c)) :
      Presses d .updatePasswordBtnPressed (MyProfileViewController.updatePasswordBtnPressed i d)
  | logOut {i : VcId} {c : MyProfileViewController} (hv : d.visible = some (i, .myProfile c)) :
      Presses d .logOutBtnPressed (.ok (MyProfileViewController.logOutBtnPressed i d))
  | tapGesture {i : VcId} {c : MyProfileViewController} (hv : d.visible = some (i, .myProfile c)) :
      Presses d .tapGesture (.ok (MyProfileViewController.tapGesture i d))
  | imagePickerFinished {i : VcId} (hv : d.visible = some (i, .imagePicker)) :
      Presses d .imagePickerFinished (.ok (MyProfileViewController.imagePickerFinished d))
  | changePasswordBack {i : VcId} {c : ChangePasswordViewController}
      (hv : d.visible = some (i, .changePassword c)) :
      Presses d .backBtnPressed (.ok (ChangePasswordViewController.backBtnPressed d))
  | passwordDone {i : VcId} {c : ChangePasswordViewController}
      (hv : d.visible = some (i, .changePassword c)) (hshown : c.doneBtnIsHidden = false) :
      Presses d .passwordDoneBtnPressed (c.doneBtnPressed i d)
  | update {i : VcId} {c : ChangePasswordViewController}
      (hv : d.visible = some (i, .changePassword c)) (hshown : c.updateBtnIsHidden = false) :
      Presses d .updateBtnPressed (c.updateBtnPressed i d)

/-- A press that is possible is one of the constructors of `Presses`. The later inversions
cite this instead of unfolding the buttons of every screen again. -/
theorem Device.presses_of_press {b : Button} {r : Result Device} (h : d.press b = some r) :
    d.Presses b r := by
  unfold Device.press at h
  split at h <;> try cases h
  all_goals rename_i hv
  · exact .logIn hv
  · exact .forgetPassword hv
  · exact .signUp hv
  · exact .register hv
  · exact .already hv
  · exact .reset hv
  · exact .forgetPasswordBack hv
  · exact .confirmPin hv
  · exact .resend hv
  · exact .recreateDone hv
  · exact .addMemories hv
  · exact .myProfilePage hv
  · split at h
    · next hrow =>
      obtain rfl := Option.some.inj h
      exact .didSelectRow hv hrow
    · cases h
  · exact .showMemoryBack hv
  · exact .delete hv
  · exact .edit hv
  · exact .memoryDone hv
  · exact .cancel hv
  · exact .myProfileBack hv
  · exact .updateUserName hv
  · exact .updatePassword hv
  · exact .logOut hv
  · exact .tapGesture hv
  · exact .imagePickerFinished hv
  · exact .changePasswordBack hv
  · split at h
    · cases h
    · next hshown =>
      obtain rfl := Option.some.inj h
      exact .passwordDone hv (by simpa using hshown)
  · split at h
    · cases h
    · next hshown =>
      obtain rfl := Option.some.inj h
      exact .update hv (by simpa using hshown)

/-- What the default action of an alert runs, by the controller on top. -/
inductive Device.Performs (d : Device) (text : String) (signOutThrows : Bool) :
    AlertAction → Result Device → Prop where
  | dismissOnly : Performs d text signOutThrows .dismissOnly (.ok d)
  | presentMemories {i : VcId} {v : ViewController} (ht : d.top = some (i, v)) :
      Performs d text signOutThrows .presentMemories (d.hudDismiss.present i (.myMemories {}))
  | presentMyProfile {i : VcId} {v : ViewController} (ht : d.top = some (i, v)) :
      Performs d text signOutThrows .presentMyProfile (d.present i (.myProfile {}))
  | presentConfirmPIN {i : VcId} {v : ViewController} (ht : d.top = some (i, v)) :
      Performs d text signOutThrows .presentConfirmPIN (d.present i (.confirmPIN {}))
  | presentLogIn {i : VcId} {v : ViewController} (ht : d.top = some (i, v)) :
      Performs d text signOutThrows .presentLogIn (d.present i (.logIn {}))
  | deleteMemory {i : VcId} {c : ShowMemoryViewController}
      (ht : d.top = some (i, .showMemory c)) :
      Performs d text signOutThrows .deleteMemory (c.deleteConfirmed i d)
  | setUserName {i : VcId} {c : MyProfileViewController} (ht : d.top = some (i, .myProfile c)) :
      Performs d text signOutThrows .setUserName
        (MyProfileViewController.userNameEntered i text d)
  | signOut {i : VcId} {c : MyProfileViewController} (ht : d.top = some (i, .myProfile c)) :
      Performs d text signOutThrows .signOut
        (MyProfileViewController.logOutConfirmed i signOutThrows d)
  | openGallary {i : VcId} {c : MyProfileViewController} (ht : d.top = some (i, .myProfile c)) :
      Performs d text signOutThrows .openGallary (MyProfileViewController.openGallary i d)

/-- Every OK handler that is possible is one of the constructors of `Performs`, one for each
action and outcome, with the alert or the screen it leaves behind. -/
theorem Device.performs_of_perform {a : AlertAction} {text : String} {throws : Bool}
    {r : Result Device} (h : d.perform a text throws = some r) :
    d.Performs text throws a r := by
  unfold Device.perform at h
  split at h <;> try cases h
  · exact .dismissOnly
  · next ht => exact .presentMemories ht
  · next ht => exact .presentMyProfile ht
  · next ht => exact .presentConfirmPIN ht
  · next ht => exact .presentLogIn ht
  · next ht => exact .deleteMemory ht
  · next ht => exact .setUserName ht
  · next ht =>
    split at h
    · cases h
    · obtain rfl := Option.some.inj h
      exact .signOut ht
  · next ht => exact .openGallary ht

/-! ## Events -/

/-- The step of an event, by what it runs on the device and what it leaves of the
server. -/
inductive Steps (srv : Server) (d : Device) : Event → Server → Device → Prop where
  | typed {t : Typing} {d' : Device} (h : d.typed t = some d') : Steps srv d (.typed t) srv d'
  | press {b : Button} {r : Result Device} (h : d.press b = some r) :
      Steps srv d (.press b) srv (d.settle r)
  | alertOk {text : String} {throws : Bool} {r : Result Device}
      (h : d.alertOk text throws = some r) : Steps srv d (.alertOk text throws) srv (d.settle r)
  | alertCancel {d' : Device} (h : d.alertCancel = some d') : Steps srv d .alertCancel srv d'
  | authCompleted {i : ℕ} {reply : AuthReply} {srv' : Server} {r : Result Device}
      (h : completeAuth srv d i reply = some (srv', r)) :
      Steps srv d (.authCompleted i reply) srv' (d.settle r)
  | writeDecided {i : ℕ} {accepted : Bool} {srv' : Server} {d' : Device}
      (h : decideWrite srv d i accepted = some (srv', d')) :
      Steps srv d (.writeDecided i accepted) srv' d'
  | writeCompleted {i : ℕ} {r : Result Device} (h : completeWrite srv d i = some r) :
      Steps srv d (.writeCompleted i) srv (d.settle r)
  | serverPush : Steps srv d .serverPush srv (d.receive srv.db)
  | readAnswered {i : ℕ} {d' : Device} (h : answerRead srv d i = some d') :
      Steps srv d (.readAnswered i) srv d'
  | readCompleted {i : ℕ} {d' : Device} (h : completeRead d i = some d') :
      Steps srv d (.readCompleted i) srv d'
  | childAdded {i : VcId} {j : ℕ} {r : Result Device} (h : d.childAdded i j = some r) :
      Steps srv d (.childAdded i j) srv (d.settle r)

/-- Every step of a device is one of the constructors of `Steps`, one for each event, with
its guards. All invariants of the app are proved by cases on them. -/
theorem steps_of_step {e : Event} (h : step srv d e = some (srv', d')) :
    Steps srv d e srv' d' := by
  have hf := fault_of_step h
  unfold step at h
  rw [if_neg (not_not.mpr hf)] at h
  cases e with
  | writeDecided i accepted => exact .writeDecided h
  | serverPush =>
    obtain ⟨rfl, rfl⟩ := Prod.mk.inj (Option.some.inj h)
    exact .serverPush
  | authCompleted i reply =>
    obtain ⟨⟨srv₁, r⟩, hr, heq⟩ := Option.map_eq_some_iff.mp h
    obtain ⟨rfl, rfl⟩ := Prod.mk.inj heq
    exact .authCompleted hr
  | _ =>
    obtain ⟨r, hr, heq⟩ := Option.map_eq_some_iff.mp h
    obtain ⟨rfl, rfl⟩ := Prod.mk.inj heq
    constructor
    exact hr

theorem step_of_steps {e : Event} (hf : d.fault = none) (h : Steps srv d e srv' d') :
    step srv d e = some (srv', d') := by
  unfold step
  rw [if_neg (not_not.mpr hf)]
  cases h with
  | writeDecided h => exact h
  | serverPush => rfl
  | authCompleted h => exact Option.map_eq_some_iff.mpr ⟨_, h, rfl⟩
  | _ h => exact Option.map_eq_some_iff.mpr ⟨_, h, rfl⟩

end DailyDiary
