/-
The app as a transition system: what a user can do on a device, what Firebase
can answer, and the world of one server and any number of devices.

A device takes a step when the user types, presses something that is visible,
or answers an alert; when an Auth request completes; when the server decides a
write, or the decision arrives; when the server's tree is pushed; when a single
read is answered, or its block runs; and when a `.childAdded` snapshot reaches
its handler. Requests of one kind complete in any order, and each succeeds or
fails. Auth sets `currentUser` in the step that runs the completion block, before
the block; `AuthBlocks.lean` lets other events come between the two. A `createUser`
is taken as one request that succeeds or fails, where the SDK makes two and drops the
error of the second.

A handler that stops the app leaves the device with a `fault`, and such a device
takes no further step.
-/
import DailyDiary.Initializer
import DailyDiary.MainScreens
import DailyDiary.MyProfile
import DailyDiary.Transition

set_option autoImplicit false

namespace DailyDiary

/-! ## What the user does -/

/-- New texts in the outlets of the visible controller. -/
inductive Typing where
  | logIn (email password : String)
  | registration (userName email password repeatPass : String)
  | forgetPassword (email : String)
  | confirmPIN (pin : String)
  | recreatePassword (new repeated : String)
  | addMemory (title body : String)
  | oldPassword (text : String)
  | newPassword (new repeated : String)

/-- The outlets after typing; a hidden field takes no text. -/
def Typing.apply : Typing → ViewController → Option ViewController
  | .logIn email password, .logIn c =>
    some (.logIn { c with userEmailTextField := email, userPasswordTextField := password })
  | .registration userName email password repeatPass, .registration c =>
    some (.registration { c with
      userNameTextField := userName
      userEmailTextField := email
      userPasswordTextField := password
      userRepeatPasswordTextfield := repeatPass })
  | .forgetPassword email, .forgetPassword c =>
    some (.forgetPassword { c with userEmailTextField := email })
  | .confirmPIN pin, .confirmPIN c =>
    some (.confirmPIN { c with userPINConfirmTextField := pin })
  | .recreatePassword new repeated, .recreatePassword c =>
    some (.recreatePassword { c with
      recreatPasswordTextField := new
      repeatePasswordTextField := repeated })
  | .addMemory title body, .addMemory c =>
    some (.addMemory { c with titleTextField := title, memoryBodyTextField := body })
  | .oldPassword text, .changePassword c =>
    if c.oldPasswordTextFieldIsHidden then none
    else some (.changePassword { c with oldPasswordTextField := text })
  | .newPassword new repeated, .changePassword c =>
    if c.newPasswordTextFieldIsHidden || c.repeatNewPasswordTextFieldIsHidden then none
    else some (.changePassword { c with
      newPasswordTextField := new
      repeatNewPasswordTextField := repeated })
  | _, _ => none

/-- The buttons, rows and gestures of the ten screens and the photo picker. The
day matters where a screen that adds or edits is opened, the draws where Done
makes a new ID. -/
inductive Button where
  | logInBtnPressed
  | forgetPasswordBtnPressed
  | signUpBtnPressed
  | registerBtnPressed
  | alreadyBtnPressed
  | resetBtnPressed
  | confirmPinBtnPressed
  | resendBtnPressed
  | recreateDoneBtnPresed
  | addMemoriesBtnPressed (today : Date)
  | myProfilePageBtnPressed
  | didSelectRowAt (row : ℕ)
  | deleteBtnPressed
  | editBtnPressed (today : Date)
  | memoryDoneBtnPressed (draws : Draws)
  | cancelBtnPressed
  | updateUserNameBtnPressed
  | updatePasswordBtnPressed
  | logOutBtnPressed
  | tapGesture
  | imagePickerFinished
  | passwordDoneBtnPressed
  | updateBtnPressed
  | backBtnPressed

namespace Device

/-- The action a button of the visible controller is connected to; `none` when
it has no such button, or the button is hidden. -/
def press (b : Button) (d : Device) : Option (Result Device) :=
  match b, d.visible with
  | .logInBtnPressed, some (self, .logIn c) => some (pure (c.logInBtnPressed self d))
  | .forgetPasswordBtnPressed, some (self, .logIn _) =>
    some (LogInViewController.forgetPasswordBtnPressed self d)
  | .signUpBtnPressed, some (self, .logIn _) =>
    some (LogInViewController.signUpBtnPressed self d)
  | .registerBtnPressed, some (self, .registration c) => some (pure (c.registerBtnPressed self d))
  | .alreadyBtnPressed, some (_, .registration _) =>
    some (pure (RegistrationViewController.alreadyBtnPressed d))
  | .resetBtnPressed, some (self, .forgetPassword c) => some (pure (c.resetBtnPressed self d))
  | .backBtnPressed, some (_, .forgetPassword _) =>
    some (pure (ForgetPasswordViewController.backBtnPressed d))
  | .confirmPinBtnPressed, some (self, .confirmPIN c) => some (c.confirmPinBtnPressed self d)
  | .resendBtnPressed, some (self, .confirmPIN _) =>
    some (pure (ConfirmPINViewController.resendBtnPressed self d))
  | .recreateDoneBtnPresed, some (self, .recreatePassword c) =>
    some (pure (c.doneBtnPresed self d))
  | .addMemoriesBtnPressed today, some (self, .myMemories _) =>
    some (MyMemoriesViewController.addMemoriesBtnPressed self today d)
  | .myProfilePageBtnPressed, some (self, .myMemories _) =>
    some (MyMemoriesViewController.myProfilePageBtnPressed self d)
  | .didSelectRowAt row, some (self, .myMemories c) =>
    if row < c.myMemoriesTable.length then some (c.didSelectRowAt self row d) else none
  | .backBtnPressed, some (_, .showMemory _) =>
    some (pure (ShowMemoryViewController.backBtnPressed d))
  | .deleteBtnPressed, some (self, .showMemory _) =>
    some (pure (ShowMemoryViewController.deleteBtnPressed self d))
  | .editBtnPressed today, some (self, .showMemory c) => some (c.editBtnPressed self today d)
  | .memoryDoneBtnPressed draws, some (self, .addMemory c) =>
    some (c.doneBtnPressed self draws d)
  | .cancelBtnPressed, some (self, .addMemory _) =>
    some (AddMemoryViewController.cancelBtnPressed self d)
  | .backBtnPressed, some (_, .myProfile _) =>
    some (pure (MyProfileViewController.backBtnPressed d))
  | .updateUserNameBtnPressed, some (self, .myProfile _) =>
    some (pure (MyProfileViewController.updateUserNameBtnPressed self d))
  | .updatePasswordBtnPressed, some (self, .myProfile _) =>
    some (MyProfileViewController.updatePasswordBtnPressed self d)
  | .logOutBtnPressed, some (self, .myProfile _) =>
    some (pure (MyProfileViewController.logOutBtnPressed self d))
  | .tapGesture, some (self, .myProfile _) =>
    some (pure (MyProfileViewController.tapGesture self d))
  | .imagePickerFinished, some (_, .imagePicker) =>
    some (pure (MyProfileViewController.imagePickerFinished d))
  | .backBtnPressed, some (_, .changePassword _) =>
    some (pure (ChangePasswordViewController.backBtnPressed d))
  | .passwordDoneBtnPressed, some (self, .changePassword c) =>
    if c.doneBtnIsHidden then none else some (c.doneBtnPressed self d)
  | .updateBtnPressed, some (self, .changePassword c) =>
    if c.updateBtnIsHidden then none else some (c.updateBtnPressed self d)
  | _, _ => none

/-- Texts typed into the visible controller. -/
def typed (t : Typing) (d : Device) : Option Device := do
  let (self, v) ← d.visible
  let v ← t.apply v
  pure (d.setVc self v)

/-- The default action of an alert with the given handler, once the alert is
gone. `text` is what the alert's text field holds, `signOutThrows` the outcome of
`signOut`; only the handlers that need them look at them. -/
def perform (a : AlertAction) (text : String) (signOutThrows : Bool) (d : Device) :
    Option (Result Device) :=
  match a, d.top with
  | .dismissOnly, _ => some (pure d)
  | .presentMemories, some (self, _) => some (d.hudDismiss.present self (.myMemories {}))
  | .presentMyProfile, some (self, _) => some (d.present self (.myProfile {}))
  | .presentConfirmPIN, some (self, _) => some (d.present self (.confirmPIN {}))
  | .presentLogIn, some (self, _) => some (d.present self (.logIn {}))
  | .deleteMemory, some (self, .showMemory c) => some (c.deleteConfirmed self d)
  | .setUserName, some (self, .myProfile _) =>
    some (MyProfileViewController.userNameEntered self text d)
  | .signOut, some (self, .myProfile _) =>
    -- without a user `signOut` has nothing to store, and does not throw
    if signOutThrows && d.currentUser.isNone then none
    else some (MyProfileViewController.logOutConfirmed self signOutThrows d)
  | .openGallary, some (self, .myProfile _) =>
    some (MyProfileViewController.openGallary self d)
  | _, _ => none

/-- OK on the alert that is up. -/
def alertOk (text : String) (signOutThrows : Bool) (d : Device) : Option (Result Device) := do
  let a ← d.alert
  { d with alert := none }.perform a.action text signOutThrows

/-- Cancel on an alert that has a cancel action. -/
def alertCancel (d : Device) : Option Device := do
  let a ← d.alert
  let _ ← a.cancelTitle
  pure { d with alert := none }

end Device

/-! ## What Firebase answers -/

/-- How an Auth request completes: with an error, or for an account. `tokenInvalid` is an
error that tells the user's token is no good any more (`userTokenExpired`, `userDisabled`,
`userNotFound`, `invalidUserToken`): the SDK then signs the user of the request out. -/
inductive AuthReply where
  | failure
  | tokenInvalid
  | success (u : Uid)
  deriving DecidableEq

/-- The Auth accounts after a request; `none` for a reply Auth cannot give. A
sign-in succeeds for an account with that e-mail and password, a registration
for a new uid and an e-mail no account has, a password update for its account, and
only the update is made with the token of a user. `createUser` is taken as atomic, where
the SDK makes two requests, for the account and for its data, and drops the error of the
second. -/
def Server.answer (srv : Server) : AuthCall → AuthReply → Option Server
  | .signIn _ email password, .success u =>
    if ⟨u, email, password⟩ ∈ srv.accounts then some srv else none
  | .createUser _ email password _, .success u =>
    if srv.accounts.all fun a => a.uid ≠ u && a.email ≠ email then
      some { srv with accounts := srv.accounts ++ [⟨u, email, password⟩] }
    else none
  | .updatePassword v password, .success u =>
    if u = v then
      some { srv with accounts := srv.accounts.map fun a =>
        if a.uid = v then { a with password := password } else a }
    else none
  | .updatePassword _ _, .tokenInvalid => some srv
  | _, .tokenInvalid => none
  | _, .failure => some srv

namespace Device

/-- `signOutByForceWithUserID:`. It compares the identifiers as objects, so a session that the
same account has begun anew since is left alone: that update ends here in a `failure`. -/
def signOutByForce (u : Uid) (d : Device) : Device :=
  if d.currentUser = some u then { d with currentUser := none } else d

@[simp] theorem signOutByForce_auths (u : Uid) (d : Device) :
    (d.signOutByForce u).auths = d.auths := by
  unfold signOutByForce
  split <;> rfl

@[simp] theorem signOutByForce_writes (u : Uid) (d : Device) :
    (d.signOutByForce u).writes = d.writes := by
  unfold signOutByForce
  split <;> rfl

@[simp] theorem signOutByForce_stack (u : Uid) (d : Device) :
    (d.signOutByForce u).stack = d.stack := by
  unfold signOutByForce
  split <;> rfl

/-- What Auth makes of a reply on the device, and the completion block of the request. -/
def authCompleted (call : AuthCall) (reply : AuthReply) (d : Device) : Result Device :=
  match call, reply with
  | .signIn self _ _, .success u =>
    LogInViewController.signInCompleted self false { d with currentUser := some u }
  | .signIn self _ _, _ => LogInViewController.signInCompleted self true d
  | .createUser self _ _ _, .success u =>
    RegistrationViewController.createUserCompleted self false { d with currentUser := some u }
  | .createUser self _ _ _, _ => RegistrationViewController.createUserCompleted self true d
  -- the block of `updatePassword` only prints
  | .updatePassword u _, .tokenInvalid => pure (d.signOutByForce u)
  | .updatePassword _ _, _ => pure d

/-- The completion block of a write. -/
def writeCompleted (completion : Completion) (failed : Bool) (d : Device) : Result Device :=
  match completion with
  | .none => pure d
  | .userRow => pure d
  | .memorySaved self => pure (AddMemoryViewController.memorySaved self failed d)
  | .userName self => MyProfileViewController.userNameSaved self failed d
  | .password => pure d

/-- The block of a single read. -/
def readCompleted (handler : ReadHandler) (snapshot : Option Json) (d : Device) : Device :=
  match handler with
  | .userName self => MyProfileViewController.userNameRead self snapshot d
  | .password self => ChangePasswordViewController.passwordRead self snapshot d

/-- The server's tree arrives at the device. -/
def receive (db : Option Json) (d : Device) : Device :=
  { d with cache := db }.refresh

/-- The `j`-th waiting snapshot of the observer of controller `i` reaches the
handler. -/
def childAdded (i : VcId) (j : ℕ) (d : Device) : Option (Result Device) :=
  match d.vcs[i]? with
  | some (.myMemories c) => do
    let o ← c.observer
    let (_, snapshot) ← o.queue[j]?
    let c := { c with observer := some { o with queue := o.queue.eraseIdx j } }
    pure (c.childAdded i snapshot d)
  | _ => none

/-- The device after a handler: stopped where the handler stops the app. -/
def settle (d : Device) : Result Device → Device
  | .ok d' => d'
  | .error f => { d with fault := some f }

end Device

/-! ## The system -/

/-- Everything that can happen to one device. -/
inductive Event where
  | typed (t : Typing)
  | press (b : Button)
  | alertOk (text : String) (signOutThrows : Bool)
  | alertCancel
  | authCompleted (i : ℕ) (reply : AuthReply)
  /-- the server accepts or rejects the `i`-th pending write -/
  | writeDecided (i : ℕ) (accepted : Bool)
  /-- the decision on the `i`-th pending write arrives -/
  | writeCompleted (i : ℕ)
  | serverPush
  /-- the server answers the `i`-th pending read -/
  | readAnswered (i : ℕ)
  /-- the answer to the `i`-th pending read arrives -/
  | readCompleted (i : ℕ)
  | childAdded (vc : VcId) (j : ℕ)

/-- The server decides a pending write. -/
def decideWrite (srv : Server) (d : Device) (i : ℕ) (accepted : Bool) :
    Option (Server × Device) :=
  match d.writes[i]? with
  | some w =>
    if w.verdict = none then
      some (if accepted then { srv with db := PathTree.set w.ref w.value srv.db } else srv,
        { d with writes := d.writes.set i { w with verdict := some accepted } })
    else none
  | none => none

/-- The server's decision reaches the device, behind everything pushed before
it, and the completion block runs. -/
def completeWrite (srv : Server) (d : Device) (i : ℕ) : Option (Result Device) := do
  let w ← d.writes[i]?
  let accepted ← w.verdict
  let d := { d with writes := d.writes.eraseIdx i }.receive srv.db
  pure (d.writeCompleted w.completion (!accepted))

/-- The server answers a read, as the device sees the row then. -/
def answerRead (srv : Server) (d : Device) (i : ℕ) : Option Device :=
  match d.reads[i]? with
  | some r =>
    if r.snapshot.isNone then
      let snapshot := PathTree.get r.ref { d with cache := srv.db }.view
      some { d with reads := d.reads.set i { r with snapshot := some snapshot } }
    else none
  | none => none

/-- The answer to a read reaches its block. -/
def completeRead (d : Device) (i : ℕ) : Option Device := do
  let r ← d.reads[i]?
  let snapshot ← r.snapshot
  pure ({ d with reads := d.reads.eraseIdx i }.readCompleted r.handler snapshot)

/-- An Auth request completes: Auth decides it and its block runs, here with nothing between
the two. `AuthBlocks.lean` has them as events of their own. -/
def completeAuth (srv : Server) (d : Device) (i : ℕ) (reply : AuthReply) :
    Option (Server × Result Device) := do
  let call ← d.auths[i]?
  let srv ← srv.answer call reply
  pure (srv, { d with auths := d.auths.eraseIdx i }.authCompleted call reply)

/-- One step of one device against the server. -/
def step (srv : Server) (d : Device) (e : Event) : Option (Server × Device) :=
  if d.fault ≠ none then none
  else match e with
    | .typed t => (d.typed t).map fun d' => (srv, d')
    | .press b => (d.press b).map fun r => (srv, d.settle r)
    | .alertOk text throws => (d.alertOk text throws).map fun r => (srv, d.settle r)
    | .alertCancel => d.alertCancel.map fun d' => (srv, d')
    | .authCompleted i reply =>
      (completeAuth srv d i reply).map fun r => (r.1, d.settle r.2)
    | .writeDecided i accepted => decideWrite srv d i accepted
    | .writeCompleted i => (completeWrite srv d i).map fun r => (srv, d.settle r)
    | .serverPush => some (srv, d.receive srv.db)
    | .readAnswered i => (answerRead srv d i).map fun d' => (srv, d')
    | .readCompleted i => (completeRead d i).map fun d' => (srv, d')
    | .childAdded i j => (d.childAdded i j).map fun r => (srv, d.settle r)

theorem fault_of_step {srv : Server} {d : Device} {e : Event} {r : Server × Device}
    (h : step srv d e = some r) : d.fault = none := by
  by_contra hf
  simp [step, hf] at h

/-- One server and the devices, as many as there are numbers. -/
abbrev World := Transition.Interleaved ℕ Server Device

/-- The Auth accounts and the database. -/
abbrev World.server (w : World) : Server := w.shared

abbrev World.device (w : World) (i : ℕ) : Device := w.part i

/-- The app on all its devices; every device starts at the login screen, with
any session and against any server. -/
def app : Transition.System World (ℕ × Event) where
  init w := ∀ i, ∃ user, w.device i = Device.launch user
  step := Transition.interleave step

/-- Every device freshly started with nobody signed in. -/
def World.start (srv : Server) : World where
  shared := srv
  part _ := Device.launch none

theorem init_start (srv : Server) : app.init (World.start srv) :=
  fun _ => ⟨none, rfl⟩

/-- What holds of a device that is started holds of every device of an initial world. -/
theorem of_init {w : World} (hw : app.init w) {P : Device → Prop}
    (h : ∀ user, P (Device.launch user)) (i : ℕ) : P (w.device i) := by
  obtain ⟨user, hu⟩ := hw i
  rw [hu]
  exact h user

theorem writes_of_init {w : World} (hw : app.init w) (i : ℕ) : (w.device i).writes = [] :=
  of_init hw (P := fun d => d.writes = []) (fun _ => rfl) i

/-- Two accounts, for concrete runs. -/
def ann : Account where
  uid := ⟨"ann", by decide⟩
  email := "ann@mail.com"
  password := "Secret123"

def bob : Account where
  uid := ⟨"bob", by decide⟩
  email := "bob@mail.com"
  password := "Secret456"

/-- The events of a run in which only device 0 takes part. -/
def alone (es : List Event) : List (ℕ × Event) :=
  es.map fun e => (0, e)

end DailyDiary
