/-
The handlers of `controller/initializer/`: log-in, registration and the PIN
screens that pretend to reset a password.

Each is written in the order of the source's statements. `self` is the identity
of the instance and `c` its variables and outlets at the press; a completion
looks its controller up again, as the closure reads `self` when it runs.
-/
import DailyDiary.Device
import DailyDiary.Validation

set_option autoImplicit false

namespace DailyDiary

/-! ## `logInViewController` -/

namespace LogInViewController

def logInBtnPressed (self : VcId) (c : LogInViewController) (d : Device) : Device :=
  let d := d.hudShow
  let c := { c with email := c.userEmailTextField, password := c.userPasswordTextField }
  let d := d.setVc self (.logIn c)
  if c.email.isEmpty then
    d.presentAlert self (okAlert "Alert" "Please enter your email")
  else if c.password.isEmpty then
    d.presentAlert self (okAlert "Alert"
      "Please enter your Password if you forgot it press forget password button")
  else
    d.request (.signIn self c.email c.password)

/-- The block of `signIn`; Auth has set `currentUser` before it runs. -/
def signInCompleted (self : VcId) (failed : Bool) (d : Device) : Result Device :=
  if failed then
    pure (d.presentAlert self (okAlert "Alert" "Wrong  email or passwoed")).hudDismiss
  else
    d.hudDismiss.present self (.myMemories {})

def forgetPasswordBtnPressed (self : VcId) (d : Device) : Result Device :=
  d.present self (.forgetPassword {})

def signUpBtnPressed (self : VcId) (d : Device) : Result Device :=
  d.present self (.registration {})

end LogInViewController

/-! ## `registrationViewController` -/

namespace RegistrationViewController

/-- The branches of `registerBtnPressed` before the one that registers, each
with its message. The two passwords are compared by code points, where Swift's `==` on
strings is canonical equivalence: passwords that differ in their composition only are
equal there and are told apart here. -/
def rejection (c : RegistrationViewController) : Option String :=
  if c.userName.isEmpty || c.email.isEmpty || c.password.isEmpty || c.repeatPass.isEmpty then
    some "All fields are required"
  else if c.password ≠ c.repeatPass then
    some "Your password and the repeated password don't match"
  else if isValidPassword (some c.password) = false then
    some "Your password should have at least one uppercase ,at least one digit,at least one lowercase, 8 characters total"
  else if isValidEmail c.email = false then
    some "It's not a valid email"
  else
    none

/-- The four assignments at the start of `registerBtnPressed`. -/
def readFields (c : RegistrationViewController) : RegistrationViewController :=
  { c with
    userName := c.userNameTextField
    email := c.userEmailTextField
    password := c.userPasswordTextField
    repeatPass := c.userRepeatPasswordTextfield }

def registerBtnPressed (self : VcId) (c : RegistrationViewController) (d : Device) : Device :=
  let d := d.hudShow
  let c := c.readFields
  let d := d.setVc self (.registration c)
  match c.rejection with
  | some message => d.presentAlert self (okAlert "Alert" message)
  | none => d.request (.createUser self c.email c.password c.userName)

/-- `userDictionary` -/
def userDictionary (c : RegistrationViewController) : Option Json :=
  dictionary [("userName", c.userName), ("email", c.email), ("password", c.password),
    ("ProfilePhoto", c.profilePhoto)]

def congratulations : Alert where
  title := "Congratulations"
  message := "Regestration successfull"
  okTitle := "OK"
  action := .presentMemories

/-- The block of `createUser`: it reads the controller's variables and the
session as they are when it runs. -/
def createUserCompleted (self : VcId) (failed : Bool) (d : Device) : Result Device :=
  if failed then
    pure d
  else do
    let d := d.presentAlert self congratulations
    let uid ← d.currentUid
    match d.vcs[self]? with
    | some (.registration c) => pure (d.setValue (userRef uid) c.userDictionary .userRow)
    | _ => pure d

/-- After a success the row of the account that is signed in now is written, with the
variables of the screen. -/
theorem createUserCompleted_of_some {self : VcId} {d : Device} {u : Uid}
    (hu : d.currentUser = some u) :
    (∃ c, d.vcs[self]? = some (.registration c) ∧ createUserCompleted self false d =
      .ok ((d.presentAlert self congratulations).setValue (userRef u) c.userDictionary .userRow)) ∨
    (∀ c, d.vcs[self]? ≠ some (.registration c)) ∧
      createUserCompleted self false d = .ok (d.presentAlert self congratulations) := by
  have huid : (d.presentAlert self congratulations).currentUid = .ok u :=
    Device.currentUid_of_some hu
  by_cases hc : ∃ c, d.vcs[self]? = some (.registration c)
  · obtain ⟨c, hc⟩ := hc
    have hc' : (d.presentAlert self congratulations).vcs[self]? = some (.registration c) := hc
    refine Or.inl ⟨c, hc, ?_⟩
    simp only [createUserCompleted, huid, Result.ok_bind, hc']
    rfl
  · refine Or.inr ⟨fun c h => hc ⟨c, h⟩, ?_⟩
    simp only [createUserCompleted, huid, Result.ok_bind]
    split
    · next h => cases h
    · split
      · next c h => exact absurd ⟨c, h⟩ hc
      · rfl

def alreadyBtnPressed (d : Device) : Device :=
  d.dismiss

end RegistrationViewController

/-! ## `forgetPasswordViewController`, `confirmPINViewController`,
`recreatePasswordViewController` -/

namespace ForgetPasswordViewController

def backBtnPressed (d : Device) : Device :=
  d.dismiss

def checkInbox : Alert where
  title := "PIN"
  message := "Check your Inbox for PIN code"
  okTitle := "Ok"
  action := .presentConfirmPIN

/-- The branch for an empty e-mail does not return: both alerts are presented,
and UIKit shows the first. -/
def resetBtnPressed (self : VcId) (c : ForgetPasswordViewController) (d : Device) : Device :=
  let c := { c with userEmail := c.userEmailTextField }
  let d := d.setVc self (.forgetPassword c)
  let d :=
    if c.userEmail.isEmpty then
      d.presentAlert self (okAlert "Alert" " Email is required to reset password")
    else d
  d.presentAlert self checkInbox

end ForgetPasswordViewController

namespace ConfirmPINViewController

def confirmPinBtnPressed (self : VcId) (c : ConfirmPINViewController) (d : Device) :
    Result Device :=
  let c := { c with pinCode := c.userPINConfirmTextField }
  let d := d.setVc self (.confirmPIN c)
  if c.pinCode.isEmpty then
    pure (d.presentAlert self (okAlert "Alert"
      "Please write the PIN code you got in the message  "))
  else if c.pinCode ≠ "1" then
    pure (d.presentAlert self (okAlert "Alert"
      "Wrong PIN code check your messages again or press resend PIN code Button to get a new one "))
  else
    d.present self (.recreatePassword {})

def resendBtnPressed (self : VcId) (d : Device) : Device :=
  d.presentAlert self
    { title := "Re_Send", message := "Check your  messages again", okTitle := "Ok" }

end ConfirmPINViewController

namespace RecreatePasswordViewController

def changed : Alert where
  title := "Done"
  message := "Password sucessfully changed now you can Log in"
  okTitle := "OK"
  action := .presentLogIn

def doneBtnPresed (self : VcId) (c : RecreatePasswordViewController) (d : Device) : Device :=
  let c := { c with
    newPassword := c.recreatPasswordTextField
    repeateNewPassword := c.repeatePasswordTextField }
  let d := d.setVc self (.recreatePassword c)
  if c.newPassword.isEmpty || c.repeateNewPassword.isEmpty then
    d.presentAlert self (okAlert "Alert" "You need to Enter the new psassword \n Remember")
  else if c.newPassword ≠ c.repeateNewPassword then
    d.presentAlert self (okAlert "Alert" "Your password and the repeated password don't match")
  else
    d.presentAlert self changed

end RecreatePasswordViewController

end DailyDiary
