/-
The handlers of `controller/main/My profile/`: the profile, with the user name,
the photo and the log-out, and the change of the password.
-/
import DailyDiary.Device

set_option autoImplicit false

namespace DailyDiary

/-! ## `myProfileViewController` -/

namespace MyProfileViewController

def backBtnPressed (d : Device) : Device :=
  d.dismiss

def changeUserName : Alert where
  title := "Update"
  message := "Change your user name"
  okTitle := "Ok"
  action := .setUserName
  cancelTitle := some "Cancel"

def updateUserNameBtnPressed (self : VcId) (d : Device) : Device :=
  d.presentAlert self changeUserName

/-- The Ok of the user-name alert; `text` is what its text field holds. -/
def userNameEntered (self : VcId) (text : String) (d : Device) : Result Device := do
  let userID ← d.currentUid
  pure (d.setValue (userFieldRef userID "userName") (some (.leaf text)) (.userName self))

theorem userNameEntered_of_some {self : VcId} {text : String} {d : Device} {u : Uid}
    (hu : d.currentUser = some u) : userNameEntered self text d =
      .ok (d.setValue (userFieldRef u "userName") (some (.leaf text)) (.userName self)) := by
  rw [userNameEntered, Device.currentUid_of_some hu]
  rfl

theorem userNameEntered_of_none {self : VcId} {text : String} {d : Device}
    (hu : d.currentUser = none) : userNameEntered self text d = .error .nilUser := by
  rw [userNameEntered, Device.currentUid_of_none hu]
  rfl

/-- The completion block of the user-name write. -/
def userNameSaved (self : VcId) (failed : Bool) (d : Device) : Result Device :=
  if failed then pure d else d.getUserNameFromDatabase self

/-- The block of `getUserNameFromDatabase`. -/
def userNameRead (self : VcId) (snapshot : Option Json) (d : Device) : Device :=
  let userName := (stringField "userName" snapshot).getD "not found"
  match d.vcs[self]? with
  | some (.myProfile c) => d.setVc self (.myProfile { c with userNameLbl := userName })
  | _ => d

def updatePasswordBtnPressed (self : VcId) (d : Device) : Result Device :=
  d.present self (.changePassword {})

def areYouSureToLogOut : Alert where
  title := "log out"
  message := "Are you sure you want to log out ?"
  okTitle := "Ok"
  action := .signOut
  cancelTitle := some "cancel"

def logOutBtnPressed (self : VcId) (d : Device) : Device :=
  d.presentAlert self areYouSureToLogOut

/-- The Ok of the log-out alert. `signOut` throws when the keychain refuses, and
then leaves `currentUser` as it was; the `catch` only prints. -/
def logOutConfirmed (self : VcId) (signOutThrows : Bool) (d : Device) : Result Device :=
  let d := d.hudShow
  let d := if signOutThrows then d else { d with currentUser := none }
  let d := d.hudDismiss
  d.present self (.logIn {})

/-- The action sheet over the profile photo. -/
def photoOptions : Alert where
  title := " Options"
  message := ""
  okTitle := "Open Gallary"
  action := .openGallary
  cancelTitle := some "Cancel"

def tapGesture (self : VcId) (d : Device) : Device :=
  d.presentAlert self photoOptions

def openGallary (self : VcId) (d : Device) : Result Device :=
  d.present self .imagePicker

/-- Both delegate methods of the picker end with `dismiss`. -/
def imagePickerFinished (d : Device) : Device :=
  d.dismiss

end MyProfileViewController

/-! ## `changePasswordViewController` -/

namespace ChangePasswordViewController

def backBtnPressed (d : Device) : Device :=
  d.dismiss

/-- The old password is entered, and is the one an earlier read left. -/
def accepts (c : ChangePasswordViewController) : Prop :=
  c.oldPasswordTextField ≠ "" ∧ c.userPassword = c.oldPasswordTextField

/-- The read is started first and completes later: the comparison uses the
`userPassword` an earlier read left. As in `rejection`, strings are equal here when their
code points are. -/
def doneBtnPressed (self : VcId) (c : ChangePasswordViewController) (d : Device) :
    Result Device := do
  let uid ← d.currentUid
  let d := d.observeSingleEvent (userRef uid) (.password self)
  if c.oldPasswordTextField.isEmpty then
    pure (d.presentAlert self
      { title := "error", message := "Old password is required", okTitle := "Ok" })
  else
    let c := { c with oldPassword := c.oldPasswordTextField }
    let d := d.setVc self (.changePassword c)
    if c.userPassword ≠ c.oldPassword then
      pure (d.presentAlert self
        { title := "error", message := "wrong password", okTitle := "Ok" })
    else
      let c := { c with oldPasswordTextFieldIsHidden := true, doneBtnIsHidden := true }
      pure (d.setVc self (.changePassword c.showHiddenObjects))

/-- The block of the read in `doneBtnPressed`. -/
def passwordRead (self : VcId) (snapshot : Option Json) (d : Device) : Device :=
  let userPassword := (stringField "password" snapshot).getD "not found"
  match d.vcs[self]? with
  | some (.changePassword c) => d.setVc self (.changePassword { c with userPassword })
  | _ => d

/-- The branches of `updateBtnPressed` before the one that updates. The two passwords are
compared by code points, where Swift's `==` is canonical equivalence. -/
def rejection (c : ChangePasswordViewController) : Option String :=
  if c.newpassword.isEmpty || c.repeateNewPassword.isEmpty then
    some "Enter password twice to change"
  else if c.newpassword ≠ c.repeateNewPassword then
    some "Your New password and the repeated password don't match"
  else
    none

/-- The two assignments at the start of `updateBtnPressed`. -/
def readFields (c : ChangePasswordViewController) : ChangePasswordViewController :=
  { c with
    newpassword := c.newPasswordTextField
    repeateNewPassword := c.repeatNewPasswordTextField }

def passwordUpdated : Alert where
  title := "Done"
  message := "Password Updated sucessfully"
  okTitle := "OK"
  action := .presentMyProfile

/-- The two requests of `updateBtnPressed`. `currentUser?.updatePassword` is
skipped when nobody is signed in; `userID!` is not. -/
def updateStores (c : ChangePasswordViewController) (d : Device) : Result Device := do
  let d := match d.currentUser with
    | some u => d.request (.updatePassword u c.newpassword)
    | none => d
  let userID ← d.currentUid
  pure (d.setValue (userFieldRef userID "password") (some (.leaf c.newpassword)) .password)

theorem updateStores_of_some {c : ChangePasswordViewController} {d : Device} {u : Uid}
    (hu : d.currentUser = some u) : c.updateStores d =
      .ok ((d.request (.updatePassword u c.newpassword)).setValue (userFieldRef u "password")
        (some (.leaf c.newpassword)) .password) := by
  have huid : (d.request (.updatePassword u c.newpassword)).currentUid = .ok u :=
    Device.currentUid_of_some hu
  simp only [updateStores, hu, huid, Result.ok_bind]
  rfl

theorem updateStores_of_none {c : ChangePasswordViewController} {d : Device}
    (hu : d.currentUser = none) : c.updateStores d = .error .nilUser := by
  simp only [updateStores, hu, Device.currentUid_of_none hu, Result.error_bind]

/-- What follows the branches runs after each of them: the HUD is dismissed and
the success alert presented. -/
def updateBtnPressed (self : VcId) (c : ChangePasswordViewController) (d : Device) :
    Result Device := do
  let d := d.hudShow
  let c := c.readFields
  let d := d.setVc self (.changePassword c)
  let d ← match c.rejection with
    | some message => pure (d.presentAlert self (okAlert "Alert" message))
    | none => c.updateStores d
  let d := d.hudDismiss
  pure (d.presentAlert self passwordUpdated)

end ChangePasswordViewController

end DailyDiary
