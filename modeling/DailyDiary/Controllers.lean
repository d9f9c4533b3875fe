/-
The view controllers: the variables each declares, the text its outlets show,
and what `viewDidLoad` does to the controller itself.

A controller is a structure under the source's name, with the source's field
names and initial values. An outlet is represented by the part of it that code
reads back: the text of a text field, `isHidden` where a handler toggles it, the
rows of the table. What a controller does to the rest of the device (sessions,
pending requests, the modal stack) is in `Device.lean` and the handler modules.
-/
import DailyDiary.Firebase

set_option autoImplicit false

namespace DailyDiary

/-! ## `Memory.swift` -/

/-- `class Memory` -/
structure Memory where
  memoryID : String := ""
  memoryTitle : String := ""
  memoryBody : String := ""
  memoryDate : String := ""
  deriving DecidableEq, Repr

/-- `snapshotValue[key]!` -/
def forceKey (key : String) (snapshotValue : List (String × String)) : Result String :=
  match snapshotValue.lookup key with
  | some s => pure s
  | none => throw .missingKey

/-- The `.childAdded` handler up to the append: the forced cast of the
snapshot, four force-unwraps, and the new `Memory`. -/
def Memory.ofSnapshot (snapshot : Json) : Result Memory := do
  let snapshotValue ← asStringDictionary snapshot
  let memoryID ← forceKey "memoryID" snapshotValue
  let memoryTitle ← forceKey "memoryTitle" snapshotValue
  let memoryBody ← forceKey "memoryBody" snapshotValue
  let memoryDate ← forceKey "memoryDate" snapshotValue
  pure { memoryID, memoryTitle, memoryBody, memoryDate }

theorem forceKey_error {key : String} {fields : List (String × String)} {f : Fault}
    (h : forceKey key fields = .error f) : f = .missingKey := by
  unfold forceKey at h
  split at h <;> cases h
  rfl

/-- A snapshot stops the app by its shape only. -/
theorem Memory.ofSnapshot_ne_nilUser {snapshot : Json} :
    Memory.ofSnapshot snapshot ≠ .error .nilUser := by
  intro h
  rcases Result.bind_eq_error.mp h with h | ⟨_, _, h⟩
  · cases asStringDictionary_error h
  · rcases Result.bind_eq_error.mp h with h | ⟨_, _, h⟩
    · cases forceKey_error h
    · rcases Result.bind_eq_error.mp h with h | ⟨_, _, h⟩
      · cases forceKey_error h
      · rcases Result.bind_eq_error.mp h with h | ⟨_, _, h⟩
        · cases forceKey_error h
        · rcases Result.bind_eq_error.mp h with h | ⟨_, _, h⟩
          · cases forceKey_error h
          · cases h

/-- The dictionary `doneBtnPressed` writes for a memory. -/
def Memory.toDictionary (m : Memory) : Option Json :=
  dictionary [("memoryID", m.memoryID), ("memoryTitle", m.memoryTitle),
    ("memoryBody", m.memoryBody), ("memoryDate", m.memoryDate)]

/-! ## `initializer/` -/

structure LogInViewController where
  email : String := ""
  password : String := ""
  userEmailTextField : String := ""
  userPasswordTextField : String := ""
  deriving DecidableEq, Repr

structure RegistrationViewController where
  userName : String := ""
  email : String := ""
  password : String := ""
  repeatPass : String := ""
  profilePhoto : String := ""
  userNameTextField : String := ""
  userEmailTextField : String := ""
  userPasswordTextField : String := ""
  userRepeatPasswordTextfield : String := ""
  deriving DecidableEq, Repr

structure ForgetPasswordViewController where
  userEmail : String := ""
  userEmailTextField : String := ""
  deriving DecidableEq, Repr

structure ConfirmPINViewController where
  pinCode : String := ""
  userPINConfirmTextField : String := ""
  deriving DecidableEq, Repr

structure RecreatePasswordViewController where
  newPassword : String := ""
  repeateNewPassword : String := ""
  recreatPasswordTextField : String := ""
  repeatePasswordTextField : String := ""
  deriving DecidableEq, Repr

/-! ## `main/` -/

/-- The registration `memoryDB.observe(.childAdded)` leaves with the database:
the account whose tree is observed, the tree the events so far were computed
from, and the snapshots that wait for the main queue. -/
structure Observer where
  uid : Uid
  seen : Option Json
  queue : List (String × Json)

structure MyMemoriesViewController where
  myMemoriesArray : List Memory := []
  /-- title and date of the rows on screen -/
  myMemoriesTable : List (String × String) := []
  observer : Option Observer := none

namespace MyMemoriesViewController

/-- `tableView(_:numberOfRowsInSection:)` -/
def numberOfRowsInSection (c : MyMemoriesViewController) : ℕ :=
  c.myMemoriesArray.length

/-- `tableView(_:cellForRowAt:)`, as the title and the date of the cell. -/
def cellForRowAt (c : MyMemoriesViewController) (row : ℕ) : Option (String × String) :=
  c.myMemoriesArray[row]?.map fun m => (m.memoryTitle, m.memoryDate)

/-- `myMemoriesTable.reloadData()` asks for every row again. -/
def reloadData (c : MyMemoriesViewController) : MyMemoriesViewController :=
  { c with myMemoriesTable := (List.range c.numberOfRowsInSection).filterMap c.cellForRowAt }

end MyMemoriesViewController

/-- A calendar day, as `Date()` gives it to the formatter. -/
structure Date where
  day : ℕ
  month : ℕ
  year : ℕ
  deriving DecidableEq, Repr

/-- A number in at least `width` decimal digits. -/
def padded (width n : ℕ) : String :=
  "".pushn '0' (width - (Nat.repr n).length) ++ Nat.repr n

/-- `formatter.string(from:)` with `dateFormat = "dd/MM/yyyy"` -/
def Date.formatted (d : Date) : String :=
  padded 2 d.day ++ "/" ++ padded 2 d.month ++ "/" ++ padded 4 d.year

structure AddMemoryViewController where
  memoryID : String := ""
  memoryTitle : String := ""
  memoryBody : String := ""
  memoryDate : String := ""
  date : Date
  initator : String := ""
  titleTextField : String := ""
  memoryBodyTextField : String := ""
  deriving DecidableEq, Repr

namespace AddMemoryViewController

def viewDidLoad (c : AddMemoryViewController) : AddMemoryViewController :=
  { c with
    titleTextField := c.memoryTitle
    memoryBodyTextField := c.memoryBody
    memoryDate := c.date.formatted }

/-- The constant `a` of `random`. -/
def alphabet : List Char :=
  "abcdefghijklmnopqrstuvwxyzABCDEFGHIJKLMNOPQRSTUVWXYZ1234567890".toList

end AddMemoryViewController

/-- The shape of a memory's ID: 28 characters of `[a-zA-Z0-9]`. -/
def IsMemoryID (s : String) : Prop :=
  s.toList.length = 28 ∧ ∀ c ∈ s.toList, c.isAlphanum = true

instance (s : String) : Decidable (IsMemoryID s) :=
  inferInstanceAs (Decidable (_ ∧ _))

theorem IsMemoryID.isKey {s : String} (h : IsMemoryID s) : IsKey s := by
  constructor
  · rintro rfl
    exact absurd h.1 (by decide)
  · intro c hc hbad
    have hno : ∀ c ∈ kInvalidKeyCharacters, c.isAlphanum = false := by
      simp only [kInvalidKeyCharacters, List.forall_mem_cons, List.not_mem_nil, false_imp_iff,
        implies_true, and_true]
      decide
    exact absurd (h.2 c hc) (by rw [hno c hbad]; decide)

/-- What `arc4random_uniform(UInt32(a.characters.count))` returns in the 28
rounds of `random`: each draw is below the bound it is asked for. -/
structure Draws where
  values : List ℕ
  length_eq : values.length = 28
  below : ∀ r ∈ values, r < AddMemoryViewController.alphabet.length

namespace AddMemoryViewController

/-- `a[a.index(a.startIndex, offsetBy: r)]` -/
def characterAt (r : ℕ) : Result Char :=
  match alphabet[r]? with
  | some c => pure c
  | none => throw .indexOutOfRange

/-- The loop of `random`: `n` rounds, each with its draw, onto `s`. -/
def randomLoop : ℕ → List ℕ → String → Result String
  | n + 1, r :: rs, s => do
    let c ← characterAt r
    randomLoop n rs (s.push c)
  | _, _, s => pure s

def random (draws : Draws) : Result String :=
  randomLoop 28 draws.values ""

theorem characterAt_eq_ok {r : ℕ} {c : Char} (h : alphabet[r]? = some c) :
    characterAt r = .ok c := by
  rw [characterAt, h]
  rfl

/-- The loop appends the characters of the alphabet at its draws. -/
theorem randomLoop_eq_ok (rs : List ℕ) (h : ∀ r ∈ rs, r < alphabet.length) (s : String) :
    ∃ cs : List Char, randomLoop rs.length rs s = .ok (s ++ String.ofList cs) ∧
      cs.map some = rs.map fun r => alphabet[r]? := by
  induction rs generalizing s with
  | nil => exact ⟨[], by simp [randomLoop], rfl⟩
  | cons r rs ih =>
    obtain ⟨c, hc⟩ : ∃ c, alphabet[r]? = some c :=
      ⟨_, List.getElem?_eq_getElem (h r List.mem_cons_self)⟩
    obtain ⟨cs, hrest, hmap⟩ := ih (fun r' hr' => h r' (List.mem_cons_of_mem r hr')) (s.push c)
    refine ⟨c :: cs, ?_, ?_⟩
    · rw [List.length_cons, randomLoop, characterAt_eq_ok hc, Result.ok_bind, hrest]
      congr 1
      apply String.toList_injective
      simp
    · rw [List.map_cons, List.map_cons, hmap, hc]

/-- `random` returns the characters of the alphabet at its draws. -/
theorem random_eq_ok_of_draws (draws : Draws) :
    ∃ s, random draws = .ok s ∧ s.toList.map some = draws.values.map fun r => alphabet[r]? := by
  obtain ⟨cs, hloop, hmap⟩ := randomLoop_eq_ok draws.values draws.below ""
  refine ⟨String.ofList cs, ?_, ?_⟩
  · rw [random, ← draws.length_eq, hloop]
    simp
  · rw [String.toList_ofList, hmap]

set_option maxRecDepth 2000 in
/-- `random` returns the ID of a memory. -/
theorem random_eq_ok (draws : Draws) : ∃ s, random draws = .ok s ∧ IsMemoryID s := by
  obtain ⟨s, hs, hmap⟩ := random_eq_ok_of_draws draws
  have halphabet : alphabet.all Char.isAlphanum = true := by decide
  refine ⟨s, hs, ?_, ?_⟩
  · have hlen := congrArg List.length hmap
    simpa [draws.length_eq] using hlen
  · intro c hc
    have hmem : some c ∈ draws.values.map fun r => alphabet[r]? :=
      hmap ▸ List.mem_map_of_mem hc
    obtain ⟨r, -, hr⟩ := List.mem_map.mp hmem
    exact List.all_eq_true.mp halphabet c (List.mem_of_getElem? hr)

end AddMemoryViewController

structure ShowMemoryViewController where
  index : ℕ := 0
  memoryID : String := ""
  memoryTitle : String := ""
  memoryBody : String := ""
  memoryTilteTextField : String := ""
  memoryBodyTextView : String := ""
  deriving DecidableEq, Repr

def ShowMemoryViewController.viewDidLoad (c : ShowMemoryViewController) :
    ShowMemoryViewController :=
  { c with memoryTilteTextField := c.memoryTitle, memoryBodyTextView := c.memoryBody }

/-! ## `main/My profile/` -/

structure MyProfileViewController where
  userNameLbl : String := ""
  deriving DecidableEq, Repr

structure ChangePasswordViewController where
  userPassword : String := ""
  oldPassword : String := ""
  newpassword : String := ""
  repeateNewPassword : String := ""
  oldPasswordTextField : String := ""
  newPasswordTextField : String := ""
  repeatNewPasswordTextField : String := ""
  oldPasswordTextFieldIsHidden : Bool := false
  doneBtnIsHidden : Bool := false
  newPasswordTextFieldIsHidden : Bool := false
  repeatNewPasswordTextFieldIsHidden : Bool := false
  updateBtnIsHidden : Bool := false
  deriving DecidableEq, Repr

namespace ChangePasswordViewController

def hideObjects (c : ChangePasswordViewController) : ChangePasswordViewController :=
  { c with
    newPasswordTextFieldIsHidden := true
    repeatNewPasswordTextFieldIsHidden := true
    updateBtnIsHidden := true }

def showHiddenObjects (c : ChangePasswordViewController) : ChangePasswordViewController :=
  { c with
    newPasswordTextFieldIsHidden := false
    repeatNewPasswordTextFieldIsHidden := false
    updateBtnIsHidden := false }

def viewDidLoad (c : ChangePasswordViewController) : ChangePasswordViewController :=
  { c with oldPasswordTextFieldIsHidden := false, doneBtnIsHidden := false }.hideObjects

end ChangePasswordViewController

/-! ## Any controller, and alerts -/

/-- A controller instance; `imagePicker` is UIKit's own photo picker. -/
inductive ViewController where
  | logIn (c : LogInViewController)
  | registration (c : RegistrationViewController)
  | forgetPassword (c : ForgetPasswordViewController)
  | confirmPIN (c : ConfirmPINViewController)
  | recreatePassword (c : RecreatePasswordViewController)
  | myMemories (c : MyMemoriesViewController)
  | addMemory (c : AddMemoryViewController)
  | showMemory (c : ShowMemoryViewController)
  | myProfile (c : MyProfileViewController)
  | changePassword (c : ChangePasswordViewController)
  | imagePicker

/-- What the default action of an alert does once the alert is gone. -/
inductive AlertAction where
  /-- `handler: nil`, or an empty closure -/
  | dismissOnly
  | presentMemories
  | presentMyProfile
  | presentConfirmPIN
  | presentLogIn
  | deleteMemory
  | setUserName
  | signOut
  | openGallary
  deriving DecidableEq, Repr

/-- A `UIAlertController`: its texts, its default action and the title of its
cancel action when it has one. -/
structure Alert where
  title : String
  message : String
  okTitle : String
  action : AlertAction := .dismissOnly
  cancelTitle : Option String := none
  deriving DecidableEq, Repr

/-- An alert whose only action is an OK without a handler. -/
def okAlert (title message : String) : Alert where
  title := title
  message := message
  okTitle := "OK"

end DailyDiary
