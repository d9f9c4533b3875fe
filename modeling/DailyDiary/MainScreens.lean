/-
The handlers of `controller/main/`: the list of memories, one memory on screen,
and the screen that adds or edits one.
-/
import DailyDiary.Device

set_option autoImplicit false

namespace DailyDiary

/-! ## `myMemoriesViewController` -/

namespace MyMemoriesViewController

def addMemoriesBtnPressed (self : VcId) (today : Date) (d : Device) : Result Device :=
  d.present self (.addMemory { date := today, initator := "vc1" })

def myProfilePageBtnPressed (self : VcId) (d : Device) : Result Device :=
  d.present self (.myProfile {})

/-- `tableView(_:didSelectRowAt:)` -/
def didSelectRowAt (self : VcId) (row : ℕ) (c : MyMemoriesViewController) (d : Device) :
    Result Device :=
  match c.myMemoriesArray[row]? with
  | some m => d.present self (.showMemory
      { index := row
        memoryID := m.memoryID
        memoryTitle := m.memoryTitle
        memoryBody := m.memoryBody })
  | none => throw .indexOutOfRange

/-- The `.childAdded` block with the `j`-th snapshot that waits for it. -/
def childAdded (self : VcId) (snapshot : Json) (c : MyMemoriesViewController) (d : Device) :
    Result Device := do
  let oneMemory ← Memory.ofSnapshot snapshot
  let c := { c with myMemoriesArray := c.myMemoriesArray ++ [oneMemory] }
  pure (d.setVc self (.myMemories c.reloadData))

end MyMemoriesViewController

/-! ## `showMemoryViewController` -/

namespace ShowMemoryViewController

def backBtnPressed (d : Device) : Device :=
  d.dismiss

def areYouSure : Alert where
  title := "Delete"
  message := "Are you sure you want to delete this memeory ?"
  okTitle := "Ok"
  action := .deleteMemory
  cancelTitle := some "cancel"

def deleteBtnPressed (self : VcId) (d : Device) : Device :=
  d.presentAlert self areYouSure

/-- The Ok of `deleteBtnPressed`'s alert. -/
def deleteConfirmed (self : VcId) (c : ShowMemoryViewController) (d : Device) :
    Result Device := do
  let uid ← d.currentUid
  let ref ← (memoryRef uid).child c.memoryID
  let d := d.setValue ref none .none
  d.present self (.myMemories {})

theorem deleteConfirmed_of_some {self : VcId} {c : ShowMemoryViewController} {d : Device} {u : Uid}
    (hu : d.currentUser = some u) (hid : isValidPathString c.memoryID = true) :
    c.deleteConfirmed self d =
      (d.setValue ((memoryRef u).childFromString c.memoryID) none .none).present self
        (.myMemories {}) := by
  rw [deleteConfirmed, Device.currentUid_of_some hu, Result.ok_bind, Ref.child_of_valid hid,
    Result.ok_bind]

/-- The record of an ID that is no path string cannot be addressed: nothing is removed and the
app stops. -/
theorem deleteConfirmed_of_invalid {self : VcId} {c : ShowMemoryViewController} {d : Device}
    {u : Uid} (hu : d.currentUser = some u) (hid : isValidPathString c.memoryID = false) :
    c.deleteConfirmed self d = .error .invalidPath := by
  rw [deleteConfirmed, Device.currentUid_of_some hu, Result.ok_bind, Ref.child_of_invalid hid,
    Result.error_bind]

theorem deleteConfirmed_of_none {self : VcId} {c : ShowMemoryViewController} {d : Device}
    (hu : d.currentUser = none) : c.deleteConfirmed self d = .error .nilUser := by
  rw [deleteConfirmed, Device.currentUid_of_none hu]
  rfl

/-- It goes through for a signed-in user and an ID that is a path string, and stops the app
otherwise. -/
theorem deleteConfirmed_cases (self : VcId) (c : ShowMemoryViewController) (d : Device) :
    (∃ f, c.deleteConfirmed self d = .error f ∧
      (f = .nilUser ∧ d.currentUser = none ∨ f = .invalidPath)) ∨
    ∃ u, d.currentUser = some u ∧ isValidPathString c.memoryID = true ∧
      c.deleteConfirmed self d =
        (d.setValue ((memoryRef u).childFromString c.memoryID) none .none).present self
          (.myMemories {}) := by
  rcases Option.eq_none_or_eq_some d.currentUser with hu | ⟨u, hu⟩
  · exact Or.inl ⟨_, deleteConfirmed_of_none hu, Or.inl ⟨rfl, hu⟩⟩
  · cases hid : isValidPathString c.memoryID with
    | false => exact Or.inl ⟨_, deleteConfirmed_of_invalid hu hid, Or.inr rfl⟩
    | true => exact Or.inr ⟨u, hu, rfl, deleteConfirmed_of_some hu hid⟩

def editBtnPressed (self : VcId) (today : Date) (c : ShowMemoryViewController) (d : Device) :
    Result Device :=
  d.present self (.addMemory
    { date := today
      initator := "vc2"
      memoryID := c.memoryID
      memoryTitle := c.memoryTitle
      memoryBody := c.memoryBody })

end ShowMemoryViewController

/-! ## `addMemoryViewController` -/

namespace AddMemoryViewController

/-- The controller's variables as a memory. -/
def memory (c : AddMemoryViewController) : Memory where
  memoryID := c.memoryID
  memoryTitle := c.memoryTitle
  memoryBody := c.memoryBody
  memoryDate := c.memoryDate

/-- The assignments of `doneBtnPressed` before the write: the texts, and a fresh
ID when the screen was opened to add. -/
def readFields (draws : Draws) (c : AddMemoryViewController) : Result AddMemoryViewController :=
  let c := { c with memoryTitle := c.titleTextField, memoryBody := c.memoryBodyTextField }
  if c.initator = "vc1" then do
    let memoryID ← random draws
    pure { c with memoryID }
  else pure c

/-- The texts are taken over, and the ID is kept unless the screen was opened to
add. -/
theorem readFields_eq_ok (draws : Draws) (c : AddMemoryViewController) :
    ∃ id, c.readFields draws = .ok { c with
        memoryTitle := c.titleTextField
        memoryBody := c.memoryBodyTextField
        memoryID := id } ∧
      (c.initator = "vc1" → IsMemoryID id) ∧ (c.initator ≠ "vc1" → id = c.memoryID) := by
  unfold readFields
  dsimp only
  split
  · next hvc1 =>
    obtain ⟨s, hs, hid⟩ := random_eq_ok draws
    rw [hs]
    exact ⟨s, rfl, fun _ => hid, fun hne => absurd hvc1 hne⟩
  · next hvc2 => exact ⟨c.memoryID, rfl, fun hvc1 => absurd hvc1 hvc2, fun _ => rfl⟩

def doneBtnPressed (self : VcId) (draws : Draws) (c : AddMemoryViewController) (d : Device) :
    Result Device := do
  let d := d.hudShow
  let c ← c.readFields draws
  let d := d.setVc self (.addMemory c)
  let uid ← d.currentUid
  let ref ← (memoryRef uid).child c.memoryID
  pure (d.setValue ref c.memory.toDictionary (.memorySaved self))

section DoneBtnPressed

variable {self : VcId} {draws : Draws} {c c' : AddMemoryViewController} {d : Device}

theorem doneBtnPressed_of_some {u : Uid} (hc : c.readFields draws = .ok c')
    (hu : d.currentUser = some u) (hid : isValidPathString c'.memoryID = true) :
    c.doneBtnPressed self draws d =
      .ok ((d.hudShow.setVc self (.addMemory c')).setValue
        ((memoryRef u).childFromString c'.memoryID) c'.memory.toDictionary
          (.memorySaved self)) := by
  have huid : (d.hudShow.setVc self (.addMemory c')).currentUid = .ok u :=
    Device.currentUid_of_some hu
  simp only [doneBtnPressed, hc, huid, Result.ok_bind, Ref.child_of_valid hid]
  rfl

/-- An edit of a record whose ID is no path string writes nothing and stops the app. -/
theorem doneBtnPressed_of_invalid {u : Uid} (hc : c.readFields draws = .ok c')
    (hu : d.currentUser = some u) (hid : isValidPathString c'.memoryID = false) :
    c.doneBtnPressed self draws d = .error .invalidPath := by
  have huid : (d.hudShow.setVc self (.addMemory c')).currentUid = .ok u :=
    Device.currentUid_of_some hu
  simp only [doneBtnPressed, hc, huid, Result.ok_bind, Ref.child_of_invalid hid,
    Result.error_bind]

theorem doneBtnPressed_of_none (hu : d.currentUser = none) :
    c.doneBtnPressed self draws d = .error .nilUser := by
  obtain ⟨id, hread, -⟩ := c.readFields_eq_ok draws
  have huid : ∀ v, (d.hudShow.setVc self v).currentUid = .error .nilUser := fun _ =>
    Device.currentUid_of_none hu
  simp only [doneBtnPressed, hread, huid, Result.ok_bind, Result.error_bind]

/-- It goes through for a signed-in user and an ID that is a path string, and stops the app
otherwise. -/
theorem doneBtnPressed_cases (self : VcId) (draws : Draws) (c : AddMemoryViewController)
    (d : Device) :
    (∃ f, c.doneBtnPressed self draws d = .error f ∧
      (f = .nilUser ∧ d.currentUser = none ∨ f = .invalidPath)) ∨
    ∃ c' u, c.readFields draws = .ok c' ∧ d.currentUser = some u ∧
      isValidPathString c'.memoryID = true ∧ c.doneBtnPressed self draws d =
        .ok ((d.hudShow.setVc self (.addMemory c')).setValue
          ((memoryRef u).childFromString c'.memoryID) c'.memory.toDictionary
            (.memorySaved self)) := by
  obtain ⟨id, hread, -⟩ := c.readFields_eq_ok draws
  rcases Option.eq_none_or_eq_some d.currentUser with hu | ⟨u, hu⟩
  · exact Or.inl ⟨_, doneBtnPressed_of_none hu, Or.inl ⟨rfl, hu⟩⟩
  · cases hid : isValidPathString id with
    | false => exact Or.inl ⟨_, doneBtnPressed_of_invalid hread hu hid, Or.inr rfl⟩
    | true => exact Or.inr ⟨_, u, hread, hu, hid, doneBtnPressed_of_some hread hu hid⟩

end DoneBtnPressed

def memoryIsSaved : Alert where
  title := "Done"
  message := "Memory is saved "
  okTitle := "OK"
  action := .presentMemories

/-- The completion block of the write. -/
def memorySaved (self : VcId) (failed : Bool) (d : Device) : Device :=
  if failed then d else d.presentAlert self memoryIsSaved

def cancelBtnPressed (self : VcId) (d : Device) : Result Device :=
  d.present self (.myMemories {})

end AddMemoryViewController

end DailyDiary
