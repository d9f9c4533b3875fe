/-
A device running the app: the session, the controllers and their modal stack,
and the requests Firebase has not answered yet; with the SDK and UIKit calls the
handlers are written in.

* A controller instance has an identity, its index in `vcs`. Instances are never
  removed: a dismissed controller lives on while a completion closure holds it.
* `stack` is the chain of presented controllers, the top one first. An alert
  sits over the top controller, which presented it. `present` on a controller
  that is not on top, or that has an alert over it, is ignored by UIKit.
* `setValue` is visible at once to this device's own observers: they see the
  server's tree as last pushed (`cache`) with the pending writes applied in the
  order they were issued (`view`). An answered write leaves `writes`, which
  takes a rejected one back.
* `asked` keeps every alert a handler asked UIKit for, whether it was shown or
  not. No handler reads it.
-/
import DailyDiary.Controllers

set_option autoImplicit false

namespace DailyDiary

/-! ## Pending requests -/

/-- The identity of a controller instance. -/
abbrev VcId := ℕ

/-- A request to Firebase Auth that has not completed. `submittedName` is the
user name at the press that issued a `createUser`: it is not sent and the
completion does not read it, it is kept to say what was submitted. -/
inductive AuthCall where
  | signIn (self : VcId) (email password : String)
  | createUser (self : VcId) (email password submittedName : String)
  | updatePassword (uid : Uid) (password : String)
  deriving DecidableEq

/-- The completion block handed to `setValue` or `removeValue`. -/
inductive Completion where
  /-- `removeValue()` without a block -/
  | none
  /-- the row written by `registerBtnPressed` -/
  | userRow
  | memorySaved (self : VcId)
  | userName (self : VcId)
  | password
  deriving DecidableEq

/-- A write the device has issued; `verdict` is the server's decision, once
there is one. -/
structure Write where
  ref : Ref
  value : Option Json
  completion : Completion
  verdict : Option Bool := .none

/-- The block handed to `observeSingleEvent(of: .value)`. -/
inductive ReadHandler where
  | userName (self : VcId)
  | password (self : VcId)
  deriving DecidableEq

/-- A single read; `snapshot` is the server's answer, once there is one. -/
structure Read where
  ref : Ref
  handler : ReadHandler
  snapshot : Option (Option Json) := .none

/-! ## The device -/

structure Device where
  currentUser : Option Uid
  vcs : List ViewController
  stack : List VcId
  alert : Option Alert
  asked : List Alert
  /-- `SVProgressHUD` is on screen -/
  hud : Bool
  auths : List AuthCall
  writes : List Write
  reads : List Read
  cache : Option Json
  fault : Option Fault

namespace Device

/-- The app right after its start: the login screen, with the session Auth kept
from an earlier run. -/
def launch (user : Option Uid) : Device where
  currentUser := user
  vcs := [.logIn {}]
  stack := [0]
  alert := none
  asked := []
  hud := false
  auths := []
  writes := []
  reads := []
  cache := none
  fault := none

/-- `Auth.auth().currentUser!.uid` -/
def currentUid (d : Device) : Result Uid :=
  match d.currentUser with
  | some u => pure u
  | none => throw .nilUser

theorem currentUid_of_some {d : Device} {u : Uid} (h : d.currentUser = some u) :
    d.currentUid = .ok u := by
  rw [currentUid, h]
  rfl

theorem currentUid_of_none {d : Device} (h : d.currentUser = none) :
    d.currentUid = .error .nilUser := by
  rw [currentUid, h]
  rfl

theorem currentUid_eq_ok {d : Device} {u : Uid} :
    d.currentUid = .ok u ↔ d.currentUser = some u := by
  cases h : d.currentUser with
  | none => simp [currentUid_of_none h]
  | some v => simp [currentUid_of_some h]

theorem currentUid_eq_error {d : Device} {f : Fault} :
    d.currentUid = .error f ↔ d.currentUser = none ∧ f = .nilUser := by
  cases h : d.currentUser with
  | none => simp [currentUid_of_none h, eq_comm]
  | some v => simp [currentUid_of_some h]

/-! ## `SVProgressHUD` -/

def hudShow (d : Device) : Device := { d with hud := true }

def hudDismiss (d : Device) : Device := { d with hud := false }

/-! ## Controllers and the modal stack -/

def setVc (i : VcId) (v : ViewController) (d : Device) : Device :=
  { d with vcs := d.vcs.set i v }

/-- The controller is on top with nothing over it. -/
def onTop (i : VcId) (d : Device) : Prop :=
  d.stack.head? = some i ∧ d.alert = none

instance (i : VcId) (d : Device) : Decidable (d.onTop i) :=
  inferInstanceAs (Decidable (_ ∧ _))

/-- The controller on top of the stack. -/
def top (d : Device) : Option (VcId × ViewController) :=
  d.stack.head?.bind fun i => d.vcs[i]?.map fun v => (i, v)

/-- The controller the user can touch. -/
def visible (d : Device) : Option (VcId × ViewController) :=
  if d.alert = none then d.top else none

/-- `self.present(myAlert, …)` -/
def presentAlert (self : VcId) (a : Alert) (d : Device) : Device :=
  { d with alert := if d.onTop self then some a else d.alert, asked := a :: d.asked }

/-! ## The database as this device sees it -/

/-- The tree this device reads: the server's as last pushed, with its own
pending writes applied. -/
def view (d : Device) : Option Json :=
  d.writes.foldl (fun t w => PathTree.set w.ref w.value t) d.cache

end Device

/-- The observer computes its events from the change of its tree. -/
def Observer.refresh (view : Option Json) (o : Observer) : Observer :=
  let now := PathTree.get (memoryRef o.uid) view
  { o with seen := now, queue := o.queue ++ PathTree.added o.seen now }

def MyMemoriesViewController.refresh (view : Option Json) (c : MyMemoriesViewController) :
    MyMemoriesViewController :=
  { c with observer := c.observer.map (Observer.refresh view) }

def ViewController.refresh (view : Option Json) : ViewController → ViewController
  | .myMemories c => .myMemories (c.refresh view)
  | v => v

namespace Device

/-- After a change of `cache` or `writes` every observer raises its events. -/
def refresh (d : Device) : Device :=
  { d with vcs := d.vcs.map (ViewController.refresh d.view) }

/-- `ref.setValue(value) { … }`; `removeValue()` when there is no value. -/
def setValue (ref : Ref) (value : Option Json) (completion : Completion) (d : Device) : Device :=
  let w : Write := { ref := ref, value := value, completion := completion }
  { d with writes := d.writes ++ [w] }.refresh

/-- `ref.observeSingleEvent(of: .value) { … }` -/
def observeSingleEvent (ref : Ref) (handler : ReadHandler) (d : Device) : Device :=
  let r : Read := { ref := ref, handler := handler }
  { d with reads := d.reads ++ [r] }

/-- A request to Firebase Auth. -/
def request (call : AuthCall) (d : Device) : Device :=
  { d with auths := d.auths ++ [call] }

/-! ## Loading and presenting controllers -/

/-- `retriveMemories()`: start to observe the memories of the account that is
signed in at this moment. -/
def retriveMemories (c : MyMemoriesViewController) (d : Device) :
    Result MyMemoriesViewController := do
  let uid ← d.currentUid
  pure { c with observer := some { uid, seen := none, queue := [] } }

/-- `getUserNameFromDatabase()` of the profile controller `self`. -/
def getUserNameFromDatabase (self : VcId) (d : Device) : Result Device := do
  let uid ← d.currentUid
  pure (d.observeSingleEvent (userRef uid) (.userName self))

theorem getUserNameFromDatabase_of_some {self : VcId} {d : Device} {u : Uid}
    (h : d.currentUser = some u) : d.getUserNameFromDatabase self =
      .ok (d.observeSingleEvent (userRef u) (.userName self)) := by
  rw [getUserNameFromDatabase, currentUid_of_some h]
  rfl

theorem getUserNameFromDatabase_of_none {self : VcId} {d : Device} (h : d.currentUser = none) :
    d.getUserNameFromDatabase self = .error .nilUser := by
  rw [getUserNameFromDatabase, currentUid_of_none h]
  rfl

/-- `viewDidLoad` of a controller that gets the identity `self`. -/
def viewDidLoad (self : VcId) (v : ViewController) (d : Device) :
    Result (ViewController × Device) :=
  match v with
  | .myMemories c => do
    let c ← d.retriveMemories c
    pure (.myMemories c.reloadData, d)
  | .myProfile c => do
    let d ← d.getUserNameFromDatabase self
    pure (.myProfile c, d)
  | .addMemory c => pure (.addMemory c.viewDidLoad, d)
  | .showMemory c => pure (.showMemory c.viewDidLoad, d)
  | .changePassword c => pure (.changePassword c.viewDidLoad, d)
  | v => pure (v, d)

/-- A loaded controller goes on top of the stack. -/
def push (v : ViewController) (d : Device) : Device :=
  { d with vcs := d.vcs ++ [v], stack := d.vcs.length :: d.stack }.refresh

/-- `self.present(vc, …)` -/
def present (self : VcId) (v : ViewController) (d : Device) : Result Device :=
  if d.onTop self then do
    let (v, d) ← d.viewDidLoad d.vcs.length v
    pure (d.push v)
  else pure d

/-- `viewWillAppear`: the list reloads its table. -/
def viewWillAppear (i : VcId) (d : Device) : Device :=
  match d.vcs[i]? with
  | some (.myMemories c) => d.setVc i (.myMemories c.reloadData)
  | _ => d

/-- `self.dismiss(…)` of the controller on top; the root stays. -/
def dismiss (d : Device) : Device :=
  match d.stack with
  | _ :: i :: rest => { d with stack := i :: rest }.viewWillAppear i
  | _ => d

end Device

end DailyDiary
