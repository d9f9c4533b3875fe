/-
What the app uses of Firebase: the Auth accounts, the Realtime Database and the
references into it.

The database is one tree of strings (`PathTree`), addressed by references. A
reference is a path; `child` cuts its argument at the slashes and drops empty
pieces, as `FPath` does, which `userID! + "/password"` relies on. It raises an
exception when the argument is no path string: an ID that is empty or has one of
five characters stops the app before anything is written.

Account and row are tied by the uid only. A uid is a database key: not empty,
without a slash, so that `child(uid)` descends exactly one level, and without the
characters that `child` refuses.
-/
import Mathlib.Data.List.SplitBy
import DailyDiary.PathTree

set_option autoImplicit false

namespace DailyDiary

/-! ## Failures -/

/-- The ways a handler can stop the app. -/
inductive Fault where
  /-- a force-unwrap of `Auth.auth().currentUser?.uid` while nobody is signed in -/
  | nilUser
  /-- `as! Dictionary<String,String>` of something else -/
  | forcedCast
  /-- a force-unwrap of a missing key of a snapshot -/
  | missingKey
  /-- an index past the end of an array or a string -/
  | indexOutOfRange
  /-- the exception `child(_:)` raises for what is no path string; nothing catches it -/
  | invalidPath
  deriving DecidableEq, Repr

/-- The result of code that may stop the app. -/
abbrev Result := Except Fault

namespace Result

variable {α β : Type}

@[simp] theorem pure_eq_ok (a : α) : (pure a : Result α) = .ok a := rfl

@[simp] theorem ok_bind (a : α) (k : α → Result β) : ((.ok a : Result α) >>= k) = k a := rfl

@[simp] theorem error_bind (f : Fault) (k : α → Result β) :
    ((.error f : Result α) >>= k) = .error f := rfl

theorem bind_eq_ok {x : Result α} {k : α → Result β} {b : β} :
    x >>= k = .ok b ↔ ∃ a, x = .ok a ∧ k a = .ok b := by
  cases x <;> simp

theorem bind_eq_error {x : Result α} {k : α → Result β} {f : Fault} :
    x >>= k = .error f ↔ x = .error f ∨ ∃ a, x = .ok a ∧ k a = .error f := by
  cases x <;> simp

end Result

/-! ## References -/

/-- A database reference: the keys from the root down. -/
abbrev Ref := List String

/-- The pieces of a path string, as `FPath initWith:` makes them. -/
def pieces (path : String) : List String :=
  ((path.toList.splitOn '/').filter fun cs => cs ≠ []).map String.ofList

/-- `Database.database().reference()` -/
def reference : Ref := []

def kInvalidPathCharacters : List Char :=
  ['[', ']', '.', '#', '$']

def kInvalidKeyCharacters : List Char :=
  ['[', ']', '.', '#', '$', '/']

/-- `isValidPathString:` -/
def isValidPathString (pathString : String) : Bool :=
  pathString ≠ "" && pathString.toList.all fun c => c ∉ kInvalidPathCharacters

/-- `childFromString:` -/
def Ref.childFromString (r : Ref) (path : String) : Ref :=
  r ++ pieces path

/-- `child(_:)`. At the root it lets `.info` through as well, where the app asks for
`"memory"` and `"user"` only. -/
def Ref.child (r : Ref) (path : String) : Result Ref :=
  if isValidPathString path then pure (r.childFromString path) else throw .invalidPath

theorem Ref.child_of_valid {path : String} (h : isValidPathString path = true) (r : Ref) :
    r.child path = .ok (r.childFromString path) :=
  if_pos h

theorem Ref.child_of_invalid {path : String} (h : isValidPathString path = false) (r : Ref) :
    r.child path = .error .invalidPath :=
  if_neg (Bool.eq_false_iff.mp h)

/-- `isValidKey:`, of a string that names one child. -/
def IsKey (s : String) : Prop :=
  s ≠ "" ∧ ∀ c ∈ s.toList, c ∉ kInvalidKeyCharacters

instance (s : String) : Decidable (IsKey s) :=
  @instDecidableAnd _ _ _ (List.decidableBAll _ _)

/-- The uid of a Firebase Auth account. -/
structure Uid where
  val : String
  isKey : IsKey val
  deriving DecidableEq

theorem Uid.ext {u v : Uid} (h : u.val = v.val) : u = v := by
  cases u
  cases v
  simpa using h

theorem IsKey.not_slash {s : String} (h : IsKey s) :
    ∀ c ∈ s.toList, (c == '/') = false := by
  intro c hc
  rw [beq_eq_false_iff_ne]
  rintro rfl
  exact h.2 '/' hc (by decide)

theorem IsKey.toList_ne_nil {s : String} (h : IsKey s) : s.toList ≠ [] := by
  intro hnil
  exact h.1 (String.toList_eq_nil_iff.mp hnil)

/-- The characters of a key are characters of a path. -/
theorem IsKey.all_valid {s : String} (h : IsKey s) :
    s.toList.all (fun c => c ∉ kInvalidPathCharacters) = true := by
  have hsub : ∀ c ∈ kInvalidPathCharacters, c ∈ kInvalidKeyCharacters := by
    simp [kInvalidPathCharacters, kInvalidKeyCharacters]
  rw [List.all_eq_true]
  exact fun c hc => decide_eq_true fun hbad => h.2 c hc (hsub c hbad)

theorem IsKey.isValidPathString {s : String} (h : IsKey s) : isValidPathString s = true := by
  rw [DailyDiary.isValidPathString, h.all_valid, Bool.and_true, decide_eq_true h.1]

theorem isValidPathString_append_slash {s t : String} (hs : IsKey s) (ht : IsKey t) :
    isValidPathString (s ++ ("/" ++ t)) = true := by
  have hlist : (s ++ ("/" ++ t)).toList = s.toList ++ '/' :: t.toList := by
    simp [String.toList_append]
  have hne : s ++ ("/" ++ t) ≠ "" := by
    intro hnil
    rw [hnil] at hlist
    simp at hlist
  rw [isValidPathString, decide_eq_true hne, Bool.true_and, hlist, List.all_append,
    List.all_cons, hs.all_valid, ht.all_valid]
  decide

theorem pieces_eq_of_isKey {s : String} (h : IsKey s) : pieces s = [s] := by
  have hsplit : s.toList.splitOn '/' = [s.toList] :=
    List.splitOnP_eq_singleton h.not_slash
  simp [pieces, hsplit, h.toList_ne_nil]

/-- `userID! + "/field"` addresses the field below the row. -/
theorem pieces_append_slash {s t : String} (hs : IsKey s) (ht : IsKey t) :
    pieces (s ++ ("/" ++ t)) = [s, t] := by
  have hlist : (s ++ ("/" ++ t)).toList = s.toList ++ '/' :: t.toList := by
    simp [String.toList_append]
  have hsplit : (s.toList ++ '/' :: t.toList).splitOn '/' = [s.toList, t.toList] := by
    rw [List.splitOn, List.splitOnP_append_cons_of_forall_mem hs.not_slash '/' (by simp),
      List.splitOnP_eq_singleton ht.not_slash]
  rw [pieces, hlist, hsplit]
  simp [hs.toList_ne_nil, ht.toList_ne_nil]

/-- `reference().child("memory").child(uid)`, which does not raise
(`child_child_eq_memoryRef`) -/
def memoryRef (u : Uid) : Ref :=
  (reference.childFromString "memory").childFromString u.val

/-- `reference().child("user").child(uid)` -/
def userRef (u : Uid) : Ref :=
  (reference.childFromString "user").childFromString u.val

/-- `reference().child("user").child(uid + "/field")` -/
def userFieldRef (u : Uid) (field : String) : Ref :=
  (reference.childFromString "user").childFromString (u.val ++ ("/" ++ field))

/-- Two steps down from the root along path strings. -/
theorem child_child_eq {s t : String} (hs : isValidPathString s = true)
    (ht : isValidPathString t = true) : (reference.child s >>= fun r => r.child t) =
      .ok ((reference.childFromString s).childFromString t) := by
  rw [Ref.child_of_valid hs, Result.ok_bind, Ref.child_of_valid ht]

/-- The three references the handlers start from never raise, as a uid is a key. -/
theorem child_child_eq_memoryRef (u : Uid) :
    (reference.child "memory" >>= fun r => r.child u.val) = .ok (memoryRef u) :=
  child_child_eq (by decide) u.isKey.isValidPathString

theorem child_child_eq_userRef (u : Uid) :
    (reference.child "user" >>= fun r => r.child u.val) = .ok (userRef u) :=
  child_child_eq (by decide) u.isKey.isValidPathString

theorem child_child_eq_userFieldRef (u : Uid) {field : String} (h : IsKey field) :
    (reference.child "user" >>= fun r => r.child (u.val ++ ("/" ++ field))) =
      .ok (userFieldRef u field) :=
  child_child_eq (by decide) (isValidPathString_append_slash u.isKey h)

@[simp] theorem memoryRef_eq (u : Uid) : memoryRef u = ["memory", u.val] := by
  simp [memoryRef, Ref.childFromString, reference, pieces_eq_of_isKey u.isKey,
    pieces_eq_of_isKey (s := "memory") (by decide)]

@[simp] theorem userRef_eq (u : Uid) : userRef u = ["user", u.val] := by
  simp [userRef, Ref.childFromString, reference, pieces_eq_of_isKey u.isKey,
    pieces_eq_of_isKey (s := "user") (by decide)]

theorem userFieldRef_eq (u : Uid) {field : String} (h : IsKey field) :
    userFieldRef u field = ["user", u.val, field] := by
  simp [userFieldRef, Ref.childFromString, reference, pieces_append_slash u.isKey h,
    pieces_eq_of_isKey (s := "user") (by decide)]

/-! ## Values -/

/-- A value in the database; the app stores strings and dictionaries of strings. -/
abbrev Json := PathTree.Node String String

/-- A dictionary literal handed to `setValue`. -/
def dictionary (fields : List (String × String)) : Option Json :=
  PathTree.ofChildren (fields.map fun f => (f.1, .leaf f.2))

/-- `value as! Dictionary<String,String>`: every entry has to be a string. -/
def asStringDictionary : Json → Result (List (String × String))
  | .leaf _ => throw .forcedCast
  | .dict cs => cs.mapM fun c =>
    match c.2 with
    | .leaf s => pure (c.1, s)
    | .dict _ => throw .forcedCast

theorem asStringDictionary_error {value : Json} {f : Fault}
    (h : asStringDictionary value = .error f) : f = .forcedCast := by
  cases value with
  | leaf s => exact (Except.error.inj h).symm
  | dict cs =>
    simp only [asStringDictionary] at h
    induction cs with
    | nil => cases h
    | cons c cs ih =>
      rw [List.mapM_cons] at h
      rcases Result.bind_eq_error.mp h with h | ⟨_, _, h⟩
      · split at h <;> cases h
        rfl
      · rcases Result.bind_eq_error.mp h with h | ⟨_, _, h⟩
        · exact ih h
        · cases h

/-- `(value as? NSDictionary)?.value(forKey: key) as? String` -/
def stringField (key : String) (value : Option Json) : Option String :=
  match PathTree.child key value with
  | some (.leaf s) => some s
  | _ => none

/-! ## The server -/

/-- One Auth account. -/
structure Account where
  uid : Uid
  email : String
  password : String
  deriving DecidableEq

/-- The two services: the Auth accounts and the database. -/
structure Server where
  accounts : List Account
  db : Option Json

/-- The password Auth holds for an account. -/
def Server.authPassword (srv : Server) (u : Uid) : Option String :=
  (srv.accounts.find? fun a => a.uid = u).map Account.password

/-- The row `user/<uid>`. -/
def Server.userRow (srv : Server) (u : Uid) : Option Json :=
  PathTree.get (userRef u) srv.db

end DailyDiary
