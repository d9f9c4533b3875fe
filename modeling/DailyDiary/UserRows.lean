/-
The rows of the `user` table, and what registration demands of them.

Registration checks a row before it is submitted; the profile and the change of
the password write single fields of it by path, with checks of their own or none.
`user_rows_valid` says under which conditions on these handlers every row stays
what registration would accept.
-/
import DailyDiary.Registration

set_option autoImplicit false

namespace DailyDiary

open Device

/-! ## Rows -/

/-- A row with the fields registration demands. -/
structure IsValidRow (row : Option Json) : Prop where
  userName : ∃ s, stringField "userName" row = some s ∧ s ≠ ""
  email : ∃ s, stringField "email" row = some s ∧ isValidEmail s = true
  password : ∃ s, stringField "password" row = some s ∧ isValidPassword (some s) = true

/-- Every row of `user` is one. -/
def ValidTable (db : Option Json) : Prop :=
  ∀ key row, PathTree.get ["user", key] db = some row → IsValidRow (some row)

theorem validTable_of_empty {db : Option Json} (h : PathTree.get ["user"] db = none) :
    ValidTable db := by
  intro key row hrow
  have hsplit : PathTree.get ["user", key] db = PathTree.get [key] (PathTree.get ["user"] db) :=
    PathTree.get_append ["user"] [key] db
  rw [hsplit, h, PathTree.get_none] at hrow
  cases hrow

theorem stringField_set_self (field s : String) (row : Option Json) :
    stringField field (PathTree.set [field] (some (.leaf s)) row) = some s := by
  rw [stringField, PathTree.child_set_self]
  rfl

theorem stringField_set_of_ne {field other : String} (h : other ≠ field) (value row : Option Json) :
    stringField other (PathTree.set [field] value row) = stringField other row := by
  rw [stringField, PathTree.child_set_of_ne h]
  rfl

theorem IsValidRow.setUserName {row : Option Json} (h : IsValidRow row) {s : String}
    (hs : s ≠ "") : IsValidRow (PathTree.set ["userName"] (some (.leaf s)) row) where
  userName := ⟨s, stringField_set_self _ _ _, hs⟩
  email := by
    rw [stringField_set_of_ne (by decide)]
    exact h.email
  password := by
    rw [stringField_set_of_ne (by decide)]
    exact h.password

theorem IsValidRow.setPassword {row : Option Json} (h : IsValidRow row) {s : String}
    (hs : isValidPassword (some s) = true) :
    IsValidRow (PathTree.set ["password"] (some (.leaf s)) row) where
  userName := by
    rw [stringField_set_of_ne (by decide)]
    exact h.userName
  email := by
    rw [stringField_set_of_ne (by decide)]
    exact h.email
  password := ⟨s, stringField_set_self _ _ _, hs⟩

/-- What registration accepts makes a valid row. -/
theorem isValidRow_of_rejection {c : RegistrationViewController} (h : c.rejection = none) :
    IsValidRow c.userDictionary := by
  unfold RegistrationViewController.rejection at h
  split at h
  · cases h
  · next hempty =>
    split at h
    · cases h
    · split at h
      · cases h
      · next hpassword =>
        split at h
        · cases h
        · next hemail =>
          simp only [Bool.or_eq_true, not_or, String.isEmpty_iff] at hempty
          exact ⟨⟨c.userName, rfl, hempty.1.1.1⟩, ⟨c.email, rfl, by simpa using hemail⟩,
            ⟨c.password, rfl, by simpa using hpassword⟩⟩

/-- **A registration that is submitted is valid.** Where `createUser` is issued, the
screen holds what was submitted, and its row is a valid one. So the variables of the screen
are valid when the account is made, unless a later press of Register has overwritten them. -/
theorem Device.Requests.createUser_valid {d : Device} {e : Event} {self : VcId}
    {email password userName : String}
    (h : d.Requests e (.createUser self email password userName)) :
    ∃ c : RegistrationViewController, d.visible = some (self, .registration c) ∧
      c.readFields.email = email ∧ c.readFields.password = password ∧
      c.readFields.userName = userName ∧ IsValidRow c.readFields.userDictionary := by
  cases h with
  | createUser hv hc => exact ⟨_, hv, rfl, rfl, rfl, isValidRow_of_rejection hc⟩

/-! ## Writes -/

/-- A write that leaves valid rows valid, as long as a field is written into a row
that is there. -/
inductive Write.KeepsRows (w : Write) : Prop where
  | memory (h : w.ref.head? = some "memory")
  | row {u : Uid} (href : w.ref = userRef u) (hvalue : IsValidRow w.value)
  | userName {u : Uid} {s : String} (href : w.ref = userFieldRef u "userName")
      (hvalue : w.value = some (.leaf s)) (hs : s ≠ "")
  | password {u : Uid} {s : String} (href : w.ref = userFieldRef u "password")
      (hvalue : w.value = some (.leaf s)) (hs : isValidPassword (some s) = true)

theorem Write.KeepsRows.same {w w' : Write} (h : w.KeepsRows) (hs : w.Same w') :
    w'.KeepsRows := by
  obtain ⟨href, hvalue, -⟩ := hs
  cases h with
  | memory h => exact .memory (href ▸ h)
  | row hr hv => exact .row (href ▸ hr) (hvalue ▸ hv)
  | userName hr hv hs => exact .userName (href ▸ hr) (hvalue ▸ hv) hs
  | password hr hv hs => exact .password (href ▸ hr) (hvalue ▸ hv) hs

/-- The write of a field addresses a row that is there. -/
def Write.findsRow (db : Option Json) (w : Write) : Bool :=
  match w.ref with
  | ["user", key, _] => (PathTree.get ["user", key] db).isSome
  | _ => true

/-- A field is written into one row, and the row is changed by that field. -/
theorem get_user_set_field (u : Uid) {field : String} (hfield : IsKey field) (key : String)
    (value db : Option Json) :
    PathTree.get ["user", key] (PathTree.set (userFieldRef u field) value db) =
      if key = u.val then PathTree.set [field] value (PathTree.get ["user", key] db)
      else PathTree.get ["user", key] db := by
  rw [userFieldRef_eq u hfield]
  by_cases hkey : key = u.val
  · subst hkey
    rw [if_pos rfl]
    exact PathTree.get_append_set ["user", u.val] [field] value db
  · rw [if_neg hkey]
    refine PathTree.get_set_of_disjoint ?_ ?_ value db
    · simp
    · simpa using hkey

/-- What holds of the row after a field write, when it holds of the row before with
that field replaced. -/
theorem ValidTable.setField {db : Option Json} (h : ValidTable db) {u : Uid} {field : String}
    (hfield : IsKey field) {value : Option Json}
    (hrow : (PathTree.get ["user", u.val] db).isSome = true)
    (hset : ∀ row, IsValidRow row → IsValidRow (PathTree.set [field] value row)) :
    ValidTable (PathTree.set (userFieldRef u field) value db) := by
  intro key row hget
  rw [get_user_set_field u hfield] at hget
  by_cases hkey : key = u.val
  · rw [if_pos hkey] at hget
    subst hkey
    obtain ⟨row₀, hrow₀⟩ := Option.isSome_iff_exists.mp hrow
    rw [← hget]
    exact hset _ (hrow₀ ▸ h u.val row₀ hrow₀)
  · rw [if_neg hkey] at hget
    exact h key row hget

/-- A write that keeps the rows keeps the table valid: a registration brings a whole valid
row, an update of one field finds the row it belongs to. -/
theorem ValidTable.set {db : Option Json} (h : ValidTable db) {w : Write} (hw : w.KeepsRows)
    (hfinds : w.findsRow db = true) : ValidTable (PathTree.set w.ref w.value db) := by
  cases hw with
  | memory hm =>
    intro key row hrow
    rw [get_user_set_memory hm] at hrow
    exact h key row hrow
  | @row u href hvalue =>
    intro key row hrow
    rw [href] at hrow
    by_cases hkey : u.val = key
    · subst hkey
      rw [userRef_eq, PathTree.get_set_self] at hrow
      exact hrow ▸ hvalue
    · rw [get_user_set_userRef_of_ne hkey] at hrow
      exact h key row hrow
  | userName href hvalue hs =>
    rw [Write.findsRow, href, userFieldRef_eq _ (by decide)] at hfinds
    rw [href, hvalue]
    exact h.setField (by decide) hfinds fun _ hrow => hrow.setUserName hs
  | password href hvalue hs =>
    rw [Write.findsRow, href, userFieldRef_eq _ (by decide)] at hfinds
    rw [href, hvalue]
    exact h.setField (by decide) hfinds fun _ hrow => hrow.setPassword hs

/-! ## Runs -/

/-- What the rows need of an event: a registration that completes finds on its
screen fields that registration accepts, an entered user name is not empty, a
password that Update accepts is one registration accepts, and the server accepts a
field only for a row that is there. -/
def Device.submitsValid (srv : Server) (d : Device) : Event → Bool
  | .authCompleted k (.success _) =>
    match d.auths[k]? with
    | some (.createUser self _ _ _) =>
      match d.vcs[self]? with
      | some (.registration c) =>
        c.userName ≠ "" && isValidEmail c.email && isValidPassword (some c.password)
      | _ => true
    | _ => true
  | .alertOk text _ => d.alert.map Alert.action ≠ some .setUserName || text ≠ ""
  | .press .updateBtnPressed =>
    match d.visible with
    | some (_, .changePassword c) =>
      c.readFields.rejection.isSome || isValidPassword (some c.newPasswordTextField)
    | _ => true
  | .writeDecided k true =>
    match d.writes[k]? with
    | some w => w.findsRow srv.db
    | none => true
  | _ => true

def SubmitsValid (w : World) (e : ℕ × Event) : Prop :=
  (w.device e.1).submitsValid w.server e.2 = true

instance (w : World) (e : ℕ × Event) : Decidable (SubmitsValid w e) :=
  inferInstanceAs (Decidable (_ = true))

/-- A write issued with valid texts keeps the rows. The cases are the constructors of
`Issues`, and those for the memories write outside the table. -/
theorem Device.Issues.keepsRows {srv : Server} {d : Device} {e : Event} {w : Write}
    (h : d.Issues e w) (hvalid : d.submitsValid srv e = true) : w.KeepsRows := by
  cases h with
  | @userRow k self email password name u c hcall hc =>
    simp only [submitsValid, hcall, hc, Bool.and_eq_true, decide_eq_true_eq] at hvalid
    obtain ⟨⟨hname, hemail⟩, hpassword⟩ := hvalid
    exact .row rfl ⟨⟨c.userName, rfl, hname⟩, ⟨c.email, rfl, hemail⟩, ⟨c.password, rfl, hpassword⟩⟩
  | memory hv hc hu => exact .memory (head_memoryRef _ _)
  | deletion ha ht hu => exact .memory (head_memoryRef _ _)
  | userName ha ht hu =>
    simp only [submitsValid, ha, ne_eq, not_true_eq_false, decide_false, Bool.false_or,
      decide_eq_true_eq] at hvalid
    exact .userName rfl rfl hvalid
  | password hv hshown hc hu =>
    simp only [submitsValid, hv, hc, Option.isSome_none, Bool.false_or] at hvalid
    exact .password rfl rfl hvalid

/-- The invariant: valid rows, and pending writes that keep them so. -/
def KeepsRows (w : World) : Prop :=
  ValidTable w.server.db ∧ ∀ i, ∀ wr ∈ (w.device i).writes, wr.KeepsRows

/-- The invariant is kept when the texts submitted with the step are valid. The write that a
step issues joins the pending ones, and a decided one is applied. -/
theorem KeepsRows.step {w w' : World} {e : ℕ × Event} (h : KeepsRows w) (hvalid : SubmitsValid w e)
    (hs : app.step w e = some w') : KeepsRows w' := by
  obtain ⟨i, e⟩ := e
  obtain ⟨hstep, hne⟩ := app_step_eq_some.mp hs
  constructor
  · rcases step_db hstep with hsame | ⟨k, wr, rfl, hwr, -, hset⟩
    · rw [hsame]
      exact h.1
    · rw [hset]
      refine h.1.set (h.2 i wr (List.mem_of_getElem? hwr)) ?_
      simpa only [SubmitsValid, submitsValid, hwr] using hvalid
  · intro j wr hwr
    by_cases hj : j = i
    · subst hj
      rcases (step_effect hstep).writes.mem hwr with ⟨wr₀, hwr₀, hsame⟩ | hissue
      · exact (h.2 j wr₀ hwr₀).same hsame
      · exact hissue.keepsRows hvalid
    · rw [hne j hj] at hwr
      exact h.2 j wr hwr

/-- **The rows stay valid** in every state of a run that starts with no rows and
in which every registration that completes finds valid fields on its screen, every
user name entered is not empty, every new password is one registration accepts,
and fields are written into rows that are there. -/
theorem user_rows_valid {w : World} {es : List (ℕ × Event)} (hw : app.init w)
    (hempty : PathTree.get ["user"] w.server.db = none) (hvalid : app.Always SubmitsValid w es) :
    app.Throughout (fun v => ValidTable v.server.db) w es := by
  refine app.throughout_of_invariant (I := KeepsRows) (fun _ _ _ h hG hs => h.step hG hs)
    (fun _ h => h.1) ⟨validTable_of_empty hempty, ?_⟩ hvalid
  intro i wr hwr
  rw [writes_of_init hw i] at hwr
  cases hwr

/-- `ann` registers, opens the profile and enters a user name. -/
def annRenames (userName : String) : List Event :=
  annSubmits ++ annIsRegistered ++
    [.alertOk "" false, .press .myProfilePageBtnPressed, .press .updateUserNameBtnPressed,
      .alertOk userName false, .writeDecided 0 true]

set_option maxRecDepth 10000 in
theorem user_row_invalid :
    ¬ ∀ (w : World) (es : List (ℕ × Event)), app.init w →
      PathTree.get ["user"] w.server.db = none → ∀ w', app.run w es = some w' →
      ValidTable w'.server.db := by
  intro h
  have hend : (app.run (World.start ⟨[], none⟩) (alone (annRenames ""))).map
      (fun w => stringField "userName" (PathTree.get ["user", "ann"] w.server.db)) =
      some (some "") := by
    decide
  obtain ⟨w', hr, hfield⟩ := Option.map_eq_some_iff.mp hend
  have htable := h _ _ (init_start _) rfl w' hr
  cases hrow : PathTree.get ["user", "ann"] w'.server.db with
  | none =>
    rw [hrow] at hfield
    cases hfield
  | some row =>
    obtain ⟨s, hs, hne⟩ := (htable "ann" row hrow).userName
    rw [hrow, hs] at hfield
    exact hne (Option.some.inj hfield)

set_option maxRecDepth 10000 in
theorem user_rows_valid_ann :
    (app.run (World.start ⟨[], none⟩) (alone (annRenames "Ann"))).isSome ∧
      app.Throughout (fun v => ValidTable v.server.db) (World.start ⟨[], none⟩)
        (alone (annRenames "Ann")) :=
  ⟨by decide, user_rows_valid (init_start _) rfl (by decide)⟩

end DailyDiary
