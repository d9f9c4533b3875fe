/-
The check of the old password, over the whole life of one change-password screen.

Done starts a read of the row and compares in the same handler, so what it compares
with is what an earlier read has left: `""` until the first snapshot is delivered, and
then the password of the last one. `OpensCheck.run_compares` follows it through any run, and
`old_password_check_iff` says which presses decide as the row does.
-/
import DailyDiary.PasswordChange
import DailyDiary.Session

set_option autoImplicit false

namespace DailyDiary

open Device

/-! ## The variable the check reads -/

/-- The password that the event delivers to the screen `self`: the one in the snapshot
of a read that a Done of this screen has started. -/
def Device.deliversPassword (d : Device) (self : VcId) : Event → Option String
  | .readCompleted k =>
    d.reads[k]?.bind fun r =>
      if r.handler = .password self then
        r.snapshot.map fun snapshot => (stringField "password" snapshot).getD "not found"
      else none
  | _ => none

/-- The fields for the new password and the button under them are shown. -/
def ChangePasswordViewController.Reveals (c : ChangePasswordViewController) : Prop :=
  c.newPasswordTextFieldIsHidden = false ∧ c.repeatNewPasswordTextFieldIsHidden = false ∧
    c.updateBtnIsHidden = false

/-- The screen compares with `password`, and it shows either Done or the fields for the
new password. -/
def ViewController.Compares (password : String) : ViewController → Prop
  | .changePassword c => c.userPassword = password ∧
      c.newPasswordTextFieldIsHidden = !c.doneBtnIsHidden ∧
      c.repeatNewPasswordTextFieldIsHidden = !c.doneBtnIsHidden ∧
      c.updateBtnIsHidden = !c.doneBtnIsHidden
  | _ => False

section Steps

variable {srv srv' : Server} {d d' : Device} {e : Event} {self : VcId}

theorem Typing.apply_compares {t : Typing} {v v' : ViewController} {password : String}
    (h : t.apply v = some v') (hv : v.Compares password) : v'.Compares password := by
  cases v with
  | changePassword c =>
    cases t with
    | oldPassword text =>
      simp only [Typing.apply] at h
      split at h <;> cases h
      exact hv
    | newPassword new repeated =>
      simp only [Typing.apply] at h
      split at h <;> cases h
      exact hv
    | _ => cases h
  | _ => exact hv.elim

/-- Nothing but the block of a read assigns the variable. -/
theorem Device.Becomes.compares {view : Option Json} {v v' : ViewController} {password : String}
    (h : d.Becomes e view self v v') (he : ∀ k, e ≠ .readCompleted k)
    (hv : v.Compares password) : v'.Compares password := by
  obtain ⟨v₁, hassign, hbecomes⟩ := h
  have hv₁ : v₁.Compares password := by
    rcases hassign with rfl | hassign
    · exact hv
    · cases hassign with
      | typed hvis ht => exact Typing.apply_compares ht hv
      | passwordRejected hvis => exact hv
      | passwordAccepted hvis hc => exact ⟨hv.1, rfl, rfl, rfl⟩
      | update hvis hshown => exact hv
      | @passwordRead k i c userPassword => exact absurd rfl (he k)
      | _ => exact hv.elim
  rcases hbecomes with ⟨rfl, -⟩ | rfl
  · exact hv₁
  · cases v₁ with
    | changePassword c => exact hv₁
    | _ => exact hv₁.elim

/-- A delivered snapshot replaces what is compared with. -/
theorem passwordRead_compares {snapshot : Option Json} {v : ViewController} {password : String}
    (hv : d.vcs[self]? = some v) (hcompares : v.Compares password) :
    ∃ v', (ChangePasswordViewController.passwordRead self snapshot d).vcs[self]? = some v' ∧
      v'.Compares ((stringField "password" snapshot).getD "not found") := by
  cases v with
  | changePassword c =>
    have hlt : self < d.vcs.length := (List.getElem?_eq_some_iff.mp hv).1
    simp only [ChangePasswordViewController.passwordRead, hv, setVc, List.getElem?_set_self hlt]
    exact ⟨_, rfl, rfl, hcompares.2⟩
  | _ => exact hcompares.elim

/-- The block of another read leaves the screen alone. -/
theorem readCompleted_vcs {handler : ReadHandler} {snapshot : Option Json}
    {c : ChangePasswordViewController} (hv : d.vcs[self]? = some (.changePassword c))
    (hne : handler ≠ .password self) :
    (d.readCompleted handler snapshot).vcs[self]? = some (.changePassword c) := by
  cases handler with
  | userName i =>
    simp only [readCompleted, MyProfileViewController.userNameRead]
    split
    · next c' hc' =>
      have hi : i ≠ self := by
        rintro rfl
        cases hv.symm.trans hc'
      rw [setVc, List.getElem?_set_ne hi, hv]
    · exact hv
  | password i =>
    have hi : i ≠ self := by
      rintro rfl
      exact hne rfl
    simp only [readCompleted, ChangePasswordViewController.passwordRead]
    split
    · rw [setVc, List.getElem?_set_ne hi, hv]
    · exact hv

/-- What the screen compares with after a step. -/
theorem step_compares {v : ViewController} {password : String} (hv : d.vcs[self]? = some v)
    (hcompares : v.Compares password) (hs : step srv d e = some (srv', d')) :
    ∃ v', d'.vcs[self]? = some v' ∧
      v'.Compares ((d.deliversPassword self e).getD password) := by
  by_cases he : ∃ k, e = .readCompleted k
  · obtain ⟨k, rfl⟩ := he
    cases steps_of_step hs with
    | readCompleted hread =>
      obtain ⟨r, snapshot, hr, hsnapshot, rfl⟩ := completeRead_eq_some.mp hread
      by_cases hhandler : r.handler = .password self
      · have hdelivers : d.deliversPassword self (.readCompleted k) =
            some ((stringField "password" snapshot).getD "not found") := by
          simp [deliversPassword, hr, hhandler, hsnapshot]
        rw [hdelivers, hhandler]
        exact passwordRead_compares (d := { d with reads := d.reads.eraseIdx k }) hv hcompares
      · have hdelivers : d.deliversPassword self (.readCompleted k) = none := by
          simp [deliversPassword, hr, hhandler]
        rw [hdelivers]
        cases v with
        | changePassword c =>
          exact ⟨_, readCompleted_vcs (d := { d with reads := d.reads.eraseIdx k }) hv hhandler,
            hcompares⟩
        | _ => exact hcompares.elim
  · have hdelivers : d.deliversPassword self e = none := by
      cases e with
      | readCompleted k => exact absurd ⟨k, rfl⟩ he
      | _ => rfl
    obtain ⟨v', hv', hbecomes⟩ := (step_effect hs).kept hv
    rw [hdelivers]
    exact ⟨v', hv', hbecomes.compares (fun k hk => he ⟨k, hk⟩) hcompares⟩

/-- Done is not hidden, and a text that is not empty opens the fields exactly when the
screen compares with it. -/
theorem step_passwordDone {c : ChangePasswordViewController} {u : Uid}
    (hv : d.visible = some (self, .changePassword c)) (hu : d.currentUser = some u)
    (ht : c.oldPasswordTextField ≠ "")
    (h : step srv d (.press .passwordDoneBtnPressed) = some (srv', d')) :
    c.doneBtnIsHidden = false ∧ d'.vcs[self]? = some (.changePassword
      (if c.userPassword = c.oldPasswordTextField then
        ({ c with
          oldPassword := c.oldPasswordTextField
          oldPasswordTextFieldIsHidden := true
          doneBtnIsHidden := true } : ChangePasswordViewController).showHiddenObjects
      else { c with oldPassword := c.oldPasswordTextField })) := by
  have hlt : self < d.vcs.length := (List.getElem?_eq_some_iff.mp (visible_eq_some.mp hv).2).1
  have hempty : c.oldPasswordTextField.isEmpty = false := by
    simpa [String.isEmpty_iff] using ht
  cases steps_of_step h with
  | press hr =>
    cases presses_of_press hr with
    | passwordDone hv' hshown =>
      cases hv.symm.trans hv'
      refine ⟨hshown, ?_⟩
      by_cases hequal : c.userPassword = c.oldPasswordTextField
      · simp [ChangePasswordViewController.doneBtnPressed, currentUid_of_some hu, hempty, hequal,
          settle, setVc, observeSingleEvent, hlt]
      · simp [ChangePasswordViewController.doneBtnPressed, currentUid_of_some hu, hempty, hequal,
          settle, setVc, observeSingleEvent, presentAlert, hlt]

end Steps

/-! ## The life of a screen -/

/-- The passwords delivered to the screen `self` of device `i` in a run. -/
def delivered (i : ℕ) (self : VcId) (w : World) (es : List (ℕ × Event)) : List String :=
  app.collect (fun v e => if e.1 = i then (v.device i).deliversPassword self e.2 else none) w es

/-- The step from `w` to `w'` opens the change-password screen `s` of device `i`. -/
structure OpensCheck (i : ℕ) (s : VcId) (w w' : World) : Prop where
  reachable : app.Reachable w
  new : (w.device i).vcs[s]? = none
  opened : ∃ e c, app.step w e = some w' ∧ (w'.device i).vcs[s]? = some (.changePassword c)

/-- It starts with nothing to compare with. -/
theorem OpensCheck.compares {i : ℕ} {self : VcId} {w w' : World} (h : OpensCheck i self w w') :
    ∃ v, (w'.device i).vcs[self]? = some v ∧ v.Compares "" := by
  obtain ⟨⟨k, e⟩, c, hs, hc⟩ := h.opened
  obtain ⟨hstep, hne⟩ := app_step_eq_some.mp hs
  by_cases hk : i = k
  · subst hk
    rcases (step_effect hstep).vcs self _ hc with ⟨v, hv, -⟩ | ⟨-, v, hopens, heq⟩
    · exact absurd (h.new.symm.trans hv) nofun
    · refine ⟨_, hc, ?_⟩
      cases hopens with
      | initial hinit =>
        cases v with
        | changePassword c₀ =>
          obtain rfl : c₀ = _ := hinit
          cases heq
          exact ⟨rfl, rfl, rfl, rfl⟩
        | _ => cases heq
      | _ => cases heq
  · rw [hne i hk] at hc
    exact absurd (h.new.symm.trans hc) nofun

/-- **What the screen compares with** is the password of the last snapshot that has
been delivered to it. -/
theorem OpensCheck.run_compares {i : ℕ} {self : VcId} {w w₁ w' : World} {es : List (ℕ × Event)}
    (h : OpensCheck i self w w₁) (hr : app.run w₁ es = some w') :
    ∃ v, (w'.device i).vcs[self]? = some v ∧
      v.Compares ((delivered i self w₁ es).getLastD "") := by
  refine app.last_collect (P := fun password w => ∃ v, (w.device i).vcs[self]? = some v ∧
    v.Compares password) ?_ h.compares hr
  rintro password w ⟨k, e⟩ w' ⟨v, hv, hcompares⟩ hs
  obtain ⟨hstep, hne⟩ := app_step_eq_some.mp hs
  by_cases hk : i = k
  · subst hk
    rw [if_pos rfl]
    exact step_compares hv hcompares hstep
  · rw [if_neg (Ne.symm hk), hne i hk]
    exact ⟨v, hv, hcompares⟩

/-! ## The presses -/

/-- `u` presses Done on the screen `s` of device `i`, with the text `t` in the field for
the old password. -/
structure PressesDone (i : ℕ) (s : VcId) (u : Uid) (t : String) (w : World)
    (e : ℕ × Event) : Prop where
  event : e = (i, .press .passwordDoneBtnPressed)
  user : (w.device i).currentUser = some u
  nonempty : t ≠ ""
  screen : ∃ c, (w.device i).visible = some (s, .changePassword c) ∧ c.oldPasswordTextField = t

/-- The screen `self` of device `i` shows the fields for the new password. -/
def World.Reveals (w : World) (i : ℕ) (self : VcId) : Prop :=
  ∃ c, (w.device i).vcs[self]? = some (.changePassword c) ∧ c.Reveals

/-- Done reveals the fields exactly when the text typed is the password the screen compares
with, which the press does not change. -/
theorem PressesDone.reveals_iff {i : ℕ} {self : VcId} {u : Uid} {t password : String}
    {w w' : World} {e : ℕ × Event} (h : PressesDone i self u t w e)
    (hcompares : ∃ v, (w.device i).vcs[self]? = some v ∧ v.Compares password)
    (hs : app.step w e = some w') : w'.Reveals i self ↔ password = t := by
  obtain ⟨rfl, hu, ht, c, hvis, rfl⟩ := h
  obtain ⟨v, hv, hcompares⟩ := hcompares
  obtain rfl := Option.some.inj (hv.symm.trans (visible_eq_some.mp hvis).2)
  obtain ⟨rfl, hnew, hrepeat, hupdate⟩ := hcompares
  obtain ⟨hshown, hafter⟩ := step_passwordDone hvis hu ht (app_step_eq_some.mp hs).1
  rw [World.Reveals, hafter]
  by_cases hequal : c.userPassword = c.oldPasswordTextField
  · rw [if_pos hequal]
    exact ⟨fun _ => hequal, fun _ => ⟨_, rfl, rfl, rfl, rfl⟩⟩
  · rw [if_neg hequal]
    refine ⟨?_, fun h => absurd h hequal⟩
    -- refused, and the fields were hidden before
    rintro ⟨c', hc', hreveals, -⟩
    cases hc'
    rw [hshown] at hnew
    exact absurd (hreveals.symm.trans hnew) nofun

/-- Every Done with a text shows the fields exactly when the row has that password at
that moment. -/
def ChecksRow (i : ℕ) (self : VcId) (w : World) (es : List (ℕ × Event)) : Prop :=
  ∀ before e after v v' u t, es = before ++ e :: after → app.run w before = some v →
    app.step v e = some v' → PressesDone i self u t v e →
    (v'.Reveals i self ↔ v.server.rowPassword u = some t)

/-- At every Done with a text, the last snapshot delivered to the screen has that
password exactly when the row has it. -/
def DeliveriesAgree (i : ℕ) (self : VcId) (w : World) (es : List (ℕ × Event)) : Prop :=
  ∀ before e after v u t, es = before ++ e :: after → app.run w before = some v →
    PressesDone i self u t v e →
    ((delivered i self w before).getLastD "" = t ↔ v.server.rowPassword u = some t)

/-- **When the check of the old password decides correctly.** In a run of a
change-password screen from its opening every Done decides as the row does, exactly
when at each of them the snapshot delivered last agrees with the row about the text;
before the first delivery that snapshot counts as `""`, and as `"not found"` when it
has no password. -/
theorem old_password_check_iff {i : ℕ} {self : VcId} {w w₁ w' : World} {es : List (ℕ × Event)}
    (hopen : OpensCheck i self w w₁) (hr : app.run w₁ es = some w') :
    ChecksRow i self w₁ es ↔ DeliveriesAgree i self w₁ es := by
  constructor
  · rintro h before e after v u t rfl hbefore hpress
    obtain ⟨v', hs, -⟩ := app.run_middle hr hbefore
    rw [← hpress.reveals_iff (hopen.run_compares hbefore) hs]
    exact h before e after v v' u t rfl hbefore hs hpress
  · rintro h before e after v v' u t rfl hbefore hs hpress
    rw [hpress.reveals_iff (hopen.run_compares hbefore) hs]
    exact h before e after v u t rfl hbefore hpress

/-- `ann` types `text` in the screen she has just opened, and presses Done. -/
def annTries (text : String) : List (ℕ × Event) :=
  alone [.typed (.oldPassword text), .press .passwordDoneBtnPressed]

/-- What is seen of that, to evaluate it. -/
structure TrySeen where
  before : Option Screen
  opened : Option Screen
  screen : Option PasswordScreen
  password : Option String
  deriving DecidableEq

def annsTry (text : String) : Option TrySeen :=
  (app.run (World.start ⟨[ann], annsRow⟩) (alone annOpensProfile)).bind fun w =>
    (app.step w (0, .press .updatePasswordBtnPressed)).bind fun w₁ =>
      (app.step w₁ (0, .typed (.oldPassword text))).bind fun w₂ =>
        (app.step w₂ (0, .press .passwordDoneBtnPressed)).map fun _ =>
          { before := (w.device 0).screens[3]?
            opened := (w₁.device 0).screens[3]?
            screen := (w₂.device 0).passwordScreen
            password := w₂.server.rowPassword ann.uid }

theorem exists_annTries {text : String} (ht : text ≠ "") (h : annsTry text = some {
      before := none
      opened := some .changePassword
      screen := some ⟨3, { ({} : ChangePasswordViewController).viewDidLoad with
        oldPasswordTextField := text }, some ann.uid, 0, 0⟩
      password := some ann.password }) :
    ∃ w w₁ w₂ w', OpensCheck 0 3 w w₁ ∧ app.run w₁ (annTries text) = some w' ∧
      app.run w₁ [(0, .typed (.oldPassword text))] = some w₂ ∧
      delivered 0 3 w₁ [(0, .typed (.oldPassword text))] = [] ∧
      app.step w₂ (0, .press .passwordDoneBtnPressed) = some w' ∧
      PressesDone 0 3 ann.uid text w₂ (0, .press .passwordDoneBtnPressed) ∧
      w₂.server.rowPassword ann.uid = some ann.password := by
  obtain ⟨w, hw, h⟩ := Option.bind_eq_some_iff.mp h
  obtain ⟨w₁, hw₁, h⟩ := Option.bind_eq_some_iff.mp h
  obtain ⟨w₂, hw₂, h⟩ := Option.bind_eq_some_iff.mp h
  obtain ⟨w', hw', h⟩ := Option.map_eq_some_iff.mp h
  obtain ⟨hbefore, hopened, hscreen, hpassword⟩ := TrySeen.mk.inj h
  obtain ⟨hv, hu, -, -⟩ := passwordScreen_eq_some hscreen
  have hopen : OpensCheck 0 3 w w₁ := by
    rw [screens_getElem?] at hbefore hopened
    obtain ⟨v, hv₁, hs⟩ := Option.map_eq_some_iff.mp hopened
    cases v with
    | changePassword c =>
      exact ⟨⟨_, _, init_start _, hw⟩, Option.map_eq_none_iff.mp hbefore, _, c, hw₁, hv₁⟩
    | _ => cases hs
  refine ⟨w, w₁, w₂, w', hopen, ?_, (app.run_cons_eq_some).mpr ⟨w₂, hw₂, rfl⟩, ?_, hw',
    ⟨rfl, hu, ht, _, hv, rfl⟩, hpassword⟩
  · exact (app.run_cons_eq_some).mpr ⟨w₂, hw₂, (app.run_cons_eq_some).mpr ⟨w', hw', rfl⟩⟩
  · rw [delivered, app.collect_cons hw₂]
    rfl

set_option maxRecDepth 10000 in
/-- Her own password is refused at the first press. -/
theorem old_password_refused :
    ¬ ∀ (i : ℕ) (self : VcId) (w w₁ w' : World) (es : List (ℕ × Event)),
      OpensCheck i self w w₁ → app.run w₁ es = some w' → ChecksRow i self w₁ es := by
  intro h
  have hann : ann.password ≠ "" := by decide
  obtain ⟨w, w₁, w₂, w', hopen, hr, htyped, hnothing, hw', hpress, hpassword⟩ :=
    exists_annTries hann (by decide)
  have hreveals := (h 0 3 w w₁ w' _ hopen hr [_] _ [] w₂ w' ann.uid ann.password rfl htyped hw'
    hpress).mpr hpassword
  have hequal := (hpress.reveals_iff (hopen.run_compares htyped) hw').mp hreveals
  rw [hnothing] at hequal
  exact absurd hequal (by decide)

set_option maxRecDepth 10000 in
/-- Another text is refused, as it should be. -/
theorem old_password_check_ann :
    ∃ w w₁ w', OpensCheck 0 3 w w₁ ∧ app.run w₁ (annTries bob.password) = some w' ∧
      ChecksRow 0 3 w₁ (annTries bob.password) := by
  have hbob : bob.password ≠ "" := by decide
  obtain ⟨w, w₁, w₂, w', hopen, hr, htyped, hnothing, hw', hpress, hpassword⟩ :=
    exists_annTries hbob (by decide)
  refine ⟨w, w₁, w', hopen, hr, (old_password_check_iff hopen hr).mpr ?_⟩
  intro before e after v u t hsplit hbefore hdone
  obtain rfl := hdone.event
  -- the press is the second event
  obtain _ | ⟨first, _ | ⟨second, rest⟩⟩ := before
  · cases hsplit
  · obtain rfl : _ = first := (List.cons.inj hsplit).1
    obtain rfl := Option.some.inj (htyped.symm.trans hbefore)
    obtain rfl := Option.some.inj (hpress.user.symm.trans hdone.user)
    obtain ⟨c, hv, hc⟩ := hpress.screen
    obtain ⟨c', hv', rfl⟩ := hdone.screen
    cases hv.symm.trans hv'
    show (delivered 0 3 w₁ [(0, .typed (.oldPassword bob.password))]).getLastD "" = _ ↔ _
    rw [hnothing, hc, hpassword]
    decide
  · simp [annTries, alone] at hsplit

end DailyDiary
