/-
A change of the password, over the two places that hold it: the Auth account and
the row `user/<uid>`.

One press of Update makes two independent requests and presents the success
alert at once. `PasswordChange` is such a press together with everything it
started, in any order of completion, and `PasswordChanges` any number of them
one after the other; `password_changes_iff` says which of them keep the two
places equal and tell the truth.
-/
import DailyDiary.MemorySelection

set_option autoImplicit false

namespace DailyDiary

open Device

/-! ## The two places -/

/-- The `password` of the row `user/<uid>`. -/
def Server.rowPassword (srv : Server) (u : Uid) : Option String :=
  stringField "password" (srv.userRow u)

/-- Auth holds the password `auth` for the account, and its row `row`. -/
structure Server.Passwords (srv : Server) (u : Uid) (auth row : String) : Prop where
  auth : srv.authPassword u = some auth
  row : srv.rowPassword u = some row

/-- Both hold `p`. -/
abbrev Server.Holds (srv : Server) (u : Uid) (p : String) : Prop :=
  srv.Passwords u p p

theorem Server.Holds.unique {srv : Server} {u : Uid} {p q : String} (hp : srv.Holds u p)
    (hq : srv.Holds u q) : p = q :=
  Option.some.inj (hp.auth.symm.trans hq.auth)

/-- What Auth answers to a request for the account `u`. -/
def authReply (u : Uid) (ok expired : Bool) : AuthReply :=
  if ok then .success u else if expired then .tokenInvalid else .failure

section Stores

variable {srv srv' : Server} {u : Uid} {auth row new : String}

/-- An answer of Auth changes the password it keeps if it is a success, and the row of the
database in no case. A token that expired counts as a refusal. -/
theorem Server.Passwords.answer {ok expired : Bool} (h : srv.Passwords u auth row)
    (hanswer : srv.answer (.updatePassword u new) (authReply u ok expired) = some srv') :
    srv'.Passwords u (if ok then new else auth) row := by
  have hdb : srv'.db = srv.db := Server.answer_db hanswer
  have hrow : srv'.rowPassword u = some row := by
    rw [rowPassword, userRow, hdb]
    exact h.row
  cases ok with
  | false =>
    have hsrv : srv' = srv := by cases expired <;> exact (Option.some.inj hanswer).symm
    exact hsrv ▸ h
  | true =>
    simp only [authReply, if_true, Server.answer, Option.some.injEq] at hanswer
    subst hanswer
    refine ⟨?_, hrow⟩
    obtain ⟨a, hfind, -⟩ := Option.map_eq_some_iff.mp h.auth
    have hu : a.uid = u := by simpa using List.find?_some hfind
    -- the uids of the accounts stay, so the account is found again
    have hsame : ((fun b : Account => decide (b.uid = u)) ∘
        fun b => if b.uid = u then { b with password := new } else b) =
        fun b => decide (b.uid = u) := by
      funext b
      by_cases hb : b.uid = u
      · simp [hb]
      · simp [hb]
    rw [authPassword, List.find?_map, hsame, hfind]
    simp [hu]

theorem Server.Passwords.write (h : srv.Passwords u auth row) :
    Server.Passwords { srv with
      db := PathTree.set (userFieldRef u "password") (some (.leaf new)) srv.db } u auth new := by
  refine ⟨h.auth, ?_⟩
  have hpath : userFieldRef u "password" = userRef u ++ ["password"] := by
    rw [userFieldRef_eq u (by decide), userRef_eq]
    rfl
  rw [rowPassword, userRow, hpath, PathTree.get_append_set, stringField, PathTree.child_set_self]
  rfl

end Stores

/-! ## Update and what completes after it -/

section Steps

variable {srv srv' : Server} {d d' : Device} {self : VcId} {u : Uid}

/-- The write of the new password. -/
def passwordWrite (u : Uid) (new : String) : Write where
  ref := userFieldRef u "password"
  value := some (.leaf new)
  completion := .password

/-- An accepted press makes the two requests and presents the success alert. -/
theorem step_update_accepted {c : ChangePasswordViewController}
    (hv : d.visible = some (self, .changePassword c)) (hu : d.currentUser = some u)
    (hc : c.readFields.rejection = none)
    (h : step srv d (.press .updateBtnPressed) = some (srv', d')) :
    srv' = srv ∧ d'.auths = d.auths ++ [.updatePassword u c.newPasswordTextField] ∧
      d'.writes = d.writes ++ [passwordWrite u c.newPasswordTextField] ∧
      d'.alert = some ChangePasswordViewController.passwordUpdated ∧
      d'.asked = ChangePasswordViewController.passwordUpdated :: d.asked := by
  have hon : d.onTop self := (visible_eq_some.mp hv).1
  have hstores := ChangePasswordViewController.updateStores_of_some (c := c.readFields)
    (d := d.hudShow.setVc self (.changePassword c.readFields)) hu
  cases steps_of_step h with
  | press hr =>
    cases presses_of_press hr with
    | update hv' hshown =>
      cases hv.symm.trans hv'
      simp only [ChangePasswordViewController.updateBtnPressed, hc, hstores, Result.ok_bind,
        Result.pure_eq_ok, settle]
      exact ⟨trivial, rfl, rfl, if_pos hon, rfl⟩

/-- A rejected press presents two alerts, of which UIKit shows the first, and
makes no request. -/
theorem step_update_rejected {c : ChangePasswordViewController} {message : String}
    (hv : d.visible = some (self, .changePassword c)) (hc : c.readFields.rejection = some message)
    (h : step srv d (.press .updateBtnPressed) = some (srv', d')) :
    srv' = srv ∧ d'.alert = some (okAlert "Alert" message) ∧
      d'.asked = ChangePasswordViewController.passwordUpdated ::
        okAlert "Alert" message :: d.asked := by
  have hon : d.onTop self := (visible_eq_some.mp hv).1
  have hfirst : ((d.hudShow.setVc self (.changePassword c.readFields)).presentAlert self
      (okAlert "Alert" message)).hudDismiss.alert = some (okAlert "Alert" message) := if_pos hon
  cases steps_of_step h with
  | press hr =>
    cases presses_of_press hr with
    | update hv' hshown =>
      cases hv.symm.trans hv'
      simp only [ChangePasswordViewController.updateBtnPressed, hc, Result.ok_bind,
        Result.pure_eq_ok, settle]
      exact ⟨trivial, presentAlert_alert_of_some hfirst, rfl⟩

theorem step_authCompleted {n : ℕ} {new auth row : String} {ok expired : Bool}
    (hcall : d.auths[n]? = some (.updatePassword u new)) (hstores : srv.Passwords u auth row)
    (h : step srv d (.authCompleted n (authReply u ok expired)) = some (srv', d')) :
    srv'.Passwords u (if ok then new else auth) row ∧ d'.writes = d.writes := by
  cases steps_of_step h with
  | authCompleted hr =>
    obtain ⟨call, hcall', hanswer, rfl⟩ := completeAuth_eq_some.mp hr
    obtain rfl := Option.some.inj (hcall.symm.trans hcall')
    exact ⟨hstores.answer hanswer, by cases ok <;> cases expired <;> simp [authReply, authCompleted, settle]⟩

theorem step_writeDecided {m : ℕ} {new auth row : String} {ok : Bool}
    (hwrite : d.writes[m]? = some (passwordWrite u new)) (hstores : srv.Passwords u auth row)
    (h : step srv d (.writeDecided m ok) = some (srv', d')) :
    srv'.Passwords u auth (if ok then new else row) ∧ d'.auths = d.auths ∧
      d'.writes[m]? = some { passwordWrite u new with verdict := some ok } := by
  have hlt : m < d.writes.length := (List.getElem?_eq_some_iff.mp hwrite).1
  cases steps_of_step h with
  | writeDecided hdecide =>
    obtain ⟨w, hw, -, rfl, rfl⟩ := decideWrite_eq_some.mp hdecide
    obtain rfl := Option.some.inj (hwrite.symm.trans hw)
    refine ⟨?_, rfl, List.getElem?_set_self hlt⟩
    cases ok with
    | false => exact hstores
    | true => exact hstores.write

theorem step_writeCompleted {m : ℕ} {w : Write} (hw : d.writes[m]? = some w)
    (hcompletion : w.completion = .password)
    (h : step srv d (.writeCompleted m) = some (srv', d')) :
    srv' = srv ∧ d'.auths = d.auths := by
  cases steps_of_step h with
  | writeCompleted hr =>
    obtain ⟨w', accepted, hw', -, rfl⟩ := completeWrite_eq_some.mp hr
    obtain rfl := Option.some.inj (hw.symm.trans hw')
    rw [hcompletion]
    exact ⟨rfl, rfl⟩

end Steps

/-! ## One change -/

/-- The answer of Auth comes before, between or after the server's decision on the
write and its arrival. -/
inductive CompletionOrder where
  | authFirst
  | authBetween
  | authLast

/-- What completes after an accepted press: the `n`-th request of Auth and the
`m`-th write. -/
def CompletionOrder.events (u : Uid) (n m : ℕ) (authOk expired rowOk : Bool) :
    CompletionOrder → List Event
  | authFirst =>
    [.authCompleted n (authReply u authOk expired), .writeDecided m rowOk, .writeCompleted m]
  | authBetween =>
    [.writeDecided m rowOk, .authCompleted n (authReply u authOk expired), .writeCompleted m]
  | authLast =>
    [.writeDecided m rowOk, .writeCompleted m, .authCompleted n (authReply u authOk expired)]

/-- A press of Update by the account `u`, from `w`, and everything it started,
with its outcomes: `w'` is the state afterwards. -/
structure PasswordChange (u : Uid) (w w' : World) where
  device : ℕ
  self : VcId
  c : ChangePasswordViewController
  visible : (w.device device).visible = some (self, .changePassword c)
  user : (w.device device).currentUser = some u
  /-- the state after the press -/
  pressed : World
  press : app.step w (device, .press .updateBtnPressed) = some pressed
  authOk : Bool
  /-- where Auth refuses, it is because the token of the user is invalid -/
  expired : Bool
  rowOk : Bool
  order : CompletionOrder
  completed : app.run pressed
    (if c.readFields.rejection = none then
      (order.events u (w.device device).auths.length (w.device device).writes.length
        authOk expired rowOk).map fun e => (device, e)
    else []) = some w'

namespace PasswordChange

variable {u : Uid} {w w' : World} (ch : PasswordChange u w w')

/-- The text of the new-password field. -/
def new : String := ch.c.newPasswordTextField

/-- The fields are accepted: not empty and equal. -/
def Accepted : Prop := ch.c.readFields.rejection = none

/-- The handler calls `present` with the success alert. -/
def Presents : Prop :=
  ∃ l, (ch.pressed.device ch.device).asked = l ++ (w.device ch.device).asked ∧
    ChangePasswordViewController.passwordUpdated ∈ l

/-- The success alert comes up. -/
def Displays : Prop :=
  (ch.pressed.device ch.device).alert = some ChangePasswordViewController.passwordUpdated

/-- What is promised of a change: both places have the new password or both the
one they had, and success is reported (`reported`) only for an accepted press
after which both have the new one. -/
structure Kept (reported : Prop) : Prop where
  atomic : w'.server.Holds u ch.new ∨ ∃ p, w.server.Holds u p ∧ w'.server.Holds u p
  honest : reported → ch.Accepted ∧ w'.server.Holds u ch.new

/-- Both requests succeed, or the new password is the one both places have. -/
def Agreed : Prop :=
  (ch.authOk = true ∧ ch.rowOk = true) ∨ w.server.Holds u ch.new

/-- An accepted press reports success at once, and both requests reach their own
place in whatever order they complete. -/
theorem accepted_spec {auth row : String} (hc : ch.Accepted)
    (hstores : w.server.Passwords u auth row) :
    ch.Displays ∧ ch.Presents ∧ w'.server.Passwords u (if ch.authOk then ch.new else auth)
      (if ch.rowOk then ch.new else row) := by
  obtain ⟨i, self, c, hv, hu, w₁, hpress, authOk, expired, rowOk, order, hr⟩ := ch
  have hc : c.readFields.rejection = none := hc
  obtain ⟨hsrv, hauths, hwrites, halert, hasked⟩ :=
    step_update_accepted hv hu hc (app_step_eq_some.mp hpress).1
  refine ⟨halert, ⟨[_], hasked, List.mem_singleton_self _⟩, ?_⟩
  change w'.server.Passwords u (if authOk then c.newPasswordTextField else auth)
    (if rowOk then c.newPasswordTextField else row)
  rw [if_pos hc] at hr
  have hcall : (w₁.device i).auths[(w.device i).auths.length]? =
      some (.updatePassword u c.newPasswordTextField) := by
    rw [hauths, List.getElem?_concat_length]
  have hwrite : (w₁.device i).writes[(w.device i).writes.length]? =
      some (passwordWrite u c.newPasswordTextField) := by
    rw [hwrites, List.getElem?_concat_length]
  have hstores₁ : w₁.server.Passwords u auth row := hsrv ▸ hstores
  -- each step keeps the request that the other one is still waiting for
  cases order with
  | authFirst =>
    obtain ⟨w₂, w₃, h₂, h₃, h₄⟩ := (app.run_three_eq_some).mp hr
    obtain ⟨hstores₂, hwrites₂⟩ := step_authCompleted hcall hstores₁ (app_step_eq_some.mp h₂).1
    obtain ⟨hstores₃, -, hwrite₃⟩ :=
      step_writeDecided (hwrites₂ ▸ hwrite) hstores₂ (app_step_eq_some.mp h₃).1
    obtain ⟨hsrv₄, -⟩ := step_writeCompleted hwrite₃ rfl (app_step_eq_some.mp h₄).1
    exact hsrv₄ ▸ hstores₃
  | authBetween =>
    obtain ⟨w₂, w₃, h₂, h₃, h₄⟩ := (app.run_three_eq_some).mp hr
    obtain ⟨hstores₂, hauths₂, hwrite₂⟩ :=
      step_writeDecided hwrite hstores₁ (app_step_eq_some.mp h₂).1
    obtain ⟨hstores₃, hwrites₃⟩ :=
      step_authCompleted (hauths₂ ▸ hcall) hstores₂ (app_step_eq_some.mp h₃).1
    obtain ⟨hsrv₄, -⟩ := step_writeCompleted (hwrites₃ ▸ hwrite₂) rfl (app_step_eq_some.mp h₄).1
    exact hsrv₄ ▸ hstores₃
  | authLast =>
    obtain ⟨w₂, w₃, h₂, h₃, h₄⟩ := (app.run_three_eq_some).mp hr
    obtain ⟨hstores₂, hauths₂, hwrite₂⟩ :=
      step_writeDecided hwrite hstores₁ (app_step_eq_some.mp h₂).1
    obtain ⟨hsrv₃, hauths₃⟩ := step_writeCompleted hwrite₂ rfl (app_step_eq_some.mp h₃).1
    have hcall₃ : (w₃.device i).auths[(w.device i).auths.length]? =
        some (.updatePassword u c.newPasswordTextField) := by
      rw [hauths₃, hauths₂, hcall]
    exact (step_authCompleted hcall₃ (hsrv₃ ▸ hstores₂) (app_step_eq_some.mp h₄).1).1

/-- A rejected press changes nothing, and yet asks for the success alert; the
alert with the reason is the one that comes up. -/
theorem rejected_spec (hc : ¬ ch.Accepted) :
    ¬ ch.Displays ∧ ch.Presents ∧ w'.server = w.server := by
  obtain ⟨i, self, c, hv, hu, w₁, hpress, authOk, expired, rowOk, order, hr⟩ := ch
  have hc : c.readFields.rejection ≠ none := hc
  obtain ⟨message, hmessage⟩ := Option.ne_none_iff_exists'.mp hc
  obtain ⟨hsrv, halert, hasked⟩ := step_update_rejected hv hmessage (app_step_eq_some.mp hpress).1
  rw [if_neg hc] at hr
  obtain rfl := Option.some.inj hr
  refine ⟨?_, ⟨[_, _], hasked, List.mem_cons_self⟩, hsrv⟩
  intro hdisplays
  have hup : (w₁.device i).alert = some ChangePasswordViewController.passwordUpdated := hdisplays
  rw [halert] at hup
  have htitle : "Alert" = "Done" := congrArg Alert.title (Option.some.inj hup)
  exact absurd htitle (by decide)

/-- When the stores agree before a change, they hold the new password after an
accepted one exactly when its requests agree. -/
theorem holds_new_iff {p : String} (hc : ch.Accepted) (hp : w.server.Holds u p) :
    w'.server.Holds u ch.new ↔ ch.Agreed := by
  have hstores := (ch.accepted_spec hc hp).2.2
  constructor
  · intro hnew
    by_cases heq : p = ch.new
    · exact Or.inr (heq ▸ hp)
    · refine Or.inl ⟨?_, ?_⟩
      · by_contra hauth
        rw [if_neg hauth] at hstores
        exact heq (Option.some.inj (hstores.auth.symm.trans hnew.auth))
      · by_contra hrow
        rw [if_neg hrow] at hstores
        exact heq (Option.some.inj (hstores.row.symm.trans hnew.row))
  · rintro (⟨hauth, hrow⟩ | hnew)
    · rw [if_pos hauth, if_pos hrow] at hstores
      exact hstores
    · obtain rfl := hp.unique hnew
      simpa using hstores

/-- **One change.** With the report taken as the call of `present`, a change keeps
its promise exactly when it is accepted and its requests agree; with the report
taken as the alert on screen, rejected presses keep it too. -/
theorem kept_iff {p : String} (hp : w.server.Holds u p) :
    (ch.Kept ch.Presents ↔ ch.Accepted ∧ ch.Agreed) ∧
      (ch.Kept ch.Displays ↔ ¬ ch.Accepted ∨ ch.Agreed) := by
  by_cases hc : ch.Accepted
  · obtain ⟨hdisplays, hpresents, -⟩ := ch.accepted_spec hc hp
    have hnew := ch.holds_new_iff hc hp
    refine ⟨⟨?_, ?_⟩, ⟨?_, ?_⟩⟩
    · intro hkept
      exact ⟨hc, hnew.mp (hkept.honest hpresents).2⟩
    · rintro ⟨_, hagreed⟩
      have hholds := hnew.mpr hagreed
      exact ⟨Or.inl hholds, fun _ => ⟨hc, hholds⟩⟩
    · intro hkept
      exact Or.inr (hnew.mp (hkept.honest hdisplays).2)
    · intro hor
      have hholds := hnew.mpr (hor.resolve_left (not_not.mpr hc))
      exact ⟨Or.inl hholds, fun _ => ⟨hc, hholds⟩⟩
  · obtain ⟨hdisplays, hpresents, hsrv⟩ := ch.rejected_spec hc
    refine ⟨⟨?_, ?_⟩, ⟨?_, ?_⟩⟩
    · intro hkept
      exact absurd (hkept.honest hpresents).1 hc
    · rintro ⟨haccepted, _⟩
      exact absurd haccepted hc
    · exact fun _ => Or.inl hc
    · exact fun _ => ⟨Or.inr ⟨p, hp, hsrv ▸ hp⟩, fun h => absurd h hdisplays⟩

end PasswordChange

/-! ## Any number of changes -/

/-- Changes of the password of `u`, one after the other, from `w` to `w'`. Between
them anything may happen that leaves the two passwords as they are. -/
inductive PasswordChanges (u : Uid) : World → World → Type where
  | nil (w : World) : PasswordChanges u w w
  | other {w w₁ w' : World} (es : List (ℕ × Event)) (hr : app.run w es = some w₁)
      (hauth : w₁.server.authPassword u = w.server.authPassword u)
      (hrow : w₁.server.rowPassword u = w.server.rowPassword u)
      (rest : PasswordChanges u w₁ w') : PasswordChanges u w w'
  | change {w w₁ w' : World} (ch : PasswordChange u w w₁) (rest : PasswordChanges u w₁ w') :
      PasswordChanges u w w'

namespace PasswordChanges

variable {u : Uid}

/-- Every change of the sequence satisfies `K`. -/
def All (K : ∀ {w w' : World}, PasswordChange u w w' → Prop) :
    ∀ {w w' : World}, PasswordChanges u w w' → Prop
  | _, _, nil _ => True
  | _, _, other _ _ _ _ rest => rest.All K
  | _, _, change ch rest => K ch ∧ rest.All K

/-- A promise that leaves the stores equal carries through the sequence. -/
theorem all_iff {K C : ∀ {w w' : World}, PasswordChange u w w' → Prop}
    (hiff : ∀ {w w' : World} (ch : PasswordChange u w w') (p : String),
      w.server.Holds u p → (K ch ↔ C ch))
    (hholds : ∀ {w w' : World} (ch : PasswordChange u w w'), K ch → ∃ q, w'.server.Holds u q)
    {w w' : World} (cs : PasswordChanges u w w') {p : String} (hp : w.server.Holds u p) :
    (cs.All K ∧ ∃ q, w'.server.Holds u q) ↔ cs.All C := by
  induction cs generalizing p with
  | nil w => exact ⟨fun _ => trivial, fun _ => ⟨trivial, p, hp⟩⟩
  | other es hr hauth hrow rest ih => exact ih ⟨hauth.trans hp.auth, hrow.trans hp.row⟩
  | change ch rest ih =>
    constructor
    · rintro ⟨⟨hK, hrest⟩, hend⟩
      obtain ⟨q, hq⟩ := hholds ch hK
      exact ⟨(hiff ch p hp).mp hK, (ih hq).mp ⟨hrest, hend⟩⟩
    · rintro ⟨hC, hrest⟩
      have hK := (hiff ch p hp).mpr hC
      obtain ⟨q, hq⟩ := hholds ch hK
      obtain ⟨hrestK, hend⟩ := (ih hq).mpr hrest
      exact ⟨⟨hK, hrestK⟩, hend⟩

end PasswordChanges

theorem PasswordChange.Kept.holds {u : Uid} {w w' : World} {ch : PasswordChange u w w'}
    {reported : Prop} (h : ch.Kept reported) : ∃ q, w'.server.Holds u q := by
  rcases h.atomic with hnew | ⟨p, -, hp⟩
  · exact ⟨_, hnew⟩
  · exact ⟨p, hp⟩

/-- **When password changes are atomic and honest.** From stores that agree, every
change of a sequence keeps its promise, and the stores agree in the end, exactly
when every change is accepted and its two requests agree. For the alert that
comes up, a rejected press is as good. -/
theorem password_changes_iff {u : Uid} {w w' : World} {p : String} (cs : PasswordChanges u w w')
    (hp : w.server.Holds u p) :
    ((cs.All (fun ch => ch.Kept ch.Presents) ∧ ∃ q, w'.server.Holds u q) ↔
      cs.All fun ch => ch.Accepted ∧ ch.Agreed) ∧
    ((cs.All (fun ch => ch.Kept ch.Displays) ∧ ∃ q, w'.server.Holds u q) ↔
      cs.All fun ch => ¬ ch.Accepted ∨ ch.Agreed) :=
  ⟨cs.all_iff (fun ch _ h => (ch.kept_iff h).1) (fun _ h => h.holds) hp,
    cs.all_iff (fun ch _ h => (ch.kept_iff h).2) (fun _ h => h.holds) hp⟩

/-! ## Runs of `ann` -/

/-- The row a registration of `ann` leaves. -/
def annsRow : Option Json :=
  PathTree.set (userRef ann.uid)
    (dictionary [("userName", "ann"), ("email", ann.email), ("password", ann.password),
      ("ProfilePhoto", "")]) none

/-- `ann` logs in, opens the change of the password and has her old password
accepted, the second time Done is pressed. -/
def annVerifies : List Event :=
  [.typed (.logIn ann.email ann.password), .press .logInBtnPressed,
    .authCompleted 0 (.success ann.uid), .press .myProfilePageBtnPressed,
    .press .updatePasswordBtnPressed, .typed (.oldPassword ann.password),
    .press .passwordDoneBtnPressed, .readAnswered 1, .readCompleted 1, .alertOk "" false,
    .press .passwordDoneBtnPressed]

/-- The change-password screen on top of a device, who is signed in, and how many
requests are pending. -/
structure PasswordScreen where
  self : VcId
  c : ChangePasswordViewController
  user : Option Uid
  auths : ℕ
  writes : ℕ
  deriving DecidableEq

def Device.passwordScreen (d : Device) : Option PasswordScreen :=
  d.visible.bind fun p =>
    match p.2 with
    | .changePassword c => some ⟨p.1, c, d.currentUser, d.auths.length, d.writes.length⟩
    | _ => none

theorem passwordScreen_eq_some {d : Device} {s : PasswordScreen} (h : d.passwordScreen = some s) :
    d.visible = some (s.self, .changePassword s.c) ∧ d.currentUser = s.user ∧
      d.auths.length = s.auths ∧ d.writes.length = s.writes := by
  obtain ⟨⟨self, v⟩, hv, h⟩ := Option.bind_eq_some_iff.mp h
  cases v with
  | changePassword c =>
    obtain rfl := Option.some.inj h
    exact ⟨hv, rfl, rfl, rfl⟩
  | _ => cases h

/-- The two passwords of `ann`. -/
def World.annsPasswords (w : World) : Option String × Option String :=
  (w.server.authPassword ann.uid, w.server.rowPassword ann.uid)

theorem holds_of_annsPasswords {w : World} {p : String}
    (h : w.annsPasswords = (some p, some p)) : w.server.Holds ann.uid p :=
  ⟨(Prod.mk.inj h).1, (Prod.mk.inj h).2⟩

/-- The screen after `annVerifies`, with the new password typed twice. -/
def annsScreen : ChangePasswordViewController where
  userPassword := ann.password
  oldPassword := ann.password
  oldPasswordTextField := ann.password
  newPasswordTextField := "Secret789"
  repeatNewPasswordTextField := "Secret789"
  oldPasswordTextFieldIsHidden := true
  doneBtnIsHidden := true

set_option maxRecDepth 10000 in
/-- The run of a change by `ann` with the given outcomes. -/
theorem exists_annsChange (authOk rowOk : Bool) :
    ∃ w w', ∃ ch : PasswordChange ann.uid w w', ch.authOk = authOk ∧ ch.rowOk = rowOk ∧
      ch.c = annsScreen ∧ w.server.Holds ann.uid ann.password := by
  have hend :
      ((app.run (World.start ⟨[ann], annsRow⟩)
        (alone (annVerifies ++ [.typed (.newPassword "Secret789" "Secret789")]))).bind fun w =>
          (app.step w (0, .press .updateBtnPressed)).bind fun w₁ =>
            (app.run w₁ (alone (CompletionOrder.authFirst.events ann.uid 0 0 authOk false rowOk))).map
              fun _ => ((w.device 0).passwordScreen, w.annsPasswords)) =
        some (some ⟨3, annsScreen, some ann.uid, 0, 0⟩, some ann.password, some ann.password) := by
    cases authOk <;> cases rowOk <;> decide
  obtain ⟨w, hw, hend⟩ := Option.bind_eq_some_iff.mp hend
  obtain ⟨w₁, hw₁, hend⟩ := Option.bind_eq_some_iff.mp hend
  obtain ⟨w', hw', hend⟩ := Option.map_eq_some_iff.mp hend
  obtain ⟨hscreen, hpasswords⟩ := Prod.mk.inj hend
  obtain ⟨hv, hu, hauths, hwrites⟩ := passwordScreen_eq_some hscreen
  have hrun : app.run w₁ (if annsScreen.readFields.rejection = none then
      (CompletionOrder.authFirst.events ann.uid (w.device 0).auths.length
        (w.device 0).writes.length authOk false rowOk).map fun e => (0, e)
      else []) = some w' := by
    rw [if_pos (by decide), hauths, hwrites]
    exact hw'
  exact ⟨w, w', ⟨0, 3, annsScreen, hv, hu, w₁, hw₁, authOk, false, rowOk, .authFirst, hrun⟩, rfl, rfl, rfl,
    holds_of_annsPasswords hpasswords⟩

/-- Auth refuses the new password and the database takes it. -/
theorem password_change_breaks :
    ∃ w w', ∃ ch : PasswordChange ann.uid w w', w.server.Holds ann.uid ann.password ∧
      ch.authOk = false ∧ ch.rowOk = true ∧ ¬ ch.Kept ch.Presents ∧ ¬ ch.Kept ch.Displays := by
  obtain ⟨w, w', ch, hauth, hrow, hc, hp⟩ := exists_annsChange false true
  have hnot : ¬ ch.Agreed := by
    rintro (⟨hok, -⟩ | hnew)
    · rw [hauth] at hok
      cases hok
    · have hsame := hp.unique hnew
      rw [PasswordChange.new, hc] at hsame
      exact absurd hsame (by decide)
  have haccepted : ch.Accepted := by
    rw [PasswordChange.Accepted, hc]
    decide
  refine ⟨w, w', ch, hp, hauth, hrow, ?_, ?_⟩
  · intro hkept
    exact hnot (((ch.kept_iff hp).1.mp hkept).2)
  · intro hkept
    exact hnot (((ch.kept_iff hp).2.mp hkept).resolve_left (not_not.mpr haccepted))

theorem password_changes_ann :
    ∃ w w', ∃ ch : PasswordChange ann.uid w w', ch.Kept ch.Presents ∧
      w'.server.Holds ann.uid "Secret789" := by
  obtain ⟨w, w', ch, hauth, hrow, hc, hp⟩ := exists_annsChange true true
  have haccepted : ch.Accepted := by
    rw [PasswordChange.Accepted, hc]
    decide
  have hall := (password_changes_iff (.change ch (.nil w')) hp).1.mpr
    ⟨⟨haccepted, Or.inl ⟨hauth, hrow⟩⟩, trivial⟩
  have hkept : ch.Kept ch.Presents := hall.1.1
  have hnew := (hkept.honest (ch.accepted_spec haccepted hp).2.1).2
  rw [PasswordChange.new, hc] at hnew
  exact ⟨w, w', ch, hkept, hnew⟩

end DailyDiary
