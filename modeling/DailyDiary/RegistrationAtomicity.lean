/-
Whether registration is all or nothing.

The invariants of the phases of an attempt: rows belong to accounts (`Owned`), a new
account has its row or waits for it (`Recorded`), one whose row was rejected stays
without it (`Orphaned`), and how far one attempt has come (`Progress`).
`registration_all_or_nothing_iff` says which runs keep accounts and rows together.
-/
import DailyDiary.RegistrationAttempts

set_option autoImplicit false

namespace DailyDiary

open Device

/-! ## Accounts and rows along the phases -/

section Moves

variable {srv₀ srv srv' : Server} {d : Device} {e : Event} {ph ph' : Phase}

/-- Rows belong to accounts, and the account that waits for its row is new. -/
structure Owned (srv₀ srv : Server) (ph : Phase) : Prop where
  kept : ∀ u, srv₀.HasAccount u → srv.HasAccount u
  owner : ∀ u, srv.userRow u ≠ none → srv.HasAccount u
  created : ∀ u c, ph = .created u c →
    srv.HasAccount u ∧ ¬ srv₀.HasAccount u ∧ srv.userRow u = none

theorem Owned.of_same (h : Owned srv₀ srv ph) (hsame : srv.Same srv')
    (hph : ∀ u c, ph' = .created u c → ph = .created u c) : Owned srv₀ srv' ph' where
  kept := fun u hu => (Server.hasAccount_congr hsame.accounts).mpr (h.kept u hu)
  owner := by
    intro u hu
    rw [Server.userRow_congr hsame.users] at hu
    exact (Server.hasAccount_congr hsame.accounts).mpr (h.owner u hu)
  created := by
    intro u c hc
    rw [Server.hasAccount_congr hsame.accounts, Server.userRow_congr hsame.users]
    exact h.created u c (hph u c hc)

/-- Rows go on belonging to accounts, and the account that waits for its row is new: a row
is written only for the account that its registration has just made. -/
theorem Owned.moves (h : Owned srv₀ srv ph) (hm : Moves srv d e srv' ph ph') :
    Owned srv₀ srv' ph' := by
  cases hm with
  | stay hsame hrow => exact h.of_same hsame fun _ _ hph => hph
  | submit hv hsame => exact h.of_same hsame (by rintro u c ⟨⟩)
  | fail hsame => exact h.of_same hsame (by rintro u c ⟨⟩)
  | @create k u self c srv' hnew haccounts husers =>
    have hhas : ∀ v, srv'.HasAccount v ↔ srv.HasAccount v ∨ v = u := fun _ =>
      Server.hasAccount_concat haccounts
    refine ⟨fun v hv => (hhas v).mpr (Or.inl (h.kept v hv)), ?_, ?_⟩
    · intro v hv
      rw [Server.userRow_congr husers] at hv
      exact (hhas v).mpr (Or.inl (h.owner v hv))
    · -- a uid without an account has no row
      rintro v c' ⟨⟩
      refine ⟨(hhas u).mpr (Or.inr rfl), fun hu => hnew (h.kept u hu), ?_⟩
      rw [Server.userRow_congr husers]
      by_contra hrow
      exact hnew (h.owner u hrow)
  | @accept k u c srv' haccounts husers =>
    refine ⟨fun v hv => (Server.hasAccount_congr haccounts).mpr (h.kept v hv), ?_, ?_⟩
    · intro v hv
      rw [Server.hasAccount_congr haccounts]
      by_cases hvu : v = u
      · -- the row that is stored is the one the account waits for
        subst hvu
        exact (h.created v c rfl).1
      · rw [Server.userRow_of_set_of_ne husers hvu] at hv
        exact h.owner v hv
    · rintro v c' ⟨⟩
  | reject hsame hrow => exact h.of_same hsame (by rintro u c ⟨⟩)
  | finish hsame => exact h.of_same hsame (by rintro u c ⟨⟩)

/-- Every new account has its row, or waits for it. -/
def Recorded (srv₀ srv : Server) (ph : Phase) : Prop :=
  ∀ u, srv.HasAccount u → ¬ srv₀.HasAccount u → srv.HasRow u ∨ ∃ c, ph = .created u c

theorem Recorded.of_same (h : Recorded srv₀ srv ph) (hsame : srv.Same srv')
    (hph : ∀ u c, ph = .created u c → ph' = .created u c) : Recorded srv₀ srv' ph' := by
  intro u hu hnew
  rw [Server.hasAccount_congr hsame.accounts] at hu
  rcases h u hu hnew with hrow | ⟨c, hc⟩
  · exact Or.inl ((Server.hasRow_congr (Server.userRow_congr hsame.users u)).mpr hrow)
  · exact Or.inr ⟨c, hph u c hc⟩

/-- Where the write of a row is accepted, every new account still has its row after the move
or waits for it. -/
theorem Recorded.moves (h : Recorded srv₀ srv ph) (haccepts : d.acceptsRow e = true)
    (hm : Moves srv d e srv' ph ph') : Recorded srv₀ srv' ph' := by
  cases hm with
  | stay hsame hrow => exact h.of_same hsame fun _ _ hph => hph
  | submit hv hsame => exact h.of_same hsame (by rintro u c ⟨⟩)
  | fail hsame => exact h.of_same hsame (by rintro u c ⟨⟩)
  | @create k u self c srv' hnew haccounts husers =>
    intro v hv hv₀
    rcases (Server.hasAccount_concat haccounts).mp hv with hold | rfl
    · rcases h v hold hv₀ with hrow | ⟨c', ⟨⟩⟩
      exact Or.inl ((Server.hasRow_congr (Server.userRow_congr husers v)).mpr hrow)
    · exact Or.inr ⟨c, rfl⟩
  | @accept k u c srv' haccounts husers =>
    intro v hv hv₀
    refine Or.inl ?_
    by_cases hvu : v = u
    · subst hvu
      exact Server.hasRow_of_userDictionary (Server.userRow_of_set husers)
    · rw [Server.hasAccount_congr haccounts] at hv
      rw [Server.hasRow_congr (Server.userRow_of_set_of_ne husers hvu)]
      rcases h v hv hv₀ with hrow | ⟨c', ⟨⟩⟩
      · exact hrow
      · exact absurd rfl hvu
  | reject hsame hno => cases haccepts.symm.trans hno
  | finish hsame => exact h.of_same hsame (by rintro u c ⟨⟩)

/-- The account of `u` is there without its row, and nothing is under way for it. -/
structure Orphaned (u : Uid) (srv : Server) (ph : Phase) : Prop where
  account : srv.HasAccount u
  row : srv.userRow u = none
  waits : ∀ c, ph ≠ .created u c

theorem Orphaned.of_same {u : Uid} (h : Orphaned u srv ph) (hsame : srv.Same srv')
    (hph : ∀ c, ph' = .created u c → ph = .created u c) : Orphaned u srv' ph' where
  account := (Server.hasAccount_congr hsame.accounts).mpr h.account
  row := (Server.userRow_congr hsame.users u).trans h.row
  waits := fun c hc => h.waits c (hph c hc)

/-- An account left without its row stays so: rows are written only for the account that a
registration has just made, and this one is made already. -/
theorem Orphaned.moves {u : Uid} (h : Orphaned u srv ph) (hm : Moves srv d e srv' ph ph') :
    Orphaned u srv' ph' := by
  cases hm with
  | stay hsame hrow => exact h.of_same hsame fun _ hph => hph
  | submit hv hsame => exact h.of_same hsame (by rintro c ⟨⟩)
  | fail hsame => exact h.of_same hsame (by rintro c ⟨⟩)
  | create hnew haccounts husers =>
    refine ⟨(Server.hasAccount_concat haccounts).mpr (Or.inl h.account),
      (Server.userRow_congr husers u).trans h.row, ?_⟩
    -- the new account is another one
    rintro c ⟨⟩
    exact hnew h.account
  | @accept k v c srv' haccounts husers =>
    -- the row that is stored is another one
    have hne : u ≠ v := by
      rintro rfl
      exact h.waits c rfl
    refine ⟨(Server.hasAccount_congr haccounts).mpr h.account,
      (Server.userRow_of_set_of_ne husers hne).trans h.row, ?_⟩
    rintro c' ⟨⟩
  | reject hsame hrow => exact h.of_same hsame (by rintro c ⟨⟩)
  | finish hsame => exact h.of_same hsame (by rintro c ⟨⟩)

/-- A row is rejected in the middle of an attempt only. -/
theorem Moves.rejects (hm : Moves srv d e srv' ph ph') (hno : d.acceptsRow e ≠ true) :
    ∃ u c, ph = .created u c ∧ ph' = .decided u c false ∧ srv.Same srv' := by
  cases hm with
  | stay hsame hrow => exact absurd hrow hno
  | @reject k u c srv' hsame hrow => exact ⟨u, c, rfl, rfl, hsame⟩
  | _ => exact absurd rfl hno

/-- How far the attempt has come that was submitted on `c`, over the services `srv₀`. -/
inductive Progress (srv₀ : Server) (c : RegistrationViewController) (srv : Server) :
    Phase → Prop where
  | untouched (hsame : srv₀.Same srv) : Progress srv₀ c srv .idle
  | requested {self : VcId} (hsame : srv₀.Same srv) : Progress srv₀ c srv (.requested self c)
  | created {u : Uid} (haccounts : srv.accounts = srv₀.accounts ++ [⟨u, c.email, c.password⟩])
      (husers : srv.users = srv₀.users) : Progress srv₀ c srv (.created u c)
  | stored {u : Uid} (haccounts : srv.accounts = srv₀.accounts ++ [⟨u, c.email, c.password⟩])
      (husers : srv.users = PathTree.set [u.val] c.userDictionary srv₀.users) :
      Progress srv₀ c srv (.decided u c true)
  | done {u : Uid} (haccounts : srv.accounts = srv₀.accounts ++ [⟨u, c.email, c.password⟩])
      (husers : srv.users = PathTree.set [u.val] c.userDictionary srv₀.users) :
      Progress srv₀ c srv .idle

theorem Progress.of_same {c : RegistrationViewController} (h : Progress srv₀ c srv ph)
    (hsame : srv.Same srv') : Progress srv₀ c srv' ph := by
  cases h with
  | untouched h => exact .untouched (h.trans hsame)
  | requested h => exact .requested (h.trans hsame)
  | created haccounts husers =>
    exact .created (hsame.accounts.trans haccounts) (hsame.users.trans husers)
  | stored haccounts husers =>
    exact .stored (hsame.accounts.trans haccounts) (hsame.users.trans husers)
  | done haccounts husers =>
    exact .done (hsame.accounts.trans haccounts) (hsame.users.trans husers)

/-- A move keeps the progress of the attempt, which goes from the request to the account and
from there to the row. Each phase says what the services hold in it. -/
theorem Progress.moves {c : RegistrationViewController} (h : Progress srv₀ c srv ph)
    (hno : e.registers = false) (haccepts : d.acceptsRow e = true)
    (hm : Moves srv d e srv' ph ph') : Progress srv₀ c srv' ph' := by
  cases hm with
  | stay hsame hrow => exact h.of_same hsame
  | submit hv hsame => cases hno
  | fail hsame =>
    cases h with
    | requested h => exact .untouched (h.trans hsame)
  | create hnew haccounts husers =>
    cases h with
    | requested h =>
      exact .created (haccounts.trans (congrArg (· ++ _) h.accounts)) (husers.trans h.users)
  | accept haccounts husers =>
    cases h with
    | created haccounts₀ husers₀ =>
      exact .stored (haccounts.trans haccounts₀) (husers.trans (congrArg _ husers₀))
  | reject hsame hrow => cases haccepts.symm.trans hrow
  | finish hsame =>
    cases h with
    | stored haccounts husers =>
      exact .done (hsame.accounts.trans haccounts) (hsame.users.trans husers)

end Moves

/-! ## All or nothing -/

/-- What an attempt may leave of the services: what it found, or one account more, and
its row. `c` is the screen at the press. -/
def Server.AllOrNothing (srv : Server) (c : RegistrationViewController) (srv' : Server) : Prop :=
  srv.Same srv' ∨ ∃ u,
    srv'.accounts = srv.accounts ++ [⟨u, c.userEmailTextField, c.userPasswordTextField⟩] ∧
    srv'.users = PathTree.set [u.val] c.readFields.userDictionary srv.users

/-- In the step the account of `u` is registered and "Regestration successfull" is
presented. -/
def Congratulates (w : World) (e : ℕ × Event) (w' : World) (u : Uid) : Prop :=
  (∃ self userName email password, Registers w e self userName email password u) ∧
    (w.device e.1).alert = none ∧
    (w'.device e.1).alert = some RegistrationViewController.congratulations

/-- In the end of the run a new account is there exactly when its row is, the alert was
presented for accounts that have their row, and every attempt that has run to its end
left all or nothing. -/
structure AllOrNothing (w₀ : World) (es : List (ℕ × Event)) (w' : World) : Prop where
  rows : ∀ u, ¬ w₀.server.HasAccount u → (w'.server.HasAccount u ↔ w'.server.HasRow u)
  alerts : ∀ before e after w w₁ u, es = before ++ e :: after → app.run w₀ before = some w →
    app.step w e = some w₁ → Congratulates w e w₁ u → w'.server.HasRow u
  attempts : ∀ before i during after w w₁ self c,
    es = before ++ (i, .press .registerBtnPressed) :: (during ++ after) →
    app.run w₀ before = some w → (w.device i).visible = some (self, .registration c) →
    app.run w ((i, .press .registerBtnPressed) :: during) = some w₁ → w₁.Quiet →
    (∀ e ∈ during, e.2.registers = false) → w.server.AllOrNothing c w₁.server

/-- The row is there when the alert is presented. -/
def AlertsAfterRow (w₀ : World) (es : List (ℕ × Event)) : Prop :=
  ∀ before e after w w₁ u, es = before ++ e :: after → app.run w₀ before = some w →
    app.step w e = some w₁ → Congratulates w e w₁ u → w₁.server.HasRow u

section AllOrNothing

variable {w₀ w w' w₁ : World} {es : List (ℕ × Event)} {e : ℕ × Event}

theorem run_hasAccount {u : Uid} (hr : app.run w es = some w') (h : w.server.HasAccount u) :
    w'.server.HasAccount u := by
  refine app.run_invariant' (P := fun w => w.server.HasAccount u) ?_ h hr
  rintro w ⟨i, e⟩ w' hu hs
  exact hu.step (app_step_eq_some.mp hs).1

theorem run_owned (hw : app.init w₀)
    (hrows : ∀ u, w₀.server.userRow u ≠ none → w₀.server.HasAccount u)
    (hattempts : app.Always Attempts w₀ es) (hr : app.run w₀ es = some w) :
    ∃ i ph, w.At i ph ∧ Owned w₀.server w.server ph := by
  refine run_attempts (G := fun _ _ => True) (fun _ _ _ _ _ _ hm h => h.moves hm)
    ((quiet_of_init hw).at_idle 0) ⟨fun _ hu => hu, hrows, ?_⟩ hattempts (app.always_true w₀ es) hr
  rintro u c ⟨⟩

theorem run_recorded (hw : app.init w₀) (hattempts : app.Always Attempts w₀ es)
    (haccepted : app.Always RowAccepted w₀ es) (hr : app.run w₀ es = some w') (hquiet : w'.Quiet)
    {u : Uid} (hnew : ¬ w₀.server.HasAccount u) (hu : w'.server.HasAccount u) :
    w'.server.HasRow u := by
  obtain ⟨i, ph, hat, hrecorded⟩ := run_attempts (I := Recorded w₀.server)
    (fun _ _ _ _ _ hG hm h => h.moves hG hm) ((quiet_of_init hw).at_idle 0)
    (fun u hu hnew => absurd hu hnew) hattempts haccepted hr
  obtain rfl := hat.eq_idle hquiet
  refine (hrecorded u hu hnew).resolve_right ?_
  rintro ⟨c, ⟨⟩⟩

/-- One attempt, from the press to where nothing is under way. -/
theorem attempt_allOrNothing {i : ℕ} {during : List (ℕ × Event)} {self : VcId}
    {c : RegistrationViewController}
    (hattempts : app.Always Attempts w ((i, .press .registerBtnPressed) :: during))
    (haccepted : app.Always RowAccepted w ((i, .press .registerBtnPressed) :: during))
    (hv : (w.device i).visible = some (self, .registration c))
    (hr : app.run w ((i, .press .registerBtnPressed) :: during) = some w₁) (hquiet : w₁.Quiet)
    (hno : ∀ e ∈ during, e.2.registers = false) : w.server.AllOrNothing c w₁.server := by
  obtain ⟨w₂, hs, hr₂⟩ := (app.run_cons_eq_some).mp hr
  obtain ⟨j, ph, hat, hmoves⟩ := ((hattempts.1.apart rfl).at_idle i).step hattempts.1 hs
  -- the press leaves the attempt requested, or nothing is under way
  have hstart : Progress w.server c.readFields w₂.server ph := by
    cases hmoves with
    | stay hsame hrow => exact .untouched hsame
    | submit hv' hsame =>
      obtain ⟨-, heq⟩ := Prod.mk.inj (Option.some.inj (hv.symm.trans hv'))
      obtain rfl := ViewController.registration.inj heq
      exact .requested hsame
  obtain ⟨j', ph', hat', hend⟩ := run_attempts (I := Progress w.server c.readFields)
    (G := fun w e => RowAccepted w e ∧ e.2.registers = false)
    (fun _ _ _ _ _ hG hm h => h.moves hG.2 hG.1 hm) hat hstart (hattempts.2 w₂ hs)
    (app.always_and (haccepted.2 w₂ hs)
      (app.always_mono (fun _ e he _ => hno e he) (app.always_true w₂ during))) hr₂
  obtain rfl := hat'.eq_idle hquiet
  cases hend with
  | untouched hsame => exact Or.inl hsame
  | done haccounts husers => exact Or.inr ⟨_, haccounts, husers⟩

/-- The account whose row is rejected stays without it. -/
theorem run_orphaned {before after : List (ℕ × Event)} (hw : app.init w₀)
    (hrows : ∀ u, w₀.server.userRow u ≠ none → w₀.server.HasAccount u)
    (hattempts : app.Always Attempts w₀ (before ++ e :: after))
    (hr : app.run w₀ (before ++ e :: after) = some w') (hb : app.run w₀ before = some w)
    (hrejected : ¬ RowAccepted w e) :
    ∃ u, ¬ w₀.server.HasAccount u ∧ w'.server.HasAccount u ∧ w'.server.userRow u = none := by
  obtain ⟨i, ph, hat, howned⟩ := run_owned hw hrows (app.always_prefix hattempts) hb
  obtain ⟨w₁, hs, hafter⟩ := app.run_middle hr hb
  have hattempts₁ := app.always_append hattempts hb
  obtain ⟨j, ph', hat', hmoves⟩ := hat.step hattempts₁.1 hs
  obtain ⟨u, c, rfl, rfl, hsame⟩ := hmoves.rejects hrejected
  obtain ⟨hu, hnew, hnone⟩ := howned.created u c rfl
  -- no later attempt registers this uid again
  have hstart : Orphaned u w₁.server (.decided u c false) := by
    refine ⟨(Server.hasAccount_congr hsame.accounts).mpr hu,
      (Server.userRow_congr hsame.users u).trans hnone, ?_⟩
    rintro c' ⟨⟩
  obtain ⟨_, _, -, hend⟩ := run_attempts (I := Orphaned u) (G := fun _ _ => True)
    (fun _ _ _ _ _ _ hm h => h.moves hm) hat' hstart (hattempts₁.2 w₁ hs)
    (app.always_true w₁ after) hafter
  exact ⟨u, hnew, hend.account, hend.row⟩

/-- The block of createUser congratulates as soon as the account exists, if its screen is on
top. The row's write is only issued by then. -/
theorem alert_of_createUser {srv srv' : Server} {d d' : Device} {k : ℕ} {self : VcId}
    {userName email password : String} {u : Uid}
    (hcall : d.auths[k]? = some (.createUser self email password userName))
    (h : step srv d (.authCompleted k (.success u)) = some (srv', d')) :
    d'.alert = if d.onTop self then some RegistrationViewController.congratulations
      else d.alert := by
  cases steps_of_step h with
  | authCompleted hr =>
    obtain ⟨call, hcall', -, rfl⟩ := completeAuth_eq_some.mp hr
    obtain rfl := Option.some.inj (hcall.symm.trans hcall')
    show (d.settle (RegistrationViewController.createUserCompleted self false _)).alert = _
    rcases RegistrationViewController.createUserCompleted_of_some (u := u)
      (d := { d with auths := d.auths.eraseIdx k, currentUser := some u }) rfl with
      ⟨c, -, heq⟩ | ⟨-, heq⟩
    · rw [heq]
      rfl
    · rw [heq]
      rfl

/-- The alert is presented exactly when the screen of the registration is on top. -/
theorem notCongratulated_iff (hs : app.step w e = some w₁) :
    NotCongratulated w e ↔ ∀ u, ¬ Congratulates w e w₁ u := by
  obtain ⟨i, e⟩ := e
  obtain ⟨hstep, -⟩ := app_step_eq_some.mp hs
  constructor
  · rintro hno u ⟨⟨self, userName, email, password, k, he, hcall⟩, hnone, halert⟩
    obtain rfl : e = .authCompleted k (.success u) := he
    have hnot : ¬ (w.device i).onTop self := by
      simpa [NotCongratulated, congratulates, hcall] using hno
    rw [alert_of_createUser hcall hstep, if_neg hnot, hnone] at halert
    cases halert
  · intro hno
    unfold NotCongratulated congratulates
    split
    · next k u he =>
      obtain rfl : e = .authCompleted k (.success u) := he
      split
      · next self email password userName hcall =>
        refine decide_eq_false ?_
        intro hontop
        refine hno u ⟨⟨self, userName, email, password, k, rfl, hcall⟩, hontop.2, ?_⟩
        exact (alert_of_createUser hcall hstep).trans (if_pos hontop)
      · rfl
    · rfl

/-- When an account is registered, it has no row yet. -/
theorem not_hasRow_of_registers {ph : Phase} {self : VcId}
    {userName email password : String} {u : Uid} (howned : Owned w₀.server w.server ph)
    (hregisters : Registers w e self userName email password u) (hs : app.step w e = some w₁) :
    ¬ w₁.server.HasRow u := by
  obtain ⟨hnew, -⟩ := hregisters.account hs
  obtain ⟨i, e⟩ := e
  obtain ⟨k, he, hcall⟩ := hregisters
  obtain rfl : e = .authCompleted k (.success u) := he
  obtain ⟨call, -, hanswer⟩ := answered_of_step (app_step_eq_some.mp hs).1
  refine Server.not_hasRow_of_none ?_
  rw [Server.userRow, Server.answer_db hanswer, ← Server.userRow]
  by_contra hrow
  exact hnew (howned.owner u hrow)

/-- A finished registration has made account and row, or neither, exactly when the server
accepts every row it is asked to write. -/
theorem allOrNothing_iff (hw : app.init w₀)
    (hrows : ∀ u, w₀.server.userRow u ≠ none → w₀.server.HasAccount u)
    (hattempts : app.Always Attempts w₀ es) (hr : app.run w₀ es = some w') (hquiet : w'.Quiet) :
    AllOrNothing w₀ es w' ↔ app.Always RowAccepted w₀ es := by
  constructor
  · intro hall
    refine (app.always_iff).mpr ?_
    rintro before e after w rfl hb
    by_contra hrejected
    obtain ⟨u, hnew, hu, hnone⟩ := run_orphaned hw hrows hattempts hr hb hrejected
    exact Server.not_hasRow_of_none hnone ((hall.rows u hnew).mp hu)
  · intro haccepted
    obtain ⟨i, ph, -, howned⟩ := run_owned hw hrows hattempts hr
    refine ⟨?_, ?_, ?_⟩
    · intro u hnew
      refine ⟨run_recorded hw hattempts haccepted hr hquiet hnew, ?_⟩
      intro hrow
      exact howned.owner u fun hnone => Server.not_hasRow_of_none hnone hrow
    · rintro before e after w w₁ u rfl hb hs ⟨⟨self, userName, email, password, hregisters⟩, -⟩
      obtain ⟨w₂, hs₂, hafter⟩ := app.run_middle hr hb
      obtain rfl := Option.some.inj (hs.symm.trans hs₂)
      obtain ⟨hnew, hu⟩ := hregisters.account hs
      exact run_recorded hw hattempts haccepted hr hquiet
        (fun hold => hnew (run_hasAccount hb hold)) (run_hasAccount hafter hu)
    · rintro before i during after w w₁ self c rfl hb hv hr₁ hquiet₁ hno
      exact attempt_allOrNothing (app.always_prefix (app.always_append hattempts hb))
        (app.always_prefix (app.always_append haccepted hb)) hv hr₁ hquiet₁ hno

/-- The congratulation comes after the row exists exactly when no success of createUser
finds the registration screen on top, since its block congratulates at once. -/
theorem alertsAfterRow_iff (hw : app.init w₀)
    (hrows : ∀ u, w₀.server.userRow u ≠ none → w₀.server.HasAccount u)
    (hattempts : app.Always Attempts w₀ es) (hr : app.run w₀ es = some w') :
    AlertsAfterRow w₀ es ↔ app.Always NotCongratulated w₀ es := by
  constructor
  · intro halerts
    refine (app.always_iff).mpr ?_
    rintro before e after w rfl hb
    obtain ⟨w₁, hs, -⟩ := app.run_middle hr hb
    refine (notCongratulated_iff hs).mpr ?_
    intro u hcongratulates
    have hrow := halerts before e after w w₁ u rfl hb hs hcongratulates
    obtain ⟨⟨self, userName, email, password, hregisters⟩, -⟩ := hcongratulates
    obtain ⟨i, ph, -, howned⟩ := run_owned hw hrows (app.always_prefix hattempts) hb
    exact not_hasRow_of_registers howned hregisters hs hrow
  · intro hnever before e after w w₁ u hes hb hs hcongratulates
    have hno := (app.always_iff).mp hnever before e after w hes hb
    exact absurd hcongratulates ((notCongratulated_iff hs).mp hno u)

end AllOrNothing

/-- **When registration is all or nothing.** In a run of registrations that do not
overlap, accounts and rows stay together, and every attempt leaves all or nothing,
exactly when the server rejects no row. The alert never waits for the row: it comes after
the row only where it is not presented at all. -/
theorem registration_all_or_nothing_iff {w₀ w' : World} {es : List (ℕ × Event)}
    (hw : app.init w₀) (hrows : ∀ u, w₀.server.userRow u ≠ none → w₀.server.HasAccount u)
    (hattempts : app.Always Attempts w₀ es) (hr : app.run w₀ es = some w') (hquiet : w'.Quiet) :
    (AllOrNothing w₀ es w' ↔ app.Always RowAccepted w₀ es) ∧
      (AlertsAfterRow w₀ es ↔ app.Always NotCongratulated w₀ es) :=
  ⟨allOrNothing_iff hw hrows hattempts hr hquiet, alertsAfterRow_iff hw hrows hattempts hr⟩

/-! ## Runs of `ann` -/

/-- Where only device 0 takes part, nothing is under way on the others. -/
theorem quiet_of_alone {srv : Server} {w : World} {es : List Event}
    (hr : app.run (World.start srv) (alone es) = some w) (hquiet : (w.device 0).quiet = true) :
    w.Quiet := by
  intro j
  by_cases hj : j = 0
  · subst hj
    exact hquiet
  · rw [device_of_alone hr hj]
    rfl

theorem attempts_of_alone {srv : Server} {es : List Event}
    (h : app.Always (fun w e => (w.device e.1).attemptsOnly e.2 = true ∧
      (e.2.registers = true → (w.device 0).quiet = true)) (World.start srv) (alone es)) :
    app.Always Attempts (World.start srv) (alone es) := by
  refine (app.always_iff).mpr ?_
  intro before e after w hes hb
  obtain ⟨honly, hquiet⟩ := (app.always_iff).mp h before e after w hes hb
  obtain ⟨es₁, es₂, rfl, rfl, -⟩ := List.map_eq_append_iff.mp hes
  exact ⟨honly, fun hregisters => quiet_of_alone hb (hquiet hregisters)⟩

theorem rows_of_empty (accounts : List Account) (u : Uid)
    (h : (World.start ⟨accounts, none⟩).server.userRow u ≠ none) :
    (World.start ⟨accounts, none⟩).server.HasAccount u :=
  absurd (PathTree.get_none _) h

/-- Auth accepts the registration, and the server rejects the row. -/
def annsRowIsRejected : List Event :=
  [.authCompleted 0 (.success ann.uid), .writeDecided 0 false, .writeCompleted 0]

/-- What a registration of `ann` has left: the accounts, her row, and whether anything is
still under way. -/
def World.annsRecords (w : World) : List Account × Bool × Bool :=
  (w.server.accounts, decide (w.server.HasRow ann.uid), (w.device 0).quiet)

set_option maxRecDepth 10000 in
theorem registration_half_done :
    ¬ ∀ (w₀ w' : World) (es : List (ℕ × Event)), app.init w₀ →
      (∀ u, w₀.server.userRow u ≠ none → w₀.server.HasAccount u) →
      app.Always Attempts w₀ es → app.run w₀ es = some w' → w'.Quiet →
      AllOrNothing w₀ es w' ∧ AlertsAfterRow w₀ es := by
  intro h
  have hend : (app.run (World.start ⟨[], none⟩) (alone (annSubmits ++ annsRowIsRejected))).map
      World.annsRecords = some ([ann], false, true) := by decide
  obtain ⟨w', hr, hend⟩ := Option.map_eq_some_iff.mp hend
  simp only [World.annsRecords, Prod.mk.injEq, decide_eq_false_iff_not] at hend
  obtain ⟨haccounts, hrow, hquiet⟩ := hend
  obtain ⟨hall, -⟩ := h _ w' _ (init_start _) (rows_of_empty []) (attempts_of_alone (by decide)) hr
    (quiet_of_alone hr hquiet)
  refine hrow ((hall.rows ann.uid ?_).mp ⟨ann, ?_, rfl⟩)
  · rintro ⟨a, ha, -⟩
    cases ha
  · rw [haccounts]
    exact List.mem_singleton_self ann

set_option maxRecDepth 10000 in
/-- `ann` leaves the screen before her account is there: no alert, and the row is
accepted. -/
theorem registration_all_or_nothing_ann :
    ∃ w', app.run (World.start ⟨[], none⟩)
        (alone (annSubmits ++ .press .alreadyBtnPressed :: annIsRegistered)) = some w' ∧
      w'.server.HasRow ann.uid ∧
      AllOrNothing (World.start ⟨[], none⟩)
        (alone (annSubmits ++ .press .alreadyBtnPressed :: annIsRegistered)) w' ∧
      AlertsAfterRow (World.start ⟨[], none⟩)
        (alone (annSubmits ++ .press .alreadyBtnPressed :: annIsRegistered)) := by
  have hend : (app.run (World.start ⟨[], none⟩)
      (alone (annSubmits ++ .press .alreadyBtnPressed :: annIsRegistered))).map
      World.annsRecords = some ([ann], true, true) := by decide
  obtain ⟨w', hr, hend⟩ := Option.map_eq_some_iff.mp hend
  simp only [World.annsRecords, Prod.mk.injEq, decide_eq_true_eq] at hend
  obtain ⟨-, hrow, hquiet⟩ := hend
  obtain ⟨hall, halerts⟩ := registration_all_or_nothing_iff (init_start _) (rows_of_empty [])
    (attempts_of_alone (by decide)) hr (quiet_of_alone hr hquiet)
  exact ⟨w', hr, hrow, hall.mpr (by decide), halerts.mpr (by decide)⟩

end DailyDiary
