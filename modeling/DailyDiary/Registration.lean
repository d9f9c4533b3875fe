/-
What a registration leaves in the `user` table.

The completion block of `createUser` runs long after the press that issued the
request. It takes the uid from the session, which Auth has set to the new account,
and the other fields from the variables of the screen as they are by then.
`registrations_recorded_iff` says when the row is still the one that was submitted.
-/
import DailyDiary.Accounts

set_option autoImplicit false

namespace DailyDiary

open Device

/-! ## Accounts -/

def Server.HasAccount (srv : Server) (u : Uid) : Prop :=
  ∃ a ∈ srv.accounts, a.uid = u

/-- Auth never forgets an account. The app has no request that deletes one, and a changed
password leaves the account where it is. -/
theorem Server.HasAccount.answer {srv srv' : Server} {call : AuthCall} {reply : AuthReply}
    {u : Uid} (h : srv.HasAccount u) (hanswer : srv.answer call reply = some srv') :
    srv'.HasAccount u := by
  obtain ⟨a, ha, rfl⟩ := h
  unfold Server.answer at hanswer
  split at hanswer
  · split at hanswer <;> cases hanswer
    exact ⟨a, ha, rfl⟩
  · split at hanswer <;> cases hanswer
    exact ⟨a, List.mem_append_left _ ha, rfl⟩
  · split at hanswer <;> cases hanswer
    refine ⟨_, List.mem_map_of_mem ha, ?_⟩
    split <;> rfl
  · cases hanswer
    exact ⟨a, ha, rfl⟩
  · cases hanswer
  · cases hanswer
    exact ⟨a, ha, rfl⟩

/-- A registration succeeds for a uid that no account has. -/
theorem Server.answer_createUser {srv srv' : Server} {self : VcId}
    {email password userName : String} {u : Uid}
    (h : srv.answer (.createUser self email password userName) (.success u) = some srv') :
    ¬ srv.HasAccount u ∧ srv'.HasAccount u := by
  simp only [Server.answer] at h
  split at h
  · next hall =>
    obtain rfl := Option.some.inj h
    refine ⟨?_, ⟨_, List.mem_append_right _ (List.mem_singleton_self _), rfl⟩⟩
    rintro ⟨a, ha, rfl⟩
    have hne := List.all_eq_true.mp hall a ha
    simp at hne
  · cases h

theorem answered_of_step {srv srv' : Server} {d d' : Device} {k : ℕ} {reply : AuthReply}
    (h : step srv d (.authCompleted k reply) = some (srv', d')) :
    ∃ call, d.auths[k]? = some call ∧ srv.answer call reply = some srv' := by
  cases steps_of_step h with
  | authCompleted hr =>
    obtain ⟨call, hcall, hanswer, -⟩ := completeAuth_eq_some.mp hr
    exact ⟨call, hcall, hanswer⟩

theorem Server.HasAccount.step {srv srv' : Server} {d d' : Device} {e : Event} {u : Uid}
    (h : srv.HasAccount u) (hs : DailyDiary.step srv d e = some (srv', d')) :
    srv'.HasAccount u := by
  cases steps_of_step hs with
  | authCompleted hr =>
    obtain ⟨call, -, hanswer, -⟩ := completeAuth_eq_some.mp hr
    exact h.answer hanswer
  | @writeDecided k accepted srv' d' hdecide =>
    obtain ⟨wr, -, -, rfl, -⟩ := decideWrite_eq_some.mp hdecide
    cases accepted with
    | false => exact h
    | true => exact h
  | _ => exact h

/-! ## Rows -/

/-- The row of `u` has these fields. -/
structure Server.RowHolds (srv : Server) (u : Uid) (userName email password : String) : Prop where
  userName : stringField "userName" (srv.userRow u) = some userName
  email : stringField "email" (srv.userRow u) = some email
  password : stringField "password" (srv.userRow u) = some password

theorem rowHolds_userDictionary {srv : Server} {u : Uid} {c : RegistrationViewController}
    (h : srv.userRow u = c.userDictionary) : srv.RowHolds u c.userName c.email c.password := by
  constructor <;> rw [h] <;> rfl

theorem get_user_set_memory {ref : Ref} (h : ref.head? = some "memory") (key : String)
    (value t : Option Json) :
    PathTree.get ["user", key] (PathTree.set ref value t) = PathTree.get ["user", key] t := by
  obtain ⟨rest, rfl⟩ := List.head?_eq_some_iff.mp h
  rw [PathTree.get_cons, PathTree.child_set_of_ne (by decide)]
  rfl

theorem get_user_set_userRef_of_ne {v : Uid} {key : String} (h : v.val ≠ key)
    (value t : Option Json) :
    PathTree.get ["user", key] (PathTree.set (userRef v) value t) =
      PathTree.get ["user", key] t := by
  refine PathTree.get_set_of_disjoint ?_ ?_ value t
  · simpa using h
  · simpa using h.symm

/-- Every pending write is one of a memory or of a row, and every row written
satisfies `P`. -/
def RowWrites (P : Uid → Option Json → Prop) (w : World) : Prop :=
  ∀ i, ∀ wr ∈ (w.device i).writes,
    wr.ref.head? = some "memory" ∨ ∃ v, wr.ref = userRef v ∧ P v wr.value

theorem rowWrites_init {P : Uid → Option Json → Prop} {w : World} (hw : app.init w) :
    RowWrites P w := by
  intro i wr hwr
  rw [writes_of_init hw i] at hwr
  cases hwr

theorem RowWrites.mono {P Q : Uid → Option Json → Prop} {w : World}
    (hPQ : ∀ v value, P v value → Q v value) (h : RowWrites P w) : RowWrites Q w := by
  intro i wr hwr
  rcases h i wr hwr with hm | ⟨v, href, hP⟩
  · exact Or.inl hm
  · exact Or.inr ⟨v, href, hPQ v _ hP⟩

/-! ## Runs of registrations -/

/-- The step completes the registration of `u` with success; the request was made
with these texts. -/
def Registers (w : World) (e : ℕ × Event) (self : VcId) (userName email password : String)
    (u : Uid) : Prop :=
  ∃ k, e.2 = .authCompleted k (.success u) ∧
    (w.device e.1).auths[k]? = some (.createUser self email password userName)

/-- The event is not a rejection by the server, and writes into rows only as a
registration: no user name is entered in a profile and no password changed. -/
def Device.registrationOnly (d : Device) : Event → Bool
  | .press .updateBtnPressed => false
  | .alertOk _ _ => d.alert.map Alert.action ≠ some .setUserName
  | .writeDecided _ accepted => accepted
  | _ => true

def RegistrationOnly (w : World) (e : ℕ × Event) : Prop :=
  (w.device e.1).registrationOnly e.2 = true

instance (w : World) (e : ℕ × Event) : Decidable (RegistrationOnly w e) :=
  inferInstanceAs (Decidable (_ = true))

section Steps

variable {w w' : World} {e : ℕ × Event}

/-- A registration that completes hands the row to the database, with the
variables of its screen at this moment. -/
theorem issues_row {i : ℕ} {e : Event} {wr : Write} (hissue : (w.device i).Issues e wr)
    (honly : RegistrationOnly w (i, e)) :
    wr.ref.head? = some "memory" ∨ ∃ self userName email password u c,
      Registers w (i, e) self userName email password u ∧
        (w.device i).vcs[self]? = some (.registration c) ∧ wr.ref = userRef u ∧
        wr.value = c.userDictionary := by
  cases hissue with
  | @userRow k self email password name u c hcall hc =>
    exact Or.inr ⟨self, name, email, password, u, c, ⟨k, rfl, hcall⟩, hc, rfl, rfl⟩
  | memory hv hc hu => exact Or.inl (head_memoryRef _ _)
  | deletion ha ht hu => exact Or.inl (head_memoryRef _ _)
  | userName ha ht hu => simp [RegistrationOnly, registrationOnly, ha] at honly
  | password hv hshown hc hu => cases honly

theorem Registers.account {self : VcId} {userName email password : String} {u : Uid}
    (h : Registers w e self userName email password u) (hs : app.step w e = some w') :
    ¬ w.server.HasAccount u ∧ w'.server.HasAccount u := by
  obtain ⟨i, e⟩ := e
  obtain ⟨k, he, hcall⟩ := h
  obtain rfl : e = .authCompleted k (.success u) := he
  obtain ⟨call, hcall', hanswer⟩ := answered_of_step (app_step_eq_some.mp hs).1
  obtain rfl := Option.some.inj (hcall.symm.trans hcall')
  exact Server.answer_createUser hanswer

/-- Whatever is true of the dictionaries of all registrations is true of every pending row
write. A step adds such a write only where it makes an account. -/
theorem RowWrites.step {P : Uid → Option Json → Prop} (h : RowWrites P w)
    (honly : RegistrationOnly w e)
    (hnew : ∀ self userName email password u c, Registers w e self userName email password u →
      (w.device e.1).vcs[self]? = some (.registration c) → P u c.userDictionary)
    (hs : app.step w e = some w') : RowWrites P w' := by
  obtain ⟨i, e⟩ := e
  obtain ⟨hstep, hne⟩ := app_step_eq_some.mp hs
  intro j wr hwr
  by_cases hj : j = i
  · subst hj
    rcases (step_effect hstep).writes.mem hwr with ⟨wr₀, hwr₀, href, hvalue, -⟩ | hissue
    · rw [← href, ← hvalue]
      exact h j wr₀ hwr₀
    · rcases issues_row hissue honly with
        hm | ⟨self, userName, email, password, u, c, hregisters, hc, href, hvalue⟩
      · exact Or.inl hm
      · refine Or.inr ⟨u, href, ?_⟩
        rw [hvalue]
        exact hnew self userName email password u c hregisters hc
  · rw [hne j hj] at hwr
    exact h j wr hwr

theorem accepted_of_step {srv srv' : Server} {d d' : Device} {k : ℕ}
    (h : step srv d (.writeDecided k true) = some (srv', d')) :
    ∃ wr, d.writes[k]? = some wr ∧ srv'.db = PathTree.set wr.ref wr.value srv.db ∧
      d'.writes = d.writes.set k { wr with verdict := some true } := by
  cases steps_of_step h with
  | writeDecided hdecide =>
    obtain ⟨wr, hwr, -, rfl, rfl⟩ := decideWrite_eq_some.mp hdecide
    exact ⟨wr, hwr, rfl, rfl⟩

/-- What a step does to one row. It leaves the row, and the undecided writes of it
where they are, or the server stores a row that was pending. -/
theorem step_row {P : Uid → Option Json → Prop} (h : RowWrites P w)
    (honly : RegistrationOnly w e) (hs : app.step w e = some w') (key : String) :
    (PathTree.get ["user", key] w'.server.db = PathTree.get ["user", key] w.server.db ∧
      ∀ j, ∀ wr ∈ (w.device j).writes, wr.verdict = none → wr.ref = ["user", key] →
        wr ∈ (w'.device j).writes) ∨
    ∃ u value, u.val = key ∧ P u value ∧
      PathTree.get ["user", key] w'.server.db = value := by
  obtain ⟨i, e⟩ := e
  obtain ⟨hstep, hne⟩ := app_step_eq_some.mp hs
  by_cases he : e.decides = true
  · obtain ⟨k, rfl⟩ : ∃ k, e = .writeDecided k true := by
      cases e with
      | writeDecided k accepted =>
        obtain rfl : accepted = true := honly
        exact ⟨k, rfl⟩
      | _ => cases he
    obtain ⟨wr, hwr, hdb, hwrites⟩ := accepted_of_step hstep
    -- a write of another place is not one of the row
    have hother : (wr.ref ≠ ["user", key]) → ∀ j, ∀ wr' ∈ (w.device j).writes,
        wr'.verdict = none → wr'.ref = ["user", key] → wr' ∈ (w'.device j).writes := by
      intro hrefne j wr' hwr' _ href
      by_cases hj : j = i
      · subst hj
        obtain ⟨m, hm⟩ := List.mem_iff_getElem?.mp hwr'
        have hkm : k ≠ m := by
          rintro rfl
          obtain rfl := Option.some.inj (hwr.symm.trans hm)
          exact hrefne href
        rw [hwrites]
        exact List.mem_of_getElem? ((List.getElem?_set_ne hkm).trans hm)
      · rw [hne j hj]
        exact hwr'
    rcases h i wr (List.mem_of_getElem? hwr) with hm | ⟨v, href, hP⟩
    · refine Or.inl ⟨?_, hother ?_⟩
      · rw [hdb]
        exact get_user_set_memory hm key _ _
      · rintro href
        rw [href] at hm
        simp at hm
    · by_cases hkey : v.val = key
      · refine Or.inr ⟨v, wr.value, hkey, hP, ?_⟩
        subst hkey
        rw [hdb, href, userRef_eq, PathTree.get_set_self]
      · refine Or.inl ⟨?_, hother ?_⟩
        · rw [hdb, href]
          exact get_user_set_userRef_of_ne hkey _ _
        · rw [href, userRef_eq]
          simpa using hkey
  · refine Or.inl ⟨?_, ?_⟩
    · rcases step_db hstep with hsame | ⟨k, wr, rfl, -⟩
      · rw [hsame]
      · exact absurd rfl he
    · intro j wr hwr hnone _
      by_cases hj : j = i
      · subst hj
        exact ((step_effect hstep).pending wr hwr hnone).resolve_right he
      · rw [hne j hj]
        exact hwr

end Steps

/-! ## The row of one registration -/

/-- The row of `u` is on its way to the database, or there, with `value`. -/
structure Recording (u : Uid) (value : Option Json) (w : World) : Prop where
  account : w.server.HasAccount u
  writes : RowWrites (fun v row => v = u → row = value) w
  row : (∃ i, ∃ wr ∈ (w.device i).writes, wr.verdict = none ∧ wr.ref = userRef u) ∨
    w.server.userRow u = value

/-- Once its account is made a row goes on being recorded, as a pending write or in the
database: no step of such a run writes anything else to it. -/
theorem Recording.step {u : Uid} {value : Option Json} {w w' : World} {e : ℕ × Event}
    (h : Recording u value w) (honly : RegistrationOnly w e) (hs : app.step w e = some w') :
    Recording u value w' where
  account := by
    obtain ⟨i, e⟩ := e
    exact h.account.step (app_step_eq_some.mp hs).1
  writes := by
    refine h.writes.step honly ?_ hs
    rintro self userName email password v c hregisters - rfl
    -- the account is there already
    exact absurd h.account (hregisters.account hs).1
  row := by
    rcases step_row h.writes honly hs u.val with ⟨hsame, hstay⟩ | ⟨v, row, hv, hvalue, hrow⟩
    · rcases h.row with ⟨j, wr, hwr, hnone, href⟩ | hstored
      · exact Or.inl ⟨j, wr, hstay j wr hwr hnone (by rw [href, userRef_eq]), hnone, href⟩
      · refine Or.inr ?_
        rw [Server.userRow, userRef_eq, hsame, ← userRef_eq]
        exact hstored
    · refine Or.inr ?_
      rw [Server.userRow, userRef_eq, hrow]
      exact hvalue (Uid.ext hv)

/-- The block of `createUser` writes a row made of its screen's variables. -/
theorem step_createUserCompleted {srv srv' : Server} {d d' : Device} {k : ℕ} {self : VcId}
    {userName email password : String} {u : Uid} {c : RegistrationViewController}
    (hcall : d.auths[k]? = some (.createUser self email password userName))
    (hc : d.vcs[self]? = some (.registration c))
    (h : step srv d (.authCompleted k (.success u)) = some (srv', d')) :
    d'.writes = d.writes ++
      [{ ref := userRef u, value := c.userDictionary, completion := .userRow }] := by
  cases steps_of_step h with
  | authCompleted hr =>
    obtain ⟨call, hcall', -, rfl⟩ := completeAuth_eq_some.mp hr
    obtain rfl := Option.some.inj (hcall.symm.trans hcall')
    show (d.settle (RegistrationViewController.createUserCompleted self false _)).writes = _
    rcases RegistrationViewController.createUserCompleted_of_some (u := u)
      (d := { d with auths := d.auths.eraseIdx k, currentUser := some u }) rfl with
      ⟨c', hc', heq⟩ | ⟨hno, -⟩
    · obtain ⟨rfl⟩ := Option.some.inj (hc.symm.trans hc')
      rw [heq]
      rfl
    · exact absurd hc (hno c)

/-- The row of a new account is the only one that is pending for it. -/
theorem Registers.recording {w w' : World} {i : ℕ} {e : Event} {self : VcId}
    {userName email password : String} {u : Uid} {c : RegistrationViewController}
    (h : Registers w (i, e) self userName email password u)
    (hc : (w.device i).vcs[self]? = some (.registration c))
    (haccounts : RowWrites (fun v _ => w.server.HasAccount v) w)
    (hs : app.step w (i, e) = some w') : Recording u c.userDictionary w' := by
  obtain ⟨hnew, hhas⟩ := h.account hs
  obtain ⟨k, he, hcall⟩ := h
  obtain rfl : e = .authCompleted k (.success u) := he
  obtain ⟨hstep, hne⟩ := app_step_eq_some.mp hs
  have hwrites := step_createUserCompleted hcall hc hstep
  refine ⟨hhas, ?_, Or.inl ⟨i, ⟨userRef u, c.userDictionary, .userRow, none⟩, ?_, rfl, rfl⟩⟩
  · intro j wr hwr
    have hold : ∀ wr ∈ (w.device j).writes, wr.ref.head? = some "memory" ∨
        ∃ v, wr.ref = userRef v ∧ (v = u → wr.value = c.userDictionary) := by
      intro wr hwr
      rcases haccounts j wr hwr with hm | ⟨v, href, hv⟩
      · exact Or.inl hm
      · refine Or.inr ⟨v, href, ?_⟩
        rintro rfl
        exact absurd hv hnew
    by_cases hj : j = i
    · subst hj
      rw [hwrites] at hwr
      rcases List.mem_append.mp hwr with hwr | hwr
      · exact hold wr hwr
      · obtain rfl := List.mem_singleton.mp hwr
        exact Or.inr ⟨u, rfl, fun _ => rfl⟩
    · rw [hne j hj] at hwr
      exact hold wr hwr
  · rw [hwrites]
    exact List.mem_append_right _ (List.mem_singleton_self _)

/-! ## Every registration of a run -/

/-- In the run `es` from `w₀` Register was pressed on the screen `self` of device
`i` with these texts in its fields. -/
def Submitted (w₀ : World) (es : List (ℕ × Event)) (i : ℕ) (self : VcId)
    (userName email password : String) : Prop :=
  ∃ before e rest v c, es = before ++ e :: rest ∧ app.run w₀ before = some v ∧
    e = (i, .press .registerBtnPressed) ∧ (v.device i).visible = some (self, .registration c) ∧
    c.userNameTextField = userName ∧ c.userEmailTextField = email ∧
    c.userPasswordTextField = password

/-- Every account registered in the run from `w₀` to `w'` has in its row what was
in the fields at the press that issued its request, and registrations write no
other row. -/
structure RecordsSubmitted (w₀ : World) (es : List (ℕ × Event)) (w' : World) : Prop where
  recorded : ∀ before e after w self userName email password u, es = before ++ e :: after →
    app.run w₀ before = some w → Registers w e self userName email password u →
    Submitted w₀ before e.1 self userName email password ∧
      w'.server.RowHolds u userName email password
  only : ∀ key, (∀ before e after w self userName email password u, es = before ++ e :: after →
      app.run w₀ before = some w → Registers w e self userName email password u → u.val ≠ key) →
    PathTree.get ["user", key] w'.server.db = PathTree.get ["user", key] w₀.server.db

/-- A registration that completes finds on its screen the values it was issued
with. -/
def Device.stillSubmitted (d : Device) : Event → Bool
  | .authCompleted k (.success _) =>
    match d.auths[k]? with
    | some (.createUser self email password userName) =>
      match d.vcs[self]? with
      | some (.registration c) =>
        c.userName = userName && c.email = email && c.password = password
      | _ => true
    | _ => true
  | _ => true

def StillSubmitted (w : World) (e : ℕ × Event) : Prop :=
  (w.device e.1).stillSubmitted e.2 = true

instance (w : World) (e : ℕ × Event) : Decidable (StillSubmitted w e) :=
  inferInstanceAs (Decidable (_ = true))

/-- The computed condition in plain words: when an account is made, the variables of its
screen still hold the three texts that the request was made with. -/
theorem stillSubmitted_iff {w : World} {e : ℕ × Event} :
    StillSubmitted w e ↔ ∀ self userName email password u c,
      Registers w e self userName email password u →
      (w.device e.1).vcs[self]? = some (.registration c) →
      c.userName = userName ∧ c.email = email ∧ c.password = password := by
  obtain ⟨i, e⟩ := e
  constructor
  · rintro h self userName email password u c ⟨k, he, hcall⟩ hc
    obtain rfl : e = .authCompleted k (.success u) := he
    simpa [StillSubmitted, stillSubmitted, hcall, hc, and_assoc] using h
  · intro h
    unfold StillSubmitted stillSubmitted
    split
    · next k u he =>
      split
      · next self email password userName hcall =>
        split
        · next c hc =>
          have hfields := h self userName email password u c ⟨k, he, hcall⟩ hc
          simpa [and_assoc] using hfields
        · rfl
      · rfl
    · rfl

section Runs

variable {w₀ w w' : World} {es : List (ℕ × Event)}

theorem run_accounts (hw : app.init w₀) (honly : app.Always RegistrationOnly w₀ es)
    (hr : app.run w₀ es = some w) : RowWrites (fun v _ => w.server.HasAccount v) w := by
  refine app.run_invariant (P := fun w => RowWrites (fun v _ => w.server.HasAccount v) w)
    ?_ ?_ honly hr
  · intro v e v' h hG hs
    have hkept : ∀ u, v.server.HasAccount u → v'.server.HasAccount u := by
      obtain ⟨i, e⟩ := e
      exact fun u hu => hu.step (app_step_eq_some.mp hs).1
    refine (h.mono fun u _ hu => hkept u hu).step hG ?_ hs
    rintro self userName email password u c hregisters -
    exact (hregisters.account hs).2
  · exact rowWrites_init hw

/-- A request that is pending was issued by a press with its values. -/
theorem submitted_of_pending {i : ℕ} {self : VcId} {userName email password : String}
    (hw : app.init w₀) (hr : app.run w₀ es = some w)
    (hcall : .createUser self email password userName ∈ (w.device i).auths) :
    Submitted w₀ es i self userName email password := by
  have hcause := app.exists_cause
    (P := fun x => AuthCall.createUser self email password userName ∈ (x.device i).auths)
    (C := fun x e => e = (i, .press .registerBtnPressed) ∧
      ∃ c, (x.device i).visible = some (self, .registration c) ∧ c.userNameTextField = userName ∧
        c.userEmailTextField = email ∧ c.userPasswordTextField = password) ?_ hr hcall
  · rcases hcause with hinit | ⟨before, e, rest, v, v', hes, hb, ⟨he, c, hv, hfields⟩, -, -⟩
    · have hnone : (w₀.device i).auths = [] :=
        of_init hw (P := fun d => d.auths = []) (fun _ => rfl) i
      rw [hnone] at hinit
      cases hinit
    · exact ⟨before, e, rest, v, c, hes, hb, he, hv, hfields⟩
  · rintro x ⟨j, e⟩ x' hs hx'
    obtain ⟨hstep, hne⟩ := app_step_eq_some.mp hs
    by_cases hj : i = j
    · subst hj
      rcases (step_effect hstep).auths.mem hx' with ⟨call, hcall, rfl⟩ | hrequest
      · exact Or.inl hcall
      · refine Or.inr ?_
        generalize hissued : AuthCall.createUser self email password userName = call at hrequest
        cases hrequest with
        | signIn hv => cases hissued
        | createUser hv hc =>
          cases hissued
          exact ⟨rfl, _, hv, rfl, rfl, rfl⟩
        | updatePassword hv hshown hc hu => cases hissued
    · rw [hne i hj] at hx'
      exact Or.inl hx'

/-- Once its write is decided, the row of a registration is made of the variables
its screen had when the registration completed. -/
theorem row_of_registers {w₁ : World} {after : List (ℕ × Event)} {e : ℕ × Event} {self : VcId}
    {userName email password : String} {u : Uid} {c : RegistrationViewController}
    (haccounts : RowWrites (fun v _ => w.server.HasAccount v) w)
    (hregisters : Registers w e self userName email password u)
    (hc : (w.device e.1).vcs[self]? = some (.registration c)) (hs : app.step w e = some w₁)
    (honly : app.Always RegistrationOnly w₁ after) (hr : app.run w₁ after = some w')
    (hdecided : ∀ i, ∀ wr ∈ (w'.device i).writes, wr.verdict ≠ none) :
    w'.server.userRow u = c.userDictionary := by
  have hstart : Recording u c.userDictionary w₁ := hregisters.recording hc haccounts hs
  have hend := app.run_invariant (fun _ _ _ h hG hs => h.step hG hs) hstart honly hr
  rcases hend.row with ⟨i, wr, hwr, hnone, -⟩ | hrow
  · exact absurd hnone (hdecided i wr hwr)
  · exact hrow

/-- A row that no registration of the run is for stays. -/
theorem run_row_of_not_registers {key : String} (hw : app.init w₀)
    (honly : app.Always RegistrationOnly w₀ es) (hr : app.run w₀ es = some w)
    (hno : app.Always (fun x e => ∀ self userName email password u,
      Registers x e self userName email password u → u.val ≠ key) w₀ es) :
    PathTree.get ["user", key] w.server.db = PathTree.get ["user", key] w₀.server.db := by
  have hend := app.run_invariant
    (G := fun x e => RegistrationOnly x e ∧ ∀ self userName email password u,
      Registers x e self userName email password u → u.val ≠ key)
    (P := fun x => RowWrites (fun v _ => v.val ≠ key) x ∧
      PathTree.get ["user", key] x.server.db = PathTree.get ["user", key] w₀.server.db)
    ?_ ⟨?_, rfl⟩ (app.always_and honly hno) hr
  · exact hend.2
  · rintro x e x' ⟨hwrites, hrow⟩ ⟨hG, hne⟩ hs
    refine ⟨hwrites.step hG (fun self userName email password u _ h _ => hne _ _ _ _ _ h) hs, ?_⟩
    rcases step_row hwrites hG hs key with ⟨hsame, -⟩ | ⟨v, value, hv, hvne, -⟩
    · exact hsame.trans hrow
    · exact absurd hv hvne
  · exact rowWrites_init hw

end Runs

/-- **When registrations record what was submitted.** In a run whose writes are all
accepted and have been decided, and in which rows are written by registrations
only, every account gets the row that was submitted exactly when every
registration that completes finds its screen as it was at the press. -/
theorem registrations_recorded_iff {w₀ w' : World} {es : List (ℕ × Event)} (hw : app.init w₀)
    (honly : app.Always RegistrationOnly w₀ es) (hr : app.run w₀ es = some w')
    (hdecided : ∀ i, ∀ wr ∈ (w'.device i).writes, wr.verdict ≠ none) :
    RecordsSubmitted w₀ es w' ↔ app.Always StillSubmitted w₀ es := by
  have hrow : ∀ before e after w self userName email password u c, es = before ++ e :: after →
      app.run w₀ before = some w → Registers w e self userName email password u →
      (w.device e.1).vcs[self]? = some (.registration c) →
      w'.server.RowHolds u c.userName c.email c.password := by
    rintro before e after w self userName email password u c rfl hb hregisters hc
    obtain ⟨w₁, hs, hr₁⟩ := app.run_middle hr hb
    have hafter := (app.always_append honly hb).2 w₁ hs
    exact rowHolds_userDictionary (row_of_registers
      (run_accounts hw (app.always_prefix honly) hb) hregisters hc hs hafter hr₁ hdecided)
  constructor
  · intro hrecords
    refine (app.always_iff).mpr ?_
    intro before e after w hes hb
    refine (stillSubmitted_iff).mpr ?_
    intro self userName email password u c hregisters hc
    have hholds := hrow before e after w self _ _ _ u c hes hb hregisters hc
    have hsubmitted := (hrecords.recorded before e after w self _ _ _ u hes hb hregisters).2
    exact ⟨Option.some.inj (hholds.userName.symm.trans hsubmitted.userName),
      Option.some.inj (hholds.email.symm.trans hsubmitted.email),
      Option.some.inj (hholds.password.symm.trans hsubmitted.password)⟩
  · intro hstill
    refine ⟨?_, ?_⟩
    · intro before e after w self userName email password u hes hb hregisters
      have hinv := reachable_inv ⟨w₀, before, hw, hb⟩ e.1
      have ⟨k, _, hcall⟩ := hregisters
      have hpending := List.mem_of_getElem? hcall
      -- the screen that issued the request is still an instance of its class
      obtain ⟨c, hc⟩ := exists_registration (hinv.wf.auths _ hpending)
      have hholds := hrow before e after w self _ _ _ u c hes hb hregisters hc
      have hmatches := (app.always_iff).mp hstill before e after w hes hb
      obtain ⟨hname, hemail, hpassword⟩ :=
        (stillSubmitted_iff).mp hmatches self _ _ _ u c hregisters hc
      rw [hname, hemail, hpassword] at hholds
      exact ⟨submitted_of_pending hw hb hpending, hholds⟩
    · intro key hno
      refine run_row_of_not_registers hw honly hr ((app.always_iff).mpr ?_)
      intro before e after w hes hb self userName email password u hregisters
      exact hno before e after w self userName email password u hes hb hregisters

/-! ## Runs of `ann` -/

/-- The devices that take no part stay as they are. -/
theorem device_of_alone {w w' : World} {es : List Event} (hr : app.run w (alone es) = some w')
    {j : ℕ} (hj : j ≠ 0) : w'.device j = w.device j := by
  induction es generalizing w with
  | nil =>
    obtain rfl : w = w' := by simpa [alone] using hr
    rfl
  | cons e es ih =>
    obtain ⟨w₁, h₁, h₂⟩ := (app.run_cons_eq_some).mp hr
    rw [ih h₂, (app_step_eq_some.mp h₁).2 j hj]

theorem decided_of_alone {srv : Server} {w' : World} {es : List Event}
    (hr : app.run (World.start srv) (alone es) = some w')
    (hnone : (w'.device 0).writes.length = 0) :
    ∀ i, ∀ wr ∈ (w'.device i).writes, wr.verdict ≠ none := by
  intro i wr hwr
  by_cases hi : i = 0
  · subst hi
    rw [List.length_eq_zero_iff.mp hnone] at hwr
    cases hwr
  · rw [device_of_alone hr hi] at hwr
    cases hwr

/-- `ann` fills in the registration and presses Register. -/
def annSubmits : List Event :=
  [.press .signUpBtnPressed,
    .typed (.registration "ann" ann.email ann.password ann.password), .press .registerBtnPressed]

/-- Auth accepts it and the row is stored. -/
def annIsRegistered : List Event :=
  [.authCompleted 0 (.success ann.uid), .writeDecided 0 true, .writeCompleted 0]

/-- Before that, the fields are filled in for the other account, and rejected. -/
def overlappingPress : List Event :=
  [.typed (.registration "bob" bob.email bob.password "other"), .press .registerBtnPressed]

/-- What is compared of the world after a run of `ann`'s registration. -/
def World.annsRegistration (w : World) : Option String × ℕ :=
  (stringField "userName" (w.server.userRow ann.uid), (w.device 0).writes.length)

set_option maxRecDepth 10000 in
theorem registration_overwritten :
    ¬ ∀ (w₀ w' : World) (es : List (ℕ × Event)), app.init w₀ → app.Always RegistrationOnly w₀ es →
      app.run w₀ es = some w' → (∀ i, ∀ wr ∈ (w'.device i).writes, wr.verdict ≠ none) →
      RecordsSubmitted w₀ es w' := by
  intro h
  have hend : (app.run (World.start ⟨[], none⟩)
      (alone (annSubmits ++ overlappingPress ++ annIsRegistered))).map World.annsRegistration =
      some (some "bob", 0) := by decide
  obtain ⟨w', hr, hend⟩ := Option.map_eq_some_iff.mp hend
  obtain ⟨hrow, hwrites⟩ := Prod.mk.inj hend
  have hcall : (app.run (World.start ⟨[], none⟩) (alone (annSubmits ++ overlappingPress))).map
      (fun w => (w.device 0).auths) =
      some [.createUser 1 ann.email ann.password "ann"] := by decide
  obtain ⟨w, hw, hauths⟩ := Option.map_eq_some_iff.mp hcall
  have hrecords := h _ w' _ (init_start _) (by decide) hr (decided_of_alone hr hwrites)
  have hregisters : Registers w (0, .authCompleted 0 (.success ann.uid)) 1 "ann" ann.email
      ann.password ann.uid := by
    refine ⟨0, rfl, ?_⟩
    show (w.device 0).auths[0]? = _
    rw [hauths]
    rfl
  have hholds := (hrecords.recorded _ _ _ w 1 _ _ _ _ rfl hw hregisters).2.userName
  rw [hrow] at hholds
  exact absurd hholds (by decide)

set_option maxRecDepth 10000 in
theorem registrations_recorded_ann :
    ∃ w', app.run (World.start ⟨[], none⟩) (alone (annSubmits ++ annIsRegistered)) = some w' ∧
      RecordsSubmitted (World.start ⟨[], none⟩) (alone (annSubmits ++ annIsRegistered)) w' := by
  have hend : (app.run (World.start ⟨[], none⟩) (alone (annSubmits ++ annIsRegistered))).map
      World.annsRegistration = some (some "ann", 0) := by decide
  obtain ⟨w', hr, hend⟩ := Option.map_eq_some_iff.mp hend
  obtain ⟨-, hwrites⟩ := Prod.mk.inj hend
  exact ⟨w', hr, (registrations_recorded_iff (init_start _) (by decide) hr
    (decided_of_alone hr hwrites)).mpr (by decide)⟩

end DailyDiary
