/-
Registration as a creation in two steps, at two services.

`createUser` makes the account; its block asks for the row in a write of its own,
which the server may reject after the account is there. `Phase` is where an attempt
stands, `Moves` what an event can do to it and to the two services, and `At.step` is
that the app does nothing else. While attempts do not overlap there is one at a time
(`World.At`), and `run_attempts` is the rule for the runs of attempts.
-/
import DailyDiary.PendingRequests
import DailyDiary.Registration

set_option autoImplicit false

namespace DailyDiary

open Device

/-! ## The two services -/

namespace Server

/-- The `user` tree. -/
def users (srv : Server) : Option Json :=
  PathTree.child "user" srv.db

theorem userRow_eq_child (srv : Server) (u : Uid) :
    srv.userRow u = PathTree.child u.val srv.users := by
  rw [userRow, userRef_eq]
  rfl

/-- The row of `u` is there, with the four fields of a registration. -/
def HasRow (srv : Server) (u : Uid) : Prop :=
  ∀ field ∈ ["userName", "email", "password", "ProfilePhoto"],
    (stringField field (srv.userRow u)).isSome

instance (srv : Server) (u : Uid) : Decidable (srv.HasRow u) :=
  inferInstanceAs (Decidable (∀ field ∈ _, _))

/-- The accounts and the `user` tree of `srv` are those of `srv'`. -/
structure Same (srv srv' : Server) : Prop where
  accounts : srv'.accounts = srv.accounts
  users : srv'.users = srv.users

theorem Same.refl (srv : Server) : srv.Same srv :=
  ⟨rfl, rfl⟩

theorem Same.trans {srv₁ srv₂ srv₃ : Server} (h : srv₁.Same srv₂) (h' : srv₂.Same srv₃) :
    srv₁.Same srv₃ where
  accounts := h'.accounts.trans h.accounts
  users := h'.users.trans h.users

variable {srv srv' : Server} {u v : Uid}

theorem userRow_congr (h : srv'.users = srv.users) (u : Uid) : srv'.userRow u = srv.userRow u := by
  rw [userRow_eq_child, userRow_eq_child, h]

theorem hasAccount_congr (h : srv'.accounts = srv.accounts) :
    srv'.HasAccount u ↔ srv.HasAccount u := by
  rw [HasAccount, HasAccount, h]

theorem hasRow_congr (h : srv'.userRow u = srv.userRow u) : srv'.HasRow u ↔ srv.HasRow u := by
  rw [HasRow, HasRow, h]

theorem not_hasRow_of_none (h : srv.userRow u = none) : ¬ srv.HasRow u := by
  intro hrow
  have hfield := hrow "userName" (by simp)
  rw [h] at hfield
  cases hfield

theorem hasRow_of_userDictionary {c : RegistrationViewController}
    (h : srv.userRow u = c.userDictionary) : srv.HasRow u := by
  intro field hfield
  rw [h]
  simp only [List.mem_cons, List.not_mem_nil, or_false] at hfield
  rcases hfield with rfl | rfl | rfl | rfl <;> rfl

section Store

variable {row : Option Json}

theorem userRow_of_set (h : srv'.users = PathTree.set [u.val] row srv.users) :
    srv'.userRow u = row := by
  rw [userRow_eq_child, h, PathTree.child_set_self, PathTree.set_nil]

theorem userRow_of_set_of_ne (h : srv'.users = PathTree.set [u.val] row srv.users) (hne : v ≠ u) :
    srv'.userRow v = srv.userRow v := by
  have hval : v.val ≠ u.val := fun heq => hne (Uid.ext heq)
  rw [userRow_eq_child, userRow_eq_child, h, PathTree.child_set_of_ne hval]

end Store

theorem hasAccount_concat {a : Account} (h : srv'.accounts = srv.accounts ++ [a]) :
    srv'.HasAccount v ↔ srv.HasAccount v ∨ v = a.uid := by
  simp only [HasAccount, h, List.mem_append, List.mem_singleton]
  constructor
  · rintro ⟨b, hb | rfl, rfl⟩
    · exact Or.inl ⟨b, hb, rfl⟩
    · exact Or.inr rfl
  · rintro (⟨b, hb, rfl⟩ | rfl)
    · exact ⟨b, Or.inl hb, rfl⟩
    · exact ⟨a, Or.inr rfl, rfl⟩

end Server

/-! ## What is under way -/

/-- The request can change the accounts. -/
def AuthCall.changesAccounts : AuthCall → Bool
  | .signIn _ _ _ => false
  | _ => true

/-- The write is not one of a memory. -/
def Write.touchesUsers (w : Write) : Bool :=
  w.ref.head? ≠ some "memory"

/-- With the event Register is pressed. -/
def Event.registers : Event → Bool
  | .press .registerBtnPressed => true
  | _ => false

namespace Device

/-- The pending requests that can change the accounts. -/
def accountCalls (d : Device) : List AuthCall :=
  d.auths.filter AuthCall.changesAccounts

/-- The pending writes into the `user` tree. -/
def userWrites (d : Device) : List Write :=
  d.writes.filter Write.touchesUsers

/-- Nothing is under way that could change the accounts or the `user` tree. -/
def quiet (d : Device) : Bool :=
  d.accountCalls.isEmpty && d.userWrites.isEmpty

/-- The event changes accounts and rows at most as part of a registration: no user name
is entered in a profile and no password changed. -/
def attemptsOnly (d : Device) : Event → Bool
  | .press .updateBtnPressed => false
  | .alertOk _ _ => d.alert.map Alert.action ≠ some .setUserName
  | _ => true

/-- The event does not reject a write into the `user` tree. -/
def acceptsRow (d : Device) : Event → Bool
  | .writeDecided k false => (d.writes[k]?).all fun w => !w.touchesUsers
  | _ => true

/-- The event completes a registration with success while its screen is on top. -/
def congratulates (d : Device) : Event → Bool
  | .authCompleted k (.success _) =>
    match d.auths[k]? with
    | some (.createUser self _ _ _) => d.onTop self
    | _ => false
  | _ => false

end Device

/-- No registration is under way on any device. -/
def World.Quiet (w : World) : Prop :=
  ∀ i, (w.device i).quiet = true

/-- The step is one of a run of registrations: accounts and rows are changed by
registrations only, and Register is pressed when none is under way. -/
structure Attempts (w : World) (e : ℕ × Event) : Prop where
  only : (w.device e.1).attemptsOnly e.2 = true
  apart : e.2.registers = true → w.Quiet

/-- No row is rejected in the step. -/
def RowAccepted (w : World) (e : ℕ × Event) : Prop :=
  (w.device e.1).acceptsRow e.2 = true

instance (w : World) (e : ℕ × Event) : Decidable (RowAccepted w e) :=
  inferInstanceAs (Decidable (_ = true))

/-- In the step no registration completes with success while its screen is on top. -/
def NotCongratulated (w : World) (e : ℕ × Event) : Prop :=
  (w.device e.1).congratulates e.2 = false

instance (w : World) (e : ℕ × Event) : Decidable (NotCongratulated w e) :=
  inferInstanceAs (Decidable (_ = false))

/-! ## The phases of an attempt -/

/-- Where a registration stands; `c` is the screen as it was submitted. -/
inductive Phase where
  | idle
  /-- `createUser` is pending -/
  | requested (self : VcId) (c : RegistrationViewController)
  /-- the account of `u` is there and the write of its row is pending -/
  | created (u : Uid) (c : RegistrationViewController)
  /-- the server has decided that write -/
  | decided (u : Uid) (c : RegistrationViewController) (accepted : Bool)

namespace Phase

/-- The request of the phase. -/
def calls : Phase → List AuthCall
  | .requested self c => [.createUser self c.email c.password c.userName]
  | _ => []

/-- The write of the phase. -/
def writes : Phase → List Write
  | .created u c => [{ ref := userRef u, value := c.userDictionary, completion := .userRow }]
  | .decided u c accepted =>
    [{ ref := userRef u, value := c.userDictionary, completion := .userRow,
       verdict := some accepted }]
  | _ => []

end Phase

/-- The attempt of the device is in phase `ph`: its request and its write are what is
under way, and the screen of the request still makes the row that was submitted. -/
structure Device.At (d : Device) (ph : Phase) : Prop where
  calls : d.accountCalls = ph.calls
  writes : d.userWrites = ph.writes
  screen : ∀ self c, ph = .requested self c →
    ∃ c', d.vcs[self]? = some (.registration c') ∧ c'.userDictionary = c.userDictionary

theorem Device.at_idle_iff {d : Device} : d.At .idle ↔ d.quiet = true := by
  simp only [quiet, Bool.and_eq_true, List.isEmpty_iff]
  constructor
  · intro h
    exact ⟨h.calls, h.writes⟩
  · rintro ⟨hcalls, hwrites⟩
    refine ⟨hcalls, hwrites, ?_⟩
    rintro self c ⟨⟩

/-- What an event does to an attempt and to the services. -/
inductive Moves (srv : Server) (d : Device) : Event → Server → Phase → Phase → Prop where
  | stay {e : Event} {srv' : Server} {ph : Phase} (hsame : srv.Same srv')
      (hrow : d.acceptsRow e = true) : Moves srv d e srv' ph ph
  | submit {self : VcId} {c : RegistrationViewController} {srv' : Server}
      (hv : d.visible = some (self, .registration c)) (hsame : srv.Same srv') :
      Moves srv d (.press .registerBtnPressed) srv' .idle (.requested self c.readFields)
  | fail {k : ℕ} {self : VcId} {c : RegistrationViewController} {srv' : Server}
      (hsame : srv.Same srv') :
      Moves srv d (.authCompleted k .failure) srv' (.requested self c) .idle
  | create {k : ℕ} {u : Uid} {self : VcId} {c : RegistrationViewController} {srv' : Server}
      (hnew : ¬ srv.HasAccount u)
      (haccounts : srv'.accounts = srv.accounts ++ [⟨u, c.email, c.password⟩])
      (husers : srv'.users = srv.users) :
      Moves srv d (.authCompleted k (.success u)) srv' (.requested self c) (.created u c)
  | accept {k : ℕ} {u : Uid} {c : RegistrationViewController} {srv' : Server}
      (haccounts : srv'.accounts = srv.accounts)
      (husers : srv'.users = PathTree.set [u.val] c.userDictionary srv.users) :
      Moves srv d (.writeDecided k true) srv' (.created u c) (.decided u c true)
  | reject {k : ℕ} {u : Uid} {c : RegistrationViewController} {srv' : Server}
      (hsame : srv.Same srv') (hrow : d.acceptsRow (.writeDecided k false) = false) :
      Moves srv d (.writeDecided k false) srv' (.created u c) (.decided u c false)
  | finish {k : ℕ} {u : Uid} {c : RegistrationViewController} {accepted : Bool} {srv' : Server}
      (hsame : srv.Same srv') :
      Moves srv d (.writeCompleted k) srv' (.decided u c accepted) .idle

/-! ## The services in a step -/

theorem server_of_step {srv srv' : Server} {d d' : Device} {e : Event}
    (h : step srv d e = some (srv', d')) (hanswers : e.answers = false)
    (hdecides : e.decides = false) : srv' = srv := by
  cases steps_of_step h with
  | authCompleted hr => cases hanswers
  | writeDecided hdecide => cases hdecides
  | _ => rfl

theorem Server.answer_eq_self {srv srv' : Server} {call : AuthCall} {reply : AuthReply}
    (h : srv.answer call reply = some srv')
    (hno : call.changesAccounts = false ∨ reply = .failure) : srv' = srv := by
  cases reply with
  | failure => cases call <;> exact (Option.some.inj h).symm
  | tokenInvalid =>
    cases call with
    | updatePassword v password => exact (Option.some.inj h).symm
    | _ => cases h
  | success u =>
    cases call with
    | signIn self email password =>
      simp only [Server.answer] at h
      split at h
      · exact (Option.some.inj h).symm
      · cases h
    | _ => simp [AuthCall.changesAccounts] at hno

theorem Server.accounts_of_createUser {srv srv' : Server} {self : VcId}
    {email password userName : String} {u : Uid}
    (h : srv.answer (.createUser self email password userName) (.success u) = some srv') :
    srv'.accounts = srv.accounts ++ [⟨u, email, password⟩] := by
  simp only [Server.answer] at h
  split at h
  · obtain rfl := Option.some.inj h
    rfl
  · cases h

theorem Write.head_of_not_touchesUsers {w : Write} (h : w.touchesUsers = false) :
    w.ref.head? = some "memory" := by
  simpa [Write.touchesUsers] using h

theorem users_set_memory {ref : Ref} (h : ref.head? = some "memory") (value t : Option Json) :
    PathTree.child "user" (PathTree.set ref value t) = PathTree.child "user" t := by
  obtain ⟨rest, rfl⟩ := List.head?_eq_some_iff.mp h
  exact PathTree.child_set_of_ne (by decide) rest value t

/-! ## The lists in a step -/

section Lists

variable {α : Type} {p : α → Bool} {l l₁ l₂ : List α} {a : α}

theorem filter_split_of_neg (ha : p a = false) :
    (l₁ ++ a :: l₂).filter p = (l₁ ++ l₂).filter p := by
  rw [List.filter_append, List.filter_append, List.filter_cons_of_neg (by simp [ha])]

/-- An entry that passes the filter where at most one does. -/
theorem filter_split_of_pos (ha : p a = true) (hl : l.length ≤ 1)
    (h : (l₁ ++ a :: l₂).filter p = l) :
    l = [a] ∧ l₁.filter p = [] ∧ l₂.filter p = [] := by
  rw [List.filter_append, List.filter_cons_of_pos ha] at h
  have hlen := congrArg List.length h
  rw [List.length_append, List.length_cons] at hlen
  have h₁ : l₁.filter p = [] := List.length_eq_zero_iff.mp (by omega)
  have h₂ : l₂.filter p = [] := List.length_eq_zero_iff.mp (by omega)
  rw [h₁, h₂] at h
  exact ⟨h.symm, h₁, h₂⟩

end Lists

namespace Phase

theorem length_calls_le (ph : Phase) : ph.calls.length ≤ 1 := by
  cases ph <;> simp [calls]

theorem length_writes_le (ph : Phase) : ph.writes.length ≤ 1 := by
  cases ph <;> simp [writes]

/-- The phase of a pending request. -/
theorem requested_of_calls {ph : Phase} {call : AuthCall} (h : ph.calls = [call]) :
    ∃ self c, ph = .requested self c ∧ call = .createUser self c.email c.password c.userName := by
  cases ph with
  | requested self c => exact ⟨self, c, rfl, (List.singleton_inj.mp h).symm⟩
  | _ => cases h

/-- The phase of a write that is not decided. -/
theorem created_of_writes {ph : Phase} {w : Write} (h : ph.writes = [w]) (hnone : w.verdict = none) :
    ∃ u c, ph = .created u c ∧
      w = { ref := userRef u, value := c.userDictionary, completion := .userRow } := by
  cases ph with
  | created u c => exact ⟨u, c, rfl, (List.singleton_inj.mp h).symm⟩
  | decided u c accepted =>
    obtain rfl := List.singleton_inj.mp h
    cases hnone
  | _ => cases h

theorem decided_of_writes {ph : Phase} {w : Write} {accepted : Bool} (h : ph.writes = [w])
    (hverdict : w.verdict = some accepted) : ∃ u c, ph = .decided u c accepted := by
  cases ph with
  | created u c =>
    obtain rfl := List.singleton_inj.mp h
    cases hverdict
  | decided u c accepted' =>
    obtain rfl := List.singleton_inj.mp h
    obtain rfl := Option.some.inj hverdict
    exact ⟨u, c, rfl⟩
  | _ => cases h

end Phase

namespace Device

variable {srv srv' : Server} {d d' : Device} {e : Event} {ph : Phase}

theorem filter_of_requests {calls : List AuthCall} (honly : d.attemptsOnly e = true)
    (hno : e.registers = false) (hcalls : ∀ c ∈ calls, d.Requests e c) :
    calls.filter AuthCall.changesAccounts = [] := by
  rw [List.filter_eq_nil_iff]
  intro c hc hchanges
  cases hcalls c hc with
  | signIn hv => cases hchanges
  | createUser hv hr => cases hno
  | updatePassword hv hshown hr hu => cases honly

/-- Only the block of `createUser` writes into the `user` tree. -/
theorem filter_of_issues {ws : List Write} (honly : d.attemptsOnly e = true)
    (hno : ∀ k u call, e = .authCompleted k (.success u) → d.auths[k]? = some call →
      call.changesAccounts = false) (hws : ∀ w ∈ ws, d.Issues e w) :
    ws.filter Write.touchesUsers = [] := by
  rw [List.filter_eq_nil_iff]
  intro w hw htouches
  cases hws w hw with
  | userRow hcall hc => cases hno _ _ _ rfl hcall
  | memory hv hc hu => exact of_decide_eq_true htouches (head_memoryRef _ _)
  | deletion ha ht hu => exact of_decide_eq_true htouches (head_memoryRef _ _)
  | userName ha ht hu => simp [attemptsOnly, ha] at honly
  | password hv hshown hc hu => cases honly

/-- The variables of a registration screen are assigned by a press of Register only. -/
theorem Becomes.registration {view : Option Json} {i : ℕ} {c : RegistrationViewController}
    {v' : ViewController} (h : d.Becomes e view i (.registration c) v')
    (hno : e.registers = false) :
    ∃ c', v' = .registration c' ∧ c'.userDictionary = c.userDictionary := by
  obtain ⟨v₁, hassigns, hrefresh⟩ := h
  have hassigned : ∃ c', v₁ = .registration c' ∧ c'.userDictionary = c.userDictionary := by
    rcases hassigns with rfl | hassigns
    · exact ⟨c, rfl, rfl⟩
    · cases hassigns with
      | @typed t i v v' hv ht =>
        cases t <;> simp only [Typing.apply, reduceCtorEq, Option.some.injEq] at ht
        exact ⟨_, ht.symm, rfl⟩
      | register hv => cases hno
  obtain ⟨c', rfl, hsame⟩ := hassigned
  -- the screen observes nothing
  rcases hrefresh with ⟨rfl, -⟩ | rfl
  · exact ⟨c', rfl, hsame⟩
  · exact ⟨c', rfl, hsame⟩

theorem step_registration (hs : step srv d e = some (srv', d')) (hno : e.registers = false)
    {self : VcId} {c : RegistrationViewController} (hc : d.vcs[self]? = some (.registration c)) :
    ∃ c', d'.vcs[self]? = some (.registration c') ∧ c'.userDictionary = c.userDictionary := by
  have heffect := step_effect hs
  have hlt : self < d.vcs.length := (List.getElem?_eq_some_iff.mp hc).1
  have hv' := List.getElem?_eq_getElem (lt_of_lt_of_le hlt heffect.length)
  rcases heffect.vcs self _ hv' with ⟨v, hv, hbecomes⟩ | ⟨hnew, -⟩
  · obtain rfl := Option.some.inj (hc.symm.trans hv)
    obtain ⟨c', hc', hsame⟩ := hbecomes.registration hno
    exact ⟨c', hv'.trans (congrArg some hc'), hsame⟩
  · exact absurd hnew hlt.ne

/-! ## The attempt in a step -/

theorem At.of_lists (h : d.At ph) (hs : step srv d e = some (srv', d'))
    (hno : e.registers = false) (hcalls : d'.accountCalls = d.accountCalls)
    (hwrites : d'.userWrites = d.userWrites) : d'.At ph where
  calls := hcalls.trans h.calls
  writes := hwrites.trans h.writes
  screen := by
    intro self c hph
    obtain ⟨c₁, hc₁, hsame₁⟩ := h.screen self c hph
    obtain ⟨c₂, hc₂, hsame₂⟩ := step_registration hs hno hc₁
    exact ⟨c₂, hc₂, hsame₂.trans hsame₁⟩

/-- The press of Register starts an attempt, or its texts are turned down. -/
theorem At.register (h : d.At .idle)
    (hs : step srv d (.press .registerBtnPressed) = some (srv', d')) :
    ∃ ph, d'.At ph ∧ Moves srv d (.press .registerBtnPressed) srv' .idle ph := by
  obtain rfl := server_of_step hs rfl rfl
  cases steps_of_step hs with
  | press hr =>
    cases presses_of_press hr with
    | @register i c hv =>
      show ∃ ph, (c.registerBtnPressed i d).At ph ∧ _
      unfold RegistrationViewController.registerBtnPressed
      dsimp only
      split
      · -- the texts are rejected
        refine ⟨.idle, ⟨h.calls, h.writes, ?_⟩, .stay (.refl _) rfl⟩
        rintro self c' ⟨⟩
      · refine ⟨.requested i c.readFields, ⟨?_, h.writes, ?_⟩, .submit hv (.refl _)⟩
        · show (d.auths ++ [_]).filter _ = _
          rw [List.filter_append]
          exact congrArg (· ++ _) h.calls
        · rintro self c' ⟨⟩
          have hlt : i < d.vcs.length := (List.getElem?_eq_some_iff.mp (visible_eq_some.mp hv).2).1
          exact ⟨c.readFields, List.getElem?_set_self hlt, rfl⟩

/-- The answer to `createUser`. -/
theorem At.answered {k : ℕ} {reply : AuthReply} {call : AuthCall} {l₁ l₂ : List AuthCall}
    {ws : List Write} (h : d.At ph) (hs : step srv d (.authCompleted k reply) = some (srv', d'))
    (hcall : d.auths[k]? = some call) (hchanges : call.changesAccounts = true)
    (hauths : d.auths = l₁ ++ call :: l₂) (hauths' : d'.auths = l₁ ++ l₂)
    (hwrites : d'.writes = d.writes ++ ws)
    (hws : ∀ w ∈ ws, d.Issues (.authCompleted k reply) w) :
    ∃ ph', d'.At ph' ∧ Moves srv d (.authCompleted k reply) srv' ph ph' := by
  -- it is the request of the attempt
  obtain ⟨hcalls, h₁, h₂⟩ := filter_split_of_pos hchanges ph.length_calls_le
    ((congrArg (List.filter _) hauths).symm.trans h.calls)
  obtain ⟨self, c, rfl, rfl⟩ := Phase.requested_of_calls hcalls
  obtain ⟨call, hcall', hanswer⟩ := answered_of_step hs
  obtain rfl := Option.some.inj (hcall.symm.trans hcall')
  have hcalls' : d'.accountCalls = [] := by
    rw [accountCalls, hauths', List.filter_append, h₁, h₂]
    rfl
  cases reply with
  | failure =>
    refine ⟨.idle, ⟨hcalls', ?_, ?_⟩, .fail ?_⟩
    · rw [userWrites, hwrites, List.filter_append, filter_of_issues rfl ?_ hws, List.append_nil]
      · exact h.writes
      · rintro k u call ⟨⟩
    · rintro self c ⟨⟩
    · rw [Server.answer_eq_self hanswer (Or.inr rfl)]
      exact .refl srv
  | tokenInvalid => cases hanswer
  | success u =>
    -- the row is made of the variables of the screen as they are now
    obtain ⟨c', hc', hsame⟩ := h.screen self c rfl
    refine ⟨.created u c, ⟨hcalls', ?_, ?_⟩, .create (Server.answer_createUser hanswer).1
      (Server.accounts_of_createUser hanswer) ?_⟩
    · rw [userWrites, step_createUserCompleted hcall hc' hs, List.filter_append, hsame]
      show d.userWrites ++ _ = _
      rw [h.writes, List.filter_cons_of_pos (by simp [Write.touchesUsers])]
      rfl
    · rintro self c ⟨⟩
    · rw [Server.users, Server.answer_db hanswer]
      rfl

theorem acceptsRow_decided {k : ℕ} {accepted : Bool} {w : Write} (hw : d.writes[k]? = some w) :
    d.acceptsRow (.writeDecided k accepted) = (accepted || !w.touchesUsers) := by
  cases accepted <;> simp [acceptsRow, hw]

/-- The server's decision on a write. -/
theorem At.decided {k : ℕ} {accepted : Bool} {w : Write} {l₁ l₂ : List Write} (h : d.At ph)
    (hs : step srv d (.writeDecided k accepted) = some (srv', d'))
    (hw : d.writes[k]? = some w) (hnone : w.verdict = none) (hwrites : d.writes = l₁ ++ w :: l₂)
    (hwrites' : d'.writes = l₁ ++ { w with verdict := some accepted } :: l₂)
    (hauths : d'.auths = d.auths) :
    ∃ ph', d'.At ph' ∧ Moves srv d (.writeDecided k accepted) srv' ph ph' := by
  have hcalls : d'.accountCalls = d.accountCalls := congrArg (List.filter _) hauths
  have hserver := writeDecided_server hw hs
  have hsame : ({ w with verdict := some accepted } : Write).touchesUsers = w.touchesUsers := rfl
  have hrow : d.acceptsRow (.writeDecided k accepted) = (accepted || !w.touchesUsers) :=
    acceptsRow_decided hw
  cases htouches : w.touchesUsers with
  | false =>
    -- a memory
    refine ⟨ph, h.of_lists hs rfl hcalls ?_, .stay ?_ ?_⟩
    · rw [userWrites, userWrites, hwrites, hwrites', filter_split_of_neg htouches,
        filter_split_of_neg (hsame.trans htouches)]
    · rw [hserver]
      cases accepted with
      | false => exact .refl srv
      | true => exact ⟨rfl, users_set_memory (Write.head_of_not_touchesUsers htouches) _ _⟩
    · rw [hrow, htouches, Bool.not_false, Bool.or_true]
  | true =>
    -- the row of the attempt
    obtain ⟨hph, h₁, h₂⟩ := filter_split_of_pos htouches ph.length_writes_le
      ((congrArg (List.filter _) hwrites).symm.trans h.writes)
    obtain ⟨u, c, rfl, rfl⟩ := Phase.created_of_writes hph hnone
    refine ⟨.decided u c accepted, ⟨hcalls.trans h.calls, ?_, ?_⟩, ?_⟩
    · rw [userWrites, hwrites', List.filter_append, List.filter_cons_of_pos (hsame.trans htouches),
        h₁, h₂]
      rfl
    · rintro self c ⟨⟩
    · cases accepted with
      | false =>
        refine .reject ?_ (by rw [hrow, htouches]; rfl)
        rw [hserver]
        exact .refl srv
      | true =>
        refine .accept (by rw [hserver]; rfl) ?_
        rw [hserver]
        show PathTree.child "user" (PathTree.set (userRef u) _ _) = _
        rw [userRef_eq, PathTree.child_set_self]
        rfl

/-- The decision on a write arrives. -/
theorem At.acknowledged {k : ℕ} {accepted : Bool} {w : Write} {l₁ l₂ : List Write} (h : d.At ph)
    (hs : step srv d (.writeCompleted k) = some (srv', d')) (hverdict : w.verdict = some accepted)
    (hwrites : d.writes = l₁ ++ w :: l₂) (hwrites' : d'.writes = l₁ ++ l₂)
    (hauths : d'.auths = d.auths) :
    ∃ ph', d'.At ph' ∧ Moves srv d (.writeCompleted k) srv' ph ph' := by
  have hcalls : d'.accountCalls = d.accountCalls := congrArg (List.filter _) hauths
  obtain rfl := server_of_step hs rfl rfl
  cases htouches : w.touchesUsers with
  | false =>
    refine ⟨ph, h.of_lists hs rfl hcalls ?_, .stay (.refl _) rfl⟩
    rw [userWrites, userWrites, hwrites, hwrites', filter_split_of_neg htouches]
  | true =>
    obtain ⟨hph, h₁, h₂⟩ := filter_split_of_pos htouches ph.length_writes_le
      ((congrArg (List.filter _) hwrites).symm.trans h.writes)
    obtain ⟨u, c, rfl⟩ := Phase.decided_of_writes hph hverdict
    refine ⟨.idle, ⟨hcalls.trans h.calls, ?_, ?_⟩, .finish (.refl _)⟩
    · rw [userWrites, hwrites', List.filter_append, h₁, h₂]
      rfl
    · rintro self c ⟨⟩

/-- **A step moves an attempt, or leaves it and both services as they are.** -/
theorem At.step (h : d.At ph) (honly : d.attemptsOnly e = true)
    (hidle : e.registers = true → ph = .idle) (hs : step srv d e = some (srv', d')) :
    ∃ ph', d'.At ph' ∧ Moves srv d e srv' ph ph' := by
  cases hregisters : e.registers with
  | true =>
    -- Register is pressed, and no attempt is under way
    obtain rfl := hidle hregisters
    obtain rfl : e = .press .registerBtnPressed := by
      cases e with
      | press b => cases b <;> first | rfl | cases hregisters
      | _ => cases hregisters
    exact h.register hs
  | false =>
    cases step_queued hs with
    | appends hanswers hdecides hauths hwrites hcalls hws =>
      obtain rfl := server_of_step hs hanswers hdecides
      refine ⟨ph, h.of_lists hs hregisters ?_ ?_, .stay (.refl _) ?_⟩
      · rw [accountCalls, hauths, List.filter_append, filter_of_requests honly hregisters hcalls,
          List.append_nil]
        rfl
      · rw [userWrites, hwrites, List.filter_append, filter_of_issues honly ?_ hws,
          List.append_nil]
        · rfl
        · rintro k u call rfl
          cases hanswers
      · cases e <;> first | rfl | cases hdecides
    | @answered k reply d' call l₁ l₂ ws hk hauths hauths' hwrites hws =>
      have hcall := getElem?_of_split hk hauths
      cases hchanges : call.changesAccounts with
      | true => exact h.answered hs hcall hchanges hauths hauths' hwrites hws
      | false =>
        -- a sign-in
        refine ⟨ph, h.of_lists hs rfl ?_ ?_, .stay ?_ rfl⟩
        · rw [accountCalls, accountCalls, hauths, hauths', filter_split_of_neg hchanges]
        · rw [userWrites, hwrites, List.filter_append, filter_of_issues rfl ?_ hws,
            List.append_nil]
          · rfl
          · rintro k u call' ⟨⟩ hcall'
            obtain rfl := Option.some.inj (hcall.symm.trans hcall')
            exact hchanges
        · obtain ⟨call', hcall', hanswer⟩ := answered_of_step hs
          obtain rfl := Option.some.inj (hcall.symm.trans hcall')
          rw [Server.answer_eq_self hanswer (Or.inl hchanges)]
          exact .refl srv
    | decided hk hnone hwrites hwrites' hauths =>
      exact h.decided hs (getElem?_of_split hk hwrites) hnone hwrites hwrites' hauths
    | acknowledged hk hverdict hwrites hwrites' hauths =>
      exact h.acknowledged hs hverdict hwrites hwrites' hauths

end Device

/-! ## Runs of attempts -/

/-- The only attempt is on device `i`, in phase `ph`. -/
structure World.At (w : World) (i : ℕ) (ph : Phase) : Prop where
  device : (w.device i).At ph
  others : ∀ j, j ≠ i → (w.device j).quiet = true

theorem Device.At.eq_idle {d : Device} {ph : Phase} (h : d.At ph) (hquiet : d.quiet = true) :
    ph = .idle := by
  have hidle := at_idle_iff.mpr hquiet
  cases ph with
  | idle => rfl
  | requested self c => cases h.calls.symm.trans hidle.calls
  | created u c => cases h.writes.symm.trans hidle.writes
  | decided u c accepted => cases h.writes.symm.trans hidle.writes

section Runs

variable {w w' : World} {e : ℕ × Event} {i : ℕ} {ph : Phase}

theorem World.Quiet.at_idle (h : w.Quiet) (i : ℕ) : w.At i .idle where
  device := at_idle_iff.mpr (h i)
  others := fun j _ => h j

theorem World.At.eq_idle (h : w.At i ph) (hquiet : w.Quiet) : ph = .idle :=
  h.device.eq_idle (hquiet i)

theorem quiet_of_init (hw : app.init w) : w.Quiet :=
  of_init hw (P := fun d => d.quiet = true) (fun _ => rfl)

/-- A step of the app keeps a single attempt under way, on this device or, once it is idle,
on another one. What the step does to its phase is one of `Moves`. -/
theorem World.At.step (h : w.At i ph) (hattempts : Attempts w e) (hs : app.step w e = some w') :
    ∃ i' ph', w'.At i' ph' ∧ Moves w.server (w.device e.1) e.2 w'.server ph ph' := by
  obtain ⟨j, e⟩ := e
  obtain ⟨hstep, hne⟩ := app_step_eq_some.mp hs
  by_cases hj : j = i
  · subst hj
    obtain ⟨ph', hat, hmoves⟩ := h.device.step hattempts.only
      (fun hregisters => h.eq_idle (hattempts.apart hregisters)) hstep
    refine ⟨j, ph', ⟨hat, ?_⟩, hmoves⟩
    intro k hk
    rw [hne k hk]
    exact h.others k hk
  · -- another device has no attempt, and can start one only if there is none
    have hidle : (w.device j).At .idle := at_idle_iff.mpr (h.others j hj)
    obtain ⟨ph', hat, hmoves⟩ := hidle.step hattempts.only (fun _ => rfl) hstep
    cases hmoves with
    | stay hsame hrow =>
      refine ⟨i, ph, ⟨?_, ?_⟩, .stay hsame hrow⟩
      · rw [hne i (Ne.symm hj)]
        exact h.device
      · intro k hk
        by_cases hkj : k = j
        · subst hkj
          exact at_idle_iff.mp hat
        · rw [hne k hkj]
          exact h.others k hk
    | submit hv hsame =>
      have hquiet := hattempts.apart rfl
      obtain rfl := h.eq_idle hquiet
      refine ⟨j, _, ⟨hat, ?_⟩, .submit hv hsame⟩
      intro k hk
      rw [hne k hk]
      exact hquiet k

/-- **The rule for runs of attempts.** What every move keeps, of the moves that `G`
admits, holds at the end of a run. -/
theorem run_attempts {G : World → ℕ × Event → Prop} {I : Server → Phase → Prop}
    (hI : ∀ w e srv' ph ph', G w e → Moves w.server (w.device e.1) e.2 srv' ph ph' →
      I w.server ph → I srv' ph')
    {es : List (ℕ × Event)} (hat : w.At i ph) (hstart : I w.server ph)
    (hattempts : app.Always Attempts w es) (hG : app.Always G w es)
    (hr : app.run w es = some w') : ∃ i ph, w'.At i ph ∧ I w'.server ph := by
  refine app.run_invariant (P := fun w => ∃ i ph, w.At i ph ∧ I w.server ph) ?_
    ⟨i, ph, hat, hstart⟩ (app.always_and hattempts hG) hr
  rintro w e w' ⟨i, ph, hat, hinv⟩ ⟨hattempt, hg⟩ hs
  obtain ⟨i', ph', hat', hmoves⟩ := hat.step hattempt hs
  exact ⟨i', ph', hat', hI _ _ _ _ _ hg hmoves hinv⟩

end Runs

end DailyDiary
