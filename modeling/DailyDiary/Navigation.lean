/-
What the user sees of a device, as a machine of its own: who is signed in, the
chain of presented screens, and the alert over the top one.

`Nav.Step` lists what one step can do to these three, and `Nav.Inv` is the
invariant all of it keeps: the shape of the stack is one relation between
neighbours (`Over`). `Nav.SignedIn` is about the *current part* of the stack, the
screens above the topmost login screen. Login screens are never dismissed, so
these are the only screens that can come back into sight; somebody is signed in
where one of them is private, until the SDK signs the user out by force.

`Refinement.lean` shows that the handlers refine this machine.
-/
import DailyDiary.Controllers
import Mathlib.Data.List.Chain
import Mathlib.Data.List.TakeWhile

set_option autoImplicit false

namespace DailyDiary

/-! ## Screens -/

/-- A screen on the stack; a list of memories with the account it observes. -/
inductive Screen where
  | logIn
  | registration
  | forgetPassword
  | confirmPIN
  | recreatePassword
  | memories (uid : Option Uid)
  | addMemory
  | showMemory
  | myProfile
  | changePassword
  | imagePicker
  deriving DecidableEq

namespace Screen

/-- The screens of a signed-in user. -/
def isPrivate : Screen → Bool
  | .memories _ | .addMemory | .showMemory | .myProfile | .changePassword | .imagePicker => true
  | _ => false

/-- `Over s t`: some handler of `t` presents `s`. -/
def Over : Screen → Screen → Prop
  | .logIn, t => t = .myProfile ∨ t = .recreatePassword
  | .registration, t => t = .logIn
  | .forgetPassword, t => t = .logIn
  | .confirmPIN, t => t = .forgetPassword
  | .recreatePassword, t => t = .confirmPIN
  | .memories _, t => t = .logIn ∨ t = .registration ∨ t = .showMemory ∨ t = .addMemory
  | .addMemory, t => (∃ u, t = .memories u) ∨ t = .showMemory
  | .showMemory, t => ∃ u, t = .memories u
  | .myProfile, t => (∃ u, t = .memories u) ∨ t = .changePassword
  | .changePassword, t => t = .myProfile
  | .imagePicker, t => t = .myProfile

/-- The alert with action `a` is raised by a handler of `s` while somebody may
be signed in or not; the alert of a completed registration is not among them. -/
def Raises : Screen → AlertAction → Prop
  | _, .dismissOnly => True
  | s, .presentMemories => s = .addMemory
  | s, .presentMyProfile => s = .changePassword
  | s, .presentConfirmPIN => s = .forgetPassword
  | s, .presentLogIn => s = .recreatePassword
  | s, .deleteMemory => s = .showMemory
  | s, .setUserName => s = .myProfile
  | s, .signOut => s = .myProfile
  | s, .openGallary => s = .myProfile

/-- Loading `s` succeeds with `user` signed in: the list and the profile read the
session, and the list observes the tree of that account. -/
def Loads (user : Option Uid) : Screen → Prop
  | .memories v => v = user ∧ user ≠ none
  | .myProfile => user ≠ none
  | _ => True

/-- The screens above the topmost login screen. -/
def current (stack : List Screen) : List Screen :=
  stack.takeWhile (· ≠ .logIn)

/-- The account whose memories the top screen shows: the one observed by the
nearest list below it. -/
def accountShown : List Screen → Option Uid
  | .memories u :: _ => u
  | .showMemory :: rest => accountShown rest
  | .addMemory :: rest => accountShown rest
  | _ => none

@[simp] theorem current_logIn (rest : List Screen) : current (.logIn :: rest) = [] := by
  simp [current]

theorem current_cons_of_ne {s : Screen} (h : s ≠ .logIn) (rest : List Screen) :
    current (s :: rest) = s :: current rest := by
  simp [current, h]

theorem mem_current_of_cons {s t : Screen} {rest : List Screen}
    (h : t ∈ current (s :: rest)) : t = s ∨ t ∈ current rest := by
  by_cases hs : s = .logIn
  · subst hs
    simp at h
  · rw [current_cons_of_ne hs] at h
    exact List.mem_cons.mp h

theorem mem_current_cons {s : Screen} (hs : s ≠ .logIn) (rest : List Screen) :
    s ∈ current (s :: rest) := by
  rw [current_cons_of_ne hs]
  exact List.mem_cons_self

end Screen

open Screen

/-! ## The machine -/

structure Nav where
  user : Option Uid
  stack : List Screen
  alert : Option AlertAction

/-- What a step means for the session. -/
inductive Label where
  /-- nothing -/
  | ui
  /-- a sign-in or registration of `u` completes -/
  | session (u : Uid)
  /-- the log-out action, with the outcome of `signOut` -/
  | logOut (throws : Bool)
  /-- the SDK signs the user out -/
  | forcedOut
  deriving DecidableEq

/-- The session after a step with this label. -/
def Label.after (user : Option Uid) : Label → Option Uid
  | .ui => user
  | .session u => some u
  | .logOut throws => if throws then user else none
  | .forcedOut => none

inductive Nav.Step : Nav → Label → Nav → Prop where
  | stay (n : Nav) : Step n .ui n
  | raise {n : Nav} {s : Screen} {rest : List Screen} {a : AlertAction}
      (hs : n.stack = s :: rest) (hn : n.alert = none) (ha : Raises s a) :
      Step n .ui { n with alert := some a }
  | close (n : Nav) : Step n .ui { n with alert := none }
  | push {n : Nav} {s t : Screen} {rest : List Screen} (hs : n.stack = t :: rest)
      (hover : Over s t) (hload : Loads n.user s) :
      Step n .ui { n with stack := s :: n.stack, alert := none }
  | pop {n : Nav} {s t : Screen} {rest : List Screen} (hs : n.stack = s :: t :: rest)
      (hne : s ≠ .logIn) (hn : n.alert = none) : Step n .ui { n with stack := t :: rest }
  | session (n : Nav) (u : Uid) : Step n (.session u) { n with user := some u }
  | signIn {n : Nav} {rest : List Screen} (u : Uid) (hs : n.stack = .logIn :: rest)
      (hn : n.alert = none) :
      Step n (.session u) { n with user := some u, stack := .memories (some u) :: n.stack }
  | register {n : Nav} {rest : List Screen} (u : Uid) (hs : n.stack = .registration :: rest)
      (hn : n.alert = none) :
      Step n (.session u) { n with user := some u, alert := some .presentMemories }
  | logOut {n : Nav} {rest : List Screen} (throws : Bool) (hs : n.stack = .myProfile :: rest)
      (hn : n.alert = some .signOut) :
      Step n (.logOut throws)
        { user := if throws then n.user else none, stack := .logIn :: n.stack, alert := none }
  | forcedOut (n : Nav) : Step n .forcedOut { n with user := none }

/-! ## The invariants -/

/-- What every step keeps. -/
structure Nav.Inv (n : Nav) : Prop where
  /-- every screen was presented by the one below it -/
  chain : n.stack.IsChain Over
  /-- the login screen of the start is at the bottom -/
  root : n.stack.getLast? = some .logIn
  /-- an alert belongs to the screen below it -/
  alert : ∀ a, n.alert = some a → ∃ s rest, n.stack = s :: rest ∧
    (Raises s a ∨ (s = .registration ∧ a = .presentMemories))

/-- Somebody is signed in wherever the app relies on it. Every step keeps it but a forced
sign-out, which the screens are not told of. -/
structure Nav.SignedIn (n : Nav) : Prop where
  /-- a private screen that can come into sight has a session -/
  session : ∀ s ∈ current n.stack, s.isPrivate = true → n.user ≠ none
  /-- so has the alert whose action opens the list -/
  opens : n.alert = some .presentMemories → n.user ≠ none

namespace Nav

/-- The top screen is private, or an alert is up whose action opens the list. -/
def Privileged (n : Nav) : Prop :=
  (∃ s rest, n.stack = s :: rest ∧ s.isPrivate = true) ∨ n.alert = some .presentMemories

theorem inv_launch (user : Option Uid) : Inv ⟨user, [.logIn], none⟩ where
  chain := by simp
  root := rfl
  alert := by
    intro a ha
    cases ha

theorem signedIn_launch (user : Option Uid) : SignedIn ⟨user, [.logIn], none⟩ where
  session := by
    intro s hs
    simp at hs
  opens := nofun

theorem SignedIn.user_ne_none {n : Nav} (h : n.SignedIn) {s : Screen} {rest : List Screen}
    (hs : n.stack = s :: rest) (hp : s.isPrivate = true) : n.user ≠ none := by
  refine h.session s ?_ hp
  rw [hs]
  refine mem_current_cons ?_ rest
  rintro rfl
  cases hp

/-- Where the app unwraps the uid, somebody is signed in. -/
theorem SignedIn.user_ne_none_of_privileged {n : Nav} (h : n.SignedIn) (hp : n.Privileged) :
    n.user ≠ none := by
  rcases hp with ⟨s, rest, hs, hp⟩ | ha
  · exact h.user_ne_none hs hp
  · exact h.opens ha

/-- Who is signed in is nothing to the stack and the alert. -/
theorem Inv.setUser {n : Nav} (h : n.Inv) (user : Option Uid) : Inv { n with user } :=
  ⟨h.chain, h.root, h.alert⟩

theorem signedIn_of_user {n : Nav} {u : Uid} (hu : n.user = some u) : n.SignedIn where
  session := by
    intro s hs hp
    rw [hu]
    exact Option.some_ne_none u
  opens := by
    intro ha
    rw [hu]
    exact Option.some_ne_none u

theorem Inv.close {n : Nav} (h : n.Inv) : Inv { n with alert := none } where
  chain := h.chain
  root := h.root
  alert := by
    intro a ha
    cases ha

/-- Presenting a screen that its presenter may present keeps the invariant. -/
theorem Inv.push {n : Nav} (h : n.Inv) {s t : Screen} {rest : List Screen}
    (hs : n.stack = t :: rest) (hover : Over s t) :
    Inv { n with stack := s :: n.stack, alert := none } where
  chain := by
    have hc := h.chain
    rw [hs] at hc
    simp only [hs]
    exact hc.cons_cons hover
  root := by
    have hr := h.root
    rw [hs] at hr
    simpa [hs] using hr
  alert := by
    intro a ha
    cases ha

/-- Pushing a screen keeps the session's part of the invariant: the new screen goes over the
one below it and is loaded for whoever is signed in. -/
theorem SignedIn.push {n : Nav} (h : n.SignedIn) {s t : Screen} {rest : List Screen}
    (hs : n.stack = t :: rest) (hover : Over s t) (hload : Loads n.user s) :
    SignedIn { n with stack := s :: n.stack, alert := none } where
  session := by
    intro r hr hp
    rcases mem_current_of_cons hr with rfl | hr
    · -- the new screen reads the session, or sits on a private one
      cases r with
      | memories v => exact hload.2
      | myProfile => exact hload
      | addMemory =>
        rcases hover with ⟨u, rfl⟩ | rfl
        · exact h.user_ne_none hs rfl
        · exact h.user_ne_none hs rfl
      | showMemory =>
        obtain ⟨u, rfl⟩ := hover
        exact h.user_ne_none hs rfl
      | changePassword =>
        obtain rfl := hover
        exact h.user_ne_none hs rfl
      | imagePicker =>
        obtain rfl := hover
        exact h.user_ne_none hs rfl
      | _ => cases hp
    · exact h.session r hr hp
  opens := nofun

theorem Inv.pop {n : Nav} (h : n.Inv) {s t : Screen} {rest : List Screen}
    (hs : n.stack = s :: t :: rest) (hn : n.alert = none) : Inv { n with stack := t :: rest } where
  chain := by
    have hc := h.chain
    rw [hs] at hc
    exact hc.tail
  root := by
    have hr := h.root
    rw [hs] at hr
    simpa using hr
  alert := by
    intro a ha
    rw [hn] at ha
    cases ha

/-- **Every step of the machine keeps the invariant.** -/
theorem Inv.step {n n' : Nav} {l : Label} (h : n.Inv) (hstep : Step n l n') : n'.Inv := by
  cases hstep with
  | stay => exact h
  | raise hs hn ha =>
    refine ⟨h.chain, h.root, ?_⟩
    intro a heq
    obtain rfl := Option.some.inj heq
    exact ⟨_, _, hs, Or.inl ha⟩
  | close => exact h.close
  | push hs hover hload => exact h.push hs hover
  | pop hs hne hn => exact h.pop hs hn
  | session u => exact h.setUser (some u)
  | signIn u hs hn =>
    have hp := (h.setUser (some u)).push hs (s := .memories (some u)) (Or.inl rfl)
    simpa [hn] using hp
  | register u hs hn =>
    refine ⟨h.chain, h.root, ?_⟩
    intro a heq
    obtain rfl := Option.some.inj heq
    exact ⟨_, _, hs, Or.inr ⟨rfl, rfl⟩⟩
  | logOut throws hs hn =>
    refine ⟨?_, ?_, ?_⟩
    · have hc := h.chain
      rw [hs] at hc
      simp only [hs]
      exact hc.cons_cons (Or.inl rfl)
    · have hr := h.root
      rw [hs] at hr
      simpa [hs] using hr
    · intro a ha
      cases ha
  | forcedOut => exact h.setUser none

/-- **Every step keeps somebody signed in** where the app relies on it, if a forced
sign-out does. -/
theorem SignedIn.step {n n' : Nav} {l : Label} (h : n.SignedIn) (hstep : Step n l n')
    (hforced : l = .forcedOut → n'.SignedIn) : n'.SignedIn := by
  cases hstep with
  | stay => exact h
  | raise hs hn ha =>
    refine ⟨h.session, ?_⟩
    intro heq
    -- the alert that opens the list is raised by the editor, which is private
    obtain rfl := Option.some.inj heq
    obtain rfl := ha
    exact h.user_ne_none hs rfl
  | close => exact ⟨h.session, nofun⟩
  | push hs hover hload => exact h.push hs hover hload
  | pop hs hne hn =>
    refine ⟨?_, h.opens⟩
    intro s hmem hp
    refine h.session s ?_ hp
    rw [hs, current_cons_of_ne hne]
    exact List.mem_cons_of_mem _ hmem
  | session u => exact signedIn_of_user rfl
  | signIn u hs hn => exact signedIn_of_user rfl
  | register u hs hn => exact signedIn_of_user rfl
  | logOut throws hs hn =>
    refine ⟨?_, nofun⟩
    intro s hmem
    simp at hmem
  | forcedOut => exact hforced rfl

/-! ## Who is signed in -/

/-- The session changes only when a sign-in or registration completes, when the log-out
action runs, and when the SDK signs the user out. -/
theorem Step.user_eq {n n' : Nav} {l : Label} (h : Step n l n') : n'.user = l.after n.user := by
  cases h <;> rfl

end Nav

end DailyDiary
