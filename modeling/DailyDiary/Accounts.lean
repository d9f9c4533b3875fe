/-
The account on screen and the account that is signed in.

A list of memories keeps the uid it was loaded with; a press on it, or on the
screens above it, reads the uid again. The two differ only after a sign-in or
registration completes over a list of another account, or the SDK signs the user out
under a list: `Nav.Agrees` is kept by every other step, and `accounts_agree` is what
follows for runs.
-/
import DailyDiary.Effects

set_option autoImplicit false

namespace DailyDiary

open Screen Device

/-! ## The navigation machine -/

namespace Screen

/-- A list of memories is one of `user`. -/
def IsListOf (user : Option Uid) : Screen → Prop
  | .memories v => v = user
  | _ => True

instance (user : Option Uid) (s : Screen) : Decidable (s.IsListOf user) :=
  match s with
  | .memories v => inferInstanceAs (Decidable (v = user))
  | .logIn | .registration | .forgetPassword | .confirmPIN | .recreatePassword | .addMemory
  | .showMemory | .myProfile | .changePassword | .imagePicker => inferInstanceAs (Decidable True)

/-- Screens that show a memory or take one. -/
def showsMemories : Screen → Bool
  | .memories _ | .showMemory | .addMemory => true
  | _ => false

end Screen

namespace Nav

/-- Every list that can come into sight is one of the user who is signed in. -/
def Agrees (n : Nav) : Prop :=
  ∀ s ∈ current n.stack, s.IsListOf n.user

/-- A session that starts finds only lists of its own account, and one that Auth ends by
force finds no list. -/
def Fits (n : Nav) : Label → Prop
  | .session u => ∀ s ∈ current n.stack, s.IsListOf (some u)
  | .forcedOut => ∀ s ∈ current n.stack, s.IsListOf none
  | _ => True

instance (n : Nav) (l : Label) : Decidable (n.Fits l) :=
  match l with
  | .session u => inferInstanceAs (Decidable (∀ s ∈ current n.stack, s.IsListOf (some u)))
  | .forcedOut => inferInstanceAs (Decidable (∀ s ∈ current n.stack, s.IsListOf none))
  | .ui | .logOut _ => inferInstanceAs (Decidable True)

theorem Loads.isListOf {user : Option Uid} {s : Screen} (h : Loads user s) : s.IsListOf user := by
  cases s with
  | memories v => exact h.1
  | _ => trivial

theorem Agrees.cons {n : Nav} (h : n.Agrees) {s : Screen} (hs : s.IsListOf n.user) :
    ∀ t ∈ current (s :: n.stack), t.IsListOf n.user := by
  intro t ht
  rcases mem_current_of_cons ht with rfl | ht
  · exact hs
  · exact h t ht

/-- The lists in sight go on being those of the user who is signed in. A push loads the list
for that user, and the two labels that change the session have to fit. -/
theorem Agrees.step {n n' : Nav} {l : Label} (h : n.Agrees) (hstep : Step n l n')
    (hfits : n.Fits l) : n'.Agrees := by
  cases hstep with
  | stay => exact h
  | raise => exact h
  | close => exact h
  | push hs hover hload => exact h.cons (Loads.isListOf hload)
  | pop hs hne hn =>
    intro t ht
    refine h t ?_
    rw [hs, current_cons_of_ne hne]
    exact List.mem_cons_of_mem _ ht
  | session u => exact hfits
  | signIn u hs hn =>
    have hu : Agrees { n with user := some u } := hfits
    exact hu.cons rfl
  | register u hs hn => exact hfits
  | logOut throws hs hn =>
    intro t ht
    simp at ht
  | forcedOut => exact hfits

theorem Agrees.head {n : Nav} (h : n.Agrees) {v : Option Uid} (above rest : List Screen)
    (hs : n.stack = above ++ .memories v :: rest) (hne : ∀ s ∈ above, s ≠ .logIn) :
    v = n.user := by
  refine h (.memories v) ?_
  rw [hs, current, List.takeWhile_append_of_pos (by simpa using hne)]
  simp

/-- Below a screen that is not a login screen lies the one that presented it. -/
theorem exists_below {s : Screen} {rest : List Screen} (hchain : (s :: rest).IsChain Over)
    (hroot : (s :: rest).getLast? = some .logIn) (hne : s ≠ .logIn) :
    ∃ t rest', rest = t :: rest' ∧ Over s t ∧ (t :: rest').IsChain Over ∧
      (t :: rest').getLast? = some .logIn := by
  cases rest with
  | nil => exact absurd (Option.some.inj hroot) hne
  | cons t rest' => exact ⟨t, rest', rfl, hchain.rel, hchain.tail, by simpa using hroot⟩

/-- With a memory on screen, the account whose memory it is is the user. -/
theorem Agrees.accountShown_eq {n : Nav} (h : n.Agrees) (hi : n.Inv) {s : Screen}
    {rest : List Screen} (hs : n.stack = s :: rest) (hshows : s.showsMemories = true) :
    accountShown n.stack = n.user := by
  have hne : s ≠ .logIn := by
    rintro rfl
    cases hshows
  obtain ⟨t, rest', rfl, hover, hchain, hroot⟩ :=
    exists_below (hs ▸ hi.chain) (hs ▸ hi.root) hne
  cases s with
  | memories v =>
    rw [hs, accountShown]
    exact h.head [] _ hs (by simp)
  | showMemory =>
    obtain ⟨v, rfl⟩ := hover
    rw [hs, accountShown, accountShown]
    exact h.head [.showMemory] _ hs (by simp)
  | addMemory =>
    rcases hover with ⟨v, rfl⟩ | rfl
    · rw [hs, accountShown, accountShown]
      exact h.head [.addMemory] _ hs (by simp)
    · -- an edit: the memory below comes from the list below that
      obtain ⟨t, rest'', rfl, ⟨v, rfl⟩, -, -⟩ := exists_below hchain hroot nofun
      rw [hs, accountShown, accountShown, accountShown]
      exact h.head [.addMemory, .showMemory] _ hs (by simp)
  | _ => cases hshows

end Nav

/-! ## Devices -/

theorem head_memoryRef (u : Uid) (id : String) :
    ((memoryRef u).childFromString id).head? = some "memory" := by
  simp [Ref.childFromString]

theorem head_userFieldRef (u : Uid) {field : String} (h : IsKey field) :
    (userFieldRef u field).head? = some "user" := by
  rw [userFieldRef_eq u h]
  rfl

/-- What is promised of the account on screen: it is the one signed in, and
whatever the next step writes below `memory` goes to its tree. -/
structure Device.AccountAgrees (d : Device) : Prop where
  shown : ∀ self v, d.visible = some (self, v) → v.screen.showsMemories = true →
    accountShown d.nav.stack = d.currentUser
  addressed : ∀ srv e srv' d' new, step srv d e = some (srv', d') → d'.writes = d.writes ++ new →
    ∀ w ∈ new, w.ref.head? = some "memory" →
      ∃ u, accountShown d.nav.stack = some u ∧ memoryRef u <+: w.ref

/-- Only the editor and the memory on screen write below `memory`, with the uid
of the user. -/
theorem Device.Issues.addressed {d : Device} {e : Event} {w : Write} (h : d.Issues e w)
    (hi : d.nav.Inv) (ha : d.nav.Agrees) (hm : w.ref.head? = some "memory") :
    ∃ u, accountShown d.nav.stack = some u ∧ memoryRef u <+: w.ref := by
  cases h with
  | userRow hcall hc => simp at hm
  | @memory draws self c c' u hv hc hu hid =>
    obtain ⟨rest, hs⟩ := nav_stack_of_visible hv
    exact ⟨u, (ha.accountShown_eq hi hs rfl).trans hu, List.prefix_append _ _⟩
  | @deletion text throws self c u hact ht hu hid =>
    obtain ⟨rest, hs⟩ := nav_stack_of_head (top_eq_some.mp ht).1 (screen_of_top ht)
    exact ⟨u, (ha.accountShown_eq hi hs rfl).trans hu, List.prefix_append _ _⟩
  | userName hact ht hu =>
    rw [head_userFieldRef _ (by decide)] at hm
    simp at hm
  | password hv hshown hc hu =>
    rw [head_userFieldRef _ (by decide)] at hm
    simp at hm

theorem Device.accountAgrees {d : Device} (hi : d.nav.Inv) (ha : d.nav.Agrees) :
    d.AccountAgrees where
  shown := by
    intro self v hv hshows
    obtain ⟨rest, hs⟩ := nav_stack_of_visible hv
    exact ha.accountShown_eq hi hs hshows
  addressed := by
    intro srv e srv' d' new hstep hnew w hw hm
    have hissues : d.Issues e w := by
      have hwrites := (step_effect hstep).writes
      rw [hnew] at hwrites
      exact hwrites.of_append w hw
    exact hissues.addressed hi ha hm

/-- A sign-in or registration that completes with success finds, above the
topmost login screen, only lists of its own account, and a password update that fails as
the token of the user is invalid, which signs the user out, finds no list there. -/
def SessionFits (w : World) (e : ℕ × Event) : Prop :=
  (w.device e.1).nav.Fits ((w.device e.1).label e.2)

instance (w : World) (e : ℕ × Event) : Decidable (SessionFits w e) :=
  inferInstanceAs (Decidable (Nav.Fits _ _))

theorem app_step_agrees {w w' : World} {e : ℕ × Event}
    (hw : ∀ i, (w.device i).Inv ∧ (w.device i).nav.Agrees) (hfits : SessionFits w e)
    (h : app.step w e = some w') : ∀ i, (w'.device i).Inv ∧ (w'.device i).nav.Agrees := by
  obtain ⟨i, e⟩ := e
  obtain ⟨hstep, hne⟩ := app_step_eq_some.mp h
  intro j
  by_cases hj : j = i
  · subst hj
    have hrefines := step_refines (hw j).1.wf (hw j).1.nav hstep
    exact ⟨(hw j).1.step hstep, (hw j).2.step hrefines.step hfits⟩
  · rw [hne j hj]
    exact hw j

/-- **The account on screen is the account signed in.** It is, in every state of
a run in which every sign-in and registration that completes with success finds
only lists of its own account above the topmost login screen, and every sign-out by
force finds no list there. -/
theorem accounts_agree {w : World} {es : List (ℕ × Event)} (hw : app.init w)
    (hfits : app.Always SessionFits w es) :
    app.Throughout (fun v => ∀ i, (v.device i).AccountAgrees) w es := by
  refine app.throughout_of_invariant
    (I := fun v => ∀ i, (v.device i).Inv ∧ (v.device i).nav.Agrees) ?_ ?_ ?_ hfits
  · exact fun _ _ _ hinv hG hs => app_step_agrees hinv hG hs
  · exact fun _ hinv i => accountAgrees (hinv i).1.nav (hinv i).2
  · intro i
    refine ⟨init_inv hw i, ?_⟩
    refine of_init hw (P := fun d => d.nav.Agrees) ?_ i
    simp [Nav.Agrees, nav, launch, screens, ViewController.screen]

/-- Log In is pressed for one account and, before that completes, for the other. -/
def overlappingSignIns : List Event :=
  [.typed (.logIn ann.email ann.password), .press .logInBtnPressed,
    .typed (.logIn bob.email bob.password), .press .logInBtnPressed,
    .authCompleted 0 (.success ann.uid), .authCompleted 0 (.success bob.uid)]

theorem accounts_disagree :
    ¬ ∀ (w w' : World) (es : List (ℕ × Event)), app.init w → app.run w es = some w' →
      ∀ i, (w'.device i).AccountAgrees := by
  intro h
  have hend : (app.run (World.start ⟨[ann, bob], none⟩) (alone overlappingSignIns)).map (fun w =>
      ((w.device 0).visible.map fun p => p.2.screen, accountShown (w.device 0).nav.stack,
        (w.device 0).currentUser)) =
      some (some (.memories (some ann.uid)), some ann.uid, some bob.uid) := by
    decide
  obtain ⟨w', hr, hend⟩ := Option.map_eq_some_iff.mp hend
  simp only [Prod.mk.injEq, Option.map_eq_some_iff] at hend
  obtain ⟨⟨⟨self, v⟩, hv, hscreen⟩, hshown, huser⟩ := hend
  have hagrees := (h _ _ _ (init_start _) hr 0).shown self v hv (by rw [hscreen]; rfl)
  rw [hshown, huser] at hagrees
  exact absurd hagrees (by decide)

/-- The same presses, the second after a log-out. -/
def successiveSignIns : List Event :=
  [.typed (.logIn ann.email ann.password), .press .logInBtnPressed,
    .authCompleted 0 (.success ann.uid), .press .myProfilePageBtnPressed,
    .press .logOutBtnPressed, .alertOk "" false, .typed (.logIn bob.email bob.password),
    .press .logInBtnPressed, .authCompleted 0 (.success bob.uid)]

theorem accounts_agree_successively :
    app.Throughout (fun v => ∀ i, (v.device i).AccountAgrees) (World.start ⟨[ann, bob], none⟩)
      (alone successiveSignIns) :=
  accounts_agree (init_start _) (by decide)

end DailyDiary
