/-
What a log-out leaves on the stack: the screens of the session that has ended stay
below the login screen, and nothing brings them back.

Nothing is ever taken off the stack below its top, and a login screen has no button
that dismisses it, so the stack at the log-out with the new login screen on it is the
lower end of every later stack. What can be put above it is the second half: without a
sign-in or a registration no step opens a private screen from a public one. Both are
read off `Moves`, the list of what a step does to the stack.
-/
import DailyDiary.PasswordAuthorisation

set_option autoImplicit false

namespace DailyDiary

open Device Screen

namespace Device

variable {d d₁ d' : Device} {e : Event} {self : VcId}

/-! ## What a step does to the stack -/

/-- What lets the event `e` open a private screen: such a screen is on top, or the alert
that is up opens the list, or a session begins. -/
def Admits (d : Device) (e : Event) : Prop :=
  (∃ i v, d.top = some (i, v) ∧ v.screen.isPrivate = true) ∨
    d.alert.map Alert.action = some .presentMemories ∨ ∃ u, d.label e = .session u

/-- The event leaves the stack alone, takes off the top screen, which is not a login
screen, or puts one on it. -/
inductive Moves (d : Device) (e : Event) (d' : Device) : Prop where
  | stay (hs : d'.stack = d.stack)
  | pop {i : VcId} {s : Screen} (hi : d.screens[i]? = some s) (hne : s ≠ .logIn)
      (hs : d.stack = i :: d'.stack)
  | push {s : Screen} (hs : d'.stack = d.vcs.length :: d.stack)
      (hi : d'.screens[d.vcs.length]? = some s) (hp : s.isPrivate = true → d.Admits e)

/-- A handler that stops the app leaves the stack alone. -/
def Moved (d : Device) (e : Event) : Result Device → Prop
  | .ok d' => d.Moves e d'
  | .error _ => True

theorem Moved.settle {r : Result Device} (h : d.Moved e r) : d.Moves e (d.settle r) := by
  cases r with
  | ok d' => exact h
  | error f => exact .stay rfl

theorem moved_of_ok {r : Result Device} (h : ∀ d', r = .ok d' → d'.stack = d.stack) :
    d.Moved e r := by
  cases r with
  | ok d' => exact .stay (h d' rfl)
  | error f => trivial

theorem moved_dismiss {v : ViewController} (hv : d.visible = some (self, v))
    (hne : v.screen ≠ .logIn) : d.Moved e (.ok d.dismiss) := by
  have hhead := (visible_eq_some.mp hv).1.1
  unfold dismiss
  split
  · next i j rest hstack =>
    obtain rfl : i = self := by simpa [hstack] using hhead
    have hs := (silent_viewWillAppear j { d with stack := j :: rest }).stack
    refine .pop (screen_of_visible hv) hne ?_
    rw [hs, hstack]
  · exact .stay rfl

/-- `present` in a device that differs from `d` in neither stack nor instances. -/
theorem moved_present {v : ViewController} (hstack : d₁.stack = d.stack)
    (hlen : d₁.vcs.length = d.vcs.length)
    (hp : (v.loaded d₁.currentUser).isPrivate = true → d.Admits e) :
    d.Moved e (d₁.present self v) := by
  unfold present
  split
  · cases hload : d₁.viewDidLoad d₁.vcs.length v with
    | error f => trivial
    | ok r =>
      obtain ⟨v', d₂⟩ := r
      obtain ⟨hscreen, -, hsilent⟩ := viewDidLoad_ok hload
      have hlen₂ : d₂.vcs.length = d.vcs.length := by
        rw [← length_screens, hsilent.screens, length_screens, hlen]
      refine .push (s := v'.screen) ?_ ?_ (hscreen ▸ hp)
      · show d₂.vcs.length :: d₂.stack = d.vcs.length :: d.stack
        rw [hlen₂, hsilent.stack, hstack]
      · rw [screens_push, ← hlen₂, ← length_screens, List.getElem?_concat_length]
  · exact .stay hstack

/-- A public screen can be presented from anywhere. -/
theorem moved_present_public {v : ViewController} (hstack : d₁.stack = d.stack)
    (hlen : d₁.vcs.length = d.vcs.length)
    (hv : (v.loaded d₁.currentUser).isPrivate = false) : d.Moved e (d₁.present self v) := by
  refine moved_present hstack hlen ?_
  intro hp
  rw [hv] at hp
  cases hp

/-- A button of a private screen presents another. -/
theorem moved_press_present {t v : ViewController} (hv : d.visible = some (self, t))
    (ht : t.screen.isPrivate = true) : d.Moved e (d.present self v) :=
  moved_present rfl rfl fun _ => Or.inl ⟨self, t, top_of_visible hv, ht⟩

/-- What a press does to the stack of screens, button by button: it pushes one screen, pops
the visible one or leaves the stack as it is. -/
theorem moved_press {b : Button} {r : Result Device} (hr : d.press b = some r) :
    d.Moved (.press b) r := by
  cases presses_of_press hr with
  | @logIn i c hv =>
    refine .stay ?_
    unfold LogInViewController.logInBtnPressed
    dsimp only
    split
    · rfl
    · split <;> rfl
  | forgetPassword hv => exact moved_present_public rfl rfl rfl
  | signUp hv => exact moved_present_public rfl rfl rfl
  | @register i c hv =>
    refine .stay ?_
    unfold RegistrationViewController.registerBtnPressed
    dsimp only
    split <;> rfl
  | already hv => exact moved_dismiss hv nofun
  | @reset i c hv =>
    refine .stay ?_
    unfold ForgetPasswordViewController.resetBtnPressed
    dsimp only
    split <;> rfl
  | forgetPasswordBack hv => exact moved_dismiss hv nofun
  | @confirmPin i c hv =>
    unfold ConfirmPINViewController.confirmPinBtnPressed
    dsimp only
    split
    · exact .stay rfl
    · split
      · exact .stay rfl
      · exact moved_present_public rfl (List.length_set ..) rfl
  | resend hv => exact .stay rfl
  | @recreateDone i c hv =>
    refine .stay ?_
    unfold RecreatePasswordViewController.doneBtnPresed
    dsimp only
    split
    · rfl
    · split <;> rfl
  | addMemories hv => exact moved_press_present hv rfl
  | myProfilePage hv => exact moved_press_present hv rfl
  | @didSelectRow row i c hv hrow =>
    unfold MyMemoriesViewController.didSelectRowAt
    split
    · exact moved_press_present hv rfl
    · trivial
  | showMemoryBack hv => exact moved_dismiss hv nofun
  | delete hv => exact .stay rfl
  | edit hv => exact moved_press_present hv rfl
  | memoryDone hv =>
    refine moved_of_ok ?_
    intro d' hd'
    obtain ⟨c', -, hd'⟩ := Result.bind_eq_ok.mp hd'
    obtain ⟨u, -, hd'⟩ := Result.bind_eq_ok.mp hd'
    obtain ⟨ref, -, hd'⟩ := Result.bind_eq_ok.mp hd'
    obtain rfl := Except.ok.inj hd'
    rfl
  | cancel hv => exact moved_press_present hv rfl
  | myProfileBack hv => exact moved_dismiss hv nofun
  | updateUserName hv => exact .stay rfl
  | updatePassword hv => exact moved_press_present hv rfl
  | logOut hv => exact .stay rfl
  | tapGesture hv => exact .stay rfl
  | imagePickerFinished hv => exact moved_dismiss hv nofun
  | changePasswordBack hv => exact moved_dismiss hv nofun
  | passwordDone hv hshown =>
    refine moved_of_ok ?_
    intro d' hd'
    obtain ⟨u, -, hd'⟩ := Result.bind_eq_ok.mp hd'
    dsimp only at hd'
    split at hd'
    · obtain rfl := Except.ok.inj hd'
      rfl
    · split at hd' <;> obtain rfl := Except.ok.inj hd' <;> rfl
  | update hv hshown =>
    refine moved_of_ok ?_
    intro d' hd'
    unfold ChangePasswordViewController.updateBtnPressed at hd'
    dsimp only at hd'
    split at hd'
    · obtain rfl := Except.ok.inj hd'
      rfl
    · obtain ⟨d₂, hstores, hd'⟩ := Result.bind_eq_ok.mp hd'
      obtain rfl := Except.ok.inj hd'
      obtain ⟨u, -, hstores⟩ := Result.bind_eq_ok.mp hstores
      obtain rfl := Except.ok.inj hstores
      split <;> rfl

/-- The alert that opens the profile is one of the screen that changes the password. -/
theorem private_of_presentMyProfile {v : ViewController} (hi : d.nav.Inv)
    (ha : d.alert.map Alert.action = some .presentMyProfile) (ht : d.top = some (self, v)) :
    v.screen.isPrivate = true := by
  obtain ⟨s, rest, hs, hraises | ⟨-, hother⟩⟩ := hi.alert _ ha
  · obtain rfl : s = .changePassword := hraises
    obtain ⟨rest', hrest'⟩ := nav_stack_of_head (top_eq_some.mp ht).1 (screen_of_top ht)
    rw [← (List.cons.inj (hs.symm.trans hrest')).1]
    rfl
  · cases hother

/-- The same for the OK handlers of the alerts. The alert has already been taken down, so
the handler starts from the screens below it. -/
theorem moved_perform {act : AlertAction} {text : String} {throws : Bool} {r : Result Device}
    (hi : d.nav.Inv) (ha : d.alert.map Alert.action = some act)
    (hr : { d with alert := none }.perform act text throws = some r) :
    d.Moved (.alertOk text throws) r := by
  cases performs_of_perform hr with
  | dismissOnly => exact .stay rfl
  | presentMemories ht => exact moved_present rfl rfl fun _ => Or.inr (Or.inl ha)
  | presentMyProfile ht =>
    exact moved_present rfl rfl fun _ => Or.inl ⟨_, _, ht, private_of_presentMyProfile hi ha ht⟩
  | presentConfirmPIN ht => exact moved_present_public rfl rfl rfl
  | presentLogIn ht => exact moved_present_public rfl rfl rfl
  | @deleteMemory i c ht =>
    rcases ShowMemoryViewController.deleteConfirmed_cases i c { d with alert := none } with
      ⟨f, hstops, -⟩ | ⟨u, -, -, hwrites⟩
    · rw [hstops]
      trivial
    · rw [hwrites]
      exact moved_present rfl (by simp [setValue, refresh]) fun _ => Or.inl ⟨i, _, ht, rfl⟩
  | setUserName ht =>
    refine moved_of_ok ?_
    intro d' hd'
    obtain ⟨u, -, hd'⟩ := Result.bind_eq_ok.mp hd'
    obtain rfl := Except.ok.inj hd'
    rfl
  | signOut ht =>
    unfold MyProfileViewController.logOutConfirmed
    cases throws <;> exact moved_present_public rfl rfl rfl
  | openGallary ht => exact moved_present rfl rfl fun _ => Or.inl ⟨_, _, ht, rfl⟩

/-- The same for the blocks of Auth. A block presents only from a screen that is still on
top, a covered one moves nothing. -/
theorem moved_completeAuth {srv srv' : Server} {i : ℕ} {reply : AuthReply} {r : Result Device}
    (hr : completeAuth srv d i reply = some (srv', r)) : d.Moved (.authCompleted i reply) r := by
  obtain ⟨call, hcall, -, rfl⟩ := completeAuth_eq_some.mp hr
  cases call with
  | signIn self email password =>
    cases reply with
    | failure | tokenInvalid => exact .stay rfl
    | success u =>
      refine moved_present rfl rfl fun _ => Or.inr (Or.inr ⟨u, ?_⟩)
      simp [label, hcall]
  | createUser self email password name =>
    cases reply with
    | failure | tokenInvalid => exact .stay rfl
    | success u =>
      show d.Moved _ (RegistrationViewController.createUserCompleted self false _)
      rcases RegistrationViewController.createUserCompleted_of_some (u := u)
        (d := { d with auths := d.auths.eraseIdx i, currentUser := some u }) rfl with
        ⟨c, -, heq⟩ | ⟨-, heq⟩
      · rw [heq]
        exact .stay rfl
      · rw [heq]
        exact .stay rfl
  | updatePassword v password =>
    cases reply with
    | failure | success => exact .stay rfl
    | tokenInvalid => exact .stay (signOutByForce_stack v _)

theorem moved_completeWrite {srv : Server} {i : ℕ} {r : Result Device}
    (hr : completeWrite srv d i = some r) : d.Moved (.writeCompleted i) r := by
  obtain ⟨w, accepted, -, -, rfl⟩ := completeWrite_eq_some.mp hr
  cases w.completion with
  | memorySaved self => cases accepted <;> exact .stay rfl
  | userName self =>
    cases accepted with
    | false => exact .stay rfl
    | true =>
      refine moved_of_ok ?_
      intro d' hd'
      obtain ⟨u, -, hd'⟩ := Result.bind_eq_ok.mp hd'
      obtain rfl := Except.ok.inj hd'
      rfl
  | _ => exact .stay rfl

theorem moved_childAdded {i j : ℕ} {r : Result Device} (hr : d.childAdded i j = some r) :
    d.Moved (.childAdded i j) r := by
  obtain ⟨c, o, key, snapshot, -, -, -, rfl⟩ := childAdded_eq_some.mp hr
  refine moved_of_ok ?_
  intro d' hd'
  obtain ⟨m, -, hd'⟩ := Result.bind_eq_ok.mp hd'
  obtain rfl := Except.ok.inj hd'
  rfl

end Device

/-- **What a step does to the stack.** -/
theorem step_moves {srv srv' : Server} {d d' : Device} {e : Event} (hi : d.nav.Inv)
    (h : step srv d e = some (srv', d')) : d.Moves e d' := by
  cases steps_of_step h with
  | typed ht =>
    obtain ⟨i, v, v', -, -, rfl⟩ := typed_eq_some.mp ht
    exact .stay rfl
  | press hr => exact (moved_press hr).settle
  | alertOk hr =>
    obtain ⟨a, ha, hr⟩ := alertOk_eq_some.mp hr
    exact (moved_perform hi (by rw [ha]; rfl) hr).settle
  | alertCancel hcancel =>
    obtain ⟨-, rfl⟩ := alertCancel_eq_some.mp hcancel
    exact .stay rfl
  | authCompleted hr => exact (moved_completeAuth hr).settle
  | writeDecided hw => exact .stay (silent_decideWrite hw).stack
  | writeCompleted hr => exact (moved_completeWrite hr).settle
  | serverPush => exact .stay rfl
  | readAnswered hr => exact .stay (silent_answerRead hr).stack
  | readCompleted hr => exact .stay (silent_completeRead hr).stack
  | childAdded hr => exact (moved_childAdded hr).settle

/-! ## Above a login screen -/

namespace Device

variable {d d' : Device} {e : Event} {p : Screen → Prop} {n : VcId} {old : List VcId}

/-- The login screen `n` is on the stack over `old`, under screens that satisfy `p`. -/
structure RestsOn (d : Device) (p : Screen → Prop) (n : VcId) (old : List VcId) : Prop where
  logIn : d.screens[n]? = some .logIn
  stack : ∃ above, d.stack = above ++ n :: old ∧
    ∀ i ∈ above, ∀ s, d.screens[i]? = some s → p s

/-- The screen on top is the login screen or one of those above it. -/
theorem RestsOn.head (h : d.RestsOn p n old) {i : VcId} {s : Screen}
    (hi : d.stack.head? = some i) (hs : d.screens[i]? = some s) :
    (i = n ∧ s = .logIn) ∨ p s := by
  obtain ⟨above, hstack, habove⟩ := h.stack
  cases above with
  | nil =>
    obtain rfl : n = i := by simpa [hstack] using hi
    exact Or.inl ⟨rfl, Option.some.inj (hs.symm.trans h.logIn)⟩
  | cons j above =>
    obtain rfl : j = i := by simpa [hstack] using hi
    exact Or.inr (habove j List.mem_cons_self s hs)

/-- Nothing below the login screen comes to the top. -/
theorem RestsOn.not_head (h : d.RestsOn p n old) (hwf : d.WellFormed) {i : VcId} (hi : i ∈ old) :
    d.stack.head? ≠ some i := by
  intro hhead
  -- the identities on the stack decrease, so the top one is not below
  obtain ⟨above, hstack, -⟩ := h.stack
  obtain ⟨rest, hrest⟩ := List.head?_eq_some_iff.mp hhead
  have hids := (List.pairwise_cons.mp hwf.ids).2
  rw [hrest, List.pairwise_cons] at hids
  have hmem : i ∈ rest := by
    cases above with
    | nil =>
      obtain ⟨-, rfl⟩ := List.cons.inj (hrest.symm.trans hstack)
      exact hi
    | cons j above =>
      obtain ⟨-, rfl⟩ := List.cons.inj (hrest.symm.trans hstack)
      simp [hi]
  exact lt_irrefl i (hids.1 i hmem)

/-- A step leaves the login screen where it is; what it puts above is what it is let. -/
theorem RestsOn.step {srv srv' : Server} (h : d.RestsOn p n old) (hd : d.Inv)
    (hp : ∀ s, (s.isPrivate = true → d.Admits e) → p s)
    (hs : DailyDiary.step srv d e = some (srv', d')) : d'.RestsOn p n old := by
  have heffect := step_effect hs
  obtain ⟨above, hstack, habove⟩ := h.stack
  -- the screens that were there are what they were
  have hkept : ∀ i ∈ above, ∀ s, d'.screens[i]? = some s → p s := by
    intro i hi s hs'
    have hlt : i < d.screens.length := by
      rw [length_screens]
      exact hd.wf.lt (by simp [hstack, hi])
    have hold := List.getElem?_eq_getElem hlt
    rw [heffect.screens_kept hold] at hs'
    exact habove i hi s (hs' ▸ hold)
  refine ⟨heffect.screens_kept h.logIn, ?_⟩
  cases step_moves hd.nav hs with
  | stay hsame => exact ⟨above, hsame.trans hstack, hkept⟩
  | @pop i s hi hne hpop =>
    cases above with
    | nil =>
      -- the login screen itself cannot be taken off
      obtain ⟨rfl, -⟩ := List.cons.inj (hpop.symm.trans hstack)
      exact absurd (Option.some.inj (hi.symm.trans h.logIn)) hne
    | cons j above =>
      obtain ⟨-, hrest⟩ := List.cons.inj (hpop.symm.trans hstack)
      exact ⟨above, hrest, fun k hk => hkept k (List.mem_cons_of_mem j hk)⟩
  | @push s hpush hi hadmits =>
    refine ⟨d.vcs.length :: above, by rw [hpush, hstack]; rfl, ?_⟩
    intro j hj s' hs'
    rcases List.mem_cons.mp hj with rfl | hj
    · obtain rfl := Option.some.inj (hi.symm.trans hs')
      exact hp s hadmits
    · exact hkept j hj s' hs'

/-- The session before the last log-out has left nothing in sight: above the login
screen there are no private screens, and no alert that opens one. -/
structure LoggedOut (d : Device) (n : VcId) (old : List VcId) : Prop where
  rests : d.RestsOn (fun s => s.isPrivate = false) n old
  alert : d.alert.map Alert.action ≠ some .presentMemories

theorem LoggedOut.top_public (h : d.LoggedOut n old) {i : VcId} {s : Screen}
    (hi : d.stack.head? = some i) (hs : d.screens[i]? = some s) : s.isPrivate = false := by
  rcases h.rests.head hi hs with ⟨-, rfl⟩ | hpublic
  · rfl
  · exact hpublic

end Device

/-- The alert that opens the list is raised by the editor, or with a session. -/
theorem Nav.Step.presentMemories {n n' : Nav} {l : Label} (h : Nav.Step n l n')
    (ha : n'.alert = some .presentMemories) : n.alert = some .presentMemories ∨
      (∃ rest, n.stack = .addMemory :: rest) ∨ ∃ u, l = .session u := by
  cases h with
  | stay => exact Or.inl ha
  | @raise s rest a hs hn hraises =>
    obtain rfl := Option.some.inj ha
    obtain rfl : s = .addMemory := hraises
    exact Or.inr (Or.inl ⟨rest, hs⟩)
  | pop hs hne hn => exact absurd (hn.symm.trans ha) nofun
  | session u => exact Or.inr (Or.inr ⟨u, rfl⟩)
  | signIn u hs hn => exact Or.inr (Or.inr ⟨u, rfl⟩)
  | register u hs hn => exact Or.inr (Or.inr ⟨u, rfl⟩)
  | forcedOut => exact Or.inl ha
  | _ => cases ha

namespace Device

variable {srv srv' : Server} {d d' : Device} {e : Event} {n : VcId} {old : List VcId}

theorem LoggedOut.nav_public (h : d.LoggedOut n old) (hwf : d.WellFormed) {s : Screen}
    {rest : List Screen} (hs : d.nav.stack = s :: rest) : s.isPrivate = false := by
  obtain ⟨above, hstack, -⟩ := h.rests.stack
  obtain ⟨i, hi⟩ : ∃ i, d.stack.head? = some i := by
    cases above <;> exact ⟨_, by rw [hstack]; rfl⟩
  have hlt : i < d.screens.length := by
    rw [length_screens]
    exact hwf.lt (List.mem_of_mem_head? hi)
  have hscreen := List.getElem?_eq_getElem hlt
  obtain ⟨rest', hrest'⟩ := nav_stack_of_head hi hscreen
  rw [(List.cons.inj (hs.symm.trans hrest')).1]
  exact h.top_public hi hscreen

/-- Only a sign-in or a registration opens a private screen above the login screen. -/
theorem LoggedOut.step (h : d.LoggedOut n old) (hd : d.Inv) (hno : ∀ u, d.label e ≠ .session u)
    (hs : DailyDiary.step srv d e = some (srv', d')) : d'.LoggedOut n old where
  rests := by
    refine h.rests.step hd ?_ hs
    intro s hadmits
    by_contra hprivate
    -- a private screen on top, the alert that opens the list, or a session
    rcases hadmits (by simpa using hprivate) with ⟨i, v, ht, hv⟩ | halert | ⟨u, hu⟩
    · rw [h.top_public (top_eq_some.mp ht).1 (screen_of_top ht)] at hv
      cases hv
    · exact h.alert halert
    · exact hno u hu
  alert := by
    intro halert
    rcases (step_refines hd.wf hd.nav hs).step.presentMemories halert with
      halert | ⟨rest, hrest⟩ | ⟨u, hu⟩
    · exact h.alert halert
    · exact absurd (h.nav_public hd.wf hrest) nofun
    · exact hno u hu

/-- The log-out puts a login screen on the stack. -/
theorem step_logOut {text : String} {throws : Bool}
    (ha : d.alert = some MyProfileViewController.areYouSureToLogOut)
    (h : DailyDiary.step srv d (.alertOk text throws) = some (srv', d')) :
    d'.stack = d.vcs.length :: d.stack ∧ d'.screens[d.vcs.length]? = some .logIn ∧
      d'.alert = none := by
  cases steps_of_step h with
  | alertOk hr =>
    obtain ⟨a, ha', hr⟩ := alertOk_eq_some.mp hr
    obtain rfl := Option.some.inj (ha.symm.trans ha')
    cases performs_of_perform hr with
    | @signOut i c ht =>
      have hhead := (top_eq_some.mp ht).1
      cases throws <;>
        simp [MyProfileViewController.logOutConfirmed, present, onTop, hhead, hudShow, hudDismiss,
          viewDidLoad, settle, push, refresh, screens, ViewController.refresh,
          ViewController.screen]

end Device

/-! ## After a log-out -/

variable {w w' : World} {i : ℕ} {n : VcId} {old : List VcId} {es : List (ℕ × Event)}

theorem run_restsOn (hinv : ∀ j, (w.device j).Inv)
    (h : (w.device i).RestsOn (fun _ => True) n old) (hr : app.run w es = some w') :
    (w'.device i).RestsOn (fun _ => True) n old := by
  refine run_device_guarded (Q := fun d => d.RestsOn (fun _ => True) n old)
    (G := fun _ _ => True) ?_ hinv h ?_ hr
  · exact fun srv d e srv' d' hd h _ hs => h.step hd (fun _ _ => trivial) hs
  · exact app.always_mono (fun _ _ _ _ _ => trivial) (app.always_true w es)

theorem run_loggedOut (hinv : ∀ j, (w.device j).Inv) (h : (w.device i).LoggedOut n old)
    (hno : app.Always (fun v e => ¬ OpensSession i v e) w es) (hr : app.run w es = some w') :
    (w'.device i).LoggedOut n old := by
  refine run_device_guarded (Q := fun d => d.LoggedOut n old)
    (G := fun d e => ∀ u, d.label e ≠ .session u) ?_ hinv h ?_ hr
  · exact fun srv d e srv' d' hd h hno hs => h.step hd hno hs
  · refine app.always_mono ?_ hno
    rintro v ⟨j, e⟩ - hno rfl u hu
    exact hno ⟨rfl, u, hu⟩

/-- **The screens of a session stay out of reach after its log-out.** In any reachable
state the log-out is confirmed, whether `signOut` throws or not. It puts a login screen
on the stack, and in every state of every run from there, of all devices and with all
completions, no screen that was on the stack before is on top; and a private screen
is on top only when a sign-in or a registration of the device has completed with success
since the log-out. -/
theorem session_screens_unreachable {w w₁ w' : World} {i : ℕ} {text : String} {throws : Bool}
    {es : List (ℕ × Event)} (hw : app.Reachable w)
    (halert : (w.device i).alert = some MyProfileViewController.areYouSureToLogOut)
    (hout : app.step w (i, .alertOk text throws) = some w₁) (hr : app.run w₁ es = some w') :
    (∃ n, (w₁.device i).stack = n :: (w.device i).stack ∧
      (w₁.device i).screens[n]? = some .logIn) ∧
    (∀ id ∈ (w.device i).stack, ∀ v, (w'.device i).top ≠ some (id, v)) ∧
    ∀ id v, (w'.device i).top = some (id, v) → v.screen.isPrivate = true →
      ∃ before e after s, es = before ++ e :: after ∧ app.run w₁ before = some s ∧
        OpensSession i s e := by
  obtain ⟨hstack, hlogIn, hnone⟩ := step_logOut halert (app_step_eq_some.mp hout).1
  have hinv₁ := reachable_inv (hw.step hout)
  have hrests : ∀ p, (w₁.device i).RestsOn p (w.device i).vcs.length (w.device i).stack :=
    fun p => ⟨hlogIn, [], hstack, by simp⟩
  refine ⟨⟨_, hstack, hlogIn⟩, ?_, ?_⟩
  · intro id hid v ht
    have hinv' := reachable_inv ((hw.step hout).run hr)
    exact (run_restsOn hinv₁ (hrests _) hr).not_head (hinv' i).wf hid (top_eq_some.mp ht).1
  · intro id v ht hprivate
    -- without a session every screen above the login screen is public
    by_contra hnot
    have hno : app.Always (fun s e => ¬ OpensSession i s e) w₁ es := by
      refine (app.always_iff).mpr ?_
      rintro before e after s rfl hbefore hopens
      exact hnot ⟨before, e, after, s, rfl, hbefore, hopens⟩
    have hout₁ : (w₁.device i).LoggedOut (w.device i).vcs.length (w.device i).stack :=
      ⟨hrests _, by rw [hnone]; nofun⟩
    have hpublic := (run_loggedOut hinv₁ hout₁ hno hr).top_public (top_eq_some.mp ht).1
      (screen_of_top ht)
    rw [hprivate] at hpublic
    cases hpublic

/-- `ann` logs out; then somebody goes to the registration and back, and `bob` signs in. -/
def bobComesNext : List Event :=
  [.press .signUpBtnPressed, .press .alreadyBtnPressed, .typed (.logIn bob.email bob.password),
    .press .logInBtnPressed, .authCompleted 0 (.success bob.uid)]

theorem session_screens_unreachable_ann :
    ∃ w w₁ w', app.run (World.start ⟨[ann, bob], none⟩)
        (alone (annOpensProfile ++ [.press .logOutBtnPressed])) = some w ∧
      app.step w (0, .alertOk "" false) = some w₁ ∧ app.run w₁ (alone bobComesNext) = some w' ∧
      (w'.device 0).visibleScreen = some (5, .memories (some bob.uid)) ∧
      ∃ before e after s, alone bobComesNext = before ++ e :: after ∧
        app.run w₁ before = some s ∧ OpensSession 0 s e := by
  have h : ((app.run (World.start ⟨[ann, bob], none⟩)
      (alone (annOpensProfile ++ [.press .logOutBtnPressed]))).bind fun w =>
        (app.step w (0, .alertOk "" false)).bind fun w₁ =>
          (app.run w₁ (alone bobComesNext)).map fun w' =>
            ((w.device 0).alert, (w'.device 0).visibleScreen)) =
      some (some MyProfileViewController.areYouSureToLogOut,
        some (5, .memories (some bob.uid))) := by decide
  obtain ⟨w, hw, h⟩ := Option.bind_eq_some_iff.mp h
  obtain ⟨w₁, hw₁, h⟩ := Option.bind_eq_some_iff.mp h
  obtain ⟨w', hw', h⟩ := Option.map_eq_some_iff.mp h
  obtain ⟨halert, hscreen⟩ := Prod.mk.inj h
  obtain ⟨v, hv, hmemories⟩ := visibleScreen_eq_some.mp hscreen
  refine ⟨w, w₁, w', hw, hw₁, hw', hscreen, ?_⟩
  refine (session_screens_unreachable ⟨_, _, init_start _, hw⟩ halert hw₁ hw').2.2 5 v
    (top_of_visible hv) ?_
  rw [hmemories]
  rfl

end DailyDiary
