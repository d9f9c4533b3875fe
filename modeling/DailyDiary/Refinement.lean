/-
The device refines the navigation machine: every step of a device is a step of
`Nav` with the label `Device.label` gives it (`step_refines`).

The handlers are built from few operations, so the proof is too. `Silent` says
that an operation leaves the session, the stack, the alert and the classes of
all controllers as they are; all that remains are the calls of `presentAlert`,
`present` and `dismiss`, and for each of these there is one lemma.

A completion block runs long after the press that handed it to Firebase.
`WellFormed` keeps that it still belongs to a controller of the class that
issued it, whatever happened to that controller on the stack.
-/
import DailyDiary.Steps
import DailyDiary.Navigation

set_option autoImplicit false

namespace DailyDiary

open Screen

/-! ## The abstraction -/

/-- The screen a controller instance is. -/
def ViewController.screen : ViewController → Screen
  | .logIn _ => .logIn
  | .registration _ => .registration
  | .forgetPassword _ => .forgetPassword
  | .confirmPIN _ => .confirmPIN
  | .recreatePassword _ => .recreatePassword
  | .myMemories c => .memories (c.observer.map Observer.uid)
  | .addMemory _ => .addMemory
  | .showMemory _ => .showMemory
  | .myProfile _ => .myProfile
  | .changePassword _ => .changePassword
  | .imagePicker => .imagePicker

/-- The screen a controller is once it is loaded with `user` signed in. -/
def ViewController.loaded (user : Option Uid) : ViewController → Screen
  | .myMemories _ => .memories user
  | v => v.screen

/-- `viewDidLoad` unwraps the uid of the user. -/
def ViewController.readsSession : ViewController → Bool
  | .myMemories _ | .myProfile _ => true
  | _ => false

namespace Device

/-- The screens of all instances, by identity. -/
def screens (d : Device) : List Screen :=
  d.vcs.map ViewController.screen

/-- The navigation state of a device. -/
def nav (d : Device) : Nav where
  user := d.currentUser
  stack := d.stack.filterMap fun i => d.screens[i]?
  alert := d.alert.map Alert.action

/-- What an event means for the session. -/
def label (d : Device) : Event → Label
  | .authCompleted i (.success u) =>
    match d.auths[i]? with
    | some (.signIn ..) => .session u
    | some (.createUser ..) => .session u
    | _ => .ui
  | .authCompleted i .tokenInvalid =>
    match d.auths[i]? with
    | some (.updatePassword u _) => if d.currentUser = some u then .forcedOut else .ui
    | _ => .ui
  | .alertOk _ throws =>
    match d.alert.map Alert.action with
    | some .signOut => .logOut throws
    | _ => .ui
  | _ => .ui

end Device

/-! ## Well-formed devices -/

/-- The controller a request of Auth reports to is of the class that issues it. -/
def AuthCall.OwnedBy (screens : List Screen) : AuthCall → Prop
  | .signIn self _ _ => screens[self]? = some .logIn
  | .createUser self _ _ _ => screens[self]? = some .registration
  | .updatePassword _ _ => True

/-- The controller a completion block belongs to is of the class that issues it. -/
def Completion.OwnedBy (screens : List Screen) : Completion → Prop
  | .memorySaved self => screens[self]? = some .addMemory
  | .userName self => screens[self]? = some .myProfile
  | _ => True

private theorem getElem?_append_of_eq_some {α : Type} {l : List α} {i : ℕ} {a : α}
    (h : l[i]? = some a) (l' : List α) : (l ++ l')[i]? = some a := by
  obtain ⟨hi, _⟩ := List.getElem?_eq_some_iff.mp h
  rw [List.getElem?_append_left hi, h]

theorem AuthCall.OwnedBy.append {screens : List Screen} {c : AuthCall}
    (h : c.OwnedBy screens) (s : List Screen) : c.OwnedBy (screens ++ s) := by
  cases c <;> simp only [AuthCall.OwnedBy] at h ⊢ <;>
    exact getElem?_append_of_eq_some h s

theorem Completion.OwnedBy.append {screens : List Screen} {c : Completion}
    (h : c.OwnedBy screens) (s : List Screen) : c.OwnedBy (screens ++ s) := by
  cases c <;> simp only [Completion.OwnedBy] at h ⊢ <;>
    exact getElem?_append_of_eq_some h s

namespace Device

structure WellFormed (d : Device) : Prop where
  /-- the stack holds different instances, older ones below -/
  ids : (d.vcs.length :: d.stack).Pairwise (· > ·)
  auths : ∀ c ∈ d.auths, c.OwnedBy d.screens
  writes : ∀ w ∈ d.writes, w.completion.OwnedBy d.screens

theorem wellFormed_launch (user : Option Uid) : (launch user).WellFormed where
  ids := by simp [launch]
  auths := by simp [launch]
  writes := by simp [launch]

@[simp] theorem length_screens (d : Device) : d.screens.length = d.vcs.length := by
  simp [screens]

theorem screens_getElem? (d : Device) (i : VcId) :
    d.screens[i]? = d.vcs[i]?.map ViewController.screen := by
  simp [screens]

theorem exists_registration {d : Device} {i : VcId} (h : d.screens[i]? = some .registration) :
    ∃ c, d.vcs[i]? = some (.registration c) := by
  rw [screens_getElem?] at h
  obtain ⟨v, hv, hscreen⟩ := Option.map_eq_some_iff.mp h
  cases v with
  | registration c => exact ⟨c, hv⟩
  | _ => cases hscreen

theorem WellFormed.lt {d : Device} (h : d.WellFormed) {i : VcId} (hi : i ∈ d.stack) :
    i < d.vcs.length :=
  (List.pairwise_cons.mp h.ids).1 i hi

/-! ## Operations that are silent -/

/-- Nothing of the navigation state changes, and the requests added are owned. -/
structure Silent (d d' : Device) : Prop where
  fault : d'.fault = d.fault
  user : d'.currentUser = d.currentUser
  stack : d'.stack = d.stack
  alert : d'.alert = d.alert
  screens : d'.screens = d.screens
  auths : ∀ c ∈ d'.auths, c ∈ d.auths ∨ c.OwnedBy d.screens
  writes : ∀ w ∈ d'.writes, (∃ w' ∈ d.writes, w'.completion = w.completion) ∨
    w.completion.OwnedBy d.screens

namespace Silent

variable {d d' d'' : Device}

theorem of_requests (hf : d'.fault = d.fault) (hu : d'.currentUser = d.currentUser)
    (hs : d'.stack = d.stack) (ha : d'.alert = d.alert) (hv : d'.screens = d.screens)
    (hauths : ∀ c ∈ d'.auths, c ∈ d.auths) (hwrites : ∀ w ∈ d'.writes, w ∈ d.writes) :
    Silent d d' :=
  ⟨hf, hu, hs, ha, hv, fun c hc => Or.inl (hauths c hc),
    fun w hw => Or.inl ⟨w, hwrites w hw, rfl⟩⟩

theorem refl (d : Device) : Silent d d :=
  of_requests rfl rfl rfl rfl rfl (fun _ h => h) fun _ h => h

theorem trans (h : Silent d d') (h' : Silent d' d'') : Silent d d'' where
  fault := h'.fault.trans h.fault
  user := h'.user.trans h.user
  stack := h'.stack.trans h.stack
  alert := h'.alert.trans h.alert
  screens := h'.screens.trans h.screens
  auths := by
    intro c hc
    rcases h'.auths c hc with hc | hc
    · exact h.auths c hc
    · exact Or.inr (h.screens ▸ hc)
  writes := by
    intro w hw
    rcases h'.writes w hw with ⟨w', hw', heq⟩ | hw
    · rcases h.writes w' hw' with ⟨w'', hw'', heq'⟩ | hw'
      · exact Or.inl ⟨w'', hw'', heq'.trans heq⟩
      · exact Or.inr (heq ▸ hw')
    · exact Or.inr (h.screens ▸ hw)

theorem wellFormed (h : Silent d d') (hd : d.WellFormed) : d'.WellFormed where
  ids := by
    have hlen : d'.vcs.length = d.vcs.length := by
      rw [← length_screens, ← length_screens, h.screens]
    rw [hlen, h.stack]
    exact hd.ids
  auths := by
    intro c hc
    rw [h.screens]
    rcases h.auths c hc with hc | hc
    · exact hd.auths c hc
    · exact hc
  writes := by
    intro w hw
    rw [h.screens]
    rcases h.writes w hw with ⟨w', hw', heq⟩ | hw
    · exact heq ▸ hd.writes w' hw'
    · exact hw

theorem nav_eq (h : Silent d d') : d'.nav = d.nav := by
  simp only [nav, h.user, h.stack, h.alert, h.screens]

theorem onTop_iff (h : Silent d d') (i : VcId) : d'.onTop i ↔ d.onTop i := by
  rw [onTop, onTop, h.stack, h.alert]

end Silent

variable {d d₁ d' : Device} {self : VcId}

theorem silent_hudShow (d : Device) : Silent d d.hudShow :=
  .of_requests rfl rfl rfl rfl rfl (fun _ h => h) fun _ h => h

theorem silent_hudDismiss (d : Device) : Silent d d.hudDismiss :=
  .of_requests rfl rfl rfl rfl rfl (fun _ h => h) fun _ h => h

theorem silent_observeSingleEvent (ref : Ref) (handler : ReadHandler) (d : Device) :
    Silent d (d.observeSingleEvent ref handler) :=
  .of_requests rfl rfl rfl rfl rfl (fun _ h => h) fun _ h => h

theorem screen_refresh (view : Option Json) (v : ViewController) :
    (v.refresh view).screen = v.screen := by
  cases v with
  | myMemories c =>
    cases ho : c.observer <;>
      simp [ViewController.refresh, MyMemoriesViewController.refresh, ViewController.screen,
        Observer.refresh, ho]
  | _ => rfl

theorem screens_refresh (d : Device) : d.refresh.screens = d.screens := by
  simp [screens, refresh, screen_refresh]

theorem silent_receive (db : Option Json) (d : Device) : Silent d (d.receive db) :=
  .of_requests rfl rfl rfl rfl (screens_refresh _) (fun _ h => h) fun _ h => h

/-- Assigning the variables or outlets of a controller. -/
theorem silent_setVc {i : VcId} {v : ViewController} (h : d.screens[i]? = some v.screen) :
    Silent d (d.setVc i v) := by
  refine .of_requests rfl rfl rfl rfl ?_ (fun _ h => h) fun _ h => h
  rw [setVc, screens, List.map_set]
  obtain ⟨hi, heq⟩ := List.getElem?_eq_some_iff.mp h
  rw [← heq]
  exact List.set_getElem_self hi

theorem silent_request (call : AuthCall) (h : call.OwnedBy d.screens) :
    Silent d (d.request call) := by
  refine ⟨rfl, rfl, rfl, rfl, rfl, ?_, fun w hw => Or.inl ⟨w, hw, rfl⟩⟩
  intro c hc
  rcases List.mem_append.mp hc with hc | hc
  · exact Or.inl hc
  · exact Or.inr (List.mem_singleton.mp hc ▸ h)

theorem silent_setValue (ref : Ref) (value : Option Json) (completion : Completion)
    (h : completion.OwnedBy d.screens) : Silent d (d.setValue ref value completion) := by
  refine ⟨rfl, rfl, rfl, rfl, screens_refresh _, fun c hc => Or.inl hc, ?_⟩
  intro w hw
  rcases List.mem_append.mp hw with hw | hw
  · exact Or.inl ⟨w, hw, rfl⟩
  · exact Or.inr (List.mem_singleton.mp hw ▸ h)

theorem silent_viewWillAppear (i : VcId) (d : Device) : Silent d (d.viewWillAppear i) := by
  unfold viewWillAppear
  split
  · next c hc => exact silent_setVc (by rw [screens_getElem?, hc]; rfl)
  · exact Silent.refl d

/-- An alert presented by a controller that is covered is not shown. -/
theorem silent_presentAlert (h : ¬ d.onTop self) (a : Alert) :
    Silent d (d.presentAlert self a) :=
  .of_requests rfl rfl rfl (by simp [presentAlert, h]) rfl (fun _ h => h) fun _ h => h

/-- With an alert up, UIKit ignores another. -/
theorem presentAlert_alert_of_some {a b : Alert} (h : d.alert = some b) :
    (d.presentAlert self a).alert = some b := by
  have hoff : ¬ d.onTop self := by
    rintro ⟨-, hnone⟩
    rw [h] at hnone
    cases hnone
  rw [← h]
  exact if_neg hoff

theorem not_onTop_presentAlert (self : VcId) (a : Alert) (d : Device) :
    ¬ (d.presentAlert self a).onTop self := by
  rintro ⟨hs, ha⟩
  by_cases h : d.onTop self
  · simp [presentAlert, h] at ha
  · simp only [presentAlert, h, if_false] at hs ha
    exact h ⟨hs, ha⟩

/-! ## Looking at the top of the stack -/

theorem top_eq_some {v : ViewController} :
    d.top = some (self, v) ↔ d.stack.head? = some self ∧ d.vcs[self]? = some v := by
  rw [top, Option.bind_eq_some_iff]
  constructor
  · rintro ⟨i, hi, h⟩
    obtain ⟨v', hv, heq⟩ := Option.map_eq_some_iff.mp h
    obtain ⟨rfl, rfl⟩ := Prod.mk.inj heq
    exact ⟨hi, hv⟩
  · rintro ⟨hi, hv⟩
    exact ⟨self, hi, by rw [hv]; rfl⟩

theorem visible_eq_some {v : ViewController} :
    d.visible = some (self, v) ↔ d.onTop self ∧ d.vcs[self]? = some v := by
  unfold visible
  split
  · next ha => rw [top_eq_some, onTop, and_iff_left ha]
  · next ha => simp [onTop, ha]

/-- The screen on top of the navigation state is the one of the controller on top. -/
theorem nav_stack_of_head {s : Screen} (hi : d.stack.head? = some self)
    (hs : d.screens[self]? = some s) : ∃ rest, d.nav.stack = s :: rest := by
  obtain ⟨rest, hrest⟩ := List.head?_eq_some_iff.mp hi
  refine ⟨rest.filterMap fun i => d.screens[i]?, ?_⟩
  simp [nav, hrest, hs]

theorem top_of_visible {v : ViewController} (h : d.visible = some (self, v)) :
    d.top = some (self, v) := by
  obtain ⟨hon, hv⟩ := visible_eq_some.mp h
  exact top_eq_some.mpr ⟨hon.1, hv⟩

theorem screen_of_top {v : ViewController} (h : d.top = some (self, v)) :
    d.screens[self]? = some v.screen := by
  rw [screens_getElem?, (top_eq_some.mp h).2]
  rfl

theorem screen_of_visible {v : ViewController} (h : d.visible = some (self, v)) :
    d.screens[self]? = some v.screen :=
  screen_of_top (top_of_visible h)

/-- The screen the user can touch, with its identity. -/
def visibleScreen (d : Device) : Option (VcId × Screen) :=
  d.visible.map fun p => (p.1, p.2.screen)

theorem visibleScreen_eq_some {i : VcId} {s : Screen} :
    d.visibleScreen = some (i, s) ↔ ∃ v, d.visible = some (i, v) ∧ v.screen = s := by
  rw [visibleScreen, Option.map_eq_some_iff]
  constructor
  · rintro ⟨⟨j, v⟩, hv, heq⟩
    obtain ⟨rfl, rfl⟩ := Prod.mk.inj heq
    exact ⟨v, hv, rfl⟩
  · rintro ⟨v, hv, rfl⟩
    exact ⟨(i, v), hv, rfl⟩

theorem nav_of_visible {v : ViewController} (h : d.visible = some (self, v)) :
    d.nav = { d.nav with alert := none } := by
  have ha : d.alert = none := (visible_eq_some.mp h).1.2
  simp [nav, ha]

theorem nav_stack_of_visible {v : ViewController} (h : d.visible = some (self, v)) :
    ∃ rest, d.nav.stack = v.screen :: rest :=
  nav_stack_of_head (visible_eq_some.mp h).1.1 (screen_of_visible h)

theorem nav_stack_of_top {n : Nav} {v : ViewController} (hn : d.nav = { n with alert := none })
    (h : d.top = some (self, v)) : ∃ rest, n.stack = v.screen :: rest := by
  obtain ⟨rest, hrest⟩ := nav_stack_of_head (top_eq_some.mp h).1 (screen_of_top h)
  rw [hn] at hrest
  exact ⟨rest, hrest⟩

/-! ## The three calls that change the navigation state -/

/-- What a handler that started in the navigation state `n` may end in. A
handler that unwraps nobody's uid is one of a private screen or of an alert that
opens the list. -/
def Ends (n : Nav) (l : Label) : Result Device → Prop
  | .ok d' => d'.WellFormed ∧ d'.fault = none ∧ Nav.Step n l d'.nav
  | .error f => l = .ui ∧
    ((f = .indexOutOfRange ∨ f = .invalidPath) ∨ (f = .nilUser ∧ n.user = none ∧ n.Privileged))

theorem Ends.silent {n : Nav} {l : Label} (h : Ends n l (.ok d)) (hs : Silent d d') :
    Ends n l (.ok d') :=
  ⟨hs.wellFormed h.1, hs.fault.trans h.2.1, hs.nav_eq ▸ h.2.2⟩

/-- A device whose handlers are about to run: alive and well-formed. -/
structure Alive (d : Device) : Prop where
  wf : d.WellFormed
  fault : d.fault = none

theorem Alive.silent (h : d.Alive) (hs : Silent d d') : d'.Alive :=
  ⟨hs.wellFormed h.wf, hs.fault.trans h.fault⟩

theorem Alive.closeAlert (h : d.Alive) : { d with alert := none }.Alive :=
  ⟨⟨h.wf.ids, h.wf.auths, h.wf.writes⟩, h.fault⟩

theorem Alive.stay (h : d.Alive) : Ends d.nav .ui (.ok d) :=
  ⟨h.wf, h.fault, .stay d.nav⟩

theorem ends_of_silent (h : d.Alive) (hs : Silent d d') : Ends d.nav .ui (.ok d') :=
  h.stay.silent hs

/-- A handler of a private screen finds nobody signed in where it unwraps the
uid. -/
theorem ends_nilUser {n : Nav} {v : ViewController} (hn : d.nav = { n with alert := none })
    (ht : d.top = some (self, v)) (hprivate : v.screen.isPrivate = true)
    (hu : d.currentUser = none) : Ends n .ui (.error .nilUser) := by
  obtain ⟨rest, hrest⟩ := nav_stack_of_top hn ht
  have huser : d.nav.user = n.user := by rw [hn]
  exact ⟨rfl, Or.inr ⟨rfl, huser ▸ hu, Or.inl ⟨_, rest, hrest, hprivate⟩⟩⟩

theorem ends_presentAlert (h : d.Alive) {s : Screen} {a : Alert}
    (hs : d.screens[self]? = some s) (ha : Raises s a.action) :
    Ends d.nav .ui (.ok (d.presentAlert self a)) := by
  by_cases hon : d.onTop self
  · obtain ⟨rest, hstack⟩ := nav_stack_of_head hon.1 hs
    refine ⟨⟨h.wf.ids, h.wf.auths, h.wf.writes⟩, h.fault, ?_⟩
    have hnav : (d.presentAlert self a).nav = { d.nav with alert := some a.action } := by
      simp [nav, presentAlert, hon, screens]
    rw [hnav]
    exact .raise hstack (by simp [nav, hon.2]) ha
  · exact ends_of_silent h (silent_presentAlert hon a)

/-- Loading reads the session for the list and the profile. -/
theorem viewDidLoad_ok {v v' : ViewController} (h : d.viewDidLoad self v = .ok (v', d')) :
    v'.screen = v.loaded d.currentUser ∧ Loads d.currentUser v'.screen ∧ Silent d d' := by
  cases v with
  | myMemories c =>
    obtain ⟨c', hc, hrest⟩ := Result.bind_eq_ok.mp h
    obtain ⟨u, hu, hc'⟩ := Result.bind_eq_ok.mp hc
    rw [currentUid_eq_ok] at hu
    obtain rfl := Except.ok.inj hc'
    obtain ⟨rfl, rfl⟩ := Prod.mk.inj (Except.ok.inj hrest)
    rw [hu]
    exact ⟨rfl, ⟨rfl, Option.some_ne_none u⟩, Silent.refl d⟩
  | myProfile c =>
    obtain ⟨d₁, hd₁, hrest⟩ := Result.bind_eq_ok.mp h
    obtain ⟨u, hu, hread⟩ := Result.bind_eq_ok.mp hd₁
    rw [currentUid_eq_ok] at hu
    obtain rfl := Except.ok.inj hread
    obtain ⟨rfl, rfl⟩ := Prod.mk.inj (Except.ok.inj hrest)
    rw [hu]
    exact ⟨rfl, Option.some_ne_none u, silent_observeSingleEvent _ _ d⟩
  | _ =>
    simp only [viewDidLoad, Result.pure_eq_ok, Except.ok.injEq, Prod.mk.injEq] at h
    obtain ⟨rfl, rfl⟩ := h
    exact ⟨by simp only [ViewController.loaded, ViewController.screen],
      by simp only [ViewController.screen, Loads], Silent.refl d⟩

/-- Only the two screens that read the session fail to load, when there is none. -/
theorem viewDidLoad_error {v : ViewController} {f : Fault} (h : d.viewDidLoad self v = .error f) :
    v.readsSession = true ∧ d.currentUser = none ∧ f = .nilUser := by
  cases v with
  | myMemories c =>
    rcases Result.bind_eq_error.mp h with h | ⟨_, _, h⟩
    · rcases Result.bind_eq_error.mp h with h | ⟨_, _, h⟩
      · exact ⟨rfl, currentUid_eq_error.mp h⟩
      · cases h
    · cases h
  | myProfile c =>
    rcases Result.bind_eq_error.mp h with h | ⟨_, _, h⟩
    · rcases Result.bind_eq_error.mp h with h | ⟨_, _, h⟩
      · exact ⟨rfl, currentUid_eq_error.mp h⟩
      · cases h
    · cases h
  | _ => simp [viewDidLoad] at h

theorem screens_push (d : Device) (v : ViewController) :
    (d.push v).screens = d.screens ++ [v.screen] := by
  rw [push, screens_refresh]
  simp [screens]

theorem Alive.push (h : d.Alive) (v : ViewController) : (d.push v).Alive := by
  refine ⟨⟨?_, ?_, ?_⟩, h.fault⟩
  · -- the new instance has the next identity, above all that are on the stack
    have hids := h.wf.ids
    simp only [Device.push, refresh, List.length_map, List.length_append, List.length_singleton]
    refine List.pairwise_cons.mpr ⟨?_, hids⟩
    intro i hi
    rcases List.mem_cons.mp hi with rfl | hi
    · exact Nat.lt_succ_self _
    · exact Nat.lt_succ_of_lt (h.wf.lt hi)
  · intro c hc
    rw [screens_push]
    exact (h.wf.auths c hc).append _
  · intro w hw
    rw [screens_push]
    exact (h.wf.writes w hw).append _

theorem nav_push (h : d.WellFormed) (v : ViewController) :
    (d.push v).nav = { d.nav with stack := v.screen :: d.nav.stack } := by
  have hnew : (d.screens ++ [v.screen])[d.vcs.length]? = some v.screen := by
    simp [← length_screens]
  -- the identities already on the stack are those of older instances
  have hold : d.stack.filterMap (fun i => (d.screens ++ [v.screen])[i]?) =
      d.stack.filterMap fun i => d.screens[i]? := by
    refine List.filterMap_congr ?_
    intro i hi
    exact List.getElem?_append_left (by simpa using h.lt hi)
  have hstack : (d.push v).stack = d.vcs.length :: d.stack := rfl
  have hrest : (d.push v).currentUser = d.currentUser ∧ (d.push v).alert = d.alert := ⟨rfl, rfl⟩
  simp only [nav, screens_push, hstack, hrest.1, hrest.2, List.filterMap_cons, hnew, hold]

/-- `present` from a controller of the screen `t`, by a handler that started in
`n` and has closed the alert if there was one. -/
theorem ends_present {n : Nav} {t : Screen} {v : ViewController} (h : d.Alive)
    (hn : d.nav = { n with alert := none }) (hs : d.screens[self]? = some t)
    (hover : Over (v.loaded d.currentUser) t)
    (hp : v.readsSession = true → t.isPrivate = true ∨ n.alert = some .presentMemories) :
    Ends n .ui (d.present self v) := by
  have huser : d.nav.user = n.user := by rw [hn]
  have hstack : d.nav.stack = n.stack := by rw [hn]
  unfold present
  split
  · next hon =>
    obtain ⟨rest, hrest⟩ := nav_stack_of_head hon.1 hs
    rw [hstack] at hrest
    cases hload : d.viewDidLoad d.vcs.length v with
    | error f =>
      obtain ⟨hreads, hnone, hf⟩ := viewDidLoad_error hload
      refine ⟨rfl, Or.inr ⟨hf, huser ▸ hnone, ?_⟩⟩
      rcases hp hreads with hp | hp
      · exact Or.inl ⟨t, rest, hrest, hp⟩
      · exact Or.inr hp
    | ok r =>
      obtain ⟨v', d₁⟩ := r
      obtain ⟨hscreen, hloads, hsilent⟩ := viewDidLoad_ok hload
      have h₁ := h.silent hsilent
      refine ⟨(h₁.push v').wf, (h₁.push v').fault, ?_⟩
      have hnav : (d₁.push v').nav = { n with stack := v'.screen :: n.stack, alert := none } := by
        rw [nav_push h₁.wf, hsilent.nav_eq, hn]
      rw [hnav]
      exact .push hrest (hscreen ▸ hover) (huser ▸ hloads)
  · refine ⟨h.wf, h.fault, ?_⟩
    show Nav.Step n .ui d.nav
    rw [hn]
    exact .close n

/-- Dismissing a visible screen is a user step of the navigation machine, which pops it. The
login screen at the root is the one that cannot be dismissed. -/
theorem ends_dismiss {v : ViewController} (h : d.Alive) (hv : d.visible = some (self, v))
    (hne : v.screen ≠ .logIn) : Ends d.nav .ui (.ok d.dismiss) := by
  obtain ⟨hon, hv⟩ := visible_eq_some.mp hv
  unfold dismiss
  split
  · next i j rest hstack =>
    obtain rfl : i = self := by simpa [hstack] using hon.1
    have hlt : j < d.screens.length := by
      rw [length_screens]
      exact h.wf.lt (by simp [hstack])
    have hself : d.screens[i]? = some v.screen := by rw [screens_getElem?, hv]; rfl
    let d₁ : Device := { d with stack := j :: rest }
    have h₁ : d₁.Alive := by
      refine ⟨⟨?_, h.wf.auths, h.wf.writes⟩, h.fault⟩
      have hids := h.wf.ids
      rw [hstack] at hids
      exact hids.sublist (by simp [d₁])
    have hpop : Ends d.nav .ui (.ok d₁) := by
      refine ⟨h₁.wf, h₁.fault, ?_⟩
      have hnavstack : d.nav.stack =
          v.screen :: d.screens[j] :: rest.filterMap fun i => d.screens[i]? := by
        simp [nav, hstack, hself, List.getElem?_eq_getElem hlt]
      have hstep := Nav.Step.pop hnavstack hne (by simp [nav, hon.2])
      have hnav : d₁.nav =
          { d.nav with stack := d.screens[j] :: rest.filterMap fun i => d.screens[i]? } := by
        show Nav.mk _ _ _ = Nav.mk _ _ _
        congr 1
        show List.filterMap (fun i => d.screens[i]?) (j :: rest) = _
        rw [List.filterMap_cons, List.getElem?_eq_getElem hlt]
      rw [hnav]
      exact hstep
    exact hpop.silent (silent_viewWillAppear j d₁)
  · exact h.stay

/-! ## The buttons -/

/-- The variables and outlets of the controller are assigned, and it may present
an alert that its screen raises. -/
theorem ends_setVc_presentAlert {v v' : ViewController} {a : Alert} (h : d.Alive)
    (hv : d.screens[self]? = some v.screen) (hv' : v'.screen = v.screen)
    (ha : Raises v.screen a.action) :
    Ends d.nav .ui (.ok ((d.setVc self v').presentAlert self a)) := by
  have hs : Silent d (d.setVc self v') := silent_setVc (hv' ▸ hv)
  have hv₁ : (d.setVc self v').screens[self]? = some v.screen := by rw [hs.screens, hv]
  rw [← hs.nav_eq]
  exact ends_presentAlert (h.silent hs) hv₁ ha

theorem ends_press_present {t v : ViewController} (h : d.Alive) (hv : d.visible = some (self, t))
    (hover : Over (v.loaded d.currentUser) t.screen)
    (hp : v.readsSession = true → t.screen.isPrivate = true) :
    Ends d.nav .ui (d.present self v) :=
  ends_present h (nav_of_visible hv) (screen_of_visible hv) hover fun hr => Or.inl (hp hr)

theorem logInBtnPressed_ends {c : LogInViewController} (h : d.Alive)
    (hv : d.visible = some (self, .logIn c)) :
    Ends d.nav .ui (.ok (c.logInBtnPressed self d)) := by
  have hshow := silent_hudShow d
  have hs : d.hudShow.screens[self]? = some .logIn := screen_of_visible hv
  rw [← hshow.nav_eq]
  unfold LogInViewController.logInBtnPressed
  dsimp only
  split
  · exact ends_setVc_presentAlert (v := .logIn c) (h.silent hshow) hs rfl trivial
  · split
    · exact ends_setVc_presentAlert (v := .logIn c) (h.silent hshow) hs rfl trivial
    · have hset := silent_setVc (d := d.hudShow) (v := .logIn { c with
        email := c.userEmailTextField, password := c.userPasswordTextField }) hs
      refine ends_of_silent (h.silent hshow) (hset.trans (silent_request _ ?_))
      rw [AuthCall.OwnedBy, hset.screens, hs]

theorem registerBtnPressed_ends {c : RegistrationViewController} (h : d.Alive)
    (hv : d.visible = some (self, .registration c)) :
    Ends d.nav .ui (.ok (c.registerBtnPressed self d)) := by
  have hshow := silent_hudShow d
  have hs : d.hudShow.screens[self]? = some .registration := screen_of_visible hv
  rw [← hshow.nav_eq]
  unfold RegistrationViewController.registerBtnPressed
  dsimp only
  split
  · exact ends_setVc_presentAlert (v := .registration c) (h.silent hshow) hs rfl trivial
  · have hset := silent_setVc (d := d.hudShow) (v := .registration c.readFields) hs
    refine ends_of_silent (h.silent hshow) (hset.trans (silent_request _ ?_))
    rw [AuthCall.OwnedBy, hset.screens, hs]

theorem resetBtnPressed_ends {c : ForgetPasswordViewController} (h : d.Alive)
    (hv : d.visible = some (self, .forgetPassword c)) :
    Ends d.nav .ui (.ok (c.resetBtnPressed self d)) := by
  have hs := screen_of_visible hv
  unfold ForgetPasswordViewController.resetBtnPressed
  dsimp only
  split
  · -- the alert for the empty e-mail is up when the second one is presented
    refine Ends.silent ?_ (silent_presentAlert (not_onTop_presentAlert _ _ _) _)
    exact ends_setVc_presentAlert (v := .forgetPassword c) h hs rfl trivial
  · exact ends_setVc_presentAlert (v := .forgetPassword c) h hs rfl rfl

theorem confirmPinBtnPressed_ends {c : ConfirmPINViewController} (h : d.Alive)
    (hv : d.visible = some (self, .confirmPIN c)) :
    Ends d.nav .ui (c.confirmPinBtnPressed self d) := by
  have hs := screen_of_visible hv
  unfold ConfirmPINViewController.confirmPinBtnPressed
  dsimp only
  split
  · exact ends_setVc_presentAlert (v := .confirmPIN c) h hs rfl trivial
  · split
    · exact ends_setVc_presentAlert (v := .confirmPIN c) h hs rfl trivial
    · have hset := silent_setVc (d := d)
        (v := .confirmPIN { c with pinCode := c.userPINConfirmTextField }) hs
      refine ends_present (t := .confirmPIN) (h.silent hset) ?_ ?_ rfl nofun
      · rw [hset.nav_eq]
        exact nav_of_visible hv
      · rw [hset.screens, hs]
        rfl

theorem doneBtnPresed_ends {c : RecreatePasswordViewController} (h : d.Alive)
    (hv : d.visible = some (self, .recreatePassword c)) :
    Ends d.nav .ui (.ok (c.doneBtnPresed self d)) := by
  have hs := screen_of_visible hv
  unfold RecreatePasswordViewController.doneBtnPresed
  dsimp only
  split
  · exact ends_setVc_presentAlert (v := .recreatePassword c) h hs rfl trivial
  · split
    · exact ends_setVc_presentAlert (v := .recreatePassword c) h hs rfl trivial
    · exact ends_setVc_presentAlert (v := .recreatePassword c) h hs rfl rfl

theorem memoryDoneBtnPressed_ends {c : AddMemoryViewController} {draws : Draws} (h : d.Alive)
    (hv : d.visible = some (self, .addMemory c)) :
    Ends d.nav .ui (c.doneBtnPressed self draws d) := by
  have hs := screen_of_visible hv
  rcases AddMemoryViewController.doneBtnPressed_cases self draws c d with
    ⟨f, hstops, ⟨rfl, hu⟩ | rfl⟩ | ⟨c', u, -, -, -, hwrites⟩
  · rw [hstops]
    exact ends_nilUser (nav_of_visible hv) (top_of_visible hv) rfl hu
  · rw [hstops]
    exact ⟨rfl, Or.inl (Or.inr rfl)⟩
  · rw [hwrites]
    have hset : Silent d (d.hudShow.setVc self (.addMemory c')) :=
      (silent_hudShow d).trans (silent_setVc hs)
    refine ends_of_silent h (hset.trans (silent_setValue _ _ _ ?_))
    rw [Completion.OwnedBy, hset.screens, hs]
    rfl

/-- Done on the password screen alerts or reveals the hidden fields. Both are steps within
the same screen of the navigation machine. -/
theorem passwordDoneBtnPressed_ends {c : ChangePasswordViewController} (h : d.Alive)
    (hv : d.visible = some (self, .changePassword c)) :
    Ends d.nav .ui (c.doneBtnPressed self d) := by
  have hs := screen_of_visible hv
  unfold ChangePasswordViewController.doneBtnPressed
  cases hu : d.currentUser with
  | none =>
    simp only [currentUid_of_none hu, Result.error_bind]
    exact ends_nilUser (nav_of_visible hv) (top_of_visible hv) rfl hu
  | some u =>
    simp only [currentUid_of_some hu, Result.ok_bind]
    have hread := silent_observeSingleEvent (userRef u) (.password self) d
    rw [← hread.nav_eq]
    have h₁ := h.silent hread
    split
    · exact ends_presentAlert h₁ hs trivial
    · split
      · exact ends_setVc_presentAlert (v := .changePassword c) h₁ hs rfl trivial
      · have hset : Silent (d.observeSingleEvent (userRef u) (.password self)) _ := silent_setVc
          (v := .changePassword { c with oldPassword := c.oldPasswordTextField }) hs
        refine ends_of_silent h₁ (hset.trans (silent_setVc ?_))
        rw [hset.screens]
        exact hs

/-- Update stays on the password screen in all its branches: it alerts about the fields or
asks both stores for the change, and then presents its success alert. -/
theorem updateBtnPressed_ends {c : ChangePasswordViewController} (h : d.Alive)
    (hv : d.visible = some (self, .changePassword c)) :
    Ends d.nav .ui (c.updateBtnPressed self d) := by
  have hs := screen_of_visible hv
  unfold ChangePasswordViewController.updateBtnPressed
  dsimp only
  have hset : Silent d (d.hudShow.setVc self (.changePassword c.readFields)) :=
    (silent_hudShow d).trans (silent_setVc hs)
  have hs₁ : (d.hudShow.setVc self (.changePassword c.readFields)).screens[self]? =
      some .changePassword := by
    rw [hset.screens]
    exact hs
  split
  · next message _ =>
    -- a rejected form: the alert of the rejection hides the one of the success
    have hfirst := ends_presentAlert (h.silent hset) hs₁ (a := okAlert "Alert" message) trivial
    rw [hset.nav_eq] at hfirst
    refine hfirst.silent ((silent_hudDismiss _).trans (silent_presentAlert ?_ _))
    exact mt ((silent_hudDismiss _).onTop_iff self).mp (not_onTop_presentAlert _ _ _)
  · cases hu : d.currentUser with
    | none =>
      rw [ChangePasswordViewController.updateStores_of_none (by exact hu), Result.error_bind]
      exact ends_nilUser (nav_of_visible hv) (top_of_visible hv) rfl hu
    | some u =>
      rw [ChangePasswordViewController.updateStores_of_some (by exact hu), Result.ok_bind]
      have hreq := hset.trans
        (silent_request (.updatePassword u c.readFields.newpassword) trivial)
      have hall := (hreq.trans (silent_setValue (userFieldRef u "password")
        (some (.leaf c.readFields.newpassword)) .password trivial)).trans (silent_hudDismiss _)
      rw [← hall.nav_eq]
      refine ends_presentAlert (h.silent hall) ?_ rfl
      rw [hall.screens]
      exact hs

theorem didSelectRowAt_ends {c : MyMemoriesViewController} {row : ℕ} (h : d.Alive)
    (hv : d.visible = some (self, .myMemories c)) :
    Ends d.nav .ui (c.didSelectRowAt self row d) := by
  unfold MyMemoriesViewController.didSelectRowAt
  split
  · exact ends_press_present h hv ⟨_, rfl⟩ nofun
  · exact ⟨rfl, Or.inl (Or.inl rfl)⟩

/-- Every button. -/
theorem press_ends {b : Button} {r : Result Device} (h : d.Alive) (hr : d.press b = some r) :
    Ends d.nav .ui r := by
  cases presses_of_press hr with
  | logIn hv => exact logInBtnPressed_ends h hv
  | forgetPassword hv => exact ends_press_present h hv rfl nofun
  | signUp hv => exact ends_press_present h hv rfl nofun
  | register hv => exact registerBtnPressed_ends h hv
  | already hv => exact ends_dismiss h hv nofun
  | reset hv => exact resetBtnPressed_ends h hv
  | forgetPasswordBack hv => exact ends_dismiss h hv nofun
  | confirmPin hv => exact confirmPinBtnPressed_ends h hv
  | resend hv => exact ends_presentAlert h (screen_of_visible hv) trivial
  | recreateDone hv => exact doneBtnPresed_ends h hv
  | addMemories hv => exact ends_press_present h hv (Or.inl ⟨_, rfl⟩) nofun
  | myProfilePage hv => exact ends_press_present h hv (Or.inl ⟨_, rfl⟩) fun _ => rfl
  | didSelectRow hv hrow => exact didSelectRowAt_ends h hv
  | showMemoryBack hv => exact ends_dismiss h hv nofun
  | delete hv => exact ends_presentAlert h (screen_of_visible hv) rfl
  | edit hv => exact ends_press_present h hv (Or.inr rfl) nofun
  | memoryDone hv => exact memoryDoneBtnPressed_ends h hv
  | cancel hv => exact ends_press_present h hv (Or.inr (Or.inr (Or.inr rfl))) fun _ => rfl
  | myProfileBack hv => exact ends_dismiss h hv nofun
  | updateUserName hv => exact ends_presentAlert h (screen_of_visible hv) rfl
  | updatePassword hv => exact ends_press_present h hv rfl nofun
  | logOut hv => exact ends_presentAlert h (screen_of_visible hv) rfl
  | tapGesture hv => exact ends_presentAlert h (screen_of_visible hv) rfl
  | imagePickerFinished hv => exact ends_dismiss h hv nofun
  | changePasswordBack hv => exact ends_dismiss h hv nofun
  | passwordDone hv hshown => exact passwordDoneBtnPressed_ends h hv
  | update hv hshown => exact updateBtnPressed_ends h hv

/-! ## Typing, and the actions of alerts -/

theorem Typing.apply_screen {t : Typing} {v v' : ViewController} (h : t.apply v = some v') :
    v'.screen = v.screen := by
  unfold Typing.apply at h
  split at h <;> try cases h
  all_goals first
    | rfl
    | (split at h <;> cases h; rfl)

theorem typed_ends {t : Typing} (h : d.Alive) (ht : d.typed t = some d') :
    Ends d.nav .ui (.ok d') := by
  obtain ⟨self, v, v', hv, hv', rfl⟩ := typed_eq_some.mp ht
  refine ends_of_silent h (silent_setVc ?_)
  rw [Typing.apply_screen hv']
  exact screen_of_visible hv

theorem deleteConfirmed_ends {c : ShowMemoryViewController} {n : Nav} (h : d.Alive)
    (hn : d.nav = { n with alert := none }) (ht : d.top = some (self, .showMemory c)) :
    Ends n .ui (c.deleteConfirmed self d) := by
  have hs : d.screens[self]? = some .showMemory := screen_of_top ht
  rcases ShowMemoryViewController.deleteConfirmed_cases self c d with
    ⟨f, hstops, ⟨rfl, hu⟩ | rfl⟩ | ⟨u, -, -, hwrites⟩
  · rw [hstops]
    exact ends_nilUser hn ht rfl hu
  · rw [hstops]
    exact ⟨rfl, Or.inl (Or.inr rfl)⟩
  · rw [hwrites]
    have hset := silent_setValue (d := d) ((memoryRef u).childFromString c.memoryID) none .none
      trivial
    refine ends_present (t := .showMemory) (h.silent hset) ?_ ?_ (Or.inr (Or.inr (Or.inl rfl)))
      fun _ => Or.inl rfl
    · rw [hset.nav_eq, hn]
    · rw [hset.screens, hs]

theorem userNameEntered_ends {c : MyProfileViewController} {text : String} {n : Nav} (h : d.Alive)
    (hn : d.nav = { n with alert := none }) (ht : d.top = some (self, .myProfile c)) :
    Ends n .ui (MyProfileViewController.userNameEntered self text d) := by
  have hs : d.screens[self]? = some .myProfile := screen_of_top ht
  cases hu : d.currentUser with
  | none =>
    rw [MyProfileViewController.userNameEntered_of_none hu]
    exact ends_nilUser hn ht rfl hu
  | some u =>
    rw [MyProfileViewController.userNameEntered_of_some hu]
    have hset := silent_setValue (d := d) (userFieldRef u "userName") (some (.leaf text))
      (.userName self) hs
    refine ⟨(h.silent hset).wf, (h.silent hset).fault, ?_⟩
    rw [hset.nav_eq, hn]
    exact .close n

/-- The log-out action ends on a login screen, whatever `signOut` did. -/
theorem logOutConfirmed_ends {c : MyProfileViewController} {throws : Bool} {n : Nav} (h : d.Alive)
    (hn : d.nav = { n with alert := none }) (ha : d.alert = none)
    (hsign : n.alert = some .signOut) (ht : d.top = some (self, .myProfile c)) :
    Ends n (.logOut throws) (MyProfileViewController.logOutConfirmed self throws d) := by
  obtain ⟨rest, hrest⟩ := nav_stack_of_top hn ht
  have huser : d.nav.user = n.user := by rw [hn]
  have hstack : d.nav.stack = n.stack := by rw [hn]
  let d₁ : Device := { d with currentUser := if throws then d.currentUser else none, hud := false }
  have h₁ : d₁.Alive := ⟨⟨h.wf.ids, h.wf.auths, h.wf.writes⟩, h.fault⟩
  have heq : MyProfileViewController.logOutConfirmed self throws d = .ok (d₁.push (.logIn {})) := by
    have hon : d₁.onTop self := ⟨(top_eq_some.mp ht).1, ha⟩
    cases throws
    · exact if_pos hon
    · exact if_pos hon
  rw [heq]
  refine ⟨(h₁.push _).wf, (h₁.push _).fault, ?_⟩
  have hnav : (d₁.push (.logIn {})).nav =
      { user := if throws then n.user else none, stack := .logIn :: n.stack, alert := none } := by
    have hstack₁ : d₁.nav.stack = n.stack := hstack
    have hrest₁ : d₁.nav.alert = none ∧ d₁.nav.user = if throws then n.user else none :=
      ⟨by simp [nav, d₁, ha], by rw [← huser]; rfl⟩
    rw [nav_push h₁.wf, hstack₁]
    dsimp only
    rw [hrest₁.1, hrest₁.2]
    rfl
  rw [hnav]
  exact .logOut throws hrest hsign

theorem ends_top_present {n : Nav} {t v : ViewController} (h : d.Alive)
    (hn : d.nav = { n with alert := none }) (ht : d.top = some (self, t))
    (hover : Over (v.loaded d.currentUser) t.screen)
    (hp : v.readsSession = true → t.screen.isPrivate = true ∨ n.alert = some .presentMemories) :
    Ends n .ui (d.present self v) :=
  ends_present h hn (screen_of_top ht) hover hp

/-- The actions of alerts: which screen is below is known from the invariant. -/
theorem perform_ends {act : AlertAction} {text : String} {throws : Bool} {r : Result Device}
    {n : Nav} (h : d.Alive) (hn : d.nav = { n with alert := none }) (ha : d.alert = none)
    (hi : n.Inv) (hact : n.alert = some act) (hr : d.perform act text throws = some r) :
    Ends n (if act = .signOut then .logOut throws else .ui) r := by
  obtain ⟨s, rest, hs, hraises⟩ := hi.alert act hact
  have htop : ∀ {i v}, d.top = some (i, v) → v.screen = s := by
    intro i v ht
    obtain ⟨rest', hrest'⟩ := nav_stack_of_top hn ht
    rw [hs] at hrest'
    exact (List.cons.inj hrest').1.symm
  cases performs_of_perform hr with
  | dismissOnly =>
    refine ⟨h.wf, h.fault, ?_⟩
    rw [hn]
    exact .close n
  | deleteMemory ht => exact deleteConfirmed_ends h hn ht
  | setUserName ht => exact userNameEntered_ends h hn ht
  | signOut ht => exact logOutConfirmed_ends h hn ha hact ht
  | openGallary ht => exact ends_top_present h hn ht rfl nofun
  | presentMemories ht =>
    -- a saved memory or a completed registration
    refine ends_top_present (h.silent (silent_hudDismiss d)) hn ht ?_ fun _ => Or.inr hact
    rw [htop ht]
    rcases hraises with hs | ⟨hs, _⟩
    · exact hs ▸ Or.inr (Or.inr (Or.inr rfl))
    · exact hs ▸ Or.inr (Or.inl rfl)
  | presentMyProfile ht =>
    have hscreen := (htop ht).trans (hraises.resolve_right nofun)
    refine ends_top_present h hn ht (hscreen ▸ Or.inr rfl) fun _ => Or.inl ?_
    rw [hscreen]
    rfl
  | presentConfirmPIN ht =>
    have hscreen := (htop ht).trans (hraises.resolve_right nofun)
    exact ends_top_present h hn ht hscreen nofun
  | presentLogIn ht =>
    have hscreen := (htop ht).trans (hraises.resolve_right nofun)
    exact ends_top_present h hn ht (Or.inr hscreen) nofun

/-- OK on an alert. -/
theorem alertOk_ends {text : String} {throws : Bool} {r : Result Device} (h : d.Alive)
    (hi : d.nav.Inv) (hr : d.alertOk text throws = some r) :
    Ends d.nav (d.label (.alertOk text throws)) r := by
  obtain ⟨a, ha, hr⟩ := alertOk_eq_some.mp hr
  have haction : d.nav.alert = some a.action := by simp [nav, ha]
  have hlabel : d.label (.alertOk text throws) =
      if a.action = .signOut then .logOut throws else .ui := by
    cases hact : a.action <;> simp [label, ha, hact]
  rw [hlabel]
  exact perform_ends h.closeAlert rfl rfl hi haction hr

/-! ## Completions -/

theorem silent_eraseAuth (i : ℕ) (d : Device) :
    Silent d { d with auths := d.auths.eraseIdx i } :=
  .of_requests rfl rfl rfl rfl rfl (fun _ h => List.mem_of_mem_eraseIdx h) fun _ h => h

theorem Alive.setUser (h : d.Alive) (user : Option Uid) :
    { d with currentUser := user }.Alive :=
  ⟨⟨h.wf.ids, h.wf.auths, h.wf.writes⟩, h.fault⟩

/-- A sign-in that succeeds for `u` opens the list of `u`, when its login screen
is still on top. -/
theorem signInCompleted_ends (h : d.Alive) (u : Uid) (hs : d.screens[self]? = some .logIn) :
    Ends d.nav (.session u)
      (LogInViewController.signInCompleted self false { d with currentUser := some u }) := by
  let d₁ : Device := { d with currentUser := some u, hud := false }
  have h₁ : d₁.Alive := (h.setUser (some u)).silent (silent_hudDismiss _)
  show Ends d.nav (.session u) (d₁.present self (.myMemories {}))
  unfold present
  split
  · next hon =>
    obtain ⟨rest, hrest⟩ := nav_stack_of_head hon.1 hs
    cases hload : d₁.viewDidLoad d₁.vcs.length (.myMemories {}) with
    | error f => exact absurd (viewDidLoad_error hload).2.1 (Option.some_ne_none u)
    | ok r =>
      obtain ⟨v', d₂⟩ := r
      obtain ⟨hscreen, -, hsilent⟩ := viewDidLoad_ok hload
      have h₂ := h₁.silent hsilent
      refine ⟨(h₂.push v').wf, (h₂.push v').fault, ?_⟩
      have hnav : (d₂.push v').nav =
          { d.nav with user := some u, stack := .memories (some u) :: d.nav.stack } := by
        rw [nav_push h₂.wf, hsilent.nav_eq, hscreen]
        rfl
      rw [hnav]
      exact .signIn u hrest (by simpa [nav] using hon.2)
  · exact ⟨h₁.wf, h₁.fault, .session d.nav u⟩

/-- A registration that succeeds for `u` congratulates, when its screen is still
on top, and writes the row. -/
theorem createUserCompleted_ends (h : d.Alive) (u : Uid)
    (hs : d.screens[self]? = some .registration) :
    Ends d.nav (.session u)
      (RegistrationViewController.createUserCompleted self false
        { d with currentUser := some u }) := by
  let d₁ : Device := { d with currentUser := some u }
  let d₂ := d₁.presentAlert self RegistrationViewController.congratulations
  have h₁ : d₁.Alive := h.setUser (some u)
  have h₂ : Ends d.nav (.session u) (.ok d₂) := by
    by_cases hon : d₁.onTop self
    · obtain ⟨rest, hrest⟩ := nav_stack_of_head hon.1 hs
      refine ⟨⟨h₁.wf.ids, h₁.wf.auths, h₁.wf.writes⟩, h₁.fault, ?_⟩
      have hnav : d₂.nav =
          { d.nav with user := some u, alert := some .presentMemories } := by
        simp [nav, d₂, presentAlert, hon, screens, d₁, RegistrationViewController.congratulations]
      rw [hnav]
      exact .register u hrest (by simpa [nav] using hon.2)
    · have hsilent := silent_presentAlert hon RegistrationViewController.congratulations
      exact Ends.silent ⟨h₁.wf, h₁.fault, .session d.nav u⟩ hsilent
  rcases RegistrationViewController.createUserCompleted_of_some (d := d₁) rfl with
    ⟨c, -, heq⟩ | ⟨-, heq⟩
  · rw [heq]
    exact h₂.silent (silent_setValue _ _ .userRow trivial)
  · rw [heq]
    exact h₂

/-- Auth takes the user away, if it is still the one whose token was refused. -/
theorem signOutByForce_ends (h : d.Alive) (u : Uid) :
    Ends d.nav (if d.currentUser = some u then .forcedOut else .ui) (.ok (d.signOutByForce u)) := by
  unfold signOutByForce
  split
  · exact ⟨⟨h.wf.ids, h.wf.auths, h.wf.writes⟩, h.fault, .forcedOut d.nav⟩
  · exact h.stay

/-- A request of Auth completes. The controller that made it is of the class that issues
such a request, which is where its block presents a screen or an alert. -/
theorem completeAuth_ends {srv srv' : Server} {i : ℕ} {reply : AuthReply} {r : Result Device}
    (h : d.Alive) (hr : completeAuth srv d i reply = some (srv', r)) :
    Ends d.nav (d.label (.authCompleted i reply)) r := by
  obtain ⟨call, hcall, hanswer, rfl⟩ := completeAuth_eq_some.mp hr
  have herase := silent_eraseAuth i d
  have h₁ := h.silent herase
  have howned := h.wf.auths call (List.mem_of_getElem? hcall)
  rw [← herase.nav_eq]
  cases call with
  | signIn self email password =>
    cases reply with
    | failure =>
      have halert := ends_presentAlert h₁ howned
        (a := okAlert "Alert" "Wrong  email or passwoed") trivial
      exact halert.silent (silent_hudDismiss _)
    | tokenInvalid => cases hanswer
    | success u =>
      rw [label, hcall]
      exact signInCompleted_ends h₁ u howned
  | createUser self email password name =>
    cases reply with
    | failure => exact h₁.stay
    | tokenInvalid => cases hanswer
    | success u =>
      rw [label, hcall]
      exact createUserCompleted_ends h₁ u howned
  | updatePassword v password =>
    cases reply with
    | failure => exact h₁.stay
    | tokenInvalid =>
      rw [label, hcall]
      exact signOutByForce_ends h₁ v
    | success u =>
      rw [label, hcall]
      exact h₁.stay

theorem silent_eraseWrite (i : ℕ) (db : Option Json) (d : Device) :
    Silent d ({ d with writes := d.writes.eraseIdx i }.receive db) :=
  .of_requests rfl rfl rfl rfl (screens_refresh _) (fun _ h => h)
    fun _ h => List.mem_of_mem_eraseIdx h

/-- The acknowledgement of an accepted user name while nobody is signed in. -/
theorem completeWrite_of_none {srv : Server} {i : ℕ} {w : Write} (hu : d.currentUser = none)
    (hw : d.writes[i]? = some w) (hcompletion : w.completion = .userName self)
    (hverdict : w.verdict = some true) :
    completeWrite srv d i = some (.error .nilUser) := by
  have hload : ({ d with writes := d.writes.eraseIdx i }.receive srv.db).getUserNameFromDatabase
      self = .error .nilUser := getUserNameFromDatabase_of_none hu
  simp only [completeWrite, hw, hverdict, hcompletion, Option.bind_eq_bind, Option.bind_some]
  exact congrArg some hload

/-- The acknowledgement of a write is the only completion that can find nobody
signed in where it unwraps the uid: the one of a user name. -/
theorem completeWrite_ends {srv : Server} {i : ℕ} {r : Result Device} (h : d.Alive)
    (hr : completeWrite srv d i = some r) :
    Ends d.nav .ui r ∨ (r = .error .nilUser ∧ d.currentUser = none ∧ ∃ w self,
      d.writes[i]? = some w ∧ w.completion = .userName self ∧ w.verdict = some true) := by
  obtain ⟨w, accepted, hw, hverdict, rfl⟩ := completeWrite_eq_some.mp hr
  have herase := silent_eraseWrite i srv.db d
  have h₁ := h.silent herase
  have howned := h.wf.writes w (List.mem_of_getElem? hw)
  rw [← herase.nav_eq]
  cases hcompletion : w.completion with
  | none => exact Or.inl h₁.stay
  | userRow => exact Or.inl h₁.stay
  | password => exact Or.inl h₁.stay
  | memorySaved self =>
    rw [hcompletion] at howned
    refine Or.inl ?_
    cases accepted with
    | false => exact h₁.stay
    | true => exact ends_presentAlert h₁ (herase.screens ▸ howned) rfl
  | userName self =>
    cases accepted with
    | false => exact Or.inl h₁.stay
    | true =>
      rcases Option.eq_none_or_eq_some d.currentUser with hu | ⟨u, hu⟩
      · refine Or.inr ⟨?_, hu, w, self, hw, hcompletion, hverdict⟩
        have heq := Option.some.inj
          (hr.symm.trans (completeWrite_of_none hu hw hcompletion hverdict))
        rwa [hcompletion] at heq
      · refine Or.inl ?_
        show Ends _ .ui (Device.getUserNameFromDatabase self _)
        rw [getUserNameFromDatabase_of_some (herase.user.trans hu)]
        exact ends_of_silent h₁ (silent_observeSingleEvent _ _ _)

theorem silent_readCompleted (handler : ReadHandler) (snapshot : Option Json) (d : Device) :
    Silent d (d.readCompleted handler snapshot) := by
  cases handler with
  | userName self =>
    simp only [readCompleted, MyProfileViewController.userNameRead]
    split
    · next c hc => exact silent_setVc (by rw [screens_getElem?, hc]; rfl)
    · exact Silent.refl d
  | password self =>
    simp only [readCompleted, ChangePasswordViewController.passwordRead]
    split
    · next c hc => exact silent_setVc (by rw [screens_getElem?, hc]; rfl)
    · exact Silent.refl d

theorem silent_answerRead {srv : Server} {i : ℕ} (h : answerRead srv d i = some d') :
    Silent d d' := by
  unfold answerRead at h
  split at h
  · split at h
    · obtain rfl := Option.some.inj h
      exact .of_requests rfl rfl rfl rfl rfl (fun _ h => h) fun _ h => h
    · cases h
  · cases h

theorem silent_completeRead {i : ℕ} (h : completeRead d i = some d') : Silent d d' := by
  obtain ⟨r, snapshot, -, -, rfl⟩ := completeRead_eq_some.mp h
  refine Silent.trans ?_ (silent_readCompleted r.handler snapshot _)
  exact .of_requests rfl rfl rfl rfl rfl (fun _ h => h) fun _ h => h

theorem silent_decideWrite {srv srv' : Server} {i : ℕ} {accepted : Bool}
    (h : decideWrite srv d i accepted = some (srv', d')) : Silent d d' := by
  obtain ⟨w, hw, -, -, rfl⟩ := decideWrite_eq_some.mp h
  refine ⟨rfl, rfl, rfl, rfl, rfl, fun c hc => Or.inl hc, ?_⟩
  intro w' hw'
  rcases List.mem_or_eq_of_mem_set hw' with hw' | rfl
  · exact Or.inl ⟨w', hw', rfl⟩
  · exact Or.inl ⟨w, List.mem_of_getElem? hw, rfl⟩

/-! ## Every step of a device -/

/-- The event is the acknowledgement of an accepted user-name write. -/
def AcknowledgesUserName (d : Device) : Event → Prop
  | .writeCompleted i => ∃ w self,
    d.writes[i]? = some w ∧ w.completion = .userName self ∧ w.verdict = some true
  | _ => False

/-- The ways a step can stop a device that keeps the navigation invariant. Nobody is
signed in on a private screen after a forced sign-out only. -/
inductive Stops (d : Device) : Event → Fault → Prop where
  | index (e : Event) : Stops d e .indexOutOfRange
  | path (e : Event) : Stops d e .invalidPath
  | privileged (e : Event) (hu : d.currentUser = none) (hp : d.nav.Privileged) :
      Stops d e .nilUser
  | acknowledgement {e : Event} (hu : d.currentUser = none) (hack : d.AcknowledgesUserName e) :
      Stops d e .nilUser
  | snapshot {i j : ℕ} {c : MyMemoriesViewController} {o : Observer} {key : String}
      {snapshot : Json} {f : Fault} (hc : d.vcs[i]? = some (.myMemories c))
      (ho : c.observer = some o) (hq : o.queue[j]? = some (key, snapshot))
      (hf : Memory.ofSnapshot snapshot = .error f) : Stops d (.childAdded i j) f

/-- What a step is for the navigation machine, and why it stops the app. -/
structure Refines (d : Device) (e : Event) (d' : Device) : Prop where
  wf : d'.WellFormed
  step : Nav.Step d.nav (d.label e) d'.nav
  fault : ∀ f, d'.fault = some f → d.Stops e f

/-- A result that ends in a step of the navigation machine refines it, also when the app has
stopped: a stopped device keeps the screens of its last living state. -/
theorem Ends.refines {e : Event} {r : Result Device} (h : d.Alive)
    (hr : Ends d.nav (d.label e) r) : Refines d e (d.settle r) := by
  cases r with
  | ok d' =>
    obtain ⟨hwf, hfault, hstep⟩ := hr
    refine ⟨hwf, hstep, ?_⟩
    intro f hf
    rw [settle, hfault] at hf
    cases hf
  | error g =>
    obtain ⟨hlabel, hg⟩ := hr
    refine ⟨⟨h.wf.ids, h.wf.auths, h.wf.writes⟩, ?_, ?_⟩
    · rw [hlabel]
      exact .stay d.nav
    · intro f hf
      obtain rfl := Option.some.inj hf
      rcases hg with (rfl | rfl) | ⟨rfl, hnone, hp⟩
      · exact .index e
      · exact .path e
      · exact .privileged e hnone hp

/-- A stop with nothing else. -/
theorem refines_error {e : Event} {f : Fault} (h : d.Alive) (hlabel : d.label e = .ui)
    (hf : d.Stops e f) : Refines d e (d.settle (.error f)) := by
  refine ⟨⟨h.wf.ids, h.wf.auths, h.wf.writes⟩, ?_, ?_⟩
  · rw [hlabel]
    exact .stay d.nav
  · intro g hg
    obtain rfl := Option.some.inj hg
    exact hf

theorem childAdded_refines {i j : ℕ} {r : Result Device} (h : d.Alive)
    (hr : d.childAdded i j = some r) : Refines d (.childAdded i j) (d.settle r) := by
  obtain ⟨c, o, key, snapshot, hc, ho, hq, rfl⟩ := childAdded_eq_some.mp hr
  unfold MyMemoriesViewController.childAdded
  cases hm : Memory.ofSnapshot snapshot with
  | error f => exact refines_error h rfl (.snapshot hc ho hq hm)
  | ok m =>
    refine Ends.refines h (ends_of_silent h (silent_setVc ?_))
    rw [screens_getElem?, hc]
    simp [ViewController.screen, MyMemoriesViewController.reloadData, ho]

theorem Silent.refines {e : Event} (hs : Silent d d') (h : d.Alive)
    (hlabel : d.label e = .ui) : Refines d e d' := by
  refine Ends.refines h (r := .ok d') ?_
  rw [hlabel]
  exact ends_of_silent h hs

end Device

open Device

/-- **A device step is a step of the navigation machine.** -/
theorem step_refines {srv srv' : Server} {d d' : Device} {e : Event} (hd : d.WellFormed)
    (hi : d.nav.Inv) (h : step srv d e = some (srv', d')) : d.Refines e d' := by
  have ha : d.Alive := ⟨hd, fault_of_step h⟩
  cases steps_of_step h with
  | typed ht => exact Ends.refines ha (r := .ok d') (typed_ends ha ht)
  | press hr => exact Ends.refines ha (press_ends ha hr)
  | alertOk hr => exact Ends.refines ha (alertOk_ends ha hi hr)
  | alertCancel hcancel =>
    obtain ⟨-, rfl⟩ := alertCancel_eq_some.mp hcancel
    have hclose := ha.closeAlert
    exact Ends.refines ha (r := .ok _) ⟨hclose.wf, hclose.fault, .close d.nav⟩
  | authCompleted hr => exact Ends.refines ha (completeAuth_ends ha hr)
  | writeDecided hw => exact (silent_decideWrite hw).refines ha rfl
  | writeCompleted hr =>
    -- the block of the user name reads the uid whatever is on the screen
    rcases completeWrite_ends ha hr with hends | ⟨rfl, hnone, hack⟩
    · exact Ends.refines ha hends
    · exact refines_error ha rfl (.acknowledgement hnone hack)
  | serverPush => exact (silent_receive srv.db d).refines ha rfl
  | readAnswered hr => exact (silent_answerRead hr).refines ha rfl
  | readCompleted hr => exact (silent_completeRead hr).refines ha rfl
  | childAdded hr => exact childAdded_refines ha hr

/-- Who is signed in after a step. -/
theorem Device.Refines.user_eq {d d' : Device} {e : Event} (h : d.Refines e d') :
    d'.currentUser = (d.label e).after d.currentUser :=
  h.step.user_eq

/-- What every device satisfies in every reachable world. -/
structure Device.Inv (d : Device) : Prop where
  wf : d.WellFormed
  nav : d.nav.Inv

theorem Device.inv_launch (user : Option Uid) : (launch user).Inv :=
  ⟨wellFormed_launch user, Nav.inv_launch user⟩

theorem Device.Inv.step {srv srv' : Server} {d d' : Device} {e : Event} (hd : d.Inv)
    (h : DailyDiary.step srv d e = some (srv', d')) : d'.Inv :=
  have hr := step_refines hd.wf hd.nav h
  ⟨hr.wf, hd.nav.step hr.step⟩

theorem app_step_eq_some {w w' : World} {i : ℕ} {e : Event} :
    app.step w (i, e) = some w' ↔
      step w.server (w.device i) e = some (w'.server, w'.device i) ∧
        ∀ j, j ≠ i → w'.device j = w.device j :=
  Transition.interleave_eq_some

/-- What every step of a device keeps is kept on it by every run. -/
theorem run_device {Q : Device → Prop}
    (hstep : ∀ srv d e srv' d', Q d → step srv d e = some (srv', d') → Q d')
    {w w' : World} {es : List (ℕ × Event)} {i : ℕ} (hi : Q (w.device i))
    (hr : app.run w es = some w') : Q (w'.device i) :=
  app.run_invariant' (P := fun v => Q (v.device i))
    (fun _ _ _ hv hs => Transition.interleave_part hstep hv hs) hi hr

theorem app_step_inv {w w' : World} {e : ℕ × Event} (hw : ∀ i, (w.device i).Inv)
    (h : app.step w e = some w') : ∀ i, (w'.device i).Inv :=
  (Transition.interleave_invariant (P := fun _ => True)
    (fun _ _ _ _ _ _ hd hs => ⟨trivial, hd.step hs⟩) trivial hw h).2

/-- What the steps of device `i` that `G` admits keep is kept by a run in which it takes
no others. -/
theorem run_device_guarded {Q : Device → Prop} {G : Device → Event → Prop}
    (hstep : ∀ srv d e srv' d', d.Inv → Q d → G d e → step srv d e = some (srv', d') → Q d')
    {w w' : World} {es : List (ℕ × Event)} {i : ℕ} (hinv : ∀ j, (w.device j).Inv)
    (hi : Q (w.device i)) (hG : app.Always (fun v e => e.1 = i → G (v.device i) e.2) w es)
    (hr : app.run w es = some w') : Q (w'.device i) := by
  refine (app.run_invariant (P := fun v => (∀ j, (v.device j).Inv) ∧ Q (v.device i)) ?_
    ⟨hinv, hi⟩ hG hr).2
  rintro v ⟨j, e⟩ v' ⟨hinv, hv⟩ hG hs
  obtain ⟨h, hne⟩ := app_step_eq_some.mp hs
  refine ⟨app_step_inv hinv hs, ?_⟩
  by_cases hj : i = j
  · subst hj
    exact hstep _ _ e _ _ (hinv i) hv (hG rfl) h
  · rw [hne i hj]
    exact hv

theorem init_inv {w : World} (hw : app.init w) (i : ℕ) : (w.device i).Inv :=
  of_init hw inv_launch i

theorem reachable_inv {w : World} (hw : app.Reachable w) : ∀ i, (w.device i).Inv :=
  app.reachable_invariant (fun _ => init_inv) (fun _ _ _ => app_step_inv) hw

end DailyDiary
