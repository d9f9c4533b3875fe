/-
What the accounts keep from one another.

The devices on which `v` signs in are taken away from a run, with every event of theirs:
what is left is a run again, and on the devices that remain it shows the same screens,
raises the same alerts and makes the same requests (`account_isolated`). So nothing that
is done with an account, with the right password or with a wrong one, can be told from
another account: not by a row, not by an alert, not by the order in which answers come.

The proof relates two devices that differ at most in what they hold of the subtrees of
`v` (`Device.Alike`), and shows of each operation, and from these of each handler, that it
keeps the relation.
-/
import DailyDiary.MemorySelection

set_option autoImplicit false

namespace DailyDiary

open Device

variable {v : Uid} {d d' d₁ d₂ : Device}

/-! ## What belongs to an account -/

/-- The two places where the database keeps something of the account. -/
def ownRefs (v : Uid) : List Ref :=
  [memoryRef v, userRef v]

theorem avoids_memoryRef {u : Uid} (hu : u ≠ v) : PathTree.Avoids (ownRefs v) (memoryRef u) := by
  have hval : u.val ≠ v.val := fun h => hu (Uid.ext h)
  intro r hr
  simp only [ownRefs, memoryRef_eq, userRef_eq, List.mem_cons, List.not_mem_nil, or_false] at hr
  rcases hr with rfl | rfl
  · simp [List.cons_prefix_cons, hval, hval.symm]
  · simp [List.cons_prefix_cons]

theorem avoids_userRef {u : Uid} (hu : u ≠ v) : PathTree.Avoids (ownRefs v) (userRef u) := by
  have hval : u.val ≠ v.val := fun h => hu (Uid.ext h)
  intro r hr
  simp only [ownRefs, memoryRef_eq, userRef_eq, List.mem_cons, List.not_mem_nil, or_false] at hr
  rcases hr with rfl | rfl
  · simp [List.cons_prefix_cons]
  · simp [List.cons_prefix_cons, hval, hval.symm]

/-- The list, if it is one, does not observe the memories of `v`. -/
def ViewController.Ignores (v : Uid) : ViewController → Prop
  | .myMemories c => ∀ o, c.observer = some o → o.uid ≠ v
  | _ => True

/-- Nothing on the device has to do with `v`. -/
structure Device.Ignores (v : Uid) (d : Device) : Prop where
  user : d.currentUser ≠ some v
  vcs : ∀ c ∈ d.vcs, c.Ignores v
  auths : ∀ password, .updatePassword v password ∉ d.auths
  reads : ∀ r ∈ d.reads, PathTree.Avoids (ownRefs v) r.ref

/-- The device with another tree pushed to it. -/
def Device.withCache (cache : Option Json) (d : Device) : Device :=
  { d with cache }

/-- The devices have nothing to do with `v`, and are the same but for what they have been
pushed of the subtrees of `v`. -/
def Device.Alike (v : Uid) (d d' : Device) : Prop :=
  d.Ignores v ∧ ∃ cache, d' = d.withCache cache ∧ PathTree.EqOutside (ownRefs v) d.cache cache

/-- So are the devices two handlers leave, or both stop the app for the same reason. -/
inductive Device.ResultsAlike (v : Uid) : Result Device → Result Device → Prop where
  | ok {d d' : Device} (h : d.Alike v d') : ResultsAlike v (.ok d) (.ok d')
  | error (f : Fault) : ResultsAlike v (.error f) (.error f)

namespace Device

theorem Alike.settle {r r' : Result Device} (h : d.Alike v d') (hr : ResultsAlike v r r') :
    (d.settle r).Alike v (d'.settle r') := by
  cases hr with
  | ok hr => exact hr
  | error f =>
    obtain ⟨hi, cache, rfl, hc⟩ := h
    exact ⟨⟨hi.user, hi.vcs, hi.auths, hi.reads⟩, cache, rfl, hc⟩

theorem Ignores.mem (h : d.Ignores v) {i : ℕ} {c : ViewController} (hc : d.vcs[i]? = some c) :
    c.Ignores v :=
  h.vcs c (List.mem_of_getElem? hc)

theorem Ignores.visible (h : d.Ignores v) {i : VcId} {c : ViewController}
    (hc : d.visible = some (i, c)) : c.Ignores v :=
  h.mem (visible_eq_some.mp hc).2

/-! ## The operations -/

theorem Alike.hudShow (h : d.Alike v d') : d.hudShow.Alike v d'.hudShow := by
  obtain ⟨hi, cache, rfl, hc⟩ := h
  exact ⟨⟨hi.user, hi.vcs, hi.auths, hi.reads⟩, cache, rfl, hc⟩

theorem Alike.hudDismiss (h : d.Alike v d') : d.hudDismiss.Alike v d'.hudDismiss := by
  obtain ⟨hi, cache, rfl, hc⟩ := h
  exact ⟨⟨hi.user, hi.vcs, hi.auths, hi.reads⟩, cache, rfl, hc⟩

theorem Alike.presentAlert (h : d.Alike v d') (i : VcId) (a : Alert) :
    (d.presentAlert i a).Alike v (d'.presentAlert i a) := by
  obtain ⟨hi, cache, rfl, hc⟩ := h
  exact ⟨⟨hi.user, hi.vcs, hi.auths, hi.reads⟩, cache, rfl, hc⟩

theorem Alike.closeAlert (h : d.Alike v d') :
    Alike v { d with alert := none } { d' with alert := none } := by
  obtain ⟨hi, cache, rfl, hc⟩ := h
  exact ⟨⟨hi.user, hi.vcs, hi.auths, hi.reads⟩, cache, rfl, hc⟩

theorem Alike.setUser (h : d.Alike v d') (user : Option Uid) (hu : user ≠ some v) :
    Alike v { d with currentUser := user } { d' with currentUser := user } := by
  obtain ⟨hi, cache, rfl, hc⟩ := h
  exact ⟨⟨hu, hi.vcs, hi.auths, hi.reads⟩, cache, rfl, hc⟩

theorem Alike.setVc (h : d.Alike v d') (i : VcId) {c : ViewController} (hc : c.Ignores v) :
    (d.setVc i c).Alike v (d'.setVc i c) := by
  obtain ⟨hi, cache, rfl, hcache⟩ := h
  refine ⟨⟨hi.user, ?_, hi.auths, hi.reads⟩, cache, rfl, hcache⟩
  intro c' hc'
  rcases List.mem_or_eq_of_mem_set hc' with hc' | rfl
  · exact hi.vcs c' hc'
  · exact hc

theorem Alike.request (h : d.Alike v d') (call : AuthCall)
    (hcall : ∀ password, call ≠ .updatePassword v password) :
    (d.request call).Alike v (d'.request call) := by
  obtain ⟨hi, cache, rfl, hc⟩ := h
  refine ⟨⟨hi.user, hi.vcs, ?_, hi.reads⟩, cache, rfl, hc⟩
  intro password hmem
  rcases List.mem_append.mp hmem with hmem | hmem
  · exact hi.auths password hmem
  · exact hcall password (List.mem_singleton.mp hmem).symm

theorem Alike.observeSingleEvent (h : d.Alike v d') {u : Uid} (hu : d.currentUser = some u)
    (handler : ReadHandler) : (d.observeSingleEvent (userRef u) handler).Alike v
      (d'.observeSingleEvent (userRef u) handler) := by
  obtain ⟨hi, cache, rfl, hc⟩ := h
  refine ⟨⟨hi.user, hi.vcs, hi.auths, ?_⟩, cache, rfl, hc⟩
  intro r hr
  rcases List.mem_append.mp hr with hr | hr
  · exact hi.reads r hr
  · obtain rfl := List.mem_singleton.mp hr
    refine avoids_userRef ?_
    rintro rfl
    exact hi.user hu

/-! ## What the observers see -/

theorem view_alike {cache : Option Json} (h : PathTree.EqOutside (ownRefs v) d.cache cache) :
    PathTree.EqOutside (ownRefs v) d.view (d.withCache cache).view := by
  have hfold : ∀ (ws : List Write) (t t' : Option Json), PathTree.EqOutside (ownRefs v) t t' →
      PathTree.EqOutside (ownRefs v) (ws.foldl (fun t w => PathTree.set w.ref w.value t) t)
        (ws.foldl (fun t w => PathTree.set w.ref w.value t) t') := by
    intro ws
    induction ws with
    | nil => exact fun t t' h => h
    | cons w ws ih =>
      intro t t' h
      exact ih _ _ (h.set w.ref w.value)
  exact hfold d.writes d.cache cache h

/-- The observer of another account raises the same events. -/
theorem refresh_alike {t t' : Option Json} (h : PathTree.EqOutside (ownRefs v) t t')
    {c : ViewController} (hc : c.Ignores v) : c.refresh t = c.refresh t' := by
  cases c with
  | myMemories c =>
    have hobserver : c.observer.map (Observer.refresh t) = c.observer.map (Observer.refresh t') := by
      cases ho : c.observer with
      | none => rfl
      | some o =>
        have hget := h (memoryRef o.uid) (avoids_memoryRef (hc o ho))
        simp only [Option.map_some, Observer.refresh, hget]
    simp only [ViewController.refresh, MyMemoriesViewController.refresh, hobserver]
  | _ => rfl

theorem ignores_refresh {t : Option Json} {c : ViewController} (hc : c.Ignores v) :
    (c.refresh t).Ignores v := by
  cases c with
  | myMemories c =>
    intro o ho
    obtain ⟨o', ho', rfl⟩ := Option.map_eq_some_iff.mp ho
    exact hc o' ho'
  | _ => trivial

theorem Alike.refresh (h : d.Alike v d') : d.refresh.Alike v d'.refresh := by
  obtain ⟨hi, cache, rfl, hc⟩ := h
  refine ⟨⟨hi.user, ?_, hi.auths, hi.reads⟩, cache, ?_, hc⟩
  · intro c hmem
    obtain ⟨c', hc', rfl⟩ := List.mem_map.mp hmem
    exact ignores_refresh (hi.vcs c' hc')
  · have hvcs : d.vcs.map (ViewController.refresh (d.withCache cache).view) =
        d.vcs.map (ViewController.refresh d.view) :=
      List.map_congr_left fun c hmem => (refresh_alike (view_alike hc) (hi.vcs c hmem)).symm
    simp only [Device.refresh, withCache]
    exact congrArg (fun vcs => { d with vcs, cache }) hvcs

theorem Alike.setValue (h : d.Alike v d') (ref : Ref) (value : Option Json)
    (completion : Completion) :
    (d.setValue ref value completion).Alike v (d'.setValue ref value completion) := by
  refine Alike.refresh ?_
  obtain ⟨hi, cache, rfl, hc⟩ := h
  exact ⟨⟨hi.user, hi.vcs, hi.auths, hi.reads⟩, cache, rfl, hc⟩

theorem Alike.receive (h : d.Alike v d') {db db' : Option Json}
    (hdb : PathTree.EqOutside (ownRefs v) db db') : (d.receive db).Alike v (d'.receive db') := by
  refine Alike.refresh ?_
  obtain ⟨hi, cache, rfl, hc⟩ := h
  exact ⟨⟨hi.user, hi.vcs, hi.auths, hi.reads⟩, db', rfl, hdb⟩

/-! ## Loading, presenting and dismissing -/

theorem Alike.push (h : d.Alike v d') {c : ViewController} (hc : c.Ignores v) :
    (d.push c).Alike v (d'.push c) := by
  refine Alike.refresh ?_
  obtain ⟨hi, cache, rfl, hcache⟩ := h
  refine ⟨⟨hi.user, ?_, hi.auths, hi.reads⟩, cache, rfl, hcache⟩
  intro c' hc'
  rcases List.mem_append.mp hc' with hc' | hc'
  · exact hi.vcs c' hc'
  · obtain rfl := List.mem_singleton.mp hc'
    exact hc

theorem Alike.vcs (h : d.Alike v d') : d'.vcs = d.vcs := by
  obtain ⟨-, cache, rfl, -⟩ := h
  rfl

theorem Alike.currentUser (h : d.Alike v d') : d'.currentUser = d.currentUser := by
  obtain ⟨-, cache, rfl, -⟩ := h
  rfl

theorem Alike.alert (h : d.Alike v d') : d'.alert = d.alert := by
  obtain ⟨-, cache, rfl, -⟩ := h
  rfl

theorem Alike.auths (h : d.Alike v d') : d'.auths = d.auths := by
  obtain ⟨-, cache, rfl, -⟩ := h
  rfl

theorem Alike.writes (h : d.Alike v d') : d'.writes = d.writes := by
  obtain ⟨-, cache, rfl, -⟩ := h
  rfl

theorem Alike.reads (h : d.Alike v d') : d'.reads = d.reads := by
  obtain ⟨-, cache, rfl, -⟩ := h
  rfl

theorem Alike.fault (h : d.Alike v d') : d'.fault = d.fault := by
  obtain ⟨-, cache, rfl, -⟩ := h
  rfl

theorem Alike.eraseAuth (h : d.Alike v d') (i : ℕ) :
    Alike v { d with auths := d.auths.eraseIdx i } { d' with auths := d'.auths.eraseIdx i } := by
  obtain ⟨hi, cache, rfl, hc⟩ := h
  exact ⟨⟨hi.user, hi.vcs, fun p hp => hi.auths p (List.mem_of_mem_eraseIdx hp), hi.reads⟩,
    cache, rfl, hc⟩

theorem Alike.setWrites (h : d.Alike v d') (ws : List Write) :
    Alike v { d with writes := ws } { d' with writes := ws } := by
  obtain ⟨hi, cache, rfl, hc⟩ := h
  exact ⟨⟨hi.user, hi.vcs, hi.auths, hi.reads⟩, cache, rfl, hc⟩

theorem Alike.setReads (h : d.Alike v d') {rs : List Read}
    (hrs : ∀ r ∈ rs, PathTree.Avoids (ownRefs v) r.ref) :
    Alike v { d with reads := rs } { d' with reads := rs } := by
  obtain ⟨hi, cache, rfl, hc⟩ := h
  exact ⟨⟨hi.user, hi.vcs, hi.auths, hrs⟩, cache, rfl, hc⟩

theorem Alike.getUserNameFromDatabase (h : d.Alike v d') (i : VcId) :
    ResultsAlike v (d.getUserNameFromDatabase i) (d'.getUserNameFromDatabase i) := by
  cases hu : d.currentUser with
  | none =>
    rw [getUserNameFromDatabase_of_none hu, getUserNameFromDatabase_of_none (h.currentUser.trans hu)]
    exact .error _
  | some u =>
    rw [getUserNameFromDatabase_of_some hu, getUserNameFromDatabase_of_some (h.currentUser.trans hu)]
    exact .ok (h.observeSingleEvent hu _)

theorem Alike.onTop_iff (h : d.Alike v d') (i : VcId) : d'.onTop i ↔ d.onTop i := by
  obtain ⟨-, cache, rfl, -⟩ := h
  exact Iff.rfl

/-- A controller is loaded alike. -/
inductive LoadsAlike (v : Uid) :
    Result (ViewController × Device) → Result (ViewController × Device) → Prop where
  | ok {c : ViewController} {d d' : Device} (hc : c.Ignores v) (h : d.Alike v d') :
      LoadsAlike v (.ok (c, d)) (.ok (c, d'))
  | error (f : Fault) : LoadsAlike v (.error f) (.error f)

/-- A list that is loaded observes the user, who is not `v`. -/
theorem Alike.viewDidLoad (h : d.Alike v d') (i : VcId) (c : ViewController) :
    LoadsAlike v (d.viewDidLoad i c) (d'.viewDidLoad i c) := by
  cases c with
  | myMemories c =>
    simp only [Device.viewDidLoad, retriveMemories, currentUid, h.currentUser]
    cases hu : d.currentUser with
    | none => exact .error _
    | some u =>
      refine .ok ?_ h
      rintro o ho rfl
      obtain rfl := Option.some.inj ho
      exact h.1.user hu
  | myProfile c =>
    simp only [Device.viewDidLoad, Device.getUserNameFromDatabase, currentUid, h.currentUser]
    cases hu : d.currentUser with
    | none => exact .error _
    | some u => exact .ok trivial (h.observeSingleEvent hu _)
  | _ => exact .ok trivial h

theorem Alike.present (h : d.Alike v d') (i : VcId) (c : ViewController) :
    ResultsAlike v (d.present i c) (d'.present i c) := by
  unfold Device.present
  by_cases htop : d.onTop i
  · rw [if_pos htop, if_pos ((h.onTop_iff i).mpr htop), h.vcs]
    have hload := h.viewDidLoad d.vcs.length c
    revert hload
    generalize d.viewDidLoad d.vcs.length c = r
    generalize d'.viewDidLoad d.vcs.length c = r'
    intro hload
    cases hload with
    | ok hc he => exact .ok (he.push hc)
    | error f => exact .error f
  · rw [if_neg htop, if_neg (mt (h.onTop_iff i).mp htop)]
    exact .ok h

theorem Alike.viewWillAppear (h : d.Alike v d') (i : VcId) :
    (d.viewWillAppear i).Alike v (d'.viewWillAppear i) := by
  have hvcs : d'.vcs[i]? = d.vcs[i]? := by rw [h.vcs]
  unfold Device.viewWillAppear
  rw [hvcs]
  split
  · next c hc =>
    refine h.setVc i ?_
    exact fun o ho => h.1.mem hc o ho
  · exact h

theorem Alike.dismiss (h : d.Alike v d') : d.dismiss.Alike v d'.dismiss := by
  have hstack : d'.stack = d.stack := by
    obtain ⟨-, cache, rfl, -⟩ := h
    rfl
  unfold Device.dismiss
  rw [hstack]
  split
  · next i rest _ =>
    refine Alike.viewWillAppear ?_ i
    obtain ⟨hi, cache, rfl, hc⟩ := h
    exact ⟨⟨hi.user, hi.vcs, hi.auths, hi.reads⟩, cache, rfl, hc⟩
  · exact h

/-! ## The handlers -/

theorem logInBtnPressed_alike (h : d.Alike v d') (i : VcId) (c : LogInViewController) :
    (c.logInBtnPressed i d).Alike v (c.logInBtnPressed i d') := by
  have hset := h.hudShow.setVc i (c := .logIn { c with
    email := c.userEmailTextField
    password := c.userPasswordTextField }) trivial
  unfold LogInViewController.logInBtnPressed
  dsimp only
  split
  · exact hset.presentAlert i _
  · split
    · exact hset.presentAlert i _
    · exact hset.request _ fun _ hcall => by cases hcall

theorem registerBtnPressed_alike (h : d.Alike v d') (i : VcId) (c : RegistrationViewController) :
    (c.registerBtnPressed i d).Alike v (c.registerBtnPressed i d') := by
  have hset := h.hudShow.setVc i (c := .registration c.readFields) trivial
  unfold RegistrationViewController.registerBtnPressed
  dsimp only
  split
  · exact hset.presentAlert i _
  · exact hset.request _ fun _ hcall => by cases hcall

theorem resetBtnPressed_alike (h : d.Alike v d') (i : VcId) (c : ForgetPasswordViewController) :
    (c.resetBtnPressed i d).Alike v (c.resetBtnPressed i d') := by
  have hset := h.setVc i (c := .forgetPassword { c with userEmail := c.userEmailTextField }) trivial
  unfold ForgetPasswordViewController.resetBtnPressed
  dsimp only
  split
  · exact (hset.presentAlert i _).presentAlert i _
  · exact hset.presentAlert i _

theorem confirmPinBtnPressed_alike (h : d.Alike v d') (i : VcId) (c : ConfirmPINViewController) :
    ResultsAlike v (c.confirmPinBtnPressed i d) (c.confirmPinBtnPressed i d') := by
  have hset := h.setVc i (c := .confirmPIN { c with pinCode := c.userPINConfirmTextField }) trivial
  unfold ConfirmPINViewController.confirmPinBtnPressed
  dsimp only
  split
  · exact .ok (hset.presentAlert i _)
  · split
    · exact .ok (hset.presentAlert i _)
    · exact hset.present i _

theorem doneBtnPresed_alike (h : d.Alike v d') (i : VcId) (c : RecreatePasswordViewController) :
    (c.doneBtnPresed i d).Alike v (c.doneBtnPresed i d') := by
  have hset := h.setVc i (c := .recreatePassword { c with
    newPassword := c.recreatPasswordTextField
    repeateNewPassword := c.repeatePasswordTextField }) trivial
  unfold RecreatePasswordViewController.doneBtnPresed
  dsimp only
  split
  · exact hset.presentAlert i _
  · split <;> exact hset.presentAlert i _

theorem didSelectRowAt_alike (h : d.Alike v d') (i : VcId) (row : ℕ)
    (c : MyMemoriesViewController) :
    ResultsAlike v (c.didSelectRowAt i row d) (c.didSelectRowAt i row d') := by
  unfold MyMemoriesViewController.didSelectRowAt
  split
  · exact h.present i _
  · exact .error _

theorem memoryDoneBtnPressed_alike (h : d.Alike v d') (i : VcId) (draws : Draws)
    (c : AddMemoryViewController) :
    ResultsAlike v (c.doneBtnPressed i draws d) (c.doneBtnPressed i draws d') := by
  obtain ⟨id, hread, -⟩ := c.readFields_eq_ok draws
  cases hu : d.currentUser with
  | none =>
    rw [AddMemoryViewController.doneBtnPressed_of_none hu,
      AddMemoryViewController.doneBtnPressed_of_none (h.currentUser.trans hu)]
    exact .error _
  | some u =>
    cases hid : isValidPathString id with
    | false =>
      rw [AddMemoryViewController.doneBtnPressed_of_invalid hread hu hid,
        AddMemoryViewController.doneBtnPressed_of_invalid hread (h.currentUser.trans hu) hid]
      exact .error _
    | true =>
      rw [AddMemoryViewController.doneBtnPressed_of_some hread hu hid,
        AddMemoryViewController.doneBtnPressed_of_some hread (h.currentUser.trans hu) hid]
      exact .ok ((h.hudShow.setVc i (c := .addMemory _) trivial).setValue _ _ _)

theorem passwordDoneBtnPressed_alike (h : d.Alike v d') (i : VcId)
    (c : ChangePasswordViewController) :
    ResultsAlike v (c.doneBtnPressed i d) (c.doneBtnPressed i d') := by
  unfold ChangePasswordViewController.doneBtnPressed currentUid
  rw [h.currentUser]
  cases hu : d.currentUser with
  | none => exact .error _
  | some u =>
    have hread := h.observeSingleEvent hu (.password i)
    dsimp only [Result.pure_eq_ok, Result.ok_bind]
    split
    · exact .ok (hread.presentAlert i _)
    · have hset := hread.setVc i (c := .changePassword { c with
        oldPassword := c.oldPasswordTextField }) trivial
      split
      · exact .ok (hset.presentAlert i _)
      · exact .ok (hset.setVc i trivial)

theorem updateBtnPressed_alike (h : d.Alike v d') (i : VcId) (c : ChangePasswordViewController) :
    ResultsAlike v (c.updateBtnPressed i d) (c.updateBtnPressed i d') := by
  have hset := h.hudShow.setVc i (c := .changePassword c.readFields) trivial
  unfold ChangePasswordViewController.updateBtnPressed
  dsimp only
  split
  · exact .ok ((hset.presentAlert i _).hudDismiss.presentAlert i _)
  · cases hu : (d.hudShow.setVc i (.changePassword c.readFields)).currentUser with
    | none =>
      rw [ChangePasswordViewController.updateStores_of_none hu,
        ChangePasswordViewController.updateStores_of_none (hset.currentUser.trans hu)]
      exact .error _
    | some u =>
      rw [ChangePasswordViewController.updateStores_of_some hu,
        ChangePasswordViewController.updateStores_of_some (hset.currentUser.trans hu)]
      have hrequest := hset.request (.updatePassword u c.readFields.newpassword) (by
        rintro password hcall
        cases hcall
        exact hset.1.user hu)
      exact .ok ((hrequest.setValue _ _ _).hudDismiss.presentAlert i _)

theorem Alike.visible (h : d.Alike v d') : d'.visible = d.visible := by
  obtain ⟨-, cache, rfl, -⟩ := h
  rfl

theorem Alike.top (h : d.Alike v d') : d'.top = d.top := by
  obtain ⟨-, cache, rfl, -⟩ := h
  rfl

/-- A button runs the same on both devices. -/
theorem press_alike (h : d.Alike v d') {b : Button} {r : Result Device} (hr : d.press b = some r) :
    ∃ r', d'.press b = some r' ∧ ResultsAlike v r r' := by
  unfold Device.press
  rw [h.visible]
  cases presses_of_press hr with
  | @logIn i c hv => exact ⟨_, by rw [hv]; rfl, .ok (logInBtnPressed_alike h i c)⟩
  | @forgetPassword i c hv => exact ⟨_, by rw [hv]; rfl, h.present i _⟩
  | @signUp i c hv => exact ⟨_, by rw [hv]; rfl, h.present i _⟩
  | @register i c hv => exact ⟨_, by rw [hv]; rfl, .ok (registerBtnPressed_alike h i c)⟩
  | already hv => exact ⟨_, by rw [hv]; rfl, .ok h.dismiss⟩
  | @reset i c hv => exact ⟨_, by rw [hv]; rfl, .ok (resetBtnPressed_alike h i c)⟩
  | forgetPasswordBack hv => exact ⟨_, by rw [hv]; rfl, .ok h.dismiss⟩
  | @confirmPin i c hv => exact ⟨_, by rw [hv], confirmPinBtnPressed_alike h i c⟩
  | @resend i c hv => exact ⟨_, by rw [hv]; rfl, .ok (h.presentAlert i _)⟩
  | @recreateDone i c hv => exact ⟨_, by rw [hv]; rfl, .ok (doneBtnPresed_alike h i c)⟩
  | @addMemories today i c hv => exact ⟨_, by rw [hv]; rfl, h.present i _⟩
  | @myProfilePage i c hv => exact ⟨_, by rw [hv]; rfl, h.present i _⟩
  | @didSelectRow row i c hv hrow =>
    exact ⟨_, by rw [hv]; exact if_pos hrow, didSelectRowAt_alike h i row c⟩
  | showMemoryBack hv => exact ⟨_, by rw [hv]; rfl, .ok h.dismiss⟩
  | @delete i c hv => exact ⟨_, by rw [hv]; rfl, .ok (h.presentAlert i _)⟩
  | @edit today i c hv => exact ⟨_, by rw [hv]; rfl, h.present i _⟩
  | @memoryDone draws i c hv => exact ⟨_, by rw [hv], memoryDoneBtnPressed_alike h i draws c⟩
  | @cancel i c hv => exact ⟨_, by rw [hv]; rfl, h.present i _⟩
  | myProfileBack hv => exact ⟨_, by rw [hv]; rfl, .ok h.dismiss⟩
  | @updateUserName i c hv => exact ⟨_, by rw [hv]; rfl, .ok (h.presentAlert i _)⟩
  | @updatePassword i c hv => exact ⟨_, by rw [hv]; rfl, h.present i _⟩
  | @logOut i c hv => exact ⟨_, by rw [hv]; rfl, .ok (h.presentAlert i _)⟩
  | @tapGesture i c hv => exact ⟨_, by rw [hv]; rfl, .ok (h.presentAlert i _)⟩
  | imagePickerFinished hv => exact ⟨_, by rw [hv]; rfl, .ok h.dismiss⟩
  | changePasswordBack hv => exact ⟨_, by rw [hv]; rfl, .ok h.dismiss⟩
  | @passwordDone i c hv hshown =>
    refine ⟨_, ?_, passwordDoneBtnPressed_alike h i c⟩
    rw [hv]
    exact if_neg (by simp [hshown])
  | @update i c hv hshown =>
    refine ⟨_, ?_, updateBtnPressed_alike h i c⟩
    rw [hv]
    exact if_neg (by simp [hshown])

/-- So does an action of an alert. -/
theorem perform_alike (h : d.Alike v d') {a : AlertAction} {text : String} {throws : Bool}
    {r : Result Device} (hr : d.perform a text throws = some r) :
    ∃ r', d'.perform a text throws = some r' ∧ ResultsAlike v r r' := by
  unfold Device.perform
  rw [h.top]
  cases performs_of_perform hr with
  | dismissOnly => exact ⟨_, rfl, .ok h⟩
  | @presentMemories i c ht => exact ⟨_, by rw [ht], h.hudDismiss.present i _⟩
  | @presentMyProfile i c ht => exact ⟨_, by rw [ht], h.present i _⟩
  | @presentConfirmPIN i c ht => exact ⟨_, by rw [ht], h.present i _⟩
  | @presentLogIn i c ht => exact ⟨_, by rw [ht], h.present i _⟩
  | @deleteMemory i c ht =>
    refine ⟨_, by rw [ht], ?_⟩
    cases hu : d.currentUser with
    | none =>
      rw [ShowMemoryViewController.deleteConfirmed_of_none hu,
        ShowMemoryViewController.deleteConfirmed_of_none (h.currentUser.trans hu)]
      exact .error _
    | some u =>
      cases hid : isValidPathString c.memoryID with
      | false =>
        rw [ShowMemoryViewController.deleteConfirmed_of_invalid hu hid,
          ShowMemoryViewController.deleteConfirmed_of_invalid (h.currentUser.trans hu) hid]
        exact .error _
      | true =>
        rw [ShowMemoryViewController.deleteConfirmed_of_some hu hid,
          ShowMemoryViewController.deleteConfirmed_of_some (h.currentUser.trans hu) hid]
        exact (h.setValue _ _ _).present i _
  | @setUserName i c ht =>
    refine ⟨_, by rw [ht], ?_⟩
    cases hu : d.currentUser with
    | none =>
      rw [MyProfileViewController.userNameEntered_of_none hu,
        MyProfileViewController.userNameEntered_of_none (h.currentUser.trans hu)]
      exact .error _
    | some u =>
      rw [MyProfileViewController.userNameEntered_of_some hu,
        MyProfileViewController.userNameEntered_of_some (h.currentUser.trans hu)]
      exact .ok (h.setValue _ _ _)
  | @signOut i c ht =>
    have henabled : (throws && d.currentUser.isNone) = false := by
      by_contra hno
      rw [Bool.not_eq_false] at hno
      simp only [Device.perform, ht, hno, if_true] at hr
      cases hr
    refine ⟨_, by rw [ht]; dsimp only; rw [h.currentUser, henabled]; rfl, ?_⟩
    unfold MyProfileViewController.logOutConfirmed
    cases throws with
    | true => exact h.hudShow.hudDismiss.present i _
    | false =>
      have hout := h.hudShow.setUser none (by simp)
      exact hout.hudDismiss.present i _
  | @openGallary i c ht => exact ⟨_, by rw [ht]; rfl, h.present i _⟩

/-- So does the completion of a write. -/
theorem writeCompleted_alike (h : d.Alike v d') (completion : Completion) (failed : Bool) :
    ResultsAlike v (d.writeCompleted completion failed) (d'.writeCompleted completion failed) := by
  cases completion with
  | memorySaved i =>
    cases failed with
    | true => exact .ok h
    | false => exact .ok (h.presentAlert i _)
  | userName i =>
    cases failed with
    | true => exact .ok h
    | false => exact h.getUserNameFromDatabase i
  | _ => exact .ok h

theorem readCompleted_alike (h : d.Alike v d') (handler : ReadHandler) (snapshot : Option Json) :
    (d.readCompleted handler snapshot).Alike v (d'.readCompleted handler snapshot) := by
  cases handler with
  | userName i =>
    simp only [Device.readCompleted, MyProfileViewController.userNameRead, h.vcs]
    split
    · exact h.setVc i (c := .myProfile _) trivial
    · exact h
  | password i =>
    simp only [Device.readCompleted, ChangePasswordViewController.passwordRead, h.vcs]
    split
    · exact h.setVc i (c := .changePassword _) trivial
    · exact h

/-- The block of a request has alike results on two devices that are alike, unless its reply
is a success of the user who is left out. -/
theorem authCompleted_alike (h : d.Alike v d') (call : AuthCall) {reply : AuthReply}
    (hreply : reply ≠ .success v) :
    ResultsAlike v (d.authCompleted call reply) (d'.authCompleted call reply) := by
  cases reply with
  | failure =>
    cases call with
    | signIn i email password => exact .ok (h.presentAlert i _).hudDismiss
    | createUser i email password name => exact .ok h
    | updatePassword u password => exact .ok h
  | tokenInvalid =>
    cases call with
    | signIn i email password => exact .ok (h.presentAlert i _).hudDismiss
    | createUser i email password name => exact .ok h
    | updatePassword u password =>
      simp only [Device.authCompleted, signOutByForce, h.currentUser, Result.pure_eq_ok]
      split
      · exact .ok (h.setUser none (by simp))
      · exact .ok h
  | success u =>
    have huser := h.setUser (some u) (by rintro ⟨⟩; exact hreply rfl)
    cases call with
    | signIn i email password => exact huser.hudDismiss.present i _
    | createUser i email password name =>
      have halert := huser.presentAlert i RegistrationViewController.congratulations
      simp only [Device.authCompleted, RegistrationViewController.createUserCompleted,
        Bool.false_eq_true, if_false]
      rw [currentUid_of_some (u := u) rfl, currentUid_of_some (u := u) rfl, Result.ok_bind,
        Result.ok_bind, halert.vcs]
      split
      · exact .ok (halert.setValue _ _ _)
      · exact .ok halert
    | updatePassword w password => exact .ok h

theorem childAdded_alike (h : d.Alike v d') {i : VcId} {j : ℕ} {r : Result Device}
    (hr : d.childAdded i j = some r) :
    ∃ r', d'.childAdded i j = some r' ∧ ResultsAlike v r r' := by
  obtain ⟨c, o, key, snapshot, hc, ho, hq, rfl⟩ := childAdded_eq_some.mp hr
  have hc' : d'.vcs[i]? = some (.myMemories c) := by rw [h.vcs, hc]
  refine ⟨_, childAdded_eq_some.mpr ⟨c, o, key, snapshot, hc', ho, hq, rfl⟩, ?_⟩
  unfold MyMemoriesViewController.childAdded
  cases Memory.ofSnapshot snapshot with
  | error f => exact .error f
  | ok m =>
    refine .ok (h.setVc i ?_)
    rintro o' ho'
    obtain rfl := Option.some.inj ho'
    exact h.1.mem hc o ho

end Device

/-! ## The server -/

/-- The servers hold the same but for the password of `v`, whether `v` has an account, and
the subtrees of `v`. -/
structure Server.Alike (v : Uid) (srv srv' : Server) : Prop where
  accounts : srv.accounts.filter (fun a => a.uid ≠ v) = srv'.accounts.filter fun a => a.uid ≠ v
  known : ∀ a' ∈ srv'.accounts, ∃ a ∈ srv.accounts, a.uid = a'.uid ∧ a.email = a'.email
  db : PathTree.EqOutside (ownRefs v) srv.db srv'.db

/-- A new password for one account. -/
private theorem uid_setPassword (a : Account) (u : Uid) (password : String) :
    (if a.uid = u then { a with password := password } else a).uid = a.uid ∧
      (if a.uid = u then { a with password := password } else a).email = a.email := by
  split <;> exact ⟨rfl, rfl⟩

/-- Auth can answer the same request the same way. -/
theorem answer_alike {srv srv' srv₁ : Server} (h : srv.Alike v srv') {call : AuthCall}
    {reply : AuthReply} (hreply : reply ≠ .success v) (ha : srv.answer call reply = some srv₁) :
    ∃ srv₁', srv'.answer call reply = some srv₁' ∧ srv₁.Alike v srv₁' := by
  cases reply with
  | failure =>
    cases call <;>
    · obtain rfl := Option.some.inj ha
      exact ⟨srv', rfl, h⟩
  | tokenInvalid =>
    cases call with
    | updatePassword w password =>
      obtain rfl := Option.some.inj ha
      exact ⟨srv', rfl, h⟩
    | _ => cases ha
  | success u =>
    have hu : u ≠ v := fun hu => hreply (congrArg _ hu)
    cases call with
    | signIn i email password =>
      obtain ⟨hmem, hsrv⟩ := Option.ite_none_right_eq_some.mp ha
      obtain rfl := Option.some.inj hsrv
      have hfilter : (⟨u, email, password⟩ : Account) ∈
          srv.accounts.filter fun a => a.uid ≠ v :=
        List.mem_filter.mpr ⟨hmem, by simpa using hu⟩
      rw [h.accounts] at hfilter
      exact ⟨srv', if_pos (List.mem_of_mem_filter hfilter), h⟩
    | createUser i email password name =>
      obtain ⟨hfresh, hsrv⟩ := Option.ite_none_right_eq_some.mp ha
      obtain rfl := Option.some.inj hsrv
      have hfresh' : srv'.accounts.all (fun a => a.uid ≠ u && a.email ≠ email) = true := by
        rw [List.all_eq_true] at hfresh ⊢
        intro a' ha'
        obtain ⟨a, hmem, huid, hemail⟩ := h.known a' ha'
        rw [← huid, ← hemail]
        exact hfresh a hmem
      refine ⟨_, if_pos hfresh', ⟨?_, ?_, h.db⟩⟩
      · rw [List.filter_append, List.filter_append, h.accounts]
      · intro a' ha'
        rcases List.mem_append.mp ha' with ha' | ha'
        · obtain ⟨a, hmem, hsame⟩ := h.known a' ha'
          exact ⟨a, List.mem_append_left _ hmem, hsame⟩
        · exact ⟨a', List.mem_append_right _ ha', rfl, rfl⟩
    | updatePassword w password =>
      obtain ⟨huw, hsrv⟩ := Option.ite_none_right_eq_some.mp ha
      obtain rfl := Option.some.inj hsrv
      refine ⟨_, if_pos huw, ⟨?_, ?_, h.db⟩⟩
      · simp only [List.filter_map, Function.comp_def, (uid_setPassword _ w password).1]
        rw [h.accounts]
      · intro a' ha'
        obtain ⟨b', hb', rfl⟩ := List.mem_map.mp ha'
        obtain ⟨b, hb, huid, hemail⟩ := h.known b' hb'
        refine ⟨_, List.mem_map.mpr ⟨b, hb, rfl⟩, ?_, ?_⟩
        · rw [(uid_setPassword b w password).1, (uid_setPassword b' w password).1, huid]
        · rw [(uid_setPassword b w password).2, (uid_setPassword b' w password).2, hemail]

/-! ## The steps of a device that has nothing to do with the account -/

theorem typed_ignores {t : Typing} {c c' : ViewController} (h : t.apply c = some c') :
    c'.Ignores v := by
  unfold Typing.apply at h
  split at h <;> try cases h
  all_goals first
    | exact trivial
    | split at h <;> cases h; exact trivial

theorem alertCancel_alike (h : d.Alike v d') (hr : d.alertCancel = some d₁) :
    ∃ d₁', d'.alertCancel = some d₁' ∧ d₁.Alike v d₁' := by
  obtain ⟨ha, rfl⟩ := alertCancel_eq_some.mp hr
  rw [← h.alert] at ha
  exact ⟨_, alertCancel_eq_some.mpr ⟨ha, rfl⟩, h.closeAlert⟩

theorem alertOk_alike (h : d.Alike v d') {text : String} {throws : Bool} {r : Result Device}
    (hr : d.alertOk text throws = some r) :
    ∃ r', d'.alertOk text throws = some r' ∧ ResultsAlike v r r' := by
  obtain ⟨a, ha, hp⟩ := alertOk_eq_some.mp hr
  obtain ⟨r', hr', halike⟩ := perform_alike h.closeAlert hp
  exact ⟨r', alertOk_eq_some.mpr ⟨a, h.alert.trans ha, hr'⟩, halike⟩

/-- A completion on one of two alike devices can be replayed on the other, over alike
servers, with alike results. This is the step of the simulation for Auth. -/
theorem completeAuth_alike {srv srv' srv₁ : Server} (h : d.Alike v d') (hsrv : srv.Alike v srv')
    {i : ℕ} {reply : AuthReply} {r : Result Device}
    (hlabel : ∀ u, d.label (.authCompleted i reply) = .session u → u ≠ v)
    (hr : completeAuth srv d i reply = some (srv₁, r)) :
    ∃ srv₁' r', completeAuth srv' d' i reply = some (srv₁', r') ∧ srv₁.Alike v srv₁' ∧
      ResultsAlike v r r' := by
  obtain ⟨call, hcall, hanswer, rfl⟩ := completeAuth_eq_some.mp hr
  -- a success for the account would give it a session here, or be asked for by it
  have hreply : reply ≠ .success v := by
    rintro rfl
    cases call with
    | updatePassword w password =>
      obtain ⟨rfl, -⟩ := Option.ite_none_right_eq_some.mp hanswer
      exact h.1.auths password (List.mem_of_getElem? hcall)
    | _ => exact hlabel v (by rw [label, hcall]) rfl
  obtain ⟨srv₁', hanswer', hsrv'⟩ := answer_alike hsrv hreply hanswer
  have hcall' : d'.auths[i]? = some call := by rw [h.auths, hcall]
  exact ⟨srv₁', _, completeAuth_eq_some.mpr ⟨call, hcall', hanswer', rfl⟩, hsrv',
    authCompleted_alike (h.eraseAuth i) call hreply⟩

theorem decideWrite_alike {srv srv' srv₁ : Server} (h : d.Alike v d') (hsrv : srv.Alike v srv')
    {i : ℕ} {accepted : Bool} (hr : decideWrite srv d i accepted = some (srv₁, d₁)) :
    ∃ srv₁' d₁', decideWrite srv' d' i accepted = some (srv₁', d₁') ∧ srv₁.Alike v srv₁' ∧
      d₁.Alike v d₁' := by
  obtain ⟨wr, hwr, hverdict, rfl, rfl⟩ := decideWrite_eq_some.mp hr
  have hwr' : d'.writes[i]? = some wr := by rw [h.writes, hwr]
  refine ⟨_, _, decideWrite_eq_some.mpr ⟨wr, hwr', hverdict, rfl, rfl⟩, ?_, ?_⟩
  · cases accepted with
    | true => exact ⟨hsrv.accounts, hsrv.known, hsrv.db.set wr.ref wr.value⟩
    | false => exact hsrv
  · rw [h.writes]
    exact h.setWrites _

theorem completeWrite_alike {srv srv' : Server} (h : d.Alike v d') (hsrv : srv.Alike v srv')
    {i : ℕ} {r : Result Device} (hr : completeWrite srv d i = some r) :
    ∃ r', completeWrite srv' d' i = some r' ∧ ResultsAlike v r r' := by
  obtain ⟨wr, accepted, hwr, hverdict, rfl⟩ := completeWrite_eq_some.mp hr
  have hwr' : d'.writes[i]? = some wr := by rw [h.writes, hwr]
  refine ⟨_, completeWrite_eq_some.mpr ⟨wr, accepted, hwr', hverdict, rfl⟩, ?_⟩
  have herase := h.setWrites (d.writes.eraseIdx i)
  rw [h.writes]
  exact writeCompleted_alike (herase.receive hsrv.db) _ _

theorem answerRead_alike {srv srv' : Server} (h : d.Alike v d') (hsrv : srv.Alike v srv')
    {i : ℕ} (hr : answerRead srv d i = some d₁) :
    ∃ d₁', answerRead srv' d' i = some d₁' ∧ d₁.Alike v d₁' := by
  obtain ⟨r, hread, hnone, rfl⟩ := answerRead_eq_some.mp hr
  have hread' : d'.reads[i]? = some r := by rw [h.reads, hread]
  have havoids := h.1.reads r (List.mem_of_getElem? hread)
  -- the device waits for a row of another account
  have hsnapshot : PathTree.get r.ref { d' with cache := srv'.db }.view =
      PathTree.get r.ref { d with cache := srv.db }.view := by
    obtain ⟨-, cache, rfl, -⟩ := h
    exact (view_alike (d := { d with cache := srv.db }) hsrv.db r.ref havoids).symm
  refine ⟨_, answerRead_eq_some.mpr ⟨r, hread', hnone, rfl⟩, ?_⟩
  rw [hsnapshot, h.reads]
  refine h.setReads fun r' hr' => ?_
  rcases List.mem_or_eq_of_mem_set hr' with hr' | rfl
  · exact h.1.reads r' hr'
  · exact havoids

theorem completeRead_alike (h : d.Alike v d') {i : ℕ} (hr : completeRead d i = some d₁) :
    ∃ d₁', completeRead d' i = some d₁' ∧ d₁.Alike v d₁' := by
  obtain ⟨r, snapshot, hread, hsnapshot, rfl⟩ := completeRead_eq_some.mp hr
  have hread' : d'.reads[i]? = some r := by rw [h.reads, hread]
  have hrest : ∀ r ∈ d.reads.eraseIdx i, PathTree.Avoids (ownRefs v) r.ref :=
    fun r hr => h.1.reads r (List.mem_of_mem_eraseIdx hr)
  refine ⟨_, completeRead_eq_some.mpr ⟨r, snapshot, hread', hsnapshot, rfl⟩, ?_⟩
  rw [h.reads]
  exact readCompleted_alike (h.setReads hrest) r.handler snapshot

/-- **The two sides step together.** What one device does, the other can do with the same
event, where only the subtrees of `v`, its password and whether it has an account may
differ between the servers, and the step is no session of `v`: each handler reads the same
variables, and each answer of Auth or of the database is one for another account. -/
theorem steps_alike {srv srv' srv₁ : Server} {e : Event} (h : d.Alike v d')
    (hsrv : srv.Alike v srv') (hlabel : ∀ u, d.label e = .session u → u ≠ v)
    (hstep : Steps srv d e srv₁ d₁) :
    ∃ srv₁' d₁', Steps srv' d' e srv₁' d₁' ∧ srv₁.Alike v srv₁' ∧ d₁.Alike v d₁' := by
  cases hstep with
  | typed ht =>
    obtain ⟨i, c, c', hv, hc', rfl⟩ := typed_eq_some.mp ht
    refine ⟨srv', _, .typed (typed_eq_some.mpr ⟨i, c, c', h.visible.trans hv, hc', rfl⟩), hsrv, ?_⟩
    exact h.setVc i (typed_ignores hc')
  | press hr =>
    obtain ⟨r', hr', halike⟩ := press_alike h hr
    exact ⟨srv', _, .press hr', hsrv, h.settle halike⟩
  | alertOk hr =>
    obtain ⟨r', hr', halike⟩ := alertOk_alike h hr
    exact ⟨srv', _, .alertOk hr', hsrv, h.settle halike⟩
  | alertCancel hr =>
    obtain ⟨d₁', hr', halike⟩ := alertCancel_alike h hr
    exact ⟨srv', d₁', .alertCancel hr', hsrv, halike⟩
  | authCompleted hr =>
    obtain ⟨srv₁', r', hr', hsrv', halike⟩ := completeAuth_alike h hsrv hlabel hr
    exact ⟨srv₁', _, .authCompleted hr', hsrv', h.settle halike⟩
  | writeDecided hr =>
    obtain ⟨srv₁', d₁', hr', hsrv', halike⟩ := decideWrite_alike h hsrv hr
    exact ⟨srv₁', d₁', .writeDecided hr', hsrv', halike⟩
  | writeCompleted hr =>
    obtain ⟨r', hr', halike⟩ := completeWrite_alike h hsrv hr
    exact ⟨srv', _, .writeCompleted hr', hsrv, h.settle halike⟩
  | serverPush => exact ⟨srv', _, .serverPush, hsrv, h.receive hsrv.db⟩
  | readAnswered hr =>
    obtain ⟨d₁', hr', halike⟩ := answerRead_alike h hsrv hr
    exact ⟨srv', d₁', .readAnswered hr', hsrv, halike⟩
  | readCompleted hr =>
    obtain ⟨d₁', hr', halike⟩ := completeRead_alike h hr
    exact ⟨srv', d₁', .readCompleted hr', hsrv, halike⟩
  | childAdded hr =>
    obtain ⟨r', hr', halike⟩ := childAdded_alike h hr
    exact ⟨srv', _, .childAdded hr', hsrv, h.settle halike⟩

/-- **A step that has nothing to do with `v` is a step whatever becomes of `v`.** It leaves
devices and servers that are alike as they were. -/
theorem step_alike {srv srv' srv₁ : Server} {e : Event} (h : d.Alike v d')
    (hsrv : srv.Alike v srv') (hlabel : ∀ u, d.label e = .session u → u ≠ v)
    (hstep : step srv d e = some (srv₁, d₁)) :
    ∃ srv₁' d₁', step srv' d' e = some (srv₁', d₁') ∧ srv₁.Alike v srv₁' ∧ d₁.Alike v d₁' := by
  have hfault : d'.fault = none := by rw [h.fault, fault_of_step hstep]
  obtain ⟨srv₁', d₁', hstep', halike⟩ := steps_alike h hsrv hlabel (steps_of_step hstep)
  exact ⟨srv₁', d₁', step_of_steps hfault hstep', halike⟩

/-! ## The steps of a device of the account -/

/-- Nobody but `v` has done anything on the device. -/
structure Device.Only (v : Uid) (d : Device) : Prop where
  user : ∀ u, d.currentUser = some u → u = v
  writes : ∀ w ∈ d.writes, ∃ r ∈ ownRefs v, r <+: w.ref
  auths : ∀ u password, .updatePassword u password ∈ d.auths → u = v

/-- What the device hands to the database goes to the places of the account. -/
theorem Device.Issues.below_ownRefs {e : Event} {w : Write} (h : d.Issues e w)
    (hd : d.Only v) (hlabel : ∀ u, d.label e = .session u → u = v) :
    ∃ r ∈ ownRefs v, r <+: w.ref := by
  have hfield : ∀ {field : String}, IsKey field → ∃ r ∈ ownRefs v, r <+: userFieldRef v field := by
    intro field hfield
    refine ⟨userRef v, by simp [ownRefs], ?_⟩
    rw [userFieldRef_eq v hfield, userRef_eq]
    exact List.prefix_append ["user", v.val] [field]
  cases h with
  | @userRow k self email password name u c hcall hc =>
    obtain rfl := hlabel u (by rw [label, hcall])
    exact ⟨userRef u, by simp [ownRefs], List.prefix_refl _⟩
  | memory hv hc hu =>
    obtain rfl := hd.user _ hu
    exact ⟨memoryRef _, by simp [ownRefs], List.prefix_append _ _⟩
  | deletion ha ht hu =>
    obtain rfl := hd.user _ hu
    exact ⟨memoryRef _, by simp [ownRefs], List.prefix_append _ _⟩
  | userName ha ht hu =>
    obtain rfl := hd.user _ hu
    exact hfield (by decide)
  | password hv hshown hc hu =>
    obtain rfl := hd.user _ hu
    exact hfield (by decide)

/-- A device on which only `v` has done anything stays so under every step that signs in
nobody else: what it issues goes to the places of whoever is signed in. -/
theorem Device.Only.step {srv srv' : Server} {e : Event} (h : d.Only v) (hd : d.Inv)
    (hlabel : ∀ u, d.label e = .session u → u = v) (hs : DailyDiary.step srv d e = some (srv', d')) :
    d'.Only v := by
  have heffect := step_effect hs
  refine ⟨?_, ?_, ?_⟩
  · intro u hu
    rw [(step_refines hd.wf hd.nav hs).user_eq] at hu
    cases hl : d.label e with
    | ui =>
      rw [hl] at hu
      exact h.user u hu
    | session u' =>
      rw [hl] at hu
      obtain rfl := Option.some.inj hu
      exact hlabel u' hl
    | logOut throws =>
      rw [hl] at hu
      cases throws with
      | true => exact h.user u hu
      | false => cases hu
    | forcedOut =>
      rw [hl] at hu
      cases hu
  · intro w hw
    rcases heffect.writes.mem hw with ⟨w', hw', href, -⟩ | hissues
    · rw [← href]
      exact h.writes w' hw'
    · exact hissues.below_ownRefs h hlabel
  · intro u password hcall
    rcases heffect.auths.mem hcall with ⟨call, hmem, rfl⟩ | hrequests
    · exact h.auths u password hmem
    · cases hrequests with
      | updatePassword hv hshown hc hu => exact h.user u hu

/-- Auth changes nothing for the other accounts. -/
theorem answer_own {srv srv' srv₁ : Server} (h : srv.Alike v srv') {call : AuthCall}
    {reply : AuthReply} (hcall : ∀ u password, call = .updatePassword u password → u = v)
    (hreply : ∀ i email password name u, call = .createUser i email password name →
      reply = .success u → u = v) (ha : srv.answer call reply = some srv₁) : srv₁.Alike v srv' := by
  cases reply with
  | failure =>
    cases call <;>
    · obtain rfl := Option.some.inj ha
      exact h
  | tokenInvalid =>
    cases call with
    | updatePassword w password =>
      obtain rfl := Option.some.inj ha
      exact h
    | _ => cases ha
  | success u =>
    cases call with
    | signIn i email password =>
      obtain ⟨-, hsrv⟩ := Option.ite_none_right_eq_some.mp ha
      obtain rfl := Option.some.inj hsrv
      exact h
    | createUser i email password name =>
      obtain ⟨-, hsrv⟩ := Option.ite_none_right_eq_some.mp ha
      obtain rfl := Option.some.inj hsrv
      obtain rfl := hreply i email password name u rfl rfl
      refine ⟨?_, ?_, h.db⟩
      · simpa [List.filter_append] using h.accounts
      · intro a' ha'
        obtain ⟨a, hmem, hsame⟩ := h.known a' ha'
        exact ⟨a, List.mem_append_left _ hmem, hsame⟩
    | updatePassword w password =>
      obtain ⟨-, hsrv⟩ := Option.ite_none_right_eq_some.mp ha
      obtain rfl := Option.some.inj hsrv
      obtain rfl := hcall w password rfl
      refine ⟨?_, ?_, h.db⟩
      · simp only [List.filter_map, Function.comp_def, (uid_setPassword _ w password).1]
        rw [← h.accounts]
        refine (List.map_congr_left ?_).trans (List.map_id _)
        intro a ha
        exact if_neg (by simpa using (List.mem_filter.mp ha).2)
      · intro a' ha'
        obtain ⟨a, hmem, huid, hemail⟩ := h.known a' ha'
        refine ⟨_, List.mem_map.mpr ⟨a, hmem, rfl⟩, ?_, ?_⟩
        · rw [(uid_setPassword a w password).1, huid]
        · rw [(uid_setPassword a w password).2, hemail]

/-- A step of such a device changes nothing for the other accounts. -/
theorem Device.Only.server {srv srv' srv₁ : Server} {e : Event} (h : d.Only v)
    (hsrv : srv.Alike v srv') (hlabel : ∀ u, d.label e = .session u → u = v)
    (hs : DailyDiary.step srv d e = some (srv₁, d₁)) : srv₁.Alike v srv' := by
  cases steps_of_step hs with
  | @authCompleted i reply srv₁ r hr =>
    obtain ⟨call, hcall, hanswer, -⟩ := completeAuth_eq_some.mp hr
    refine answer_own hsrv ?_ ?_ hanswer
    · rintro u password rfl
      exact h.auths u password (List.mem_of_getElem? hcall)
    · rintro j email password name u rfl rfl
      exact hlabel u (by rw [label, hcall])
  | @writeDecided i accepted srv₁ d₁ hdecide =>
    obtain ⟨w, hw, -, rfl, -⟩ := decideWrite_eq_some.mp hdecide
    obtain ⟨r, hr, hprefix⟩ := h.writes w (List.mem_of_getElem? hw)
    cases accepted with
    | true => exact ⟨hsrv.accounts, hsrv.known, hsrv.db.set_left hr hprefix w.value⟩
    | false => exact hsrv
  | _ => exact hsrv

/-! ## Runs -/

/-- The account whose session starts. -/
def Label.starts : Label → Option Uid
  | .session u => some u
  | _ => none

/-- A session that starts on one of the devices `mine` is of `v`, one on another is not. -/
def SessionsApart (v : Uid) (mine : ℕ → Bool) (w : World) (e : ℕ × Event) : Prop :=
  ∀ u ∈ ((w.device e.1).label e.2).starts, mine e.1 = true ↔ u = v

instance (v : Uid) (mine : ℕ → Bool) (w : World) (e : ℕ × Event) :
    Decidable (SessionsApart v mine w e) :=
  inferInstanceAs (Decidable (∀ u ∈ ((w.device e.1).label e.2).starts, mine e.1 = true ↔ u = v))

/-- The world `x` is `w` without what has been done on the devices of `v`. -/
structure Without (v : Uid) (mine : ℕ → Bool) (w x : World) : Prop where
  inv : ∀ i, (w.device i).Inv
  server : w.server.Alike v x.server
  others : ∀ i, mine i = false → (w.device i).Alike v (x.device i)
  own : ∀ i, mine i = true → (w.device i).Only v

/-- At the start the two systems agree, once the devices of the user are removed: nothing is
in flight yet and both databases are the same outside the user's records. -/
theorem without_init {mine : ℕ → Bool} {w : World} (hw : app.init w)
    (hsession : ∀ i u, (w.device i).currentUser = some u → (mine i = true ↔ u = v)) :
    Without v mine w w where
  inv := init_inv hw
  server := ⟨rfl, fun a ha => ⟨a, ha, rfl, rfl⟩, PathTree.EqOutside.refl _ _⟩
  others := by
    intro i hi
    obtain ⟨user, huser⟩ := hw i
    have hne : (w.device i).currentUser ≠ some v := by
      intro hv
      have hmine := (hsession i v hv).mpr rfl
      rw [hi] at hmine
      cases hmine
    refine ⟨⟨hne, ?_, ?_, ?_⟩, _, rfl, PathTree.EqOutside.refl _ _⟩
    · rw [huser]
      intro c hc
      obtain rfl := List.mem_singleton.mp hc
      trivial
    · rw [huser]
      intro password hmem
      cases hmem
    · rw [huser]
      intro r hr
      cases hr
  own := by
    intro i hi
    obtain ⟨user, huser⟩ := hw i
    refine ⟨fun u hu => (hsession i u hu).mp hi, ?_, ?_⟩
    · rw [huser]
      intro wr hwr
      cases hwr
    · rw [huser]
      intro u password hmem
      cases hmem

theorem ne_of_mine {mine : ℕ → Bool} {i j : ℕ} (hi : mine i = true) (hj : mine j = false) :
    j ≠ i := by
  rintro rfl
  rw [hi] at hj
  cases hj

/-- A step of a device of the account is not taken on the other side. -/
theorem Without.step_own {mine : ℕ → Bool} {w w' x : World} {i : ℕ} {e : Event}
    (h : Without v mine w x) (hi : mine i = true)
    (hlabel : ∀ u, (w.device i).label e = .session u → u = v)
    (hs : app.step w (i, e) = some w') : Without v mine w' x := by
  obtain ⟨hstep, hne⟩ := app_step_eq_some.mp hs
  have honly := h.own i hi
  refine ⟨app_step_inv h.inv hs, honly.server h.server hlabel hstep, ?_, ?_⟩
  · intro j hj
    rw [hne j (ne_of_mine hi hj)]
    exact h.others j hj
  · intro j hj
    by_cases hji : j = i
    · subst hji
      exact honly.step (h.inv j) hlabel hstep
    · rw [hne j hji]
      exact h.own j hj

/-- A step of another device is. -/
theorem Without.step_other {mine : ℕ → Bool} {w w' x : World} {i : ℕ} {e : Event}
    (h : Without v mine w x) (hi : mine i = false)
    (hlabel : ∀ u, (w.device i).label e = .session u → u ≠ v)
    (hs : app.step w (i, e) = some w') :
    ∃ x', app.step x (i, e) = some x' ∧ Without v mine w' x' := by
  obtain ⟨hstep, hne⟩ := app_step_eq_some.mp hs
  obtain ⟨srv', d', hstep', hserver, hdevice⟩ := step_alike (h.others i hi) h.server hlabel hstep
  -- the same step, taken on the other side
  have hne' : ∀ j, j ≠ i → World.device ⟨srv', Function.update x.part i d'⟩ j = x.device j :=
    fun j hj => Function.update_of_ne hj d' x.part
  refine ⟨⟨srv', Function.update x.part i d'⟩, ?_, app_step_inv h.inv hs, hserver, ?_, ?_⟩
  · refine app_step_eq_some.mpr ⟨?_, hne'⟩
    simpa [World.device, World.server] using hstep'
  · intro j hj
    by_cases hji : j = i
    · subst hji
      simpa [World.device] using hdevice
    · rw [hne j hji, hne' j hji]
      exact h.others j hj
  · intro j hj
    rw [hne j (ne_of_mine hj hi).symm]
    exact h.own j hj

/-- One step: it is taken on both sides, or on neither. -/
theorem Without.step {mine : ℕ → Bool} {w w' x : World} {e : ℕ × Event} (h : Without v mine w x)
    (hapart : SessionsApart v mine w e) (hs : app.step w e = some w') :
    ∃ x', app.run x ([e].filter fun e => !mine e.1) = some x' ∧ Without v mine w' x' := by
  obtain ⟨i, e⟩ := e
  have hlabel : ∀ u, (w.device i).label e = .session u → (mine i = true ↔ u = v) := by
    intro u hu
    refine hapart u ?_
    simp only [hu]
    rfl
  cases hi : mine i with
  | true => exact ⟨x, by simp [hi], h.step_own hi (fun u hu => (hlabel u hu).mp hi) hs⟩
  | false =>
    have hother : ∀ u, (w.device i).label e = .session u → u ≠ v := by
      rintro u hu rfl
      exact ne_of_mine ((hlabel u hu).mpr rfl) hi rfl
    obtain ⟨x', hx, hwithout⟩ := h.step_other hi hother hs
    refine ⟨x', ?_, hwithout⟩
    rw [List.filter_cons_of_pos (by simp [hi])]
    exact (app.run_cons_eq_some).mpr ⟨x', hx, rfl⟩

/-- A whole run. -/
theorem Without.run {mine : ℕ → Bool} {w w' x : World} {es : List (ℕ × Event)}
    (h : Without v mine w x) (hapart : app.Always (SessionsApart v mine) w es)
    (hr : app.run w es = some w') :
    ∃ x', app.run x (es.filter fun e => !mine e.1) = some x' ∧ Without v mine w' x' := by
  induction es generalizing w x with
  | nil =>
    obtain rfl : w = w' := by simpa using hr
    exact ⟨x, rfl, h⟩
  | cons e es ih =>
    obtain ⟨w₁, h₁, h₂⟩ := (app.run_cons_eq_some).mp hr
    obtain ⟨x₁, hx₁, hwithout⟩ := h.step hapart.1 h₁
    obtain ⟨x', hx', hlast⟩ := ih hwithout (hapart.2 w₁ h₁) h₂
    refine ⟨x', ?_, hlast⟩
    rw [← List.singleton_append, List.filter_append]
    exact (app.run_append_eq_some).mpr ⟨x₁, hx₁, hx'⟩

/-- **Accounts are kept from one another.** Let an account be used on the devices `mine`
only, and no other account on these. What the other devices do in a run is then also a
run without the devices `mine`, from the same start. Every screen, alert, row and pending
request of theirs is the same in it, and the server holds the same for all other accounts:
Auth the same entry, the database the same tree everywhere but below `memory/<uid>` and
`user/<uid>` of the account. -/
theorem account_isolated {mine : ℕ → Bool} {w w' : World} {es : List (ℕ × Event)}
    (hw : app.init w)
    (hsession : ∀ i u, (w.device i).currentUser = some u → (mine i = true ↔ u = v))
    (hapart : app.Always (SessionsApart v mine) w es) (hr : app.run w es = some w') :
    ∃ x, app.run w (es.filter fun e => !mine e.1) = some x ∧
      (∀ i, mine i = false → x.device i = (w'.device i).withCache (x.device i).cache) ∧
      x.server.accounts.filter (fun a => a.uid ≠ v) =
        w'.server.accounts.filter (fun a => a.uid ≠ v) ∧
      PathTree.EqOutside (ownRefs v) w'.server.db x.server.db := by
  obtain ⟨x, hx, hwithout⟩ := (without_init hw hsession).run hapart hr
  refine ⟨x, hx, ?_, hwithout.server.accounts.symm, hwithout.server.db⟩
  intro i hi
  obtain ⟨-, cache, heq, -⟩ := hwithout.others i hi
  rw [heq]
  rfl

/-- `bob` renames himself on device 1, while `ann` adds a memory on device 0. -/
def annWhileBob : List (ℕ × Event) :=
  [.typed (.logIn bob.email bob.password), .press .logInBtnPressed,
    .authCompleted 0 (.success bob.uid), .press .myProfilePageBtnPressed,
    .press .updateUserNameBtnPressed].map (fun e => (1, e)) ++ alone annAddsMemory ++
  [.alertOk "ann" false, .writeDecided 0 true, .writeCompleted 0].map fun e => (1, e)

set_option maxRecDepth 10000 in
/-- Device 0 is the same when `ann` is alone. -/
theorem account_isolated_ann :
    ∃ w' x, app.run (World.start ⟨[ann, bob], none⟩) annWhileBob = some w' ∧
      app.run (World.start ⟨[ann, bob], none⟩) (alone annAddsMemory) = some x ∧
      x.device 0 = (w'.device 0).withCache (x.device 0).cache := by
  have hapart : app.Always (SessionsApart bob.uid (· == 1)) (World.start ⟨[ann, bob], none⟩)
      annWhileBob := by decide
  have hrun : (app.run (World.start ⟨[ann, bob], none⟩) annWhileBob).isSome = true := by decide
  obtain ⟨w', hw'⟩ := Option.isSome_iff_exists.mp hrun
  obtain ⟨x, hx, hsame, -⟩ := account_isolated (init_start _) (fun i u hu => by cases hu) hapart hw'
  exact ⟨w', x, hw', hx, hsame 0 rfl⟩

end DailyDiary
