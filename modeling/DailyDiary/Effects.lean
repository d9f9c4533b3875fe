/-
What a step of a device can do to its controllers, its pending writes, its
requests to Auth and its stack, said once.

* `Assigns` lists the assignments handlers make to the variables and outlets of
  a controller, each with the event and the condition under which it is made;
* `Opens` lists the controllers a step can present, as they are when loaded;
* `Issues` lists the writes a step can hand to the database;
* `Requests` lists the requests a step can make of Auth.

`step_effect` is that a step does nothing else, apart from the events observers
raise when their tree changes. The invariants of the modules that follow are
proved from it by cases, and never unfold a handler.
-/
import DailyDiary.Refinement

set_option autoImplicit false

namespace DailyDiary

open Device

/-! ## The lists -/

/-- The event assigns to the variables and outlets of controller `i`, which was
`v` and is `v'` then. -/
inductive Device.Assigns (d : Device) : Event → VcId → ViewController → ViewController → Prop where
  | typed {t : Typing} {i : VcId} {v v' : ViewController} (hv : d.visible = some (i, v))
      (ht : t.apply v = some v') : Assigns d (.typed t) i v v'
  | logIn {i : VcId} {c : LogInViewController} (hv : d.visible = some (i, .logIn c)) :
      Assigns d (.press .logInBtnPressed) i (.logIn c)
        (.logIn { c with email := c.userEmailTextField, password := c.userPasswordTextField })
  | register {i : VcId} {c : RegistrationViewController}
      (hv : d.visible = some (i, .registration c)) :
      Assigns d (.press .registerBtnPressed) i (.registration c) (.registration c.readFields)
  | reset {i : VcId} {c : ForgetPasswordViewController}
      (hv : d.visible = some (i, .forgetPassword c)) :
      Assigns d (.press .resetBtnPressed) i (.forgetPassword c)
        (.forgetPassword { c with userEmail := c.userEmailTextField })
  | confirmPin {i : VcId} {c : ConfirmPINViewController}
      (hv : d.visible = some (i, .confirmPIN c)) :
      Assigns d (.press .confirmPinBtnPressed) i (.confirmPIN c)
        (.confirmPIN { c with pinCode := c.userPINConfirmTextField })
  | recreateDone {i : VcId} {c : RecreatePasswordViewController}
      (hv : d.visible = some (i, .recreatePassword c)) :
      Assigns d (.press .recreateDoneBtnPresed) i (.recreatePassword c)
        (.recreatePassword { c with
          newPassword := c.recreatPasswordTextField
          repeateNewPassword := c.repeatePasswordTextField })
  | memoryDone {draws : Draws} {i : VcId} {c c' : AddMemoryViewController}
      (hv : d.visible = some (i, .addMemory c)) (hc : c.readFields draws = .ok c') :
      Assigns d (.press (.memoryDoneBtnPressed draws)) i (.addMemory c) (.addMemory c')
  | passwordRejected {i : VcId} {c : ChangePasswordViewController}
      (hv : d.visible = some (i, .changePassword c)) :
      Assigns d (.press .passwordDoneBtnPressed) i (.changePassword c)
        (.changePassword { c with oldPassword := c.oldPasswordTextField })
  | passwordAccepted {i : VcId} {c : ChangePasswordViewController}
      (hv : d.visible = some (i, .changePassword c)) (hc : c.accepts) :
      Assigns d (.press .passwordDoneBtnPressed) i (.changePassword c)
        (.changePassword ({ c with
          oldPassword := c.oldPasswordTextField
          oldPasswordTextFieldIsHidden := true
          doneBtnIsHidden := true } : ChangePasswordViewController).showHiddenObjects)
  | update {i : VcId} {c : ChangePasswordViewController}
      (hv : d.visible = some (i, .changePassword c)) (hshown : c.updateBtnIsHidden = false) :
      Assigns d (.press .updateBtnPressed) i (.changePassword c) (.changePassword c.readFields)
  | userNameRead {k : ℕ} {i : VcId} {c : MyProfileViewController} (userName : String) :
      Assigns d (.readCompleted k) i (.myProfile c) (.myProfile { c with userNameLbl := userName })
  | passwordRead {k : ℕ} {i : VcId} {c : ChangePasswordViewController} (userPassword : String) :
      Assigns d (.readCompleted k) i (.changePassword c) (.changePassword { c with userPassword })
  | childAdded {i : VcId} {j : ℕ} {c : MyMemoriesViewController} {o : Observer} {key : String}
      {snapshot : Json} {m : Memory} (ho : c.observer = some o)
      (hq : o.queue[j]? = some (key, snapshot)) (hm : Memory.ofSnapshot snapshot = .ok m) :
      Assigns d (.childAdded i j) i (.myMemories c)
        (.myMemories ({ c with
          myMemoriesArray := c.myMemoriesArray ++ [m]
          observer := some { o with queue := o.queue.eraseIdx j } }
            : MyMemoriesViewController).reloadData)
  | appeared {e : Event} {i : VcId} {c : MyMemoriesViewController} :
      Assigns d e i (.myMemories c) (.myMemories c.reloadData)

/-- A controller as it is instantiated and loaded without a caller setting its
variables. -/
def ViewController.IsInitial : ViewController → Prop
  | .logIn c => c = {}
  | .registration c => c = {}
  | .forgetPassword c => c = {}
  | .confirmPIN c => c = {}
  | .recreatePassword c => c = {}
  | .myProfile c => c = {}
  | .changePassword c => c = ({} : ChangePasswordViewController).viewDidLoad
  | .imagePicker => True
  | _ => False

/-- The event presents the controller `v`, here as it is when loaded. -/
inductive Device.Opens (d : Device) : Event → ViewController → Prop where
  | initial {e : Event} {v : ViewController} (hv : v.IsInitial) : Opens d e v
  | memories {e : Event} (u : Uid) :
      Opens d e (.myMemories
        ({ observer := some ⟨u, none, []⟩ } : MyMemoriesViewController).reloadData)
  | addMemory {today : Date} {i : VcId} {c : MyMemoriesViewController}
      (hv : d.visible = some (i, .myMemories c)) :
      Opens d (.press (.addMemoriesBtnPressed today))
        (.addMemory ({ date := today, initator := "vc1" } : AddMemoryViewController).viewDidLoad)
  | showMemory {row : ℕ} {i : VcId} {c : MyMemoriesViewController} {m : Memory}
      (hv : d.visible = some (i, .myMemories c)) (hm : c.myMemoriesArray[row]? = some m) :
      Opens d (.press (.didSelectRowAt row))
        (.showMemory ({
          index := row
          memoryID := m.memoryID
          memoryTitle := m.memoryTitle
          memoryBody := m.memoryBody } : ShowMemoryViewController).viewDidLoad)
  | editMemory {today : Date} {i : VcId} {c : ShowMemoryViewController}
      (hv : d.visible = some (i, .showMemory c)) :
      Opens d (.press (.editBtnPressed today))
        (.addMemory ({
          date := today
          initator := "vc2"
          memoryID := c.memoryID
          memoryTitle := c.memoryTitle
          memoryBody := c.memoryBody } : AddMemoryViewController).viewDidLoad)

/-- The event hands the write `w` to the database. -/
inductive Device.Issues (d : Device) : Event → Write → Prop where
  | userRow {k : ℕ} {self : VcId} {email password name : String} {u : Uid}
      {c : RegistrationViewController}
      (hcall : d.auths[k]? = some (.createUser self email password name))
      (hc : d.vcs[self]? = some (.registration c)) :
      Issues d (.authCompleted k (.success u))
        { ref := userRef u, value := c.userDictionary, completion := .userRow }
  | memory {draws : Draws} {self : VcId} {c c' : AddMemoryViewController} {u : Uid}
      (hv : d.visible = some (self, .addMemory c)) (hc : c.readFields draws = .ok c')
      (hu : d.currentUser = some u) (hid : isValidPathString c'.memoryID = true) :
      Issues d (.press (.memoryDoneBtnPressed draws))
        { ref := (memoryRef u).childFromString c'.memoryID, value := c'.memory.toDictionary,
          completion := .memorySaved self }
  | deletion {text : String} {throws : Bool} {self : VcId} {c : ShowMemoryViewController} {u : Uid}
      (ha : d.alert.map Alert.action = some .deleteMemory)
      (ht : d.top = some (self, .showMemory c)) (hu : d.currentUser = some u)
      (hid : isValidPathString c.memoryID = true) :
      Issues d (.alertOk text throws)
        { ref := (memoryRef u).childFromString c.memoryID, value := none, completion := .none }
  | userName {text : String} {throws : Bool} {self : VcId} {c : MyProfileViewController} {u : Uid}
      (ha : d.alert.map Alert.action = some .setUserName)
      (ht : d.top = some (self, .myProfile c)) (hu : d.currentUser = some u) :
      Issues d (.alertOk text throws)
        { ref := userFieldRef u "userName", value := some (.leaf text),
          completion := .userName self }
  | password {self : VcId} {c : ChangePasswordViewController} {u : Uid}
      (hv : d.visible = some (self, .changePassword c)) (hshown : c.updateBtnIsHidden = false)
      (hc : c.readFields.rejection = none) (hu : d.currentUser = some u) :
      Issues d (.press .updateBtnPressed)
        { ref := userFieldRef u "password", value := some (.leaf c.readFields.newpassword),
          completion := .password }

/-- The event makes a request of Auth. -/
inductive Device.Requests (d : Device) : Event → AuthCall → Prop where
  | signIn {self : VcId} {c : LogInViewController} (hv : d.visible = some (self, .logIn c)) :
      Requests d (.press .logInBtnPressed)
        (.signIn self c.userEmailTextField c.userPasswordTextField)
  | createUser {self : VcId} {c : RegistrationViewController}
      (hv : d.visible = some (self, .registration c)) (hc : c.readFields.rejection = none) :
      Requests d (.press .registerBtnPressed)
        (.createUser self c.readFields.email c.readFields.password c.readFields.userName)
  | updatePassword {self : VcId} {c : ChangePasswordViewController} {u : Uid}
      (hv : d.visible = some (self, .changePassword c)) (hshown : c.updateBtnIsHidden = false)
      (hc : c.readFields.rejection = none) (hu : d.currentUser = some u) :
      Requests d (.press .updateBtnPressed) (.updatePassword u c.readFields.newpassword)

/-- `now` is what is left of `old`, up to `r`, followed by new entries, all of
which satisfy `p`. -/
def Extends {α : Type} (r : α → α → Prop) (p : α → Prop) (old now : List α) : Prop :=
  ∃ kept new, now = kept ++ new ∧ kept.length ≤ old.length ∧ (∀ a ∈ kept, ∃ b ∈ old, r b a) ∧
    ∀ a ∈ new, p a

namespace Extends

variable {α : Type} {r : α → α → Prop} {p : α → Prop} {old now : List α}

theorem of_kept (hlen : now.length ≤ old.length) (h : ∀ a ∈ now, ∃ b ∈ old, r b a) :
    Extends r p old now :=
  ⟨now, [], by simp, hlen, h, by simp⟩

theorem concat (h : Extends r p old now) {a : α} (ha : p a) : Extends r p old (now ++ [a]) := by
  obtain ⟨kept, new, rfl, hlen, hkept, hnew⟩ := h
  refine ⟨kept, new ++ [a], by simp, hlen, hkept, ?_⟩
  intro b hb
  rcases List.mem_append.mp hb with hb | hb
  · exact hnew b hb
  · obtain rfl := List.mem_singleton.mp hb
    exact ha

theorem mem (h : Extends r p old now) {a : α} (ha : a ∈ now) : (∃ b ∈ old, r b a) ∨ p a := by
  obtain ⟨kept, new, rfl, -, hkept, hnew⟩ := h
  rcases List.mem_append.mp ha with ha | ha
  · exact Or.inl (hkept a ha)
  · exact Or.inr (hnew a ha)

/-- What stands behind the whole of `old` is new. -/
theorem of_append {new : List α} (h : Extends r p old (old ++ new)) : ∀ a ∈ new, p a := by
  obtain ⟨kept, new', heq, hlen, -, hnew⟩ := h
  intro a ha
  apply hnew
  have hdrop : new = new'.drop (old.length - kept.length) := by
    have htail := congrArg (List.drop old.length) heq
    rw [List.drop_append, List.drop_append] at htail
    simpa [List.drop_eq_nil_of_le hlen] using htail
  rw [hdrop] at ha
  exact List.mem_of_mem_drop ha

end Extends

/-- Two writes that differ at most in the server's decision. -/
def Write.Same (w w' : Write) : Prop :=
  w.ref = w'.ref ∧ w.value = w'.value ∧ w.completion = w'.completion

theorem Write.Same.refl (w : Write) : w.Same w :=
  ⟨rfl, rfl, rfl⟩

theorem Observer.refresh_refresh (view : Option Json) (o : Observer) :
    (o.refresh view).refresh view = o.refresh view := by
  simp [Observer.refresh]

theorem ViewController.refresh_refresh (view : Option Json) (v : ViewController) :
    (v.refresh view).refresh view = v.refresh view := by
  cases v with
  | myMemories c =>
    cases ho : c.observer with
    | none => simp [ViewController.refresh, MyMemoriesViewController.refresh, ho]
    | some o =>
      simp [ViewController.refresh, MyMemoriesViewController.refresh, ho,
        Observer.refresh_refresh]
  | _ => rfl

/-- With the event the server's tree arrives. -/
def Event.receives : Event → Bool
  | .serverPush | .writeCompleted _ => true
  | _ => false

/-- With the event the server decides a write. -/
def Event.decides : Event → Bool
  | .writeDecided _ _ => true
  | _ => false

namespace Device

variable {d d₁ d₂ : Device} {e : Event}

/-! ## Effects -/

/-- `v'` is `v` after the event, up to the events observers raise when the tree
becomes `view`. -/
def Becomes (d : Device) (e : Event) (view : Option Json) (i : VcId) (v v' : ViewController) :
    Prop :=
  ∃ v₁, (v₁ = v ∨ d.Assigns e i v v₁) ∧ ((v' = v₁ ∧ view = d.view) ∨ v' = v₁.refresh view)

/-- The state `d₁` in the middle of a handler that was started in `d` by `e`,
before any observer has raised an event. -/
structure Assigned (d : Device) (e : Event) (d₁ : Device) : Prop where
  length : d₁.vcs.length = d.vcs.length
  vcs : ∀ (i : ℕ) v', d₁.vcs[i]? = some v' → ∃ v, d.vcs[i]? = some v ∧ (v' = v ∨ d.Assigns e i v v')
  writes : Extends Write.Same (d.Issues e) d.writes d₁.writes
  auths : Extends Eq (d.Requests e) d.auths d₁.auths
  cache : d₁.cache = d.cache
  stack : d₁.stack ⊆ d.stack
  pending : d.writes ⊆ d₁.writes

/-- The state `d'` after the event `e` in `d`. -/
structure Effect (d : Device) (e : Event) (d' : Device) : Prop where
  length : d.vcs.length ≤ d'.vcs.length
  vcs : ∀ (i : ℕ) v', d'.vcs[i]? = some v' →
    (∃ v, d.vcs[i]? = some v ∧ d.Becomes e d'.view i v v') ∨
      (i = d.vcs.length ∧ ∃ v, d.Opens e v ∧ v' = v.refresh d'.view)
  writes : Extends Write.Same (d.Issues e) d.writes d'.writes
  auths : Extends Eq (d.Requests e) d.auths d'.auths
  cache : d'.cache = d.cache ∨ e.receives = true
  stack : ∀ i ∈ d'.stack, i ∈ d.stack ∨ i = d.vcs.length
  pending : ∀ w ∈ d.writes, w.verdict = none → w ∈ d'.writes ∨ e.decides = true

/-! ## The operations -/

theorem Assigned.refl (d : Device) (e : Event) : Assigned d e d where
  length := rfl
  vcs := fun _ v hv => ⟨v, hv, Or.inl rfl⟩
  writes := .of_kept le_rfl fun w hw => ⟨w, hw, .refl w⟩
  auths := .of_kept le_rfl fun c hc => ⟨c, hc, rfl⟩
  cache := rfl
  stack := List.Subset.refl _
  pending := List.Subset.refl _

/-- An operation on the rest of the device. -/
theorem Assigned.other (h : Assigned d e d₁) (hv : d₂.vcs = d₁.vcs) (hc : d₂.cache = d₁.cache)
    (hw : d₂.writes = d₁.writes) (ha : d₂.auths = d₁.auths) (hs : d₂.stack ⊆ d₁.stack) :
    Assigned d e d₂ where
  length := by rw [hv, h.length]
  vcs := by
    rw [hv]
    exact h.vcs
  writes := hw ▸ h.writes
  auths := ha ▸ h.auths
  cache := hc.trans h.cache
  stack := List.Subset.trans hs h.stack
  pending := hw ▸ h.pending

theorem Assigned.setVc (h : Assigned d e d₁) {i : VcId} {v' : ViewController}
    (hv : ∀ v, d.vcs[i]? = some v → d.Assigns e i v v') : Assigned d e (d₁.setVc i v') where
  length := by
    rw [Device.setVc, List.length_set, h.length]
  vcs := by
    intro j v₁ hj
    by_cases hij : i = j
    · subst hij
      have hlt : i < d.vcs.length := by
        have hlt₁ := (List.getElem?_eq_some_iff.mp hj).1
        simpa [Device.setVc, h.length] using hlt₁
      have hv₀ : d.vcs[i]? = some d.vcs[i] := List.getElem?_eq_getElem hlt
      rw [Device.setVc, List.getElem?_set_self (by rw [h.length]; exact hlt)] at hj
      obtain rfl := Option.some.inj hj
      exact ⟨d.vcs[i], hv₀, Or.inr (hv _ hv₀)⟩
    · rw [Device.setVc, List.getElem?_set_ne hij] at hj
      exact h.vcs j v₁ hj
  writes := h.writes
  auths := h.auths
  cache := h.cache
  stack := h.stack
  pending := h.pending

theorem Assigned.request (h : Assigned d e d₁) {call : AuthCall} (hc : d.Requests e call) :
    Assigned d e (d₁.request call) where
  length := h.length
  vcs := h.vcs
  writes := h.writes
  auths := h.auths.concat hc
  cache := h.cache
  stack := h.stack
  pending := h.pending

/-- Observers raise their events at the end of the operation. -/
theorem Assigned.refresh (h : Assigned d e d₁) : Effect d e d₁.refresh where
  length := by
    rw [Device.refresh, List.length_map, h.length]
  vcs := by
    intro i v' hi
    rw [Device.refresh, List.getElem?_map, Option.map_eq_some_iff] at hi
    obtain ⟨v₁, hv₁, rfl⟩ := hi
    obtain ⟨v, hv, hassign⟩ := h.vcs i v₁ hv₁
    exact Or.inl ⟨v, hv, v₁, hassign, Or.inr rfl⟩
  writes := h.writes
  auths := h.auths
  cache := Or.inl h.cache
  stack := fun _ hi => Or.inl (h.stack hi)
  pending := fun _ hw _ => Or.inl (h.pending hw)

theorem Assigned.effect (h : Assigned d e d₁) (hview : d₁.view = d.view) : Effect d e d₁ where
  length := h.length.ge
  vcs := by
    intro i v' hi
    obtain ⟨v, hv, hassign⟩ := h.vcs i v' hi
    exact Or.inl ⟨v, hv, v', hassign, Or.inl ⟨rfl, hview⟩⟩
  writes := h.writes
  auths := h.auths
  cache := Or.inl h.cache
  stack := fun _ hi => Or.inl (h.stack hi)
  pending := fun _ hw _ => Or.inl (h.pending hw)

theorem Assigned.setValue (h : Assigned d e d₁) {ref : Ref} {value : Option Json}
    {completion : Completion} (hw : d.Issues e { ref, value, completion }) :
    Effect d e (d₁.setValue ref value completion) :=
  Assigned.refresh ⟨h.length, h.vcs, h.writes.concat hw, h.auths, h.cache, h.stack,
    List.subset_append_of_subset_left _ h.pending⟩

/-- A second operation that leaves controllers, writes and the tree alone. -/
theorem Effect.other (h : Effect d e d₁) (hv : d₂.vcs = d₁.vcs) (hw : d₂.writes = d₁.writes)
    (hc : d₂.cache = d₁.cache) (ha : d₂.auths = d₁.auths) (hs : d₂.stack ⊆ d₁.stack) :
    Effect d e d₂ := by
  have hview : d₂.view = d₁.view := by rw [view, view, hw, hc]
  refine ⟨hv ▸ h.length, ?_, hw ▸ h.writes, ha ▸ h.auths, hc ▸ h.cache,
    fun i hi => h.stack i (hs hi), hw ▸ h.pending⟩
  rw [hv, hview]
  exact h.vcs

/-- Pushing one new screen after an effect is an effect, as long as no screen was pushed
before it and the new one is a screen the event opens. -/
theorem Effect.push (h : Effect d e d₁) (hlen : d₁.vcs.length = d.vcs.length) {v : ViewController}
    (hv : d.Opens e v) : Effect d e (d₁.push v) where
  length := by
    simp only [Device.push, refresh, List.length_map, List.length_append, List.length_singleton]
    omega
  vcs := by
    intro i v' hi
    have hview : (d₁.push v).view = d₁.view := rfl
    rw [hview]
    simp only [Device.push, refresh, List.getElem?_map, Option.map_eq_some_iff] at hi
    obtain ⟨v₁, hv₁, rfl⟩ := hi
    change (d₁.vcs ++ [v])[i]? = some v₁ at hv₁
    change _ ∨ (i = _ ∧ ∃ v₂, _ ∧ v₁.refresh d₁.view = _)
    by_cases hlt : i < d₁.vcs.length
    · rw [List.getElem?_append_left hlt] at hv₁
      rcases h.vcs i v₁ hv₁ with ⟨v₀, hv₀, v₂, hassign, hrefresh⟩ | ⟨heq, _⟩
      · -- an observer that has raised its events raises none again
        refine Or.inl ⟨v₀, hv₀, v₂, hassign, Or.inr ?_⟩
        rcases hrefresh with ⟨rfl, _⟩ | rfl
        · rfl
        · exact ViewController.refresh_refresh _ _
      · omega
    · have hi : i = d₁.vcs.length := by
        have hlt' := (List.getElem?_eq_some_iff.mp hv₁).1
        simp only [List.length_append, List.length_singleton] at hlt'
        omega
      subst hi
      rw [List.getElem?_concat_length] at hv₁
      obtain rfl := Option.some.inj hv₁
      exact Or.inr ⟨hlen, v, hv, rfl⟩
  writes := h.writes
  auths := h.auths
  cache := h.cache
  stack := by
    intro i hi
    rcases List.mem_cons.mp hi with rfl | hi
    · exact Or.inr hlen
    · exact h.stack i hi
  pending := h.pending

/-- Loading changes nothing but the pending reads. -/
theorem viewDidLoad_frame {i : VcId} {v v' : ViewController}
    (h : d₁.viewDidLoad i v = .ok (v', d₂)) :
    d₂.vcs = d₁.vcs ∧ d₂.writes = d₁.writes ∧ d₂.cache = d₁.cache ∧ d₂.auths = d₁.auths := by
  cases v with
  | myMemories c =>
    obtain ⟨c', _, hrest⟩ := Result.bind_eq_ok.mp h
    obtain ⟨-, rfl⟩ := Prod.mk.inj (Except.ok.inj hrest)
    exact ⟨rfl, rfl, rfl, rfl⟩
  | myProfile c =>
    obtain ⟨d₃, hd₃, hrest⟩ := Result.bind_eq_ok.mp h
    obtain ⟨u, _, hread⟩ := Result.bind_eq_ok.mp hd₃
    obtain rfl := Except.ok.inj hread
    obtain ⟨-, rfl⟩ := Prod.mk.inj (Except.ok.inj hrest)
    exact ⟨rfl, rfl, rfl, rfl⟩
  | _ =>
    simp only [viewDidLoad, Result.pure_eq_ok, Except.ok.injEq, Prod.mk.injEq] at h
    obtain ⟨-, rfl⟩ := h
    exact ⟨rfl, rfl, rfl, rfl⟩

/-- With somebody signed in `present` does not fail, and makes no request. -/
theorem present_of_some {u : Uid} (i : VcId) (v : ViewController) (hu : d.currentUser = some u) :
    ∃ d', d.present i v = .ok d' ∧ d'.auths = d.auths ∧ d'.writes = d.writes := by
  unfold present
  split
  · cases hload : d.viewDidLoad d.vcs.length v with
    | error f =>
      have hnone := (viewDidLoad_error hload).2.1
      rw [hu] at hnone
      cases hnone
    | ok r =>
      obtain ⟨-, hwrites, -, hauths⟩ := viewDidLoad_frame hload
      exact ⟨_, rfl, hauths, hwrites⟩
  · exact ⟨d, rfl, rfl, rfl⟩

/-- What a handler returns, as an effect; a handler that stops the app has none. -/
def Results (d : Device) (e : Event) : Result Device → Prop
  | .ok d' => Effect d e d'
  | .error _ => True

theorem Results.settle {r : Result Device} (h : Results d e r) : Effect d e (d.settle r) := by
  cases r with
  | ok d' => exact h
  | error f => exact ((Assigned.refl d e).effect rfl).other rfl rfl rfl rfl (List.Subset.refl _)

theorem results_present {i : VcId} {v : ViewController} (h : Effect d e d₁)
    (hlen : d₁.vcs.length = d.vcs.length)
    (hv : ∀ v' d₂, d₁.viewDidLoad d₁.vcs.length v = .ok (v', d₂) → d.Opens e v') :
    Results d e (d₁.present i v) := by
  unfold present
  split
  · cases hload : d₁.viewDidLoad d₁.vcs.length v with
    | error f => trivial
    | ok r =>
      obtain ⟨v', d₂⟩ := r
      obtain ⟨hvcs, hwrites, hcache, hauths⟩ := viewDidLoad_frame hload
      have hstack : d₂.stack = d₁.stack := (viewDidLoad_ok hload).2.2.stack
      have h₂ := h.other hvcs hwrites hcache hauths (hstack ▸ List.Subset.refl _)
      exact h₂.push (by rw [hvcs, hlen]) (hv v' d₂ hload)
  · exact h

/-- A controller as it is instantiated, before it is loaded. -/
def IsNew : ViewController → Prop
  | .logIn c => c = {}
  | .registration c => c = {}
  | .forgetPassword c => c = {}
  | .confirmPIN c => c = {}
  | .recreatePassword c => c = {}
  | .myMemories c => c = {}
  | .myProfile c => c = {}
  | .changePassword c => c = {}
  | .imagePicker => True
  | _ => False

/-- Loading a fresh controller gives a screen that the event opens: one with nothing in it
yet, or a list that observes its user and has no rows. -/
theorem opens_of_isNew {i : VcId} {v v' : ViewController} (hv : IsNew v)
    (h : d₁.viewDidLoad i v = .ok (v', d₂)) : d.Opens e v' := by
  cases v with
  | myMemories c =>
    obtain rfl : c = {} := hv
    obtain ⟨c', hc, hrest⟩ := Result.bind_eq_ok.mp h
    obtain ⟨u, _, hc'⟩ := Result.bind_eq_ok.mp hc
    obtain rfl := Except.ok.inj hc'
    obtain ⟨rfl, -⟩ := Prod.mk.inj (Except.ok.inj hrest)
    exact .memories u
  | myProfile c =>
    obtain rfl : c = {} := hv
    obtain ⟨d₃, _, hrest⟩ := Result.bind_eq_ok.mp h
    obtain ⟨rfl, -⟩ := Prod.mk.inj (Except.ok.inj hrest)
    exact .initial rfl
  | changePassword c =>
    obtain rfl : c = {} := hv
    obtain ⟨rfl, -⟩ := Prod.mk.inj (Except.ok.inj h)
    exact .initial rfl
  | addMemory c => exact hv.elim
  | showMemory c => exact hv.elim
  | _ =>
    obtain ⟨rfl, -⟩ := Prod.mk.inj (Except.ok.inj h)
    exact .initial hv

theorem results_present_new {i : VcId} {v : ViewController} (h : Effect d e d₁)
    (hlen : d₁.vcs.length = d.vcs.length) (hv : IsNew v) : Results d e (d₁.present i v) :=
  results_present h hlen fun _ _ hload => opens_of_isNew hv hload

theorem Assigned.presentAlert (h : Assigned d e d₁) (i : VcId) (a : Alert) :
    Assigned d e (d₁.presentAlert i a) :=
  h.other rfl rfl rfl rfl (List.Subset.refl _)

theorem results_dismiss : Results d e (.ok d.dismiss) := by
  unfold dismiss
  split
  · next i rest hstack =>
    have h : Assigned d e { d with stack := i :: rest } :=
      (Assigned.refl d e).other rfl rfl rfl rfl (hstack ▸ List.subset_cons_self _ _)
    unfold viewWillAppear
    split
    · next c hc =>
      refine (h.setVc ?_).effect rfl
      intro v hv
      obtain rfl := Option.some.inj (hc.symm.trans hv)
      exact .appeared
    · exact h.effect rfl
  · exact (Assigned.refl d e).effect rfl

/-! ## The buttons -/

/-- An assignment to the controller that is visible. -/
theorem assigned_visible {i : VcId} {v v' : ViewController} (h : Assigned d e d₁)
    (hv : d.visible = some (i, v)) (ha : d.Assigns e i v v') : Assigned d e (d₁.setVc i v') := by
  refine h.setVc ?_
  intro v₀ hv₀
  obtain rfl := Option.some.inj ((visible_eq_some.mp hv).2.symm.trans hv₀)
  exact ha

theorem logInBtnPressed_results {i : VcId} {c : LogInViewController}
    (hv : d.visible = some (i, .logIn c)) :
    Results d (.press .logInBtnPressed) (.ok (c.logInBtnPressed i d)) := by
  have hshow : Assigned d (.press .logInBtnPressed) d.hudShow :=
    (Assigned.refl d _).other rfl rfl rfl rfl (List.Subset.refl _)
  have hset := assigned_visible hshow hv (.logIn hv)
  unfold LogInViewController.logInBtnPressed
  dsimp only
  split
  · exact (hset.presentAlert _ _).effect rfl
  · split
    · exact (hset.presentAlert _ _).effect rfl
    · exact (hset.request (.signIn hv)).effect rfl

theorem registerBtnPressed_results {i : VcId} {c : RegistrationViewController}
    (hv : d.visible = some (i, .registration c)) :
    Results d (.press .registerBtnPressed) (.ok (c.registerBtnPressed i d)) := by
  have hshow : Assigned d (.press .registerBtnPressed) d.hudShow :=
    (Assigned.refl d _).other rfl rfl rfl rfl (List.Subset.refl _)
  have hset := assigned_visible hshow hv (.register hv)
  unfold RegistrationViewController.registerBtnPressed
  dsimp only
  split
  · exact (hset.presentAlert _ _).effect rfl
  · next hc => exact (hset.request (.createUser hv hc)).effect rfl

theorem resetBtnPressed_results {i : VcId} {c : ForgetPasswordViewController}
    (hv : d.visible = some (i, .forgetPassword c)) :
    Results d (.press .resetBtnPressed) (.ok (c.resetBtnPressed i d)) := by
  have hset := assigned_visible (Assigned.refl d _) hv (.reset hv)
  unfold ForgetPasswordViewController.resetBtnPressed
  dsimp only
  split
  · exact ((hset.presentAlert _ _).presentAlert _ _).effect rfl
  · exact (hset.presentAlert _ _).effect rfl

theorem confirmPinBtnPressed_results {i : VcId} {c : ConfirmPINViewController}
    (hv : d.visible = some (i, .confirmPIN c)) :
    Results d (.press .confirmPinBtnPressed) (c.confirmPinBtnPressed i d) := by
  have hset := assigned_visible (Assigned.refl d _) hv (.confirmPin hv)
  unfold ConfirmPINViewController.confirmPinBtnPressed
  dsimp only
  split
  · exact (hset.presentAlert _ _).effect rfl
  · split
    · exact (hset.presentAlert _ _).effect rfl
    · exact results_present_new (hset.effect rfl) hset.length rfl

theorem doneBtnPresed_results {i : VcId} {c : RecreatePasswordViewController}
    (hv : d.visible = some (i, .recreatePassword c)) :
    Results d (.press .recreateDoneBtnPresed) (.ok (c.doneBtnPresed i d)) := by
  have hset := assigned_visible (Assigned.refl d _) hv (.recreateDone hv)
  unfold RecreatePasswordViewController.doneBtnPresed
  dsimp only
  split
  · exact (hset.presentAlert _ _).effect rfl
  · split
    · exact (hset.presentAlert _ _).effect rfl
    · exact (hset.presentAlert _ _).effect rfl

theorem memoryDoneBtnPressed_results {i : VcId} {draws : Draws} {c : AddMemoryViewController}
    (hv : d.visible = some (i, .addMemory c)) :
    Results d (.press (.memoryDoneBtnPressed draws)) (c.doneBtnPressed i draws d) := by
  have hshow : Assigned d (.press (.memoryDoneBtnPressed draws)) d.hudShow :=
    (Assigned.refl d _).other rfl rfl rfl rfl (List.Subset.refl _)
  rcases AddMemoryViewController.doneBtnPressed_cases i draws c d with
    ⟨f, hstops, -⟩ | ⟨c', u, hc, hu, hid, hwrites⟩
  · rw [hstops]
    trivial
  · rw [hwrites]
    exact (assigned_visible hshow hv (.memoryDone hv hc)).setValue (.memory hv hc hu hid)

theorem passwordDoneBtnPressed_results {i : VcId} {c : ChangePasswordViewController}
    (hv : d.visible = some (i, .changePassword c)) :
    Results d (.press .passwordDoneBtnPressed) (c.doneBtnPressed i d) := by
  unfold ChangePasswordViewController.doneBtnPressed
  rcases Option.eq_none_or_eq_some d.currentUser with hu | ⟨u, hu⟩
  · rw [currentUid_of_none hu]
    trivial
  · rw [currentUid_of_some hu, Result.ok_bind]
    have hread : Assigned d (.press .passwordDoneBtnPressed)
        (d.observeSingleEvent (userRef u) (.password i)) :=
      (Assigned.refl d _).other rfl rfl rfl rfl (List.Subset.refl _)
    dsimp only
    split
    · exact (hread.presentAlert _ _).effect rfl
    · next hempty =>
      have hset := assigned_visible hread hv (.passwordRejected hv)
      split
      · exact (hset.presentAlert _ _).effect rfl
      · next hequal =>
        refine (assigned_visible hset hv (.passwordAccepted hv ⟨?_, ?_⟩)).effect rfl
        · intro h
          exact hempty (by simp [h])
        · exact not_not.mp hequal

theorem updateBtnPressed_results {i : VcId} {c : ChangePasswordViewController}
    (hv : d.visible = some (i, .changePassword c)) (hshown : c.updateBtnIsHidden = false) :
    Results d (.press .updateBtnPressed) (c.updateBtnPressed i d) := by
  have hshow : Assigned d (.press .updateBtnPressed) d.hudShow :=
    (Assigned.refl d _).other rfl rfl rfl rfl (List.Subset.refl _)
  have hset := assigned_visible hshow hv (.update hv hshown)
  unfold ChangePasswordViewController.updateBtnPressed
  dsimp only
  split
  · exact (hset.effect rfl).other rfl rfl rfl rfl (List.Subset.refl _)
  · next hc =>
    rcases Option.eq_none_or_eq_some d.currentUser with hu | ⟨u, hu⟩
    · rw [ChangePasswordViewController.updateStores_of_none (by exact hu), Result.error_bind]
      trivial
    · rw [ChangePasswordViewController.updateStores_of_some (by exact hu), Result.ok_bind]
      have hwrite := (hset.request (.updatePassword hv hshown hc hu)).setValue
        (.password hv hshown hc hu)
      exact hwrite.other rfl rfl rfl rfl (List.Subset.refl _)

theorem viewDidLoad_eq {i : VcId} {v v' : ViewController} (h : d.viewDidLoad i v = .ok (v', d₂)) :
    (∀ c, v = .addMemory c → v' = .addMemory c.viewDidLoad) ∧
      ∀ c, v = .showMemory c → v' = .showMemory c.viewDidLoad := by
  constructor
  · rintro c rfl
    exact (Prod.mk.inj (Except.ok.inj h)).1.symm
  · rintro c rfl
    exact (Prod.mk.inj (Except.ok.inj h)).1.symm

theorem didSelectRowAt_results {i : VcId} {row : ℕ} {c : MyMemoriesViewController}
    (hv : d.visible = some (i, .myMemories c)) :
    Results d (.press (.didSelectRowAt row)) (c.didSelectRowAt i row d) := by
  unfold MyMemoriesViewController.didSelectRowAt
  split
  · next m hm =>
    refine results_present ((Assigned.refl d _).effect rfl) rfl ?_
    intro v' d₂ hload
    rw [(viewDidLoad_eq hload).2 _ rfl]
    exact .showMemory hv hm
  · trivial

theorem editBtnPressed_results {i : VcId} {today : Date} {c : ShowMemoryViewController}
    (hv : d.visible = some (i, .showMemory c)) :
    Results d (.press (.editBtnPressed today)) (c.editBtnPressed i today d) := by
  refine results_present ((Assigned.refl d _).effect rfl) rfl ?_
  intro v' d₂ hload
  rw [(viewDidLoad_eq hload).1 _ rfl]
  exact .editMemory hv

theorem addMemoriesBtnPressed_results {i : VcId} {today : Date} {c : MyMemoriesViewController}
    (hv : d.visible = some (i, .myMemories c)) :
    Results d (.press (.addMemoriesBtnPressed today))
      (MyMemoriesViewController.addMemoriesBtnPressed i today d) := by
  refine results_present ((Assigned.refl d _).effect rfl) rfl ?_
  intro v' d₂ hload
  rw [(viewDidLoad_eq hload).1 _ rfl]
  exact .addMemory hv

theorem results_alert (i : VcId) (a : Alert) : Results d e (.ok (d.presentAlert i a)) :=
  ((Assigned.refl d e).presentAlert i a).effect rfl

theorem results_new (i : VcId) {v : ViewController} (hv : IsNew v) :
    Results d e (d.present i v) :=
  results_present_new ((Assigned.refl d e).effect rfl) rfl hv

/-- Every button. -/
theorem press_results {b : Button} {r : Result Device} (hr : d.press b = some r) :
    Results d (.press b) r := by
  cases presses_of_press hr with
  | logIn hv => exact logInBtnPressed_results hv
  | forgetPassword hv => exact results_new _ rfl
  | signUp hv => exact results_new _ rfl
  | register hv => exact registerBtnPressed_results hv
  | already hv => exact results_dismiss
  | reset hv => exact resetBtnPressed_results hv
  | forgetPasswordBack hv => exact results_dismiss
  | confirmPin hv => exact confirmPinBtnPressed_results hv
  | resend hv => exact results_alert _ _
  | recreateDone hv => exact doneBtnPresed_results hv
  | addMemories hv => exact addMemoriesBtnPressed_results hv
  | myProfilePage hv => exact results_new _ rfl
  | didSelectRow hv hrow => exact didSelectRowAt_results hv
  | showMemoryBack hv => exact results_dismiss
  | delete hv => exact results_alert _ _
  | edit hv => exact editBtnPressed_results hv
  | memoryDone hv => exact memoryDoneBtnPressed_results hv
  | cancel hv => exact results_new _ rfl
  | myProfileBack hv => exact results_dismiss
  | updateUserName hv => exact results_alert _ _
  | updatePassword hv => exact results_new _ rfl
  | logOut hv => exact results_alert _ _
  | tapGesture hv => exact results_alert _ _
  | imagePickerFinished hv => exact results_dismiss
  | changePasswordBack hv => exact results_dismiss
  | passwordDone hv hshown => exact passwordDoneBtnPressed_results hv
  | update hv hshown => exact updateBtnPressed_results hv hshown

/-! ## Alerts -/

theorem assigned_closeAlert : Assigned d e { d with alert := none } :=
  (Assigned.refl d e).other rfl rfl rfl rfl (List.Subset.refl _)

/-- An OK handler changes at most one screen and pushes at most one. The effect is that of
the handler on the device with its alert taken down. -/
theorem perform_results {act : AlertAction} {text : String} {throws : Bool} {r : Result Device}
    (ha : d.alert.map Alert.action = some act)
    (hr : { d with alert := none }.perform act text throws = some r) :
    Results d (.alertOk text throws) r := by
  have hclose : Assigned d (.alertOk text throws) { d with alert := none } := assigned_closeAlert
  cases performs_of_perform hr with
  | dismissOnly => exact hclose.effect rfl
  | presentMemories ht =>
    exact results_present_new ((hclose.effect rfl).other rfl rfl rfl rfl (List.Subset.refl _)) rfl
      rfl
  | presentMyProfile ht => exact results_present_new (hclose.effect rfl) rfl rfl
  | presentConfirmPIN ht => exact results_present_new (hclose.effect rfl) rfl rfl
  | presentLogIn ht => exact results_present_new (hclose.effect rfl) rfl rfl
  | @deleteMemory i c ht =>
    rcases ShowMemoryViewController.deleteConfirmed_cases i c { d with alert := none } with
      ⟨f, hstops, -⟩ | ⟨u, hu, hid, hwrites⟩
    · rw [hstops]
      trivial
    · rw [hwrites]
      refine results_present_new (hclose.setValue (.deletion ha ht hu hid)) ?_ rfl
      simp [setValue, refresh]
  | setUserName ht =>
    rcases Option.eq_none_or_eq_some d.currentUser with hu | ⟨u, hu⟩
    · rw [MyProfileViewController.userNameEntered_of_none (by exact hu)]
      trivial
    · rw [MyProfileViewController.userNameEntered_of_some (by exact hu)]
      exact hclose.setValue (.userName ha ht hu)
  | signOut ht =>
    unfold MyProfileViewController.logOutConfirmed
    have hout : ∀ user, Effect d (.alertOk text throws)
        { d with alert := none, currentUser := user, hud := false } := fun user =>
      (hclose.effect rfl).other rfl rfl rfl rfl (List.Subset.refl _)
    cases throws with
    | false => exact results_present_new (hout none) rfl rfl
    | true => exact results_present_new (hout d.currentUser) rfl rfl
  | openGallary ht => exact results_present_new (hclose.effect rfl) rfl trivial

theorem alertOk_results {text : String} {throws : Bool} {r : Result Device}
    (hr : d.alertOk text throws = some r) : Results d (.alertOk text throws) r := by
  obtain ⟨a, ha, hr⟩ := alertOk_eq_some.mp hr
  exact perform_results (by rw [ha]; rfl) hr

/-! ## Completions -/

/-- The server's tree arrives, after the writes it answers have left. -/
theorem effect_receive {db : Option Json} {ws : List Write} (hw : ws.Sublist d.writes)
    (hpending : ∀ w ∈ d.writes, w.verdict = none → w ∈ ws) (he : e.receives = true) :
    Effect d e ({ d with writes := ws }.receive db) where
  length := by simp [receive, refresh]
  vcs := by
    intro i v' hi
    rw [receive, refresh, List.getElem?_map, Option.map_eq_some_iff] at hi
    obtain ⟨v, hv, rfl⟩ := hi
    exact Or.inl ⟨v, hv, v, Or.inl rfl, Or.inr rfl⟩
  writes := .of_kept hw.length_le fun w hmem => ⟨w, hw.subset hmem, .refl w⟩
  auths := .of_kept le_rfl fun c hc => ⟨c, hc, rfl⟩
  cache := Or.inr he
  stack := fun _ hi => Or.inl hi
  pending := fun w hmem hnone => Or.inl (hpending w hmem hnone)

theorem assigned_eraseAuth (i : ℕ) (user : Option Uid) :
    Assigned d e { d with auths := d.auths.eraseIdx i, currentUser := user } :=
  { Assigned.refl d e with
    auths := .of_kept (List.length_eraseIdx_le d.auths i) fun c hc =>
      ⟨c, List.mem_of_mem_eraseIdx hc, rfl⟩ }

/-- A block of Auth changes at most one screen and pushes at most one, as `Results` says of
its event. The cases are the three requests and their replies. -/
theorem completeAuth_results {srv srv' : Server} {i : ℕ} {reply : AuthReply} {r : Result Device}
    (hr : completeAuth srv d i reply = some (srv', r)) :
    Results d (.authCompleted i reply) r := by
  obtain ⟨call, hcall, -, rfl⟩ := completeAuth_eq_some.mp hr
  have hfail := assigned_eraseAuth (d := d) (e := .authCompleted i reply) i d.currentUser
  cases call with
  | signIn self email password =>
    cases reply with
    | failure | tokenInvalid =>
      exact (hfail.effect rfl).other rfl rfl rfl rfl (List.Subset.refl _)
    | success u =>
      have hset := assigned_eraseAuth (d := d) (e := .authCompleted i (.success u)) i (some u)
      refine results_present_new ?_ rfl rfl
      exact (hset.effect rfl).other rfl rfl rfl rfl (List.Subset.refl _)
  | createUser self email password name =>
    cases reply with
    | failure | tokenInvalid => exact hfail.effect rfl
    | success u =>
      have hset := (assigned_eraseAuth (d := d) (e := .authCompleted i (.success u)) i
        (some u)).presentAlert self RegistrationViewController.congratulations
      show Results d _ (RegistrationViewController.createUserCompleted _ _ _)
      rcases RegistrationViewController.createUserCompleted_of_some (u := u)
        (d := { d with auths := d.auths.eraseIdx i, currentUser := some u }) rfl with
        ⟨c, hc, heq⟩ | ⟨-, heq⟩
      · rw [heq]
        exact hset.setValue (.userRow hcall hc)
      · rw [heq]
        exact hset.effect rfl
  | updatePassword v password =>
    cases reply with
    | failure => exact hfail.effect rfl
    | tokenInvalid =>
      have hout := assigned_eraseAuth (d := d) (e := .authCompleted i .tokenInvalid) i none
      show Results d _ (.ok (signOutByForce v _))
      unfold signOutByForce
      split
      · exact hout.effect rfl
      · exact hfail.effect rfl
    | success u => exact hfail.effect rfl

/-- What is answered leaves the list; the others stay. -/
theorem mem_eraseIdx_of_ne {α : Type} {l : List α} {i : ℕ} {a b : α} (ha : l[i]? = some a)
    (hb : b ∈ l) (hne : b ≠ a) : b ∈ l.eraseIdx i := by
  obtain ⟨j, hj⟩ := List.mem_iff_getElem?.mp hb
  refine List.mem_eraseIdx_iff_getElem?.mpr ⟨j, ?_, hj⟩
  rintro rfl
  exact hne (Option.some.inj (hj.symm.trans ha))

/-- The write that completes is a decided one. -/
theorem mem_eraseIdx_of_undecided {ws : List Write} {i : ℕ} {w : Write} {accepted : Bool}
    (hw : ws[i]? = some w) (hverdict : w.verdict = some accepted) :
    ∀ w' ∈ ws, w'.verdict = none → w' ∈ ws.eraseIdx i := by
  intro w' hmem hnone
  refine mem_eraseIdx_of_ne hw hmem ?_
  rintro rfl
  rw [hverdict] at hnone
  cases hnone

/-- A completion block of a write pushes no screen and assigns no text field: it presents an
alert, or the profile reads its user name again. -/
theorem completeWrite_results {srv : Server} {i : ℕ} {r : Result Device}
    (hr : completeWrite srv d i = some r) : Results d (.writeCompleted i) r := by
  obtain ⟨w, accepted, hw, hverdict, rfl⟩ := completeWrite_eq_some.mp hr
  have hreceive : Effect d (.writeCompleted i)
      ({ d with writes := d.writes.eraseIdx i }.receive srv.db) :=
    effect_receive (List.eraseIdx_sublist d.writes i) (mem_eraseIdx_of_undecided hw hverdict) rfl
  cases w.completion with
  | none => exact hreceive
  | userRow => exact hreceive
  | password => exact hreceive
  | memorySaved self =>
    cases accepted with
    | false => exact hreceive
    | true => exact hreceive.other rfl rfl rfl rfl (List.Subset.refl _)
  | userName self =>
    cases accepted with
    | false => exact hreceive
    | true =>
      show Results d _ (getUserNameFromDatabase self _)
      rcases Option.eq_none_or_eq_some d.currentUser with hu | ⟨u, hu⟩
      · rw [getUserNameFromDatabase_of_none (by exact hu)]
        trivial
      · rw [getUserNameFromDatabase_of_some (by exact hu)]
        exact hreceive.other rfl rfl rfl rfl (List.Subset.refl _)

theorem completeWrite_cache {srv : Server} {i : ℕ} (hr : completeWrite srv d i = some (.ok d₁)) :
    d₁.cache = srv.db := by
  obtain ⟨w, accepted, -, -, hr⟩ := completeWrite_eq_some.mp hr
  replace hr := hr.symm
  cases hcompletion : w.completion with
  | userName self =>
    rw [hcompletion] at hr
    cases accepted with
    | false =>
      obtain rfl := Except.ok.inj hr
      rfl
    | true =>
      obtain ⟨u, _, hread⟩ := Result.bind_eq_ok.mp hr
      obtain rfl := Except.ok.inj hread
      rfl
  | memorySaved self =>
    rw [hcompletion] at hr
    cases accepted <;> obtain rfl := Except.ok.inj hr <;> rfl
  | _ =>
    rw [hcompletion] at hr
    obtain rfl := Except.ok.inj hr
    rfl

/-- A snapshot that arrives fills the profile or the password screen that asked for it, and
changes no other screen. -/
theorem completeRead_effect {d' : Device} {i : ℕ} (h : completeRead d i = some d') :
    Effect d (.readCompleted i) d' := by
  obtain ⟨r, snapshot, -, -, rfl⟩ := completeRead_eq_some.mp h
  have herase : Assigned d (.readCompleted i) { d with reads := d.reads.eraseIdx i } :=
    (Assigned.refl d _).other rfl rfl rfl rfl (List.Subset.refl _)
  cases r.handler with
  | userName self =>
    simp only [readCompleted, MyProfileViewController.userNameRead]
    split
    · next c hc =>
      refine (herase.setVc ?_).effect rfl
      intro v hv
      obtain rfl := Option.some.inj (hc.symm.trans hv)
      exact .userNameRead _
    · exact herase.effect rfl
  | password self =>
    simp only [readCompleted, ChangePasswordViewController.passwordRead]
    split
    · next c hc =>
      refine (herase.setVc ?_).effect rfl
      intro v hv
      obtain rfl := Option.some.inj (hc.symm.trans hv)
      exact .passwordRead _
    · exact herase.effect rfl

/-- The server's decision on a write does not change what the device sees. -/
theorem view_set_verdict {i : ℕ} {w : Write} {verdict : Option Bool} (hw : d.writes[i]? = some w) :
    view { d with writes := d.writes.set i { w with verdict } } = d.view := by
  have hfold : ∀ ws : List Write, ws.foldl (fun t w => PathTree.set w.ref w.value t) d.cache =
      (ws.map fun w => (w.ref, w.value)).foldl (fun t p => PathTree.set p.1 p.2 t) d.cache := by
    intro ws
    rw [List.foldl_map]
  obtain ⟨hi, heq⟩ := List.getElem?_eq_some_iff.mp hw
  have hmap : (d.writes.set i { w with verdict }).map (fun w => (w.ref, w.value)) =
      d.writes.map fun w => (w.ref, w.value) := by
    rw [List.map_set]
    refine List.ext_getElem (by simp) ?_
    intro j h₁ h₂
    rw [List.getElem_set]
    split
    · next hij =>
      subst hij
      simp [heq]
    · rfl
  show (d.writes.set i { w with verdict }).foldl _ d.cache = d.writes.foldl _ d.cache
  rw [hfold, hfold, hmap]

theorem decideWrite_effect {srv srv' : Server} {d' : Device} {i : ℕ} {accepted : Bool}
    (h : decideWrite srv d i accepted = some (srv', d')) :
    Effect d (.writeDecided i accepted) d' := by
  obtain ⟨w, hw, -, -, rfl⟩ := decideWrite_eq_some.mp h
  have hview : view { d with writes := d.writes.set i { w with verdict := some accepted } } =
      d.view := view_set_verdict hw
  refine ⟨le_rfl, fun j v hj => Or.inl ⟨v, hj, v, Or.inl rfl, Or.inl ⟨rfl, hview⟩⟩,
    .of_kept (by simp) ?_, .of_kept le_rfl fun c hc => ⟨c, hc, rfl⟩, Or.inl rfl,
    fun _ hi => Or.inl hi, fun _ _ _ => Or.inr rfl⟩
  intro w' hw'
  rcases List.mem_or_eq_of_mem_set hw' with hw' | rfl
  · exact ⟨w', hw', .refl w'⟩
  · exact ⟨w, List.mem_of_getElem? hw, rfl, rfl, rfl⟩

theorem childAdded_results {i j : ℕ} {r : Result Device} (hr : d.childAdded i j = some r) :
    Results d (.childAdded i j) r := by
  obtain ⟨c, o, key, snapshot, hc, ho, hq, rfl⟩ := childAdded_eq_some.mp hr
  unfold MyMemoriesViewController.childAdded
  cases hm : Memory.ofSnapshot snapshot with
  | error f => trivial
  | ok m =>
    refine ((Assigned.refl d _).setVc ?_).effect rfl
    intro v hv
    obtain rfl := Option.some.inj (hc.symm.trans hv)
    exact .childAdded ho hq hm

theorem answerRead_effect {srv : Server} {d' : Device} {i : ℕ} (h : answerRead srv d i = some d') :
    Effect d (.readAnswered i) d' := by
  unfold answerRead at h
  split at h
  · split at h
    · obtain rfl := Option.some.inj h
      exact ((Assigned.refl d _).effect rfl).other rfl rfl rfl rfl (List.Subset.refl _)
    · cases h
  · cases h

end Device

/-- **What a step can do.** -/
theorem step_effect {srv srv' : Server} {d d' : Device} {e : Event}
    (h : step srv d e = some (srv', d')) : d.Effect e d' := by
  cases steps_of_step h with
  | typed ht =>
    obtain ⟨self, v, v', hv, hv', rfl⟩ := typed_eq_some.mp ht
    exact (assigned_visible (Assigned.refl d _) hv (.typed hv hv')).effect rfl
  | press hr => exact (press_results hr).settle
  | alertOk hr => exact (alertOk_results hr).settle
  | alertCancel hcancel =>
    obtain ⟨-, rfl⟩ := alertCancel_eq_some.mp hcancel
    exact assigned_closeAlert.effect rfl
  | authCompleted hr => exact (completeAuth_results hr).settle
  | writeDecided hw => exact decideWrite_effect hw
  | writeCompleted hr => exact (completeWrite_results hr).settle
  | serverPush => exact effect_receive (List.Sublist.refl d.writes) (fun _ hw _ => hw) rfl
  | readAnswered hr => exact answerRead_effect hr
  | readCompleted hr => exact completeRead_effect hr
  | childAdded hr => exact (childAdded_results hr).settle

/-! ## The server -/

theorem Server.answer_db {srv srv' : Server} {call : AuthCall} {reply : AuthReply}
    (h : srv.answer call reply = some srv') : srv'.db = srv.db := by
  unfold Server.answer at h
  split at h <;> try split at h
  all_goals first
    | cases h; rfl
    | cases h

/-- The server after its decision on a write. -/
theorem writeDecided_server {srv srv' : Server} {d d' : Device} {k : ℕ} {accepted : Bool}
    {w : Write} (hw : d.writes[k]? = some w)
    (h : step srv d (.writeDecided k accepted) = some (srv', d')) :
    srv' = if accepted then { srv with db := PathTree.set w.ref w.value srv.db } else srv := by
  cases steps_of_step h with
  | writeDecided hdecide =>
    obtain ⟨w', hw', -, rfl, -⟩ := decideWrite_eq_some.mp hdecide
    obtain rfl := Option.some.inj (hw.symm.trans hw')
    rfl

/-- The database changes only when the server accepts a pending write. -/
theorem step_db {srv srv' : Server} {d d' : Device} {e : Event}
    (h : step srv d e = some (srv', d')) :
    srv'.db = srv.db ∨ ∃ i w, e = .writeDecided i true ∧ d.writes[i]? = some w ∧
      w.verdict = none ∧ srv'.db = PathTree.set w.ref w.value srv.db := by
  cases steps_of_step h with
  | authCompleted hr =>
    obtain ⟨call, -, hanswer, -⟩ := completeAuth_eq_some.mp hr
    exact Or.inl (Server.answer_db hanswer)
  | @writeDecided i accepted srv' d' hdecide =>
    obtain ⟨w, hw, hverdict, rfl, -⟩ := decideWrite_eq_some.mp hdecide
    cases accepted with
    | false => exact Or.inl rfl
    | true => exact Or.inr ⟨i, w, rfl, hw, hverdict, rfl⟩
  | _ => exact Or.inl rfl

/-- A device's copy of the tree stays, or is the server's from now on. -/
theorem step_cache {srv srv' : Server} {d d' : Device} {e : Event}
    (h : step srv d e = some (srv', d')) : d'.cache = d.cache ∨ d'.cache = srv.db := by
  rcases (step_effect h).cache with hc | he
  · exact Or.inl hc
  · cases steps_of_step h with
    | serverPush => exact Or.inr rfl
    | @writeCompleted i r hr =>
      cases r with
      | error f => exact Or.inl rfl
      | ok d₁ => exact Or.inr (completeWrite_cache hr)
    | _ => cases he

end DailyDiary
