/-
The requests that are pending, and their order.

`step_effect` says which requests of a device are new after a step; here is where they
are. New requests come behind those that were pending, an answer takes its request out
of the list, the server's decision on a write is noted in place, and nothing else
touches the two lists (`step_queued`).
-/
import DailyDiary.Effects

set_option autoImplicit false

namespace DailyDiary

/-! ## Lists -/

/-- The list around one of its entries. -/
theorem exists_split {α : Type} {l : List α} {k : ℕ} {a : α} (h : l[k]? = some a) :
    ∃ l₁ l₂, l₁.length = k ∧ l = l₁ ++ a :: l₂ ∧ l.eraseIdx k = l₁ ++ l₂ ∧
      ∀ b, l.set k b = l₁ ++ b :: l₂ := by
  obtain ⟨hk, rfl⟩ := List.getElem?_eq_some_iff.mp h
  refine ⟨l.take k, l.drop (k + 1), List.length_take_of_le hk.le, ?_,
    List.eraseIdx_eq_take_drop_succ l k, fun b => List.set_eq_take_append_cons_drop.trans (if_pos hk)⟩
  rw [← List.drop_eq_getElem_cons hk, List.take_append_drop]

theorem getElem?_of_split {α : Type} {l l₁ l₂ : List α} {k : ℕ} {a : α} (hk : l₁.length = k)
    (h : l = l₁ ++ a :: l₂) : l[k]? = some a := by
  rw [h, ← hk, List.getElem?_append_right (Nat.le_refl _), Nat.sub_self]
  rfl

/-- With the event Auth answers a request. -/
def Event.answers : Event → Bool
  | .authCompleted _ _ => true
  | _ => false

namespace Device

variable {d d₁ d' d'' : Device} {self : VcId} {srv srv' : Server} {e : Event}

/-! ## What comes behind -/

/-- What was pending in `d` is pending in `d'`, in the same order and in front. -/
structure Appends (d d' : Device) : Prop where
  auths : d.auths <+: d'.auths
  writes : d.writes <+: d'.writes

theorem Appends.of_eq (hauths : d'.auths = d.auths) (hwrites : d'.writes = d.writes) :
    d.Appends d' where
  auths := hauths ▸ List.prefix_rfl
  writes := hwrites ▸ List.prefix_rfl

theorem Appends.refl (d : Device) : d.Appends d :=
  .of_eq rfl rfl

theorem Appends.trans (h : d.Appends d') (h' : d'.Appends d'') : d.Appends d'' where
  auths := h.auths.trans h'.auths
  writes := h.writes.trans h'.writes

theorem Appends.request (h : d.Appends d₁) (call : AuthCall) : d.Appends (d₁.request call) where
  auths := h.auths.trans (List.prefix_append _ _)
  writes := h.writes

theorem Appends.setValue (h : d.Appends d₁) (ref : Ref) (value : Option Json)
    (completion : Completion) : d.Appends (d₁.setValue ref value completion) where
  auths := h.auths
  writes := h.writes.trans (List.prefix_append _ _)

theorem appends_dismiss (d : Device) : d.Appends d.dismiss := by
  unfold dismiss
  split
  · unfold viewWillAppear
    split
    · exact .of_eq rfl rfl
    · exact .of_eq rfl rfl
  · exact .refl d

/-- A handler that stops the app leaves the requests as they are. -/
def AppendsResult (d : Device) : Result Device → Prop
  | .ok d' => d.Appends d'
  | .error _ => True

theorem AppendsResult.settle {r : Result Device} (h : d.AppendsResult r) :
    d.Appends (d.settle r) := by
  cases r with
  | ok d' => exact h
  | error f => exact .of_eq rfl rfl

theorem appends_present {v : ViewController} (h : d.Appends d₁) :
    d.AppendsResult (d₁.present self v) := by
  unfold present
  split
  · cases hload : d₁.viewDidLoad d₁.vcs.length v with
    | error f => trivial
    | ok r =>
      obtain ⟨v', d₂⟩ := r
      obtain ⟨-, hwrites, -, hauths⟩ := viewDidLoad_frame hload
      exact h.trans (.of_eq hauths hwrites)
  · exact h

/-- No button takes a request out. -/
theorem press_appends {b : Button} {r : Result Device} (hr : d.press b = some r) :
    d.AppendsResult r := by
  cases presses_of_press hr with
  -- the handlers that may start a request
  | @logIn i c hv =>
    unfold LogInViewController.logInBtnPressed
    dsimp only
    split
    · exact .of_eq rfl rfl
    · split
      · exact .of_eq rfl rfl
      · refine Appends.request ?_ _
        exact .of_eq rfl rfl
  | @register i c hv =>
    unfold RegistrationViewController.registerBtnPressed
    dsimp only
    split
    · exact .of_eq rfl rfl
    · refine Appends.request ?_ _
      exact .of_eq rfl rfl
  | @reset i c hv =>
    unfold ForgetPasswordViewController.resetBtnPressed
    dsimp only
    split <;> exact .of_eq rfl rfl
  | @confirmPin i c hv =>
    unfold ConfirmPINViewController.confirmPinBtnPressed
    dsimp only
    split
    · exact .of_eq rfl rfl
    · split
      · exact .of_eq rfl rfl
      · exact appends_present (.of_eq rfl rfl)
  | @recreateDone i c hv =>
    unfold RecreatePasswordViewController.doneBtnPresed
    dsimp only
    split
    · exact .of_eq rfl rfl
    · split <;> exact .of_eq rfl rfl
  | @didSelectRow row i c hv hrow =>
    unfold MyMemoriesViewController.didSelectRowAt
    split
    · exact appends_present (.refl d)
    · trivial
  | @memoryDone draws i c hv =>
    rcases AddMemoryViewController.doneBtnPressed_cases i draws c d with
      ⟨f, hstops, -⟩ | ⟨c', u, -, -, -, hwrites⟩
    · rw [hstops]
      trivial
    · rw [hwrites]
      refine Appends.setValue ?_ _ _ _
      exact .of_eq rfl rfl
  | @passwordDone i c hv hshown =>
    unfold ChangePasswordViewController.doneBtnPressed
    cases d.currentUid with
    | error f => trivial
    | ok u =>
      rw [Result.ok_bind]
      dsimp only
      split
      · exact .of_eq rfl rfl
      · split <;> exact .of_eq rfl rfl
  | @update i c hv hshown =>
    unfold ChangePasswordViewController.updateBtnPressed
    dsimp only
    split
    · exact .of_eq rfl rfl
    · rcases Option.eq_none_or_eq_some d.currentUser with hu | ⟨u, hu⟩
      · rw [ChangePasswordViewController.updateStores_of_none (by exact hu), Result.error_bind]
        trivial
      · rw [ChangePasswordViewController.updateStores_of_some (by exact hu), Result.ok_bind]
        have hset : d.Appends (d.hudShow.setVc i (.changePassword c.readFields)) := .of_eq rfl rfl
        exact ((hset.request _).setValue _ _ _).trans (.of_eq rfl rfl)
  -- dismissals, alerts and new screens
  | already hv => exact appends_dismiss d
  | forgetPasswordBack hv => exact appends_dismiss d
  | showMemoryBack hv => exact appends_dismiss d
  | myProfileBack hv => exact appends_dismiss d
  | imagePickerFinished hv => exact appends_dismiss d
  | changePasswordBack hv => exact appends_dismiss d
  | resend hv => exact .of_eq rfl rfl
  | delete hv => exact .of_eq rfl rfl
  | updateUserName hv => exact .of_eq rfl rfl
  | logOut hv => exact .of_eq rfl rfl
  | tapGesture hv => exact .of_eq rfl rfl
  | _ => exact appends_present (.refl d)

/-- An OK handler only appends to the queues of requests. So a request that is in flight
keeps its number, by which its completion finds it. -/
theorem perform_appends {act : AlertAction} {text : String} {throws : Bool} {r : Result Device}
    (hr : d.perform act text throws = some r) : d.AppendsResult r := by
  cases performs_of_perform hr with
  | dismissOnly => exact .refl d
  | @deleteMemory i c ht =>
    rcases ShowMemoryViewController.deleteConfirmed_cases i c d with
      ⟨f, hstops, -⟩ | ⟨u, -, -, hwrites⟩
    · rw [hstops]
      trivial
    · rw [hwrites]
      exact appends_present ((Appends.refl d).setValue ..)
  | @setUserName i c ht =>
    rcases Option.eq_none_or_eq_some d.currentUser with hu | ⟨u, hu⟩
    · rw [MyProfileViewController.userNameEntered_of_none hu]
      trivial
    · rw [MyProfileViewController.userNameEntered_of_some hu]
      exact (Appends.refl d).setValue ..
  | @signOut i c ht =>
    refine appends_present ?_
    cases throws <;> exact .of_eq rfl rfl
  | _ => exact appends_present (.of_eq rfl rfl)

theorem alertOk_appends {text : String} {throws : Bool} {r : Result Device}
    (hr : d.alertOk text throws = some r) : d.AppendsResult r := by
  obtain ⟨a, -, hperform⟩ := alertOk_eq_some.mp hr
  have hclosed := perform_appends hperform
  cases r with
  | ok d' => exact ⟨hclosed.auths, hclosed.writes⟩
  | error f => trivial

/-! ## Answers -/

/-- The block of an Auth request never stops the app; it makes no request of Auth, and
what it writes comes behind. -/
theorem authCompleted_appends (call : AuthCall) (reply : AuthReply) (d : Device) :
    ∃ d', d.authCompleted call reply = .ok d' ∧ d'.auths = d.auths ∧ d.writes <+: d'.writes := by
  cases call with
  | signIn i email password =>
    cases reply with
    | failure | tokenInvalid => exact ⟨_, rfl, rfl, List.prefix_rfl⟩
    | success u =>
      obtain ⟨d', hpresent, hauths, hwrites⟩ := present_of_some i (.myMemories {})
        (d := { d with currentUser := some u }.hudDismiss) rfl
      exact ⟨d', hpresent, hauths, hwrites ▸ List.prefix_rfl⟩
  | createUser i email password userName =>
    cases reply with
    | failure | tokenInvalid => exact ⟨_, rfl, rfl, List.prefix_rfl⟩
    | success u =>
      rcases RegistrationViewController.createUserCompleted_of_some (u := u)
        (d := { d with currentUser := some u }) rfl with ⟨c, -, heq⟩ | ⟨-, heq⟩
      · exact ⟨_, heq, rfl, List.prefix_append _ _⟩
      · exact ⟨_, heq, rfl, List.prefix_rfl⟩
  | updatePassword v password =>
    cases reply with
    | failure | success => exact ⟨d, rfl, rfl, List.prefix_rfl⟩
    | tokenInvalid =>
      refine ⟨_, rfl, ?_, ?_⟩
      · rw [signOutByForce_auths]
      · rw [signOutByForce_writes]

/-! ## A step -/

/-- The two lists after a step. -/
inductive Queued (d : Device) : Event → Device → Prop where
  /-- new requests come behind -/
  | appends {e : Event} {d' : Device} {calls : List AuthCall} {ws : List Write}
      (hanswers : e.answers = false) (hdecides : e.decides = false)
      (hauths : d'.auths = d.auths ++ calls) (hwrites : d'.writes = d.writes ++ ws)
      (hcalls : ∀ c ∈ calls, d.Requests e c) (hws : ∀ w ∈ ws, d.Issues e w) : Queued d e d'
  /-- a request of Auth is taken out -/
  | answered {k : ℕ} {reply : AuthReply} {d' : Device} {call : AuthCall} {l₁ l₂ : List AuthCall}
      {ws : List Write} (hk : l₁.length = k) (hauths : d.auths = l₁ ++ call :: l₂)
      (hauths' : d'.auths = l₁ ++ l₂) (hwrites : d'.writes = d.writes ++ ws)
      (hws : ∀ w ∈ ws, d.Issues (.authCompleted k reply) w) : Queued d (.authCompleted k reply) d'
  /-- the server decides a write -/
  | decided {k : ℕ} {accepted : Bool} {d' : Device} {w : Write} {l₁ l₂ : List Write}
      (hk : l₁.length = k) (hnone : w.verdict = none) (hwrites : d.writes = l₁ ++ w :: l₂)
      (hwrites' : d'.writes = l₁ ++ { w with verdict := some accepted } :: l₂)
      (hauths : d'.auths = d.auths) : Queued d (.writeDecided k accepted) d'
  /-- a decided write is taken out -/
  | acknowledged {k : ℕ} {accepted : Bool} {d' : Device} {w : Write} {l₁ l₂ : List Write}
      (hk : l₁.length = k) (hverdict : w.verdict = some accepted)
      (hwrites : d.writes = l₁ ++ w :: l₂) (hwrites' : d'.writes = l₁ ++ l₂)
      (hauths : d'.auths = d.auths) : Queued d (.writeCompleted k) d'

/-- What an event appends it has requested. -/
theorem queued_of_appends (hs : step srv d e = some (srv', d')) (hanswers : e.answers = false)
    (hdecides : e.decides = false) (h : d.Appends d') : d.Queued e d' := by
  obtain ⟨calls, hauths⟩ := h.auths
  obtain ⟨ws, hwrites⟩ := h.writes
  have heffect := step_effect hs
  refine .appends hanswers hdecides hauths.symm hwrites.symm ?_ ?_
  · exact (hauths ▸ heffect.auths).of_append
  · exact (hwrites ▸ heffect.writes).of_append

theorem completeAuth_queued {k : ℕ} {reply : AuthReply} {r : Result Device}
    (hr : completeAuth srv d k reply = some (srv', r))
    (hs : step srv d (.authCompleted k reply) = some (srv', d.settle r)) :
    d.Queued (.authCompleted k reply) (d.settle r) := by
  obtain ⟨call, hcall, -, rfl⟩ := completeAuth_eq_some.mp hr
  obtain ⟨l₁, l₂, hk, hsplit, herase, -⟩ := exists_split hcall
  obtain ⟨d', hr, hauths, ws, hwrites⟩ := authCompleted_appends call reply
    { d with auths := d.auths.eraseIdx k }
  rw [hr] at hs ⊢
  have heffect := step_effect hs
  -- what the block has written stands behind the rest
  exact .answered hk hsplit (hauths.trans herase) hwrites.symm
    (hwrites ▸ heffect.writes).of_append

/-- The block of a write that completes makes no request. -/
theorem writeCompleted_lists (completion : Completion) (failed : Bool) (d : Device) {d' : Device}
    (h : d.writeCompleted completion failed = .ok d') :
    d'.auths = d.auths ∧ d'.writes = d.writes := by
  cases completion with
  | memorySaved i =>
    obtain rfl := Except.ok.inj h
    cases failed <;> exact ⟨rfl, rfl⟩
  | userName i =>
    cases failed with
    | true =>
      obtain rfl := Except.ok.inj h
      exact ⟨rfl, rfl⟩
    | false =>
      obtain ⟨u, -, hread⟩ := Result.bind_eq_ok.mp h
      obtain rfl := Except.ok.inj hread
      exact ⟨rfl, rfl⟩
  | _ =>
    obtain rfl := Except.ok.inj h
    exact ⟨rfl, rfl⟩

theorem completeWrite_queued {k : ℕ} {r : Result Device} (hr : completeWrite srv d k = some r)
    (hs : step srv d (.writeCompleted k) = some (srv, d.settle r)) :
    d.Queued (.writeCompleted k) (d.settle r) := by
  obtain ⟨w, accepted, hw, hverdict, rfl⟩ := completeWrite_eq_some.mp hr
  obtain ⟨l₁, l₂, hk, hsplit, herase, -⟩ := exists_split hw
  cases hresult : Device.writeCompleted w.completion (!accepted)
      ({ d with writes := d.writes.eraseIdx k }.receive srv.db) with
  | error f =>
    -- the app has stopped in the block, with the write still in its list
    rw [hresult] at hs
    exact queued_of_appends hs rfl rfl (.of_eq rfl rfl)
  | ok d' =>
    obtain ⟨hauths, hwrites⟩ := writeCompleted_lists _ _ _ hresult
    exact .acknowledged hk hverdict hsplit (hwrites.trans herase) hauths

theorem decideWrite_queued {k : ℕ} {accepted : Bool}
    (h : decideWrite srv d k accepted = some (srv', d')) :
    d.Queued (.writeDecided k accepted) d' := by
  obtain ⟨w, hw, hnone, -, rfl⟩ := decideWrite_eq_some.mp h
  obtain ⟨l₁, l₂, hk, hsplit, -, hset⟩ := exists_split hw
  exact .decided hk hnone hsplit (hset _) rfl

/-- The blocks of reads make no request. -/
theorem completeRead_appends {k : ℕ} (h : completeRead d k = some d') : d.Appends d' := by
  obtain ⟨r, snapshot, -, -, rfl⟩ := completeRead_eq_some.mp h
  cases r.handler with
  | userName i =>
    simp only [readCompleted, MyProfileViewController.userNameRead]
    split <;> exact .of_eq rfl rfl
  | password i =>
    simp only [readCompleted, ChangePasswordViewController.passwordRead]
    split <;> exact .of_eq rfl rfl

theorem answerRead_appends {k : ℕ} (h : answerRead srv d k = some d') : d.Appends d' := by
  unfold answerRead at h
  split at h
  · split at h
    · obtain rfl := Option.some.inj h
      exact .of_eq rfl rfl
    · cases h
  · cases h

theorem childAdded_appends {i : VcId} {j : ℕ} {r : Result Device}
    (hr : d.childAdded i j = some r) : d.AppendsResult r := by
  obtain ⟨c, o, key, snapshot, -, -, -, rfl⟩ := childAdded_eq_some.mp hr
  unfold MyMemoriesViewController.childAdded
  cases Memory.ofSnapshot snapshot with
  | error f => trivial
  | ok m => exact .of_eq rfl rfl

end Device

open Device

/-- **The lists of pending requests after a step.** -/
theorem step_queued {srv srv' : Server} {d d' : Device} {e : Event}
    (h : step srv d e = some (srv', d')) : d.Queued e d' := by
  cases steps_of_step h with
  | typed ht =>
    obtain ⟨i, v, v', -, -, rfl⟩ := typed_eq_some.mp ht
    exact queued_of_appends h rfl rfl (.of_eq rfl rfl)
  | press hr => exact queued_of_appends h rfl rfl (press_appends hr).settle
  | alertOk hr => exact queued_of_appends h rfl rfl (alertOk_appends hr).settle
  | alertCancel hcancel =>
    obtain ⟨-, rfl⟩ := alertCancel_eq_some.mp hcancel
    exact queued_of_appends h rfl rfl (.of_eq rfl rfl)
  | authCompleted hr => exact completeAuth_queued hr h
  | writeDecided hdecide => exact decideWrite_queued hdecide
  | writeCompleted hr => exact completeWrite_queued hr h
  | serverPush => exact queued_of_appends h rfl rfl (.of_eq rfl rfl)
  | readAnswered hr => exact queued_of_appends h rfl rfl (answerRead_appends hr)
  | readCompleted hr => exact queued_of_appends h rfl rfl (completeRead_appends hr)
  | childAdded hr => exact queued_of_appends h rfl rfl (childAdded_appends hr).settle

end DailyDiary
