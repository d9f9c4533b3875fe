/-
Auth requests complete in two events.

Auth decides a request on a queue of its own, where it also sets the current user or takes
it away; the completion block is dispatched to the main queue, and runs behind what is
there already, a press of the user for one. `app` runs the two in one step. Here a device
also keeps what Auth has decided of its requests, as a write keeps the verdict of the
server, and the block is an event of its own. A run of `app` is a run of this system in
which nothing comes between the two (`run_atOnce`).

The unwraps of `currentUser!.uid` are settled for this system. Every place that unwraps is
reached from a private screen, from a block of Auth, or from the acknowledgement of a user
name, which loads the profile again whenever it arrives. A private screen in sight has a
session (`Nav.SignedIn`), unless the SDK has signed the user out by force under it.
`no_nil_user` asks the other two to find a user, and the sign-outs by force to find no
private screen.
-/
import DailyDiary.PendingRequests
import DailyDiary.Session

set_option autoImplicit false

namespace DailyDiary

open Device Screen

/-! ## The two halves of a completion -/

namespace Device

/-- What Auth does to the session when it decides a request. -/
def authDecided (call : AuthCall) (reply : AuthReply) (d : Device) : Device :=
  match call, reply with
  | .signIn _ _ _, .success u => { d with currentUser := some u }
  | .createUser _ _ _ _, .success u => { d with currentUser := some u }
  | .updatePassword u _, .tokenInvalid => d.signOutByForce u
  | _, _ => d

/-- The completion block of an Auth request, with the session as it finds it. -/
def authBlock (call : AuthCall) (reply : AuthReply) (d : Device) : Result Device :=
  match call, reply with
  | .signIn self _ _, .success _ => LogInViewController.signInCompleted self false d
  | .signIn self _ _, _ => LogInViewController.signInCompleted self true d
  | .createUser self _ _ _, .success _ =>
    RegistrationViewController.createUserCompleted self false d
  | .createUser self _ _ _, _ => RegistrationViewController.createUserCompleted self true d
  | .updatePassword _ _, _ => pure d

/-- The block, run at once, is the completion that `app` runs. -/
theorem authCompleted_eq (call : AuthCall) (reply : AuthReply) (d : Device) :
    d.authCompleted call reply = (d.authDecided call reply).authBlock call reply := by
  cases call <;> cases reply <;> rfl

/-- The decision touches the session and nothing else. -/
theorem authDecided_eq (call : AuthCall) (reply : AuthReply) (d : Device) :
    ∃ user, d.authDecided call reply = { d with currentUser := user } := by
  unfold authDecided
  split
  · exact ⟨_, rfl⟩
  · exact ⟨_, rfl⟩
  · unfold signOutByForce
    split
    · exact ⟨none, rfl⟩
    · exact ⟨d.currentUser, rfl⟩
  · exact ⟨d.currentUser, rfl⟩

theorem authDecided_eraseAuth (call : AuthCall) (reply : AuthReply) (calls : List AuthCall)
    (d : Device) : { d with auths := calls }.authDecided call reply =
      { d.authDecided call reply with auths := calls } := by
  unfold authDecided
  split
  · rfl
  · rfl
  · unfold signOutByForce
    split <;> rfl
  · rfl

end Device

/-! ## The system -/

/-- A device, and the decisions of Auth whose blocks have not run, by the place of the
request among those that are pending. -/
structure QueueDevice where
  device : Device
  decided : ℕ → Option AuthReply

inductive QueueEvent where
  /-- anything but the completion of an Auth request -/
  | other (e : Event)
  /-- Auth decides the `i`-th pending request -/
  | authDecided (i : ℕ) (reply : AuthReply)
  /-- the block of the `i`-th pending request runs -/
  | authBlock (i : ℕ)

/-- A decision is made once and while the app runs; the block takes the request out, and
those behind it move up. -/
def queueStep (srv : Server) (q : QueueDevice) : QueueEvent → Option (Server × QueueDevice)
  | .other e =>
    if e.answers then none
    else (step srv q.device e).map fun r => (r.1, { q with device := r.2 })
  | .authDecided i reply =>
    if q.device.fault = none ∧ q.decided i = none then do
      let call ← q.device.auths[i]?
      let srv ← srv.answer call reply
      pure (srv, {
        device := q.device.authDecided call reply
        decided := Function.update q.decided i (some reply) })
    else none
  | .authBlock i =>
    if q.device.fault = none then do
      let call ← q.device.auths[i]?
      let reply ← q.decided i
      let d := { q.device with auths := q.device.auths.eraseIdx i }
      pure (srv, {
        device := q.device.settle (d.authBlock call reply)
        decided := fun j => q.decided (if j < i then j else j + 1) })
    else none

/-- One server and the devices. -/
abbrev QueueWorld := Transition.Interleaved ℕ Server QueueDevice

abbrev QueueWorld.device (w : QueueWorld) (i : ℕ) : Device := (w.part i).device

/-- The world with nothing on the main queues. -/
def World.queue (w : World) : QueueWorld where
  shared := w.server
  part i := ⟨w.device i, fun _ => none⟩

/-- The app with the two events. -/
def queueApp : Transition.System QueueWorld (ℕ × QueueEvent) where
  init w := ∃ w₀, app.init w₀ ∧ w = w₀.queue
  step := Transition.interleave queueStep

section Steps

variable {srv srv' : Server} {q q' : QueueDevice}

/-- The step of an event, by what it runs. -/
inductive QueueSteps (srv : Server) (q : QueueDevice) :
    QueueEvent → Server → QueueDevice → Prop where
  | other {e : Event} {srv' : Server} {d' : Device} (hno : e.answers = false)
      (h : step srv q.device e = some (srv', d')) :
      QueueSteps srv q (.other e) srv' { q with device := d' }
  | authDecided {i : ℕ} {reply : AuthReply} {call : AuthCall} {srv' : Server}
      (hcall : q.device.auths[i]? = some call) (hanswer : srv.answer call reply = some srv') :
      QueueSteps srv q (.authDecided i reply) srv'
        ⟨q.device.authDecided call reply, Function.update q.decided i (some reply)⟩
  | authBlock {i : ℕ} {reply : AuthReply} {call : AuthCall} (hf : q.device.fault = none)
      (hcall : q.device.auths[i]? = some call) (hreply : q.decided i = some reply) :
      QueueSteps srv q (.authBlock i) srv
        ⟨q.device.settle
            ({ q.device with auths := q.device.auths.eraseIdx i }.authBlock call reply),
          fun j => q.decided (if j < i then j else j + 1)⟩

/-- A step of the device with queues is one of three: the work queue decides a request, the
main queue runs its block, or anything else the device does. -/
theorem queueSteps_of_queueStep {e : QueueEvent} (h : queueStep srv q e = some (srv', q')) :
    QueueSteps srv q e srv' q' := by
  cases e with
  | other e =>
    simp only [queueStep, Option.ite_none_left_eq_some, Option.map_eq_some_iff] at h
    obtain ⟨hno, ⟨srv₁, d'⟩, hs, heq⟩ := h
    obtain ⟨rfl, rfl⟩ := Prod.mk.inj heq
    exact .other (by simpa using hno) hs
  | authDecided i reply =>
    obtain ⟨-, h⟩ := Option.ite_none_right_eq_some.mp h
    obtain ⟨call, hcall, h⟩ := Option.bind_eq_some_iff.mp h
    obtain ⟨srv₁, hanswer, h⟩ := Option.bind_eq_some_iff.mp h
    obtain ⟨rfl, rfl⟩ := Prod.mk.inj (Option.some.inj h)
    exact .authDecided hcall hanswer
  | authBlock i =>
    obtain ⟨hf, h⟩ := Option.ite_none_right_eq_some.mp h
    obtain ⟨call, hcall, h⟩ := Option.bind_eq_some_iff.mp h
    obtain ⟨reply, hreply, h⟩ := Option.bind_eq_some_iff.mp h
    obtain ⟨rfl, rfl⟩ := Prod.mk.inj (Option.some.inj h)
    exact .authBlock hf hcall hreply

theorem queueStep_authBlock {i : ℕ} {reply : AuthReply} {call : AuthCall}
    (hf : q.device.fault = none) (hcall : q.device.auths[i]? = some call)
    (hreply : q.decided i = some reply) : queueStep srv q (.authBlock i) = some (srv, {
      device := q.device.settle
        ({ q.device with auths := q.device.auths.eraseIdx i }.authBlock call reply)
      decided := fun j => q.decided (if j < i then j else j + 1) }) := by
  simp only [queueStep, if_pos hf, hcall, hreply]
  rfl

end Steps

/-! ## Runs of the app -/

/-- An event of `app` with nothing between a decision and its block. -/
def atOnce : ℕ × Event → List (ℕ × QueueEvent)
  | (i, .authCompleted k reply) => [(i, .authDecided k reply), (i, .authBlock k)]
  | (i, e) => [(i, .other e)]

theorem queueStep_other {srv srv' : Server} {d d' : Device} {e : Event}
    {decided : ℕ → Option AuthReply} (hno : e.answers = false)
    (h : step srv d e = some (srv', d')) :
    queueStep srv ⟨d, decided⟩ (.other e) = some (srv', ⟨d', decided⟩) := by
  simp [queueStep, hno, h]

/-- The decision, and behind it the block: the request is taken out again. -/
theorem queueStep_atOnce {srv srv' : Server} {d d' : Device} {k : ℕ} {reply : AuthReply}
    (h : step srv d (.authCompleted k reply) = some (srv', d')) :
    ∃ q, queueStep srv ⟨d, fun _ => none⟩ (.authDecided k reply) = some (srv', q) ∧
      queueStep srv' q (.authBlock k) = some (srv', ⟨d', fun _ => none⟩) := by
  have hf := fault_of_step h
  cases steps_of_step h with
  | authCompleted hr =>
    obtain ⟨call, hcall, hanswer, rfl⟩ := completeAuth_eq_some.mp hr
    obtain ⟨d₁, hd₁⟩ : ∃ d₁, d.authDecided call reply = d₁ := ⟨_, rfl⟩
    obtain ⟨user, huser⟩ := authDecided_eq call reply d
    rw [hd₁] at huser
    refine ⟨⟨d₁, Function.update (fun _ => none) k (some reply)⟩, ?_, ?_⟩
    · simp [queueStep, hf, hcall, hanswer, hd₁]
    · -- the block does not stop the app, as it finds the session that was set for it
      obtain ⟨d', hd', -⟩ := authCompleted_appends call reply
        { d with auths := d.auths.eraseIdx k }
      have hblock : { d₁ with auths := d.auths.eraseIdx k }.authBlock call reply = .ok d' := by
        rw [← hd₁, ← authDecided_eraseAuth, ← authCompleted_eq, hd']
      have hshift : (fun j => Function.update (fun _ => none) k (some reply)
          (if j < k then j else j + 1)) = fun _ => (none : Option AuthReply) := by
        funext j
        refine Function.update_of_ne ?_ _ _
        split <;> omega
      have hauths : d₁.auths = d.auths := by rw [huser]
      have hfault : d₁.fault = none := by rw [huser, hf]
      have hreply : Function.update (fun _ => none) k (some reply) k = some reply :=
        Function.update_self ..
      rw [queueStep_authBlock hfault (hauths.symm ▸ hcall) hreply]
      dsimp only
      rw [hauths, hblock, hshift, hd']
      rfl

theorem queueApp_step_eq_some {w w' : QueueWorld} {i : ℕ} {e : QueueEvent} :
    queueApp.step w (i, e) = some w' ↔
      queueStep w.shared (w.part i) e = some (w'.shared, w'.part i) ∧
        ∀ j, j ≠ i → w'.part j = w.part j :=
  Transition.interleave_eq_some

/-- One event of the app is one event, or two, of the system of its queues. -/
theorem step_atOnce {w w' : World} {e : ℕ × Event} (h : app.step w e = some w') :
    queueApp.run w.queue (atOnce e) = some w'.queue := by
  obtain ⟨i, e⟩ := e
  obtain ⟨hstep, hne⟩ := app_step_eq_some.mp h
  have hqueue : ∀ j, j ≠ i → w'.queue.part j = w.queue.part j :=
    fun j hj => congrArg (QueueDevice.mk · fun _ => none) (hne j hj)
  cases e with
  | authCompleted k reply =>
    obtain ⟨q, hdecided, hblock⟩ := queueStep_atOnce hstep
    let w₁ : QueueWorld := ⟨w'.server, Function.update w.queue.part i q⟩
    have hpart : w₁.part i = q := Function.update_self ..
    refine (queueApp.run_cons_eq_some).mpr ⟨w₁, ?_, (queueApp.run_cons_eq_some).mpr ⟨_, ?_, rfl⟩⟩
    · refine queueApp_step_eq_some.mpr ⟨?_, fun j hj => Function.update_of_ne hj _ _⟩
      rw [hpart]
      exact hdecided
    · refine queueApp_step_eq_some.mpr ⟨?_, ?_⟩
      · rw [hpart]
        exact hblock
      · intro j hj
        rw [hqueue j hj]
        exact (Function.update_of_ne hj _ _).symm
  | _ =>
    refine (queueApp.run_cons_eq_some).mpr ⟨_, ?_, rfl⟩
    exact queueApp_step_eq_some.mpr ⟨queueStep_other rfl hstep, hqueue⟩

/-- **The app runs its blocks at once.** A run of `app` is a run of the system with two
events for a completion, in which the block follows its decision. -/
theorem run_atOnce {w w' : World} {es : List (ℕ × Event)} (hr : app.run w es = some w') :
    queueApp.run w.queue (es.flatMap atOnce) = some w'.queue := by
  induction es generalizing w with
  | nil =>
    obtain rfl : w = w' := by simpa using hr
    rfl
  | cons e es ih =>
    obtain ⟨w₁, h₁, h₂⟩ := (app.run_cons_eq_some).mp hr
    rw [List.flatMap_cons]
    exact (queueApp.run_append_eq_some).mpr ⟨_, step_atOnce h₁, ih h₂⟩

/-! ## Unwrapping the uid -/

/-- The block of the event unwraps the uid: the row of a registration is written, or the
list opens over a login screen that is still on top. -/
inductive QueueDevice.BlockUnwraps (q : QueueDevice) : QueueEvent → Prop where
  | createUser {i : ℕ} {self : VcId} {email password userName : String} {u : Uid}
      (hcall : q.device.auths[i]? = some (.createUser self email password userName))
      (hreply : q.decided i = some (.success u)) : BlockUnwraps q (.authBlock i)
  | signIn {i : ℕ} {self : VcId} {email password : String} {u : Uid}
      (hcall : q.device.auths[i]? = some (.signIn self email password))
      (hreply : q.decided i = some (.success u)) (hon : q.device.onTop self) :
      BlockUnwraps q (.authBlock i)

/-- With the event the SDK signs the user out by force. -/
inductive QueueDevice.ForcesOut (q : QueueDevice) : QueueEvent → Prop where
  | tokenInvalid {i : ℕ} {u : Uid} {password : String}
      (hcall : q.device.auths[i]? = some (.updatePassword u password))
      (huser : q.device.currentUser = some u) : ForcesOut q (.authDecided i .tokenInvalid)

/-- What the session needs of an event. -/
structure QueueDevice.KeepsUser (q : QueueDevice) (e : QueueEvent) : Prop where
  /-- the acknowledgement of an accepted user name finds somebody signed in -/
  ack : ∀ e', e = .other e' → q.device.AcknowledgesUserName e' → q.device.currentUser ≠ none
  /-- so does a block of Auth that unwraps the uid -/
  block : q.BlockUnwraps e → q.device.currentUser ≠ none
  /-- a sign-out by force finds no private screen above the topmost login screen, and not
  the alert that opens the list -/
  forced : q.ForcesOut e → (∀ s ∈ current q.device.nav.stack, s.isPrivate = false) ∧
    q.device.nav.alert ≠ some .presentMemories

namespace Device

variable {d : Device} {call : AuthCall} {reply : AuthReply}

/-- Whoever is signed in goes by force only if the update is one of their own. -/
theorem user_of_signOutByForce {u : Uid} (hnone : (d.signOutByForce u).currentUser = none)
    (hsome : d.currentUser ≠ none) : d.currentUser = some u := by
  by_contra hne
  have hstays : d.signOutByForce u = d := if_neg hne
  rw [hstays] at hnone
  exact hsome hnone

/-- Only the answer to a request of Auth ends a session by force: the labels of the other events
leave the session alone, or end it as the user has asked. -/
theorem label_ne_forcedOut {e : Event} (h : e.answers = false) : d.label e ≠ .forcedOut := by
  cases e with
  | authCompleted => cases h
  | alertOk text throws =>
    simp only [label]
    split <;> simp
  | _ => simp [label]

/-- A block of Auth ends in a step of the navigation machine. -/
theorem authBlock_ends (h : d.Alive) (howned : call.OwnedBy d.screens)
    (hcreate : ∀ self email password userName u,
      call = .createUser self email password userName → reply = .success u →
        d.currentUser ≠ none)
    (hsign : ∀ self email password u, call = .signIn self email password →
      reply = .success u → d.onTop self → d.currentUser ≠ none) :
    ∃ l, l ≠ .forcedOut ∧ Ends d.nav l (d.authBlock call reply) := by
  cases call with
  | signIn self email password =>
    cases reply with
    | failure | tokenInvalid =>
      have halert := ends_presentAlert h howned
        (a := okAlert "Alert" "Wrong  email or passwoed") trivial
      exact ⟨.ui, nofun, halert.silent (silent_hudDismiss _)⟩
    | success u =>
      rcases Option.eq_none_or_eq_some d.currentUser with hu | ⟨v, hu⟩
      · -- covered, the login screen presents nothing
        have hoff : ¬ d.hudDismiss.onTop self := fun hon => hsign self email password u rfl rfl hon hu
        have hblock : d.authBlock (.signIn self email password) (.success u) = .ok d.hudDismiss :=
          if_neg hoff
        rw [hblock]
        exact ⟨.ui, nofun, ends_of_silent h (silent_hudDismiss d)⟩
      · have hends := signInCompleted_ends h v howned
        rw [← hu] at hends
        exact ⟨.session v, nofun, hends⟩
  | createUser self email password userName =>
    cases reply with
    | failure | tokenInvalid => exact ⟨.ui, nofun, h.stay⟩
    | success u =>
      obtain ⟨v, hu⟩ := Option.ne_none_iff_exists'.mp
        (hcreate self email password userName u rfl rfl)
      have hends := createUserCompleted_ends h v howned
      rw [← hu] at hends
      exact ⟨.session v, nofun, hends⟩
  | updatePassword v password => exact ⟨.ui, nofun, h.stay⟩

end Device

/-- What a run keeps on every device: the shape of its screens, and somebody signed in
wherever the app relies on it. -/
structure Device.HasUser (d : Device) : Prop where
  inv : d.Inv
  signedIn : d.nav.SignedIn
  fault : d.fault ≠ some .nilUser

theorem Device.hasUser_launch (user : Option Uid) : (launch user).HasUser :=
  ⟨inv_launch user, Nav.signedIn_launch user, nofun⟩

/-- A decision sets the user, or takes it away where nothing relies on it. -/
theorem Device.HasUser.authDecided {d : Device} {call : AuthCall} {reply : AuthReply}
    (h : d.HasUser) (hforced : ∀ u password, call = .updatePassword u password →
      reply = .tokenInvalid → d.currentUser = some u →
        (∀ s ∈ current d.nav.stack, s.isPrivate = false) ∧
          d.nav.alert ≠ some .presentMemories) : (d.authDecided call reply).HasUser := by
  obtain ⟨user, huser⟩ := authDecided_eq call reply d
  have hwf : (d.authDecided call reply).WellFormed := by
    rw [huser]
    exact ⟨h.inv.wf.ids, h.inv.wf.auths, h.inv.wf.writes⟩
  have hnav : (d.authDecided call reply).nav = { d.nav with user } := by rw [huser]; rfl
  refine ⟨⟨hwf, hnav ▸ h.inv.nav.setUser user⟩, ?_, by rw [huser]; exact h.fault⟩
  rw [hnav]
  cases user with
  | some u => exact Nav.signedIn_of_user rfl
  | none =>
    rcases Option.eq_none_or_eq_some d.currentUser with hu | ⟨v, hu⟩
    · -- nobody was signed in before either
      have hsame : ({ d.nav with user := none } : Nav) = d.nav := by
        rw [← hu]
        rfl
      rw [hsame]
      exact h.signedIn
    · cases call with
      | updatePassword w password =>
        cases reply with
        | tokenInvalid =>
          have hw : d.currentUser = some w :=
            user_of_signOutByForce (congrArg currentUser huser) (by simp [hu])
          obtain ⟨hpublic, halert⟩ := hforced w password rfl rfl hw
          refine ⟨?_, fun ha => absurd ha halert⟩
          intro s hs hp
          rw [hpublic s hs] at hp
          cases hp
        | _ => cases hu.symm.trans (congrArg currentUser huser)
      | _ =>
        cases reply with
        | success => cases congrArg currentUser huser
        | _ => cases hu.symm.trans (congrArg currentUser huser)

/-- **The session in one step.** -/
theorem Device.HasUser.step {srv srv' : Server} {q q' : QueueDevice} {e : QueueEvent}
    (h : q.device.HasUser) (hkeeps : q.KeepsUser e)
    (hs : queueStep srv q e = some (srv', q')) : q'.device.HasUser := by
  cases queueSteps_of_queueStep hs with
  | other hno hstep =>
    have hrefines := step_refines h.inv.wf h.inv.nav hstep
    refine ⟨h.inv.step hstep, ?_, ?_⟩
    · exact h.signedIn.step hrefines.step fun hforced => absurd hforced (label_ne_forcedOut hno)
    · intro hf
      cases hrefines.fault _ hf with
      | privileged e hu hp => exact h.signedIn.user_ne_none_of_privileged hp hu
      | acknowledgement hu hack => exact hkeeps.ack _ rfl hack hu
      | snapshot hc ho hq hm => exact absurd hm Memory.ofSnapshot_ne_nilUser
  | authDecided hcall hanswer =>
    refine h.authDecided ?_
    rintro u password rfl rfl hu
    exact hkeeps.forced (.tokenInvalid hcall hu)
  | @authBlock i reply call hf hcall hreply =>
    have herase := silent_eraseAuth i q.device
    have halive : q.device.Alive := ⟨h.inv.wf, hf⟩
    have howned := h.inv.wf.auths call (List.mem_of_getElem? hcall)
    have hcreate : ∀ self email password userName u,
        call = .createUser self email password userName → reply = .success u →
          q.device.currentUser ≠ none := by
      rintro self email password userName u rfl rfl
      exact hkeeps.block (.createUser hcall hreply)
    have hsign : ∀ self email password u, call = .signIn self email password →
        reply = .success u → q.device.onTop self → q.device.currentUser ≠ none := by
      rintro self email password u rfl rfl hon
      exact hkeeps.block (.signIn hcall hreply hon)
    obtain ⟨l, hl, hends⟩ :=
      authBlock_ends (halive.silent herase) (herase.screens ▸ howned) hcreate hsign
    rw [herase.nav_eq] at hends
    cases hr : { q.device with auths := q.device.auths.eraseIdx i }.authBlock call reply with
    | ok d' =>
      rw [hr] at hends
      obtain ⟨hwf, hfault, hstep⟩ := hends
      refine ⟨⟨hwf, h.inv.nav.step hstep⟩, ?_, ?_⟩
      · exact h.signedIn.step hstep fun hforced => absurd hforced hl
      · show d'.fault ≠ some .nilUser
        rw [hfault]
        nofun
    | error f =>
      rw [hr] at hends
      obtain ⟨-, hindex | ⟨-, hnone, hp⟩⟩ := hends
      · refine ⟨⟨⟨h.inv.wf.ids, h.inv.wf.auths, h.inv.wf.writes⟩, h.inv.nav⟩, h.signedIn, ?_⟩
        intro hnil
        rcases hindex with rfl | rfl <;> cases hnil
      · exact absurd hnone (h.signedIn.user_ne_none_of_privileged hp)

/-- The acting device is asked. -/
def KeepsUser (w : QueueWorld) (e : ℕ × QueueEvent) : Prop :=
  (w.part e.1).KeepsUser e.2

/-- **No nil session is unwrapped** in a run, on any device, in which the acknowledgements
of user names and the blocks of Auth find a user wherever they unwrap one, and the SDK
signs a user out by force only where no private screen can come into sight. -/
theorem no_nil_user {w : QueueWorld} {es : List (ℕ × QueueEvent)} (hw : queueApp.init w)
    (hkeeps : queueApp.Always KeepsUser w es) :
    queueApp.Throughout (fun v => ∀ i, (v.device i).fault ≠ some .nilUser) w es := by
  refine queueApp.throughout_of_invariant (I := fun v => ∀ i, (v.device i).HasUser) ?_
    (fun v hv i => (hv i).fault) ?_ hkeeps
  · rintro v ⟨i, e⟩ v' hv hkeeps hs j
    obtain ⟨hstep, hne⟩ := queueApp_step_eq_some.mp hs
    by_cases hj : j = i
    · subst hj
      exact (hv j).step hkeeps hstep
    · have hsame : v'.device j = v.device j := congrArg QueueDevice.device (hne j hj)
      rw [hsame]
      exact hv j
  · obtain ⟨w₀, hw₀, rfl⟩ := hw
    exact of_init hw₀ hasUser_launch

/-! ## `ann` and the late acknowledgement -/

/-- She enters a user name and logs out before the accepted write is acknowledged. -/
def ackAfterLogOut : List Event :=
  annOpensProfile ++
    [.press .updateUserNameBtnPressed, .alertOk "Ann" false, .writeDecided 0 true,
      .press .logOutBtnPressed, .alertOk "" false, .writeCompleted 0]

theorem nil_user_after_log_out :
    ¬ ∀ (w w' : QueueWorld) (es : List (ℕ × QueueEvent)), queueApp.init w →
      queueApp.run w es = some w' → ∀ i, (w'.device i).fault ≠ some .nilUser := by
  intro h
  have hfault : (app.run (World.start ⟨[ann], none⟩) (alone ackAfterLogOut)).map
      (fun w => (w.device 0).fault) = some (some .nilUser) := by decide
  obtain ⟨w', hr, hf⟩ := Option.map_eq_some_iff.mp hfault
  exact h _ _ _ ⟨_, init_start _, rfl⟩ (run_atOnce hr) 0 hf

/-- She logs in, and the block of her sign-in opens the list. -/
theorem no_nil_user_ann :
    queueApp.Throughout (fun v => ∀ i, (v.device i).fault ≠ some .nilUser)
      (World.start ⟨[ann], none⟩).queue
      [(0, .other (.typed (.logIn ann.email ann.password))), (0, .other (.press .logInBtnPressed)),
        (0, .authDecided 0 (.success ann.uid)), (0, .authBlock 0)] := by
  refine no_nil_user ⟨_, init_start _, rfl⟩ ?_
  refine ⟨⟨?_, nofun, nofun⟩, fun w₁ h₁ => ⟨⟨?_, nofun, nofun⟩, fun w₂ h₂ =>
    ⟨⟨nofun, nofun, nofun⟩, fun w₃ h₃ => ⟨⟨nofun, fun _ => ?_, nofun⟩, fun _ _ => trivial⟩⟩⟩⟩
  · rintro e' ⟨⟩ ⟨⟩
  · rintro e' ⟨⟩ ⟨⟩
  · -- the decision has set the user that the block unwraps
    have hend : (queueApp.run (World.start ⟨[ann], none⟩).queue
        [(0, .other (.typed (.logIn ann.email ann.password))),
          (0, .other (.press .logInBtnPressed)), (0, .authDecided 0 (.success ann.uid))]).map
        (fun w => (w.device 0).currentUser) = some (some ann.uid) := by decide
    rw [(queueApp.run_three_eq_some).mpr ⟨w₁, w₂, h₁, h₂, h₃⟩] at hend
    have huser : (w₃.device 0).currentUser = some ann.uid := Option.some.inj hend
    exact huser ▸ Option.some_ne_none _

end DailyDiary
