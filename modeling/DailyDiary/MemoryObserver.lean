/-
What the list of memories is given, and what the database's client tells it.

The list observes additions alone. In the model its device is told of the records that appear
in its tree (`World.additions`); the client raises an event for each child that its view gains.
Here a client with a view of the records of an account runs beside a device (`appWithView`):
it is handed what the device writes, what the server has there whenever the device receives
the server's tree, and the answers to the writes.

The view shows the device's tree in every run in which the writes at one place are answered
in their order, and the list is given what a listener to the view hears (`additions_heard`).
With one step of the device a child of the view changes once, although the tree and the answer
to a write come one after the other (`Watches.changes_once`).
-/
import DailyDiary.MemoryList
import DailyDiary.PendingWrites
import DailyDiary.FirebaseDatabase.Watches

set_option autoImplicit false

namespace DailyDiary

open FirebaseDatabase

/-! ## What the client is handed -/

/-- No write completes while an older one is pending that leads to its place or is led to by it. -/
def InOrder (d : Device) : Event → Prop
  | .writeCompleted k => ∀ w ∈ d.writes[k]?, ∀ v ∈ d.writes.take k,
    ¬ v.ref <+: w.ref ∧ ¬ w.ref <+: v.ref
  | _ => True

instance (d : Device) : (e : Event) → Decidable (InOrder d e)
  | .writeCompleted k => inferInstanceAs (Decidable (∀ w ∈ d.writes[k]?, ∀ v ∈ d.writes.take k,
    ¬ v.ref <+: w.ref ∧ ¬ w.ref <+: v.ref))
  | .typed _ | .press _ | .alertOk _ _ | .alertCancel | .authCompleted _ _ | .writeDecided _ _
  | .serverPush | .readAnswered _ | .readCompleted _ | .childAdded _ _ => isTrue trivial

theorem InOrder.inTurn {d : Device} {e : Event} (h : InOrder d e) : InTurn d e := by
  cases e with
  | writeCompleted k => exact fun w hw v hv habove => (h w hw v hv).1 habove.1
  | _ => trivial

/-- The event of a client as one of a client with a view; `revert` is said with an answer. -/
def withAnswer (revert : Bool) : RepoEvent String String → SyncEvent String String
  | .set path node => .set path node
  | .ackWrite writeId => .ackWrite writeId revert

/-- The write that completes has been rejected. -/
def Device.reverts (d : Device) : Event → Bool
  | .writeCompleted k => (d.writes[k]?.bind Write.verdict) = some false
  | _ => false

/-- What the server sends for the place, from the tree the device has from now on; the one it had
when it has stopped in the block of a write. -/
def pushes (P : Ref) (d' : Device) (e : Event) : List (SyncEvent String String) :=
  if e.receives then [.serverOverwrite P (nodeFrom (PathTree.get P d'.cache))] else []

/-- What the step from `d` to `d'` brings to the client in `r`: what the server sends comes before
the answer to a write. -/
def syncEvents (P : Ref) (r : Repo String String) (d d' : Device) (e : Event) :
    List (SyncEvent String String) :=
  pushes P d' e ++ (repoEvents r d d' e).map (withAnswer (d.reverts e))

/-- The app, with the client of device `i` and its view of a place. -/
def appWithView (i : ℕ) (P : Ref) :
    Transition.System (World × SyncTree String String) (ℕ × Event) where
  init s := ∃ repos, appWithRepos.Reachable (s.1, repos) ∧
    addEventRegistration P (repos i) ⟨nodeFrom (PathTree.get P (s.1.device i).cache), true⟩ =
      some s.2
  step s e := do
    let w ← app.step s.1 e
    if e.1 = i then
      let t ← (syncTree P).run s.2 (syncEvents P s.2.repo (s.1.device i) (w.device i) e.2)
      pure (w, t)
    else pure (w, s.2)

/-! ## Places and content -/

/-- Rows and records lie deeper, and so do their fields. -/
def InnerPlace (p : Ref) : Prop :=
  p.length < 3

theorem Write.Placed.fits {w : Write} (h : w.Placed) :
    Node.Fits InnerPlace w.ref (nodeFrom w.value) where
  way q hq hne := by
    have hlt : q.length < w.ref.length :=
      hq.length_le.lt_of_ne fun hlen => hne (hq.eq_of_length hlen)
    rw [InnerPlace]
    rcases h.place with ⟨hlen, -⟩ | hlen <;> omega
  below r hr := by
    rw [InnerPlace, List.length_append] at hr
    rcases h.place with ⟨hlen, hvalue⟩ | hlen
    · obtain rfl : r = [] := List.length_eq_zero_iff.mp (by omega)
      exact leafValue_nodeFrom_of_ne hvalue
    · omega

theorem Deep.plain {t : Option Json} (h : Deep t) : (nodeFrom t).Plain InnerPlace := by
  intro p hp
  rw [getChild_nodeFrom]
  refine leafValue_nodeFrom_of_ne fun a ha => ?_
  exact absurd (h p a ha) (Nat.not_le.mpr hp)

theorem IsRecord.full {id : String} {n : Json} (h : IsRecord id n) : Full (some n) := by
  obtain ⟨-, m, -, hm⟩ := h
  rw [← hm]
  exact full_dictionary _ _ _

/-- Every record the device sees has content. -/
theorem KeepsSchema.fullChildren_memories {w : World} (h : KeepsSchema w) (i : ℕ) (u : Uid) :
    FullChildren (w.memories i u) := by
  intro id
  cases hn : PathTree.child id (w.memories i u) with
  | none => exact Or.inl rfl
  | some n => exact (h.isRecord hn).full

theorem KeepsSchema.fullChildren_trees {w : World} (h : KeepsSchema w) {i : ℕ} {u : Uid}
    {es : List (ℕ × Event)} : ∀ t ∈ w.trees i u es, FullChildren t := by
  intro t ht
  obtain ⟨v, hv, rfl⟩ := List.mem_map.mp ht
  obtain ⟨fs, hfs⟩ := app.run_of_mem_states hv
  exact (h.run hfs).fullChildren_memories i u

/-- What is given to a list, as nodes of the client. -/
theorem KeepsSchema.additions_nodeFrom {w : World} (h : KeepsSchema w) (i : ℕ) (u : Uid)
    (es : List (ℕ × Event)) : ((nodeFrom (w.memories i u)).childEntries ++
      (nodeFrom (w.memories i u)).appearances ((w.trees i u es).map nodeFrom)).Perm
        ((w.additions i u es).map nodeEntry) := by
  have hfirst := h.fullChildren_memories i u
  rw [World.additions, List.map_append]
  exact (childEntries_nodeFrom hfirst).append (appearances_nodeFrom hfirst h.fullChildren_trees)

/-! ## One step of the device -/

/-- An event makes one write at most. -/
theorem Device.Issues.unique {d : Device} {e : Event} {w w' : Write} (h : d.Issues e w)
    (h' : d.Issues e w') : w = w' := by
  cases h with
  | userRow hcall hc =>
    cases h' with
    | userRow hcall' hc' =>
      have heq := Option.some.inj (hcall.symm.trans hcall')
      obtain ⟨rfl, -, -, -⟩ := AuthCall.createUser.inj heq
      obtain rfl := ViewController.registration.inj (Option.some.inj (hc.symm.trans hc'))
      rfl
  | memory hv hc hu =>
    cases h' with
    | memory hv' hc' hu' =>
      obtain ⟨rfl, hvc⟩ := Prod.mk.inj (Option.some.inj (hv.symm.trans hv'))
      obtain rfl := ViewController.addMemory.inj hvc
      obtain rfl := Except.ok.inj (hc.symm.trans hc')
      obtain rfl := Option.some.inj (hu.symm.trans hu')
      rfl
  | deletion ha ht hu =>
    cases h' with
    | deletion ha' ht' hu' =>
      obtain ⟨rfl, hvc⟩ := Prod.mk.inj (Option.some.inj (ht.symm.trans ht'))
      obtain rfl := ViewController.showMemory.inj hvc
      obtain rfl := Option.some.inj (hu.symm.trans hu')
      rfl
    | userName ha' ht' hu' => cases ha.symm.trans ha'
  | userName ha ht hu =>
    cases h' with
    | deletion ha' ht' hu' => cases ha.symm.trans ha'
    | userName ha' ht' hu' =>
      obtain ⟨rfl, hvc⟩ := Prod.mk.inj (Option.some.inj (ht.symm.trans ht'))
      obtain rfl := Option.some.inj (hu.symm.trans hu')
      rfl
  | password hv hshown hc hu =>
    cases h' with
    | password hv' hshown' hc' hu' =>
      obtain ⟨rfl, hvc⟩ := Prod.mk.inj (Option.some.inj (hv.symm.trans hv'))
      obtain rfl := ViewController.changePassword.inj hvc
      obtain rfl := Option.some.inj (hu.symm.trans hu')
      rfl

/-- What the server sends or answers makes none. -/
theorem Device.Issues.not_receives {d : Device} {e : Event} {w : Write} (h : d.Issues e w) :
    e.receives = false := by
  cases h <;> rfl

/-- The client has the writes of the device, and the tree it has received. -/
structure Device.Watched (P : Ref) (d : Device) (s : SyncTree String String) : Prop where
  follows : Follows d.writes s.repo
  watches : Watches InnerPlace P (nodeFrom d.cache) s

variable {P : Ref} {d d' : Device} {srv srv' : Server} {e : Event} {s s' : SyncTree String String}
  {n : FirebaseDatabase.Node String String} {w : Write} {ws : List Write}

/-- **The view shows what the device sees.** -/
theorem Device.Watched.eventNode (h : d.Watched P s) (hplain : d.Plain) :
    s.eventNode = nodeFrom (PathTree.get P d.view) := by
  rw [h.watches.eventNode_eq, ← getChild_nodeFrom, Device.view,
    nodeFrom_view hplain.placed h.follows.writes_eq]

/-- The same write again. -/
theorem run_sets_again {rest : List Write} (hrest : ∀ v ∈ rest, v = w)
    (h : Follows (ws ++ [w]) s.repo) (hs : Watches InnerPlace P n s) :
    ∃ s', (syncTree P).run s (rest.map fun v => .set v.ref (nodeFrom v.value)) = some s' ∧
      Follows (ws ++ w :: rest) s'.repo ∧ Watches InnerPlace P n s' ∧
      s'.eventNode = s.eventNode ∧ s'.addedChildren = s.addedChildren := by
  induction rest generalizing ws s with
  | nil => exact ⟨s, rfl, h, hs, rfl, rfl⟩
  | cons v rest ih =>
    obtain rfl := hrest v List.mem_cons_self
    -- the client's last write is the one that is made again
    obtain ⟨before, c, after, hall, -, ⟨hpath, hvalue⟩, hafter⟩ := h.split
    obtain rfl := List.map_eq_nil_iff.mp hafter
    obtain ⟨s₁, hs₁, hset, hwatches, hnode⟩ := hs.set_again hall
    rw [hpath, hvalue] at hs₁ hset
    obtain ⟨s', hr, hfollows, hwatches', hnode', hadded⟩ :=
      ih (fun u hu => hrest u (List.mem_cons_of_mem v hu)) (h.set hset) hwatches
    refine ⟨s', ((syncTree P).run_cons_eq_some).mpr ⟨s₁, hs₁, hr⟩, ?_, hwatches',
      hnode'.trans hnode, hadded.trans ?_⟩
    · rwa [List.append_assoc] at hfollows
    · -- nothing is new, so nothing is heard
      rw [addedChildren_step hs₁, hnode, Node.added_self, List.append_nil]

/-- The writes of an event. -/
theorem run_sets (hw : ∀ v ∈ ws, v.Placed) (hsame : ∀ v ∈ ws, ∀ v' ∈ ws, v = v')
    (h : Follows d.writes s.repo) (hs : Watches InnerPlace P n s) :
    ∃ s', (syncTree P).run s (ws.map fun v => .set v.ref (nodeFrom v.value)) = some s' ∧
      Follows (d.writes ++ ws) s'.repo ∧ Watches InnerPlace P n s' ∧ Hears s s' := by
  cases ws with
  | nil =>
    rw [List.append_nil]
    exact ⟨s, rfl, h, hs, hears_refl s⟩
  | cons w rest =>
    obtain ⟨s₁, hs₁, hset, hwatches⟩ := hs.set (hw w List.mem_cons_self).fits
    obtain ⟨s', hr, hfollows, hwatches', hnode, hadded⟩ := run_sets_again
      (fun v hv => hsame v (List.mem_cons_of_mem w hv) w List.mem_cons_self) (h.set hset) hwatches
    refine ⟨s', ((syncTree P).run_cons_eq_some).mpr ⟨s₁, hs₁, hr⟩, hfollows, hwatches', ?_⟩
    have hhears := hears_of_step hs₁
    rwa [Hears, ← hnode, ← hadded] at hhears

/-- The client after what the server sends in the step. -/
structure Pushed (P : Ref) (d' : Device) (e : Event) (s s' : SyncTree String String) : Prop where
  run : (syncTree P).run s (pushes P d' e) = some s'
  repo : s'.repo = s.repo
  watches : Watches InnerPlace P (nodeFrom d'.cache) s'
  hears : Hears s s'
  same : e.receives = false → s' = s

/-- The client at the list's place can follow a step of the device: it takes what the server
sends in the step, and then watches the new cache. -/
theorem exists_pushed (hs : Watches InnerPlace P (nodeFrom d.cache) s) (hP : P.length = 2)
    (hplain : d'.Plain) (hcache : d'.cache = d.cache ∨ e.receives = true) :
    ∃ s', Pushed P d' e s s' := by
  by_cases hreceives : e.receives = true
  · have hinner : ∀ q, q <+: P → q ≠ P → InnerPlace q := fun q hq _ =>
      (hq.length_le.trans hP.le).trans_lt (by decide)
    obtain ⟨s', hs', hrepo, hwatches⟩ := hs.serverOverwrite hplain.deep.plain hinner
    refine ⟨s', ?_, hrepo, hwatches, hears_of_step hs', fun hno => ?_⟩
    · rw [pushes, if_pos hreceives, ← getChild_nodeFrom]
      exact ((syncTree P).run_cons_eq_some).mpr ⟨s', hs', rfl⟩
    · rw [hreceives] at hno
      cases hno
  · -- the device keeps its tree
    rw [← hcache.resolve_right hreceives] at hs
    refine ⟨s, ?_, rfl, hs, hears_refl s, fun _ => rfl⟩
    rw [pushes, if_neg hreceives]
    rfl

/-- The answer to a write. -/
theorem run_ackWrite {l₁ l₂ : List Write} (h : Follows (l₁ ++ w :: l₂) s.repo)
    (hs : Watches InnerPlace P n s)
    (horder : ∀ v ∈ l₁, ¬ v.ref <+: w.ref ∧ ¬ w.ref <+: v.ref) (revert : Bool) :
    ∃ before c after s', s.repo.pendingWriteTree.allWrites = before ++ c :: after ∧
      s.repo.pendingWriteTree.allWrites[l₁.length]? = some c ∧ c.path = w.ref ∧
      SyncTree.step P s (.ackWrite c.writeId revert) = some s' ∧
      s'.repo.pendingWriteTree.allWrites = before ++ after ∧
      Follows (l₁ ++ l₂) s'.repo ∧ Watches InnerPlace P n s' := by
  obtain ⟨es, hordered⟩ := h.ordered
  obtain ⟨before, c, after, hall, hbefore, ⟨hpath, -⟩, hafter⟩ := h.split
  have hlen : before.length = l₁.length := by simpa using congrArg List.length hbefore
  have hapart : Apart before c := by
    intro b hb
    obtain ⟨v, hv, href, -⟩ := exists_of_writes_eq hbefore hb
    rw [← href, hpath]
    exact horder v hv
  obtain ⟨s', hs', hack, hwatches⟩ := hs.ackWrite (hordered.writeForId hall)
    (hordered.foremost hall hapart) revert
  obtain ⟨r', hr', hall'⟩ := hordered.exists_ackWrite hall
  obtain rfl := Option.some.inj (hack.symm.trans hr')
  refine ⟨before, c, after, s', hall, getElem?_of_split hlen hall, hpath, hs', hall',
    ⟨⟨_, hordered.ackWrite hack⟩, ?_⟩, hwatches⟩
  rw [hall', List.map_append, List.map_append, hbefore, hafter]

/-- New writes are made with nothing else. -/
theorem Pushed.issues {s₁ : SyncTree String String} (h : Pushed P d' e s s₁)
    (hfollows : Follows d.writes s.repo) (hplain : d.Plain) (hwrites : d'.writes = d.writes ++ ws)
    (hws : ∀ w ∈ ws, d.Issues e w) (hne : ∀ k, e ≠ .writeCompleted k) :
    ∃ s', (syncTree P).run s (syncEvents P s.repo d d' e) = some s' ∧ d'.Watched P s' ∧
      Hears s s' := by
  obtain ⟨s', hr', hfollows', hwatches', hhears'⟩ := run_sets
    (fun v (hv : v ∈ ws) => hplain.keeps.clean.placed (hws v hv))
    (fun v hv v' hv' => (hws v hv).unique (hws v' hv')) (h.repo.symm ▸ hfollows) h.watches
  refine ⟨s', ((syncTree P).run_append_eq_some).mpr ⟨s₁, h.run, ?_⟩,
    ⟨hwrites ▸ hfollows', hwatches'⟩, ?_⟩
  · rw [repoEvents_of_ne hne, hwrites, List.drop_left, List.map_map]
    exact hr'
  · cases ws with
    | nil =>
      obtain rfl := Option.some.inj hr'
      exact h.hears
    | cons w ws =>
      rw [← h.same (hws w List.mem_cons_self).not_receives]
      exact hhears'

/-- The server's tree and the answer to a write come one after the other, and a child changes with
one of them. -/
theorem Pushed.acknowledged {s₁ : SyncTree String String} {k : ℕ} {l₁ l₂ : List Write}
    (h : Pushed P d' (.writeCompleted k) s s₁) (hwatched : d.Watched P s) (hP : P.length = 2)
    (hplain : d.Plain) (horder : InOrder d (.writeCompleted k)) (hk : l₁.length = k)
    (hwrites : d.writes = l₁ ++ w :: l₂) (hwrites' : d'.writes = l₁ ++ l₂) :
    ∃ s', (syncTree P).run s (syncEvents P s.repo d d' (.writeCompleted k)) = some s' ∧
      d'.Watched P s' ∧ Hears s s' := by
  have hw : d.writes[k]? = some w := getElem?_of_split hk hwrites
  have hlt : d'.writes.length < d.writes.length := by
    rw [hwrites, hwrites']
    simp
  have hfront : d.writes.take k = l₁ := by rw [hwrites, ← hk, List.take_left]
  have hfollows : Follows (l₁ ++ w :: l₂) s₁.repo := by
    rw [h.repo, ← hwrites]
    exact hwatched.follows
  obtain ⟨before, c, after, s', hall, hat, hpath, hs', hall', hfollows', hwatches'⟩ :=
    run_ackWrite hfollows h.watches (fun v hv => horder w hw v (hfront ▸ hv))
      (d.reverts (.writeCompleted k))
  refine ⟨s', ((syncTree P).run_append_eq_some).mpr ⟨s₁, h.run, ?_⟩,
    ⟨hwrites' ▸ hfollows', hwatches'⟩, ?_⟩
  · rw [repoEvents_writeCompleted, if_pos hlt, ← h.repo, ← hk, hat]
    exact ((syncTree P).run_cons_eq_some).mpr ⟨s', hk ▸ hs', rfl⟩
  · refine h.hears.trans (hears_of_step hs') fun k' => ?_
    refine hwatched.watches.changes_once h.watches hwatches' (h.repo ▸ hall) h.repo hall' ?_ k'
    intro j hj
    -- nothing is written below a record
    refine hj.eq_of_length_le ?_
    rw [hpath, List.length_append, hP, List.length_singleton]
    rcases (hplain.placed w (List.mem_of_getElem? hw)).place with ⟨hlen, -⟩ | hlen <;> omega

/-- **One step of the device.** The client's events are a run, the view goes on showing what the
device sees, and a listener hears what appears in it. -/
theorem Device.Watched.step (h : d.Watched P s) (hP : P.length = 2) (hplain : d.Plain)
    (hplain' : d'.Plain) (horder : InOrder d e)
    (hs : DailyDiary.step srv d e = some (srv', d')) :
    ∃ s', (syncTree P).run s (syncEvents P s.repo d d' e) = some s' ∧ d'.Watched P s' ∧
      Hears s s' := by
  obtain ⟨s₁, hpushed⟩ := exists_pushed h.watches hP hplain' (step_effect hs).cache
  have hfollows : Follows d.writes s₁.repo := hpushed.repo ▸ h.follows
  cases step_queued hs with
  | @appends e d' calls ws hanswers hdecides hauths hwrites hcalls hws =>
    by_cases he : ∃ k, e = .writeCompleted k
    · -- the app has stopped in the block of the write
      obtain ⟨k, rfl⟩ := he
      obtain rfl : ws = [] := List.eq_nil_iff_forall_not_mem.mpr fun w hw => by cases hws w hw
      rw [List.append_nil] at hwrites
      refine ⟨s₁, ((syncTree P).run_append_eq_some).mpr ⟨s₁, hpushed.run, ?_⟩,
        ⟨hwrites ▸ hfollows, hpushed.watches⟩, hpushed.hears⟩
      rw [repoEvents_writeCompleted, hwrites, if_neg (lt_irrefl _)]
      rfl
    · exact hpushed.issues h.follows hplain hwrites hws fun k hk => he ⟨k, hk⟩
  | @answered k reply d' call l₁ l₂ ws hk hauths hauths' hwrites hws =>
    exact hpushed.issues h.follows hplain hwrites hws (by simp)
  | @decided k accepted d' w l₁ l₂ hk hnone hwrites hwrites' hauths =>
    refine ⟨s₁, ((syncTree P).run_append_eq_some).mpr ⟨s₁, hpushed.run, ?_⟩,
      ⟨hfollows.decided hwrites hwrites', hpushed.watches⟩, hpushed.hears⟩
    rw [repoEvents_writeDecided s.repo hwrites hwrites']
    rfl
  | acknowledged hk hverdict hwrites hwrites' hauths =>
    exact hpushed.acknowledged h hP hplain horder hk hwrites hwrites'

/-! ## Runs -/

theorem appWithView_step_of_eq {i : ℕ} {w w' : World} {e : Event} (hs : app.step w (i, e) = some w')
    (hr : (syncTree P).run s (syncEvents P s.repo (w.device i) (w'.device i) e) = some s') :
    (appWithView i P).step (w, s) (i, e) = some (w', s') := by
  simp [appWithView, hs, hr]

theorem appWithView_step_of_ne {i j : ℕ} (hj : j ≠ i) {w w' : World} {e : Event}
    (hs : app.step w (j, e) = some w') :
    (appWithView i P).step (w, s) (j, e) = some (w', s) := by
  simp [appWithView, hs, hj]

/-- One step of the app, whatever the device. -/
theorem watched_step {w w' : World} {e : ℕ × Event} {i : ℕ}
    (h : (w.device i).Watched P s) (hP : P.length = 2) (hplain : (w.device i).Plain)
    (hplain' : (w'.device i).Plain) (horder : InOrder (w.device e.1) e.2)
    (hs : app.step w e = some w') : ∃ s', (appWithView i P).step (w, s) e = some (w', s') ∧
      (w'.device i).Watched P s' ∧ Hears s s' := by
  obtain ⟨j, e⟩ := e
  obtain ⟨hstep, hother⟩ := app_step_eq_some.mp hs
  by_cases hj : j = i
  · subst hj
    obtain ⟨s', hr, hwatched, hhears⟩ := h.step hP hplain hplain' horder hstep
    exact ⟨s', appWithView_step_of_eq hs hr, hwatched, hhears⟩
  · -- another device has moved
    refine ⟨s, appWithView_step_of_ne hj hs, ?_, hears_refl s⟩
    rw [hother i (Ne.symm hj)]
    exact h

/-- **A run.** A listener to the view has heard what was there and what has appeared to the
device. -/
theorem watched_run {w₀ w w' : World} {es : List (ℕ × Event)} {i : ℕ} {u : Uid}
    (h₀ : app.init w₀) (hdb : MemoryTree w₀.server.db ∧ Deep w₀.server.db)
    (hreach : ∃ es₀, app.run w₀ es₀ = some w) (h : (w.device i).Watched (memoryRef u) s)
    (hr : app.run w es = some w')
    (horder : app.Always (fun w e => InOrder (w.device e.1) e.2) w es) :
    ∃ s', (appWithView i (memoryRef u)).run (w, s) es = some (w', s') ∧
      (w'.device i).Watched (memoryRef u) s' ∧ s'.addedChildren.Perm (s.addedChildren ++
        (nodeFrom (w.memories i u)).appearances ((w.trees i u es).map nodeFrom)) := by
  induction es generalizing w s with
  | nil =>
    obtain rfl := Option.some.inj hr
    refine ⟨s, rfl, h, ?_⟩
    rw [World.trees, Transition.System.states, List.map_nil, List.map_nil,
      FirebaseDatabase.Node.appearances, List.append_nil]
  | cons e es ih =>
    obtain ⟨v, hs, hr'⟩ := app.run_cons_eq_some.mp hr
    obtain ⟨es₀, hr₀⟩ := hreach
    have hr₁ : app.run w₀ (es₀ ++ [e]) = some v :=
      (app.run_append_eq_some).mpr ⟨w, hr₀, (app.run_cons_eq_some).mpr ⟨v, hs, rfl⟩⟩
    have hplain := plain_of_run h₀ hdb hr₀ i
    have hplain' := plain_of_run h₀ hdb hr₁ i
    obtain ⟨s₁, hs₁, hwatched, hhears⟩ :=
      watched_step h (by rw [memoryRef_eq]; rfl) hplain hplain' horder.1 hs
    obtain ⟨s', hrun, hwatched', hperm⟩ := ih ⟨_, hr₁⟩ hwatched hr' (horder.2 v hs)
    refine ⟨s', ((appWithView i _).run_cons_eq_some).mpr ⟨_, hs₁, hrun⟩, hwatched', ?_⟩
    have hhears' : s₁.addedChildren.Perm (s.addedChildren ++
        (nodeFrom (w.memories i u)).added (nodeFrom (v.memories i u))) := by
      rw [World.memories, World.memories, ← h.eventNode hplain, ← hwatched.eventNode hplain']
      exact hhears
    rw [World.trees, app.states_cons hs, List.map_cons, List.map_cons,
      FirebaseDatabase.Node.appearances, ← List.append_assoc]
    exact hperm.trans (hhears'.append_right _)

/-- Every client has run. -/
theorem run_repos {w w' : World} {repos : ℕ → Repo String String} {es : List (ℕ × Event)}
    (hr : appWithRepos.run (w, fun _ => Repo.init) es = some (w', repos)) (i : ℕ) :
    ∃ fs, repo.run Repo.init fs = some (repos i) := by
  refine appWithRepos.run_invariant'
    (P := fun s => ∀ i, ∃ fs, repo.run Repo.init fs = some (s.2 i)) ?_ (fun _ => ⟨[], rfl⟩) hr i
  intro s e s' h hs j
  obtain ⟨v, r, -, hrun, rfl⟩ := appWithRepos_step_eq_some.mp hs
  dsimp only
  by_cases hj : j = e.1
  · subst hj
    obtain ⟨fs, hfs⟩ := h e.1
    rw [Function.update_self]
    exact ⟨_, (repo.run_append_eq_some).mpr ⟨_, hfs, hrun⟩⟩
  · rw [Function.update_of_ne hj]
    exact h j

/-- A view that is added to the client of a device. -/
theorem watched_of_addEventRegistration {r : Repo String String} (hrun : ∃ fs,
    repo.run Repo.init fs = some r) (h : Follows d.writes r) (hlayered : r.pendingWriteTree.Layered)
    (hplain : d.Plain) (P : Ref) :
    ∃ s, addEventRegistration P r ⟨nodeFrom (PathTree.get P d.cache), true⟩ = some s ∧
      d.Watched P s := by
  obtain ⟨fs, hfs⟩ := hrun
  have htidy : r.pendingWriteTree.Tidy InnerPlace := by
    refine ⟨hlayered, fun c hc => ?_⟩
    obtain ⟨w, hw, href, hvalue⟩ := exists_of_writes_eq h.writes_eq hc
    rw [← href, ← hvalue]
    exact (hplain.placed w hw).fits
  obtain ⟨s, hadd, -⟩ := exists_addEventRegistration P r ⟨nodeFrom (PathTree.get P d.cache), true⟩
  have hadd' := hadd
  rw [← getChild_nodeFrom] at hadd'
  obtain ⟨hrepo, hwatches⟩ := watches_of_addEventRegistration hfs htidy hplain.deep.plain hadd'
  exact ⟨s, hadd, hrepo ▸ h, hwatches⟩

/-- **The list is given what the client tells.** A view of the records of an account is added to
the client of a device in some state of a run of the app, and the run goes on; the writes at
one place are answered in their order. Then nothing that the device does makes an assertion of
its client fail, the view shows the records the device sees, and what its listeners to
additions have heard is what the lists of these records are given. -/
theorem additions_heard {w₀ w : World} {es₀ : List (ℕ × Event)} (h₀ : app.init w₀)
    (hdb : MemoryTree w₀.server.db ∧ Deep w₀.server.db) (hr₀ : app.run w₀ es₀ = some w)
    (horder₀ : app.Always (fun w e => InOrder (w.device e.1) e.2) w₀ es₀) (i : ℕ) (u : Uid) :
    ∃ repos s, appWithRepos.run (w₀, fun _ => Repo.init) es₀ = some (w, repos) ∧
      addEventRegistration (memoryRef u) (repos i)
        ⟨nodeFrom (PathTree.get (memoryRef u) (w.device i).cache), true⟩ = some s ∧
      ∀ w' es, app.run w es = some w' →
        app.Always (fun w e => InOrder (w.device e.1) e.2) w es →
        ∃ s', (appWithView i (memoryRef u)).run (w, s) es = some (w', s') ∧
          s'.eventNode = nodeFrom (w'.memories i u) ∧
          s'.addedChildren.Perm ((w.additions i u es).map nodeEntry) := by
  obtain ⟨repos, hrun, hfollow, hlayered⟩ := exists_repos h₀ hr₀
  have hturn : app.Always (fun w e => InTurn (w.device e.1) e.2) w₀ es₀ :=
    app.always_mono (fun _ _ _ h => h.inTurn) horder₀
  have hplain := plain_of_run h₀ hdb hr₀ i
  obtain ⟨s, hadd, hwatched⟩ := watched_of_addEventRegistration (run_repos hrun i) (hfollow i)
    (hlayered hturn i) hplain (memoryRef u)
  refine ⟨repos, s, hrun, hadd, fun w' es hr horder => ?_⟩
  obtain ⟨s', hrun', hwatched', hperm⟩ := watched_run h₀ hdb ⟨es₀, hr₀⟩ hwatched hr horder
  have hplain' := plain_of_run h₀ hdb ((app.run_append_eq_some).mpr ⟨w, hr₀, hr⟩) i
  refine ⟨s', hrun', hwatched'.eventNode hplain', ?_⟩
  have hfirst : s.addedChildren = (nodeFrom (w.memories i u)).childEntries := by
    rw [addedChildren_addEventRegistration hadd, hwatched.eventNode hplain, World.memories]
  rw [hfirst] at hperm
  exact hperm.trans (((keepsSchema_init h₀ hdb.1).run hr₀).additions_nodeFrom i u es)

set_option maxRecDepth 10000 in
theorem additions_heard_ann : ∃ w' s s', app.run (World.start ⟨[ann], none⟩) (alone annEditsMemory) =
    some w' ∧ (appWithView 0 (memoryRef ann.uid)).run (World.start ⟨[ann], none⟩, s)
      (alone annEditsMemory) = some (w', s') ∧
    s'.eventNode = nodeFrom (w'.memories 0 ann.uid) ∧ s'.addedChildren.Perm
      (((World.start ⟨[ann], none⟩).additions 0 ann.uid (alone annEditsMemory)).map nodeEntry) := by
  have hruns : (app.run (World.start ⟨[ann], none⟩) (alone annEditsMemory)).isSome := by decide
  obtain ⟨w', hr⟩ := Option.isSome_iff_exists.mp hruns
  have hdb : MemoryTree (World.start ⟨[ann], none⟩).server.db ∧
      Deep (World.start ⟨[ann], none⟩).server.db := ⟨memoryTree_of_empty rfl, deep_none⟩
  obtain ⟨-, s, -, -, hheard⟩ :=
    additions_heard (init_start _) hdb (app.run_nil _) trivial 0 ann.uid
  obtain ⟨s', hrun, hnode, hadded⟩ := hheard w' (alone annEditsMemory) hr (by decide)
  exact ⟨w', s, s', hr, hrun, hnode, hadded⟩

end DailyDiary
