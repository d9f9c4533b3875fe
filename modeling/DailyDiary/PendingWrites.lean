/-
The pending writes of a device as the database's client keeps them.

`Device.view` applies the pending writes of a device in turn to the tree it has last
received. The client does something else: it merges every write into one tree of writes when
it is issued, takes it out of the merge when it is answered, and applies the merge. Here the
two run side by side (`appWithRepos`): every `setValue` and `removeValue` of a device is
handed to its client, and every completed write is an answer.

The client follows the device in every run (`exists_repos`), and shows what `view` says where
no write completes while an older one above it is pending (`view_eq_eventCache`). The app
writes rows and fields of rows, so that can only be a field that overtakes its row.
-/
import DailyDiary.FirebaseDatabase.Repo
import DailyDiary.FirebaseDatabase.SnapshotUtilities
import DailyDiary.MemoryStore
import DailyDiary.PendingRequests
import Mathlib.Data.String.Basic

set_option autoImplicit false

namespace DailyDiary

open FirebaseDatabase

/-! ## What a device hands to the client -/

/-- What the step from `d` to `d'` asks of the client in `r`. -/
def repoEvents (r : Repo String String) (d d' : Device) : Event → List (RepoEvent String String)
  | .writeCompleted k =>
    if d'.writes.length < d.writes.length then
      (r.pendingWriteTree.allWrites[k]?.map fun w => .ackWrite w.writeId).toList
    else []
  | _ => (d'.writes.drop d.writes.length).map fun w => .set w.ref (nodeFrom w.value)

theorem repoEvents_writeCompleted (r : Repo String String) (d d' : Device) (k : ℕ) :
    repoEvents r d d' (.writeCompleted k) =
      if d'.writes.length < d.writes.length then
        (r.pendingWriteTree.allWrites[k]?.map fun w => .ackWrite w.writeId).toList
      else [] := rfl

theorem repoEvents_of_ne {e : Event} (he : ∀ k, e ≠ .writeCompleted k) (r : Repo String String)
    (d d' : Device) : repoEvents r d d' e =
      (d'.writes.drop d.writes.length).map fun w => .set w.ref (nodeFrom w.value) := by
  cases e with
  | writeCompleted k => exact absurd rfl (he k)
  | _ => rfl

/-- The app, with the database's client of every device. -/
def appWithRepos : Transition.System (World × (ℕ → Repo String String)) (ℕ × Event) where
  init s := app.init s.1 ∧ ∀ i, s.2 i = Repo.init
  step s e := do
    let w ← app.step s.1 e
    let d := s.1.device e.1
    let r ← repo.run (s.2 e.1) (repoEvents (s.2 e.1) d (w.device e.1) e.2)
    pure (w, Function.update s.2 e.1 r)

/-- The client has the writes of the device. -/
structure Follows (ws : List Write) (r : Repo String String) : Prop where
  ordered : ∃ es, Repo.Ordered es r
  writes_eq : r.pendingWriteTree.allWrites.map (fun w => (w.path, w.overwrite)) =
    ws.map fun w => (w.ref, nodeFrom w.value)

/-- Each of the client's writes is one of the device. -/
theorem exists_of_writes_eq {ws : List Write} {cs : List (WriteRecord String String)}
    (h : cs.map (fun c => (c.path, c.overwrite)) = ws.map fun w => (w.ref, nodeFrom w.value))
    {c : WriteRecord String String} (hc : c ∈ cs) :
    ∃ w ∈ ws, w.ref = c.path ∧ nodeFrom w.value = c.overwrite := by
  have hmem := List.mem_map_of_mem (f := fun c => (c.path, c.overwrite)) hc
  rw [h] at hmem
  obtain ⟨w, hw, heq⟩ := List.mem_map.mp hmem
  exact ⟨w, hw, Prod.mk.inj heq⟩

theorem follows_init : Follows [] Repo.init where
  ordered := ⟨[], Repo.ordered_init⟩
  writes_eq := rfl

/-- A new write is recorded behind the others. -/
theorem Follows.set {ws : List Write} {w : Write} {r r' : Repo String String} (h : Follows ws r)
    (hset : r.set w.ref (nodeFrom w.value) = some r') : Follows (ws ++ [w]) r' := by
  obtain ⟨es, hes⟩ := h.ordered
  refine ⟨⟨_, hes.set hset⟩, ?_⟩
  rw [hes.set_eq] at hset
  obtain rfl := Option.some.inj hset
  simp [h.writes_eq]

theorem Follows.sets {ws : List Write} {r : Repo String String} (h : Follows ws r)
    (new : List Write) : ∃ r', repo.run r (new.map fun w => .set w.ref (nodeFrom w.value)) =
      some r' ∧ Follows (ws ++ new) r' := by
  induction new generalizing ws r with
  | nil => exact ⟨r, rfl, by rwa [List.append_nil]⟩
  | cons w new ih =>
    obtain ⟨es, hes⟩ := h.ordered
    have hset := hes.set_eq w.ref (nodeFrom w.value)
    obtain ⟨r', hr', hfollows⟩ := ih (h.set hset)
    refine ⟨r', ?_, by rwa [List.append_assoc] at hfollows⟩
    exact (repo.run_cons_eq_some).mpr ⟨_, hset, hr'⟩

theorem Follows.split {ws₁ ws₂ : List Write} {w : Write} {r : Repo String String}
    (h : Follows (ws₁ ++ w :: ws₂) r) :
    ∃ before c after, r.pendingWriteTree.allWrites = before ++ c :: after ∧
      before.map (fun c => (c.path, c.overwrite)) =
        ws₁.map (fun w => (w.ref, nodeFrom w.value)) ∧
      (c.path = w.ref ∧ c.overwrite = nodeFrom w.value) ∧
      after.map (fun c => (c.path, c.overwrite)) =
        ws₂.map (fun w => (w.ref, nodeFrom w.value)) := by
  have heq := h.writes_eq
  rw [List.map_append, List.map_cons] at heq
  obtain ⟨before, rest, hall, hbefore, hrest⟩ := List.map_eq_append_iff.mp heq
  obtain ⟨c, after, rfl, hc, hafter⟩ := List.map_eq_cons_iff.mp hrest
  exact ⟨before, c, after, hall, hbefore, Prod.mk.inj hc, hafter⟩

/-- An answered write is the one at its place. When no older write leads to a place above it
on the device, none does in the client. -/
theorem Follows.ack {ws₁ ws₂ : List Write} {w : Write} {r : Repo String String}
    (h : Follows (ws₁ ++ w :: ws₂) r) : ∃ c r', r.pendingWriteTree.allWrites[ws₁.length]? = some c ∧
      repo.step r (.ackWrite c.writeId) = some r' ∧ Follows (ws₁ ++ ws₂) r' ∧
      ((∀ v ∈ ws₁, ¬ (v.ref <+: w.ref ∧ v.ref ≠ w.ref)) → Repo.NotBelow r c.writeId) := by
  obtain ⟨es, hes⟩ := h.ordered
  obtain ⟨before, c, after, hall, hbefore, ⟨hc, -⟩, hafter⟩ := h.split
  obtain ⟨r', hr', hall'⟩ := hes.exists_ackWrite hall
  have hlen : before.length = ws₁.length := by simpa using congrArg List.length hbefore
  refine ⟨c, r', getElem?_of_split hlen hall, hr', ⟨⟨_, hes.ackWrite hr'⟩, ?_⟩, ?_⟩
  · rw [hall', List.map_append, List.map_append, hbefore, hafter]
  · intro habove
    refine hes.notBelow hall ?_
    intro b hb
    obtain ⟨v, hv, href, -⟩ := exists_of_writes_eq hbefore hb
    rw [← href, hc]
    exact habove v hv

/-- No write completes while an older one above it is pending. -/
def InTurn (d : Device) : Event → Prop
  | .writeCompleted k => ∀ w ∈ d.writes[k]?, ∀ v ∈ d.writes.take k,
    ¬ (v.ref <+: w.ref ∧ v.ref ≠ w.ref)
  | _ => True

instance (d : Device) : (e : Event) → Decidable (InTurn d e)
  | .writeCompleted k => inferInstanceAs (Decidable (∀ w ∈ d.writes[k]?, ∀ v ∈ d.writes.take k,
    ¬ (v.ref <+: w.ref ∧ v.ref ≠ w.ref)))
  | .typed _ | .press _ | .alertOk _ _ | .alertCancel | .authCompleted _ _ | .writeDecided _ _
  | .serverPush | .readAnswered _ | .readCompleted _ | .childAdded _ _ => isTrue trivial

/-- Issuing writes is always admitted. -/
theorem always_sets (r : Repo String String) (ws : List Write) :
    repo.Always (Repo.Answers Repo.NotBelow) r
      (ws.map fun w => .set w.ref (nodeFrom w.value)) := by
  induction ws generalizing r with
  | nil => trivial
  | cons w ws ih => exact ⟨trivial, fun r' _ => ih r'⟩

/-- The client is not told of a decision. -/
theorem repoEvents_writeDecided (r : Repo String String) {d d' : Device} {k : ℕ} {accepted : Bool}
    {w : Write} {l₁ l₂ : List Write} (hwrites : d.writes = l₁ ++ w :: l₂)
    (hwrites' : d'.writes = l₁ ++ { w with verdict := some accepted } :: l₂) :
    repoEvents r d d' (.writeDecided k accepted) = [] := by
  rw [repoEvents_of_ne (by simp), hwrites, hwrites']
  simp

theorem Follows.decided {ws ws' l₁ l₂ : List Write} {w : Write} {accepted : Bool}
    {r : Repo String String} (h : Follows ws r) (hwrites : ws = l₁ ++ w :: l₂)
    (hwrites' : ws' = l₁ ++ { w with verdict := some accepted } :: l₂) : Follows ws' r := by
  refine ⟨h.ordered, h.writes_eq.trans ?_⟩
  rw [hwrites, hwrites']
  simp

/-- **The client follows one step of the device**, and answers come in turn where the
completions of the device do. -/
theorem Follows.step {d d' : Device} {srv srv' : Server} {e : Event} {r : Repo String String}
    (h : Follows d.writes r) (hs : DailyDiary.step srv d e = some (srv', d')) :
    ∃ r', repo.run r (repoEvents r d d' e) = some r' ∧ Follows d'.writes r' ∧
      (InTurn d e → repo.Always (Repo.Answers Repo.NotBelow) r (repoEvents r d d' e)) := by
  cases step_queued hs with
  | @appends e d' calls ws hanswers hdecides hauths hwrites hcalls hws =>
    by_cases he : ∃ k, e = .writeCompleted k
    · -- the app has stopped in the block of the write
      obtain ⟨k, rfl⟩ := he
      obtain rfl : ws = [] := List.eq_nil_iff_forall_not_mem.mpr fun w hw => by cases hws w hw
      rw [List.append_nil] at hwrites
      rw [repoEvents_writeCompleted, hwrites, if_neg (lt_irrefl _)]
      exact ⟨r, rfl, h, fun _ => trivial⟩
    · rw [repoEvents_of_ne (fun k hk => he ⟨k, hk⟩), hwrites, List.drop_left]
      obtain ⟨r', hr', hfollows⟩ := h.sets ws
      exact ⟨r', hr', hfollows, fun _ => always_sets r ws⟩
  | @answered k reply d' call l₁ l₂ ws hk hauths hauths' hwrites hws =>
    rw [repoEvents_of_ne (by simp), hwrites, List.drop_left]
    obtain ⟨r', hr', hfollows⟩ := h.sets ws
    exact ⟨r', hr', hfollows, fun _ => always_sets r ws⟩
  | @decided k accepted d' w l₁ l₂ hk hnone hwrites hwrites' hauths =>
    rw [repoEvents_writeDecided r hwrites hwrites']
    exact ⟨r, rfl, h.decided hwrites hwrites', fun _ => trivial⟩
  | @acknowledged k accepted d' w l₁ l₂ hk hverdict hwrites hwrites' hauths =>
    rw [hwrites] at h
    obtain ⟨c, r', hc, hr', hfollows, hbelow⟩ := h.ack
    have hlt : d'.writes.length < d.writes.length := by
      rw [hwrites, hwrites']
      simp
    rw [repoEvents_writeCompleted, if_pos hlt, ← hk, hc]
    refine ⟨r', (repo.run_cons_eq_some).mpr ⟨r', hr', rfl⟩, hwrites' ▸ hfollows, ?_⟩
    intro hturn
    refine ⟨hbelow fun v hv => hturn w (hk ▸ getElem?_of_split hk hwrites) v ?_, fun _ _ => trivial⟩
    rw [hwrites, List.take_left]
    exact hv

/-! ## Runs -/

/-- Every client follows its device. -/
def AllFollow (s : World × (ℕ → Repo String String)) : Prop :=
  ∀ i, Follows (s.1.device i).writes (s.2 i)

/-- And has the right merge. -/
def AllLayered (s : World × (ℕ → Repo String String)) : Prop :=
  ∀ i, (s.2 i).pendingWriteTree.Layered

theorem appWithRepos_step_eq_some {s s' : World × (ℕ → Repo String String)} {e : ℕ × Event} :
    appWithRepos.step s e = some s' ↔ ∃ w r, app.step s.1 e = some w ∧
      repo.run (s.2 e.1) (repoEvents (s.2 e.1) (s.1.device e.1) (w.device e.1) e.2) = some r ∧
      s' = (w, Function.update s.2 e.1 r) := by
  simp only [appWithRepos, bind, Option.bind_eq_some_iff, pure, Option.some.injEq]
  constructor
  · rintro ⟨w, hw, r, hr, rfl⟩
    exact ⟨w, r, hw, hr, rfl⟩
  · rintro ⟨w, r, hw, hr, rfl⟩
    exact ⟨w, hw, r, hr, rfl⟩

/-- The clients follow one step of the app. -/
theorem AllFollow.step {s : World × (ℕ → Repo String String)} {w' : World} {e : ℕ × Event}
    (h : AllFollow s) (hs : app.step s.1 e = some w') :
    ∃ repos, appWithRepos.step s e = some (w', repos) ∧ AllFollow (w', repos) ∧
      (InTurn (s.1.device e.1) e.2 → AllLayered s → AllLayered (w', repos)) := by
  obtain ⟨i, e⟩ := e
  obtain ⟨hstep, hother⟩ := app_step_eq_some.mp hs
  obtain ⟨r', hr', hfollows, hturn⟩ := (h i).step hstep
  refine ⟨Function.update s.2 i r', appWithRepos_step_eq_some.mpr ⟨w', r', hs, hr', rfl⟩, ?_, ?_⟩
  · intro j
    by_cases hj : j = i
    · subst hj
      simpa using hfollows
    · dsimp only
      rw [Function.update_of_ne hj, hother j hj]
      exact h j
  · intro hin hlayered j
    by_cases hj : j = i
    · subst hj
      dsimp only
      rw [Function.update_self]
      exact repo.run_invariant (P := fun r => r.pendingWriteTree.Layered)
        (fun _ _ _ h he hs => Repo.layered_step h he hs) (hlayered j) (hturn hin) hr'
    · dsimp only
      rw [Function.update_of_ne hj]
      exact hlayered j

/-- **The clients follow every run of the app**: nothing that a device does makes an assertion
of its client fail. -/
theorem exists_repos {w w' : World} {es : List (ℕ × Event)} (hw : app.init w)
    (hr : app.run w es = some w') :
    ∃ repos, appWithRepos.run (w, fun _ => Repo.init) es = some (w', repos) ∧
      AllFollow (w', repos) ∧
      (app.Always (fun w e => InTurn (w.device e.1) e.2) w es → AllLayered (w', repos)) := by
  refine app.run_induction (P := fun es w' =>
    ∃ repos, appWithRepos.run (w, fun _ => Repo.init) es = some (w', repos) ∧
      AllFollow (w', repos) ∧
      (app.Always (fun w e => InTurn (w.device e.1) e.2) w es → AllLayered (w', repos))) ?_ ?_ hr
  · refine ⟨fun _ => Repo.init, rfl, ?_, fun _ _ => WriteTree.layered_init⟩
    intro i
    dsimp only
    rw [writes_of_init hw i]
    exact follows_init
  · rintro es w₁ e w₂ hr₁ ⟨repos, hrun, hfollow, hlayered⟩ hs
    obtain ⟨repos', hstep, hfollow', hkeep⟩ := hfollow.step hs
    refine ⟨repos', ?_, hfollow', ?_⟩
    · exact (appWithRepos.run_append_eq_some).mpr ⟨_, hrun,
        (appWithRepos.run_cons_eq_some).mpr ⟨_, hstep, rfl⟩⟩
    · intro halways
      exact hkeep (app.always_append halways hr₁).1 (hlayered (app.always_prefix halways))

/-! ## Where the app writes -/

/-- Leaves lie no higher than the fields of rows and records. -/
def Deep (t : Option Json) : Prop :=
  ∀ p s, PathTree.get p t = some (.leaf s) → 3 ≤ p.length

/-- A row with content, a record or nothing, or a field. -/
structure Write.Placed (w : Write) : Prop where
  full : Full w.value
  place : (w.ref.length = 2 ∧ ∀ s, w.value ≠ some (.leaf s)) ∨ w.ref.length = 3

theorem Write.Placed.same {w w' : Write} (h : w.Placed) (hs : w.Same w') : w'.Placed := by
  obtain ⟨href, hvalue, -⟩ := hs
  exact ⟨hvalue ▸ h.full, by rw [← href, ← hvalue]; exact h.place⟩

theorem deep_none : Deep none := by
  intro p s hs
  rw [PathTree.get_none] at hs
  cases hs

/-- A placed write keeps the leaves at the fields: at the place of a row or a record it is
no single value, and a single value goes to a field below them. -/
theorem Deep.set {t : Option Json} (h : Deep t) {w : Write} (hw : w.Placed) :
    Deep (PathTree.set w.ref w.value t) := by
  intro p s hs
  by_cases hbelow : w.ref <+: p
  · obtain ⟨q, rfl⟩ := hbelow
    rw [PathTree.get_set_append] at hs
    rw [List.length_append]
    rcases hw.place with ⟨hlen, hvalue⟩ | hlen
    · cases q with
      | nil => exact absurd hs (hvalue s)
      | cons k q =>
        rw [List.length_cons]
        omega
    · omega
  · by_cases habove : p <+: w.ref
    · obtain ⟨q, hq⟩ := habove
      rw [← hq, PathTree.get_append_set] at hs
      cases q with
      | nil => exact absurd (hq ▸ (List.append_nil p).symm ▸ List.prefix_rfl) hbelow
      | cons k q => exact h p s (PathTree.set_cons_eq_leaf hs)
    · rw [PathTree.get_set_of_disjoint hbelow habove] at hs
      exact h p s hs

theorem Deep.passes {t : Option Json} (h : Deep t) {w : Write} (hw : w.Placed) :
    (nodeFrom t).Passes w.ref := by
  refine passes_nodeFrom fun q a hq => ?_
  have hlen := h q a hq
  rcases hw.place with ⟨hp, -⟩ | hp <;> omega

theorem full_dictionary (key s : String) (fields : List (String × String)) :
    Full (dictionary ((key, s) :: fields)) := by
  refine Or.inr ?_
  rw [← Bool.not_eq_true]
  intro hempty
  have hchild : (nodeFrom (dictionary ((key, s) :: fields))).getImmediateChild key =
      nodeFrom (some (.leaf s)) := by
    rw [getImmediateChild_nodeFrom, dictionary, PathTree.child_ofChildren, List.map_cons,
      List.lookup_cons_self]
  rw [Node.isEmpty_iff.mp hempty, Node.getImmediateChild_empty] at hchild
  have hvalue := congrArg Node.leafValue hchild
  rw [leafValue_nodeFrom_leaf] at hvalue
  cases hvalue

theorem full_leaf (s : String) : Full (some (.leaf s) : Option Json) :=
  Or.inr rfl

/-- What is written below `memory` is a record or nothing, at its place. -/
theorem Write.Clean.placed {w : Write} (h : w.Clean) (hmemory : w.ref.head? ≠ some "user") :
    w.Placed := by
  rcases h with huser | ⟨uid, id, href, -, hvalue⟩
  · exact absurd huser hmemory
  · refine ⟨?_, Or.inr (by rw [href]; rfl)⟩
    rcases hvalue with hnone | ⟨m, hm, -⟩
    · exact Or.inl hnone
    · rw [hm]
      exact full_dictionary _ _ _

theorem head_child_memoryRef (u : Uid) (id : String) :
    ((memoryRef u).childFromString id).head? ≠ some "user" := by
  simp [Ref.childFromString]

/-- Everything that is issued has its place. -/
theorem Device.Clean.placed {d : Device} (h : d.Clean) {e : Event} {w : Write}
    (hw : d.Issues e w) : w.Placed := by
  have hclean := h.issues hw
  cases hw with
  | userRow hcall hc =>
    refine ⟨full_dictionary _ _ _, Or.inl ⟨by simp, ?_⟩⟩
    intro s hs
    cases hs
  | memory hv hc hu => exact hclean.placed (head_child_memoryRef _ _)
  | deletion ha ht hu => exact hclean.placed (head_child_memoryRef _ _)
  | @userName text throws self c u ha ht hu =>
    refine ⟨full_leaf text, Or.inr ?_⟩
    rw [userFieldRef_eq u (show IsKey "userName" by decide)]
    rfl
  | @password self c u hv hshown hc hu =>
    refine ⟨full_leaf _, Or.inr ?_⟩
    rw [userFieldRef_eq u (show IsKey "password" by decide)]
    rfl

/-! ## What is shown -/

/-- A clean device whose trees have their leaves at the fields. -/
structure Device.Plain (d : Device) : Prop where
  keeps : d.KeepsSchema
  deep : Deep d.cache
  placed : ∀ w ∈ d.writes, w.Placed

theorem Device.plain_launch (user : Option Uid) : (launch user).Plain where
  keeps := keepsSchema_launch user
  deep := deep_none
  placed _ hw := absurd hw List.not_mem_nil

/-- A step keeps tree and device plain. The store is needed beside the device, because a
snapshot brings its values into the caches. -/
theorem Device.Plain.step {srv srv' : Server} {d d' : Device} {e : Event}
    (hdb : MemoryTree srv.db ∧ Deep srv.db) (h : d.Plain)
    (hs : DailyDiary.step srv d e = some (srv', d')) :
    (MemoryTree srv'.db ∧ Deep srv'.db) ∧ d'.Plain := by
  obtain ⟨hmemory, hkeeps⟩ := h.keeps.step hdb.1 hs
  refine ⟨⟨hmemory, ?_⟩, hkeeps, ?_, ?_⟩
  · rcases step_db hs with hsame | ⟨i, w, -, hw, -, hset⟩
    · exact hsame ▸ hdb.2
    · rw [hset]
      exact hdb.2.set (h.placed w (List.mem_of_getElem? hw))
  · rcases step_cache hs with hc | hc
    · exact hc ▸ h.deep
    · exact hc ▸ hdb.2
  · intro w hw
    rcases (step_effect hs).writes.mem hw with ⟨w₀, hw₀, hsame⟩ | hissue
    · exact (h.placed w₀ hw₀).same hsame
    · exact h.keeps.clean.placed hissue

theorem plain_of_run {w w' : World} {es : List (ℕ × Event)} (hw : app.init w)
    (hdb : MemoryTree w.server.db ∧ Deep w.server.db) (hr : app.run w es = some w') (i : ℕ) :
    (w'.device i).Plain := by
  have hinv := app.run_invariant'
    (P := fun w => (MemoryTree w.server.db ∧ Deep w.server.db) ∧ ∀ i, (w.device i).Plain)
    (fun _ _ _ h hs => Transition.interleave_invariant
      (P := fun srv : Server => MemoryTree srv.db ∧ Deep srv.db) (Q := Device.Plain)
      (fun _ _ _ _ _ hdb hd hs => hd.step hdb hs) h.1 h.2 hs)
    ⟨hdb, of_init hw Device.plain_launch⟩ hr
  exact hinv.2 i

/-- The pending writes in turn, as the client has them. -/
theorem nodeFrom_view {ws : List Write} (hws : ∀ w ∈ ws, w.Placed) {cs : List (WriteRecord String String)}
    (h : cs.map (fun c => (c.path, c.overwrite)) = ws.map fun w => (w.ref, nodeFrom w.value))
    (t : Option Json) :
    nodeFrom (ws.foldl (fun t w => PathTree.set w.ref w.value t) t) = (nodeFrom t).overwritten cs := by
  induction ws generalizing t cs with
  | nil =>
    obtain rfl := List.map_eq_nil_iff.mp h
    rfl
  | cons w ws ih =>
    obtain ⟨c, cs, rfl, hc, hcs⟩ := List.map_eq_cons_iff.mp h
    obtain ⟨hpath, hvalue⟩ := Prod.mk.inj hc
    rw [List.foldl_cons, ih (fun w' hw' => hws w' (List.mem_cons_of_mem w hw')) hcs,
      nodeFrom_set (hws w List.mem_cons_self).full, ← hpath, ← hvalue]
    rfl

/-- **The client shows what the device is taken to see.** In every run in which no write
completes while an older one above it is pending, the event cache of a device's client, from
the tree the device has received, is what `view` says, at every path. -/
theorem view_eq_eventCache {w w' : World} {es : List (ℕ × Event)} (hw : app.init w)
    (hdb : MemoryTree w.server.db ∧ Deep w.server.db) (hr : app.run w es = some w')
    (hes : app.Always (fun w e => InTurn (w.device e.1) e.2) w es) :
    ∃ repos, appWithRepos.run (w, fun _ => Repo.init) es = some (w', repos) ∧
      ∀ i path, (repos i).pendingWriteTree.calculateCompleteEventCacheAtPath path
          (some (nodeFrom (PathTree.get path (w'.device i).cache))) =
        some (nodeFrom (PathTree.get path (w'.device i).view)) := by
  obtain ⟨repos, hrun, hfollow, hlayered⟩ := exists_repos hw hr
  refine ⟨repos, hrun, ?_⟩
  intro i path
  have hplain := plain_of_run hw hdb hr i
  have heq := (hfollow i).writes_eq
  have hpasses : ∀ c ∈ (repos i).pendingWriteTree.allWrites,
      (nodeFrom (w'.device i).cache).Passes c.path := by
    intro c hc
    obtain ⟨wr, hwr, href, -⟩ := exists_of_writes_eq heq hc
    rw [← href]
    exact hplain.deep.passes (hplain.placed wr hwr)
  rw [← getChild_nodeFrom, ← getChild_nodeFrom,
    WriteTree.calculateCompleteEventCacheAtPath_getChild,
    (hlayered hes i).applyToNode hpasses, Device.view, nodeFrom_view hplain.placed heq]

set_option maxRecDepth 10000 in
theorem view_eq_eventCache_ann :
    ∃ w' repos, appWithRepos.run (World.start ⟨[ann], none⟩, fun _ => Repo.init)
        (alone annEditsMemory) = some (w', repos) ∧
      ∀ i path, (repos i).pendingWriteTree.calculateCompleteEventCacheAtPath path
          (some (nodeFrom (PathTree.get path (w'.device i).cache))) =
        some (nodeFrom (PathTree.get path (w'.device i).view)) := by
  have hruns : (app.run (World.start ⟨[ann], none⟩) (alone annEditsMemory)).isSome := by decide
  obtain ⟨w', hr⟩ := Option.isSome_iff_exists.mp hruns
  have hdb : MemoryTree (World.start ⟨[ann], none⟩).server.db ∧
      Deep (World.start ⟨[ann], none⟩).server.db := ⟨memoryTree_of_empty rfl, deep_none⟩
  obtain ⟨repos, h⟩ := view_eq_eventCache (init_start _) hdb hr (by decide)
  exact ⟨w', repos, h⟩

end DailyDiary
