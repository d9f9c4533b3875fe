/-
The list of memories as a replica of the `memory` tree.

`retriveMemories` registers for `.childAdded` and for nothing else. An instance of
the list therefore gathers in `myMemoriesArray` the records that are there when it
is loaded and every record that appears later (`World.additions`); no row is ever
taken out or replaced.

`ViewController.Lists` is the invariant: rows and waiting snapshots together are
what has been added so far. One step adds what appears in the device's tree in
that step, so a run adds its appearances, and `perm_entries_iff` says when these
are what is stored in the end.
-/
import DailyDiary.Replica
import DailyDiary.MemorySelection
import Mathlib.Data.List.Perm.Basic

set_option autoImplicit false

namespace DailyDiary

open Device

/-! ## Records and rows -/

/-- The records of the account `u` on the server. -/
def Server.memories (srv : Server) (u : Uid) : Option Json :=
  PathTree.get (memoryRef u) srv.db

/-- The records of the account `u` as device `i` sees them. -/
def World.memories (w : World) (i : ℕ) (u : Uid) : Option Json :=
  PathTree.get (memoryRef u) (w.device i).view

/-- What the `.childAdded` handler makes of a snapshot. -/
def readSnapshot (p : String × Json) : Result Memory :=
  Memory.ofSnapshot p.2

/-- There is exactly one row for each of the records, with its content, and no other row. -/
def HoldsRecords (rows : List Memory) (ps : List (String × Json)) : Prop :=
  (rows.map Except.ok).Perm (ps.map readSnapshot)

/-- A record can be told from what the handler makes of it. -/
theorem IsRecord.of_read {p : String × Json} (h : IsRecord p.1 p.2) :
    (readSnapshot p).toOption.map (fun m => (m.memoryID, m.toDictionary)) =
      some (p.1, some p.2) := by
  obtain ⟨-, m, hid, hm⟩ := h
  rw [readSnapshot, ofSnapshot_toDictionary hm]
  simp [Except.toOption, hid, hm]

theorem perm_of_reads {ps qs : List (String × Json)} (hps : ∀ p ∈ ps, IsRecord p.1 p.2)
    (hqs : ∀ p ∈ qs, IsRecord p.1 p.2) (h : (ps.map readSnapshot).Perm (qs.map readSnapshot)) :
    ps.Perm qs := by
  have hread := h.map fun r => r.toOption.map fun m : Memory => (m.memoryID, m.toDictionary)
  simp only [List.map_map, Function.comp_def] at hread
  rw [List.map_congr_left fun p hp => (hps p hp).of_read,
    List.map_congr_left fun p hp => (hqs p hp).of_read] at hread
  refine (List.map_perm_map_iff ?_).mp hread
  rintro ⟨k, n⟩ ⟨j, m⟩ heq
  simpa using heq

/-! ## What a list has been given -/

/-- The controller is a list that observes `u`, its events are computed from `tree`,
and its rows and the snapshots that wait are the records `ps`. -/
def ViewController.Lists (u : Uid) (tree : Option Json) (ps : List (String × Json)) :
    ViewController → Prop
  | .myMemories c => ∃ o, c.observer = some o ∧ o.uid = u ∧ o.seen = tree ∧
    (c.myMemoriesArray.map Except.ok ++ o.queue.map readSnapshot).Perm (ps.map readSnapshot)
  | _ => False

section Lists

variable {d d' : Device} {e : Event} {l : VcId} {v v' : ViewController} {u : Uid}
  {tree : Option Json} {ps : List (String × Json)}

/-- A handler moves a waiting snapshot to the rows, whichever it is. -/
theorem ViewController.Lists.assigns (h : v.Lists u tree ps) (ha : d.Assigns e l v v') :
    v'.Lists u tree ps := by
  cases ha with
  | typed hvis ht =>
    cases v with
    | myMemories c => simp [Typing.apply] at ht
    | _ => exact h.elim
  | @childAdded l j c o key snapshot m ho hq hm =>
    obtain ⟨o', ho', hu, hseen, hperm⟩ := h
    obtain rfl := Option.some.inj (ho.symm.trans ho')
    refine ⟨_, rfl, hu, hseen, ?_⟩
    obtain ⟨hlt, hj⟩ := List.getElem?_eq_some_iff.mp hq
    have hmove : (o.queue.map readSnapshot).Perm
        (Except.ok m :: (o.queue.eraseIdx j).map readSnapshot) := by
      have herase := ((List.getElem_cons_eraseIdx_perm hlt).map readSnapshot).symm
      rw [List.map_cons, hj, readSnapshot, hm] at herase
      exact herase
    refine List.Perm.trans ?_ hperm
    simp only [MyMemoriesViewController.reloadData, List.map_append, List.map_cons, List.map_nil,
      List.append_assoc, List.singleton_append]
    exact (hmove.append_left _).symm
  | appeared => exact h
  | _ => exact h.elim

/-- The observer queues what appears in its tree. -/
theorem ViewController.Lists.refresh (h : v.Lists u tree ps) (view : Option Json) :
    (v.refresh view).Lists u (PathTree.get (memoryRef u) view)
      (ps ++ PathTree.added tree (PathTree.get (memoryRef u) view)) := by
  cases v with
  | myMemories c =>
    obtain ⟨o, ho, rfl, rfl, hperm⟩ := h
    refine ⟨o.refresh view, by simp [MyMemoriesViewController.refresh, ho], rfl, rfl, ?_⟩
    simp only [MyMemoriesViewController.refresh, Observer.refresh, List.map_append]
    rw [← List.append_assoc]
    exact hperm.append_right _
  | _ => exact h.elim

/-- One step of the device adds to a list what appears in its tree. -/
theorem Device.Effect.lists (h : d.Effect e d') (hv : d.vcs[l]? = some v)
    (hl : v.Lists u (PathTree.get (memoryRef u) d.view) ps) :
    ∃ v', d'.vcs[l]? = some v' ∧ v'.Lists u (PathTree.get (memoryRef u) d'.view)
      (ps ++ PathTree.added (PathTree.get (memoryRef u) d.view)
        (PathTree.get (memoryRef u) d'.view)) := by
  obtain ⟨v', hv', v₁, hassign, hbecomes⟩ := h.kept hv
  have hl₁ : v₁.Lists u (PathTree.get (memoryRef u) d.view) ps := by
    rcases hassign with rfl | hassign
    · exact hl
    · exact hl.assigns hassign
  refine ⟨v', hv', ?_⟩
  rcases hbecomes with ⟨rfl, hview⟩ | rfl
  · rw [hview, PathTree.added_self, List.append_nil]
    exact hl₁
  · exact hl₁.refresh _

/-- A list that opens is given what is there. -/
theorem Device.Effect.lists_opened (h : d.Effect e d') (hnew : d.vcs[l]? = none)
    {c : MyMemoriesViewController} (hc : d'.vcs[l]? = some (.myMemories c)) :
    ∃ u, (ViewController.myMemories c).Lists u (PathTree.get (memoryRef u) d'.view)
      (PathTree.entries (PathTree.get (memoryRef u) d'.view)) := by
  rcases h.vcs l _ hc with ⟨v, hv, -⟩ | ⟨-, v, hopens, hrefresh⟩
  · rw [hnew] at hv
    cases hv
  · cases hopens with
    | memories u =>
      have hempty : (ViewController.myMemories
          ({ observer := some ⟨u, none, []⟩ } : MyMemoriesViewController).reloadData).Lists
            u none [] := ⟨_, rfl, rfl, rfl, .refl _⟩
      rw [hrefresh]
      exact ⟨u, hempty.refresh d'.view⟩
    | initial hinit =>
      cases v with
      | myMemories c => exact hinit.elim
      | _ => cases hrefresh
    | _ => cases hrefresh

end Lists

/-! ## Runs -/

/-- The list `l` of device `i` has been given the records `ps` of `u`. -/
def World.Lists (w : World) (i : ℕ) (l : VcId) (u : Uid) (ps : List (String × Json)) : Prop :=
  ∃ v, (w.device i).vcs[l]? = some v ∧ v.Lists u (w.memories i u) ps

/-- The trees device `i` sees at the account in the course of a run. -/
def World.trees (w : World) (i : ℕ) (u : Uid) (es : List (ℕ × Event)) : List (Option Json) :=
  (app.states w es).map fun v => v.memories i u

/-- The records device `i` sees at first and those that appear to it in a run. -/
def World.additions (w : World) (i : ℕ) (u : Uid) (es : List (ℕ × Event)) :
    List (String × Json) :=
  PathTree.entries (w.memories i u) ++ PathTree.appearances (w.memories i u) (w.trees i u es)

/-- With one step the list is owed what the tree of its user gains by it. On other devices,
and for other trees, the gain is empty. -/
theorem World.Lists.step {w w' : World} {e : ℕ × Event} {i : ℕ} {l : VcId} {u : Uid}
    {ps : List (String × Json)} (h : w.Lists i l u ps) (hs : app.step w e = some w') :
    w'.Lists i l u (ps ++ PathTree.added (w.memories i u) (w'.memories i u)) := by
  obtain ⟨j, e⟩ := e
  obtain ⟨hstep, hne⟩ := app_step_eq_some.mp hs
  obtain ⟨v, hv, hl⟩ := h
  by_cases hj : i = j
  · subst hj
    exact (step_effect hstep).lists hv hl
  · have hsame : w'.memories i u = w.memories i u := by
      rw [World.memories, hne i hj, World.memories]
    rw [hsame, PathTree.added_self, List.append_nil]
    refine ⟨v, ?_, ?_⟩
    · rw [hne i hj]
      exact hv
    · rw [hsame]
      exact hl

theorem World.Lists.run {w w' : World} {es : List (ℕ × Event)} {i : ℕ} {l : VcId} {u : Uid}
    {ps : List (String × Json)} (h : w.Lists i l u ps) (hr : app.run w es = some w') :
    w'.Lists i l u (ps ++ PathTree.appearances (w.memories i u) (w.trees i u es)) := by
  induction es generalizing w ps with
  | nil =>
    obtain rfl : w = w' := by simpa using hr
    rw [World.trees, Transition.System.states, List.map_nil, PathTree.appearances,
      List.append_nil]
    exact h
  | cons e es ih =>
    obtain ⟨v, hs, hr'⟩ := app.run_cons_eq_some.mp hr
    have hrest := ih (h.step hs) hr'
    rw [World.trees, app.states_cons hs, List.map_cons, PathTree.appearances, ← List.append_assoc]
    exact hrest

/-- The device's tree is at every moment one of records. -/
theorem KeepsSchema.isRecord {w : World} (h : KeepsSchema w) {i : ℕ} {u : Uid} {id : String}
    {n : Json} (hn : PathTree.child id (w.memories i u) = some n) : IsRecord id n := by
  refine (h.2 i).clean.view u.val id n ?_
  rw [World.memories, memoryRef_eq] at hn
  exact hn

theorem KeepsSchema.isRecord_additions {w : World} (h : KeepsSchema w) {i : ℕ} {u : Uid}
    {es : List (ℕ × Event)} : ∀ p ∈ w.additions i u es, IsRecord p.1 p.2 := by
  rintro ⟨id, n⟩ hp
  rcases List.mem_append.mp hp with hp | hp
  · exact h.isRecord (PathTree.mem_entries.mp hp)
  · obtain ⟨t, ht, hn⟩ := PathTree.mem_appearances hp
    obtain ⟨v, hv, rfl⟩ := List.mem_map.mp ht
    obtain ⟨fs, hfs⟩ := app.run_of_mem_states hv
    exact (h.run hfs).isRecord hn

/-! ## A list whose events are delivered -/

/-- The rows of a list, the account it observes and the number of its waiting
snapshots. -/
def Device.listAt (l : VcId) (d : Device) : Option (List Memory × Option (Uid × ℕ)) :=
  match d.vcs[l]? with
  | some (.myMemories c) =>
    some (c.myMemoriesArray, c.observer.map fun o => (o.uid, o.queue.length))
  | _ => none

theorem listAt_ne_none {d : Device} {l : VcId} (h : d.listAt l ≠ none) :
    ∃ c, d.vcs[l]? = some (.myMemories c) := by
  unfold Device.listAt at h
  split at h
  · next c hc => exact ⟨c, hc⟩
  · exact absurd rfl h

/-- The list `l` of device `i` has the given rows; it observes `u`, the device sees
the records of `u` as they are stored, and no event is waiting. -/
structure World.Delivered (w : World) (i : ℕ) (l : VcId) (u : Uid) (rows : List Memory) :
    Prop where
  list : (w.device i).listAt l = some (rows, some (u, 0))
  pushed : w.memories i u = w.server.memories u

/-- Once its queue is empty the rows of a list are what it has been given. -/
theorem World.Lists.holdsRecords {w : World} {i : ℕ} {l : VcId} {u u' : Uid}
    {ps : List (String × Json)} {rows : List Memory} (h : w.Lists i l u' ps)
    (hlist : (w.device i).listAt l = some (rows, some (u, 0))) : u' = u ∧ HoldsRecords rows ps := by
  obtain ⟨v, hv, hl⟩ := h
  cases v with
  | myMemories c =>
    obtain ⟨o, ho, rfl, -, hperm⟩ := hl
    simp only [Device.listAt, hv, ho, Option.map_some, Option.some.injEq, Prod.mk.injEq,
      List.length_eq_zero_iff] at hlist
    obtain ⟨rfl, rfl, hqueue⟩ := hlist
    rw [hqueue, List.map_nil, List.append_nil] at hperm
    exact ⟨rfl, hperm⟩
  | _ => exact hl.elim

/-- **The list follows the additions.** An instance of the list is opened in any
state of any run that starts with a `memory` tree of records, and all events of the
run from there are delivered to it. Its rows are then the records it was opened
with and those that appeared since, each as it was when it appeared. They are the
records that are stored exactly when no record has disappeared in between and each
of them is stored as it was when it appeared. -/
theorem list_follows_additions {w₀ w₁ w w' : World} {es₀ es : List (ℕ × Event)} {i : ℕ}
    {l : VcId} {e : Event} {u : Uid} {rows : List Memory} (h₀ : app.init w₀)
    (hdb : MemoryTree w₀.server.db) (hr₀ : app.run w₀ es₀ = some w₁)
    (hnew : (w₁.device i).vcs[l]? = none) (hopen : app.step w₁ (i, e) = some w)
    (hlist : (w.device i).listAt l ≠ none) (hr : app.run w es = some w')
    (hdelivered : w'.Delivered i l u rows) :
    HoldsRecords rows (w.additions i u es) ∧
      (HoldsRecords rows (PathTree.entries (w'.server.memories u)) ↔
        PathTree.Grows (w.memories i u) (w.trees i u es) ∧
          ∀ p ∈ w.additions i u es, PathTree.child p.1 (w'.server.memories u) = some p.2) := by
  have hschema₁ := (keepsSchema_init h₀ hdb).run hr₀
  have hschema := hschema₁.step hopen
  have hschema' := hschema.run hr
  -- what the list has been given up to the end of the run
  obtain ⟨c, hc⟩ := listAt_ne_none hlist
  obtain ⟨u', hl⟩ := (step_effect (app_step_eq_some.mp hopen).1).lists_opened hnew hc
  have hlists : w.Lists i l u' (PathTree.entries (w.memories i u')) := ⟨_, hc, hl⟩
  obtain ⟨rfl, hholds⟩ := (hlists.run hr).holdsRecords hdelivered.list
  refine ⟨hholds, ?_⟩
  -- the last tree the device sees is the stored one
  have hlast : (w.trees i u' es).getLastD (w.memories i u') = w'.server.memories u' := by
    rw [World.trees, app.getLastD_map_states (fun v => v.memories i u') hr, hdelivered.pushed]
  have hstored : ∀ p ∈ PathTree.entries (w'.server.memories u'), IsRecord p.1 p.2 := by
    rintro ⟨id, n⟩ hp
    rw [← hdelivered.pushed] at hp
    exact hschema'.isRecord (PathTree.mem_entries.mp hp)
  have hexact := PathTree.perm_entries_iff (w.memories i u') (w.trees i u' es)
  rw [hlast] at hexact
  rw [← World.additions] at hexact
  rw [← hexact]
  constructor
  · intro hrows
    exact perm_of_reads hschema.isRecord_additions hstored (hholds.symm.trans hrows)
  · intro hperm
    exact hholds.trans (hperm.map readSnapshot)

/-! ## Concrete runs -/

theorem step_serverPush {srv srv' : Server} {d d' : Device}
    (h : step srv d .serverPush = some (srv', d')) : srv' = srv ∧ d' = d.receive srv.db := by
  cases steps_of_step h
  exact ⟨rfl, rfl⟩

/-- Without pending writes a device sees what is pushed to it. -/
theorem pushed_of_serverPush {w w' : World} {i : ℕ} {u : Uid}
    (hs : app.step w (i, .serverPush) = some w') (hw : (w'.device i).writes.isEmpty = true) :
    w'.memories i u = w'.server.memories u := by
  obtain ⟨hserver, hdevice⟩ := step_serverPush (app_step_eq_some.mp hs).1
  have hcache : (w'.device i).cache = w'.server.db := by
    rw [hserver, hdevice]
    rfl
  rw [World.memories, view, List.isEmpty_iff.mp hw, List.foldl_nil, hcache, Server.memories]

/-- A run whose last event is a push ends in a delivered list, when nothing else is
under way. -/
theorem delivered_of_serverPush {w w' : World} {es : List (ℕ × Event)} {i : ℕ} {l : VcId} {u : Uid}
    {rows : List Memory} (hr : app.run w (es ++ [(i, .serverPush)]) = some w')
    (hlist : (w'.device i).listAt l = some (rows, some (u, 0)))
    (hw : (w'.device i).writes.isEmpty = true) : w'.Delivered i l u rows := by
  obtain ⟨v, _, hlast⟩ := app.run_append_eq_some.mp hr
  obtain ⟨v', hs, heq⟩ := app.run_cons_eq_some.mp hlast
  obtain rfl := Option.some.inj heq
  exact ⟨hlist, pushed_of_serverPush hs hw⟩

/-- `ann` signs in. -/
def annSignsIn : List Event :=
  [.typed (.logIn ann.email ann.password), .press .logInBtnPressed]

/-- `ann` writes a memory; the write is not decided yet. -/
def annWritesMemory : List Event :=
  annSignsIn ++ [.authCompleted 0 (.success ann.uid), .press (.addMemoriesBtnPressed ⟨1, 2, 2019⟩),
    .typed (.addMemory "title" "body"), .press (.memoryDoneBtnPressed zeroDraws)]

/-- The list `l` of device `i` is the visible screen. -/
def ShowsList (i : ℕ) (l : VcId) (w : World) : Prop :=
  (w.device i).visible.map Prod.fst = some l ∧ (w.device i).listAt l ≠ none

instance (i : ℕ) (l : VcId) (w : World) : Decidable (ShowsList i l w) :=
  inferInstanceAs (Decidable (_ ∧ _))

/-- What a list shows when it has followed a run, and what is stored then. -/
structure Outcome where
  list : Option (List Memory × Option (Uid × ℕ))
  settled : Bool
  empty : Bool
  deriving DecidableEq

def World.outcome (w : World) (i : ℕ) (l : VcId) : Outcome where
  list := (w.device i).listAt l
  settled := (w.device i).writes.isEmpty
  empty := w.server.db.isNone

/-- The write `ann`'s list shows is rejected. -/
def annIsRejected : List (ℕ × Event) :=
  alone [.childAdded 3 0, .writeDecided 0 false, .writeCompleted 0] ++ [(0, .serverPush)]

set_option maxRecDepth 10000 in
theorem list_keeps_rejected_memory :
    ¬ ∀ (w₀ w₁ w w' : World) (es₀ es : List (ℕ × Event)) (i : ℕ) (l : VcId) (e : Event) (u : Uid)
      (rows : List Memory), app.init w₀ → MemoryTree w₀.server.db → app.run w₀ es₀ = some w₁ →
      (w₁.device i).vcs[l]? = none → app.step w₁ (i, e) = some w →
      app.Always (fun v _ => ShowsList i l v) w es → app.run w es = some w' →
      w'.Delivered i l u rows →
      HoldsRecords rows (PathTree.entries (w'.server.memories u)) := by
  intro h
  have hend : (app.run (World.start ⟨[ann], none⟩) (alone annWritesMemory)).bind (fun w₁ =>
      (app.step w₁ (0, .press .cancelBtnPressed)).bind fun w =>
        (app.run w annIsRejected).map fun w' =>
          ((w₁.device 0).vcs.length,
            decide (app.Always (fun v _ => ShowsList 0 3 v) w annIsRejected), w'.outcome 0 3)) =
      some (3, true, ⟨some ([annsMemory], some (ann.uid, 0)), true, true⟩) := by
    decide
  obtain ⟨w₁, hr₀, hend⟩ := Option.bind_eq_some_iff.mp hend
  obtain ⟨w, hopen, hend⟩ := Option.bind_eq_some_iff.mp hend
  obtain ⟨w', hr, hend⟩ := Option.map_eq_some_iff.mp hend
  simp only [World.outcome, Prod.mk.injEq, Outcome.mk.injEq, decide_eq_true_eq] at hend
  obtain ⟨hlength, hshows, hlist, hsettled, hempty⟩ := hend
  have hholds := h _ w₁ w w' _ _ 0 3 _ ann.uid [annsMemory] (init_start _)
    (memoryTree_of_empty rfl) hr₀ (by rw [← hlength]; simp) hopen hshows hr
    (delivered_of_serverPush hr hlist hsettled)
  rw [Server.memories, Option.isNone_iff_eq_none.mp hempty, PathTree.get_none] at hholds
  have hlen := hholds.length_eq
  rw [PathTree.entries, PathTree.added_self] at hlen
  simp at hlen

/-- `ann` adds a memory on device 1 while device 0 shows the list. -/
def annAddsElsewhere : List (ℕ × Event) :=
  annWritesMemory.map (fun e => (1, e)) ++
    [(1, .writeDecided 0 true), (0, .serverPush), (0, .childAdded 1 0)] ++ [(0, .serverPush)]

set_option maxRecDepth 10000 in
theorem list_follows_additions_ann :
    ∃ w w', app.run w annAddsElsewhere = some w' ∧ w'.Delivered 0 1 ann.uid [annsMemory] ∧
      HoldsRecords [annsMemory] (w.additions 0 ann.uid annAddsElsewhere) ∧
      (HoldsRecords [annsMemory] (PathTree.entries (w'.server.memories ann.uid)) ↔
        PathTree.Grows (w.memories 0 ann.uid) (w.trees 0 ann.uid annAddsElsewhere) ∧
          ∀ p ∈ w.additions 0 ann.uid annAddsElsewhere,
            PathTree.child p.1 (w'.server.memories ann.uid) = some p.2) := by
  have hend : (app.run (World.start ⟨[ann], none⟩) (alone annSignsIn)).bind (fun w₁ =>
      (app.step w₁ (0, .authCompleted 0 (.success ann.uid))).bind fun w =>
        (app.run w annAddsElsewhere).map fun w' =>
          ((w₁.device 0).vcs.length, decide ((w.device 0).listAt 1 ≠ none), w'.outcome 0 1)) =
      some (1, true, ⟨some ([annsMemory], some (ann.uid, 0)), true, false⟩) := by
    decide
  obtain ⟨w₁, hr₀, hend⟩ := Option.bind_eq_some_iff.mp hend
  obtain ⟨w, hopen, hend⟩ := Option.bind_eq_some_iff.mp hend
  obtain ⟨w', hr, hend⟩ := Option.map_eq_some_iff.mp hend
  simp only [World.outcome, Prod.mk.injEq, Outcome.mk.injEq, decide_eq_true_eq] at hend
  obtain ⟨hlength, hopened, hlist, hsettled, -⟩ := hend
  have hdelivered := delivered_of_serverPush hr hlist hsettled
  exact ⟨w, w', hr, hdelivered, list_follows_additions (init_start _) (memoryTree_of_empty rfl)
    hr₀ (by rw [← hlength]; simp) hopen hopened hr hdelivered⟩

end DailyDiary
