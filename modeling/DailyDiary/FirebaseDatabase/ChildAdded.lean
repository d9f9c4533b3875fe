/-
What a listener to additions alone hears.

The list of memories observes nothing else (`observe(.childAdded, with:)`). Of one operation
it hears the children that the event cache has gained, as they are then and in the order of
their names (`filterMap_addedChild`). So from the moment it is added it hears the children
that are there and, from then on, what appears (`addedChildren_of_run`): nothing of a child
that changes or goes, and of one that comes back as if it were new.

`appearances_nodeFrom` says that this is what `PathTree.appearances` is for trees, but for the
order of the children.
-/
import DailyDiary.FirebaseDatabase.SyncTree
import DailyDiary.FirebaseDatabase.SnapshotUtilities
import DailyDiary.Replica

set_option autoImplicit false

namespace FirebaseDatabase

open SortedDictionary

variable {κ α : Type} [LinearOrder κ]

/-- What a change adds, and under which name. -/
def addedEntry (c : κ × Change κ α) : Option (κ × Node κ α) :=
  match c.2 with
  | .childAdded snap => some (c.1, snap)
  | _ => none

/-- What `fireEvent:` hands to the callback of a registration that has one for additions alone;
the name of the child before is not asked for. -/
def DataEvent.addedChild : DataEvent κ α → Option (κ × Node κ α)
  | .childAdded key snap _ => some (key, snap)
  | _ => none

/-- The children of `new` that `old` has no child of the same name for. -/
def Node.added (old new : Node κ α) : List (κ × Node κ α) :=
  new.childEntries.filter fun c => !old.hasChild c.1

/-- The children that appear while the node `n` becomes each of `ns` in turn. -/
def Node.appearances : Node κ α → List (Node κ α) → List (κ × Node κ α)
  | _, [] => []
  | n, m :: ns => n.added m ++ appearances m ns

variable {old new : Node κ α} {changes : ChangeMap κ α} {k : κ} {n : Node κ α}

theorem Node.mem_childEntries :
    (k, n) ∈ new.childEntries ↔ n ≠ .empty ∧ new.getImmediateChild k = n := by
  rw [new.sorted_childEntries.mem_iff, (mirrors_childEntries new).lookup]
  by_cases hempty : (new.getImmediateChild k).isEmpty = true
  · rw [if_pos hempty]
    rw [Node.isEmpty_iff] at hempty
    rw [hempty]
    simp [eq_comm]
  · rw [if_neg hempty]
    rw [Node.isEmpty_iff] at hempty
    constructor
    · rintro heq
      obtain rfl := Option.some.inj heq
      exact ⟨hempty, rfl⟩
    · rintro ⟨-, rfl⟩
      rfl

theorem Node.mem_added : (k, n) ∈ old.added new ↔
    old.getImmediateChild k = .empty ∧ n ≠ .empty ∧ new.getImmediateChild k = n := by
  rw [Node.added, List.mem_filter, Node.mem_childEntries, Bool.not_eq_true', ← Bool.not_eq_true,
    Node.hasChild_iff, not_not, and_comm]

theorem Node.sorted_added (old new : Node κ α) : Sorted (old.added new) :=
  List.Pairwise.filter _ new.sorted_childEntries

theorem Node.nodup_added (old new : Node κ α) : (old.added new).Nodup := by
  refine List.Pairwise.imp ?_ (Node.sorted_added old new)
  rintro a b hlt rfl
  exact lt_irrefl _ hlt

@[simp] theorem Node.added_self (n : Node κ α) : n.added n = [] := by
  refine List.eq_nil_iff_forall_not_mem.mpr ?_
  rintro ⟨k, m⟩ hm
  obtain ⟨hempty, hm, rfl⟩ := Node.mem_added.mp hm
  exact hm hempty

@[simp] theorem Node.added_empty (n : Node κ α) : Node.empty.added n = n.childEntries := by
  refine List.filter_eq_self.mpr ?_
  rintro ⟨k, m⟩ -
  simp [Node.hasChild]

/-- A child that changes once on the way is heard of once. -/
theorem Node.added_trans {m l : Node κ α} (h : ∀ k, n.getImmediateChild k = m.getImmediateChild k ∨
    m.getImmediateChild k = l.getImmediateChild k) :
    (n.added m ++ m.added l).Perm (n.added l) := by
  refine (List.perm_ext_iff_of_nodup ?_ (Node.nodup_added n l)).mpr ?_
  · refine List.nodup_append'.mpr ⟨Node.nodup_added n m, Node.nodup_added m l, ?_⟩
    rintro ⟨k, x⟩ hnow hlater
    obtain ⟨-, hx, heq⟩ := Node.mem_added.mp hnow
    exact hx (heq.symm.trans (Node.mem_added.mp hlater).1)
  · rintro ⟨k, x⟩
    rw [List.mem_append, Node.mem_added, Node.mem_added, Node.mem_added]
    constructor
    · rintro (⟨hn, hx, hm⟩ | ⟨hm, hx, hl⟩)
      · rcases h k with hk | hk
        · exact absurd (hm.symm.trans (hk.symm.trans hn)) hx
        · exact ⟨hn, hx, hk.symm.trans hm⟩
      · rcases h k with hk | hk
        · exact ⟨hk.trans hm, hx, hl⟩
        · exact absurd (hl.symm.trans (hk.symm.trans hm)) hx
    · rintro ⟨hn, hx, hl⟩
      rcases h k with hk | hk
      · exact Or.inr ⟨hk.symm.trans hn, hx, hl⟩
      · exact Or.inl ⟨hn, hx, hk.trans hl⟩

/-! ## One operation -/

/-- The additions among the changes are the children that are new. -/
theorem Reports.filterMap_addedEntry (h : Reports old new.getImmediateChild changes) :
    changes.filterMap addedEntry = old.added new := by
  have hmem : ∀ c : κ × Node κ α, c ∈ changes.filterMap addedEntry ↔
      (c.1, Change.childAdded c.2) ∈ changes := by
    rintro ⟨k, n⟩
    rw [List.mem_filterMap]
    constructor
    · rintro ⟨⟨j, change⟩, hc, heq⟩
      cases change with
      | childAdded snap =>
        obtain ⟨rfl, rfl⟩ := Prod.mk.inj (Option.some.inj heq)
        exact hc
      | _ => cases heq
    · exact fun hc => ⟨_, hc, rfl⟩
  have hsorted : Sorted (changes.filterMap addedEntry) := by
    refine List.pairwise_filterMap.mpr (h.sorted.imp ?_)
    rintro ⟨j, change⟩ ⟨j', change'⟩ hlt c hc c' hc'
    cases change with
    | childAdded snap =>
      cases change' with
      | childAdded snap' =>
        obtain rfl := Option.some.inj hc
        obtain rfl := Option.some.inj hc'
        exact hlt
      | _ => cases hc'
    | _ => cases hc
  -- both are in the order of the names, so they have to have the same entries
  refine hsorted.ext (old.sorted_added new) fun k => Option.ext fun n => ?_
  rw [← hsorted.mem_iff, ← (old.sorted_added new).mem_iff, hmem, Node.mem_added]
  constructor
  · -- an addition is one to where nothing was
    intro hc
    have hdescribes := h.describes_of_mem hc
    generalize old.getImmediateChild k = x at hdescribes
    generalize new.getImmediateChild k = y at hdescribes
    cases hdescribes with
    | added hy => exact ⟨rfl, hy, rfl⟩
  · rintro ⟨hold, hn, rfl⟩
    obtain ⟨y, hy⟩ := h.mem_added hold hn
    have hc := (List.mem_filter.mp hy).1
    have hdescribes := h.describes_of_mem hc
    generalize old.getImmediateChild k = x at hdescribes
    generalize new.getImmediateChild k = z at hdescribes
    cases hdescribes with
    | added => exact hc

/-- One event for each change, so one for each addition. -/
theorem filterMap_addedChild_of_mapM {es : List (DataEvent κ α)}
    (h : changes.mapM (generateEventForChange new) = some es) :
    es.filterMap DataEvent.addedChild = changes.filterMap addedEntry := by
  refine filterMap_of_mapM ?_ h
  rintro ⟨k, change⟩ e he
  cases change with
  | childRemoved x =>
    obtain rfl := Option.some.inj he
    rfl
  | childAdded y =>
    obtain ⟨prev, -, rfl⟩ := Option.map_eq_some_iff.mp he
    rfl
  | childChanged y x =>
    obtain ⟨prev, -, rfl⟩ := Option.map_eq_some_iff.mp he
    rfl

/-- The events of one type tell of additions when it is theirs. -/
theorem filterMap_addedChild_of_type {eventType : ChildEventType} {es : List (DataEvent κ α)}
    (h : generateEvents eventType changes new = some es) : es.filterMap DataEvent.addedChild =
      if eventType = .added then changes.filterMap addedEntry else [] := by
  rw [filterMap_addedChild_of_mapM h, List.filterMap_filter]
  split
  · next htype =>
    subst htype
    refine List.filterMap_congr ?_
    rintro ⟨k, change⟩ -
    cases change <;> rfl
  · next htype =>
    refine List.filterMap_eq_nil_iff.mpr ?_
    rintro ⟨k, change⟩ -
    cases change <;> cases eventType <;> first | rfl | exact absurd rfl htype

/-- **One operation.** A listener to additions hears the children that are new. -/
theorem Reports.filterMap_addedChild (h : Reports old new.getImmediateChild changes)
    {valueChange : Option (Node κ α)} {es : List (DataEvent κ α)}
    (hes : generateEventsForChanges changes valueChange new = some es) :
    es.filterMap DataEvent.addedChild = old.added new := by
  simp only [generateEventsForChanges, bind, Option.bind_eq_some_iff, pure,
    Option.some.injEq] at hes
  obtain ⟨removed, hremoved, added, hadded, changed, hchanged, rfl⟩ := hes
  have hvalue : (valueChange.toList.map DataEvent.value).filterMap DataEvent.addedChild = [] := by
    cases valueChange <;> rfl
  rw [List.filterMap_append, List.filterMap_append, List.filterMap_append, hvalue,
    filterMap_addedChild_of_type hremoved, filterMap_addedChild_of_type hadded,
    filterMap_addedChild_of_type hchanged, if_pos rfl, h.filterMap_addedEntry]
  simp

/-! ## Runs -/

namespace SyncTree

/-- What a listener to additions has heard. -/
def addedChildren (s : SyncTree κ α) : List (κ × Node κ α) :=
  s.events.filterMap DataEvent.addedChild

/-- The children of a place as its listeners are told of them. -/
def eventNode (s : SyncTree κ α) : Node κ α :=
  s.viewCache.cachedEventSnap.node

end SyncTree

/-- A listener hears first of the children that are there. -/
theorem addedChildren_addEventRegistration {treePath : List κ} {r : Repo κ α}
    {c : CacheNode κ α} {s : SyncTree κ α} (h : addEventRegistration treePath r c = some s) :
    s.addedChildren = s.eventNode.childEntries := by
  obtain ⟨es, hes, rfl⟩ := Option.map_eq_some_iff.mp h
  exact ((reports_childEntries _).filterMap_addedChild hes).trans (Node.added_empty _)

variable [DecidableEq α] {s s' : SyncTree κ α} {treePath : List κ}

/-- An operation appends to the raised additions exactly the children that its event cache
has gained. It is the one place where they are raised. -/
theorem addedChildren_applyOperationToSyncPoints {op : Operation κ α}
    (h : s.applyOperationToSyncPoints treePath op = some s') :
    s'.addedChildren = s.addedChildren ++ s.eventNode.added s'.eventNode := by
  cases hop : op.atPlace treePath with
  | none =>
    obtain rfl := SyncTree.eq_of_atPlace hop h
    rw [Node.added_self, List.append_nil]
  | some op' =>
    obtain ⟨acc, es, happly, hes, hs'⟩ := SyncTree.applied_of_atPlace hop h
    obtain ⟨v', changes, happly', hreports⟩ := (raises_or_merged
      (w := ⟨treePath, s.repo.pendingWriteTree⟩) (reports_nil s.viewCache.cachedEventSnap.node)
        op').resolve_left (happly ▸ Option.some_ne_none _)
    -- the changes are those from the old event cache, whatever the operation
    obtain ⟨rfl, rfl⟩ := Prod.mk.inj (Option.some.inj (happly'.symm.trans happly))
    have hevents : s'.events = s.events ++ es := congrArg SyncTree.events hs'
    rw [SyncTree.addedChildren, hevents, List.filterMap_append]
    exact congrArg (s.addedChildren ++ ·) (hreports.filterMap_addedChild hes)

/-- **One step.** Whatever comes, a listener to additions hears the children that are new. -/
theorem addedChildren_step {e : SyncEvent κ α} (h : SyncTree.step treePath s e = some s') :
    s'.addedChildren = s.addedChildren ++ s.eventNode.added s'.eventNode := by
  cases e with
  | set path node =>
    obtain ⟨r, -, happly⟩ := Option.bind_eq_some_iff.mp h
    have hadded := addedChildren_applyOperationToSyncPoints happly
    exact hadded
  | ackWrite writeId revert =>
    rw [SyncTree.step, SyncTree.ackUserWriteWithWriteId] at h
    split at h
    · cases h
    · obtain ⟨r, -, happly⟩ := Option.bind_eq_some_iff.mp h
      dsimp only at happly
      split at happly
      · have hadded := addedChildren_applyOperationToSyncPoints happly
        exact hadded
      · -- a later write covers the answered one, and no event is raised
        obtain rfl := Option.some.inj happly
        exact (List.append_nil _).symm.trans (congrArg _ (Node.added_self _).symm)
  | serverOverwrite path newData => exact addedChildren_applyOperationToSyncPoints h
  | serverMerge path changedChildren => exact addedChildren_applyOperationToSyncPoints h
  | listenComplete path => exact addedChildren_applyOperationToSyncPoints h

/-- The event caches of a run, after the first. -/
def SyncTree.eventNodes (treePath : List κ) (s : SyncTree κ α) (es : List (SyncEvent κ α)) :
    List (Node κ α) :=
  ((syncTree treePath).states s es).map SyncTree.eventNode

theorem addedChildren_run {es : List (SyncEvent κ α)}
    (hr : (syncTree treePath).run s es = some s') :
    s'.addedChildren = s.addedChildren ++ s.eventNode.appearances (s.eventNodes treePath es) := by
  induction es generalizing s with
  | nil =>
    obtain rfl := Option.some.inj hr
    exact (List.append_nil _).symm
  | cons e es ih =>
    obtain ⟨u, hs, hr'⟩ := (syncTree treePath).run_cons_eq_some.mp hr
    rw [SyncTree.eventNodes, (syncTree treePath).states_cons hs, List.map_cons, Node.appearances,
      ← List.append_assoc, ← addedChildren_step hs]
    exact ih hr'

/-- **What a listener to additions hears.** Whatever is set and removed by the user, the server
sends and the answers to pending writes are, in whatever order: when the client has got through
it, what has been heard are the children that were there at first and those that have appeared
since. And it gets through it if no refused write is one below a child of the view. -/
theorem addedChildren_of_run (hs : (syncTree treePath).init s) (es : List (SyncEvent κ α)) :
    (∀ s', (syncTree treePath).run s es = some s' → s'.addedChildren =
        s.eventNode.childEntries ++ s.eventNode.appearances (s.eventNodes treePath es)) ∧
      ((syncTree treePath).Always (Answerable treePath) s es →
        ∃ s', (syncTree treePath).run s es = some s') := by
  refine ⟨fun s' hr => ?_, fun hes => exists_run_of_clean (sound_of_init hs)
    ((syncTree treePath).always_mono (fun _ _ _ he => he.clean) hes)⟩
  obtain ⟨_, r, c, -, hadd⟩ := hs
  rw [addedChildren_run hr, addedChildren_addEventRegistration hadd]

theorem addedChildren_of_run_firstLoad :
    ∃ s, (syncTree [1]).run unloaded firstLoad = some s ∧ s.addedChildren =
      unloaded.eventNode.childEntries ++
        unloaded.eventNode.appearances (unloaded.eventNodes [1] firstLoad) := by
  have hinit : (syncTree [1]).init unloaded :=
    ⟨[], Repo.init, ⟨Node.empty, false⟩, rfl, rfl⟩
  obtain ⟨hheard, hruns⟩ := addedChildren_of_run hinit firstLoad
  obtain ⟨s, hr⟩ := hruns always_answerable_firstLoad
  exact ⟨s, hr, hheard s hr⟩

/-! ## Trees -/

section Trees

omit [DecidableEq α]

theorem Full.nodeFrom_eq_empty_iff {v : Option (PathTree.Node κ α)} (hv : Full v) :
    nodeFrom v = .empty ↔ v = none := by
  constructor
  · intro hempty
    refine hv.resolve_right ?_
    rw [hempty, Node.isEmpty_empty]
    exact Bool.true_eq_false_eq_False
  · rintro rfl
    rfl

/-- No child of the tree is without content. -/
def FullChildren (t : Option (PathTree.Node κ α)) : Prop :=
  ∀ k, Full (PathTree.child k t)

/-- The child of a node of a tree. -/
def nodeEntry (c : κ × PathTree.Node κ α) : κ × Node κ α :=
  (c.1, nodeFromValue c.2)

variable {t t' : Option (PathTree.Node κ α)}

/-- Where no child is without content, the nodes added to the view are the entries added to
the tree, each read as a node. -/
theorem mem_added_nodeFrom (ht : FullChildren t) (ht' : FullChildren t') (c : κ × Node κ α) :
    c ∈ (nodeFrom t).added (nodeFrom t') ↔ c ∈ (PathTree.added t t').map nodeEntry := by
  obtain ⟨k, n⟩ := c
  rw [Node.mem_added, getImmediateChild_nodeFrom, getImmediateChild_nodeFrom,
    (ht k).nodeFrom_eq_empty_iff, List.mem_map]
  constructor
  · rintro ⟨hold, hn, rfl⟩
    rw [Ne, (ht' k).nodeFrom_eq_empty_iff] at hn
    obtain ⟨value, hvalue⟩ := Option.ne_none_iff_exists'.mp hn
    refine ⟨(k, value), PathTree.mem_added.mpr ⟨hold, hvalue⟩, ?_⟩
    rw [hvalue]
    rfl
  · rintro ⟨⟨j, value⟩, hmem, heq⟩
    obtain ⟨rfl, rfl⟩ := Prod.mk.inj heq
    obtain ⟨hold, hvalue⟩ := PathTree.mem_added.mp hmem
    refine ⟨hold, ?_, by rw [hvalue]; rfl⟩
    have hne := (ht' j).nodeFrom_eq_empty_iff.not.mpr (by rw [hvalue]; exact Option.some_ne_none _)
    rwa [hvalue] at hne

/-- **What a tree gains its node gains**, in the order of the names. -/
theorem added_nodeFrom (ht : FullChildren t) (ht' : FullChildren t') :
    ((nodeFrom t).added (nodeFrom t')).Perm ((PathTree.added t t').map nodeEntry) := by
  refine (List.perm_ext_iff_of_nodup ?_ ?_).mpr (mem_added_nodeFrom ht ht')
  · exact Node.nodup_added _ _
  · refine List.Nodup.of_map Prod.fst ?_
    rw [List.map_map]
    exact PathTree.nodup_keys_added t t'

theorem childEntries_nodeFrom (ht : FullChildren t) :
    (nodeFrom t).childEntries.Perm ((PathTree.entries t).map nodeEntry) := by
  have hadded := added_nodeFrom (t := none) (fun k => Or.inl (PathTree.child_none k)) ht
  rwa [nodeFrom_none, Node.added_empty] at hadded

theorem appearances_nodeFrom {ts : List (Option (PathTree.Node κ α))} (ht : FullChildren t)
    (hts : ∀ t' ∈ ts, FullChildren t') : ((nodeFrom t).appearances (ts.map nodeFrom)).Perm
      ((PathTree.appearances t ts).map nodeEntry) := by
  induction ts generalizing t with
  | nil => exact List.Perm.refl _
  | cons t' ts ih =>
    rw [List.map_cons, Node.appearances, PathTree.appearances, List.map_append]
    have ht' := hts t' List.mem_cons_self
    exact (added_nodeFrom ht ht').append (ih ht' fun u hu => hts u (List.mem_cons_of_mem t' hu))

end Trees

end FirebaseDatabase
