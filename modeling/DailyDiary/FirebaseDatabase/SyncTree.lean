/-
`FSyncTree` with one view: the client's writes, the server's messages and the answers to the
writes go through the view of a place, and its events are raised.

The tree is the client of `Repo` with a view. Whatever comes in whatever order, a listener that
goes by the events of a client that gets through it has the children of the event cache, in
their order, and its value as soon as it is complete (`upToDate_of_run`). What a Debug build
asserts is asserted here too. It is true as long as no refused write is one below a child of the
view; when it is one, and writes on its way have been answered before in another order than
they were made, an assertion of the filter can fail.

A view is added to a place at any time of the client's life, and one view is modelled: a client
with a view of a place above would have its server cache to go by (`optCompleteCache`), which is
left out. What the user does is `setValue` and `removeValue`; the merges of `updateChildValues`
and the writes of transactions are left out too.
-/
import DailyDiary.FirebaseDatabase.Repo
import DailyDiary.FirebaseDatabase.EventCache
import DailyDiary.FirebaseDatabase.DataEvents

set_option autoImplicit false

namespace FirebaseDatabase

open SortedDictionary

variable {κ α : Type} [LinearOrder κ]

/-! ## Operations and places -/

namespace Operation

def path : Operation κ α → List κ
  | overwrite _ path _ => path
  | merge path _ => path
  | ackUserWrite path _ => path
  | listenComplete path => path

/-- `operationForChild:`, when the path is empty or leads to the child. -/
def operationForChild (operation : Operation κ α) (childKey : κ) : Option (Operation κ α) :=
  match operation with
  | overwrite fromUser path snap =>
    if path.isEmpty then some (overwrite fromUser [] (snap.getImmediateChild childKey))
    else some (overwrite fromUser path.tail snap)
  | merge path children =>
    if path.isEmpty then
      let childTree := children.childCompoundWriteAtPath [childKey]
      if childTree.isEmpty then none
      else
        match childTree.writeTree.value with
        | some rootWrite => some (overwrite false [] rootWrite)
        | none => some (merge [] childTree)
    else some (merge path.tail children)
  | ackUserWrite path revert => some (ackUserWrite path.tail revert)
  | listenComplete path => some (listenComplete path.tail)

/-- What `applyOperationHelper:` and `applyOperationDescendantsHelper:` hand to the view of a
place. -/
def atPlace : List κ → Operation κ α → Option (Operation κ α)
  | [], operation => some operation
  | childKey :: treePath, operation =>
    match operation.path with
    | [] => (operation.operationForChild childKey).bind (atPlace treePath)
    | front :: _ =>
      if front = childKey then (operation.operationForChild childKey).bind (atPlace treePath)
      else none

end Operation

/-- An answer comes to a place from the answered write, below it or on its way. -/
theorem Operation.eq_of_atPlace_ackUserWrite {operation : Operation κ α} {P p : List κ}
    {revert : Bool} (h : operation.atPlace P = some (.ackUserWrite p revert)) :
    ∃ path, operation = .ackUserWrite path revert ∧ (p = [] ∨ path = P ++ p) := by
  induction P generalizing operation with
  | nil => exact ⟨p, Option.some.inj h, Or.inr rfl⟩
  | cons k P ih =>
    have hchild : ∃ op, operation.operationForChild k = some op ∧
        op.atPlace P = some (.ackUserWrite p revert) ∧
        (operation.path = [] ∨ operation.path = k :: operation.path.tail) := by
      rw [atPlace] at h
      split at h
      · next hpath =>
        obtain ⟨op, hop, h⟩ := Option.bind_eq_some_iff.mp h
        exact ⟨op, hop, h, Or.inl hpath⟩
      · next front rest hpath =>
        split at h
        · next hfront =>
          obtain ⟨op, hop, h⟩ := Option.bind_eq_some_iff.mp h
          exact ⟨op, hop, h, Or.inr (by rw [hpath, hfront, List.tail_cons])⟩
        · cases h
    obtain ⟨op, hop, hplace, hpath⟩ := hchild
    obtain ⟨path, rfl, hp⟩ := ih hplace
    -- the operation of a child is an answer when the operation is one
    cases operation with
    | overwrite fromUser path snap => rw [operationForChild] at hop; split at hop <;> cases hop
    | merge path children =>
      rw [operationForChild] at hop
      split at hop
      · dsimp only at hop
        split at hop
        · cases hop
        · split at hop <;> cases hop
      · cases hop
    | listenComplete path => cases hop
    | ackUserWrite path revert' =>
      obtain ⟨rfl, rfl⟩ := Operation.ackUserWrite.inj (Option.some.inj hop)
      refine ⟨path, rfl, ?_⟩
      rcases hpath with rfl | hpath
      · exact Or.inl (hp.elim id fun hnil => (List.append_eq_nil_iff.mp hnil.symm).2)
      · refine hp.imp id fun htail => ?_
        exact hpath.trans (congrArg (k :: ·) htail)

/-! ## The view -/

namespace ViewCache

variable [DecidableEq α]

/-- `applyOperationOn:operation:writesCache:completeCache:`, the value change apart. -/
def applyOperationOn (oldViewCache : ViewCache κ α) (operation : Operation κ α)
    (writesCache : WriteTreeRef κ α) :
    Option (ViewCache κ α × ChangeMap κ α × Option (Node κ α)) :=
  (oldViewCache.applyOperation operation writesCache (some [])).map fun r =>
    let changes := r.2.getD []
    (r.1, changes,
      if oldViewCache.addsValue r.1 changes then some r.1.cachedEventSnap.node else none)

/-- `applyOperation:writesCache:serverCache:` of `FView`. It is asserted that a complete server snap
never goes back. -/
def applyOperationToView (view : ViewCache κ α) (operation : Operation κ α)
    (writesCache : WriteTreeRef κ α) : Option (ViewCache κ α × List (DataEvent κ α)) :=
  (view.applyOperationOn operation writesCache).bind fun r =>
    if r.1.cachedServerSnap.isFullyInitialized || !view.cachedServerSnap.isFullyInitialized then
      (generateEventsForChanges r.2.1 r.2.2 r.1.cachedEventSnap.node).map fun events =>
        (r.1, events)
    else none

omit [DecidableEq α] in
/-- `initialEvents:` -/
def initialEvents (view : ViewCache κ α) : Option (List (DataEvent κ α)) :=
  let eventSnap := view.cachedEventSnap
  let initialChanges := eventSnap.node.childEntries.map fun c => (c.1, Change.childAdded c.2)
  generateEventsForChanges initialChanges
    (if eventSnap.isFullyInitialized then some eventSnap.node else none) eventSnap.node

end ViewCache

/-- `writeForId:` -/
def WriteTree.writeForId (t : WriteTree κ α) (writeId : ℤ) : Option (WriteRecord κ α) :=
  t.allWrites.find? fun record => record.writeId = writeId

/-! ## The tree -/

/-- What comes to a client. -/
inductive SyncEvent (κ α : Type) [LinearOrder κ] where
  /-- `set:withNode:withCallback:` -/
  | set (path : List κ) (node : Node κ α)
  /-- `ackWrite:rerunTransactionsAtPath:status:`, reverted when the status says so -/
  | ackWrite (writeId : ℤ) (revert : Bool)
  /-- `onDataUpdate:forPath:message:isMerge:tagId:` without a tag -/
  | serverOverwrite (path : List κ) (newData : Node κ α)
  | serverMerge (path : List κ) (changedChildren : CompoundWrite κ α)
  /-- `applyListenCompleteAtPath:` -/
  | listenComplete (path : List κ)

/-- `FRepo` and `FSyncTree` with the view of one place, and the events that have been raised. -/
structure SyncTree (κ α : Type) [LinearOrder κ] where
  repo : Repo κ α
  viewCache : ViewCache κ α
  events : List (DataEvent κ α)

/-- The event cache of a new view. -/
def WriteTreeRef.eventCacheNode (writesCache : WriteTreeRef κ α) (serverCache : CacheNode κ α) :
    CacheNode κ α :=
  match writesCache.calculateCompleteEventCacheWithCompleteServerCache
    (if serverCache.isFullyInitialized then some serverCache.node else none) with
  | some eventCache => ⟨eventCache, true⟩
  | none =>
    ⟨writesCache.calculateCompleteEventChildrenWithCompleteServerChildren serverCache.node, false⟩

/-- `addEventRegistration:forNonExistingViewForQuery:writesCache:serverCache:` of `FSyncPoint` -/
def addEventRegistration (treePath : List κ) (repo : Repo κ α) (serverCache : CacheNode κ α) :
    Option (SyncTree κ α) :=
  let writesCache : WriteTreeRef κ α := ⟨treePath, repo.pendingWriteTree⟩
  let viewCache : ViewCache κ α := ⟨writesCache.eventCacheNode serverCache, serverCache⟩
  viewCache.initialEvents.map fun events => ⟨repo, viewCache, events⟩

namespace SyncTree

variable [DecidableEq α]

/-- `applyOperationToSyncPoints:` -/
def applyOperationToSyncPoints (treePath : List κ) (s : SyncTree κ α)
    (operation : Operation κ α) : Option (SyncTree κ α) :=
  match operation.atPlace treePath with
  | none => some s
  | some operation =>
    (s.viewCache.applyOperationToView operation ⟨treePath, s.repo.pendingWriteTree⟩).map fun r =>
      { s with viewCache := r.1, events := s.events ++ r.2 }

/-- `ackUserWriteWithWriteId:revert:persist:clock:` -/
def ackUserWriteWithWriteId (treePath : List κ) (s : SyncTree κ α) (writeId : ℤ)
    (revert : Bool) : Option (SyncTree κ α) :=
  match s.repo.pendingWriteTree.writeForId writeId with
  | none => none
  | some write =>
    (s.repo.pendingWriteTree.removeWriteId writeId).bind fun r =>
      let needToReevaluate := r.1
      let s := { s with repo := { s.repo with pendingWriteTree := r.2 } }
      if needToReevaluate then
        s.applyOperationToSyncPoints treePath (.ackUserWrite write.path revert)
      else some s

def step (treePath : List κ) (s : SyncTree κ α) : SyncEvent κ α → Option (SyncTree κ α)
  | .set path node =>
    (s.repo.set path node).bind fun repo =>
      applyOperationToSyncPoints treePath { s with repo := repo } (.overwrite true path node)
  | .ackWrite writeId revert => s.ackUserWriteWithWriteId treePath writeId revert
  | .serverOverwrite path newData =>
    s.applyOperationToSyncPoints treePath (.overwrite false path newData)
  | .serverMerge path changedChildren =>
    s.applyOperationToSyncPoints treePath (.merge path changedChildren)
  | .listenComplete path => s.applyOperationToSyncPoints treePath (.listenComplete path)

end SyncTree

/-- What is done with an operation that comes to the view. -/
theorem SyncTree.applied_of_atPlace [DecidableEq α] {treePath : List κ} {s s' : SyncTree κ α}
    {operation left : Operation κ α} (hleft : operation.atPlace treePath = some left)
    (h : s.applyOperationToSyncPoints treePath operation = some s') :
    ∃ acc events, s.viewCache.applyOperation left ⟨treePath, s.repo.pendingWriteTree⟩ (some []) =
        some (s'.viewCache, acc) ∧
      generateEventsForChanges (acc.getD [])
        (if s.viewCache.addsValue s'.viewCache (acc.getD []) then
          some s'.viewCache.cachedEventSnap.node else none)
        s'.viewCache.cachedEventSnap.node = some events ∧
      s' = { s with viewCache := s'.viewCache, events := s.events ++ events } := by
  rw [SyncTree.applyOperationToSyncPoints, hleft] at h
  obtain ⟨⟨v, es⟩, hview, rfl⟩ := Option.map_eq_some_iff.mp h
  obtain ⟨r, hon, hevents⟩ := Option.bind_eq_some_iff.mp hview
  obtain ⟨⟨u, acc⟩, happly, rfl⟩ := Option.map_eq_some_iff.mp hon
  dsimp only at hevents
  split at hevents
  · obtain ⟨es', hes, heq⟩ := Option.map_eq_some_iff.mp hevents
    obtain ⟨rfl, rfl⟩ := Prod.mk.inj heq
    exact ⟨acc, es', happly, hes, rfl⟩
  · cases hevents

/-- And with one that does not. -/
theorem SyncTree.eq_of_atPlace [DecidableEq α] {treePath : List κ} {s s' : SyncTree κ α}
    {operation : Operation κ α} (hleft : operation.atPlace treePath = none)
    (h : s.applyOperationToSyncPoints treePath operation = some s') : s' = s := by
  rw [SyncTree.applyOperationToSyncPoints, hleft] at h
  exact (Option.some.inj h).symm

/-- A client with a view of a place, from the moment it is added. -/
def syncTree [DecidableEq α] (treePath : List κ) :
    Transition.System (SyncTree κ α) (SyncEvent κ α) where
  init s := ∃ es r serverCache, repo.run Repo.init es = some r ∧
    addEventRegistration treePath r serverCache = some s
  step := SyncTree.step treePath

/-! ## What a listener knows -/

section Listener

variable {old new : Node κ α} {changes : ChangeMap κ α}

/-- Without changes of children a node that is neither a leaf nor empty is the same. -/
theorem eq_of_reports_nil (h : Reports old new.getImmediateChild [])
    (hleaf : new.isLeafNode = true ∨ new.isEmpty = true → new = old) : new = old := by
  have hchildren : ∀ k, old.getImmediateChild k = new.getImmediateChild k :=
    fun k => h.eq_of_lookup_none rfl
  by_cases hnew : new.isLeafNode = true ∨ new.isEmpty = true
  · exact hleaf hnew
  · rw [not_or, Node.isEmpty_iff] at hnew
    -- the new node has a child, so the old one has it and is no leaf either
    have hvalue : new.leafValue = none := by simpa [Node.isLeafNode] using hnew.1
    have hold : old.leafValue = none := by
      by_contra hold
      refine hnew.2 (Node.ext_children hvalue fun k => ?_)
      rw [← hchildren k, Node.getImmediateChild_of_leaf hold, Node.getImmediateChild_empty]
    exact Node.ext_children (hvalue.trans hold.symm) fun k => (hchildren k).symm

/-- The first events are those of the changes from nothing. -/
theorem reports_childEntries (n : Node κ α) : Reports Node.empty n.getImmediateChild
    (n.childEntries.map fun c => (c.1, Change.childAdded c.2)) where
  sorted := List.pairwise_map.mpr n.sorted_childEntries
  describes k := by
    have hlookup : (n.childEntries.map fun c => (c.1, Change.childAdded c.2)).lookup k =
        (n.childEntries.lookup k).map Change.childAdded := by
      induction n.childEntries with
      | nil => rfl
      | cons c cs ih =>
        rw [List.map_cons, List.lookup_cons, List.lookup_cons, ih]
        cases k == c.1 <;> rfl
    rw [hlookup, n.lookup_childEntries, Node.getImmediateChild_empty]
    split
    · next hchild => exact .added (Node.hasChild_iff.mp hchild)
    · next hchild =>
      rw [Node.hasChild_iff, not_not] at hchild
      rw [hchild]
      exact .nothing _

/-- A listener that has gone by the events has the children of the event cache, in their order,
and its value when it is complete. -/
structure UpToDate (s : SyncTree κ α) : Prop where
  children : s.events.foldl handle [] = s.viewCache.cachedEventSnap.node.childEntries
  value : s.viewCache.cachedEventSnap.isFullyInitialized = true →
    lastValue s.events = some s.viewCache.cachedEventSnap.node

theorem exists_addEventRegistration (treePath : List κ) (r : Repo κ α) (c : CacheNode κ α) :
    ∃ s, addEventRegistration treePath r c = some s ∧ s.repo = r ∧ UpToDate s := by
  rw [addEventRegistration]
  generalize WriteTreeRef.eventCacheNode ⟨treePath, r.pendingWriteTree⟩ c = eventSnap
  obtain ⟨es, hes, hhandle⟩ := handle_generateEventsForChanges
    (reports_childEntries eventSnap.node)
    (if eventSnap.isFullyInitialized then some eventSnap.node else none)
  refine ⟨⟨r, ⟨eventSnap, c⟩, es⟩, by rw [ViewCache.initialEvents, hes]; rfl, rfl, hhandle,
    fun hcomplete => ?_⟩
  have hlast := lastValue_append hes []
  rw [List.nil_append] at hlast
  rw [hlast, if_pos hcomplete]
  rfl

variable [DecidableEq α] {s s' : SyncTree κ α} {treePath : List κ}

/-- From the view `v` to `v'` a listener is told everything: with the events it gets from the children
of the one to those of the other, and from the value of the one to that of the other. -/
structure Tells (v v' : ViewCache κ α) (es : List (DataEvent κ α)) : Prop where
  children : es.foldl handle v.cachedEventSnap.node.childEntries =
    v'.cachedEventSnap.node.childEntries
  value : v'.cachedEventSnap.isFullyInitialized = true → ∀ es',
    (v.cachedEventSnap.isFullyInitialized = true → lastValue es' = some v.cachedEventSnap.node) →
      lastValue (es' ++ es) = some v'.cachedEventSnap.node

/-- **One operation** that the processor gets through. A complete server snap has not gone back. -/
theorem exists_tells_of_merged {v : ViewCache κ α} {op : Operation κ α} {w : WriteTreeRef κ α}
    (h : Merged v.cachedEventSnap.node (v.applyOperation op w (some []))) :
    ∃ v' es, v.applyOperationToView op w = some (v', es) ∧ Tells v v' es := by
  obtain ⟨v', changes, happly, hreports⟩ := h
  have hon : v.applyOperationOn op w = some (v', changes,
      if v.addsValue v' changes then some v'.cachedEventSnap.node else none) := by
    rw [ViewCache.applyOperationOn, happly]
    rfl
  have hback : (v'.cachedServerSnap.isFullyInitialized ||
      !v.cachedServerSnap.isFullyInitialized) = true := by
    by_cases hinit : v.cachedServerSnap.isFullyInitialized = true
    · rw [ViewCache.applyOperation_complete hinit happly, Bool.true_or]
    · rw [Bool.not_eq_true] at hinit
      rw [hinit, Bool.not_false, Bool.or_true]
  obtain ⟨es, hes, hhandle⟩ := handle_generateEventsForChanges hreports
    (if v.addsValue v' changes then some v'.cachedEventSnap.node else none)
  refine ⟨v', es, ?_, hhandle, fun hcomplete es' hlast => ?_⟩
  · rw [ViewCache.applyOperationToView, hon, Option.bind_some]
    dsimp only
    rw [if_pos hback, hes]
    rfl
  rw [lastValue_append hes]
  by_cases hadds : v.addsValue v' changes = true
  · rw [if_pos hadds]
    rfl
  · -- nothing is said, so nothing has changed
    rw [if_neg hadds, Option.none_or]
    simp only [ViewCache.addsValue, hcomplete, Bool.true_and, Bool.or_eq_true, not_or,
      Bool.not_eq_true', Bool.not_eq_false, Bool.and_eq_true, not_and, List.isEmpty_iff] at hadds
    obtain ⟨⟨hnil, hold⟩, hleaf⟩ := hadds
    subst hnil
    rw [hlast (by simpa using hold), eq_of_reports_nil hreports fun hnew => ?_]
    simpa using hleaf hnew

/-- When an operation raises in the processor, the view raises. -/
theorem tells_of_applyOperationToView {v v' : ViewCache κ α} {op : Operation κ α}
    {w : WriteTreeRef κ α} {es : List (DataEvent κ α)}
    (h : v.applyOperationToView op w = some (v', es)) : Tells v v' es := by
  rcases raises_or_merged (w := w) (reports_nil v.cachedEventSnap.node) op with hnone | hmerged
  · rw [ViewCache.applyOperationToView, ViewCache.applyOperationOn, hnone] at h
    cases h
  · obtain ⟨u, fs, happly, htells⟩ := exists_tells_of_merged hmerged
    obtain ⟨rfl, rfl⟩ := Prod.mk.inj (Option.some.inj (happly.symm.trans h))
    exact htells

/-! ### One event -/

variable (treePath) in
/-- What a Debug build asserts when the operation comes to the view. -/
def RevertsCleanly (s : SyncTree κ α) (op : Operation κ α) : Prop :=
  ∀ op', op.atPlace treePath = some op' →
    s.viewCache.RevertsCleanly ⟨treePath, s.repo.pendingWriteTree⟩ op'

theorem exists_applyOperationToSyncPoints {op : Operation κ α}
    (hop : RevertsCleanly treePath s op) :
    ∃ s', s.applyOperationToSyncPoints treePath op = some s' := by
  rw [SyncTree.applyOperationToSyncPoints]
  cases hplace : op.atPlace treePath with
  | none => exact ⟨s, rfl⟩
  | some op' =>
    obtain ⟨v', es, happly, -⟩ := exists_tells_of_merged
      (merged_applyOperation (reports_nil s.viewCache.cachedEventSnap.node) (hop op' hplace))
    dsimp only
    rw [happly]
    exact ⟨_, rfl⟩

theorem UpToDate.applyOperationToSyncPoints (h : UpToDate s) {op : Operation κ α}
    (hs : s.applyOperationToSyncPoints treePath op = some s') :
    s'.repo = s.repo ∧ UpToDate s' := by
  cases hplace : op.atPlace treePath with
  | none =>
    obtain rfl := SyncTree.eq_of_atPlace hplace hs
    exact ⟨rfl, h⟩
  | some op' =>
    rw [SyncTree.applyOperationToSyncPoints, hplace] at hs
    obtain ⟨⟨v', es⟩, happly, rfl⟩ := Option.map_eq_some_iff.mp hs
    obtain ⟨hchildren, hvalue⟩ := tells_of_applyOperationToView happly
    refine ⟨rfl, ?_, fun hcomplete => hvalue hcomplete _ h.value⟩
    dsimp only
    rw [List.foldl_append, h.children]
    exact hchildren

/-- What the client has done before and a listener's knowledge. -/
structure Sound (s : SyncTree κ α) : Prop where
  repo : ∃ es, repo.run Repo.init es = some s.repo
  upToDate : UpToDate s

omit [DecidableEq α] in
theorem UpToDate.of_eq {r : Repo κ α} (h : UpToDate s) : UpToDate { s with repo := r } :=
  ⟨h.children, h.value⟩

omit [DecidableEq α] in
theorem Repo.exists_run_concat {es : List (RepoEvent κ α)} {r r' : Repo κ α} {e : RepoEvent κ α}
    (hr : FirebaseDatabase.repo.run Repo.init es = some r) (hs : r.step e = some r') :
    ∃ fs, FirebaseDatabase.repo.run Repo.init fs = some r' :=
  ⟨es ++ [e], (Transition.System.run_append_eq_some _).mpr
    ⟨r, hr, (Transition.System.run_cons_eq_some _).mpr ⟨r', hs, rfl⟩⟩⟩

/-- **One event.** A client that gets through it has told its listener everything. -/
theorem Sound.step (h : Sound s) {e : SyncEvent κ α}
    (hs : SyncTree.step treePath s e = some s') : Sound s' := by
  obtain ⟨⟨es, hr⟩, hup⟩ := h
  have hserver : ∀ op : Operation κ α,
      s.applyOperationToSyncPoints treePath op = some s' → Sound s' := by
    intro op happly
    obtain ⟨hrepo, hup'⟩ := hup.applyOperationToSyncPoints happly
    exact ⟨⟨es, hrepo ▸ hr⟩, hup'⟩
  cases e with
  | set path node =>
    obtain ⟨r, hset, happly⟩ := Option.bind_eq_some_iff.mp hs
    obtain ⟨hrepo, hup'⟩ := (hup.of_eq (r := r)).applyOperationToSyncPoints happly
    exact ⟨hrepo ▸ Repo.exists_run_concat hr (e := .set path node) hset, hup'⟩
  | ackWrite writeId revert =>
    rw [SyncTree.step, SyncTree.ackUserWriteWithWriteId] at hs
    split at hs
    · cases hs
    · obtain ⟨t, ht, hs⟩ := Option.bind_eq_some_iff.mp hs
      have hack : s.repo.ackWrite writeId = some { s.repo with pendingWriteTree := t.2 } := by
        rw [Repo.ackWrite, ht]
        rfl
      have hrepo' := Repo.exists_run_concat hr (e := .ackWrite writeId) hack
      dsimp only at hs
      split at hs
      · obtain ⟨hrepo, hup'⟩ := (hup.of_eq (r := _)).applyOperationToSyncPoints hs
        exact ⟨hrepo ▸ hrepo', hup'⟩
      · obtain rfl := Option.some.inj hs
        exact ⟨hrepo', hup.of_eq⟩
  | serverOverwrite path newData => exact hserver _ hs
  | serverMerge path changedChildren => exact hserver _ hs
  | listenComplete path => exact hserver _ hs

/-- What makes an answer one the client gets through: it is to a pending write, and what a Debug
build asserts of the view is true when the write is taken back. -/
def Clean (treePath : List κ) (s : SyncTree κ α) : SyncEvent κ α → Prop
  | .ackWrite writeId revert => ∃ w, s.repo.pendingWriteTree.writeForId writeId = some w ∧
      ∀ t, s.repo.pendingWriteTree.removeWriteId writeId = some (true, t) →
        RevertsCleanly treePath { s with repo := { s.repo with pendingWriteTree := t } }
          (.ackUserWrite w.path revert)
  | _ => True

omit [DecidableEq α] in
theorem WriteTree.exists_removeWriteId_of_writeForId {t : WriteTree κ α} {writeId : ℤ}
    {w : WriteRecord κ α} (h : t.writeForId writeId = some w) :
    ∃ r, t.removeWriteId writeId = some r := by
  obtain rfl : w.writeId = writeId := by simpa using List.find?_some h
  exact WriteTree.exists_removeWriteId (List.mem_of_find?_eq_some h)

/-- An operation that is not a refusal, or one of a write that is not below a child of the view,
asserts nothing that could be false. -/
theorem revertsCleanly_of_atPlace {op : Operation κ α}
    (h : ∀ path, op = .ackUserWrite path true → ∀ q, path = treePath ++ q → q.length ≤ 1) :
    RevertsCleanly treePath s op := by
  refine fun op' hop' => ViewCache.revertsCleanly_of_refused fun p hp => ?_
  subst hp
  obtain ⟨path, rfl, rfl | hpath⟩ := Operation.eq_of_atPlace_ackUserWrite hop'
  · trivial
  · exact ViewCache.revertsCleanly_of_length _ _ (h path rfl p hpath)

/-- From a sound state every clean event can be taken: none of the assertions on the way
fails, whichever operation the event becomes. -/
theorem Sound.exists_step (h : Sound s) {e : SyncEvent κ α} (he : Clean treePath s e) :
    ∃ s', SyncTree.step treePath s e = some s' := by
  cases e with
  | set path node =>
    obtain ⟨es, hr⟩ := h.repo
    rw [SyncTree.step, (Repo.ordered_of_run hr).set_eq path node, Option.bind_some]
    exact exists_applyOperationToSyncPoints (revertsCleanly_of_atPlace (by simp))
  | ackWrite writeId revert =>
    obtain ⟨w, hw, hclean⟩ := he
    obtain ⟨⟨b, t⟩, ht⟩ := WriteTree.exists_removeWriteId_of_writeForId hw
    rw [SyncTree.step, SyncTree.ackUserWriteWithWriteId, hw]
    dsimp only
    rw [ht, Option.bind_some]
    cases b with
    | true => exact exists_applyOperationToSyncPoints (hclean t ht)
    | false => exact ⟨_, rfl⟩
  | serverOverwrite path newData =>
    exact exists_applyOperationToSyncPoints (revertsCleanly_of_atPlace (by simp))
  | serverMerge path changedChildren =>
    exact exists_applyOperationToSyncPoints (revertsCleanly_of_atPlace (by simp))
  | listenComplete path =>
    exact exists_applyOperationToSyncPoints (revertsCleanly_of_atPlace (by simp))

/-- The answer is to a pending write, and a write that is refused is not one below a child of the
view. -/
def Answerable (treePath : List κ) (s : SyncTree κ α) : SyncEvent κ α → Prop
  | .ackWrite writeId revert => ∃ w, s.repo.pendingWriteTree.writeForId writeId = some w ∧
      (revert = true → ∀ q, w.path = treePath ++ q → q.length ≤ 1)
  | _ => True

theorem Answerable.clean {e : SyncEvent κ α} (h : Answerable treePath s e) :
    Clean treePath s e := by
  cases e with
  | ackWrite writeId revert =>
    obtain ⟨w, hw, hpath⟩ := h
    refine ⟨w, hw, fun t _ => revertsCleanly_of_atPlace ?_⟩
    rintro path heq
    obtain ⟨rfl, rfl⟩ := Operation.ackUserWrite.inj heq
    exact hpath rfl
  | _ => trivial

theorem sound_of_init (hs : (syncTree treePath).init s) : Sound s := by
  obtain ⟨es, r, c, hr, hadd⟩ := hs
  obtain ⟨s', hadd', hrepo, hup⟩ := exists_addEventRegistration treePath r c
  obtain rfl := Option.some.inj (hadd.symm.trans hadd')
  exact ⟨⟨es, hrepo ▸ hr⟩, hup⟩

theorem sound_of_run (h : Sound s) {es : List (SyncEvent κ α)}
    (hr : (syncTree treePath).run s es = some s') : Sound s' :=
  (syncTree treePath).run_invariant' (P := Sound) (fun _ _ _ h hs => h.step hs) h hr

/-- A run in which every event is one the client gets through. -/
theorem exists_run_of_clean (h : Sound s) {es : List (SyncEvent κ α)}
    (hes : (syncTree treePath).Always (Clean treePath) s es) :
    ∃ s', (syncTree treePath).run s es = some s' := by
  obtain ⟨s', hr, -⟩ := (syncTree treePath).exists_run (P := Sound)
    (fun _ _ h he => (h.exists_step he).imp fun _ hs => ⟨hs, h.step hs⟩) h hes
  exact ⟨s', hr⟩

/-- **A listener is always up to date.** Whatever is set and removed by the user, the server sends
and the answers to pending writes are, in whatever order: a client that gets through it has told
who goes by the events the children of the event cache in their order, and its value when it is
complete. And it gets through it, without an assertion failing, if no refused write is one below
a child of the view. -/
theorem upToDate_of_run (hs : (syncTree treePath).init s) (es : List (SyncEvent κ α)) :
    (∀ s', (syncTree treePath).run s es = some s' → UpToDate s') ∧
      ((syncTree treePath).Always (Answerable treePath) s es →
        ∃ s', (syncTree treePath).run s es = some s') :=
  ⟨fun _ hr => (sound_of_run (sound_of_init hs) hr).upToDate, fun hes =>
    exists_run_of_clean (sound_of_init hs) ((syncTree treePath).always_mono
      (fun _ _ _ he => he.clean) hes)⟩

/-- A child is written before the server has sent the node; the server sends it and refuses the
write. -/
def firstLoad : List (SyncEvent ℕ ℕ) :=
  [.set [1, 2] (.leaf 5), .serverOverwrite [1] (Node.empty.updateChild [3] (.leaf 7)),
    .ackWrite 0 true]

/-- A view of which nothing is known. -/
def unloaded : SyncTree ℕ ℕ :=
  ⟨Repo.init, ⟨⟨Node.empty, false⟩, ⟨Node.empty, false⟩⟩, []⟩

theorem always_answerable_firstLoad :
    (syncTree [1]).Always (Answerable [1]) unloaded firstLoad := by
  refine ⟨trivial, fun s₁ h₁ => ⟨trivial, fun s₂ h₂ => ⟨?_, fun _ _ => trivial⟩⟩⟩
  obtain rfl := Option.some.inj h₁
  obtain rfl := Option.some.inj h₂
  refine ⟨⟨0, [1, 2], .leaf 5, true⟩, rfl, fun _ q hq => ?_⟩
  obtain rfl : q = [2] := by simpa using hq.symm
  exact Nat.le_refl 1

theorem upToDate_of_run_firstLoad :
    ∃ s, (syncTree [1]).run unloaded firstLoad = some s ∧ UpToDate s := by
  have hinit : (syncTree [1]).init unloaded :=
    ⟨[], Repo.init, ⟨Node.empty, false⟩, rfl, rfl⟩
  obtain ⟨hup, hruns⟩ := upToDate_of_run hinit firstLoad
  obtain ⟨s, hr⟩ := hruns always_answerable_firstLoad
  exact ⟨s, hr, hup s hr⟩

end Listener

end FirebaseDatabase
