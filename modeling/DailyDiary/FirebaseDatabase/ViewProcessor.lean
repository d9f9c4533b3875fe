/-
`FViewProcessor`: what an operation makes of the caches of a view, and the changes of
children it reports meanwhile.

The two are tied by `Merged`: whatever the state of the caches, the changes of the accumulator
are those of the event snap. Only one operation can raise. When a write below a child of the
view is refused the child is calculated anew, and a Debug build asserts that it has not changed
elsewhere (`RevertsCleanly`); `merged_applyOperation` says that nothing else is raised, and
`raises_or_merged` what is left when it is.

Filters, priorities and the merges of `updateChildValues` are left out, and `optCompleteCache`
is the view's own server cache, as it is when no view of a place above is there.
-/
import DailyDiary.FirebaseDatabase.ViewCache

set_option autoImplicit false

namespace FirebaseDatabase

variable {κ α : Type} [LinearOrder κ]

mutual

/-- `forEach:`, the values with their paths. -/
def ImmutableTree.forEach {V : Type} : ImmutableTree κ V → List κ → List (List κ × V)
  | ⟨value, cs⟩, pathSoFar => ImmutableTree.forEachChild cs pathSoFar ++
      match value with
      | some v => [(pathSoFar, v)]
      | none => []

/-- The enumeration of the children. -/
def ImmutableTree.forEachChild {V : Type} :
    List (κ × ImmutableTree κ V) → List κ → List (List κ × V)
  | [], _ => []
  | (childKey, childTree) :: cs, pathSoFar =>
    childTree.forEach (pathSoFar ++ [childKey]) ++ ImmutableTree.forEachChild cs pathSoFar

end

/-- `addCompoundWrite:atPath:` -/
def CompoundWrite.addCompoundWrite (w compoundWrite : CompoundWrite κ α) (path : List κ) :
    CompoundWrite κ α :=
  (compoundWrite.writeTree.forEach []).foldl (fun newWrite r => newWrite.addWrite r.2 (path ++ r.1)) w

/-- `FOperation`: overwrites of the user and the server, merges of the server, answers to the
user's overwrites, and the end of a listen. -/
inductive Operation (κ α : Type) [LinearOrder κ] where
  | overwrite (fromUser : Bool) (path : List κ) (snap : Node κ α)
  | merge (path : List κ) (children : CompoundWrite κ α)
  | ackUserWrite (path : List κ) (revert : Bool)
  | listenComplete (path : List κ)

/-- The caches of a view and what has been tracked. -/
abbrev Update (κ α : Type) [LinearOrder κ] := ViewCache κ α × Option (ChangeMap κ α)

variable [DecidableEq α]

namespace ViewCache

/-! ## What the server does -/

/-- The child that `generateEventCacheAfterServerEvent:` puts into the event snap. -/
def eventChildAfterServerEvent (viewCache : ViewCache κ α) (childKey : κ)
    (childChangePath : List κ) (writesCache : WriteTreeRef κ α) : Option (Node κ α) :=
  let oldEventSnap := viewCache.cachedEventSnap
  if oldEventSnap.isCompleteForChild childKey then
    match writesCache.calculateEventCacheAfterServerOverwriteWithChildPath
      (childKey :: childChangePath) viewCache.cachedServerSnap.node with
    | some eventChildUpdate =>
      some ((oldEventSnap.node.getImmediateChild childKey).updateChild childChangePath
        eventChildUpdate)
    | none => some (oldEventSnap.node.getImmediateChild childKey)
  else writesCache.calculateCompleteChild childKey viewCache.cachedServerSnap

/-- `generateEventCacheAfterServerEvent:path:writesCache:source:accumulator:`. It is asserted that
the server's node is complete when the path is empty. -/
def generateEventCacheAfterServerEvent (viewCache : ViewCache κ α) (changePath : List κ)
    (writesCache : WriteTreeRef κ α) (accumulator : Option (ChangeMap κ α)) :
    Option (Update κ α) :=
  let oldEventSnap := viewCache.cachedEventSnap
  if (writesCache.shadowingWriteAtPath changePath).isSome then
    -- we have a shadowing write, ignore changes
    some (viewCache, accumulator)
  else
    match changePath with
    | [] =>
      (writesCache.calculateCompleteEventCacheWithCompleteServerCache
        viewCache.completeServerSnap).bind fun nodeWithLocalWrites =>
        (updateFullNode oldEventSnap.node nodeWithLocalWrites accumulator).map fun r =>
          (viewCache.updateEventSnap r.1 true, r.2)
    | childKey :: childChangePath =>
      match viewCache.eventChildAfterServerEvent childKey childChangePath writesCache with
      | some newEventChild =>
        (updateChildIn oldEventSnap.node childKey newEventChild childChangePath accumulator).map
          fun r => (viewCache.updateEventSnap r.1 oldEventSnap.isFullyInitialized, r.2)
      | none =>
        some (viewCache.updateEventSnap oldEventSnap.node oldEventSnap.isFullyInitialized,
          accumulator)

/-- `applyServerOverwriteTo:changePath:snap:writesCache:completeCache:filterServerNode:accumulator:` -/
def applyServerOverwriteTo (oldViewCache : ViewCache κ α) (changePath : List κ)
    (changedSnap : Node κ α) (writesCache : WriteTreeRef κ α)
    (accumulator : Option (ChangeMap κ α)) : Option (Update κ α) :=
  let oldServerSnap := oldViewCache.cachedServerSnap
  match changePath with
  | [] =>
    (updateFullNode oldServerSnap.node changedSnap none).bind fun newServerCache =>
      (oldViewCache.updateServerSnap newServerCache.1 true).generateEventCacheAfterServerEvent []
        writesCache accumulator
  | childKey :: childChangePath =>
    if !oldServerSnap.isCompleteForPath changePath && 1 < changePath.length then
      -- incomplete nodes are not updated with updates for other listeners
      some (oldViewCache, accumulator)
    else
      let newChildNode :=
        (oldServerSnap.node.getImmediateChild childKey).updateChild childChangePath changedSnap
      (updateChildIn oldServerSnap.node childKey newChildNode childChangePath none).bind
        fun newServerCache =>
          (oldViewCache.updateServerSnap newServerCache.1
            oldServerSnap.isFullyInitialized).generateEventCacheAfterServerEvent changePath
              writesCache accumulator

/-- `applyServerMergeTo:path:changedChildren:writesCache:completeCache:filterServerNode:accumulator:`.
The children the server's node has come first, in the order of their keys. -/
def applyServerMergeTo (viewCache : ViewCache κ α) (path : List κ)
    (changedChildren : CompoundWrite κ α) (writesCache : WriteTreeRef κ α)
    (accumulator : Option (ChangeMap κ α)) : Option (Update κ α) :=
  let serverCache := viewCache.cachedServerSnap
  let serverNode := serverCache.node
  if serverNode.isEmpty && !serverCache.isFullyInitialized then some (viewCache, accumulator)
  else
    let actualMerge :=
      if path.isEmpty then changedChildren
      else CompoundWrite.emptyWrite.addCompoundWrite changedChildren path
    let childCompoundWrites := actualMerge.writeTree.children
    let applyChildMerge (cur : Update κ α) (c : κ × ImmutableTree κ (Node κ α)) :=
      cur.1.applyServerOverwriteTo [c.1]
        (c.2.applySubtreeWrite [] (serverNode.getImmediateChild c.1)) writesCache cur.2
    let isUnknownDeepMerge (c : κ × ImmutableTree κ (Node κ α)) :=
      !serverCache.isCompleteForChild c.1 && c.2.value.isNone
    ((childCompoundWrites.filter fun c => serverNode.hasChild c.1).foldlM applyChildMerge
      (viewCache, accumulator)).bind fun cur =>
        (childCompoundWrites.filter fun c =>
          !serverNode.hasChild c.1 && !isUnknownDeepMerge c).foldlM applyChildMerge cur

/-- `listenCompleteOldCache:path:writesCache:serverCache:accumulator:` -/
def listenCompleteOldCache (viewCache : ViewCache κ α) (path : List κ)
    (writesCache : WriteTreeRef κ α) (accumulator : Option (ChangeMap κ α)) :
    Option (Update κ α) :=
  let oldServerNode := viewCache.cachedServerSnap
  (viewCache.updateServerSnap oldServerNode.node
    (oldServerNode.isFullyInitialized || path.isEmpty)).generateEventCacheAfterServerEvent path
      writesCache accumulator

/-! ## What the user does -/

/-- `completeChild:` of `FWriteTreeCompleteChildSource` -/
def completeChild (viewCache : ViewCache κ α) (childKey : κ) (writesCache : WriteTreeRef κ α) :
    Option (Node κ α) :=
  let node := viewCache.cachedEventSnap
  if node.isCompleteForChild childKey then some (node.node.getImmediateChild childKey)
  else
    let serverNode :=
      match viewCache.completeServerSnap with
      | some optCompleteServerCache => ⟨optCompleteServerCache, true⟩
      | none => viewCache.cachedServerSnap
    writesCache.calculateCompleteChild childKey serverNode

/-- The child that `applyUserOverwriteTo:` puts into the event snap. -/
def eventChildAfterUserOverwrite (viewCache : ViewCache κ α) (childKey : κ)
    (childChangePath : List κ) (changedSnap : Node κ α) (writesCache : WriteTreeRef κ α) :
    Node κ α :=
  if childChangePath.isEmpty then changedSnap
  else
    match viewCache.completeChild childKey writesCache with
    | some childNode => childNode.updateChild childChangePath changedSnap
    | none => Node.empty

/-- `applyUserOverwriteTo:changePath:changedSnap:writesCache:completeCache:accumulator:` -/
def applyUserOverwriteTo (oldViewCache : ViewCache κ α) (changePath : List κ)
    (changedSnap : Node κ α) (writesCache : WriteTreeRef κ α)
    (accumulator : Option (ChangeMap κ α)) : Option (Update κ α) :=
  let oldEventSnap := oldViewCache.cachedEventSnap
  match changePath with
  | [] =>
    (updateFullNode oldEventSnap.node changedSnap accumulator).map fun r =>
      (oldViewCache.updateEventSnap r.1 true, r.2)
  | childKey :: childChangePath =>
    let oldChild := oldEventSnap.node.getImmediateChild childKey
    let newChild := oldViewCache.eventChildAfterUserOverwrite childKey childChangePath changedSnap
      writesCache
    if oldChild.isEqual newChild then some (oldViewCache, accumulator)
    else
      (updateChildIn oldEventSnap.node childKey newChild childChangePath accumulator).map fun r =>
        (oldViewCache.updateEventSnap r.1 oldEventSnap.isFullyInitialized, r.2)

/-- `ackUserWriteOn:ackPath:affectedTree:writesCache:completeCache:accumulator:` of an overwrite -/
def ackUserWriteOn (viewCache : ViewCache κ α) (ackPath : List κ) (writesCache : WriteTreeRef κ α)
    (accumulator : Option (ChangeMap κ α)) : Option (Update κ α) :=
  if (writesCache.shadowingWriteAtPath ackPath).isSome then some (viewCache, accumulator)
  else
    let serverCache := viewCache.cachedServerSnap
    if ackPath.isEmpty && serverCache.isFullyInitialized ||
        serverCache.isCompleteForPath ackPath then
      viewCache.applyServerOverwriteTo ackPath (serverCache.node.getChild ackPath) writesCache
        accumulator
    else if ackPath.isEmpty then
      -- the data is not complete: whatever is there is applied again as a merge
      let changedChildren := serverCache.node.childNames.foldl (fun changedChildren name =>
        changedChildren.addWrite (serverCache.node.getImmediateChild name) [name])
          CompoundWrite.emptyWrite
      viewCache.applyServerMergeTo ackPath changedChildren writesCache accumulator
    else some (viewCache, accumulator)

/-- `revertUserWriteOn:` at the place of the view -/
def revertFullNode (viewCache : ViewCache κ α) (writesCache : WriteTreeRef κ α)
    (accumulator : Option (ChangeMap κ α)) :
    Option (Node κ α × Option (ChangeMap κ α)) :=
  let serverSnap := viewCache.cachedServerSnap
  let newNode :=
    if serverSnap.isFullyInitialized then
      writesCache.calculateCompleteEventCacheWithCompleteServerCache viewCache.completeServerSnap
    else
      some (writesCache.calculateCompleteEventChildrenWithCompleteServerChildren serverSnap.node)
  newNode.bind fun newNode =>
    updateFullNode viewCache.cachedEventSnap.node newNode accumulator

/-- The child that `revertUserWriteOn:` puts into the event snap. -/
def eventChildAfterRevert (viewCache : ViewCache κ α) (childKey : κ)
    (writesCache : WriteTreeRef κ α) : Option (Node κ α) :=
  match writesCache.calculateCompleteChild childKey viewCache.cachedServerSnap with
  | some newChild => some newChild
  | none =>
    if viewCache.cachedServerSnap.isCompleteForChild childKey then
      some (viewCache.cachedEventSnap.node.getImmediateChild childKey)
    else none

/-- `revertUserWriteOn:` below it -/
def revertChild (viewCache : ViewCache κ α) (childKey : κ) (path : List κ)
    (writesCache : WriteTreeRef κ α) (accumulator : Option (ChangeMap κ α)) :
    Option (Node κ α × Option (ChangeMap κ α)) :=
  let oldEventCache := viewCache.cachedEventSnap.node
  match viewCache.eventChildAfterRevert childKey writesCache with
  | some newChild => updateChildIn oldEventCache childKey newChild path accumulator
  | none =>
    if oldEventCache.hasChild childKey then
      -- no complete child available, delete the existing one
      updateChildIn oldEventCache childKey Node.empty path accumulator
    else some (oldEventCache, accumulator)

/-- What `revertUserWriteOn:` does when no child is left: the old event may have been a leaf. -/
def revertToLeaf (viewCache : ViewCache κ α) (writesCache : WriteTreeRef κ α)
    (r : Node κ α × Option (ChangeMap κ α)) : Option (Node κ α × Option (ChangeMap κ α)) :=
  if r.1.isEmpty && viewCache.cachedServerSnap.isFullyInitialized then
    (writesCache.calculateCompleteEventCacheWithCompleteServerCache
      viewCache.completeServerSnap).bind fun complete =>
        if complete.isLeafNode then updateFullNode r.1 complete r.2 else some r
  else some r

/-- `revertUserWriteOn:path:writesCache:completeCache:accumulator:` -/
def revertUserWriteOn (viewCache : ViewCache κ α) (path : List κ) (writesCache : WriteTreeRef κ α)
    (accumulator : Option (ChangeMap κ α)) : Option (Update κ α) :=
  if (writesCache.shadowingWriteAtPath path).isSome then some (viewCache, accumulator)
  else
    let newEventCache :=
      match path with
      | [] => viewCache.revertFullNode writesCache accumulator
      | childKey :: path =>
        (viewCache.revertChild childKey path writesCache accumulator).bind
          (viewCache.revertToLeaf writesCache)
    let complete := viewCache.cachedServerSnap.isFullyInitialized ||
      (writesCache.shadowingWriteAtPath []).isSome
    newEventCache.map fun r => (viewCache.updateEventSnap r.1 complete, r.2)

/-! ## The operations -/

/-- The branches of `applyOperationOn:operation:writesCache:completeCache:` -/
def applyOperation (oldViewCache : ViewCache κ α) (operation : Operation κ α)
    (writesCache : WriteTreeRef κ α) (accumulator : Option (ChangeMap κ α)) :
    Option (Update κ α) :=
  match operation with
  | .overwrite true path snap =>
    oldViewCache.applyUserOverwriteTo path snap writesCache accumulator
  | .overwrite false path snap =>
    oldViewCache.applyServerOverwriteTo path snap writesCache accumulator
  | .merge path children => oldViewCache.applyServerMergeTo path children writesCache accumulator
  | .ackUserWrite path false => oldViewCache.ackUserWriteOn path writesCache accumulator
  | .ackUserWrite path true => oldViewCache.revertUserWriteOn path writesCache accumulator
  | .listenComplete path => oldViewCache.listenCompleteOldCache path writesCache accumulator

/-- `maybeAddValueFromOldViewCache:newViewCache:changes:`: whether there is a value change. -/
def addsValue (oldViewCache newViewCache : ViewCache κ α) (changes : ChangeMap κ α) : Bool :=
  let eventSnap := newViewCache.cachedEventSnap
  let isLeafOrEmpty := eventSnap.node.isLeafNode || eventSnap.node.isEmpty
  eventSnap.isFullyInitialized &&
    (!changes.isEmpty || !oldViewCache.cachedEventSnap.isFullyInitialized ||
      isLeafOrEmpty && !eventSnap.node.isEqual oldViewCache.cachedEventSnap.node)

end ViewCache

/-! ## What is asserted -/

/-- What a Debug build asserts when a write below a child of the view is taken back: the child
that is calculated anew differs from the one that is shown at the place of the write only. A
write of the child itself, or above it, cannot fail so. -/
def ViewCache.RevertsCleanly (v : ViewCache κ α) (w : WriteTreeRef κ α) : Operation κ α → Prop
  | .ackUserWrite (k :: p) true => ∀ c, v.eventChildAfterRevert k w = some c →
      Unmistaken (v.cachedEventSnap.node.getImmediateChild k) c p
  | _ => True

theorem ViewCache.revertsCleanly_of_refused {v : ViewCache κ α} {w : WriteTreeRef κ α}
    {op : Operation κ α}
    (h : ∀ p, op = .ackUserWrite p true → v.RevertsCleanly w (.ackUserWrite p true)) :
    v.RevertsCleanly w op := by
  cases op with
  | ackUserWrite p revert =>
    cases revert with
    | true => exact h p rfl
    | false => cases p <;> trivial
  | _ => trivial

theorem ViewCache.revertsCleanly_of_length (v : ViewCache κ α) (w : WriteTreeRef κ α)
    {p : List κ} (hp : p.length ≤ 1) : v.RevertsCleanly w (.ackUserWrite p true) := by
  cases p with
  | nil => trivial
  | cons k p =>
    obtain rfl : p = [] := by simpa using hp
    exact fun c _ => unmistaken_nil _ c

/-- The node was updated, and the changes are those from the children of `n` to its own. -/
def MergedNode (n : Node κ α) (r : Option (Node κ α × Option (ChangeMap κ α))) : Prop :=
  ∃ m changes, r = some (m, some changes) ∧ Reports n m.getImmediateChild changes

/-- The caches were updated, and the changes are those to the children of the event snap. -/
def Merged (n : Node κ α) (r : Option (Update κ α)) : Prop :=
  ∃ v changes, r = some (v, some changes) ∧
    Reports n v.cachedEventSnap.node.getImmediateChild changes

section Merging

variable {n m : Node κ α} {changes : ChangeMap κ α} {v : ViewCache κ α} {w : WriteTreeRef κ α}

omit [DecidableEq α] in
theorem mergedNode_some (h : Reports n m.getImmediateChild changes) :
    MergedNode n (some (m, some changes)) :=
  ⟨m, changes, rfl, h⟩

theorem mergedNode_updateChildIn (h : Reports n m.getImmediateChild changes) {k : κ}
    {c : Node κ α} {p : List κ} (hc : Unmistaken (m.getImmediateChild k) c p) :
    MergedNode n (updateChildIn m k c p (some changes)) :=
  updateChildIn_reports h hc

theorem mergedNode_updateFullNode (h : Reports n m.getImmediateChild changes) (c : Node κ α) :
    MergedNode n (updateFullNode m c (some changes)) := by
  obtain ⟨changes', heq, h'⟩ := updateFullNode_reports h c
  exact ⟨c, changes', heq, h'⟩

omit [DecidableEq α] in
/-- The node becomes the event snap. -/
theorem MergedNode.map {r : Option (Node κ α × Option (ChangeMap κ α))} (h : MergedNode n r)
    (v : ViewCache κ α) (b : Bool) :
    Merged n (r.map fun r => (v.updateEventSnap r.1 b, r.2)) := by
  obtain ⟨m, changes, rfl, hreports⟩ := h
  exact ⟨_, changes, rfl, hreports⟩

omit [DecidableEq α] in
theorem merged_some (h : Reports n v.cachedEventSnap.node.getImmediateChild changes) :
    Merged n (some (v, some changes)) :=
  ⟨v, changes, rfl, h⟩

omit [DecidableEq α] in
theorem Merged.bind {r : Option (Update κ α)} (h : Merged n r)
    {f : Update κ α → Option (Update κ α)}
    (hf : ∀ v changes, Reports n v.cachedEventSnap.node.getImmediateChild changes →
      Merged n (f (v, some changes))) : Merged n (r.bind f) := by
  obtain ⟨v, changes, rfl, hreports⟩ := h
  exact hf v changes hreports

omit [DecidableEq α] in
theorem Merged.foldlM {ι : Type} {f : Update κ α → ι → Option (Update κ α)}
    (hf : ∀ c v changes, Reports n v.cachedEventSnap.node.getImmediateChild changes →
      Merged n (f (v, some changes) c)) (cs : List ι)
    (h : Reports n v.cachedEventSnap.node.getImmediateChild changes) :
    Merged n (cs.foldlM f (v, some changes)) := by
  induction cs generalizing v changes with
  | nil => exact merged_some h
  | cons c cs ih =>
    rw [List.foldlM_cons]
    exact (hf c v changes h).bind fun _ _ h' => ih h'

omit [DecidableEq α] in
/-- With the server's node the event cache is known. -/
theorem exists_calculateCompleteEventCache (w : WriteTreeRef κ α) (s : Node κ α) :
    ∃ m, w.calculateCompleteEventCacheWithCompleteServerCache (some s) = some m := by
  have hget := Node.getChild_updateChild_append w.path [] s Node.empty
  rw [List.append_nil, Node.getChild_nil] at hget
  exact ⟨_, hget ▸ WriteTreeRef.calculateCompleteEventCacheWithCompleteServerCache_getChild⟩

omit [DecidableEq α] in
theorem completeServerSnap_of_complete (h : v.cachedServerSnap.isFullyInitialized = true) :
    v.completeServerSnap = some v.cachedServerSnap.node := by
  rw [ViewCache.completeServerSnap, if_pos h]

omit [DecidableEq α] in
/-- A child that is not complete is not shown. -/
theorem getImmediateChild_of_incomplete {c : CacheNode κ α} {k : κ}
    (h : ¬ c.isCompleteForChild k = true) : c.node.getImmediateChild k = .empty := by
  rw [CacheNode.isCompleteForChild, Bool.or_eq_true, not_or, Node.hasChild_iff, not_not] at h
  exact h.2

/-- What the server does to a child that is shown, it does at the place of its event. -/
theorem unmistaken_eventChildAfterServerEvent {k : κ} {p : List κ} {c : Node κ α}
    (h : v.eventChildAfterServerEvent k p w = some c) :
    Unmistaken (v.cachedEventSnap.node.getImmediateChild k) c p := by
  rw [ViewCache.eventChildAfterServerEvent] at h
  split at h
  · split at h
    · obtain rfl := Option.some.inj h
      exact unmistaken_updateChild _ _ p
    · obtain rfl := Option.some.inj h
      exact unmistaken_self _ p
  · next hincomplete =>
    exact unmistaken_of_empty (Or.inl (getImmediateChild_of_incomplete hincomplete)) p

/-- And so does the user. -/
theorem unmistaken_eventChildAfterUserOverwrite (k : κ) (p : List κ) (snap : Node κ α) :
    Unmistaken (v.cachedEventSnap.node.getImmediateChild k)
      (v.eventChildAfterUserOverwrite k p snap w) p := by
  rw [ViewCache.eventChildAfterUserOverwrite]
  split
  · next hp =>
    rw [List.isEmpty_iff] at hp
    subst hp
    exact unmistaken_nil _ snap
  · by_cases hcomplete : v.cachedEventSnap.isCompleteForChild k = true
    · rw [ViewCache.completeChild, if_pos hcomplete]
      exact unmistaken_updateChild _ _ p
    · exact unmistaken_of_empty (Or.inl (getImmediateChild_of_incomplete hcomplete)) p

theorem merged_generateEventCacheAfterServerEvent
    (h : Reports n v.cachedEventSnap.node.getImmediateChild changes) {p : List κ}
    (hcomplete : p = [] → v.cachedServerSnap.isFullyInitialized = true) :
    Merged n (v.generateEventCacheAfterServerEvent p w (some changes)) := by
  cases p with
  | nil =>
    obtain ⟨m, hm⟩ := exists_calculateCompleteEventCache w v.cachedServerSnap.node
    rw [ViewCache.generateEventCacheAfterServerEvent]
    -- shadowed, or calculated from the server's node
    split
    · exact merged_some h
    · rw [completeServerSnap_of_complete (hcomplete rfl), hm]
      exact (mergedNode_updateFullNode h m).map v _
  | cons k p =>
    rw [ViewCache.generateEventCacheAfterServerEvent]
    split
    · exact merged_some h
    · split
      · next hchild =>
        exact (mergedNode_updateChildIn h (unmistaken_eventChildAfterServerEvent hchild)).map v _
      · exact merged_some h

theorem merged_applyServerOverwriteTo
    (h : Reports n v.cachedEventSnap.node.getImmediateChild changes) (p : List κ)
    (snap : Node κ α) : Merged n (v.applyServerOverwriteTo p snap w (some changes)) := by
  cases p with
  | nil =>
    rw [ViewCache.applyServerOverwriteTo]
    exact merged_generateEventCacheAfterServerEvent (v := v.updateServerSnap snap true) h fun _ =>
      rfl
  | cons k p =>
    rw [ViewCache.applyServerOverwriteTo]
    dsimp only
    split
    · exact merged_some h
    · obtain ⟨m, hm⟩ := exists_updateChildIn_nil
        (unmistaken_updateChild (v.cachedServerSnap.node.getImmediateChild k) snap p)
      rw [hm]
      exact merged_generateEventCacheAfterServerEvent
        (v := v.updateServerSnap m v.cachedServerSnap.isFullyInitialized) h fun hp =>
          absurd hp (by simp)

theorem merged_applyServerMergeTo
    (h : Reports n v.cachedEventSnap.node.getImmediateChild changes) (p : List κ)
    (children : CompoundWrite κ α) :
    Merged n (v.applyServerMergeTo p children w (some changes)) := by
  rw [ViewCache.applyServerMergeTo]
  dsimp only
  split
  · exact merged_some h
  · have hchild : ∀ (c : κ × ImmutableTree κ (Node κ α)) (u : ViewCache κ α)
        (changes : ChangeMap κ α),
        Reports n u.cachedEventSnap.node.getImmediateChild changes →
        Merged n (u.applyServerOverwriteTo [c.1] (c.2.applySubtreeWrite []
          (v.cachedServerSnap.node.getImmediateChild c.1)) w (some changes)) :=
      fun c u changes h => merged_applyServerOverwriteTo h _ _
    exact (Merged.foldlM hchild _ h).bind fun _ _ h' => Merged.foldlM hchild _ h'

theorem merged_applyUserOverwriteTo
    (h : Reports n v.cachedEventSnap.node.getImmediateChild changes) (p : List κ)
    (snap : Node κ α) : Merged n (v.applyUserOverwriteTo p snap w (some changes)) := by
  cases p with
  | nil => exact (mergedNode_updateFullNode h snap).map v _
  | cons k p =>
    rw [ViewCache.applyUserOverwriteTo]
    split
    · exact merged_some h
    · exact (mergedNode_updateChildIn h
        (unmistaken_eventChildAfterUserOverwrite k p snap)).map v _

theorem merged_ackUserWriteOn (h : Reports n v.cachedEventSnap.node.getImmediateChild changes)
    (p : List κ) : Merged n (v.ackUserWriteOn p w (some changes)) := by
  rw [ViewCache.ackUserWriteOn]
  dsimp only
  split
  · exact merged_some h
  · split
    · exact merged_applyServerOverwriteTo h p _
    · split
      · exact merged_applyServerMergeTo h p _
      · exact merged_some h

theorem mergedNode_revertFullNode (h : Reports n v.cachedEventSnap.node.getImmediateChild changes) :
    MergedNode n (v.revertFullNode w (some changes)) := by
  rw [ViewCache.revertFullNode]
  split
  · next hcomplete =>
    obtain ⟨m, hm⟩ := exists_calculateCompleteEventCache w v.cachedServerSnap.node
    rw [completeServerSnap_of_complete hcomplete, hm]
    exact mergedNode_updateFullNode h m
  · exact mergedNode_updateFullNode h _

theorem mergedNode_revertChild (h : Reports n v.cachedEventSnap.node.getImmediateChild changes)
    {k : κ} {p : List κ} (hk : ∀ c, v.eventChildAfterRevert k w = some c →
      Unmistaken (v.cachedEventSnap.node.getImmediateChild k) c p) :
    MergedNode n (v.revertChild k p w (some changes)) := by
  rw [ViewCache.revertChild]
  split
  · next c hc => exact mergedNode_updateChildIn h (hk c hc)
  · split
    · exact mergedNode_updateChildIn h (unmistaken_of_empty (Or.inr rfl) p)
    · exact mergedNode_some h

theorem mergedNode_revertToLeaf (h : Reports n m.getImmediateChild changes) :
    MergedNode n (v.revertToLeaf w (m, some changes)) := by
  rw [ViewCache.revertToLeaf]
  dsimp only
  split
  · next hempty =>
    -- the server's node is complete here, so its event cache is known
    rw [Bool.and_eq_true] at hempty
    obtain ⟨c, hc⟩ := exists_calculateCompleteEventCache w v.cachedServerSnap.node
    rw [completeServerSnap_of_complete hempty.2, hc]
    dsimp only [Option.bind_some]
    split
    · exact mergedNode_updateFullNode h c
    · exact mergedNode_some h
  · exact mergedNode_some h

theorem merged_revertUserWriteOn (h : Reports n v.cachedEventSnap.node.getImmediateChild changes)
    {p : List κ} (hp : v.RevertsCleanly w (.ackUserWrite p true)) :
    Merged n (v.revertUserWriteOn p w (some changes)) := by
  cases p with
  | nil =>
    rw [ViewCache.revertUserWriteOn]
    split
    · exact merged_some h
    · exact (mergedNode_revertFullNode h).map v _
  | cons k p =>
    obtain ⟨m, changes', heq, h'⟩ := mergedNode_revertChild (w := w) h hp
    rw [ViewCache.revertUserWriteOn, heq]
    split
    · exact merged_some h
    · exact (mergedNode_revertToLeaf h').map v _

/-- **What is reported.** No operation raises while what a Debug build asserts is true, and the
changes that are reported are those of the children that are shown. -/
theorem merged_applyOperation (h : Reports n v.cachedEventSnap.node.getImmediateChild changes)
    {op : Operation κ α} (hop : v.RevertsCleanly w op) :
    Merged n (v.applyOperation op w (some changes)) := by
  cases op with
  | overwrite fromUser p snap =>
    cases fromUser with
    | true => exact merged_applyUserOverwriteTo h p snap
    | false => exact merged_applyServerOverwriteTo h p snap
  | merge p children => exact merged_applyServerMergeTo h p children
  | ackUserWrite p revert =>
    cases revert with
    | true => exact merged_revertUserWriteOn h hop
    | false => exact merged_ackUserWriteOn h p
  | listenComplete p =>
    have hcomplete : p = [] →
        (v.cachedServerSnap.isFullyInitialized || p.isEmpty) = true := by
      rintro rfl
      simp
    exact merged_generateEventCacheAfterServerEvent
      (v := v.updateServerSnap v.cachedServerSnap.node
        (v.cachedServerSnap.isFullyInitialized || p.isEmpty)) h hcomplete

/-- A refused write that does not revert cleanly raises, unless another write shadows it. -/
theorem raises_or_same {op : Operation κ α} (hop : ¬ v.RevertsCleanly w op) (acc : Option (ChangeMap κ α)) :
    v.applyOperation op w acc = none ∨ v.applyOperation op w acc = some (v, acc) := by
  cases op with
  | ackUserWrite p revert =>
    cases revert with
    | true =>
      cases p with
      | nil => exact absurd trivial hop
      | cons k p =>
        obtain ⟨c, hc⟩ := Classical.not_forall.mp hop
        obtain ⟨hchild, hmistaken⟩ := Classical.not_imp.mp hc
        rw [ViewCache.applyOperation, ViewCache.revertUserWriteOn]
        split
        · exact Or.inr rfl
        · rw [ViewCache.revertChild, hchild]
          dsimp only
          rw [updateChildIn_eq_none hmistaken]
          exact Or.inl rfl
    | false => exact absurd (by cases p <;> trivial) hop
  | _ => exact absurd trivial hop

/-- **Nothing else is reported.** Whatever is asserted, an operation that does not raise reports
the changes of the children that are shown. -/
theorem raises_or_merged (h : Reports n v.cachedEventSnap.node.getImmediateChild changes)
    (op : Operation κ α) : v.applyOperation op w (some changes) = none ∨
      Merged n (v.applyOperation op w (some changes)) := by
  by_cases hop : v.RevertsCleanly w op
  · exact Or.inr (merged_applyOperation h hop)
  · rcases raises_or_same hop (some changes) with hnone | hsame
    · exact Or.inl hnone
    · exact Or.inr (hsame ▸ merged_some h)

end Merging

end FirebaseDatabase
