/-
What the view processor makes of the event cache, when nothing is in the way: the one that
would be calculated anew.

Each operation changes the event cache at the place it is about and nowhere else. When what
is to be shown differs from what is shown at that place only (`SameBut`), the operation
leaves what is to be shown. The lemmas here say that of each operation, and what it leaves
of the server's cache.
-/
import DailyDiary.FirebaseDatabase.ViewProcessor
import DailyDiary.FirebaseDatabase.Places

set_option autoImplicit false

namespace FirebaseDatabase

variable {κ α : Type} [LinearOrder κ] [DecidableEq α]

namespace ViewCache

variable {v v' : ViewCache κ α} {w : WriteTreeRef κ α} {n : Node κ α} {p : List κ}
  {acc acc' : Option (ChangeMap κ α)}

/-! ## Events of the server -/

theorem generateEventCacheAfterServerEvent_shadowed
    (h : (w.shadowingWriteAtPath p).isSome = true) :
    v.generateEventCacheAfterServerEvent p w acc = some (v, acc) := by
  cases p with
  | nil => rw [generateEventCacheAfterServerEvent, if_pos h]
  | cons k p => rw [generateEventCacheAfterServerEvent, if_pos h]

/-- The event cache is computed anew in every branch, the server cache is in none of them
touched. -/
theorem generateEventCacheAfterServerEvent_server
    (h : v.generateEventCacheAfterServerEvent p w acc = some (v', acc')) :
    v'.cachedServerSnap = v.cachedServerSnap := by
  cases p with
  | nil =>
    rw [generateEventCacheAfterServerEvent] at h
    split at h
    · obtain ⟨rfl, -⟩ := Prod.mk.inj (Option.some.inj h)
      rfl
    · obtain ⟨m, -, h⟩ := Option.bind_eq_some_iff.mp h
      obtain ⟨r, -, heq⟩ := Option.map_eq_some_iff.mp h
      obtain ⟨rfl, -⟩ := Prod.mk.inj heq
      rfl
  | cons k p =>
    rw [generateEventCacheAfterServerEvent] at h
    split at h
    · obtain ⟨rfl, -⟩ := Prod.mk.inj (Option.some.inj h)
      rfl
    · split at h
      · obtain ⟨r, -, heq⟩ := Option.map_eq_some_iff.mp h
        obtain ⟨rfl, -⟩ := Prod.mk.inj heq
        rfl
      · obtain ⟨rfl, -⟩ := Prod.mk.inj (Option.some.inj h)
        rfl

omit [DecidableEq α] in
/-- Below the place of the view the child is updated with what is to be shown there. -/
theorem eventChildAfterServerEvent_eq {k : κ} (hserver : v.cachedServerSnap.node = n.getChild w.path)
    (hevent : v.cachedEventSnap.isFullyInitialized = true)
    (hshadow : ¬ (w.shadowingWriteAtPath (k :: p)).isSome = true) :
    v.eventChildAfterServerEvent k p w =
      some ((v.cachedEventSnap.node.getImmediateChild k).updateChild p
        ((w.shown n).getChild (k :: p))) := by
  have hget := w.writeTree.calculateEventCacheAfterServerOverwriteAtPath_getChild w.path (k :: p) n
  rw [eventChildAfterServerEvent]
  rw [if_pos (CacheNode.isCompleteForChild_of_complete hevent k), hserver,
    WriteTreeRef.calculateEventCacheAfterServerOverwriteWithChildPath]
  cases hcalc : w.writeTree.calculateEventCacheAfterServerOverwriteAtPath w.path (k :: p)
    (n.getChild w.path) with
  | some c =>
    rw [hcalc] at hget
    obtain rfl : c = _ := hget
    rw [WriteTreeRef.shown, ← Node.getChild_append]
  | none =>
    -- the update is left out below a write that covers it only
    rw [WriteTree.calculateEventCacheAfterServerOverwriteAtPath] at hcalc
    have hno : w.writeTree.visibleWrites.hasCompleteWriteAtPath (w.path ++ k :: p) = false := by
      rw [← Bool.not_eq_true]
      exact hshadow
    simp only [hno] at hcalc
    split at hcalc
    · next hfalse => cases hfalse
    · split at hcalc <;> cases hcalc

/-- After news of the server the event cache is what the pending writes show over the new
data. Where a write hides the path the cache is kept, and was right already. -/
theorem generateEventCacheAfterServerEvent_eq
    (hserver : v.cachedServerSnap.node = n.getChild w.path)
    (hcomplete : p = [] → v.cachedServerSnap.isFullyInitialized = true)
    (hevent : p ≠ [] → v.cachedEventSnap.isFullyInitialized = true)
    (hsame : Node.SameBut p v.cachedEventSnap.node (w.shown n))
    (hshadow : (w.shadowingWriteAtPath p).isSome = true → v.cachedEventSnap = ⟨w.shown n, true⟩)
    (h : v.generateEventCacheAfterServerEvent p w acc = some (v', acc')) :
    v' = ⟨⟨w.shown n, true⟩, v.cachedServerSnap⟩ := by
  by_cases hs : (w.shadowingWriteAtPath p).isSome = true
  · rw [generateEventCacheAfterServerEvent_shadowed hs] at h
    obtain ⟨rfl, -⟩ := Prod.mk.inj (Option.some.inj h)
    rw [← hshadow hs]
  · cases p with
    | nil =>
      rw [generateEventCacheAfterServerEvent, if_neg hs,
        completeServerSnap_of_complete (hcomplete rfl), hserver,
        WriteTreeRef.calculateCompleteEventCacheWithCompleteServerCache_getChild,
        Option.bind_some] at h
      obtain ⟨⟨m, acc₁⟩, hupdate, heq⟩ := Option.map_eq_some_iff.mp h
      obtain ⟨rfl, -⟩ := Prod.mk.inj heq
      obtain rfl := updateFullNode_eq_some hupdate
      rfl
    | cons k p =>
      rw [generateEventCacheAfterServerEvent, if_neg hs,
        eventChildAfterServerEvent_eq hserver (hevent (by simp)) hs] at h
      obtain ⟨⟨m, acc₁⟩, hupdate, heq⟩ := Option.map_eq_some_iff.mp h
      obtain ⟨rfl, -⟩ := Prod.mk.inj heq
      -- only the child is calculated, and the rest is right already
      rw [← hsame, ← updateChildIn_updateChild hupdate]
      rw [hevent (by simp)]
      rfl

/-- What a server overwrite leaves of the server's cache. -/
theorem applyServerOverwriteTo_server {snap : Node κ α}
    (h : v.applyServerOverwriteTo p snap w acc = some (v', acc')) :
    v'.cachedServerSnap = v.cachedServerSnap ∧ p ≠ [] ∧
        v.cachedServerSnap.isFullyInitialized = false ∨
      v'.cachedServerSnap = ⟨v.cachedServerSnap.node.updateChild p snap,
        v.cachedServerSnap.isFullyInitialized || p.isEmpty⟩ := by
  cases p with
  | nil =>
    rw [applyServerOverwriteTo] at h
    rw [generateEventCacheAfterServerEvent_server (v := v.updateServerSnap snap true) h]
    simp
  | cons k p =>
    rw [applyServerOverwriteTo] at h
    dsimp only at h
    split at h
    · next hskip =>
      -- an update for another listener, below a node that is not complete
      obtain ⟨rfl, -⟩ := Prod.mk.inj (Option.some.inj h)
      refine Or.inl ⟨rfl, by simp, ?_⟩
      rw [Bool.and_eq_true, Bool.not_eq_true'] at hskip
      by_contra hinit
      rw [Bool.not_eq_false] at hinit
      rw [CacheNode.isCompleteForPath_of_complete hinit] at hskip
      cases hskip.1
    · obtain ⟨⟨m, acc₁⟩, hupdate, h⟩ := Option.bind_eq_some_iff.mp h
      rw [generateEventCacheAfterServerEvent_server h, updateChildIn_updateChild hupdate]
      simp

/-- Under a pending write that hides the whole path, news of the server stays out of sight:
only the server cache learns of it. -/
theorem applyServerOverwriteTo_shadowed {snap : Node κ α}
    (hshadow : (w.shadowingWriteAtPath p).isSome = true)
    (h : v.applyServerOverwriteTo p snap w acc = some (v', acc')) :
    v'.cachedEventSnap = v.cachedEventSnap := by
  cases p with
  | nil =>
    rw [applyServerOverwriteTo] at h
    have hgen : (v.updateServerSnap snap true).generateEventCacheAfterServerEvent [] w acc =
        some (v', acc') := h
    rw [generateEventCacheAfterServerEvent_shadowed hshadow] at hgen
    obtain ⟨rfl, -⟩ := Prod.mk.inj (Option.some.inj hgen)
    rfl
  | cons k p =>
    rw [applyServerOverwriteTo] at h
    dsimp only at h
    split at h
    · obtain ⟨rfl, -⟩ := Prod.mk.inj (Option.some.inj h)
      rfl
    · obtain ⟨r, -, h⟩ := Option.bind_eq_some_iff.mp h
      rw [generateEventCacheAfterServerEvent_shadowed hshadow] at h
      obtain ⟨rfl, -⟩ := Prod.mk.inj (Option.some.inj h)
      rfl

/-- An overwrite of the server puts both caches right: the server cache takes the data at
its path, and the event cache shows it under the pending writes. -/
theorem applyServerOverwriteTo_eq {snap : Node κ α}
    (hserver : v.cachedServerSnap.node.updateChild p snap = n.getChild w.path)
    (hcomplete : p ≠ [] → v.cachedServerSnap.isFullyInitialized = true)
    (hevent : p ≠ [] → v.cachedEventSnap.isFullyInitialized = true)
    (hsame : Node.SameBut p v.cachedEventSnap.node (w.shown n))
    (hshadow : (w.shadowingWriteAtPath p).isSome = true → v.cachedEventSnap = ⟨w.shown n, true⟩)
    (h : v.applyServerOverwriteTo p snap w acc = some (v', acc')) :
    v' = ⟨⟨w.shown n, true⟩, ⟨n.getChild w.path, true⟩⟩ := by
  cases p with
  | nil =>
    rw [applyServerOverwriteTo] at h
    have hgen := generateEventCacheAfterServerEvent_eq (v := v.updateServerSnap snap true)
      (n := n) hserver (fun _ => rfl) hevent hsame hshadow h
    rw [hgen, ← hserver]
    rfl
  | cons k p =>
    rw [applyServerOverwriteTo] at h
    dsimp only at h
    have hinit := hcomplete (by simp)
    rw [CacheNode.isCompleteForPath_of_complete hinit, Bool.not_true, Bool.false_and,
      if_neg Bool.false_ne_true] at h
    obtain ⟨⟨m, acc₁⟩, hupdate, h⟩ := Option.bind_eq_some_iff.mp h
    have hm := updateChildIn_updateChild hupdate
    have hgen := generateEventCacheAfterServerEvent_eq
      (v := v.updateServerSnap m v.cachedServerSnap.isFullyInitialized) (n := n)
      (hm.trans hserver) (fun hp => absurd hp (by simp)) hevent hsame hshadow h
    rw [hgen, ← hserver, ← hm, hinit]
    rfl

theorem listenCompleteOldCache_eq (hserver : v.cachedServerSnap.node = n.getChild w.path)
    (hcomplete : p ≠ [] → v.cachedServerSnap.isFullyInitialized = true)
    (hevent : p ≠ [] → v.cachedEventSnap.isFullyInitialized = true)
    (hsame : Node.SameBut p v.cachedEventSnap.node (w.shown n))
    (hshadow : (w.shadowingWriteAtPath p).isSome = true → v.cachedEventSnap = ⟨w.shown n, true⟩)
    (h : v.listenCompleteOldCache p w acc = some (v', acc')) :
    v' = ⟨⟨w.shown n, true⟩, ⟨n.getChild w.path, true⟩⟩ := by
  have hinit : (v.cachedServerSnap.isFullyInitialized || p.isEmpty) = true := by
    cases p with
    | nil => simp
    | cons k p => rw [hcomplete (by simp), Bool.true_or]
  rw [listenCompleteOldCache] at h
  rw [hinit] at h
  rw [generateEventCacheAfterServerEvent_eq (v := v.updateServerSnap _ true) (n := n) hserver
    (fun _ => rfl) hevent hsame hshadow h, ← hserver]
  rfl

/-! ## Events of the user -/

theorem applyUserOverwriteTo_server {snap : Node κ α}
    (h : v.applyUserOverwriteTo p snap w acc = some (v', acc')) :
    v'.cachedServerSnap = v.cachedServerSnap := by
  cases p with
  | nil =>
    obtain ⟨r, -, heq⟩ := Option.map_eq_some_iff.mp h
    obtain ⟨rfl, -⟩ := Prod.mk.inj heq
    rfl
  | cons k p =>
    rw [applyUserOverwriteTo] at h
    split at h
    · obtain ⟨rfl, -⟩ := Prod.mk.inj (Option.some.inj h)
      rfl
    · obtain ⟨r, -, heq⟩ := Option.map_eq_some_iff.mp h
      obtain ⟨rfl, -⟩ := Prod.mk.inj heq
      rfl

omit [DecidableEq α] in
theorem eventChildAfterUserOverwrite_eq (hevent : v.cachedEventSnap.isFullyInitialized = true)
    (k : κ) (p : List κ) (snap : Node κ α) : v.eventChildAfterUserOverwrite k p snap w =
      (v.cachedEventSnap.node.getImmediateChild k).updateChild p snap := by
  rw [eventChildAfterUserOverwrite, completeChild]
  dsimp only
  rw [if_pos (CacheNode.isCompleteForChild_of_complete hevent k)]
  cases p with
  | nil => rfl
  | cons j p => rfl

/-- A write of the user is made in the event cache. -/
theorem applyUserOverwriteTo_eq {snap : Node κ α}
    (hevent : p ≠ [] → v.cachedEventSnap.isFullyInitialized = true)
    (h : v.applyUserOverwriteTo p snap w acc = some (v', acc')) :
    v'.cachedEventSnap = ⟨v.cachedEventSnap.node.updateChild p snap, true⟩ := by
  cases p with
  | nil =>
    obtain ⟨⟨m, acc₁⟩, hupdate, heq⟩ := Option.map_eq_some_iff.mp h
    obtain ⟨rfl, -⟩ := Prod.mk.inj heq
    obtain rfl := updateFullNode_eq_some hupdate
    rfl
  | cons k p =>
    have hinit := hevent (by simp)
    rw [applyUserOverwriteTo] at h
    rw [eventChildAfterUserOverwrite_eq hinit] at h
    split at h
    · next hequal =>
      -- the child is equal already, and nothing is done
      obtain ⟨rfl, -⟩ := Prod.mk.inj (Option.some.inj h)
      rw [Node.updateChild_cons, ← Node.isEqual_iff.mp hequal,
        Node.updateImmediateChild_getImmediateChild, ← hinit]
    · obtain ⟨⟨m, acc₁⟩, hupdate, heq⟩ := Option.map_eq_some_iff.mp h
      obtain ⟨rfl, -⟩ := Prod.mk.inj heq
      rw [← updateChildIn_updateChild hupdate, ← hinit]
      rfl

/-! ## Answers to writes -/

theorem ackUserWriteOn_shadowed (h : (w.shadowingWriteAtPath p).isSome = true) :
    v.ackUserWriteOn p w acc = some (v, acc) := by
  rw [ackUserWriteOn, if_pos h]

theorem ackUserWriteOn_eq (hserver : v.cachedServerSnap.node = n.getChild w.path)
    (hcomplete : v.cachedServerSnap.isFullyInitialized = true)
    (hevent : v.cachedEventSnap.isFullyInitialized = true)
    (hsame : Node.SameBut p v.cachedEventSnap.node (w.shown n))
    (hshadow : ¬ (w.shadowingWriteAtPath p).isSome = true)
    (h : v.ackUserWriteOn p w acc = some (v', acc')) :
    v' = ⟨⟨w.shown n, true⟩, ⟨n.getChild w.path, true⟩⟩ := by
  rw [ackUserWriteOn, if_neg hshadow] at h
  dsimp only at h
  rw [CacheNode.isCompleteForPath_of_complete hcomplete, Bool.or_true, if_pos rfl] at h
  refine applyServerOverwriteTo_eq ?_ (fun _ => hcomplete) (fun _ => hevent) hsame
    (fun hs => absurd hs hshadow) h
  rw [Node.updateChild_getChild, hserver]

omit [DecidableEq α] in
/-- A merge of some of the children a node has. -/
theorem applyToNode_foldl_addWrite (hleaf : n.leafValue = none) (names : List κ) :
    (names.foldl (fun changedChildren name =>
        changedChildren.addWrite (n.getImmediateChild name) [name])
          CompoundWrite.emptyWrite).writeTree.value = none ∧
      (names.foldl (fun changedChildren name =>
        changedChildren.addWrite (n.getImmediateChild name) [name])
          CompoundWrite.emptyWrite).applyToNode n = n := by
  induction names using List.reverseRecOn with
  | nil => exact ⟨rfl, rfl⟩
  | append_singleton names k ih =>
    obtain ⟨hvalue, happly⟩ := ih
    rw [List.foldl_append]
    constructor
    · exact (congrArg ImmutableTree.value
        ((CompoundWrite.isWrite _).addWrite_cons hvalue _ k [])).trans hvalue
    · have hpass : n.Passes [k] := ⟨hleaf, trivial⟩
      rw [List.foldl_cons, List.foldl_nil, CompoundWrite.applyToNode_addWrite hpass, happly,
        Node.updateChild_cons, Node.updateChild_nil, Node.updateImmediateChild_getImmediateChild]

omit [DecidableEq α] in
theorem childNames_of_leaf (h : n.leafValue ≠ none) : n.childNames = [] := by
  rw [List.eq_nil_iff_forall_not_mem]
  intro k hk
  exact Node.hasChild_iff.mp (Node.mem_childNames.mp hk) (Node.getImmediateChild_of_leaf h k)

omit [DecidableEq α] in
/-- Each child of such a merge is the child of the node. -/
theorem applySubtreeWrite_of_mem_foldl {c : κ × ImmutableTree κ (Node κ α)}
    (hc : c ∈ (n.childNames.foldl (fun changedChildren name =>
      changedChildren.addWrite (n.getImmediateChild name) [name])
        CompoundWrite.emptyWrite).writeTree.children) :
    c.2.applySubtreeWrite [] (n.getImmediateChild c.1) = n.getImmediateChild c.1 := by
  by_cases hleaf : n.leafValue = none
  · obtain ⟨hvalue, happly⟩ := applyToNode_foldl_addWrite hleaf n.childNames
    generalize n.childNames.foldl (fun changedChildren name =>
      changedChildren.addWrite (n.getImmediateChild name) [name])
        CompoundWrite.emptyWrite = merge at hc hvalue happly
    have hget := merge.isWrite.getImmediateChild_applySubtreeWrite hvalue c.1 n
    have hchild : merge.writeTree.child c.1 = c.2 := by
      obtain ⟨t, ht⟩ := merge
      cases ht with
      | value m => cases hvalue
      | children hsorted hne hcs =>
        exact congrArg (fun t => Option.getD t ImmutableTree.empty) (hsorted.mem_iff.mp hc)
    rw [hchild] at hget
    rw [← hget]
    exact congrArg (fun m : Node κ α => m.getImmediateChild c.1) happly
  · rw [childNames_of_leaf hleaf] at hc
    cases hc

omit [DecidableEq α] in
/-- What every step of a fold keeps, the fold keeps. -/
theorem foldlM_invariant {ι : Type} {f : Update κ α → ι → Option (Update κ α)}
    {Q : ViewCache κ α → Prop} {cs : List ι}
    (hf : ∀ i ∈ cs, ∀ u u', f u i = some u' → Q u.1 → Q u'.1) {u u' : Update κ α}
    (h : cs.foldlM f u = some u') (hu : Q u.1) : Q u'.1 := by
  induction cs generalizing u with
  | nil =>
    obtain rfl := Option.some.inj h
    exact hu
  | cons i cs ih =>
    rw [List.foldlM_cons] at h
    obtain ⟨u₁, h₁, h⟩ := Option.bind_eq_some_iff.mp h
    exact ih (fun j hj => hf j (List.mem_cons_of_mem i hj)) h
      (hf i List.mem_cons_self u u₁ h₁ hu)

/-- The children of the server's node, put in once more, leave the server's cache. -/
theorem applyServerMergeTo_children_server
    (h : v.applyServerMergeTo [] (v.cachedServerSnap.node.childNames.foldl
      (fun changedChildren name => changedChildren.addWrite
        (v.cachedServerSnap.node.getImmediateChild name) [name]) CompoundWrite.emptyWrite) w acc =
          some (v', acc')) : v'.cachedServerSnap = v.cachedServerSnap := by
  rw [applyServerMergeTo] at h
  dsimp only at h
  split at h
  · obtain ⟨rfl, -⟩ := Prod.mk.inj (Option.some.inj h)
    rfl
  · obtain ⟨u, h₁, h₂⟩ := Option.bind_eq_some_iff.mp h
    have hstep : ∀ c ∈ (v.cachedServerSnap.node.childNames.foldl
        (fun changedChildren name => changedChildren.addWrite
          (v.cachedServerSnap.node.getImmediateChild name) [name])
            CompoundWrite.emptyWrite).writeTree.children,
        ∀ u u' : Update κ α, u.1.applyServerOverwriteTo [c.1] (c.2.applySubtreeWrite []
          (v.cachedServerSnap.node.getImmediateChild c.1)) w u.2 = some u' →
        u.1.cachedServerSnap = v.cachedServerSnap →
        u'.1.cachedServerSnap = v.cachedServerSnap := by
      rintro c hc u ⟨v₁, acc₁⟩ hu hserver
      rw [applySubtreeWrite_of_mem_foldl hc] at hu
      rcases applyServerOverwriteTo_server hu with ⟨hsame, -⟩ | hsame
      · rw [hsame, hserver]
      · rw [hsame, hserver, Node.updateChild_cons, Node.updateChild_nil,
          Node.updateImmediateChild_getImmediateChild]
        simp
    have hfold : ∀ (keep : κ × ImmutableTree κ (Node κ α) → Bool) (u u' : Update κ α),
        ((v.cachedServerSnap.node.childNames.foldl (fun changedChildren name =>
          changedChildren.addWrite (v.cachedServerSnap.node.getImmediateChild name) [name])
            CompoundWrite.emptyWrite).writeTree.children.filter keep).foldlM
          (fun u c => u.1.applyServerOverwriteTo [c.1] (c.2.applySubtreeWrite []
            (v.cachedServerSnap.node.getImmediateChild c.1)) w u.2) u = some u' →
        u.1.cachedServerSnap = v.cachedServerSnap →
        u'.1.cachedServerSnap = v.cachedServerSnap := fun keep u u' h hu =>
      foldlM_invariant (Q := fun u => u.cachedServerSnap = v.cachedServerSnap)
        (fun c hc => hstep c (List.mem_of_mem_filter hc)) h hu
    exact hfold _ _ _ h₂ (hfold _ _ _ h₁ rfl)

/-- An answer leaves the server's cache. -/
theorem ackUserWriteOn_server (h : v.ackUserWriteOn p w acc = some (v', acc')) :
    v'.cachedServerSnap = v.cachedServerSnap := by
  rw [ackUserWriteOn] at h
  dsimp only at h
  split at h
  · obtain ⟨rfl, -⟩ := Prod.mk.inj (Option.some.inj h)
    rfl
  · split at h
    · next hcomplete =>
      rcases applyServerOverwriteTo_server h with ⟨hsame, -⟩ | hsame
      · exact hsame
      · rw [hsame, Node.updateChild_getChild]
        cases p with
        | nil =>
          have hinit : v.cachedServerSnap.isFullyInitialized = true := by
            simpa [CacheNode.isCompleteForPath] using hcomplete
          rw [hinit, Bool.true_or, ← hinit]
        | cons k p => simp
    · split at h
      · next hnil =>
        rw [List.isEmpty_iff] at hnil
        subst hnil
        exact applyServerMergeTo_children_server h
      · obtain ⟨rfl, -⟩ := Prod.mk.inj (Option.some.inj h)
        rfl

theorem revertUserWriteOn_shadowed (h : (w.shadowingWriteAtPath p).isSome = true) :
    v.revertUserWriteOn p w acc = some (v, acc) := by
  cases p with
  | nil => rw [revertUserWriteOn, if_pos h]
  | cons k p => rw [revertUserWriteOn, if_pos h]

/-- A revert never touches the server cache, which holds what the server said and nothing of
the user's own writes. -/
theorem revertUserWriteOn_server (h : v.revertUserWriteOn p w acc = some (v', acc')) :
    v'.cachedServerSnap = v.cachedServerSnap := by
  have hmap : ∀ (r : Option (Node κ α × Option (ChangeMap κ α))) (b : Bool),
      (r.map fun r => (v.updateEventSnap r.1 b, r.2)) = some (v', acc') →
        v'.cachedServerSnap = v.cachedServerSnap := by
    intro r b hr
    obtain ⟨c, -, heq⟩ := Option.map_eq_some_iff.mp hr
    obtain ⟨rfl, -⟩ := Prod.mk.inj heq
    rfl
  cases p with
  | nil =>
    rw [revertUserWriteOn] at h
    split at h
    · obtain ⟨rfl, -⟩ := Prod.mk.inj (Option.some.inj h)
      rfl
    · exact hmap _ _ h
  | cons k p =>
    rw [revertUserWriteOn] at h
    split at h
    · obtain ⟨rfl, -⟩ := Prod.mk.inj (Option.some.inj h)
      rfl
    · exact hmap _ _ h

omit [DecidableEq α] in
/-- The child that is calculated anew is the one to be shown, and it differs from the old one at
the path only. -/
theorem eventChildAfterRevert_eq {k : κ} (hserver : v.cachedServerSnap.node = n.getChild w.path)
    (hcomplete : v.cachedServerSnap.isFullyInitialized = true)
    (hsame : Node.SameBut (k :: p) v.cachedEventSnap.node (w.shown n)) :
    v.eventChildAfterRevert k w = some ((v.cachedEventSnap.node.getImmediateChild k).updateChild p
      ((w.shown n).getChild (k :: p))) := by
  have hchild : w.calculateCompleteChild k v.cachedServerSnap =
      some ((w.shown n).getImmediateChild k) :=
    WriteTreeRef.calculateCompleteChild_eq (CacheNode.isCompleteForChild_of_complete hcomplete k)
      (by rw [hserver])
  have hbelow : (w.shown n).getImmediateChild k =
      (v.cachedEventSnap.node.getImmediateChild k).updateChild p
        ((w.shown n).getChild (k :: p)) := by
    have hsame' := hsame
    rw [Node.SameBut, Node.updateChild_cons] at hsame'
    rw [← Node.getImmediateChild_updateImmediateChild_self k
      ((v.cachedEventSnap.node.getImmediateChild k).updateChild p ((w.shown n).getChild (k :: p)))
        v.cachedEventSnap.node, hsame']
  rw [eventChildAfterRevert, hchild, hbelow]

/-- When what is shown is wrong at the place of a refused write at most, what is asserted of its
child is true. -/
theorem revertsCleanly_of_sameBut (hserver : v.cachedServerSnap.node = n.getChild w.path)
    (hcomplete : v.cachedServerSnap.isFullyInitialized = true)
    (hsame : Node.SameBut p v.cachedEventSnap.node (w.shown n)) :
    v.RevertsCleanly w (.ackUserWrite p true) := by
  cases p with
  | nil => trivial
  | cons k p =>
    intro c hc
    rw [eventChildAfterRevert_eq hserver hcomplete hsame] at hc
    obtain rfl := Option.some.inj hc
    exact unmistaken_updateChild _ _ p

theorem revertChild_eq {k : κ} {m : Node κ α}
    (hserver : v.cachedServerSnap.node = n.getChild w.path)
    (hcomplete : v.cachedServerSnap.isFullyInitialized = true)
    (hsame : Node.SameBut (k :: p) v.cachedEventSnap.node (w.shown n))
    (h : v.revertChild k p w acc = some (m, acc')) : m = w.shown n := by
  rw [revertChild, eventChildAfterRevert_eq hserver hcomplete hsame] at h
  rw [updateChildIn_updateChild h]
  exact hsame

/-- Reverting makes the event cache what the pending writes show over the server's data.
Outside the path it was that before, at the path it is computed anew. -/
theorem revertUserWriteOn_eq (hserver : v.cachedServerSnap.node = n.getChild w.path)
    (hcomplete : v.cachedServerSnap.isFullyInitialized = true)
    (hsame : Node.SameBut p v.cachedEventSnap.node (w.shown n))
    (hshadow : ¬ (w.shadowingWriteAtPath p).isSome = true)
    (h : v.revertUserWriteOn p w acc = some (v', acc')) :
    v' = ⟨⟨w.shown n, true⟩, v.cachedServerSnap⟩ := by
  have hcalc : w.calculateCompleteEventCacheWithCompleteServerCache v.completeServerSnap =
      some (w.shown n) := by
    rw [completeServerSnap_of_complete hcomplete, hserver,
      WriteTreeRef.calculateCompleteEventCacheWithCompleteServerCache_getChild]
  cases p with
  | nil =>
    rw [revertUserWriteOn, if_neg hshadow] at h
    obtain ⟨⟨m, acc₁⟩, hrevert, heq⟩ := Option.map_eq_some_iff.mp h
    rw [revertFullNode] at hrevert
    rw [if_pos hcomplete, hcalc, Option.bind_some] at hrevert
    obtain ⟨rfl, -⟩ := Prod.mk.inj heq
    rw [updateFullNode_eq_some hrevert, hcomplete]
    rfl
  | cons k p =>
    rw [revertUserWriteOn, if_neg hshadow] at h
    obtain ⟨⟨m, acc₁⟩, hrevert, heq⟩ := Option.map_eq_some_iff.mp h
    obtain ⟨⟨m₀, acc₀⟩, hchild, hleaf⟩ := Option.bind_eq_some_iff.mp hrevert
    obtain rfl := revertChild_eq hserver hcomplete hsame hchild
    have hm : m = w.shown n := by
      rw [revertToLeaf] at hleaf
      split at hleaf
      · rw [hcalc, Option.bind_some] at hleaf
        split at hleaf
        · exact updateFullNode_eq_some hleaf
        · exact (Prod.mk.inj (Option.some.inj hleaf)).1.symm
      · exact (Prod.mk.inj (Option.some.inj hleaf)).1.symm
    obtain ⟨rfl, -⟩ := Prod.mk.inj heq
    rw [hm, hcomplete]
    rfl

/-! ## The server's node stays complete -/

theorem applyServerOverwriteTo_complete {snap : Node κ α}
    (hcomplete : v.cachedServerSnap.isFullyInitialized = true)
    (h : v.applyServerOverwriteTo p snap w acc = some (v', acc')) :
    v'.cachedServerSnap.isFullyInitialized = true := by
  rcases applyServerOverwriteTo_server h with ⟨hsame, -⟩ | hsame
  · rw [hsame, hcomplete]
  · rw [hsame, hcomplete, Bool.true_or]

/-- A merge leaves a complete server cache complete. Each of its children is an overwrite
below the view, and none of them loads less than was loaded. -/
theorem applyServerMergeTo_complete {children : CompoundWrite κ α}
    (hcomplete : v.cachedServerSnap.isFullyInitialized = true)
    (h : v.applyServerMergeTo p children w acc = some (v', acc')) :
    v'.cachedServerSnap.isFullyInitialized = true := by
  rw [applyServerMergeTo] at h
  dsimp only at h
  split at h
  · obtain ⟨rfl, -⟩ := Prod.mk.inj (Option.some.inj h)
    exact hcomplete
  · obtain ⟨u, h₁, h₂⟩ := Option.bind_eq_some_iff.mp h
    have hstep : ∀ (c : κ × ImmutableTree κ (Node κ α)) (u u' : Update κ α),
        u.1.applyServerOverwriteTo [c.1] (c.2.applySubtreeWrite []
          (v.cachedServerSnap.node.getImmediateChild c.1)) w u.2 = some u' →
        u.1.cachedServerSnap.isFullyInitialized = true →
        u'.1.cachedServerSnap.isFullyInitialized = true :=
      fun c u u' hu hinit => applyServerOverwriteTo_complete hinit hu
    have hu := foldlM_invariant (Q := fun u => u.cachedServerSnap.isFullyInitialized = true)
      (fun c _ => hstep c) h₁ hcomplete
    exact foldlM_invariant (Q := fun u => u.cachedServerSnap.isFullyInitialized = true)
      (fun c _ => hstep c) h₂ hu

/-- **No operation takes it back**: a server node that is complete stays so. -/
theorem applyOperation_complete {op : Operation κ α}
    (hcomplete : v.cachedServerSnap.isFullyInitialized = true)
    (h : v.applyOperation op w acc = some (v', acc')) :
    v'.cachedServerSnap.isFullyInitialized = true := by
  cases op with
  | overwrite fromUser p snap =>
    cases fromUser with
    | true => rw [applyUserOverwriteTo_server h, hcomplete]
    | false => exact applyServerOverwriteTo_complete hcomplete h
  | merge p children => exact applyServerMergeTo_complete hcomplete h
  | ackUserWrite p revert =>
    cases revert with
    | true => rw [revertUserWriteOn_server h, hcomplete]
    | false => rw [ackUserWriteOn_server h, hcomplete]
  | listenComplete p =>
    have hserver := generateEventCacheAfterServerEvent_server h
    rw [hserver, cachedServerSnap_updateServerSnap, hcomplete, Bool.true_or]

end ViewCache

end FirebaseDatabase
