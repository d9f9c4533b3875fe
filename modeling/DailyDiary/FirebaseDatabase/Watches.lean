/-
A view that is kept beside a client's writes and a tree of the server.

The server's node of the view is what the server has sent last of its tree for the place, so
`Correct` says of the event cache what that tree is with the pending writes made in turn
(`Watches.eventNode_eq`). It is kept by the three things that come to such a client: a write
(`Watches.set`), an answer (`Watches.ackWrite`) and a new tree (`Watches.serverOverwrite`).
-/
import DailyDiary.FirebaseDatabase.ViewRuns
import DailyDiary.FirebaseDatabase.ChildAdded

set_option autoImplicit false

namespace FirebaseDatabase

variable {κ α : Type} [LinearOrder κ]

/-- When no older write is on its way the answer is to the foremost one. -/
theorem Repo.Ordered.foremost {es : List (RepoEvent κ α)} {r : Repo κ α} (h : Repo.Ordered es r)
    {before after : List (WriteRecord κ α)} {w : WriteRecord κ α}
    (hall : r.pendingWriteTree.allWrites = before ++ w :: after) (hapart : Apart before w) :
    r.Foremost w.writeId := by
  intro before' w' after' hall' hid
  obtain ⟨rfl, rfl⟩ := h.split_unique hall hall' hid
  exact hapart

variable [DecidableEq α] {Inner : List κ → Prop} {P path : List κ} {s s' : SyncTree κ α}
  {n m : Node κ α}

/-! ## What a step leaves -/

theorem server_of_set {node : Node κ α} (hs : SyncTree.step P s (.set path node) = some s') :
    s.repo.set path node = some s'.repo ∧
      s'.viewCache.cachedServerSnap = s.viewCache.cachedServerSnap := by
  obtain ⟨repo, hset, happly⟩ := Option.bind_eq_some_iff.mp hs
  obtain ⟨hrepo, hreach⟩ := reaches_of_applied happly (Operation.atPlace_overwrite true node)
  refine ⟨by rw [hset, hrepo], ?_⟩
  cases hreach with
  | above q acc hP hview =>
    have hview' : s.viewCache.applyUserOverwriteTo [] (node.getChild q)
        ⟨P, repo.pendingWriteTree⟩ (some []) = some (s'.viewCache, acc) := hview
    exact ViewCache.applyUserOverwriteTo_server hview'
  | below q acc hq hpath hview =>
    have hview' : s.viewCache.applyUserOverwriteTo q node ⟨P, repo.pendingWriteTree⟩ (some []) =
        some (s'.viewCache, acc) := hview
    exact ViewCache.applyUserOverwriteTo_server hview'
  | elsewhere hpath hP heq => rw [heq]

/-- An answer is the client's own affair: it takes the write from the write tree, and what
the view knows of the server does not change. -/
theorem server_of_ackWrite {writeId : ℤ} {revert : Bool}
    (hs : SyncTree.step P s (.ackWrite writeId revert) = some s') :
    s.repo.ackWrite writeId = some s'.repo ∧
      s'.viewCache.cachedServerSnap = s.viewCache.cachedServerSnap := by
  rw [SyncTree.step, SyncTree.ackUserWriteWithWriteId] at hs
  split at hs
  · cases hs
  · obtain ⟨r, hremove, hs⟩ := Option.bind_eq_some_iff.mp hs
    have hack : s.repo.ackWrite writeId = some { s.repo with pendingWriteTree := r.2 } := by
      rw [Repo.ackWrite, hremove]
      rfl
    dsimp only at hs
    split at hs
    · obtain ⟨hrepo, hreach⟩ := reaches_of_applied hs (Operation.atPlace_ackUserWrite revert)
      refine ⟨by rw [hack, hrepo], ?_⟩
      cases hreach with
      | above q acc hP hview => exact applyOperation_ackUserWrite_server hview
      | below q acc hq hpath hview => exact applyOperation_ackUserWrite_server hview
      | elsewhere hpath hP heq => rw [heq]
    · -- the view is not asked
      obtain rfl := Option.some.inj hs
      exact ⟨hack, rfl⟩

/-- What the server sends for the place itself. -/
theorem server_of_serverOverwrite
    (hs : SyncTree.step P s (.serverOverwrite P m) = some s') :
    s'.repo = s.repo ∧ s'.viewCache.cachedServerSnap = ⟨m, true⟩ := by
  have happly : s.applyOperationToSyncPoints P (.overwrite false P m) = some s' := hs
  obtain ⟨hrepo, hreach⟩ := reaches_of_applied happly (Operation.atPlace_overwrite false m)
  refine ⟨hrepo, ?_⟩
  cases hreach with
  | above q acc hP hview =>
    obtain rfl : q = [] := by simpa [Operation.path] using hP
    have hview' : s.viewCache.applyServerOverwriteTo [] m ⟨P, s.repo.pendingWriteTree⟩ (some []) =
        some (s'.viewCache, acc) := hview
    rcases ViewCache.applyServerOverwriteTo_server hview' with ⟨-, hne, -⟩ | hserver
    · exact absurd rfl hne
    · rw [hserver]
      simp
  | below q acc hq hpath hview => exact absurd (by simpa [Operation.path] using hpath) hq
  | elsewhere hpath hP heq => exact absurd List.prefix_rfl hpath

/-! ## The view of a tree -/

/-- The client runs, its view is right, and the server has sent last what is at the place of the
tree `n`. -/
structure Watches (Inner : List κ → Prop) (P : List κ) (n : Node κ α) (s : SyncTree κ α) :
    Prop where
  sound : Sound s
  correct : Correct Inner P s
  plain : n.Plain Inner
  server : s.viewCache.cachedServerSnap = ⟨n.getChild P, true⟩

omit [DecidableEq α] in
/-- **What is shown** is that tree with the pending writes made in turn. -/
theorem Watches.eventNode_eq (h : Watches Inner P n s) :
    s.eventNode = (n.overwritten s.repo.pendingWriteTree.allWrites).getChild P := by
  have hevent := h.correct.shows.complete (by rw [h.server])
  rw [SyncTree.eventNode, hevent, h.server]
  exact Node.getChild_overwritten_congr (Node.getChild_placed P (n.getChild P)) _

theorem Watches.set (h : Watches Inner P n s) {node : Node κ α}
    (hfits : Node.Fits Inner path node) : ∃ s', SyncTree.step P s (.set path node) = some s' ∧
      s.repo.set path node = some s'.repo ∧ Watches Inner P n s' := by
  obtain ⟨s', hs⟩ := h.sound.exists_step (e := .set path node) trivial
  obtain ⟨hrepo, hserver⟩ := server_of_set hs
  exact ⟨s', hs, hrepo, h.sound.step hs, h.correct.set hfits hs, h.plain, hserver.trans h.server⟩

/-- The answer to the foremost write on its way. The server's node is complete, so what a Debug
build asserts is true. -/
theorem Watches.ackWrite (h : Watches Inner P n s) {w : WriteRecord κ α}
    (hw : s.repo.pendingWriteTree.writeForId w.writeId = some w)
    (hforemost : s.repo.Foremost w.writeId) (revert : Bool) :
    ∃ s', SyncTree.step P s (.ackWrite w.writeId revert) = some s' ∧
      s.repo.ackWrite w.writeId = some s'.repo ∧ Watches Inner P n s' := by
  obtain ⟨s', hs⟩ := h.sound.exists_step
    (h.correct.clean_ackWrite (by rw [h.server]) hw hforemost revert)
  obtain ⟨hrepo, hserver⟩ := server_of_ackWrite hs
  exact ⟨s', hs, hrepo, h.sound.step hs, h.correct.ackWrite hforemost hs, h.plain,
    hserver.trans h.server⟩

/-- The server's tree has changed, and it sends what is at the place. -/
theorem Watches.serverOverwrite (h : Watches Inner P n s) (hm : m.Plain Inner)
    (hP : ∀ q, q <+: P → q ≠ P → Inner q) :
    ∃ s', SyncTree.step P s (.serverOverwrite P (m.getChild P)) = some s' ∧ s'.repo = s.repo ∧
      Watches Inner P m s' := by
  obtain ⟨s', hs⟩ := h.sound.exists_step (e := .serverOverwrite P (m.getChild P)) trivial
  obtain ⟨hrepo, hserver⟩ := server_of_serverOverwrite hs
  have hfits : Node.Fits Inner P (m.getChild P) := by
    refine ⟨hP, fun r hr => ?_⟩
    rw [← Node.getChild_append]
    exact hm _ hr
  exact ⟨s', hs, hrepo, h.sound.step hs, h.correct.serverOverwrite hfits hs, hm, hserver⟩

/-- A view that is added where the tree is known. -/
theorem watches_of_addEventRegistration {es : List (RepoEvent κ α)} {r : Repo κ α}
    (hr : repo.run Repo.init es = some r) (htidy : r.pendingWriteTree.Tidy Inner)
    (hn : n.Plain Inner) (hs : addEventRegistration P r ⟨n.getChild P, true⟩ = some s) :
    s.repo = r ∧ Watches Inner P n s := by
  have hplain : (Node.placed P (n.getChild P)).Plain Inner := by
    refine Node.plain_placed fun q hq => ?_
    rw [← Node.getChild_append]
    exact hn _ hq
  have hsound := sound_of_init ⟨es, r, ⟨n.getChild P, true⟩, hr, hs⟩
  have hcorrect := correct_of_addEventRegistration hr htidy hplain hs
  obtain ⟨events, -, rfl⟩ := Option.map_eq_some_iff.mp hs
  exact ⟨rfl, hsound, hcorrect, hn, rfl⟩

/-! ## What is heard -/

/-- From `s` to `s'` a listener to additions has heard the children that are new. -/
def Hears (s s' : SyncTree κ α) : Prop :=
  s'.addedChildren.Perm (s.addedChildren ++ s.eventNode.added s'.eventNode)

omit [DecidableEq α] in
theorem hears_refl (s : SyncTree κ α) : Hears s s := by
  rw [Hears, Node.added_self, List.append_nil]

theorem hears_of_step {e : SyncEvent κ α} (hs : SyncTree.step P s e = some s') : Hears s s' :=
  List.Perm.of_eq (addedChildren_step hs)

omit [DecidableEq α] in
theorem Hears.trans {u : SyncTree κ α} (h : Hears s s') (h' : Hears s' u)
    (hk : ∀ k, s.eventNode.getImmediateChild k = s'.eventNode.getImmediateChild k ∨
      s'.eventNode.getImmediateChild k = u.eventNode.getImmediateChild k) : Hears s u := by
  have hboth := List.Perm.trans h' (List.Perm.append_right _ h)
  rw [List.append_assoc] at hboth
  exact hboth.trans ((Node.added_trans hk).append_left _)

omit [DecidableEq α] in
/-- A new tree and then the answer to a write: what the pending writes cover is as before the
tree, and the rest as before the answer. -/
theorem Watches.changes_once {u : SyncTree κ α} {before after : List (WriteRecord κ α)}
    {r : WriteRecord κ α} (h : Watches Inner P n s) (h' : Watches Inner P m s')
    (h'' : Watches Inner P m u) (hall : s.repo.pendingWriteTree.allWrites = before ++ r :: after)
    (hrepo : s'.repo = s.repo) (hall' : u.repo.pendingWriteTree.allWrites = before ++ after)
    (hr : ∀ k, P ++ [k] <+: r.path → P ++ [k] = r.path) (k : κ) :
    s.eventNode.getImmediateChild k = s'.eventNode.getImmediateChild k ∨
      s'.eventNode.getImmediateChild k = u.eventNode.getImmediateChild k := by
  have hchild : ∀ x : Node κ α, (x.getChild P).getImmediateChild k = x.getChild (P ++ [k]) := by
    intro x
    rw [Node.getChild_append, Node.getChild_cons, Node.getChild_nil]
  rw [h.eventNode_eq, h'.eventNode_eq, h''.eventNode_eq, hrepo, hall, hall', hchild, hchild, hchild]
  have hmem : r ∈ before ++ r :: after := List.mem_append_right before List.mem_cons_self
  by_cases hcover : ∃ c ∈ before ++ r :: after, c.path <+: P ++ [k]
  · -- what is written there decides, whatever tree is below
    exact Or.inl (Node.getChild_overwritten_above hcover n m)
  · -- the answered write is elsewhere
    refine Or.inr (Node.getChild_overwritten_without m ?_ ?_)
    · exact fun hpath => hcover ⟨r, hmem, hpath⟩
    · exact fun hpath => hcover ⟨r, hmem, (hr k hpath) ▸ List.prefix_rfl⟩

/-- A write that is the last one already shows nothing new. -/
theorem Watches.set_again (h : Watches Inner P n s) {l : List (WriteRecord κ α)}
    {r : WriteRecord κ α} (hall : s.repo.pendingWriteTree.allWrites = l ++ [r]) :
    ∃ s', SyncTree.step P s (.set r.path r.overwrite) = some s' ∧
      s.repo.set r.path r.overwrite = some s'.repo ∧ Watches Inner P n s' ∧
      s'.eventNode = s.eventNode := by
  have hfits : ∀ c ∈ l ++ [r], Node.Fits Inner c.path c.overwrite := hall ▸ h.correct.tidy.fits
  have hr : Node.Fits Inner r.path r.overwrite := hfits r (by simp)
  obtain ⟨s', hs, hset, h'⟩ := h.set hr
  refine ⟨s', hs, hset, h', ?_⟩
  obtain ⟨es, hordered⟩ := h.correct.ordered
  have hset' := hordered.set_eq r.path r.overwrite
  rw [hset] at hset'
  have hall' : s'.repo.pendingWriteTree.allWrites =
      (l ++ [r]) ++ [⟨s.repo.writeIdCounter, r.path, r.overwrite, true⟩] := by
    rw [Option.some.inj hset', ← hall]
  have hpasses : (n.overwritten l).Passes r.path :=
    (h.plain.overwritten fun c hc => hfits c (List.mem_append_left _ hc)).passes hr.way
  have htwice := Node.updateChild_updateChild_append hpasses [] r.overwrite r.overwrite
  rw [List.append_nil] at htwice
  rw [h'.eventNode_eq, h.eventNode_eq, hall', hall, Node.overwritten_concat, Node.overwritten_concat,
    htwice]

end FirebaseDatabase
