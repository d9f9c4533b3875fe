/-
`FWriteTree`: the writes a client has issued and the server has not answered, and the node
it shows meanwhile.

The tree keeps every pending write (`allWrites`) and their merge (`visibleWrites`), which it
updates in place when a write comes or goes. `Layered` says that the merge is the one made
from the pending writes anew. A new write keeps that. The removal of a write does when no
older write leads to a place above it (`Layered.removeWriteId`), so in particular when the
server answers in order: a removed write that has been merged into an older one cannot be
told from it any more and stays. Where the merge is right, the node that is shown is the
server's with the pending writes made one after the other
(`getChild_applyToNode_layerTreeFromWrites`).

Every write here is an overwrite, as `setValue` and `removeValue` issue them. The merges of
`updateChildValues` are left out, and so are the writes of transactions, which may be hidden.
-/
import DailyDiary.FirebaseDatabase.CompoundWrite

set_option autoImplicit false

namespace FirebaseDatabase

variable {κ α : Type} [LinearOrder κ]

/-- `contains:`: the path leads to the other one or is the same. -/
def contains (path other : List κ) : Bool :=
  path.isPrefixOf other

@[simp] theorem contains_iff {p q : List κ} : contains p q = true ↔ p <+: q :=
  List.isPrefixOf_iff_prefix

theorem contains_eq_false {p q : List κ} : contains p q = false ↔ ¬ p <+: q := by
  rw [← contains_iff, Bool.not_eq_true]

omit [LinearOrder κ] in
theorem relativePathFrom_append (p q : List κ) : relativePathFrom p (p ++ q) = q :=
  List.drop_left

/-- `FWriteRecord` of an overwrite. -/
structure WriteRecord (κ α : Type) [LinearOrder κ] where
  writeId : ℤ
  path : List κ
  overwrite : Node κ α
  visible : Bool

/-- `FWriteTree` -/
structure WriteTree (κ α : Type) [LinearOrder κ] where
  visibleWrites : CompoundWrite κ α
  allWrites : List (WriteRecord κ α)
  lastWriteId : ℤ

namespace WriteTree

/-! ## Layering the pending writes -/

/-- One turn of the enumeration in `layerTreeFromWrites:`: the write is made relative to the
root of the tree, and left out when the two do not overlap. -/
def layerRecord (treeRoot : List κ) (compoundWrite : CompoundWrite κ α) (record : WriteRecord κ α) :
    CompoundWrite κ α :=
  if contains treeRoot record.path then
    compoundWrite.addWrite record.overwrite (relativePathFrom treeRoot record.path)
  else if contains record.path treeRoot then
    compoundWrite.addWrite (record.overwrite.getChild (relativePathFrom record.path treeRoot)) []
  else compoundWrite

/-- `layerTreeFromWrites:filter:treeRoot:` -/
def layerTreeFromWrites (writes : List (WriteRecord κ α)) (filter : WriteRecord κ α → Bool)
    (treeRoot : List κ) : CompoundWrite κ α :=
  writes.foldl (fun compoundWrite record =>
    if filter record then layerRecord treeRoot compoundWrite record else compoundWrite)
    CompoundWrite.emptyWrite

/-- `defaultFilter`. It is to keep what is visible, and keeps everything. -/
def defaultFilter (_ : WriteRecord κ α) : Bool :=
  true

/-! ## The operations -/

/-- `init` -/
def init : WriteTree κ α where
  visibleWrites := CompoundWrite.emptyWrite
  allWrites := []
  lastWriteId := -1

/-- `addOverwriteAtPath:newData:writeId:isVisible:`; it is asserted that the write is newer
than the last one. -/
def addOverwriteAtPath (t : WriteTree κ α) (path : List κ) (newData : Node κ α) (writeId : ℤ)
    (visible : Bool) : Option (WriteTree κ α) :=
  if t.lastWriteId < writeId then
    some
      { visibleWrites := if visible then t.visibleWrites.addWrite newData path else t.visibleWrites
        allWrites := t.allWrites ++ [⟨writeId, path, newData, visible⟩]
        lastWriteId := writeId }
  else none

/-- `resetTree` -/
def resetTree (t : WriteTree κ α) : WriteTree κ α where
  visibleWrites := layerTreeFromWrites t.allWrites defaultFilter []
  allWrites := t.allWrites
  lastWriteId :=
    match t.allWrites.getLast? with
    | some lastRecord => lastRecord.writeId
    | none => -1

/-- The loop of `removeWriteId:` from the record before the `i`-th down to the first one, with
`removedWriteWasVisible` and `removedWriteOverlapsWithOtherWrites`. -/
def removalScan (allWrites : List (WriteRecord κ α)) (index : ℕ) (writeToRemove : WriteRecord κ α) :
    ℕ → Bool → Bool → Bool × Bool
  | 0, wasVisible, overlaps => (wasVisible, overlaps)
  | i + 1, wasVisible, overlaps =>
    if wasVisible then
      match allWrites[i]? with
      | some currentWrite =>
        if currentWrite.visible then
          if index ≤ i && contains currentWrite.path writeToRemove.path then
            -- a later write has covered the removed one
            removalScan allWrites index writeToRemove i false overlaps
          else if contains writeToRemove.path currentWrite.path then
            removalScan allWrites index writeToRemove i wasVisible true
          else removalScan allWrites index writeToRemove i wasVisible overlaps
        else removalScan allWrites index writeToRemove i wasVisible overlaps
      | none => (wasVisible, overlaps)
    else (wasVisible, overlaps)

/-- `removeWriteId:`, with the result that views are to be evaluated again. It is asserted that
there is a write with the identifier. -/
def removeWriteId (t : WriteTree κ α) (writeId : ℤ) : Option (Bool × WriteTree κ α) :=
  match t.allWrites.findIdx? fun record => record.writeId = writeId with
  | none => none
  | some index =>
    match t.allWrites[index]? with
    | none => none
    | some writeToRemove =>
      let t := { t with allWrites := t.allWrites.eraseIdx index }
      match removalScan t.allWrites index writeToRemove t.allWrites.length
        writeToRemove.visible false with
      | (false, _) => some (false, t)
      | (true, true) => some (true, t.resetTree)
      | (true, false) =>
        some (true,
          { t with visibleWrites := t.visibleWrites.removeWriteAtPath writeToRemove.path })

/-- `calculateCompleteEventCacheAtPath:` without writes to exclude and without hidden ones. -/
def calculateCompleteEventCacheAtPath (t : WriteTree κ α) (treePath : List κ)
    (completeServerCache : Option (Node κ α)) : Option (Node κ α) :=
  match t.visibleWrites.completeNodeAtPath treePath with
  | some shadowingNode => some shadowingNode
  | none =>
    let subMerge := t.visibleWrites.childCompoundWriteAtPath treePath
    if subMerge.isEmpty then completeServerCache
    else if completeServerCache.isNone && !subMerge.hasCompleteWriteAtPath [] then none
    else some (subMerge.applyToNode (completeServerCache.getD Node.empty))

/-- `calculateCompleteEventCacheAtPath:` with writes to exclude or with the hidden ones. -/
def calculateCompleteEventCacheExcluding (t : WriteTree κ α) (treePath : List κ)
    (completeServerCache : Option (Node κ α)) (writeIdsToExclude : List ℤ)
    (includeHiddenWrites : Bool) : Option (Node κ α) :=
  let merge := t.visibleWrites.childCompoundWriteAtPath treePath
  if !includeHiddenWrites && merge.isEmpty then completeServerCache
  else if !includeHiddenWrites && completeServerCache.isNone && !merge.hasCompleteWriteAtPath []
  then none
  else
    let filter (record : WriteRecord κ α) : Bool :=
      (record.visible || includeHiddenWrites) &&
        !writeIdsToExclude.contains record.writeId &&
        (contains record.path treePath || contains treePath record.path)
    let mergeAtPath := layerTreeFromWrites t.allWrites filter treePath
    some (mergeAtPath.applyToNode (completeServerCache.getD Node.empty))

/-- `calculateEventCacheAfterServerOverwriteAtPath:`; the result is none when the event cache
does not change. The node of the server is there. -/
def calculateEventCacheAfterServerOverwriteAtPath (t : WriteTree κ α)
    (treePath childPath : List κ) (existingServerSnap : Node κ α) : Option (Node κ α) :=
  let path := treePath ++ childPath
  if t.visibleWrites.hasCompleteWriteAtPath path then none
  else
    let childMerge := t.visibleWrites.childCompoundWriteAtPath path
    if childMerge.isEmpty then some (existingServerSnap.getChild childPath)
    else some (childMerge.applyToNode (existingServerSnap.getChild childPath))

/-! ## Layering is writing in turn -/

theorem layerRecord_root (w : CompoundWrite κ α) (r : WriteRecord κ α) :
    layerRecord [] w r = w.addWrite r.overwrite r.path := by
  rw [layerRecord, if_pos (contains_iff.mpr List.nil_prefix)]
  rfl

theorem layerTreeFromWrites_concat (ws : List (WriteRecord κ α)) (r : WriteRecord κ α)
    (f : WriteRecord κ α → Bool) (root : List κ) :
    layerTreeFromWrites (ws ++ [r]) f root =
      if f r then layerRecord root (layerTreeFromWrites ws f root) r
      else layerTreeFromWrites ws f root := by
  rw [layerTreeFromWrites, List.foldl_append]
  rfl

end WriteTree

/-- The node with the writes made one after the other. -/
def Node.overwritten (n : Node κ α) (ws : List (WriteRecord κ α)) : Node κ α :=
  ws.foldl (fun n r => n.updateChild r.path r.overwrite) n

theorem Node.overwritten_concat (n : Node κ α) (ws : List (WriteRecord κ α)) (r : WriteRecord κ α) :
    n.overwritten (ws ++ [r]) = (n.overwritten ws).updateChild r.path r.overwrite := by
  rw [Node.overwritten, List.foldl_append]
  rfl

namespace WriteTree

/-- One write more, at any root of the tree: above it, below it or elsewhere. -/
theorem applyToNode_layerRecord {n m : Node κ α} {r : WriteRecord κ α} (hn : n.Passes r.path)
    {w : CompoundWrite κ α} {root : List κ}
    (hw : w.applyToNode (n.getChild root) = m.getChild root) :
    (layerRecord root w r).applyToNode (n.getChild root) =
      (m.updateChild r.path r.overwrite).getChild root := by
  rw [layerRecord]
  split
  · next habove =>
    obtain ⟨q, hq⟩ := contains_iff.mp habove
    rw [← hq] at hn
    rw [← hq, relativePathFrom_append, Node.getChild_append_updateChild,
      CompoundWrite.applyToNode_addWrite (Node.passes_append.mp hn).2, hw]
  · next habove =>
    split
    · next hbelow =>
      obtain ⟨q, hq⟩ := contains_iff.mp hbelow
      rw [← hq, relativePathFrom_append, Node.getChild_updateChild_append]
      rfl
    · next hbelow =>
      rw [hw, Node.getChild_updateChild_of_disjoint]
      · exact fun h => hbelow (contains_iff.mpr h)
      · exact fun h => habove (contains_iff.mpr h)

/-- **Layering is writing in turn.** Applied to the node at the root of the tree, the merge
makes the writes of the list one after the other. -/
theorem applyToNode_layerTreeFromWrites {n : Node κ α} {ws : List (WriteRecord κ α)}
    {f : WriteRecord κ α → Bool} (hn : ∀ r ∈ ws, f r = true → n.Passes r.path) (root : List κ) :
    (layerTreeFromWrites ws f root).applyToNode (n.getChild root) =
      (n.overwritten (ws.filter f)).getChild root := by
  induction ws using List.reverseRecOn with
  | nil => rfl
  -- the last write of the list is the last that is made
  | append_singleton ws r ih =>
    have hprev := ih fun s hs => hn s (List.mem_append_left _ hs)
    rw [layerTreeFromWrites_concat, List.filter_append]
    cases hf : f r with
    | true =>
      have hpass := hn r (List.mem_append_right _ (List.mem_singleton_self r)) hf
      rw [if_pos rfl, List.filter_cons_of_pos hf, List.filter_nil, Node.overwritten_concat]
      exact applyToNode_layerRecord hpass hprev
    | false =>
      rw [if_neg Bool.false_ne_true, List.filter_cons_of_neg (by simp [hf]), List.filter_nil,
        List.append_nil, hprev]

end WriteTree

/-! ## Merges that differ at one place -/

namespace CompoundWrite

variable {w w' : CompoundWrite κ α} {p q : List κ}

/-- The writes merged into `w` in turn. -/
def addWrites (w : CompoundWrite κ α) (ws : List (WriteRecord κ α)) : CompoundWrite κ α :=
  ws.foldl (fun w r => w.addWrite r.overwrite r.path) w

theorem addWrites_cons (w : CompoundWrite κ α) (r : WriteRecord κ α) (ws : List (WriteRecord κ α)) :
    w.addWrites (r :: ws) = (w.addWrite r.overwrite r.path).addWrites ws := rfl

theorem addWrites_append (w : CompoundWrite κ α) (ws ws' : List (WriteRecord κ α)) :
    w.addWrites (ws ++ ws') = (w.addWrites ws).addWrites ws' :=
  List.foldl_append

/-- What is shadowed by merged writes is what one of them covers. -/
theorem isSome_completeNodeAtPath_addWrites {ws : List (WriteRecord κ α)} :
    ((emptyWrite.addWrites ws).completeNodeAtPath p).isSome = true ↔ ∃ r ∈ ws, r.path <+: p := by
  induction ws using List.reverseRecOn with
  | nil =>
    have hnone : (emptyWrite : CompoundWrite κ α).completeNodeAtPath p = none := by
      cases p <;> rfl
    simp [addWrites, hnone]
  | append_singleton ws r ih =>
    have hlast := (emptyWrite.addWrites ws).isWrite.isSome_completeNodeAtPath_addWrite r.overwrite
      r.path p
    rw [addWrites_append]
    refine hlast.trans ?_
    simp only [List.mem_append, List.mem_singleton, or_and_right, exists_or, exists_eq_left]
    exact or_congr_left ih

/-- Nothing is merged above the place. -/
def Free (w : CompoundWrite κ α) (p : List κ) : Prop :=
  w.writeTree.Passes p

/-- The way to the place is free in both, and they differ at most in what they write there. -/
structure SameBut (p : List κ) (w w' : CompoundWrite κ α) : Prop where
  free : w.Free p
  free' : w'.Free p
  remove_eq : w.removeWriteAtPath p = w'.removeWriteAtPath p

theorem Free.addWrite (h : w.Free p) (hq : ¬ (q <+: p ∧ q ≠ p)) (v : Node κ α) :
    (w.addWrite v q).Free p :=
  w.isWrite.passes_addWrite h hq v

theorem Free.addWrites (h : w.Free p) {ws : List (WriteRecord κ α)}
    (hws : ∀ r ∈ ws, ¬ (r.path <+: p ∧ r.path ≠ p)) : (w.addWrites ws).Free p := by
  induction ws generalizing w with
  | nil => exact h
  | cons r ws ih =>
    rw [addWrites_cons]
    refine ih (h.addWrite (hws r List.mem_cons_self) r.overwrite) ?_
    exact fun s hs => hws s (List.mem_cons_of_mem r hs)

theorem Free.removeWriteAtPath_addWrite_append (h : w.Free p) (q : List κ) (v : Node κ α) :
    (w.addWrite v (p ++ q)).removeWriteAtPath p = w.removeWriteAtPath p :=
  ext (w.isWrite.removeWriteAtPath_addWrite_append h q v)

theorem Free.removeWriteAtPath_addWrite (h : w.Free p) (hpq : ¬ p <+: q) (hqp : ¬ q <+: p)
    (v : Node κ α) :
    (w.addWrite v q).removeWriteAtPath p = (w.removeWriteAtPath p).addWrite v q :=
  ext (w.isWrite.removeWriteAtPath_addWrite h hpq hqp v)

theorem Free.addWrite_removeWriteAtPath (h : w.Free (q ++ p)) (v : Node κ α) :
    (w.removeWriteAtPath (q ++ p)).addWrite v q = w.addWrite v q :=
  ext (w.isWrite.addWrite_removeWriteAtPath h v)

/-- A write to the place, or below it, differs there only. -/
theorem SameBut.of_addWrite (h : w.Free p) (v : Node κ α) : SameBut p (w.addWrite v p) w where
  free := h.addWrite (fun hp => hp.2 rfl) v
  free' := h
  remove_eq := by
    have hself := h.removeWriteAtPath_addWrite_append [] v
    rwa [List.append_nil] at hself

/-- What is written later, not above the place, leaves the difference where it is. -/
theorem SameBut.addWrite (h : SameBut p w w') (hq : ¬ q <+: p) (v : Node κ α) :
    SameBut p (w.addWrite v q) (w'.addWrite v q) where
  free := h.free.addWrite (fun hqp => hq hqp.1) v
  free' := h.free'.addWrite (fun hqp => hq hqp.1) v
  remove_eq := by
    by_cases hpq : p <+: q
    · obtain ⟨r, rfl⟩ := hpq
      rw [h.free.removeWriteAtPath_addWrite_append, h.free'.removeWriteAtPath_addWrite_append,
        h.remove_eq]
    · rw [h.free.removeWriteAtPath_addWrite hpq hq, h.free'.removeWriteAtPath_addWrite hpq hq,
        h.remove_eq]

/-- What is written above the place ends the difference. -/
theorem SameBut.addWrite_above (h : SameBut p w w') (hq : q <+: p) (v : Node κ α) :
    w.addWrite v q = w'.addWrite v q := by
  obtain ⟨r, rfl⟩ := hq
  rw [← h.free.addWrite_removeWriteAtPath, h.remove_eq, h.free'.addWrite_removeWriteAtPath]

theorem SameBut.addWrites (h : SameBut p w w') {ws : List (WriteRecord κ α)}
    (hws : ∀ r ∈ ws, ¬ r.path <+: p) : SameBut p (w.addWrites ws) (w'.addWrites ws) := by
  induction ws generalizing w w' with
  | nil => exact h
  | cons r ws ih =>
    rw [addWrites_cons, addWrites_cons]
    refine ih (h.addWrite (hws r List.mem_cons_self) r.overwrite) ?_
    exact fun s hs => hws s (List.mem_cons_of_mem r hs)

/-- Once a later write has covered the place there is no difference. -/
theorem SameBut.addWrites_above (h : SameBut p w w') {ws : List (WriteRecord κ α)}
    (hws : ∃ r ∈ ws, r.path <+: p) : w.addWrites ws = w'.addWrites ws := by
  induction ws generalizing w w' with
  | nil =>
    obtain ⟨r, hr, -⟩ := hws
    cases hr
  | cons r ws ih =>
    rw [addWrites_cons, addWrites_cons]
    -- the first write above the place ends the difference
    by_cases hr : r.path <+: p
    · rw [h.addWrite_above hr]
    · refine ih (h.addWrite hr r.overwrite) ?_
      obtain ⟨s, hs, hsp⟩ := hws
      rcases List.mem_cons.mp hs with rfl | hs
      · exact absurd hsp hr
      · exact ⟨s, hs, hsp⟩

/-- There is nothing to remove where nothing is written on the way, at the place or below. -/
theorem removeWriteAtPath_addWrites_of_disjoint (h : w.Free p) (hw : w.removeWriteAtPath p = w)
    {ws : List (WriteRecord κ α)} (hws : ∀ r ∈ ws, ¬ r.path <+: p ∧ ¬ p <+: r.path) :
    (w.addWrites ws).removeWriteAtPath p = w.addWrites ws := by
  induction ws generalizing w with
  | nil => exact hw
  | cons r ws ih =>
    obtain ⟨hrp, hpr⟩ := hws r List.mem_cons_self
    rw [addWrites_cons]
    refine ih (h.addWrite (fun hr => hrp hr.1) r.overwrite) ?_ ?_
    · rw [h.removeWriteAtPath_addWrite hpr hrp, hw]
    · exact fun s hs => hws s (List.mem_cons_of_mem r hs)

theorem free_emptyWrite (p : List κ) : (emptyWrite : CompoundWrite κ α).Free p :=
  ImmutableTree.passes_empty p

theorem removeWriteAtPath_emptyWrite (p : List κ) :
    (emptyWrite : CompoundWrite κ α).removeWriteAtPath p = emptyWrite :=
  ext (ImmutableTree.removeWriteAtPath_empty p)

end CompoundWrite

/-! ## Removing a write -/

namespace WriteTree

open CompoundWrite (emptyWrite)

theorem layerTreeFromWrites_root (ws : List (WriteRecord κ α)) :
    layerTreeFromWrites ws defaultFilter [] = emptyWrite.addWrites ws := by
  simp only [layerTreeFromWrites, defaultFilter, if_true, layerRecord_root]
  rfl

theorem removalScan_of_not_visible (ws : List (WriteRecord κ α)) (index : ℕ) (r : WriteRecord κ α)
    (n : ℕ) (overlaps : Bool) : removalScan ws index r n false overlaps = (false, overlaps) := by
  cases n <;> rfl

/-- One turn of the loop. -/
theorem removalScan_succ {ws : List (WriteRecord κ α)} {n : ℕ} {c : WriteRecord κ α}
    (hc : ws[n]? = some c) (index : ℕ) (r : WriteRecord κ α) (overlaps : Bool) :
    removalScan ws index r (n + 1) true overlaps =
      if c.visible = true ∧ index ≤ n ∧ c.path <+: r.path then (false, overlaps)
      else removalScan ws index r n true
        (overlaps || (c.visible && contains r.path c.path)) := by
  rw [removalScan, if_pos rfl, hc]
  cases hv : c.visible with
  | false => simp [hv]
  | true =>
    by_cases hcover : index ≤ n ∧ c.path <+: r.path
    · simp [hv, hcover, removalScan_of_not_visible]
    · have hno : (decide (index ≤ n) && contains c.path r.path) = false := by
        rw [Bool.and_eq_false_iff]
        by_cases hi : index ≤ n
        · exact Or.inr (contains_eq_false.mpr fun h => hcover ⟨hi, h⟩)
        · exact Or.inl (decide_eq_false hi)
      rw [if_neg (fun h => hcover h.2)]
      cases hbelow : contains r.path c.path <;> simp [hv, hno, hbelow]

/-- The removed write is found to be covered when a later visible one leads to its place. -/
theorem removalScan_fst_eq_false {ws : List (WriteRecord κ α)} {n : ℕ} (hn : n ≤ ws.length)
    (index : ℕ) (r : WriteRecord κ α) (overlaps : Bool) :
    (removalScan ws index r n true overlaps).1 = false ↔
      ∃ i < n, ∃ c, ws[i]? = some c ∧ c.visible = true ∧ index ≤ i ∧ c.path <+: r.path := by
  induction n generalizing overlaps with
  | zero => simp [removalScan]
  | succ n ih =>
    have hc : ws[n]? = some ws[n] := List.getElem?_eq_getElem hn
    rw [removalScan_succ hc, Nat.exists_lt_succ_right]
    split
    · next hcover => exact ⟨fun _ => Or.inr ⟨_, hc, hcover⟩, fun _ => rfl⟩
    · next hcover =>
      rw [ih (Nat.le_of_succ_le hn)]
      constructor
      · exact Or.inl
      · rintro (h | ⟨c, hc', h⟩)
        · exact h
        · rw [hc] at hc'
          obtain rfl := Option.some.inj hc'
          exact absurd h hcover

/-- Otherwise it is found to overlap when a visible one is at its place or below. -/
theorem removalScan_snd {ws : List (WriteRecord κ α)} {n : ℕ} (hn : n ≤ ws.length) {index : ℕ}
    {r : WriteRecord κ α} {overlaps overlaps' : Bool}
    (h : removalScan ws index r n true overlaps = (true, overlaps')) :
    overlaps' = true ↔
      overlaps = true ∨ ∃ i < n, ∃ c, ws[i]? = some c ∧ c.visible = true ∧ r.path <+: c.path := by
  induction n generalizing overlaps with
  | zero =>
    obtain rfl := (Prod.mk.inj h).2
    simp
  | succ n ih =>
    have hc : ws[n]? = some ws[n] := List.getElem?_eq_getElem hn
    rw [removalScan_succ hc] at h
    split at h
    · cases h
    · rw [ih (Nat.le_of_succ_le hn) h, Nat.exists_lt_succ_right, Bool.or_eq_true,
        Bool.and_eq_true, contains_iff, or_assoc]
      simp only [hc, Option.some.injEq, exists_eq_left']
      exact or_congr_right or_comm

/-- The pending writes before the removed one, the removed one and those after it, and how the
removal was done. -/
inductive Removal (t : WriteTree κ α) (writeId : ℤ) : Bool → WriteTree κ α →
    List (WriteRecord κ α) → WriteRecord κ α → List (WriteRecord κ α) → Prop where
  /-- the write was hidden, or a later one has covered it -/
  | unseen {before after : List (WriteRecord κ α)} {r : WriteRecord κ α}
      (hall : t.allWrites = before ++ r :: after) (hid : r.writeId = writeId)
      (hcovered : r.visible = true → ∃ c ∈ after, c.visible = true ∧ c.path <+: r.path) :
      Removal t writeId false { t with allWrites := before ++ after } before r after
  /-- no later one has, and others are at its place or below -/
  | reset {before after : List (WriteRecord κ α)} {r : WriteRecord κ α}
      (hall : t.allWrites = before ++ r :: after) (hid : r.writeId = writeId)
      (habove : ∀ c ∈ after, c.visible = true → ¬ c.path <+: r.path) :
      Removal t writeId true ({ t with allWrites := before ++ after }).resetTree before r after
  /-- none is -/
  | removed {before after : List (WriteRecord κ α)} {r : WriteRecord κ α}
      (hall : t.allWrites = before ++ r :: after) (hid : r.writeId = writeId)
      (habove : ∀ c ∈ after, c.visible = true → ¬ c.path <+: r.path)
      (hbelow : ∀ c ∈ before ++ after, c.visible = true → ¬ r.path <+: c.path) :
      Removal t writeId true
        { t with
          visibleWrites := t.visibleWrites.removeWriteAtPath r.path
          allWrites := before ++ after } before r after

theorem Removal.allWrites {t t' : WriteTree κ α} {writeId : ℤ} {b : Bool}
    {before after : List (WriteRecord κ α)} {r : WriteRecord κ α}
    (h : Removal t writeId b t' before r after) :
    t.allWrites = before ++ r :: after ∧ r.writeId = writeId ∧ t'.allWrites = before ++ after := by
  cases h with
  | unseen hall hid => exact ⟨hall, hid, rfl⟩
  | reset hall hid => exact ⟨hall, hid, rfl⟩
  | removed hall hid => exact ⟨hall, hid, rfl⟩

/-- The last identifier goes back at most, to one that is pending. -/
theorem Removal.lastWriteId_lt {t t' : WriteTree κ α} {writeId : ℤ} {b : Bool}
    {before after : List (WriteRecord κ α)} {r : WriteRecord κ α}
    (h : Removal t writeId b t' before r after) {n : ℤ} (hn : 0 ≤ n) (hlast : t.lastWriteId < n)
    (hall : ∀ w ∈ t'.allWrites, w.writeId < n) : t'.lastWriteId < n := by
  cases h with
  | reset =>
    rw [resetTree]
    dsimp only
    split
    · next w hw => exact hall w (List.mem_of_getLast? hw)
    · omega
  | _ => exact hlast

/-- The scan of all the other writes finds no later one that covers the removed one. -/
private theorem not_covered {before after : List (WriteRecord κ α)} {r : WriteRecord κ α}
    {overlaps : Bool} (h : removalScan (before ++ after) before.length r (before ++ after).length
      true false = (true, overlaps)) :
    ∀ c ∈ after, c.visible = true → ¬ c.path <+: r.path := by
  intro c hc hv hcr
  obtain ⟨i, hi⟩ := List.mem_iff_getElem?.mp hc
  have hget : (before ++ after)[before.length + i]? = some c := by
    rw [List.getElem?_append_right (Nat.le_add_right _ _), Nat.add_sub_cancel_left, hi]
  obtain ⟨hlt, -⟩ := List.getElem?_eq_some_iff.mp hget
  have hfalse := (removalScan_fst_eq_false le_rfl before.length r false).mpr
    ⟨_, hlt, c, hget, hv, Nat.le_add_right _ _, hcr⟩
  rw [h] at hfalse
  cases hfalse

/-- It finds one. -/
private theorem covered {before after : List (WriteRecord κ α)} {r : WriteRecord κ α}
    {overlaps : Bool} (h : removalScan (before ++ after) before.length r (before ++ after).length
      true false = (false, overlaps)) :
    ∃ c ∈ after, c.visible = true ∧ c.path <+: r.path := by
  obtain ⟨i, -, c, hget, hv, hi, hcr⟩ :=
    (removalScan_fst_eq_false le_rfl before.length r false).mp (congrArg Prod.fst h)
  rw [List.getElem?_append_right hi] at hget
  exact ⟨c, List.mem_of_getElem? hget, hv, hcr⟩

/-- It finds none at the place of the removed one or below. -/
private theorem not_overlapping {before after : List (WriteRecord κ α)} {r : WriteRecord κ α}
    (h : removalScan (before ++ after) before.length r (before ++ after).length
      true false = (true, false)) :
    ∀ c ∈ before ++ after, c.visible = true → ¬ r.path <+: c.path := by
  intro c hc hv hrc
  obtain ⟨i, hi⟩ := List.mem_iff_getElem?.mp hc
  obtain ⟨hlt, -⟩ := List.getElem?_eq_some_iff.mp hi
  have htrue := (removalScan_snd le_rfl h).mpr (Or.inr ⟨i, hlt, c, hi, hv, hrc⟩)
  cases htrue

/-- The write at an index, the ones before it and those after it. -/
private theorem exists_split_at {ws : List (WriteRecord κ α)} {index : ℕ}
    (hlt : index < ws.length) : ∃ before after, ws = before ++ ws[index] :: after ∧
      before.length = index ∧ ws.eraseIdx index = before ++ after := by
  refine ⟨ws.take index, ws.drop (index + 1), ?_, ?_, List.eraseIdx_eq_take_drop_succ ws index⟩
  · rw [← List.drop_eq_getElem_cons hlt, List.take_append_drop]
  · rw [List.length_take]
    omega

/-- `removeWriteId:`, by the writes before and after the removed one. -/
theorem removeWriteId_eq_some {t t' : WriteTree κ α} {writeId : ℤ} {b : Bool}
    (h : t.removeWriteId writeId = some (b, t')) :
    ∃ before r after, Removal t writeId b t' before r after := by
  rw [removeWriteId] at h
  cases hfind : t.allWrites.findIdx? fun record => record.writeId = writeId with
  | none => simp [hfind] at h
  | some index =>
    -- the first record with the identifier, and the list around it
    obtain ⟨hlt, hid, -⟩ := List.findIdx?_eq_some_iff_getElem.mp hfind
    have hr : t.allWrites[index]? = some t.allWrites[index] := List.getElem?_eq_getElem hlt
    obtain ⟨before, after, hall, rfl, herase⟩ := exists_split_at hlt
    generalize t.allWrites[before.length] = r at hid hr hall
    have hid : r.writeId = writeId := by simpa using hid
    refine ⟨before, r, after, ?_⟩
    simp only [hfind, hr, herase] at h
    cases hv : r.visible with
    | false =>
      rw [hv, removalScan_of_not_visible] at h
      obtain ⟨rfl, rfl⟩ := Prod.mk.inj (Option.some.inj h)
      exact .unseen hall hid fun hseen => by rw [hv] at hseen; cases hseen
    | true =>
      rw [hv] at h
      cases hscan : removalScan (before ++ after) before.length r (before ++ after).length
        true false with
      | mk seen overlaps =>
        rw [hscan] at h
        cases seen with
        | false =>
          obtain ⟨rfl, rfl⟩ := Prod.mk.inj (Option.some.inj h)
          exact .unseen hall hid fun _ => covered hscan
        | true =>
          cases overlaps with
          | true =>
            obtain ⟨rfl, rfl⟩ := Prod.mk.inj (Option.some.inj h)
            exact .reset hall hid (not_covered hscan)
          | false =>
            obtain ⟨rfl, rfl⟩ := Prod.mk.inj (Option.some.inj h)
            exact .removed hall hid (not_covered hscan) (not_overlapping hscan)

/-- A pending write can be removed. -/
theorem exists_removeWriteId {t : WriteTree κ α} {w : WriteRecord κ α} (hw : w ∈ t.allWrites) :
    ∃ r, t.removeWriteId w.writeId = some r := by
  rw [removeWriteId]
  cases hfind : t.allWrites.findIdx? fun record => record.writeId = w.writeId with
  | none =>
    have hno := List.findIdx?_eq_none_iff.mp hfind w hw
    simp at hno
  | some index =>
    obtain ⟨hlt, -⟩ := List.findIdx?_eq_some_iff_getElem.mp hfind
    simp only [List.getElem?_eq_getElem hlt]
    split
    · exact ⟨_, rfl⟩
    · exact ⟨_, rfl⟩
    · exact ⟨_, rfl⟩

/-- All pending writes are visible, and the merge is the one made from them anew. -/
structure Layered (t : WriteTree κ α) : Prop where
  visible : ∀ r ∈ t.allWrites, r.visible = true
  visibleWrites_eq : t.visibleWrites = layerTreeFromWrites t.allWrites defaultFilter []

theorem layered_init : (init : WriteTree κ α).Layered where
  visible _ hr := absurd hr List.not_mem_nil
  visibleWrites_eq := rfl

/-- A new write keeps the merge right. -/
theorem Layered.addOverwriteAtPath {t t' : WriteTree κ α} (h : t.Layered) {path : List κ}
    {newData : Node κ α} {writeId : ℤ}
    (hadd : t.addOverwriteAtPath path newData writeId true = some t') : t'.Layered := by
  rw [WriteTree.addOverwriteAtPath] at hadd
  split at hadd
  · obtain rfl := Option.some.inj hadd
    constructor
    · intro r hr
      rcases List.mem_append.mp hr with hr | hr
      · exact h.visible r hr
      · rw [List.mem_singleton.mp hr]
    · rw [if_pos rfl, layerTreeFromWrites_concat, layerRecord_root, h.visibleWrites_eq]
      rfl
  · cases hadd

/-- **The removal of a write keeps the merge right**, when no older one leads to a place above
it. -/
theorem Layered.removal {t t' : WriteTree κ α} (h : t.Layered) {writeId : ℤ} {b : Bool}
    {before after : List (WriteRecord κ α)} {r : WriteRecord κ α}
    (hremove : Removal t writeId b t' before r after)
    (hbefore : ∀ c ∈ before, ¬ (c.path <+: r.path ∧ c.path ≠ r.path)) : t'.Layered := by
  have hfree := (CompoundWrite.free_emptyWrite r.path).addWrites hbefore
  -- the older writes with the removed one, and without it
  have hsame := CompoundWrite.SameBut.of_addWrite hfree r.overwrite
  have hsplit : t.allWrites = before ++ r :: after → t.visibleWrites =
      ((emptyWrite.addWrites before).addWrite r.overwrite r.path).addWrites after := by
    intro hall
    rw [h.visibleWrites_eq, layerTreeFromWrites_root, hall, CompoundWrite.addWrites_append,
      CompoundWrite.addWrites_cons]
  have hseen : t.allWrites = before ++ r :: after → ∀ c ∈ before ++ after, c.visible = true := by
    intro hall c hc
    refine h.visible c ?_
    rw [hall]
    rcases List.mem_append.mp hc with hc | hc
    · exact List.mem_append_left _ hc
    · exact List.mem_append_right _ (List.mem_cons_of_mem r hc)
  cases hremove with
  | unseen hall hid hcovered =>
    refine ⟨hseen hall, ?_⟩
    have hr : r.visible = true := h.visible r (by rw [hall]; simp)
    obtain ⟨c, hc, -, hcr⟩ := hcovered hr
    rw [layerTreeFromWrites_root, CompoundWrite.addWrites_append, hsplit hall]
    exact hsame.addWrites_above ⟨c, hc, hcr⟩
  | reset hall hid => exact ⟨hseen hall, rfl⟩
  | removed hall hid habove hbelow =>
    refine ⟨hseen hall, ?_⟩
    -- nothing else is at the place or below, and nothing above: only the removed write was there
    have hafter : ∀ c ∈ after, ¬ c.path <+: r.path := fun c hc =>
      habove c hc (hseen hall c (List.mem_append_right _ hc))
    have hdisjoint : ∀ c ∈ before ++ after, ¬ c.path <+: r.path ∧ ¬ r.path <+: c.path := by
      intro c hc
      have hrc := hbelow c hc (hseen hall c hc)
      refine ⟨?_, hrc⟩
      rcases List.mem_append.mp hc with hc | hc
      · intro hcr
        exact hbefore c hc ⟨hcr, fun heq => hrc (by rw [heq])⟩
      · exact hafter c hc
    rw [layerTreeFromWrites_root, hsplit hall, (hsame.addWrites hafter).remove_eq,
      ← CompoundWrite.addWrites_append]
    exact CompoundWrite.removeWriteAtPath_addWrites_of_disjoint
      (CompoundWrite.free_emptyWrite r.path) (CompoundWrite.removeWriteAtPath_emptyWrite r.path)
      hdisjoint

/-! ## What is shown -/

/-- Where the merge is right, it makes the pending writes one after the other. -/
theorem Layered.applyToNode {t : WriteTree κ α} (h : t.Layered) {n : Node κ α}
    (hn : ∀ r ∈ t.allWrites, n.Passes r.path) :
    t.visibleWrites.applyToNode n = n.overwritten t.allWrites := by
  have hlayer := applyToNode_layerTreeFromWrites (f := defaultFilter) (fun r hr _ => hn r hr) []
  have hall : t.allWrites.filter defaultFilter = t.allWrites :=
    List.filter_eq_self.mpr fun _ _ => rfl
  rw [Node.getChild_nil, Node.getChild_nil, hall] at hlayer
  rw [h.visibleWrites_eq, hlayer]

/-- The event cache at a path, from the server's node there: the branches are only short
cuts. -/
theorem calculateCompleteEventCacheAtPath_getChild (t : WriteTree κ α) (treePath : List κ)
    (n : Node κ α) : t.calculateCompleteEventCacheAtPath treePath (some (n.getChild treePath)) =
      some ((t.visibleWrites.applyToNode n).getChild treePath) := by
  rw [calculateCompleteEventCacheAtPath]
  cases hshadow : t.visibleWrites.completeNodeAtPath treePath with
  | some v => exact congrArg some (CompoundWrite.getChild_applyToNode_of_some hshadow n).symm
  | none =>
    rw [← CompoundWrite.applyToNode_childCompoundWriteAtPath]
    by_cases hempty : (t.visibleWrites.childCompoundWriteAtPath treePath).isEmpty = true
    · simp only [hempty, if_true, CompoundWrite.applyToNode_of_isEmpty hempty]
    · simp [hempty]

/-- After the server has overwritten a node, the event cache at the path is calculated, or is
the same whatever the server has there. -/
theorem calculateEventCacheAfterServerOverwriteAtPath_getChild (t : WriteTree κ α)
    (treePath childPath : List κ) (n : Node κ α) :
    match t.calculateEventCacheAfterServerOverwriteAtPath treePath childPath (n.getChild treePath)
    with
    | some c => c = (t.visibleWrites.applyToNode n).getChild (treePath ++ childPath)
    | none => ∀ m, (t.visibleWrites.applyToNode m).getChild (treePath ++ childPath) =
        (t.visibleWrites.applyToNode n).getChild (treePath ++ childPath) := by
  rw [calculateEventCacheAfterServerOverwriteAtPath, CompoundWrite.hasCompleteWriteAtPath]
  cases hshadow : t.visibleWrites.completeNodeAtPath (treePath ++ childPath) with
  | some v =>
    intro m
    rw [CompoundWrite.getChild_applyToNode_of_some hshadow,
      CompoundWrite.getChild_applyToNode_of_some hshadow]
  | none =>
    rw [← CompoundWrite.applyToNode_childCompoundWriteAtPath, Node.getChild_append]
    by_cases hempty :
        (t.visibleWrites.childCompoundWriteAtPath (treePath ++ childPath)).isEmpty = true
    · simp [hempty, CompoundWrite.applyToNode_of_isEmpty hempty]
    · simp [hempty]

/-- The writes that do not overlap with a path do not show there. -/
theorem getChild_overwritten_filter {ws : List (WriteRecord κ α)} {f g : WriteRecord κ α → Bool}
    {p : List κ} (hfg : ∀ r ∈ ws, r.path <+: p ∨ p <+: r.path → f r = g r) (n : Node κ α) :
    (n.overwritten (ws.filter f)).getChild p = (n.overwritten (ws.filter g)).getChild p := by
  induction ws using List.reverseRecOn with
  | nil => rfl
  | append_singleton ws r ih =>
    have hprev := ih fun s hs => hfg s (List.mem_append_left _ hs)
    have hr := hfg r (List.mem_append_right _ (List.mem_singleton_self r))
    have hconcat : ∀ f : WriteRecord κ α → Bool, n.overwritten ((ws ++ [r]).filter f) =
        if f r then (n.overwritten (ws.filter f)).updateChild r.path r.overwrite
        else n.overwritten (ws.filter f) := by
      intro f
      cases hf : f r <;> simp [List.filter_append, hf, Node.overwritten_concat]
    rw [hconcat f, hconcat g]
    -- the filters may differ about a write that does not show at the path
    by_cases hover : r.path <+: p ∨ p <+: r.path
    · rw [hr hover]
      split
      · exact Node.getChild_updateChild_congr hprev _ _
      · exact hprev
    · rw [not_or] at hover
      have hsame : ∀ n : Node κ α, (n.updateChild r.path r.overwrite).getChild p = n.getChild p :=
        Node.getChild_updateChild_of_disjoint hover.1 hover.2 r.overwrite
      split <;> split <;> simp only [hsame, hprev]

/-- Where the merge is empty none of the writes overlaps. -/
theorem not_overlap_of_isEmpty {ws : List (WriteRecord κ α)} {p : List κ}
    (h : ((emptyWrite.addWrites ws).childCompoundWriteAtPath p).isEmpty = true) :
    ∀ r ∈ ws, ¬ (r.path <+: p ∨ p <+: r.path) := by
  rw [CompoundWrite.isEmpty_childCompoundWriteAtPath] at h
  induction ws using List.reverseRecOn with
  | nil => exact fun r hr => absurd hr List.not_mem_nil
  | append_singleton ws r ih =>
    rw [CompoundWrite.addWrites_append] at h
    obtain ⟨hsilent, hrp, hpr⟩ := (emptyWrite.addWrites ws).isWrite.of_silent_addWrite h
    intro s hs
    rcases List.mem_append.mp hs with hs | hs
    · exact ih hsilent s hs
    · rw [List.mem_singleton.mp hs]
      exact not_or.mpr ⟨hrp, hpr⟩

theorem overlaps_eq_true {p q : List κ} (h : p <+: q ∨ q <+: p) :
    (contains p q || contains q p) = true := by
  rcases h with h | h
  · rw [contains_iff.mpr h, Bool.true_or]
  · rw [contains_iff.mpr h, Bool.or_true]

/-- **With the hidden writes** the merge is made anew from what is pending, and is right whatever
has become of the one that is kept. -/
theorem calculateCompleteEventCacheExcluding_hidden (t : WriteTree κ α) {n : Node κ α}
    (hn : ∀ r ∈ t.allWrites, n.Passes r.path) (treePath : List κ) (writeIdsToExclude : List ℤ) :
    t.calculateCompleteEventCacheExcluding treePath (some (n.getChild treePath)) writeIdsToExclude
        true =
      some ((n.overwritten (t.allWrites.filter fun r =>
        !writeIdsToExclude.contains r.writeId)).getChild treePath) := by
  rw [calculateCompleteEventCacheExcluding]
  simp only [Bool.not_true, Bool.false_and, if_neg Bool.false_ne_true, Option.getD_some]
  rw [applyToNode_layerTreeFromWrites fun r hr _ => hn r hr]
  congr 1
  refine getChild_overwritten_filter ?_ n
  intro r hr hover
  rw [overlaps_eq_true hover, Bool.or_true, Bool.true_and, Bool.and_true]

/-- **The event cache without some of the writes**: the other ones, one after the other. -/
theorem Layered.calculateCompleteEventCacheExcluding {t : WriteTree κ α} (h : t.Layered)
    {n : Node κ α} (hn : ∀ r ∈ t.allWrites, n.Passes r.path) (treePath : List κ)
    (writeIdsToExclude : List ℤ) (includeHiddenWrites : Bool) :
    t.calculateCompleteEventCacheExcluding treePath (some (n.getChild treePath)) writeIdsToExclude
        includeHiddenWrites =
      some ((n.overwritten (t.allWrites.filter fun r =>
        !writeIdsToExclude.contains r.writeId)).getChild treePath) := by
  rw [WriteTree.calculateCompleteEventCacheExcluding]
  dsimp only
  split
  · next hempty =>
    -- nothing that is visible overlaps, whether it is excluded or not
    rw [h.visibleWrites_eq, layerTreeFromWrites_root, Bool.and_eq_true] at hempty
    have hno := not_overlap_of_isEmpty hempty.2
    rw [getChild_overwritten_filter (g := fun _ => false)
      (fun r hr hover => absurd hover (hno r hr)), List.filter_false]
    rfl
  · split
    · next hnone => simp at hnone
    · rw [Option.getD_some, applyToNode_layerTreeFromWrites fun r hr _ => hn r hr]
      congr 1
      refine getChild_overwritten_filter ?_ n
      intro r hr hover
      rw [h.visible r hr, overlaps_eq_true hover, Bool.true_or, Bool.true_and, Bool.and_true]

end WriteTree

end FirebaseDatabase
