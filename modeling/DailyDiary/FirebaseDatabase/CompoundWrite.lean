/-
`FCompoundWrite`: several writes to a node, merged so that each place is written once.

A write below a value is merged into the value, a write above others replaces them. What
the two operations that change a compound write do to its tree is said once, level by level
(`addWrite_cons`, `removeWriteAtPath_cons`), and the laws are inductions on the path that
use nothing else.

`applyToNode_addWrite` is what merging is for: applied to a node the compound write does
what its writes do one after the other. It needs that no leaf of the node lies on the way
to a written place: a write below a leaf that is taken back by a second one is nothing once
the two are merged, and leaves no leaf when they are not.
-/
import DailyDiary.FirebaseDatabase.ImmutableTree
import DailyDiary.FirebaseDatabase.Node

set_option autoImplicit false

namespace FirebaseDatabase

variable {κ α : Type} [LinearOrder κ]

open ImmutableTree

/-! ## Merging -/

/-- `relativePathFrom:to:`. The source raises when the one does not lead to the other, which
no call here does. -/
def relativePathFrom (outer inner : List κ) : List κ :=
  inner.drop outer.length

/-- `addWrite:atPath:` on the tree: the write is merged into the first value on the way, or
takes the place of everything at its path. -/
def ImmutableTree.addWrite (writeTree : ImmutableTree κ (Node κ α)) (node : Node κ α)
    (path : List κ) : ImmutableTree κ (Node κ α) :=
  if path.isEmpty then ofValue node
  else
    match writeTree.findRootMostValueAndPath path with
    | some (rootMostPath, rootMostValue) =>
      let relativePath := relativePathFrom rootMostPath path
      writeTree.setValue (rootMostValue.updateChild relativePath node) rootMostPath
    | none => writeTree.setTree (ofValue node) path

@[simp] theorem ImmutableTree.addWrite_nil (t : ImmutableTree κ (Node κ α)) (v : Node κ α) :
    t.addWrite v [] = ofValue v := rfl

theorem ImmutableTree.addWrite_cons_of_value (m v : Node κ α) (k : κ) (p : List κ) :
    (ofValue m).addWrite v (k :: p) = ofValue (m.updateChild (k :: p) v) := rfl

theorem isEmpty_ofValue (v : Node κ α) : (ofValue v : ImmutableTree κ (Node κ α)).isEmpty = false :=
  rfl

namespace ImmutableTree

variable {t t' : ImmutableTree κ (Node κ α)} {v m : Node κ α} {k j : κ} {p q : List κ}

theorem addWrite_of_none (h : t.findRootMostValueAndPath p = none) (v : Node κ α) :
    t.addWrite v p = t.setTree (ofValue v) p := by
  cases p with
  | nil => rfl
  | cons k p => rw [addWrite, if_neg (by simp), h]

theorem IsWrite.addWrite_of_some (ht : t.IsWrite) {r : List κ × Node κ α}
    (h : t.findRootMostValueAndPath p = some r) (v : Node κ α) :
    t.addWrite v p = t.setValue (r.2.updateChild (relativePathFrom r.1 p) v) r.1 := by
  cases p with
  | nil =>
    cases ht with
    | value w =>
      obtain rfl := Option.some.inj h
      rfl
    | children => cases h
  | cons k p => rw [addWrite, if_neg (by simp), h]

/-- Without a value of its own the tree hands a write on to one subtree. -/
theorem IsWrite.addWrite_cons (h : t.IsWrite) (hv : t.value = none) (v : Node κ α) (k : κ)
    (p : List κ) : t.addWrite v (k :: p) = t.putChild k ((t.child k).addWrite v p) := by
  cases hfind : (t.child k).findRootMostValueAndPath p with
  | none =>
    rw [addWrite_of_none hfind, addWrite_of_none, setTree_cons]
    rw [findRootMostValueAndPath_cons hv, hfind]
    rfl
  | some r =>
    have hfind' : t.findRootMostValueAndPath (k :: p) = some (k :: r.1, r.2) := by
      rw [findRootMostValueAndPath_cons hv, hfind]
      rfl
    rw [(h.child k).addWrite_of_some hfind, h.addWrite_of_some hfind', setValue_cons]
    rfl

theorem IsWrite.addWrite (h : t.IsWrite) (v : Node κ α) (p : List κ) : (t.addWrite v p).IsWrite := by
  induction p generalizing t with
  | nil => exact .value v
  | cons k p ih =>
    cases hv : t.value with
    | none =>
      rw [h.addWrite_cons hv]
      exact h.putChild hv (ih (h.child k)) k
    | some m =>
      rw [h.eq_ofValue hv, addWrite_cons_of_value]
      exact .value _

/-- `removeWriteAtPath:` on the tree. A value on the way hides what was written below it, and
stays. -/
def removeWriteAtPath (writeTree : ImmutableTree κ (Node κ α)) (path : List κ) :
    ImmutableTree κ (Node κ α) :=
  if path.isEmpty then empty else writeTree.setTree empty path

@[simp] theorem removeWriteAtPath_nil (t : ImmutableTree κ (Node κ α)) :
    t.removeWriteAtPath [] = empty := rfl

theorem removeWriteAtPath_cons (t : ImmutableTree κ (Node κ α)) (k : κ) (p : List κ) :
    t.removeWriteAtPath (k :: p) = t.putChild k ((t.child k).removeWriteAtPath p) := by
  have hsame : ∀ t : ImmutableTree κ (Node κ α), t.removeWriteAtPath p = t.setTree empty p := by
    intro t
    cases p <;> rfl
  rw [hsame, removeWriteAtPath, if_neg (by simp), setTree_cons]

theorem removeWriteAtPath_empty (p : List κ) :
    (empty : ImmutableTree κ (Node κ α)).removeWriteAtPath p = empty := by
  induction p with
  | nil => rfl
  | cons k p ih =>
    rw [removeWriteAtPath_cons, show (empty : ImmutableTree κ (Node κ α)).child k = empty from rfl,
      ih]
    rfl

theorem removeWriteAtPath_ofValue (m : Node κ α) (k : κ) (p : List κ) :
    (ofValue m).removeWriteAtPath (k :: p) = ofValue m := by
  rw [removeWriteAtPath_cons, show (ofValue m).child k = empty from rfl, removeWriteAtPath_empty]
  rfl

theorem IsWrite.removeWriteAtPath (h : t.IsWrite) (p : List κ) :
    (t.removeWriteAtPath p).IsWrite := by
  induction p generalizing t with
  | nil => exact .empty
  | cons k p ih =>
    cases hv : t.value with
    | none =>
      rw [removeWriteAtPath_cons]
      exact h.putChild hv (ih (h.child k)) k
    | some m =>
      rw [h.eq_ofValue hv, removeWriteAtPath_ofValue]
      exact .value m

/-! ## Where there is nothing on the way -/

/-- No value of the tree lies on the way to the path; one at its end may. -/
def Passes : ImmutableTree κ (Node κ α) → List κ → Prop
  | _, [] => True
  | t, k :: p => t.value = none ∧ (t.child k).Passes p

theorem passes_empty (p : List κ) : (empty : ImmutableTree κ (Node κ α)).Passes p := by
  induction p with
  | nil => trivial
  | cons k p ih => exact ⟨rfl, ih⟩

/-- A write that is not on the way leaves the way free. -/
theorem IsWrite.passes_addWrite (ht : t.IsWrite) (h : t.Passes p) (hqp : ¬ (q <+: p ∧ q ≠ p))
    (v : Node κ α) : (t.addWrite v q).Passes p := by
  induction p generalizing t q with
  | nil => trivial
  | cons k p ih =>
    cases q with
    | nil => exact absurd ⟨List.nil_prefix, by simp⟩ hqp
    | cons j q =>
      -- the write goes into one subtree, which is on the way or not
      rw [ht.addWrite_cons h.1]
      refine ⟨h.1, ?_⟩
      by_cases hjk : j = k
      · subst hjk
        rw [ht.child_putChild_self h.1]
        exact ih (ht.child j) h.2 fun hq => hqp ⟨by simpa using hq.1, by simpa using hq.2⟩
      · rw [child_putChild_of_ne (Ne.symm hjk)]
        exact h.2

/-- A write below a place is removed with the place. -/
theorem IsWrite.removeWriteAtPath_addWrite_append (ht : t.IsWrite) (h : t.Passes p) (q : List κ)
    (v : Node κ α) : (t.addWrite v (p ++ q)).removeWriteAtPath p = t.removeWriteAtPath p := by
  induction p generalizing t with
  | nil => rfl
  | cons k p ih =>
    have hchild := ht.child k
    rw [List.cons_append, ht.addWrite_cons h.1, removeWriteAtPath_cons, removeWriteAtPath_cons,
      ht.child_putChild_self h.1, ih hchild h.2,
      ht.putChild_putChild h.1 (hchild.addWrite v _) (hchild.removeWriteAtPath p)]

/-- A write elsewhere and a removal do not meet. -/
theorem IsWrite.removeWriteAtPath_addWrite (ht : t.IsWrite) (h : t.Passes p) (hpq : ¬ p <+: q)
    (hqp : ¬ q <+: p) (v : Node κ α) :
    (t.addWrite v q).removeWriteAtPath p = (t.removeWriteAtPath p).addWrite v q := by
  induction p generalizing t q with
  | nil => exact absurd List.nil_prefix hpq
  | cons k p ih =>
    cases q with
    | nil => exact absurd List.nil_prefix hqp
    | cons j q =>
      -- the two go on in the same subtree, or part here
      have hk := (ht.child k).removeWriteAtPath p
      have hj := (ht.child j).addWrite v q
      rw [ht.addWrite_cons h.1, removeWriteAtPath_cons, removeWriteAtPath_cons,
        (ht.putChild h.1 hk k).addWrite_cons h.1]
      by_cases hjk : j = k
      · subst hjk
        rw [ht.child_putChild_self h.1, ht.child_putChild_self h.1,
          ih (ht.child j) h.2 (by simpa using hpq) (by simpa using hqp),
          ht.putChild_putChild h.1 hj (hk.addWrite v q),
          ht.putChild_putChild h.1 hk (hk.addWrite v q)]
      · rw [child_putChild_of_ne hjk, child_putChild_of_ne (Ne.symm hjk),
          ht.putChild_comm h.1 hj hk (Ne.symm hjk)]

/-- A write above a place replaces whatever is written there. -/
theorem IsWrite.addWrite_removeWriteAtPath (ht : t.IsWrite) (h : t.Passes (q ++ p)) (v : Node κ α) :
    (t.removeWriteAtPath (q ++ p)).addWrite v q = t.addWrite v q := by
  induction q generalizing t with
  | nil => rfl
  | cons k q ih =>
    have hchild := (ht.child k).removeWriteAtPath (q ++ p)
    have hadd := (ht.child k).addWrite v q
    rw [List.cons_append, removeWriteAtPath_cons, (ht.putChild h.1 hchild k).addWrite_cons h.1,
      ht.child_putChild_self h.1, ih (ht.child k) h.2, ht.addWrite_cons h.1,
      ht.putChild_putChild h.1 hchild hadd]

/-! ## Reading -/

/-- `completeNodeAtPath:` -/
def completeNodeAtPath (writeTree : ImmutableTree κ (Node κ α)) (path : List κ) :
    Option (Node κ α) :=
  match writeTree.findRootMostValueAndPath path with
  | some (rootMostPath, rootMostValue) =>
    some (rootMostValue.getChild (relativePathFrom rootMostPath path))
  | none => none

theorem completeNodeAtPath_of_value (h : t.value = some m) (p : List κ) :
    t.completeNodeAtPath p = some (m.getChild p) := by
  rw [completeNodeAtPath, findRootMostValueAndPath_of_value h]
  rfl

theorem completeNodeAtPath_nil (h : t.value = none) : t.completeNodeAtPath [] = none := by
  rw [completeNodeAtPath, findRootMostValueAndPath_nil h]

theorem completeNodeAtPath_cons (h : t.value = none) (k : κ) (p : List κ) :
    t.completeNodeAtPath (k :: p) = (t.child k).completeNodeAtPath p := by
  rw [completeNodeAtPath, completeNodeAtPath, findRootMostValueAndPath_cons h]
  cases (t.child k).findRootMostValueAndPath p with
  | none => rfl
  | some r => rfl

mutual

/-- `applySubtreeWrite:atPath:toNode:` -/
def applySubtreeWrite : ImmutableTree κ (Node κ α) → List κ → Node κ α → Node κ α
  | ⟨some value, _⟩, relativePath, node => node.updateChild relativePath value
  | ⟨none, cs⟩, relativePath, node => applyChildren cs relativePath node

/-- The enumeration of the children. -/
def applyChildren : List (κ × ImmutableTree κ (Node κ α)) → List κ → Node κ α → Node κ α
  | [], _, node => node
  | (childKey, childTree) :: cs, relativePath, node =>
    applyChildren cs relativePath (childTree.applySubtreeWrite (relativePath ++ [childKey]) node)

end

mutual

/-- Below a part of its path a subtree write is seen as one from there. -/
theorem getChild_applySubtreeWrite : ∀ (t : ImmutableTree κ (Node κ α)) (p r : List κ)
    (n : Node κ α), (t.applySubtreeWrite (p ++ r) n).getChild p =
      t.applySubtreeWrite r (n.getChild p)
  | ⟨some value, _⟩, p, r, n => Node.getChild_append_updateChild p r value n
  | ⟨none, cs⟩, p, r, n => getChild_applyChildren cs p r n

theorem getChild_applyChildren : ∀ (cs : List (κ × ImmutableTree κ (Node κ α))) (p r : List κ)
    (n : Node κ α), (applyChildren cs (p ++ r) n).getChild p = applyChildren cs r (n.getChild p)
  | [], _, _, _ => rfl
  | (k, t) :: cs, p, r, n => by
    rw [applyChildren, applyChildren, getChild_applyChildren cs, List.append_assoc,
      getChild_applySubtreeWrite t]

end

mutual

/-- It changes no other child. -/
theorem getImmediateChild_applySubtreeWrite_of_ne : ∀ (t : ImmutableTree κ (Node κ α))
    {k j : κ} (_ : j ≠ k) (r : List κ) (n : Node κ α),
    (t.applySubtreeWrite (k :: r) n).getImmediateChild j = n.getImmediateChild j
  | ⟨some value, _⟩, _, _, h, r, n => by
    rw [applySubtreeWrite, Node.updateChild_cons,
      Node.getImmediateChild_updateImmediateChild_of_ne h]
  | ⟨none, cs⟩, _, _, h, r, n => getImmediateChild_applyChildren_of_ne cs h r n

theorem getImmediateChild_applyChildren_of_ne : ∀ (cs : List (κ × ImmutableTree κ (Node κ α)))
    {k j : κ} (_ : j ≠ k) (r : List κ) (n : Node κ α),
    (applyChildren cs (k :: r) n).getImmediateChild j = n.getImmediateChild j
  | [], _, _, _, _, _ => rfl
  | (i, t) :: cs, _, _, h, r, n => by
    rw [applyChildren, getImmediateChild_applyChildren_of_ne cs h, List.cons_append,
      getImmediateChild_applySubtreeWrite_of_ne t h]

end

mutual

/-- It turns no children node into a leaf. -/
theorem leafValue_applySubtreeWrite : ∀ (t : ImmutableTree κ (Node κ α)) (k : κ) (r : List κ)
    {n : Node κ α} (_ : n.leafValue = none), (t.applySubtreeWrite (k :: r) n).leafValue = none
  | ⟨some value, _⟩, k, r, n, h => by
    rw [applySubtreeWrite, Node.updateChild_cons, Node.leafValue_updateImmediateChild, h, ite_self]
  | ⟨none, cs⟩, k, r, n, h => leafValue_applyChildren cs (k :: r) h

theorem leafValue_applyChildren : ∀ (cs : List (κ × ImmutableTree κ (Node κ α))) (p : List κ)
    {n : Node κ α} (_ : n.leafValue = none), (applyChildren cs p n).leafValue = none
  | [], _, _, h => h
  | (i, t) :: cs, [], _, h => leafValue_applyChildren cs [] (leafValue_applySubtreeWrite t i [] h)
  | (i, t) :: cs, k :: p, _, h =>
    leafValue_applyChildren cs (k :: p) (leafValue_applySubtreeWrite t k (p ++ [i]) h)

end

theorem applySubtreeWrite_empty (n : Node κ α) :
    (empty : ImmutableTree κ (Node κ α)).applySubtreeWrite [] n = n := rfl

private theorem getImmediateChild_applyChildren {cs : List (κ × ImmutableTree κ (Node κ α))}
    (h : SortedDictionary.Sorted cs) (k : κ) (n : Node κ α) :
    (applyChildren cs [] n).getImmediateChild k =
      ((cs.lookup k).getD empty).applySubtreeWrite [] (n.getImmediateChild k) := by
  induction cs generalizing n with
  | nil => rfl
  | cons c cs ih =>
    obtain ⟨j, t⟩ := c
    rw [applyChildren, List.nil_append, ih h.tail]
    by_cases hkj : k = j
    · subst hkj
      have hself := getChild_applySubtreeWrite t [k] [] n
      rw [List.append_nil] at hself
      rw [SortedDictionary.lookup_eq_none_of_lt h.head_lt, List.lookup_cons_self]
      simpa [Node.getChild_cons, applySubtreeWrite_empty] using hself
    · rw [SortedDictionary.lookup_cons_of_ne hkj, getImmediateChild_applySubtreeWrite_of_ne t hkj]

/-- Without a value of its own the tree writes to each child what is in its subtree. -/
theorem IsWrite.getImmediateChild_applySubtreeWrite (ht : t.IsWrite) (hv : t.value = none) (k : κ)
    (n : Node κ α) : (t.applySubtreeWrite [] n).getImmediateChild k =
      (t.child k).applySubtreeWrite [] (n.getImmediateChild k) := by
  cases ht with
  | value v => cases hv
  | children hsorted hne hcs => exact getImmediateChild_applyChildren hsorted k n

theorem leafValue_applySubtreeWrite_nil (hv : t.value = none) {n : Node κ α}
    (hn : n.leafValue = none) : (t.applySubtreeWrite [] n).leafValue = none := by
  obtain ⟨w, cs⟩ := t
  obtain rfl : w = none := hv
  exact leafValue_applyChildren cs [] hn

/-- **Merging a write is writing it last**, where no leaf of the node lies on the way. -/
theorem IsWrite.applySubtreeWrite_addWrite (ht : t.IsWrite) {n : Node κ α} (hn : n.Passes p)
    (v : Node κ α) :
    (t.addWrite v p).applySubtreeWrite [] n = (t.applySubtreeWrite [] n).updateChild p v := by
  induction p generalizing t n with
  | nil => rfl
  | cons k p ih =>
    cases hv : t.value with
    -- a value takes the write in; otherwise the nodes are compared child by child
    | some m =>
      obtain rfl := ht.eq_ofValue hv
      rfl
    | none =>
      have hput := ht.putChild hv ((ht.child k).addWrite v p) k
      rw [ht.addWrite_cons hv, Node.updateChild_cons]
      refine Node.ext_children ?_ ?_
      · rw [leafValue_applySubtreeWrite_nil (by exact hv) hn.1, Node.leafValue_updateImmediateChild,
          leafValue_applySubtreeWrite_nil hv hn.1, ite_self]
      · intro j
        rw [hput.getImmediateChild_applySubtreeWrite hv]
        by_cases hj : j = k
        · subst hj
          rw [ht.child_putChild_self hv, ih (ht.child j) hn.2,
            Node.getImmediateChild_updateImmediateChild_self,
            ht.getImmediateChild_applySubtreeWrite hv]
        · rw [child_putChild_of_ne hj, Node.getImmediateChild_updateImmediateChild_of_ne hj,
            ht.getImmediateChild_applySubtreeWrite hv]

/-- **What is read at a path** of a node with the writes applied: the value on the way, read
from there, or what the subtree at the path makes of the node there. -/
theorem IsWrite.getChild_applySubtreeWrite_nil (ht : t.IsWrite) (p : List κ) (n : Node κ α) :
    (t.applySubtreeWrite [] n).getChild p =
      match t.completeNodeAtPath p with
      | some m => m
      | none => (t.subtreeAtPath p).applySubtreeWrite [] (n.getChild p) := by
  induction p generalizing t n with
  | nil =>
    cases hv : t.value with
    | some m =>
      obtain rfl := ht.eq_ofValue hv
      rfl
    | none =>
      rw [completeNodeAtPath_nil hv]
      rfl
  | cons k p ih =>
    cases hv : t.value with
    | some m =>
      rw [completeNodeAtPath_of_value hv, ht.eq_ofValue hv]
      rfl
    | none =>
      rw [Node.getChild_cons, ht.getImmediateChild_applySubtreeWrite hv, ih (ht.child k),
        completeNodeAtPath_cons hv, subtreeAtPath_cons, Node.getChild_cons]

/-- Nothing is written at the path, above it or below. -/
def Silent (t : ImmutableTree κ (Node κ α)) (p : List κ) : Prop :=
  t.completeNodeAtPath p = none ∧ t.subtreeAtPath p = empty

theorem silent_cons (h : t.value = none) (k : κ) (p : List κ) :
    t.Silent (k :: p) ↔ (t.child k).Silent p := by
  rw [Silent, Silent, completeNodeAtPath_cons h, subtreeAtPath_cons]

theorem IsWrite.isEmpty_addWrite (ht : t.IsWrite) (v : Node κ α) (p : List κ) :
    (t.addWrite v p).isEmpty = false := by
  cases hfind : t.findRootMostValueAndPath p with
  | none =>
    rw [addWrite_of_none hfind]
    exact isEmpty_setTree (isEmpty_ofValue v) t p
  | some r =>
    rw [ht.addWrite_of_some hfind]
    exact isEmpty_setValue t _ _

/-- What has been written shows where it overlaps, and nothing that was there is lost. -/
theorem IsWrite.of_silent_addWrite (ht : t.IsWrite) (h : (t.addWrite v q).Silent p) :
    t.Silent p ∧ ¬ q <+: p ∧ ¬ p <+: q := by
  induction p generalizing t q with
  | nil =>
    -- no tree with a write is empty
    have hempty := isEmpty_iff.mpr h.2
    rw [subtreeAtPath_nil, ht.isEmpty_addWrite] at hempty
    cases hempty
  | cons k p ih =>
    cases q with
    | nil => cases h.1
    | cons j q =>
      cases hv : t.value with
      | some m =>
        -- a value shows at every path
        rw [ht.eq_ofValue hv] at h
        cases h.1
      | none =>
        rw [ht.addWrite_cons hv, silent_cons (by exact hv)] at h
        rw [silent_cons hv]
        by_cases hjk : j = k
        · subst hjk
          rw [ht.child_putChild_self hv] at h
          obtain ⟨hsilent, hqp, hpq⟩ := ih (ht.child j) h
          exact ⟨hsilent, by simpa using hqp, by simpa using hpq⟩
        · rw [child_putChild_of_ne (Ne.symm hjk)] at h
          exact ⟨h, by simp [hjk], by simp [Ne.symm hjk]⟩

/-- What is shadowed is what was, and what the write covers. -/
theorem IsWrite.isSome_completeNodeAtPath_addWrite (ht : t.IsWrite) (v : Node κ α) (q p : List κ) :
    ((t.addWrite v q).completeNodeAtPath p).isSome = true ↔
      (t.completeNodeAtPath p).isSome = true ∨ q <+: p := by
  induction p generalizing t q with
  | nil =>
    cases q with
    | nil => simp [completeNodeAtPath_of_value (t := ofValue v) rfl]
    | cons j q =>
      cases hv : t.value with
      | some m =>
        obtain rfl := ht.eq_ofValue hv
        rw [addWrite_cons_of_value, completeNodeAtPath_of_value rfl, completeNodeAtPath_of_value rfl]
        simp
      | none =>
        rw [ht.addWrite_cons hv, completeNodeAtPath_nil (by exact hv), completeNodeAtPath_nil hv]
        simp
  | cons k p ih =>
    cases q with
    | nil => simp [completeNodeAtPath_of_value (t := ofValue v) rfl]
    | cons j q =>
      cases hv : t.value with
      | some m =>
        obtain rfl := ht.eq_ofValue hv
        rw [addWrite_cons_of_value, completeNodeAtPath_of_value rfl, completeNodeAtPath_of_value rfl]
        simp
      | none =>
        rw [ht.addWrite_cons hv, completeNodeAtPath_cons (by exact hv), completeNodeAtPath_cons hv]
        by_cases hjk : j = k
        · subst hjk
          rw [ht.child_putChild_self hv, ih (ht.child j)]
          simp
        · rw [child_putChild_of_ne (Ne.symm hjk)]
          simp [hjk]

end ImmutableTree

/-! ## Compound writes -/

/-- `FCompoundWrite` -/
structure CompoundWrite (κ α : Type) [LinearOrder κ] where
  writeTree : ImmutableTree κ (Node κ α)
  isWrite : writeTree.IsWrite

namespace CompoundWrite

variable {w : CompoundWrite κ α} {p : List κ}

def emptyWrite : CompoundWrite κ α :=
  ⟨empty, .empty⟩

/-- `[[FCompoundWrite alloc] initWithWriteTree:[[FImmutableTree alloc] initWithValue:node]]` -/
def ofNode (node : Node κ α) : CompoundWrite κ α :=
  ⟨ofValue node, .value node⟩

def isEmpty (w : CompoundWrite κ α) : Bool :=
  w.writeTree.isEmpty

/-- `addWrite:atPath:` -/
def addWrite (w : CompoundWrite κ α) (node : Node κ α) (path : List κ) : CompoundWrite κ α :=
  ⟨w.writeTree.addWrite node path, w.isWrite.addWrite node path⟩

/-- `removeWriteAtPath:` -/
def removeWriteAtPath (w : CompoundWrite κ α) (path : List κ) : CompoundWrite κ α :=
  ⟨w.writeTree.removeWriteAtPath path, w.isWrite.removeWriteAtPath path⟩

/-- `completeNodeAtPath:` -/
def completeNodeAtPath (w : CompoundWrite κ α) (path : List κ) : Option (Node κ α) :=
  w.writeTree.completeNodeAtPath path

/-- `hasCompleteWriteAtPath:` -/
def hasCompleteWriteAtPath (w : CompoundWrite κ α) (path : List κ) : Bool :=
  (w.completeNodeAtPath path).isSome

/-- `childCompoundWriteAtPath:` -/
def childCompoundWriteAtPath (w : CompoundWrite κ α) (path : List κ) : CompoundWrite κ α :=
  if path.isEmpty then w
  else
    match w.completeNodeAtPath path with
    | some shadowingNode => ofNode shadowingNode
    | none => ⟨w.writeTree.subtreeAtPath path, w.isWrite.subtreeAtPath path⟩

/-- `applyToNode:` -/
def applyToNode (w : CompoundWrite κ α) (node : Node κ α) : Node κ α :=
  w.writeTree.applySubtreeWrite [] node

theorem isEmpty_childCompoundWriteAtPath :
    (w.childCompoundWriteAtPath p).isEmpty = true ↔ w.writeTree.Silent p := by
  cases p with
  | nil =>
    rw [ImmutableTree.Silent, subtreeAtPath_nil, ← ImmutableTree.isEmpty_iff]
    constructor
    · intro h
      have hempty : w.writeTree = empty := ImmutableTree.isEmpty_iff.mp h
      rw [hempty]
      exact ⟨rfl, rfl⟩
    · exact fun h => h.2
  | cons k p =>
    rw [childCompoundWriteAtPath, if_neg (by simp), ImmutableTree.Silent,
      ← ImmutableTree.isEmpty_iff]
    cases hc : w.completeNodeAtPath (k :: p) with
    | some v =>
      rw [show w.writeTree.completeNodeAtPath (k :: p) = some v from hc]
      simp [isEmpty, ofNode, isEmpty_ofValue]
    | none =>
      rw [show w.writeTree.completeNodeAtPath (k :: p) = none from hc]
      simp [isEmpty]

theorem ext {w' : CompoundWrite κ α} (h : w.writeTree = w'.writeTree) : w = w' := by
  cases w
  cases w'
  simpa using h

@[simp] theorem applyToNode_emptyWrite (n : Node κ α) : emptyWrite.applyToNode n = n := rfl

@[simp] theorem applyToNode_ofNode (v n : Node κ α) : (ofNode v).applyToNode n = v := rfl

theorem applyToNode_of_isEmpty (h : w.isEmpty = true) (n : Node κ α) : w.applyToNode n = n := by
  have hempty : w = emptyWrite := ext (isEmpty_iff.mp h)
  rw [hempty, applyToNode_emptyWrite]

/-- **Merging a write is writing it last**, where no leaf of the node lies on the way. -/
theorem applyToNode_addWrite {n : Node κ α} (hn : n.Passes p) (w : CompoundWrite κ α)
    (v : Node κ α) : (w.addWrite v p).applyToNode n = (w.applyToNode n).updateChild p v :=
  w.isWrite.applySubtreeWrite_addWrite hn v

/-- A shadowing value is what is read. -/
theorem getChild_applyToNode_of_some {v : Node κ α} (h : w.completeNodeAtPath p = some v)
    (n : Node κ α) : (w.applyToNode n).getChild p = v := by
  have hget := w.isWrite.getChild_applySubtreeWrite_nil p n
  rw [show w.writeTree.completeNodeAtPath p = some v from h] at hget
  exact hget

/-- **Writing and descending commute.** What is written to a child is what the child compound
write does to it. -/
theorem applyToNode_childCompoundWriteAtPath (w : CompoundWrite κ α) (p : List κ) (n : Node κ α) :
    (w.childCompoundWriteAtPath p).applyToNode (n.getChild p) = (w.applyToNode n).getChild p := by
  cases p with
  | nil => rfl
  | cons k p =>
    rw [childCompoundWriteAtPath, if_neg (by simp)]
    cases hc : w.completeNodeAtPath (k :: p) with
    | some v => rw [applyToNode_ofNode, getChild_applyToNode_of_some hc]
    | none =>
      have hget := w.isWrite.getChild_applySubtreeWrite_nil (k :: p) n
      rw [show w.writeTree.completeNodeAtPath (k :: p) = none from hc] at hget
      exact hget.symm

end CompoundWrite

end FirebaseDatabase
