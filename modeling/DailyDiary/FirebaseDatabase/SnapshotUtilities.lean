/-
`FSnapshotUtilities nodeFrom:`: the node of a JSON value.

The value is a `PathTree`. Its node forgets the order of the children and the children
without content, and nothing else that can be read: reading and writing along paths commute
with it (`getChild_nodeFrom`, `nodeFrom_set`). A value that is written has to have content or
be nothing at all, for an empty dictionary is something to a path tree and nothing to the
database.

Priorities, arrays, wrapped leaves (`.value`) and the validation of keys are left out.
-/
import DailyDiary.FirebaseDatabase.Node

set_option autoImplicit false

namespace FirebaseDatabase

variable {κ α : Type} [LinearOrder κ]

mutual

/-- `nodeFrom:` of something that is there. -/
def nodeFromValue : PathTree.Node κ α → Node κ α
  | .leaf value => .leaf value
  | .dict cs => nodeFromChildren cs

/-- The children, without the empty ones. -/
def nodeFromChildren : List (κ × PathTree.Node κ α) → Node κ α
  | [] => .empty
  | (key, value) :: cs => (nodeFromChildren cs).updateImmediateChild key (nodeFromValue value)

end

/-- `nodeFrom:` -/
def nodeFrom : Option (PathTree.Node κ α) → Node κ α
  | none => .empty
  | some value => nodeFromValue value

variable {k : κ} {p : List κ} {t v : Option (PathTree.Node κ α)}

@[simp] theorem nodeFrom_none : nodeFrom (none : Option (PathTree.Node κ α)) = Node.empty := rfl

theorem leafValue_nodeFromChildren (cs : List (κ × PathTree.Node κ α)) :
    (nodeFromChildren cs).leafValue = none := by
  induction cs with
  | nil => rfl
  | cons c cs ih =>
    rw [nodeFromChildren, Node.leafValue_updateImmediateChild, ih, ite_self]

theorem getImmediateChild_nodeFromChildren (cs : List (κ × PathTree.Node κ α)) (k : κ) :
    (nodeFromChildren cs).getImmediateChild k = nodeFrom (cs.lookup k) := by
  induction cs with
  | nil => rfl
  | cons c cs ih =>
    obtain ⟨j, value⟩ := c
    rw [nodeFromChildren]
    by_cases hkj : k = j
    · subst hkj
      rw [Node.getImmediateChild_updateImmediateChild_self, List.lookup_cons_self]
      rfl
    · rw [Node.getImmediateChild_updateImmediateChild_of_ne hkj, ih,
        SortedDictionary.lookup_cons_of_ne hkj]

theorem leafValue_nodeFrom_leaf (a : α) :
    (nodeFrom (some (.leaf a)) : Node κ α).leafValue = some a := rfl

/-- Only a leaf becomes a leaf. -/
theorem leafValue_nodeFrom_of_ne (h : ∀ a, t ≠ some (.leaf a)) : (nodeFrom t).leafValue = none := by
  rcases t with _ | a | cs
  · rfl
  · exact absurd rfl (h a)
  · exact leafValue_nodeFromChildren cs

theorem getImmediateChild_nodeFrom (k : κ) (t : Option (PathTree.Node κ α)) :
    (nodeFrom t).getImmediateChild k = nodeFrom (PathTree.child k t) := by
  rcases t with _ | a | cs
  · rfl
  · rfl
  · exact getImmediateChild_nodeFromChildren cs k

/-- **Reading commutes with making nodes.** -/
theorem getChild_nodeFrom (p : List κ) (t : Option (PathTree.Node κ α)) :
    (nodeFrom t).getChild p = nodeFrom (PathTree.get p t) := by
  induction p generalizing t with
  | nil => rfl
  | cons k p ih => rw [Node.getChild_cons, getImmediateChild_nodeFrom, ih, PathTree.get_cons]

/-- Nothing, or something with content. -/
def Full (v : Option (PathTree.Node κ α)) : Prop :=
  v = none ∨ (nodeFrom v).isEmpty = false

theorem getImmediateChild_nodeFrom_setChild (k j : κ) (c t : Option (PathTree.Node κ α)) :
    (nodeFrom (PathTree.setChild k c t)).getImmediateChild j =
      ((nodeFrom t).updateImmediateChild k (nodeFrom c)).getImmediateChild j := by
  rw [getImmediateChild_nodeFrom]
  by_cases hjk : j = k
  · subst hjk
    rw [PathTree.child_setChild_self, Node.getImmediateChild_updateImmediateChild_self]
  · rw [PathTree.child_setChild_of_ne hjk, Node.getImmediateChild_updateImmediateChild_of_ne hjk,
      getImmediateChild_nodeFrom]

theorem leafValue_nodeFrom_ofChildren (cs : List (κ × PathTree.Node κ α)) :
    (nodeFrom (PathTree.ofChildren cs)).leafValue = none := by
  cases cs with
  | nil => rfl
  | cons c cs => exact leafValue_nodeFromChildren (c :: cs)

/-- One level of a write. Only a leaf tells content from its absence. -/
theorem nodeFrom_setChild {c : Option (PathTree.Node κ α)} (hc : ∀ a, t = some (.leaf a) → Full c)
    (k : κ) : nodeFrom (PathTree.setChild k c t) =
      (nodeFrom t).updateImmediateChild k (nodeFrom c) := by
  refine Node.ext_children ?_ fun j => getImmediateChild_nodeFrom_setChild k j c t
  rw [Node.leafValue_updateImmediateChild]
  rcases t with _ | a | cs
  · rw [PathTree.setChild, leafValue_nodeFrom_ofChildren, nodeFrom_none, Node.leafValue_empty,
      ite_self]
    simp
  · rcases hc a rfl with rfl | hfull
    · rw [nodeFrom_none, Node.isEmpty_empty, if_pos rfl, PathTree.setChild]
    · cases c with
      | none => cases hfull
      | some value =>
        rw [hfull, if_neg Bool.false_ne_true]
        exact leafValue_nodeFrom_ofChildren (PathTree.putChild k (some value) [])
  · have hcs : (nodeFrom (some (.dict cs)) : Node κ α).leafValue = none :=
      leafValue_nodeFromChildren cs
    rw [PathTree.setChild, leafValue_nodeFrom_ofChildren, hcs, ite_self]
    simp

theorem isEmpty_updateChild_empty (p : List κ) (v : Node κ α) :
    ((Node.empty : Node κ α).updateChild p v).isEmpty = v.isEmpty := by
  cases hv : v.isEmpty with
  | true => rw [Node.isEmpty_iff.mp hv, Node.updateChild_empty, Node.isEmpty_empty]
  | false =>
    rw [← Bool.not_eq_true]
    intro hempty
    have hself := Node.getChild_updateChild_append p [] v .empty
    rw [Node.isEmpty_iff.mp hempty, Node.getChild_empty, Node.getChild_nil] at hself
    rw [← hself] at hv
    cases hv

/-- **Writing commutes with making nodes.** -/
theorem nodeFrom_set (hv : Full v) (p : List κ) (t : Option (PathTree.Node κ α)) :
    nodeFrom (PathTree.set p v t) = (nodeFrom t).updateChild p (nodeFrom v) := by
  induction p generalizing t with
  | nil => rfl
  | cons k p ih =>
    rw [Node.updateChild_cons, getImmediateChild_nodeFrom, ← ih, PathTree.set]
    refine nodeFrom_setChild ?_ k
    rintro a rfl
    -- below a leaf there is nothing yet
    rcases hv with rfl | hfull
    · exact Or.inl (PathTree.set_none p)
    · refine Or.inr ?_
      rw [PathTree.child_leaf, ih, nodeFrom_none, isEmpty_updateChild_empty, hfull]

/-- Where the value has no leaf above a path, its node has none on the way to it. -/
theorem passes_nodeFrom (h : ∀ q a, PathTree.get q t = some (.leaf a) → p.length ≤ q.length) :
    (nodeFrom t).Passes p := by
  induction p generalizing t with
  | nil => trivial
  | cons k p ih =>
    refine ⟨leafValue_nodeFrom_of_ne ?_, ?_⟩
    · rintro a rfl
      have hlen := h [] a rfl
      simp at hlen
    · rw [getImmediateChild_nodeFrom]
      refine ih ?_
      intro q a hq
      exact Nat.le_of_succ_le_succ (h (k :: q) a hq)

end FirebaseDatabase
