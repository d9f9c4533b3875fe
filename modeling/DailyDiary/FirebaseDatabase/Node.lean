/-
The immutable nodes of the database: `FLeafNode`, `FChildrenNode` and `FEmptyNode`.

The empty node is the children node without children, and no child of a node is empty. Both
is in the type (`Node`), so a node is determined by its values: `Node.ext_children`. A leaf
turns into a children node when it is given a child, and stays when it is given an empty
one (`leafValue_updateImmediateChild`), which is what the laws of `updateChild` depend on.

Priorities are left out: the nodes here have none.
-/
import DailyDiary.PathTree
import DailyDiary.SortedDictionary

set_option autoImplicit false

namespace FirebaseDatabase

open SortedDictionary

variable {κ α : Type}

/-- What a node holds. -/
inductive RawNode (κ α : Type) where
  | leaf (value : α)
  | children (cs : List (κ × RawNode κ α))

/-- `isEmpty` -/
def RawNode.isEmpty : RawNode κ α → Bool
  | .children [] => true
  | _ => false

variable [LinearOrder κ]

/-- The children are in the order of their keys, and none is empty. -/
inductive RawNode.WellFormed : RawNode κ α → Prop where
  | leaf (value : α) : WellFormed (.leaf value)
  | children {cs : List (κ × RawNode κ α)} (hsorted : Sorted cs)
      (hne : ∀ c ∈ cs, c.2.isEmpty = false) (hcs : ∀ c ∈ cs, WellFormed c.2) :
      WellFormed (.children cs)

/-- `id<FNode>` -/
structure Node (κ α : Type) [LinearOrder κ] where
  raw : RawNode κ α
  wf : raw.WellFormed

/-! ## Children -/

/-- `getImmediateChild:` -/
def RawNode.getImmediateChild (n : RawNode κ α) (childName : κ) : RawNode κ α :=
  match n with
  | .leaf _ => .children []
  | .children cs => (cs.lookup childName).getD (.children [])

/-- `updateImmediateChild:withNewChild:`. A leaf that is given a child starts from a node
without children. -/
def RawNode.updateImmediateChild (n : RawNode κ α) (childName : κ) (newChildNode : RawNode κ α) :
    RawNode κ α :=
  match n with
  | .leaf value =>
    if newChildNode.isEmpty then .leaf value else .children (insertKey childName newChildNode [])
  | .children cs =>
    if newChildNode.isEmpty then .children (removeKey childName cs)
    else .children (insertKey childName newChildNode cs)

theorem RawNode.WellFormed.empty : (RawNode.children [] : RawNode κ α).WellFormed :=
  .children sorted_nil (fun _ hc => absurd hc List.not_mem_nil) fun _ hc =>
    absurd hc List.not_mem_nil

theorem RawNode.WellFormed.getImmediateChild {n : RawNode κ α} (h : n.WellFormed) (k : κ) :
    (n.getImmediateChild k).WellFormed := by
  cases h with
  | leaf value => exact .empty
  | @children cs hsorted hne hcs =>
    rw [RawNode.getImmediateChild]
    cases hk : cs.lookup k with
    | none => exact .empty
    | some c => exact hcs (k, c) (hsorted.mem_iff.mpr hk)

theorem RawNode.WellFormed.insertKey {cs : List (κ × RawNode κ α)} {c : RawNode κ α}
    (h : (RawNode.children cs).WellFormed) (hc : c.WellFormed) (hfull : c.isEmpty = false) (k : κ) :
    (RawNode.children (insertKey k c cs)).WellFormed := by
  cases h with
  | children hsorted hne hcs =>
    refine .children (hsorted.insertKey k c) ?_ ?_
    · intro a ha
      rcases mem_insertKey ha with rfl | ha
      · exact hfull
      · exact hne a ha
    · intro a ha
      rcases mem_insertKey ha with rfl | ha
      · exact hc
      · exact hcs a ha

theorem RawNode.WellFormed.updateImmediateChild {n c : RawNode κ α} (h : n.WellFormed)
    (hc : c.WellFormed) (k : κ) : (n.updateImmediateChild k c).WellFormed := by
  cases h with
  | leaf value =>
    rw [RawNode.updateImmediateChild]
    split
    · exact .leaf value
    · next hfull => exact WellFormed.empty.insertKey hc (by simpa using hfull) k
  | @children cs hsorted hne hcs =>
    rw [RawNode.updateImmediateChild]
    split
    · exact .children (hsorted.removeKey k) (fun a ha => hne a (mem_of_mem_removeKey ha))
        fun a ha => hcs a (mem_of_mem_removeKey ha)
    · next hfull =>
      exact (WellFormed.children hsorted hne hcs).insertKey hc (by simpa using hfull) k

namespace Node

variable {n m v : Node κ α} {k j : κ}

/-- `[FEmptyNode emptyNode]` -/
def empty : Node κ α :=
  ⟨.children [], .empty⟩

/-- `[[FLeafNode alloc] initWithValue:]` -/
def leaf (value : α) : Node κ α :=
  ⟨.leaf value, .leaf value⟩

def isEmpty (n : Node κ α) : Bool :=
  n.raw.isEmpty

/-- The value of a leaf. -/
def leafValue (n : Node κ α) : Option α :=
  match n.raw with
  | .leaf value => some value
  | .children _ => none

def getImmediateChild (n : Node κ α) (childName : κ) : Node κ α :=
  ⟨n.raw.getImmediateChild childName, n.wf.getImmediateChild childName⟩

def updateImmediateChild (n : Node κ α) (childName : κ) (newChildNode : Node κ α) : Node κ α :=
  ⟨n.raw.updateImmediateChild childName newChildNode.raw,
    n.wf.updateImmediateChild newChildNode.wf childName⟩

/-- `getChild:`; a leaf has nothing below it. -/
def getChild : Node κ α → List κ → Node κ α
  | n, [] => n
  | n, front :: path =>
    if n.leafValue.isSome then empty else (n.getImmediateChild front).getChild path

/-- `updateChild:withNewChild:`; a leaf stays when nothing is put below it. -/
def updateChild : Node κ α → List κ → Node κ α → Node κ α
  | _, [], newChildNode => newChildNode
  | n, front :: path, newChildNode =>
    if n.leafValue.isSome then
      if newChildNode.isEmpty then n
      else n.updateImmediateChild front (empty.updateChild path newChildNode)
    else
      n.updateImmediateChild front ((n.getImmediateChild front).updateChild path newChildNode)

/-! ## One level -/

theorem ext (h : n.raw = m.raw) : n = m := by
  cases n
  cases m
  simpa using h

@[simp] theorem isEmpty_empty : (empty : Node κ α).isEmpty = true := rfl

@[simp] theorem leafValue_empty : (empty : Node κ α).leafValue = none := rfl

@[simp] theorem getImmediateChild_empty (k : κ) :
    (empty : Node κ α).getImmediateChild k = empty := rfl

theorem isEmpty_iff : n.isEmpty = true ↔ n = empty := by
  constructor
  · intro h
    obtain ⟨a | cs, hn⟩ := n
    · exact absurd h Bool.false_ne_true
    · cases cs with
      | nil => rfl
      | cons c cs => exact absurd h Bool.false_ne_true
  · rintro rfl
    rfl

theorem getImmediateChild_of_leaf (h : n.leafValue ≠ none) (k : κ) :
    n.getImmediateChild k = empty := by
  obtain ⟨a | cs, hn⟩ := n
  · rfl
  · exact absurd rfl h

/-- The child that is stored for a key, if there is one. -/
theorem lookup_eq {cs : List (κ × RawNode κ α)} (h : (RawNode.children cs).WellFormed) (k : κ) :
    cs.lookup k = if ((RawNode.children cs).getImmediateChild k).isEmpty then none
      else some ((RawNode.children cs).getImmediateChild k) := by
  cases h with
  | children hsorted hne hcs =>
    cases hk : cs.lookup k with
    | none => simp [RawNode.getImmediateChild, hk, RawNode.isEmpty]
    | some c => simp [RawNode.getImmediateChild, hk, hne (k, c) (hsorted.mem_iff.mpr hk)]

/-- A node is determined by its value and its children. -/
theorem ext_children (hvalue : n.leafValue = m.leafValue)
    (hchildren : ∀ k, n.getImmediateChild k = m.getImmediateChild k) : n = m := by
  obtain ⟨a | cs, hn⟩ := n <;> obtain ⟨b | cs', hm⟩ := m
  · obtain rfl : a = b := Option.some.inj hvalue
    rfl
  · cases hvalue
  · cases hvalue
  · have hlookup : ∀ k, cs.lookup k = cs'.lookup k := by
      intro k
      have hraw : (RawNode.children cs).getImmediateChild k =
          (RawNode.children cs').getImmediateChild k := congrArg raw (hchildren k)
      rw [lookup_eq hn, lookup_eq hm, hraw]
    cases hn with
    | children hsorted hne hcs =>
      cases hm with
      | children hsorted' hne' hcs' =>
        exact ext (congrArg RawNode.children (hsorted.ext hsorted' hlookup))

/-- What a new child does to the value: a leaf that is given one is none any more. -/
theorem leafValue_updateImmediateChild (k : κ) (c n : Node κ α) :
    (n.updateImmediateChild k c).leafValue = if c.isEmpty then n.leafValue else none := by
  obtain ⟨a | cs, hn⟩ := n <;> cases hc : c.isEmpty <;>
    simp [updateImmediateChild, leafValue, RawNode.updateImmediateChild,
      show c.raw.isEmpty = _ from hc]

@[simp] theorem getImmediateChild_updateImmediateChild_self (k : κ) (c n : Node κ α) :
    (n.updateImmediateChild k c).getImmediateChild k = c := by
  have hempty : c.raw.isEmpty = true → RawNode.children [] = c.raw :=
    fun hc => (congrArg raw (isEmpty_iff.mp hc)).symm
  refine ext ?_
  obtain ⟨a | cs, hn⟩ := n
  · simp only [getImmediateChild, updateImmediateChild, RawNode.updateImmediateChild]
    split
    · next hc => exact hempty hc
    · simp [RawNode.getImmediateChild]
  · cases hn with
    | children hsorted hne hcs =>
      simp only [getImmediateChild, updateImmediateChild, RawNode.updateImmediateChild]
      split
      · next hc =>
        rw [RawNode.getImmediateChild, hsorted.lookup_removeKey_self]
        exact hempty hc
      · simp [RawNode.getImmediateChild]

theorem getImmediateChild_updateImmediateChild_of_ne (h : j ≠ k) (c n : Node κ α) :
    (n.updateImmediateChild k c).getImmediateChild j = n.getImmediateChild j := by
  refine ext ?_
  obtain ⟨a | cs, hn⟩ := n
  · simp only [getImmediateChild, updateImmediateChild, RawNode.updateImmediateChild]
    split
    · rfl
    · simp [RawNode.getImmediateChild, lookup_insertKey_of_ne h]
  · simp only [getImmediateChild, updateImmediateChild, RawNode.updateImmediateChild]
    split
    · simp [RawNode.getImmediateChild, lookup_removeKey_of_ne h]
    · simp [RawNode.getImmediateChild, lookup_insertKey_of_ne h]

/-- Replacing a child by itself changes nothing. -/
theorem updateImmediateChild_getImmediateChild (k : κ) (n : Node κ α) :
    n.updateImmediateChild k (n.getImmediateChild k) = n := by
  refine ext_children ?_ ?_
  · rw [leafValue_updateImmediateChild]
    split
    · rfl
    · next hc =>
      by_contra hvalue
      refine hc (isEmpty_iff.mpr (getImmediateChild_of_leaf (fun hno => hvalue ?_) k))
      exact hno.symm
  · intro j
    by_cases hj : j = k
    · rw [hj, getImmediateChild_updateImmediateChild_self]
    · rw [getImmediateChild_updateImmediateChild_of_ne hj]

/-! ## Paths -/

@[simp] theorem getChild_nil (n : Node κ α) : n.getChild [] = n := rfl

@[simp] theorem updateChild_nil (v n : Node κ α) : n.updateChild [] v = v := rfl

theorem getChild_empty (p : List κ) : (empty : Node κ α).getChild p = empty := by
  induction p with
  | nil => rfl
  | cons k p ih => exact ih

/-- Leaves need no case of their own. -/
theorem getChild_cons (k : κ) (p : List κ) (n : Node κ α) :
    n.getChild (k :: p) = (n.getImmediateChild k).getChild p := by
  rw [getChild]
  split
  · next hvalue =>
    rw [getImmediateChild_of_leaf (Option.isSome_iff_ne_none.mp hvalue), getChild_empty]
  · rfl

theorem updateChild_empty (p : List κ) :
    (empty : Node κ α).updateChild p empty = empty := by
  induction p with
  | nil => rfl
  | cons k p ih =>
    rw [updateChild, if_neg (by simp), getImmediateChild_empty, ih]
    rfl

theorem updateChild_cons (k : κ) (p : List κ) (v n : Node κ α) :
    n.updateChild (k :: p) v =
      n.updateImmediateChild k ((n.getImmediateChild k).updateChild p v) := by
  rw [updateChild]
  split
  · next hvalue =>
    have hchild := getImmediateChild_of_leaf (Option.isSome_iff_ne_none.mp hvalue) k
    split
    · next hv =>
      obtain rfl := isEmpty_iff.mp hv
      rw [hchild, updateChild_empty, ← hchild, updateImmediateChild_getImmediateChild]
    · rw [hchild]
  · rfl

theorem getChild_append (p q : List κ) (n : Node κ α) :
    n.getChild (p ++ q) = (n.getChild p).getChild q := by
  induction p generalizing n with
  | nil => rfl
  | cons k p ih => rw [List.cons_append, getChild_cons, getChild_cons, ih]

/-- What is written is read back, also below. -/
theorem getChild_updateChild_append (p q : List κ) (v n : Node κ α) :
    (n.updateChild p v).getChild (p ++ q) = v.getChild q := by
  induction p generalizing n with
  | nil => rfl
  | cons k p ih =>
    rw [List.cons_append, getChild_cons, updateChild_cons,
      getImmediateChild_updateImmediateChild_self, ih]

/-- Above the written path the write is seen as a write. -/
theorem getChild_append_updateChild (p q : List κ) (v n : Node κ α) :
    (n.updateChild (p ++ q) v).getChild p = (n.getChild p).updateChild q v := by
  induction p generalizing n with
  | nil => rfl
  | cons k p ih =>
    rw [List.cons_append, getChild_cons, updateChild_cons,
      getImmediateChild_updateImmediateChild_self, ih, getChild_cons]

/-- Elsewhere nothing changes. -/
theorem getChild_updateChild_of_disjoint {p q : List κ} (hpq : ¬ p <+: q) (hqp : ¬ q <+: p)
    (v n : Node κ α) : (n.updateChild p v).getChild q = n.getChild q := by
  induction p generalizing q n with
  | nil => exact absurd List.nil_prefix hpq
  | cons k p ih =>
    cases q with
    | nil => exact absurd List.nil_prefix hqp
    | cons j q =>
      rw [getChild_cons, getChild_cons, updateChild_cons]
      by_cases hjk : j = k
      · subst hjk
        rw [getImmediateChild_updateImmediateChild_self]
        exact ih (by simpa using hpq) (by simpa using hqp) _
      · rw [getImmediateChild_updateImmediateChild_of_ne hjk]

/-- A write to two nodes with the same node at a path leaves them so. -/
theorem getChild_updateChild_congr {p : List κ} (h : n.getChild p = m.getChild p) (q : List κ)
    (v : Node κ α) : (n.updateChild q v).getChild p = (m.updateChild q v).getChild p := by
  by_cases hqp : q <+: p
  · obtain ⟨r, rfl⟩ := hqp
    rw [getChild_updateChild_append, getChild_updateChild_append]
  · by_cases hpq : p <+: q
    · obtain ⟨r, rfl⟩ := hpq
      rw [getChild_append_updateChild, getChild_append_updateChild, h]
    · rw [getChild_updateChild_of_disjoint hqp hpq, getChild_updateChild_of_disjoint hqp hpq, h]

/-! ## Leaves on the way -/

/-- No leaf of the node lies on the way to the path; one at its end may. -/
def Passes : Node κ α → List κ → Prop
  | _, [] => True
  | n, k :: p => n.leafValue = none ∧ (n.getImmediateChild k).Passes p

theorem passes_empty (p : List κ) : (empty : Node κ α).Passes p := by
  induction p with
  | nil => trivial
  | cons k p ih => exact ⟨rfl, ih⟩

theorem passes_append {p q : List κ} : n.Passes (p ++ q) ↔ n.Passes p ∧ (n.getChild p).Passes q := by
  induction p generalizing n with
  | nil => simp [Passes]
  | cons k p ih => rw [List.cons_append, Passes, Passes, ih, getChild_cons, and_assoc]

/-- Children of a node that is no leaf are replaced without trace. -/
theorem updateImmediateChild_updateImmediateChild (h : n.leafValue = none) (k : κ) (c c' : Node κ α) :
    (n.updateImmediateChild k c).updateImmediateChild k c' = n.updateImmediateChild k c' := by
  refine ext_children ?_ ?_
  · simp only [leafValue_updateImmediateChild, h, ite_self]
  · intro j
    by_cases hj : j = k
    · rw [hj, getImmediateChild_updateImmediateChild_self,
        getImmediateChild_updateImmediateChild_self]
    · simp only [getImmediateChild_updateImmediateChild_of_ne hj]

theorem updateImmediateChild_comm (h : j ≠ k) (c c' n : Node κ α) :
    (n.updateImmediateChild k c).updateImmediateChild j c' =
      (n.updateImmediateChild j c').updateImmediateChild k c := by
  refine ext_children ?_ ?_
  · simp only [leafValue_updateImmediateChild]
    split <;> split <;> rfl
  · intro i
    by_cases hij : i = j
    · subst hij
      simp [getImmediateChild_updateImmediateChild_of_ne h]
    · by_cases hik : i = k
      · subst hik
        simp [getImmediateChild_updateImmediateChild_of_ne hij]
      · simp [getImmediateChild_updateImmediateChild_of_ne hij,
          getImmediateChild_updateImmediateChild_of_ne hik]

/-- A write that a later one covers leaves no trace, unless it has taken the place of a
leaf. -/
theorem updateChild_updateChild_append {p : List κ} (h : n.Passes p) (q : List κ) (v w : Node κ α) :
    (n.updateChild (p ++ q) v).updateChild p w = n.updateChild p w := by
  induction p generalizing n with
  | nil => rfl
  | cons k p ih =>
    rw [List.cons_append, updateChild_cons, updateChild_cons, updateChild_cons,
      getImmediateChild_updateImmediateChild_self, ih h.2,
      updateImmediateChild_updateImmediateChild h.1]

/-- Writes to different places commute. -/
theorem updateChild_comm {p q : List κ} (hpq : ¬ p <+: q) (hqp : ¬ q <+: p) (h : n.Passes p)
    (v w : Node κ α) :
    (n.updateChild p v).updateChild q w = (n.updateChild q w).updateChild p v := by
  induction p generalizing q n with
  | nil => exact absurd List.nil_prefix hpq
  | cons k p ih =>
    cases q with
    | nil => exact absurd List.nil_prefix hqp
    | cons j q =>
      simp only [updateChild_cons]
      by_cases hjk : j = k
      · subst hjk
        simp only [getImmediateChild_updateImmediateChild_self,
          updateImmediateChild_updateImmediateChild h.1]
        rw [ih (by simpa using hpq) (by simpa using hqp) h.2]
      · rw [getImmediateChild_updateImmediateChild_of_ne hjk,
          getImmediateChild_updateImmediateChild_of_ne (Ne.symm hjk),
          updateImmediateChild_comm hjk]

/-- Reading below what has been read and writing it back changes nothing. -/
theorem updateChild_getChild (p : List κ) (n : Node κ α) : n.updateChild p (n.getChild p) = n := by
  induction p generalizing n with
  | nil => rfl
  | cons k p ih =>
    rw [getChild_cons, updateChild_cons, ih, updateImmediateChild_getImmediateChild]

/-! ## Enumerating and comparing -/

/-- `isLeafNode` -/
def isLeafNode (n : Node κ α) : Bool :=
  n.leafValue.isSome

/-- `hasChild:` -/
def hasChild (n : Node κ α) (childName : κ) : Bool :=
  !(n.getImmediateChild childName).isEmpty

/-- The names of the children, as `enumerateChildrenUsingBlock:` goes through them. -/
def childNames (n : Node κ α) : List κ :=
  match n.raw with
  | .leaf _ => []
  | .children cs => cs.map Prod.fst

theorem hasChild_iff : n.hasChild k = true ↔ n.getImmediateChild k ≠ empty := by
  rw [hasChild, Bool.not_eq_true', ← Bool.not_eq_true, isEmpty_iff]

theorem pairwise_childNames (n : Node κ α) : n.childNames.Pairwise (· < ·) := by
  obtain ⟨a | cs, hn⟩ := n
  · exact List.Pairwise.nil
  · cases hn with
    | children hsorted hne hcs => exact List.pairwise_map.mpr hsorted

theorem nodup_childNames (n : Node κ α) : n.childNames.Nodup :=
  n.pairwise_childNames.imp fun h => h.ne

theorem mem_childNames : k ∈ n.childNames ↔ n.hasChild k = true := by
  obtain ⟨a | cs, hn⟩ := n
  · simp [childNames, hasChild, getImmediateChild, RawNode.getImmediateChild, isEmpty,
      RawNode.isEmpty]
  · have hlookup := lookup_eq hn k
    cases hn with
    | children hsorted hne hcs =>
      have hmem : k ∈ cs.map Prod.fst ↔ cs.lookup k ≠ none := by
        rw [Ne, List.lookup_eq_none_iff, List.mem_map]
        constructor
        · rintro ⟨c, hc, rfl⟩ hno
          simpa using hno c hc
        · intro hno
          by_contra hnot
          refine hno fun c hc => ?_
          simpa using fun hk => hnot ⟨c, hc, hk.symm⟩
      have hfull : cs.lookup k ≠ none ↔
          ((RawNode.children cs).getImmediateChild k).isEmpty = false := by
        rw [hlookup]
        split
        · next hempty => simp [hempty]
        · next hempty => simpa using hempty
      rw [childNames, hmem, hfull, hasChild, Bool.not_eq_true']
      rfl

/-- The children with their names, in the order of `enumerateChildrenUsingBlock:`. -/
def childEntries (n : Node κ α) : List (κ × Node κ α) :=
  n.childNames.map fun key => (key, n.getImmediateChild key)

theorem sorted_childEntries (n : Node κ α) : Sorted n.childEntries :=
  List.pairwise_map.mpr n.pairwise_childNames

theorem lookup_childEntries (n : Node κ α) (k : κ) : n.childEntries.lookup k =
    if n.hasChild k then some (n.getImmediateChild k) else none := by
  split
  · next hchild =>
    exact n.sorted_childEntries.mem_iff.mp
      (List.mem_map.mpr ⟨k, mem_childNames.mpr hchild, rfl⟩)
  · next hchild =>
    rw [List.lookup_eq_none_iff]
    intro c hc
    obtain ⟨j, hj, rfl⟩ := List.mem_map.mp hc
    rw [bne_iff_ne]
    rintro rfl
    exact hchild (mem_childNames.mp hj)

end Node

mutual

/-- `isEqual:`. The two change their roles from level to level in the source. -/
def RawNode.isEqual [DecidableEq α] : RawNode κ α → RawNode κ α → Bool
  | .leaf value, .leaf otherValue => value == otherValue
  | .children cs, .children otherChildren =>
    cs.length == otherChildren.length && RawNode.childrenEqual cs (.children otherChildren)
  | _, _ => false

/-- The enumeration of the children. -/
def RawNode.childrenEqual [DecidableEq α] : List (κ × RawNode κ α) → RawNode κ α → Bool
  | [], _ => true
  | (key, node) :: cs, other =>
    node.isEqual (other.getImmediateChild key) && RawNode.childrenEqual cs other

end

/-- The child is stored, when it is not empty. -/
theorem RawNode.mem_of_getImmediateChild {cs : List (κ × RawNode κ α)} {k : κ} {c : RawNode κ α}
    (h : (RawNode.children cs).WellFormed) (hc : c.isEmpty = false)
    (hk : (RawNode.children cs).getImmediateChild k = c) : (k, c) ∈ cs := by
  have hlookup := Node.lookup_eq h k
  rw [hk, hc, if_neg Bool.false_ne_true] at hlookup
  cases h with
  | children hsorted hne hcs => exact hsorted.mem_iff.mpr hlookup

mutual

theorem RawNode.isEqual_iff [DecidableEq α] : ∀ {n m : RawNode κ α}, n.WellFormed → m.WellFormed →
    (n.isEqual m = true ↔ n = m)
  | .leaf a, .leaf b, _, _ => by simp [RawNode.isEqual]
  | .leaf a, .children cs', _, _ => by simp [RawNode.isEqual]
  | .children cs, .leaf b, _, _ => by simp [RawNode.isEqual]
  | .children cs, .children cs', hn, hm => by
    cases hn with
    | children hsorted hne hcs =>
      have hchildren := RawNode.childrenEqual_iff hcs hm
      rw [RawNode.isEqual, Bool.and_eq_true, beq_iff_eq, hchildren]
      constructor
      · rintro ⟨hlen, hall⟩
        have hsub : ∀ c ∈ cs, c ∈ cs' :=
          fun c hc => mem_of_getImmediateChild hm (hne c hc) (hall c hc)
        cases hm with
        | children hsorted' _ _ => rw [hsorted.eq_of_subset hsorted' hsub hlen]
      · intro heq
        obtain rfl := RawNode.children.inj heq
        refine ⟨rfl, ?_⟩
        intro c hc
        rw [RawNode.getImmediateChild, hsorted.mem_iff.mp hc]
        rfl

theorem RawNode.childrenEqual_iff [DecidableEq α] : ∀ {cs : List (κ × RawNode κ α)}
    {m : RawNode κ α}, (∀ c ∈ cs, c.2.WellFormed) → m.WellFormed →
    (RawNode.childrenEqual cs m = true ↔ ∀ c ∈ cs, m.getImmediateChild c.1 = c.2)
  | [], _, _, _ => by simp [RawNode.childrenEqual]
  | (key, node) :: cs, m, hcs, hm => by
    have hnode := RawNode.isEqual_iff (hcs _ List.mem_cons_self) (hm.getImmediateChild key)
    have hrest := RawNode.childrenEqual_iff (fun c hc => hcs c (List.mem_cons_of_mem _ hc)) hm
    rw [RawNode.childrenEqual, Bool.and_eq_true, hnode, hrest, List.forall_mem_cons]
    exact and_congr_left' eq_comm

end

/-- `isEqual:` -/
def Node.isEqual [DecidableEq α] (n other : Node κ α) : Bool :=
  n.raw.isEqual other.raw

@[simp] theorem Node.isEqual_iff [DecidableEq α] {n m : Node κ α} :
    n.isEqual m = true ↔ n = m := by
  rw [Node.isEqual, RawNode.isEqual_iff n.wf m.wf]
  exact ⟨Node.ext, congrArg Node.raw⟩

end FirebaseDatabase
