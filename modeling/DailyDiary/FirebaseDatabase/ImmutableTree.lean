/-
`FImmutableTree`: optional values at the paths of a tree, as the database keeps its pending
writes.

The trees that hold writes have a normal form (`IsWrite`): a value stands alone, and no
subtree is empty. So such a tree is determined by its value and its subtrees, and what the
operations do is said level by level: each changes at most the subtree of the first key of
its path (`putChild`).
-/
import DailyDiary.SortedDictionary

set_option autoImplicit false

namespace FirebaseDatabase

open SortedDictionary

/-- `FImmutableTree`: optional values at the paths of a tree. -/
inductive ImmutableTree (κ V : Type) where
  | mk (value : Option V) (children : List (κ × ImmutableTree κ V))

namespace ImmutableTree

variable {κ V : Type}

def value : ImmutableTree κ V → Option V
  | ⟨value, _⟩ => value

def children : ImmutableTree κ V → List (κ × ImmutableTree κ V)
  | ⟨_, children⟩ => children

/-- `[FImmutableTree empty]` -/
def empty : ImmutableTree κ V :=
  ⟨none, []⟩

/-- `initWithValue:` -/
def ofValue (v : V) : ImmutableTree κ V :=
  ⟨some v, []⟩

def isEmpty (t : ImmutableTree κ V) : Bool :=
  t.value.isNone && t.children.isEmpty

theorem isEmpty_iff {t : ImmutableTree κ V} : t.isEmpty = true ↔ t = empty := by
  obtain ⟨v, cs⟩ := t
  cases v <;> cases cs <;> simp [isEmpty, empty, value, children]

variable [LinearOrder κ]

/-- `findRootMostValueAndPath:`: the first value on the way, and where it is. -/
def findRootMostValueAndPath : ImmutableTree κ V → List κ → Option (List κ × V)
  | ⟨some v, _⟩, _ => some ([], v)
  | ⟨none, _⟩, [] => none
  | ⟨none, cs⟩, front :: path =>
    match cs.lookup front with
    | some child => (child.findRootMostValueAndPath path).map fun r => (front :: r.1, r.2)
    | none => none

/-- `subtreeAtPath:` -/
def subtreeAtPath : ImmutableTree κ V → List κ → ImmutableTree κ V
  | t, [] => t
  | ⟨_, cs⟩, front :: path =>
    match cs.lookup front with
    | some child => child.subtreeAtPath path
    | none => empty

/-- `setValue:atPath:` -/
def setValue : ImmutableTree κ V → V → List κ → ImmutableTree κ V
  | ⟨_, cs⟩, newValue, [] => ⟨some newValue, cs⟩
  | ⟨v, cs⟩, newValue, front :: path =>
    let child := (cs.lookup front).getD empty
    ⟨v, insertKey front (child.setValue newValue path) cs⟩

/-- `setTree:atPath:`; a subtree that becomes empty is removed. -/
def setTree : ImmutableTree κ V → ImmutableTree κ V → List κ → ImmutableTree κ V
  | _, newTree, [] => newTree
  | ⟨v, cs⟩, newTree, front :: path =>
    let child := (cs.lookup front).getD empty
    let newChild := child.setTree newTree path
    ⟨v, if newChild.isEmpty then removeKey front cs else insertKey front newChild cs⟩

/-- The subtree of a key, empty when there is none. -/
def child (t : ImmutableTree κ V) (k : κ) : ImmutableTree κ V :=
  (t.children.lookup k).getD empty

/-- Values have nothing below them, and no subtree is empty. -/
inductive IsWrite : ImmutableTree κ V → Prop where
  | value (v : V) : IsWrite (ofValue v)
  | children {cs : List (κ × ImmutableTree κ V)} (hsorted : Sorted cs)
      (hne : ∀ c ∈ cs, c.2.isEmpty = false) (hcs : ∀ c ∈ cs, IsWrite c.2) : IsWrite ⟨none, cs⟩

variable {t t' : ImmutableTree κ V} {k j : κ}

theorem IsWrite.empty : (empty : ImmutableTree κ V).IsWrite :=
  .children sorted_nil (fun _ hc => absurd hc List.not_mem_nil) fun _ hc =>
    absurd hc List.not_mem_nil

theorem IsWrite.child (h : t.IsWrite) (k : κ) : (t.child k).IsWrite := by
  cases h with
  | value v => exact .empty
  | @children cs hsorted hne hcs =>
    cases hk : cs.lookup k with
    | none =>
      rw [ImmutableTree.child, ImmutableTree.children, hk]
      exact .empty
    | some c =>
      rw [ImmutableTree.child, ImmutableTree.children, hk]
      exact hcs (k, c) (hsorted.mem_iff.mpr hk)

/-- A value stands alone. -/
theorem IsWrite.eq_ofValue (h : t.IsWrite) {v : V} (hv : t.value = some v) : t = ofValue v := by
  cases h with
  | value w =>
    obtain rfl : w = v := Option.some.inj hv
    rfl
  | children => cases hv

/-- The tree with another subtree at a key, which is removed when it is empty. -/
def putChild (t : ImmutableTree κ V) (k : κ) (c : ImmutableTree κ V) : ImmutableTree κ V :=
  ⟨t.value, if c.isEmpty then removeKey k t.children else insertKey k c t.children⟩

theorem IsWrite.putChild (h : t.IsWrite) (hv : t.value = none) {c : ImmutableTree κ V}
    (hc : c.IsWrite) (k : κ) : (t.putChild k c).IsWrite := by
  cases h with
  | value v => cases hv
  | @children cs hsorted hne hcs =>
    rw [ImmutableTree.putChild]
    split
    · exact .children (hsorted.removeKey k) (fun a ha => hne a (mem_of_mem_removeKey ha))
        fun a ha => hcs a (mem_of_mem_removeKey ha)
    · next hfull =>
      refine .children (hsorted.insertKey k c) ?_ ?_
      · intro a ha
        rcases mem_insertKey ha with rfl | ha
        · simpa using hfull
        · exact hne a ha
      · intro a ha
        rcases mem_insertKey ha with rfl | ha
        · exact hc
        · exact hcs a ha

@[simp] theorem value_putChild (t c : ImmutableTree κ V) (k : κ) :
    (t.putChild k c).value = t.value := rfl

theorem IsWrite.child_putChild_self (h : t.IsWrite) (hv : t.value = none) (k : κ)
    (c : ImmutableTree κ V) : (t.putChild k c).child k = c := by
  cases h with
  | value v => cases hv
  | children hsorted hne hcs =>
    rw [ImmutableTree.putChild, ImmutableTree.child, ImmutableTree.children, ImmutableTree.children]
    split
    · next hc =>
      rw [hsorted.lookup_removeKey_self]
      exact (isEmpty_iff.mp hc).symm
    · rw [lookup_insertKey_self]
      rfl

theorem child_putChild_of_ne (h : j ≠ k) (t c : ImmutableTree κ V) :
    (t.putChild k c).child j = t.child j := by
  rw [putChild, child, children]
  split
  · rw [lookup_removeKey_of_ne h]
    rfl
  · rw [lookup_insertKey_of_ne h]
    rfl

/-- A compound write without a value is determined by its subtrees. -/
theorem IsWrite.ext (h : t.IsWrite) (h' : t'.IsWrite) (hv : t.value = t'.value)
    (hchild : ∀ k, t.child k = t'.child k) : t = t' := by
  cases h with
  | value v => exact (h'.eq_ofValue hv.symm).symm
  | @children cs hsorted hne hcs =>
    cases h' with
    | value v => cases hv
    | @children cs' hsorted' hne' hcs' =>
      congr 1
      refine hsorted.ext hsorted' ?_
      intro k
      have hk : (cs.lookup k).getD ImmutableTree.empty = (cs'.lookup k).getD ImmutableTree.empty :=
        hchild k
      -- no subtree that is stored is empty: empty means that none is stored
      have hfull : ∀ {cs : List (κ × ImmutableTree κ V)} {c : ImmutableTree κ V}, Sorted cs →
          (∀ c ∈ cs, c.2.isEmpty = false) → cs.lookup k = some c → c ≠ ImmutableTree.empty := by
        rintro cs c hsorted hne hk rfl
        have hno := hne _ (hsorted.mem_iff.mpr hk)
        cases hno
      cases hk₁ : cs.lookup k with
      | none =>
        cases hk₂ : cs'.lookup k with
        | none => rfl
        | some c' =>
          rw [hk₁, hk₂] at hk
          exact absurd hk.symm (hfull hsorted' hne' hk₂)
      | some c =>
        cases hk₂ : cs'.lookup k with
        | none =>
          rw [hk₁, hk₂] at hk
          exact absurd hk (hfull hsorted hne hk₁)
        | some c' =>
          rw [hk₁, hk₂] at hk
          exact congrArg some hk

theorem IsWrite.putChild_putChild (h : t.IsWrite) (hv : t.value = none) {c c' : ImmutableTree κ V}
    (hc : c.IsWrite) (hc' : c'.IsWrite) (k : κ) :
    (t.putChild k c).putChild k c' = t.putChild k c' := by
  have hput := h.putChild hv hc k
  refine (hput.putChild hv hc' k).ext (h.putChild hv hc' k) rfl ?_
  intro j
  by_cases hj : j = k
  · rw [hj, hput.child_putChild_self hv, h.child_putChild_self hv]
  · simp only [child_putChild_of_ne hj]

theorem IsWrite.putChild_comm (h : t.IsWrite) (hv : t.value = none) {c c' : ImmutableTree κ V}
    (hc : c.IsWrite) (hc' : c'.IsWrite) (hjk : j ≠ k) :
    (t.putChild k c).putChild j c' = (t.putChild j c').putChild k c := by
  have hk := h.putChild hv hc k
  have hj := h.putChild hv hc' j
  refine (hk.putChild hv hc' j).ext (hj.putChild hv hc k) rfl ?_
  intro i
  by_cases hij : i = j
  · rw [hij, hk.child_putChild_self hv, child_putChild_of_ne hjk, h.child_putChild_self hv]
  · by_cases hik : i = k
    · rw [hik, hj.child_putChild_self hv, child_putChild_of_ne (Ne.symm hjk),
        h.child_putChild_self hv]
    · simp only [child_putChild_of_ne hij, child_putChild_of_ne hik]

/-! ### The operations, level by level -/

theorem setTree_cons (t newTree : ImmutableTree κ V) (k : κ) (p : List κ) :
    t.setTree newTree (k :: p) = t.putChild k ((t.child k).setTree newTree p) := by
  obtain ⟨v, cs⟩ := t
  rfl

theorem isEmpty_setTree {newTree : ImmutableTree κ V} (h : newTree.isEmpty = false)
    (t : ImmutableTree κ V) (p : List κ) : (t.setTree newTree p).isEmpty = false := by
  induction p generalizing t with
  | nil => exact h
  | cons k p ih =>
    have hne : insertKey k ((t.child k).setTree newTree p) t.children ≠ [] :=
      insertKey_ne_nil k _ _
    rw [setTree_cons, putChild, ih (t.child k), if_neg Bool.false_ne_true, isEmpty, children,
      List.isEmpty_eq_false_iff.mpr hne, Bool.and_false]

/-- Where there is a value on the way, the way to it is a part of the path. -/
theorem findRootMostValueAndPath_of_value {v : V} (h : t.value = some v) (p : List κ) :
    t.findRootMostValueAndPath p = some ([], v) := by
  obtain ⟨w, cs⟩ := t
  obtain rfl : w = some v := h
  cases p <;> rfl

theorem findRootMostValueAndPath_nil (h : t.value = none) :
    t.findRootMostValueAndPath [] = none := by
  obtain ⟨w, cs⟩ := t
  obtain rfl : w = none := h
  rfl

theorem findRootMostValueAndPath_empty (p : List κ) :
    (empty : ImmutableTree κ V).findRootMostValueAndPath p = none := by
  cases p <;> rfl

theorem findRootMostValueAndPath_cons (h : t.value = none) (k : κ) (p : List κ) :
    t.findRootMostValueAndPath (k :: p) =
      ((t.child k).findRootMostValueAndPath p).map fun r => (k :: r.1, r.2) := by
  obtain ⟨w, cs⟩ := t
  obtain rfl : w = none := h
  rw [findRootMostValueAndPath, child, children]
  cases cs.lookup k with
  | none => rw [Option.getD_none, findRootMostValueAndPath_empty]; rfl
  | some c => rfl

@[simp] theorem subtreeAtPath_nil (t : ImmutableTree κ V) : t.subtreeAtPath [] = t := by
  cases t
  rfl

theorem subtreeAtPath_empty (p : List κ) :
    (empty : ImmutableTree κ V).subtreeAtPath p = empty := by
  cases p <;> rfl

theorem subtreeAtPath_cons (t : ImmutableTree κ V) (k : κ) (p : List κ) :
    t.subtreeAtPath (k :: p) = (t.child k).subtreeAtPath p := by
  obtain ⟨w, cs⟩ := t
  rw [subtreeAtPath, child, children]
  cases cs.lookup k with
  | none => rw [Option.getD_none, subtreeAtPath_empty]
  | some c => rfl

theorem IsWrite.subtreeAtPath (h : t.IsWrite) (p : List κ) : (t.subtreeAtPath p).IsWrite := by
  induction p generalizing t with
  | nil => rwa [subtreeAtPath_nil]
  | cons k p ih =>
    rw [subtreeAtPath_cons]
    exact ih (h.child k)

theorem isEmpty_setValue (t : ImmutableTree κ V) (v : V) (p : List κ) :
    (t.setValue v p).isEmpty = false := by
  obtain ⟨w, cs⟩ := t
  cases p with
  | nil => rfl
  | cons k p =>
    rw [setValue, isEmpty, children, List.isEmpty_eq_false_iff.mpr (insertKey_ne_nil k _ _),
      Bool.and_false]

theorem setValue_cons (t : ImmutableTree κ V) (v : V) (k : κ) (p : List κ) :
    t.setValue v (k :: p) = t.putChild k ((t.child k).setValue v p) := by
  obtain ⟨w, cs⟩ := t
  rw [putChild, isEmpty_setValue, if_neg Bool.false_ne_true]
  rfl

end ImmutableTree

end FirebaseDatabase
