/-
Dictionaries kept as lists of entries in the order of their keys.

A list of entries is a dictionary when its keys increase strictly (`Sorted`). Insertion and
removal keep that, look-ups change at the one key only, and two dictionaries with the same
look-ups are the same list (`Sorted.ext`): the representation is canonical, so equalities
between results of insertions and removals are proved by looking them up.

Look-up is `List.lookup`. The types of entries nest the type of the dictionary in trees, so
the invariant is a predicate on lists and not a field.
-/
import Mathlib.Order.Lattice
import Mathlib.Data.List.Perm.Subperm

set_option autoImplicit false

namespace SortedDictionary

variable {κ β : Type} [LinearOrder κ]

/-- The keys increase strictly. -/
def Sorted (l : List (κ × β)) : Prop :=
  l.Pairwise fun a b => a.1 < b.1

/-- The dictionary with `b` at `k`. -/
def insertKey (k : κ) (b : β) : List (κ × β) → List (κ × β)
  | [] => [(k, b)]
  | (j, c) :: l =>
    if k < j then (k, b) :: (j, c) :: l
    else if k = j then (k, b) :: l
    else (j, c) :: insertKey k b l

/-- The dictionary without the key `k`. -/
def removeKey (k : κ) : List (κ × β) → List (κ × β)
  | [] => []
  | (j, c) :: l => if k = j then l else (j, c) :: removeKey k l

variable {k j : κ} {b c : β} {l l' : List (κ × β)}

theorem sorted_nil : Sorted ([] : List (κ × β)) :=
  List.Pairwise.nil

theorem Sorted.tail (h : Sorted ((k, b) :: l)) : Sorted l :=
  (List.pairwise_cons.mp h).2

theorem Sorted.head_lt (h : Sorted ((k, b) :: l)) : ∀ a ∈ l, k < a.1 :=
  (List.pairwise_cons.mp h).1

/-! ## Membership and look-up -/

theorem mem_insertKey {a : κ × β} (h : a ∈ insertKey k b l) : a = (k, b) ∨ a ∈ l := by
  induction l with
  | nil => exact Or.inl (List.mem_singleton.mp h)
  | cons a' l ih =>
    obtain ⟨j, c⟩ := a'
    rw [insertKey] at h
    split_ifs at h with hlt heq
    · exact List.mem_cons.mp h
    · rcases List.mem_cons.mp h with h | h
      · exact Or.inl h
      · exact Or.inr (List.mem_cons_of_mem _ h)
    · rcases List.mem_cons.mp h with h | h
      · exact Or.inr (h ▸ List.mem_cons_self)
      · rcases ih h with h | h
        · exact Or.inl h
        · exact Or.inr (List.mem_cons_of_mem _ h)

theorem mem_of_mem_removeKey {a : κ × β} (h : a ∈ removeKey k l) : a ∈ l := by
  induction l with
  | nil => exact h
  | cons a' l ih =>
    obtain ⟨j, c⟩ := a'
    rw [removeKey] at h
    split_ifs at h with heq
    · exact List.mem_cons_of_mem _ h
    · rcases List.mem_cons.mp h with h | h
      · exact h ▸ List.mem_cons_self
      · exact List.mem_cons_of_mem _ (ih h)

theorem lookup_cons_of_ne (h : k ≠ j) (c : β) (l : List (κ × β)) :
    ((j, c) :: l).lookup k = l.lookup k := by
  have hne : (k == j) = false := by simpa using h
  rw [List.lookup_cons, hne]

/-- A key before all keys of the dictionary is not one of them. -/
theorem lookup_eq_none_of_lt (h : ∀ a ∈ l, k < a.1) : l.lookup k = none := by
  rw [List.lookup_eq_none_iff]
  intro a ha
  simpa using (h a ha).ne

theorem Sorted.mem_iff (h : Sorted l) : (k, b) ∈ l ↔ l.lookup k = some b := by
  induction l with
  | nil => simp
  | cons a l ih =>
    obtain ⟨j, c⟩ := a
    by_cases hkj : k = j
    · subst hkj
      have hnot : (k, b) ∉ l := fun hmem => lt_irrefl k (h.head_lt _ hmem)
      simp [hnot, eq_comm]
    · rw [lookup_cons_of_ne hkj, ← ih h.tail]
      simp [hkj]

@[simp] theorem lookup_insertKey_self (k : κ) (b : β) (l : List (κ × β)) :
    (insertKey k b l).lookup k = some b := by
  induction l with
  | nil => simp [insertKey]
  | cons a l ih =>
    obtain ⟨j, c⟩ := a
    rw [insertKey]
    split_ifs with hlt heq
    · simp
    · simp
    · rw [lookup_cons_of_ne heq, ih]

theorem lookup_insertKey_of_ne (h : j ≠ k) (b : β) (l : List (κ × β)) :
    (insertKey k b l).lookup j = l.lookup j := by
  induction l with
  | nil => rw [insertKey, lookup_cons_of_ne h]
  | cons a l ih =>
    obtain ⟨i, c⟩ := a
    rw [insertKey]
    split_ifs with hlt heq
    · rw [lookup_cons_of_ne h]
    · subst heq
      rw [lookup_cons_of_ne h, lookup_cons_of_ne h]
    · rw [List.lookup_cons, List.lookup_cons, ih]

theorem lookup_removeKey_of_ne (h : j ≠ k) (l : List (κ × β)) :
    (removeKey k l).lookup j = l.lookup j := by
  induction l with
  | nil => rfl
  | cons a l ih =>
    obtain ⟨i, c⟩ := a
    rw [removeKey]
    split_ifs with heq
    · subst heq
      rw [lookup_cons_of_ne h]
    · rw [List.lookup_cons, List.lookup_cons, ih]

theorem Sorted.lookup_removeKey_self (h : Sorted l) (k : κ) : (removeKey k l).lookup k = none := by
  induction l with
  | nil => rfl
  | cons a l ih =>
    obtain ⟨j, c⟩ := a
    rw [removeKey]
    split_ifs with heq
    · subst heq
      exact lookup_eq_none_of_lt h.head_lt
    · rw [lookup_cons_of_ne heq, ih h.tail]

/-! ## The order is kept -/

theorem Sorted.insertKey (h : Sorted l) (k : κ) (b : β) : Sorted (insertKey k b l) := by
  induction l with
  | nil => exact List.pairwise_singleton _ _
  | cons a l ih =>
    obtain ⟨j, c⟩ := a
    rw [SortedDictionary.insertKey]
    split_ifs with hlt heq
    · refine List.pairwise_cons.mpr ⟨?_, h⟩
      intro a ha
      rcases List.mem_cons.mp ha with rfl | ha
      · exact hlt
      · exact hlt.trans (h.head_lt a ha)
    · subst heq
      exact List.pairwise_cons.mpr ⟨h.head_lt, h.tail⟩
    · refine List.pairwise_cons.mpr ⟨?_, ih h.tail⟩
      intro a ha
      rcases mem_insertKey ha with rfl | ha
      · exact lt_of_le_of_ne (not_lt.mp hlt) (Ne.symm heq)
      · exact h.head_lt a ha

theorem Sorted.removeKey (h : Sorted l) (k : κ) : Sorted (removeKey k l) := by
  induction l with
  | nil => exact sorted_nil
  | cons a l ih =>
    obtain ⟨j, c⟩ := a
    rw [SortedDictionary.removeKey]
    split_ifs with heq
    · exact h.tail
    · refine List.pairwise_cons.mpr ⟨?_, ih h.tail⟩
      intro a ha
      exact h.head_lt a (mem_of_mem_removeKey ha)

/-! ## The representation is canonical -/

theorem eq_nil_of_lookup (h : ∀ k, l.lookup k = none) : l = [] := by
  cases l with
  | nil => rfl
  | cons a l =>
    have hhead := h a.1
    simp at hhead

/-- The least key of one dictionary is not behind the least key of the other. -/
private theorem head_le (h' : Sorted ((j, c) :: l')) (hmem : ((j, c) :: l').lookup k = some b) :
    j ≤ k := by
  rcases List.mem_cons.mp (h'.mem_iff.mpr hmem) with heq | hmem
  · exact (Prod.mk.inj heq).1.ge
  · exact (h'.head_lt _ hmem).le

/-- Dictionaries with the same look-ups are the same list. -/
theorem Sorted.ext (h : Sorted l) (h' : Sorted l') (heq : ∀ k, l.lookup k = l'.lookup k) :
    l = l' := by
  induction l generalizing l' with
  | nil => exact (eq_nil_of_lookup fun k => (heq k).symm).symm
  | cons a l ih =>
    obtain ⟨k, b⟩ := a
    cases l' with
    | nil => exact eq_nil_of_lookup heq
    | cons a' l' =>
      obtain ⟨j, c⟩ := a'
      have hk := heq k
      have hj := heq j
      simp only [List.lookup_cons_self] at hk hj
      obtain rfl : k = j := le_antisymm (head_le h hj) (head_le h' hk.symm)
      obtain rfl : b = c := by simpa using hk
      congr 1
      refine ih h.tail h'.tail ?_
      intro i
      by_cases hi : i = k
      · subst hi
        rw [lookup_eq_none_of_lt h.head_lt, lookup_eq_none_of_lt h'.head_lt]
      · have hi' := heq i
        rwa [lookup_cons_of_ne hi, lookup_cons_of_ne hi] at hi'

/-- As many entries, and all of them. -/
theorem Sorted.eq_of_subset (h : Sorted l) (h' : Sorted l') (hsub : ∀ a ∈ l, a ∈ l')
    (hlen : l.length = l'.length) : l = l' := by
  have hnodup : l.Nodup := by
    refine List.Pairwise.imp ?_ h
    rintro a b hlt rfl
    exact lt_irrefl _ hlt
  have hperm : l.Perm l' := (List.Nodup.subperm hnodup hsub).perm_of_length_le hlen.ge
  refine h.ext h' ?_
  intro k
  rw [Option.ext_iff]
  intro b
  rw [← h.mem_iff, ← h'.mem_iff]
  exact hperm.mem_iff

/-! ## Neighbours -/

/-- The key before the given one, none inside when it is the first; none when it is not there. -/
def getPredecessorKey (prev : Option κ) (k : κ) : List (κ × β) → Option (Option κ)
  | [] => none
  | (j, _) :: l => if j = k then some prev else getPredecessorKey (some j) k l

/-- The entries with another one behind the key `p`. -/
def insertBehind (p k : κ) (b : β) : List (κ × β) → List (κ × β)
  | [] => [(k, b)]
  | (j, c) :: l => if j = p then (j, c) :: (k, b) :: l else (j, c) :: insertBehind p k b l

/-- The entries with another one behind a key, or in front. -/
def insertAfter (prev : Option κ) (k : κ) (b : β) (l : List (κ × β)) : List (κ × β) :=
  match prev with
  | none => (k, b) :: l
  | some p => insertBehind p k b l

/-- The entries with another value at a key. -/
def replaceKey (k : κ) (b : β) : List (κ × β) → List (κ × β)
  | [] => []
  | (j, c) :: l => if j = k then (k, b) :: l else (j, c) :: replaceKey k b l

theorem exists_getPredecessorKey (prev : Option κ) (h : l.lookup k = some b) :
    ∃ p, getPredecessorKey prev k l = some p := by
  induction l generalizing prev with
  | nil => cases h
  | cons a l ih =>
    obtain ⟨j, c⟩ := a
    rw [getPredecessorKey]
    split
    · exact ⟨prev, rfl⟩
    · next hjk =>
      rw [lookup_cons_of_ne (Ne.symm hjk)] at h
      exact ih (some j) h

/-- Where the predecessor lies, and that nothing lies between. -/
theorem Sorted.of_getPredecessorKey (h : Sorted l) {prev p : Option κ}
    (hprev : ∀ i ∈ prev, ∀ a ∈ l, i < a.1) (hp : getPredecessorKey prev k l = some p) :
    (p = none → prev = none ∧ ∀ a ∈ l, k ≤ a.1) ∧
      ∀ i, p = some i →
        (prev = some i ∨ ∃ c, (i, c) ∈ l) ∧ i < k ∧ ∀ a ∈ l, a.1 ≤ i ∨ k ≤ a.1 := by
  induction l generalizing prev with
  | nil => cases hp
  | cons a l ih =>
    obtain ⟨j, c⟩ := a
    rw [getPredecessorKey] at hp
    split at hp
    · next hjk =>
      subst hjk
      obtain rfl := Option.some.inj hp
      have hall : ∀ a ∈ (j, c) :: l, j ≤ a.1 := by
        intro a ha
        rcases List.mem_cons.mp ha with rfl | ha
        · exact le_rfl
        · exact (h.head_lt a ha).le
      refine ⟨fun hno => ⟨hno, hall⟩, ?_⟩
      intro i hi
      exact ⟨Or.inl hi, hprev i hi _ List.mem_cons_self, fun a ha => Or.inr (hall a ha)⟩
    · next hjk =>
      have hhead : ∀ i ∈ some j, ∀ a ∈ l, i < a.1 := by
        rintro i hi a ha
        obtain rfl := Option.some.inj hi
        exact h.head_lt a ha
      have hrest := ih h.tail hhead hp
      refine ⟨fun hno => absurd (hrest.1 hno).1 (by simp), ?_⟩
      intro i hi
      obtain ⟨hi, hik, hbetween⟩ := hrest.2 i hi
      have hji : j ≤ i := by
        rcases hi with hi | ⟨c', hi⟩
        · exact (Option.some.inj hi).le
        · exact (h.head_lt _ hi).le
      refine ⟨Or.inr ?_, hik, ?_⟩
      · rcases hi with hi | ⟨c', hi⟩
        · obtain rfl := Option.some.inj hi
          exact ⟨c, List.mem_cons_self⟩
        · exact ⟨c', List.mem_cons_of_mem _ hi⟩
      · intro a ha
        rcases List.mem_cons.mp ha with rfl | ha
        · exact Or.inl hji
        · exact hbetween a ha

theorem insertKey_eq_cons (h : ∀ a ∈ l, k < a.1) (b : β) : insertKey k b l = (k, b) :: l := by
  cases l with
  | nil => rfl
  | cons a l =>
    obtain ⟨j, c⟩ := a
    rw [insertKey, if_pos (h _ List.mem_cons_self)]

/-- Behind the last key that is smaller an entry is where it belongs. -/
theorem Sorted.insertBehind_eq_insertKey (h : Sorted l) {p : κ} (hp : (p, c) ∈ l) (hpk : p < k)
    (hbetween : ∀ a ∈ l, a.1 ≤ p ∨ k < a.1) (b : β) :
    insertBehind p k b l = SortedDictionary.insertKey k b l := by
  induction l with
  | nil => cases hp
  | cons a l ih =>
    obtain ⟨j, d⟩ := a
    have hjp : j ≤ p := by
      rcases List.mem_cons.mp hp with heq | hp
      · exact (Prod.mk.inj heq).1.ge
      · exact (h.head_lt _ hp).le
    have hjk : j < k := hjp.trans_lt hpk
    rw [insertBehind, SortedDictionary.insertKey, if_neg hjk.not_gt, if_neg hjk.ne']
    split
    · next heq =>
      subst heq
      have hbehind : ∀ a ∈ l, k < a.1 := by
        intro a ha
        rcases hbetween a (List.mem_cons_of_mem _ ha) with hle | hlt
        · exact absurd (h.head_lt a ha) hle.not_gt
        · exact hlt
      rw [insertKey_eq_cons hbehind]
    · next hne =>
      have hp' : (p, c) ∈ l := by
        rcases List.mem_cons.mp hp with heq | hp
        · exact absurd (Prod.mk.inj heq).1.symm hne
        · exact hp
      rw [ih h.tail hp' fun a ha => hbetween a (List.mem_cons_of_mem _ ha)]

theorem Sorted.replaceKey_eq_insertKey (h : Sorted l) (hk : l.lookup k = some c) (b : β) :
    replaceKey k b l = SortedDictionary.insertKey k b l := by
  induction l with
  | nil => cases hk
  | cons a l ih =>
    obtain ⟨j, d⟩ := a
    rw [replaceKey, SortedDictionary.insertKey]
    split
    · next heq =>
      subst heq
      rw [if_neg (lt_irrefl j), if_pos rfl]
    · next hne =>
      rw [lookup_cons_of_ne (Ne.symm hne)] at hk
      have hjk : j < k := h.head_lt _ (h.tail.mem_iff.mpr hk)
      rw [if_neg hjk.not_gt, if_neg hjk.ne', ih h.tail hk]

theorem insertKey_ne_nil (k : κ) (b : β) (l : List (κ × β)) : insertKey k b l ≠ [] := by
  intro hnil
  have hself := lookup_insertKey_self k b l
  rw [hnil] at hself
  cases hself

end SortedDictionary
