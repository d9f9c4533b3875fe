/-
Trees of named children with values at the leaves, read and overwritten along
paths: the data model of a JSON store.

A subtree that is absent is `none`, so a tree is an `Option (Node κ α)` and
there are no empty dictionaries to tell from absent ones. The order of the
children of a node is not observable through the operations here, all of which
go through `child`; `keys` lists each child once whatever the order.

The laws are the ones a client of a store needs: what is written is read back
(`get_set_self`), also below and above the written path (`get_set_append`,
`get_append_set`), and a write leaves every path that neither contains nor is
contained in the written one as it was (`get_set_of_disjoint`).
-/
import Mathlib.Data.List.Dedup
import Mathlib.Data.List.Infix
import Mathlib.Data.Option.Basic

set_option autoImplicit false

namespace PathTree

/-- A tree that is there: a leaf, or a dictionary of children. -/
inductive Node (κ α : Type) where
  | leaf (value : α)
  | dict (children : List (κ × Node κ α))

variable {κ α : Type} [DecidableEq κ]

/-! ## Children -/

omit [DecidableEq κ] in
/-- The children of a tree; a leaf and an absent tree have none. -/
def children : Option (Node κ α) → List (κ × Node κ α)
  | some (.dict cs) => cs
  | _ => []

/-- The child of `t` called `k`. -/
def child (k : κ) (t : Option (Node κ α)) : Option (Node κ α) :=
  (children t).lookup k

omit [DecidableEq κ] in
/-- The tree with the given children; with none it is absent. -/
def ofChildren : List (κ × Node κ α) → Option (Node κ α)
  | [] => none
  | c :: cs => some (.dict (c :: cs))

/-- Replace, add or (with `none`) remove the child called `k`. -/
def putChild (k : κ) (v : Option (Node κ α)) (cs : List (κ × Node κ α)) :
    List (κ × Node κ α) :=
  cs.filter (fun c => c.1 ≠ k) ++ (v.map fun n => (k, n)).toList

/-- The names of the children of a tree, each once. -/
def keys (t : Option (Node κ α)) : List κ :=
  ((children t).map Prod.fst).dedup

omit [DecidableEq κ] in
@[simp] theorem children_ofChildren (cs : List (κ × Node κ α)) :
    children (ofChildren cs) = cs := by
  cases cs <;> rfl

@[simp] theorem child_none (k : κ) : child k (none : Option (Node κ α)) = none := rfl

@[simp] theorem child_leaf (k : κ) (v : α) : child k (some (.leaf v)) = none := rfl

theorem child_ofChildren (k : κ) (cs : List (κ × Node κ α)) :
    child k (ofChildren cs) = cs.lookup k := by
  rw [child, children_ofChildren]

theorem lookup_putChild_self (k : κ) (v : Option (Node κ α)) (cs : List (κ × Node κ α)) :
    (putChild k v cs).lookup k = v := by
  have hnone : (cs.filter fun c => c.1 ≠ k).lookup k = none := by
    rw [List.lookup_eq_none_iff]
    intro c hc
    have hne : c.1 ≠ k := by simpa using (List.mem_filter.mp hc).2
    simpa using hne.symm
  rw [putChild, List.lookup_append, hnone]
  cases v <;> simp

theorem lookup_filter_ne {k j : κ} (h : j ≠ k) (cs : List (κ × Node κ α)) :
    (cs.filter fun c => c.1 ≠ k).lookup j = cs.lookup j := by
  induction cs with
  | nil => rfl
  | cons c cs ih =>
    obtain ⟨i, n⟩ := c
    by_cases hi : i = k
    · subst hi
      have hji : (j == i) = false := by simpa using h
      simpa [List.lookup_cons, hji] using ih
    · rw [List.filter_cons_of_pos (by simpa using hi), List.lookup_cons, List.lookup_cons, ih]

theorem lookup_putChild_of_ne {k j : κ} (h : j ≠ k) (v : Option (Node κ α))
    (cs : List (κ × Node κ α)) : (putChild k v cs).lookup j = cs.lookup j := by
  have hv : ((v.map fun n => (k, n)).toList).lookup j = none := by
    cases v <;> simp [h]
  rw [putChild, List.lookup_append, lookup_filter_ne h, hv, Option.or_none]

theorem mem_keys {k : κ} {t : Option (Node κ α)} : k ∈ keys t ↔ child k t ≠ none := by
  have hl : child k t = none ↔ ∀ c ∈ children t, k ≠ c.1 := by
    rw [child, List.lookup_eq_none_iff]
    simp
  rw [keys, List.mem_dedup, List.mem_map, Ne, hl]
  constructor
  · rintro ⟨c, hc, rfl⟩ hne
    exact hne c hc rfl
  · intro hne
    by_contra hno
    exact hne fun c hc hk => hno ⟨c, hc, hk.symm⟩

theorem nodup_keys (t : Option (Node κ α)) : (keys t).Nodup :=
  List.nodup_dedup _

/-! ## Paths -/

/-- The subtree at a path. -/
def get : List κ → Option (Node κ α) → Option (Node κ α)
  | [], t => t
  | k :: p, t => get p (child k t)

/-- Overwrite one child. A child given to a leaf takes the leaf's place;
removing a child of a leaf leaves the leaf. -/
def setChild (k : κ) : Option (Node κ α) → Option (Node κ α) → Option (Node κ α)
  | none, some (.leaf a) => some (.leaf a)
  | c, t => ofChildren (putChild k c (children t))

/-- Overwrite the subtree at a path, by nothing to remove it. -/
def set : List κ → Option (Node κ α) → Option (Node κ α) → Option (Node κ α)
  | [], v, _ => v
  | k :: p, v, t => setChild k (set p v (child k t)) t

theorem child_setChild_self (k : κ) (c t : Option (Node κ α)) :
    child k (setChild k c t) = c := by
  rcases c with _ | c <;> rcases t with _ | _ | _ <;>
    simp only [setChild, child_leaf, child_ofChildren, lookup_putChild_self]

theorem child_setChild_of_ne {k j : κ} (h : j ≠ k) (c t : Option (Node κ α)) :
    child j (setChild k c t) = child j t := by
  rcases c with _ | c <;> rcases t with _ | _ | _ <;>
    simp only [setChild, child_leaf, child_ofChildren, lookup_putChild_of_ne h] <;> rfl

@[simp] theorem get_nil (t : Option (Node κ α)) : get [] t = t := rfl

theorem get_cons (k : κ) (p : List κ) (t : Option (Node κ α)) :
    get (k :: p) t = get p (child k t) := rfl

@[simp] theorem get_none (p : List κ) : get p (none : Option (Node κ α)) = none := by
  induction p with
  | nil => rfl
  | cons k p ih => rw [get_cons, child_none, ih]

@[simp] theorem set_nil (v t : Option (Node κ α)) : set [] v t = v := rfl

/-- There is nothing to remove where there is nothing. -/
theorem set_none (p : List κ) : set p none (none : Option (Node κ α)) = none := by
  induction p with
  | nil => rfl
  | cons k p ih =>
    rw [set, child_none, ih]
    rfl

/-- A write below a tree makes no leaf of it. -/
theorem set_cons_eq_leaf {k : κ} {p : List κ} {v t : Option (Node κ α)} {a : α}
    (h : set (k :: p) v t = some (.leaf a)) : t = some (.leaf a) := by
  have hchildren : ∀ cs : List (κ × Node κ α), ofChildren cs ≠ some (.leaf a) := by
    intro cs
    cases cs <;> simp [ofChildren]
  rw [set] at h
  cases hc : set p v (child k t) with
  | some c =>
    rw [hc] at h
    exact absurd h (hchildren _)
  | none =>
    rw [hc] at h
    rcases t with _ | b | cs
    · exact absurd h (hchildren (putChild k none []))
    · exact h
    · exact absurd h (hchildren (putChild k none cs))

theorem get_append (p q : List κ) (t : Option (Node κ α)) :
    get (p ++ q) t = get q (get p t) := by
  induction p generalizing t with
  | nil => rfl
  | cons k p ih => exact ih (child k t)

/-- The child on the way is the only one a write changes, and it changes by the
rest of the write. -/
theorem child_set_self (k : κ) (p : List κ) (v t : Option (Node κ α)) :
    child k (set (k :: p) v t) = set p v (child k t) := by
  rw [set, child_setChild_self]

theorem child_set_of_ne {k j : κ} (h : j ≠ k) (p : List κ) (v t : Option (Node κ α)) :
    child j (set (k :: p) v t) = child j t := by
  rw [set, child_setChild_of_ne h]

/-- A write reads back, also what lies below the written path. -/
theorem get_set_append (p q : List κ) (v t : Option (Node κ α)) :
    get (p ++ q) (set p v t) = get q v := by
  induction p generalizing t with
  | nil => rfl
  | cons k p ih => rw [List.cons_append, get_cons, child_set_self, ih]

@[simp] theorem get_set_self (p : List κ) (v t : Option (Node κ α)) :
    get p (set p v t) = v := by
  simpa using get_set_append p [] v t

/-- Above the written path a write is seen as a write. -/
theorem get_append_set (p q : List κ) (v t : Option (Node κ α)) :
    get p (set (p ++ q) v t) = set q v (get p t) := by
  induction p generalizing t with
  | nil => rfl
  | cons k p ih => rw [List.cons_append, get_cons, child_set_self, ih, get_cons]

/-- **The frame law.** A write leaves every path that neither contains the
written one nor is contained in it as it was. -/
theorem get_set_of_disjoint {p q : List κ} (hpq : ¬ p <+: q) (hqp : ¬ q <+: p)
    (v t : Option (Node κ α)) : get q (set p v t) = get q t := by
  induction p generalizing q t with
  | nil => exact absurd List.nil_prefix hpq
  | cons k p ih =>
    cases q with
    | nil => exact absurd List.nil_prefix hqp
    | cons j q =>
      rw [get_cons, get_cons]
      by_cases hjk : j = k
      · subst hjk
        rw [child_set_self]
        exact ih (by simpa using hpq) (by simpa using hqp) (child j t)
      · rw [child_set_of_ne hjk]

/-! ## Trees that agree away from some paths -/

section EqOutside

variable {rs : List (List κ)}

omit [DecidableEq κ] in
/-- The path meets none of the subtrees at `rs`: it neither leads into one of them nor is on
the way to one. -/
def Avoids (rs : List (List κ)) (p : List κ) : Prop :=
  ∀ r ∈ rs, ¬ r <+: p ∧ ¬ p <+: r

/-- The two trees differ at most in the subtrees at `rs`, as far as paths that meet none of
these can tell. -/
def EqOutside (rs : List (List κ)) (t t' : Option (Node κ α)) : Prop :=
  ∀ p, Avoids rs p → get p t = get p t'

theorem EqOutside.refl (rs : List (List κ)) (t : Option (Node κ α)) : EqOutside rs t t :=
  fun _ _ => rfl

/-- A write to both trees keeps them so, wherever it goes. -/
theorem EqOutside.set {t t' : Option (Node κ α)} (h : EqOutside rs t t') (q : List κ)
    (v : Option (Node κ α)) : EqOutside rs (set q v t) (set q v t') := by
  intro p hp
  by_cases hqp : q <+: p
  · obtain ⟨r, rfl⟩ := hqp
    rw [get_set_append, get_set_append]
  · by_cases hpq : p <+: q
    · obtain ⟨r, rfl⟩ := hpq
      rw [get_append_set, get_append_set, h p hp]
    · rw [get_set_of_disjoint hqp hpq, get_set_of_disjoint hqp hpq, h p hp]

/-- A write to one tree below one of the paths keeps them so. -/
theorem EqOutside.set_left {t t' : Option (Node κ α)} (h : EqOutside rs t t') {q r : List κ}
    (hr : r ∈ rs) (hq : r <+: q) (v : Option (Node κ α)) : EqOutside rs (PathTree.set q v t) t' := by
  intro p hp
  obtain ⟨hrp, hpr⟩ := hp r hr
  have hqp : ¬ q <+: p := fun hqp => hrp (hq.trans hqp)
  have hpq : ¬ p <+: q := by
    intro hpq
    rcases List.prefix_or_prefix_of_prefix hq hpq with hrp' | hpr'
    · exact hrp hrp'
    · exact hpr hpr'
  rw [get_set_of_disjoint hqp hpq, h p hp]

end EqOutside

/-! ## Children that appear -/

/-- The children of `new` that `old` has no child of the same name for. -/
def added (old new : Option (Node κ α)) : List (κ × Node κ α) :=
  (keys new).filterMap fun k =>
    if (child k old).isNone then (child k new).map fun n => (k, n) else none

theorem mem_added {old new : Option (Node κ α)} {k : κ} {n : Node κ α} :
    (k, n) ∈ added old new ↔ child k old = none ∧ child k new = some n := by
  simp only [added, List.mem_filterMap]
  constructor
  · rintro ⟨j, _, h⟩
    split at h
    · next ho =>
      obtain ⟨m, hm, heq⟩ := Option.map_eq_some_iff.mp h
      obtain ⟨rfl, rfl⟩ := Prod.mk.inj heq
      exact ⟨by simpa using ho, hm⟩
    · cases h
  · rintro ⟨ho, hn⟩
    exact ⟨k, mem_keys.mpr (by rw [hn]; exact Option.some_ne_none n), by simp [ho, hn]⟩

@[simp] theorem added_self (t : Option (Node κ α)) : added t t = [] := by
  refine List.eq_nil_iff_forall_not_mem.mpr ?_
  rintro ⟨k, n⟩ h
  obtain ⟨ho, hn⟩ := mem_added.mp h
  rw [ho] at hn
  cases hn

end PathTree
