/-
Nodes that keep their leaves at the right places, and writes to one place of them.

`Inner` says which places hold children and no leaf. A node is plain when it has none of
them a leaf, a write fits when it is made below such places and keeps them so. For plain
nodes and writes that fit, the laws of `updateChild` need no more conditions: nodes that
differ at one place (`SameBut`) stay so under the same writes, and are the same after one
that covers the place.
-/
import DailyDiary.FirebaseDatabase.WriteTree

set_option autoImplicit false

namespace FirebaseDatabase

variable {κ α : Type} [LinearOrder κ] {Inner : List κ → Prop} {n m v : Node κ α} {p q : List κ}

namespace Node

/-- No leaf of the node is at an inner place. -/
def Plain (Inner : List κ → Prop) (n : Node κ α) : Prop :=
  ∀ p, Inner p → (n.getChild p).leafValue = none

/-- The places above the path are inner ones, and no leaf is put at one. -/
structure Fits (Inner : List κ → Prop) (path : List κ) (v : Node κ α) : Prop where
  way : ∀ q, q <+: path → q ≠ path → Inner q
  below : ∀ r, Inner (path ++ r) → (v.getChild r).leafValue = none

theorem plain_empty (Inner : List κ → Prop) : (empty : Node κ α).Plain Inner := by
  intro p _
  rw [getChild_empty]
  rfl

/-- Nothing that is put below a children node makes it a leaf. -/
theorem leafValue_updateChild (h : n.leafValue = none) (k : κ) (p : List κ) (v : Node κ α) :
    (n.updateChild (k :: p) v).leafValue = none := by
  rw [updateChild_cons, leafValue_updateImmediateChild, h, ite_self]

theorem passes_of (h : ∀ q, q <+: p → q ≠ p → (n.getChild q).leafValue = none) : n.Passes p := by
  induction p generalizing n with
  | nil => trivial
  | cons k p ih =>
    refine ⟨h [] List.nil_prefix (by simp), ih fun q hq hne => ?_⟩
    rw [← getChild_cons]
    exact h (k :: q) (by simpa using hq) (by simpa using hne)

theorem Plain.passes (h : n.Plain Inner) (hp : ∀ q, q <+: p → q ≠ p → Inner q) : n.Passes p :=
  passes_of fun q hq hne => h q (hp q hq hne)

theorem Plain.updateChild (h : n.Plain Inner) (hv : Fits Inner p v) :
    (n.updateChild p v).Plain Inner := by
  intro q hq
  by_cases hpq : p <+: q
  · obtain ⟨r, rfl⟩ := hpq
    rw [getChild_updateChild_append]
    exact hv.below r hq
  · by_cases hqp : q <+: p
    · obtain ⟨r, rfl⟩ := hqp
      rw [getChild_append_updateChild]
      cases r with
      | nil => exact absurd (by simp) hpq
      | cons k r => exact leafValue_updateChild (h q hq) k r v
    · rw [getChild_updateChild_of_disjoint hpq hqp]
      exact h q hq

theorem Plain.overwritten (h : n.Plain Inner) {ws : List (WriteRecord κ α)}
    (hws : ∀ r ∈ ws, Fits Inner r.path r.overwrite) : (n.overwritten ws).Plain Inner := by
  induction ws using List.reverseRecOn with
  | nil => exact h
  | append_singleton ws r ih =>
    rw [overwritten_concat]
    exact (ih fun s hs => hws s (List.mem_append_left _ hs)).updateChild
      (hws r (List.mem_append_right _ (List.mem_singleton_self r)))

/-- The part of a write that is below the place. -/
theorem Fits.getChild (h : Fits Inner p v) (q : List κ)
    (hq : ∀ r, r <+: p ++ q → r ≠ p ++ q → Inner r) : Fits Inner (p ++ q) (v.getChild q) where
  way := hq
  below r hr := by
    rw [← getChild_append]
    exact h.below _ (by rwa [← List.append_assoc])

/-! ## Nodes that differ at one place -/

/-- The second node is the first with what it has itself at the place. -/
def SameBut (p : List κ) (n m : Node κ α) : Prop :=
  n.updateChild p (m.getChild p) = m

theorem sameBut_refl (p : List κ) (n : Node κ α) : SameBut p n n :=
  updateChild_getChild p n

theorem sameBut_nil (n m : Node κ α) : SameBut [] n m := rfl

theorem sameBut_updateChild (p : List κ) (n v : Node κ α) : SameBut p n (n.updateChild p v) := by
  have hread := getChild_updateChild_append p [] v n
  rw [List.append_nil, getChild_nil] at hread
  rw [SameBut, hread]

/-- What was written to the place is taken back. -/
theorem sameBut_of_updateChild (h : n.Passes p) (v : Node κ α) :
    SameBut p (n.updateChild p v) n := by
  have hcover := updateChild_updateChild_append h [] v (n.getChild p)
  rw [List.append_nil, updateChild_getChild] at hcover
  exact hcover

/-- Seen from above the place. -/
theorem SameBut.getChild (h : SameBut (p ++ q) n m) : SameBut q (n.getChild p) (m.getChild p) := by
  rw [SameBut, ← getChild_append, ← getChild_append_updateChild, h]

/-- What is the same at the place is the same. -/
theorem SameBut.eq_of_getChild (h : SameBut p n m) (hp : n.getChild p = m.getChild p) : n = m := by
  rw [← h, ← hp, updateChild_getChild]

/-- A write above the place ends the difference. -/
theorem SameBut.updateChild_above (h : SameBut p n m) (hn : n.Passes q) (hq : q <+: p)
    (x : Node κ α) : n.updateChild q x = m.updateChild q x := by
  obtain ⟨r, rfl⟩ := hq
  rw [← h, updateChild_updateChild_append hn]

/-- A write below a place is part of a write to the place. -/
theorem updateChild_updateChild_below (h : n.Passes p) (q : List κ) (v x : Node κ α) :
    (n.updateChild p v).updateChild (p ++ q) x = n.updateChild p (v.updateChild q x) := by
  induction p generalizing n with
  | nil => rfl
  | cons k p ih =>
    rw [List.cons_append, updateChild_cons, updateChild_cons, updateChild_cons,
      getImmediateChild_updateImmediateChild_self, ih h.2,
      updateImmediateChild_updateImmediateChild h.1]

/-- A write leaves the difference where it is. -/
theorem SameBut.updateChild (h : SameBut p n m) (hp : n.Passes p) (hq : n.Passes q)
    (x : Node κ α) : SameBut p (n.updateChild q x) (m.updateChild q x) := by
  by_cases hqp : q <+: p
  · rw [h.updateChild_above hq hqp]
    exact sameBut_refl p _
  · by_cases hpq : p <+: q
    · obtain ⟨r, rfl⟩ := hpq
      have hread := getChild_updateChild_append p [] ((m.getChild p).updateChild r x) n
      rw [List.append_nil, getChild_nil] at hread
      rw [SameBut, ← h, updateChild_updateChild_below hp, hread, updateChild_updateChild_append hp]
    · rw [SameBut, getChild_updateChild_of_disjoint hqp hpq,
        ← updateChild_comm hpq hqp hp, h]

theorem SameBut.overwritten (h : SameBut p n m) (hn : n.Plain Inner)
    (hp : ∀ q, q <+: p → q ≠ p → Inner q) {ws : List (WriteRecord κ α)}
    (hws : ∀ r ∈ ws, Fits Inner r.path r.overwrite) :
    SameBut p (n.overwritten ws) (m.overwritten ws) := by
  induction ws using List.reverseRecOn with
  | nil => exact h
  | append_singleton ws r ih =>
    have hws' : ∀ s ∈ ws, Fits Inner s.path s.overwrite :=
      fun s hs => hws s (List.mem_append_left _ hs)
    have hr := hws r (List.mem_append_right _ (List.mem_singleton_self r))
    have hplain := hn.overwritten hws'
    rw [overwritten_concat, overwritten_concat]
    exact (ih hws').updateChild (hplain.passes hp) (hplain.passes hr.way) r.overwrite

/-- After a write that covers the place the nodes are the same. -/
theorem SameBut.overwritten_above (h : SameBut p n m) (hn : n.Plain Inner)
    (hp : ∀ q, q <+: p → q ≠ p → Inner q) {ws : List (WriteRecord κ α)}
    (hws : ∀ r ∈ ws, Fits Inner r.path r.overwrite) (hcover : ∃ r ∈ ws, r.path <+: p) :
    n.overwritten ws = m.overwritten ws := by
  induction ws using List.reverseRecOn with
  | nil =>
    obtain ⟨r, hr, -⟩ := hcover
    cases hr
  | append_singleton ws r ih =>
    have hws' : ∀ s ∈ ws, Fits Inner s.path s.overwrite :=
      fun s hs => hws s (List.mem_append_left _ hs)
    have hr := hws r (List.mem_append_right _ (List.mem_singleton_self r))
    rw [overwritten_concat, overwritten_concat]
    by_cases hrp : r.path <+: p
    · exact (h.overwritten hn hp hws').updateChild_above ((hn.overwritten hws').passes hr.way) hrp _
    · obtain ⟨s, hs, hsp⟩ := hcover
      rcases List.mem_append.mp hs with hs | hs
      · rw [ih hws' ⟨s, hs, hsp⟩]
      · exact absurd (List.mem_singleton.mp hs ▸ hsp) hrp

/-- Whatever the nodes were, a write that covers the place decides what is there. -/
theorem getChild_overwritten_above {ws : List (WriteRecord κ α)} (hcover : ∃ r ∈ ws, r.path <+: p)
    (n m : Node κ α) : (n.overwritten ws).getChild p = (m.overwritten ws).getChild p := by
  induction ws using List.reverseRecOn with
  | nil =>
    obtain ⟨r, hr, -⟩ := hcover
    cases hr
  | append_singleton ws r ih =>
    rw [overwritten_concat, overwritten_concat]
    by_cases hrp : r.path <+: p
    · obtain ⟨q, rfl⟩ := hrp
      rw [getChild_updateChild_append, getChild_updateChild_append]
    · obtain ⟨s, hs, hsp⟩ := hcover
      rcases List.mem_append.mp hs with hs | hs
      · exact getChild_updateChild_congr (ih ⟨s, hs, hsp⟩) r.path r.overwrite
      · exact absurd (List.mem_singleton.mp hs ▸ hsp) hrp

theorem overwritten_append (n : Node κ α) (ws ws' : List (WriteRecord κ α)) :
    n.overwritten (ws ++ ws') = (n.overwritten ws).overwritten ws' :=
  List.foldl_append

/-- Writes elsewhere do not show at a place. -/
theorem getChild_overwritten_congr (h : n.getChild p = m.getChild p) (ws : List (WriteRecord κ α)) :
    (n.overwritten ws).getChild p = (m.overwritten ws).getChild p := by
  induction ws using List.reverseRecOn with
  | nil => exact h
  | append_singleton ws r ih =>
    rw [overwritten_concat, overwritten_concat]
    exact getChild_updateChild_congr ih r.path r.overwrite

/-- So neither does it show when one of them is gone. -/
theorem getChild_overwritten_without (n : Node κ α) {before after : List (WriteRecord κ α)}
    {r : WriteRecord κ α} (hrp : ¬ r.path <+: p) (hpr : ¬ p <+: r.path) :
    (n.overwritten (before ++ r :: after)).getChild p =
      (n.overwritten (before ++ after)).getChild p := by
  rw [overwritten_append, overwritten_append]
  exact getChild_overwritten_congr (getChild_updateChild_of_disjoint hrp hpr _ _) after

end Node

end FirebaseDatabase
