/-
What an observer knows of a tree when it is told only of the children that appear.

It starts with the children of a first tree (`entries`) and is given, for every
change of the tree, the children that are new (`appearances`). `perm_entries_iff`
says when the two together are the children of the last tree, each once: no child
may disappear on the way, and each has to end as it was when it appeared.
-/
import DailyDiary.PathTree

set_option autoImplicit false

namespace PathTree

variable {κ α : Type} [DecidableEq κ]

/-- The children of a tree, each once. -/
def entries (t : Option (Node κ α)) : List (κ × Node κ α) :=
  added none t

/-- The children that appear while the tree `t` becomes each of `ts` in turn. -/
def appearances : Option (Node κ α) → List (Option (Node κ α)) → List (κ × Node κ α)
  | _, [] => []
  | t, t' :: ts => added t t' ++ appearances t' ts

/-- No child disappears on the way. -/
def Grows : Option (Node κ α) → List (Option (Node κ α)) → Prop
  | _, [] => True
  | t, t' :: ts => (∀ k, child k t ≠ none → child k t' ≠ none) ∧ Grows t' ts

theorem mem_entries {t : Option (Node κ α)} {k : κ} {n : Node κ α} :
    (k, n) ∈ entries t ↔ child k t = some n := by
  simp [entries, mem_added]

/-- What appears is a child of a tree on the way. -/
theorem mem_appearances {t : Option (Node κ α)} {ts : List (Option (Node κ α))} {k : κ}
    {n : Node κ α} (h : (k, n) ∈ appearances t ts) : ∃ t' ∈ ts, child k t' = some n := by
  induction ts generalizing t with
  | nil => cases h
  | cons t' ts ih =>
    rcases List.mem_append.mp h with h | h
    · exact ⟨t', List.mem_cons_self, (mem_added.mp h).2⟩
    · obtain ⟨t'', hmem, hn⟩ := ih h
      exact ⟨t'', List.mem_cons_of_mem t' hmem, hn⟩

/-! ## Names that occur once -/

theorem nodup_keys_added (old new : Option (Node κ α)) :
    ((added old new).map Prod.fst).Nodup := by
  refine List.Nodup.map_on ?_ ?_
  · rintro ⟨k, n⟩ hn ⟨j, m⟩ hm rfl
    have hsame := (mem_added.mp hn).2.symm.trans (mem_added.mp hm).2
    rw [Option.some.inj hsame]
  · refine (nodup_keys new).filterMap ?_
    rintro k j ⟨i, n⟩ hk hj
    simp only [Option.mem_def] at hk hj
    split at hk
    · obtain ⟨_, _, hk⟩ := Option.map_eq_some_iff.mp hk
      split at hj
      · obtain ⟨_, _, hj⟩ := Option.map_eq_some_iff.mp hj
        exact (Prod.mk.inj hk).1.trans (Prod.mk.inj hj).1.symm
      · cases hj
    · cases hk

theorem child_ne_none_of_mem {t : Option (Node κ α)} {k : κ}
    (h : k ∈ (entries t).map Prod.fst) : child k t ≠ none := by
  obtain ⟨⟨j, n⟩, hn, rfl⟩ := List.mem_map.mp h
  rw [mem_entries.mp hn]
  exact Option.some_ne_none n

theorem mem_keys_entries {t : Option (Node κ α)} {k : κ} (h : child k t ≠ none) :
    k ∈ (entries t).map Prod.fst := by
  obtain ⟨n, hn⟩ := Option.ne_none_iff_exists'.mp h
  exact List.mem_map.mpr ⟨(k, n), mem_entries.mpr hn, rfl⟩

/-- What is there after a change was there before or has appeared. -/
theorem mem_keys_of_child {t t' : Option (Node κ α)} {k : κ} (h : child k t' ≠ none) :
    k ∈ (entries t).map Prod.fst ∨ k ∈ (added t t').map Prod.fst := by
  by_cases hold : child k t = none
  · obtain ⟨n, hn⟩ := Option.ne_none_iff_exists'.mp h
    exact Or.inr (List.mem_map.mpr ⟨(k, n), mem_added.mpr ⟨hold, hn⟩, rfl⟩)
  · exact Or.inl (mem_keys_entries hold)

/-- What is there in the end was there at first or has appeared on the way. -/
theorem mem_keys_of_last {t : Option (Node κ α)} {ts : List (Option (Node κ α))} {k : κ}
    (h : child k (ts.getLastD t) ≠ none) :
    k ∈ (entries t ++ appearances t ts).map Prod.fst := by
  induction ts generalizing t with
  | nil =>
    rw [List.map_append]
    exact List.mem_append_left _ (mem_keys_entries h)
  | cons t' ts ih =>
    rw [List.getLastD_cons] at h
    have hrest := ih h
    simp only [appearances, List.map_append, List.mem_append] at hrest ⊢
    rcases hrest with hnow | hlater
    · rcases mem_keys_of_child (t := t) (child_ne_none_of_mem hnow) with hold | hnew
      · exact Or.inl hold
      · exact Or.inr (Or.inl hnew)
    · exact Or.inr (Or.inr hlater)

/-- When nothing disappears, what appears has not been there before. -/
theorem Grows.child_of_appears {t : Option (Node κ α)} {ts : List (Option (Node κ α))}
    (h : Grows t ts) {k : κ} {n : Node κ α} (hk : (k, n) ∈ appearances t ts) :
    child k t = none := by
  induction ts generalizing t with
  | nil => cases hk
  | cons t' ts ih =>
    rcases List.mem_append.mp hk with hk | hk
    · exact (mem_added.mp hk).1
    · by_contra hne
      exact h.1 k hne (ih h.2 hk)

/-- While nothing disappears, each key appears once: it is there at the start, or it comes
in exactly one of the later steps. -/
theorem Grows.nodup_keys {t : Option (Node κ α)} {ts : List (Option (Node κ α))}
    (h : Grows t ts) : ((entries t ++ appearances t ts).map Prod.fst).Nodup := by
  have happears : ((appearances t ts).map Prod.fst).Nodup := by
    induction ts generalizing t with
    | nil => exact List.nodup_nil
    | cons t' ts ih =>
      rw [appearances, List.map_append, List.nodup_append']
      refine ⟨nodup_keys_added t t', ih h.2, ?_⟩
      intro k hnow hlater
      obtain ⟨⟨_, n⟩, hn, rfl⟩ := List.mem_map.mp hnow
      obtain ⟨⟨_, m⟩, hm, rfl⟩ := List.mem_map.mp hlater
      have hnone := h.2.child_of_appears hm
      rw [(mem_added.mp hn).2] at hnone
      cases hnone
  rw [List.map_append, List.nodup_append']
  refine ⟨nodup_keys_added none t, happears, ?_⟩
  intro k hfirst hlater
  obtain ⟨⟨_, m⟩, hm, rfl⟩ := List.mem_map.mp hlater
  exact child_ne_none_of_mem hfirst (h.child_of_appears hm)

/-- A name that occurs once, and is there in the end, has not disappeared. -/
theorem grows_of_nodup {t : Option (Node κ α)} {ts : List (Option (Node κ α))}
    (hnodup : ((entries t ++ appearances t ts).map Prod.fst).Nodup)
    (hlast : ∀ k ∈ (entries t ++ appearances t ts).map Prod.fst,
      child k (ts.getLastD t) ≠ none) : Grows t ts := by
  induction ts generalizing t with
  | nil => trivial
  | cons t' ts ih =>
    simp only [appearances, List.getLastD_cons, List.map_append, List.mem_append] at hnodup hlast
    rw [List.nodup_append', List.nodup_append'] at hnodup
    obtain ⟨-, ⟨-, hlater, hadded⟩, hfirst⟩ := hnodup
    refine ⟨?_, ih ?_ ?_⟩
    · intro k hk hgone
      have hmem := mem_keys_entries hk
      -- it is there in the end, so it has appeared again
      have hagain := mem_keys_of_last (hlast k (Or.inl hmem))
      rw [List.map_append] at hagain
      rcases List.mem_append.mp hagain with hnow | hagain
      · exact child_ne_none_of_mem hnow hgone
      · exact hfirst hmem (List.mem_append_right _ hagain)
    · rw [List.map_append, List.nodup_append']
      refine ⟨nodup_keys_added none t', hlater, ?_⟩
      intro k hnow hk
      rcases mem_keys_of_child (t := t) (child_ne_none_of_mem hnow) with hold | hnew
      · exact hfirst hold (List.mem_append_right _ hk)
      · exact hadded hnew hk
    · intro k hk
      rw [List.map_append] at hk
      rcases List.mem_append.mp hk with hnow | hk
      · rcases mem_keys_of_child (t := t) (child_ne_none_of_mem hnow) with hold | hnew
        · exact hlast k (Or.inl hold)
        · exact hlast k (Or.inr (Or.inl hnew))
      · exact hlast k (Or.inr (Or.inr hk))

/-- **When additions are enough.** What was there at first and what has appeared are
the children of the last tree, each once, exactly when none has disappeared and
each is in the end as it was when it appeared. -/
theorem perm_entries_iff (t : Option (Node κ α)) (ts : List (Option (Node κ α))) :
    (entries t ++ appearances t ts).Perm (entries (ts.getLastD t)) ↔
      Grows t ts ∧ ∀ p ∈ entries t ++ appearances t ts, child p.1 (ts.getLastD t) = some p.2 := by
  constructor
  · intro hperm
    have hvalue : ∀ p ∈ entries t ++ appearances t ts,
        child p.1 (ts.getLastD t) = some p.2 := fun p hp => mem_entries.mp (hperm.mem_iff.mp hp)
    refine ⟨grows_of_nodup ?_ ?_, hvalue⟩
    · exact (hperm.map Prod.fst).nodup_iff.mpr (nodup_keys_added none _)
    · intro k hk
      obtain ⟨p, hp, rfl⟩ := List.mem_map.mp hk
      rw [hvalue p hp]
      exact Option.some_ne_none p.2
  · rintro ⟨hgrows, hvalue⟩
    have hlast : (entries (ts.getLastD t)).Nodup := (nodup_keys_added none _).of_map
    refine (List.perm_ext_iff_of_nodup hgrows.nodup_keys.of_map hlast).mpr ?_
    rintro ⟨k, n⟩
    rw [mem_entries]
    constructor
    · exact fun hp => hvalue (k, n) hp
    · intro hn
      have hkey := mem_keys_of_last (by rw [hn]; exact Option.some_ne_none n)
      obtain ⟨⟨j, m⟩, hm, rfl⟩ := List.mem_map.mp hkey
      obtain rfl := Option.some.inj (hn.symm.trans (hvalue (j, m) hm))
      exact hm

end PathTree
