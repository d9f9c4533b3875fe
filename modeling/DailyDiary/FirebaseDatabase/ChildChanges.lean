/-
`FChange`, `FChildChangeAccumulator` and `FIndexedFilter`: what is reported of the children
of a node while it is updated.

The accumulator keeps one change for each child and merges a new one into it. It refuses
some combinations; `Reports.track` says that it never has to when every change is one from
what the last update left, and that what it keeps is then a change from the first node to
the last (`Reports`). A child that goes and comes back as it was is kept as changed, so the
report of a child does not say that it is another one.

The two updates of the filter keep such a report (`updateFullNode_reports`,
`updateChildIn_reports`), so the accumulator never raises. The update of a child raises by
itself in a Debug build, when it takes a new child for the old one by the affected path alone
and is mistaken; `Unmistaken` says that it is not.
-/
import DailyDiary.FirebaseDatabase.Node

set_option autoImplicit false

namespace FirebaseDatabase

open SortedDictionary

variable {κ α : Type} [LinearOrder κ]

/-- `FChange` of a child, without its key. -/
inductive Change (κ α : Type) [LinearOrder κ] where
  | childAdded (snap : Node κ α)
  | childRemoved (snap : Node κ α)
  | childChanged (snap oldSnap : Node κ α)

/-- `changeMap` of the accumulator. -/
abbrev ChangeMap (κ α : Type) [LinearOrder κ] := List (κ × Change κ α)

/-- `trackChildChange:`; none where it raises. -/
def trackChildChange (changeMap : ChangeMap κ α) (childKey : κ) (change : Change κ α) :
    Option (ChangeMap κ α) :=
  match changeMap.lookup childKey with
  | none => some (insertKey childKey change changeMap)
  | some oldChange =>
    match change, oldChange with
    | .childAdded snap, .childRemoved oldSnap =>
      some (insertKey childKey (.childChanged snap oldSnap) changeMap)
    | .childRemoved _, .childAdded _ => some (removeKey childKey changeMap)
    | .childRemoved _, .childChanged _ oldSnap =>
      some (insertKey childKey (.childRemoved oldSnap) changeMap)
    | .childChanged snap _, .childAdded _ =>
      some (insertKey childKey (.childAdded snap) changeMap)
    | .childChanged snap _, .childChanged _ oldSnap =>
      some (insertKey childKey (.childChanged snap oldSnap) changeMap)
    | _, _ => none

/-! ## What a change says -/

/-- The change is one from `x` to `y`; without one they are the same. -/
inductive Describes : Option (Change κ α) → Node κ α → Node κ α → Prop where
  | nothing (x : Node κ α) : Describes none x x
  | added {y : Node κ α} (hy : y ≠ .empty) : Describes (some (.childAdded y)) .empty y
  | removed {x : Node κ α} (hx : x ≠ .empty) : Describes (some (.childRemoved x)) x .empty
  | changed {x y : Node κ α} (hx : x ≠ .empty) (hy : y ≠ .empty) :
      Describes (some (.childChanged y x)) x y

/-- The changes are those from the children of `n` to what `f` says. -/
structure Reports (n : Node κ α) (f : κ → Node κ α) (changes : ChangeMap κ α) : Prop where
  sorted : Sorted changes
  describes : ∀ k, Describes (changes.lookup k) (n.getImmediateChild k) (f k)

theorem reports_nil (n : Node κ α) : Reports n n.getImmediateChild [] where
  sorted := sorted_nil
  describes _ := .nothing _

variable {n m : Node κ α} {f : κ → Node κ α} {changes : ChangeMap κ α} {k : κ}

theorem Reports.insertKey (h : Reports n f changes) {change : Change κ α} {y : Node κ α}
    (hchange : Describes (some change) (n.getImmediateChild k) y) :
    Reports n (Function.update f k y) (insertKey k change changes) where
  sorted := h.sorted.insertKey k change
  describes j := by
    by_cases hj : j = k
    · subst hj
      rwa [lookup_insertKey_self, Function.update_self]
    · rw [lookup_insertKey_of_ne hj, Function.update_of_ne hj]
      exact h.describes j

theorem Reports.removeKey (h : Reports n f changes) :
    Reports n (Function.update f k (n.getImmediateChild k)) (removeKey k changes) where
  sorted := h.sorted.removeKey k
  describes j := by
    by_cases hj : j = k
    · subst hj
      rw [h.sorted.lookup_removeKey_self, Function.update_self]
      exact .nothing _
    · rw [lookup_removeKey_of_ne hj, Function.update_of_ne hj]
      exact h.describes j

/-- **Changes from one update to the next are merged.** -/
theorem Reports.track (h : Reports n f changes) {change : Change κ α} {y : Node κ α}
    (hchange : Describes (some change) (f k) y) :
    ∃ changes', trackChildChange changes k change = some changes' ∧
      Reports n (Function.update f k y) changes' := by
  have hold := h.describes k
  rw [trackChildChange]
  generalize hx : n.getImmediateChild k = x at hold
  generalize hz : f k = z at hold hchange
  cases hlookup : changes.lookup k with
  | none =>
    rw [hlookup] at hold
    cases hold
    exact ⟨_, rfl, h.insertKey (hx ▸ hchange)⟩
  | some oldChange =>
    rw [hlookup] at hold
    -- what was kept is from `x` to `z`, and the new change from `z` to `y`
    cases hold with
    | added hz =>
      cases hchange with
      | added hy => exact absurd rfl hz
      | removed hz => exact ⟨_, rfl, hx ▸ h.removeKey⟩
      | changed hz hy => exact ⟨_, rfl, h.insertKey (hx.symm ▸ .added hy)⟩
    | removed hx' =>
      cases hchange with
      | added hy => exact ⟨_, rfl, h.insertKey (hx.symm ▸ .changed hx' hy)⟩
      | removed hz => exact absurd rfl hz
      | changed hz hy => exact absurd rfl hz
    | changed hx' hz =>
      cases hchange with
      | added hy => exact absurd rfl hz
      | removed hz => exact ⟨_, rfl, h.insertKey (hx.symm ▸ .removed hx')⟩
      | changed hz hy => exact ⟨_, rfl, h.insertKey (hx.symm ▸ .changed hx' hy)⟩

/-! ## `FIndexedFilter` -/

theorem getImmediateChild_updateImmediateChild (k : κ) (c n : Node κ α) :
    (n.updateImmediateChild k c).getImmediateChild = Function.update n.getImmediateChild k c := by
  funext j
  by_cases hj : j = k
  · subst hj
    rw [Node.getImmediateChild_updateImmediateChild_self, Function.update_self]
  · rw [Node.getImmediateChild_updateImmediateChild_of_ne hj, Function.update_of_ne hj]

theorem updateImmediateChild_empty_of_leaf (h : m.isLeafNode = true) (k : κ) :
    m.updateImmediateChild k .empty = m := by
  have hchild := Node.getImmediateChild_of_leaf (Option.isSome_iff_ne_none.mp h) k
  rw [← hchild, Node.updateImmediateChild_getImmediateChild]

/-- Where the affected node is the same there is nothing to do. -/
theorem updateChild_eq_self {m y : Node κ α} {p : List κ} (h : m.getChild p = y) :
    m.updateChild p y = m := by
  rw [← h, Node.updateChild_getChild]

section Filter

variable [DecidableEq α]

/-- What `updateChildIn:` tells the accumulator; that a child is removed which was not there
is asserted to happen below a leaf only. -/
def trackChild (node : Node κ α) (childKey : κ) (newChildSnap : Node κ α)
    (changes : ChangeMap κ α) : Option (ChangeMap κ α) :=
  let oldChildSnap := node.getImmediateChild childKey
  if newChildSnap.isEmpty then
    if node.hasChild childKey then trackChildChange changes childKey (.childRemoved oldChildSnap)
    else if node.isLeafNode then some changes
    else none
  else if oldChildSnap.isEmpty then trackChildChange changes childKey (.childAdded newChildSnap)
  else trackChildChange changes childKey (.childChanged newChildSnap oldChildSnap)

/-- `updateChildIn:forChildKey:newChild:affectedPath:fromSource:accumulator:`; none where a Debug
build raises. -/
def updateChildIn (node : Node κ α) (childKey : κ) (newChildSnap : Node κ α)
    (affectedPath : List κ) (optChangeAccumulator : Option (ChangeMap κ α)) :
    Option (Node κ α × Option (ChangeMap κ α)) :=
  let oldChildSnap := node.getImmediateChild childKey
  if (oldChildSnap.getChild affectedPath).isEqual (newChildSnap.getChild affectedPath) &&
      oldChildSnap.isEmpty == newChildSnap.isEmpty then
    -- nothing changed, which a Debug build asserts of the whole child
    if oldChildSnap.isEqual newChildSnap then some (node, optChangeAccumulator) else none
  else
    let newNode :=
      if node.isLeafNode && newChildSnap.isEmpty then node
      else node.updateImmediateChild childKey newChildSnap
    match optChangeAccumulator with
    | none => some (newNode, none)
    | some changes =>
      (trackChild node childKey newChildSnap changes).map fun changes => (newNode, some changes)

/-- The first enumeration of `updateFullNode:`. -/
def trackGone (oldSnap newSnap : Node κ α) (changes : ChangeMap κ α) (childKey : κ) :
    Option (ChangeMap κ α) :=
  if newSnap.hasChild childKey then some changes
  else trackChildChange changes childKey (.childRemoved (oldSnap.getImmediateChild childKey))

/-- The second one. -/
def trackThere (oldSnap newSnap : Node κ α) (changes : ChangeMap κ α) (childKey : κ) :
    Option (ChangeMap κ α) :=
  let childNode := newSnap.getImmediateChild childKey
  if oldSnap.hasChild childKey then
    let oldChildSnap := oldSnap.getImmediateChild childKey
    if oldChildSnap.isEqual childNode then some changes
    else trackChildChange changes childKey (.childChanged childNode oldChildSnap)
  else trackChildChange changes childKey (.childAdded childNode)

/-- `updateFullNode:withNewNode:accumulator:` -/
def updateFullNode (oldSnap newSnap : Node κ α) (optChangeAccumulator : Option (ChangeMap κ α)) :
    Option (Node κ α × Option (ChangeMap κ α)) :=
  match optChangeAccumulator with
  | none => some (newSnap, none)
  | some changes => do
    let changes ← oldSnap.childNames.foldlM (trackGone oldSnap newSnap) changes
    let changes ← newSnap.childNames.foldlM (trackThere oldSnap newSnap) changes
    pure (newSnap, some changes)

/-! ### One child -/

omit [DecidableEq α] in
/-- The node is the one with the new child, whichever branch is taken. -/
theorem newNode_eq (m c : Node κ α) (k : κ) :
    (if m.isLeafNode && c.isEmpty then m else m.updateImmediateChild k c) =
      m.updateImmediateChild k c := by
  split
  · next h =>
    rw [Bool.and_eq_true, Node.isEmpty_iff] at h
    rw [h.2, updateImmediateChild_empty_of_leaf h.1]
  · rfl

omit [DecidableEq α] in
theorem trackChild_reports (h : Reports n m.getImmediateChild changes) {c : Node κ α}
    (hc : ¬ (m.getImmediateChild k = .empty ∧ c = .empty)) :
    ∃ changes', trackChild m k c changes = some changes' ∧
      Reports n (m.updateImmediateChild k c).getImmediateChild changes' := by
  rw [getImmediateChild_updateImmediateChild, trackChild]
  by_cases hempty : c = .empty
  · subst hempty
    have hold : m.getImmediateChild k ≠ .empty := fun hold => hc ⟨hold, rfl⟩
    rw [Node.isEmpty_empty, if_pos rfl, if_pos (Node.hasChild_iff.mpr hold)]
    exact h.track (.removed hold)
  · have hfull : c.isEmpty = false := by rwa [← Bool.not_eq_true, Node.isEmpty_iff]
    rw [hfull, if_neg Bool.false_ne_true]
    by_cases hold : m.getImmediateChild k = .empty
    · rw [hold, Node.isEmpty_empty, if_pos rfl]
      exact h.track (hold ▸ .added hempty)
    · have hold' : (m.getImmediateChild k).isEmpty = false := by
        rwa [← Bool.not_eq_true, Node.isEmpty_iff]
      rw [hold', if_neg Bool.false_ne_true]
      exact h.track (.changed hold hempty)

/-- What `updateChildIn:` asserts: a new child `c` that is not told from the old one `x` by what is
at the affected path, and by whether there is anything at all, is the old one. -/
def Unmistaken (x c : Node κ α) (p : List κ) : Prop :=
  ((x.getChild p).isEqual (c.getChild p) && x.isEmpty == c.isEmpty) = true → c = x

/-- A child that is updated at the affected path is told from the old one there. -/
theorem unmistaken_updateChild (x y : Node κ α) (p : List κ) :
    Unmistaken x (x.updateChild p y) p := by
  intro h
  have hread := Node.getChild_updateChild_append p [] y x
  rw [List.append_nil, Node.getChild_nil] at hread
  rw [Bool.and_eq_true, Node.isEqual_iff, hread] at h
  exact updateChild_eq_self h.1

theorem unmistaken_nil (x c : Node κ α) : Unmistaken x c [] := by
  intro h
  rw [Bool.and_eq_true, Node.isEqual_iff] at h
  exact h.1.symm

theorem unmistaken_self (x : Node κ α) (p : List κ) : Unmistaken x x p :=
  fun _ => rfl

/-- Where there was nothing, or nothing is left, the second check tells the two apart. -/
theorem unmistaken_of_empty {x c : Node κ α} (h : x = .empty ∨ c = .empty) (p : List κ) :
    Unmistaken x c p := by
  intro hsame
  have hempty : x = .empty ↔ c = .empty := by
    rw [← Node.isEmpty_iff, ← Node.isEmpty_iff, ← Bool.eq_iff_iff]
    exact beq_iff_eq.mp (Bool.and_eq_true_iff.mp hsame).2
  rcases h with rfl | rfl
  · exact hempty.mp rfl
  · exact (hempty.mpr rfl).symm

/-- **An update of a child**: the change is merged, when the new child is not mistaken for the old
one. -/
theorem updateChildIn_reports (h : Reports n m.getImmediateChild changes) {c : Node κ α}
    {p : List κ} (hc : Unmistaken (m.getImmediateChild k) c p) :
    ∃ m' changes', updateChildIn m k c p (some changes) = some (m', some changes') ∧
      Reports n m'.getImmediateChild changes' := by
  rw [updateChildIn]
  dsimp only
  split
  · next hsame =>
    rw [if_pos (Node.isEqual_iff.mpr (hc hsame).symm)]
    exact ⟨m, changes, rfl, h⟩
  · next hdiff =>
    have hc : ¬ (m.getImmediateChild k = .empty ∧ c = .empty) := by
      rintro ⟨hold, rfl⟩
      rw [hold] at hdiff
      exact hdiff (by simp)
    obtain ⟨changes', htrack, hreports⟩ := trackChild_reports h hc
    rw [htrack, newNode_eq]
    exact ⟨_, changes', rfl, hreports⟩

/-- A new child that is mistaken for the old one raises, whatever is reported. -/
theorem updateChildIn_eq_none {c : Node κ α} {p : List κ}
    (hc : ¬ Unmistaken (m.getImmediateChild k) c p) (acc : Option (ChangeMap κ α)) :
    updateChildIn m k c p acc = none := by
  obtain ⟨hsame, hne⟩ := Classical.not_imp.mp hc
  rw [updateChildIn]
  dsimp only
  rw [if_pos hsame, if_neg fun heq => hne (Node.isEqual_iff.mp heq).symm]

/-- Without an accumulator nothing else can go wrong. -/
theorem exists_updateChildIn_nil {c : Node κ α} {p : List κ}
    (hc : Unmistaken (m.getImmediateChild k) c p) :
    ∃ m', updateChildIn m k c p none = some (m', none) := by
  rw [updateChildIn]
  dsimp only
  split
  · next hsame =>
    rw [if_pos (Node.isEqual_iff.mpr (hc hsame).symm)]
    exact ⟨m, rfl⟩
  · exact ⟨_, rfl⟩

/-- The new child is put in, or it is the old one. -/
theorem updateChildIn_eq_some {c m' : Node κ α} {p : List κ} {acc acc' : Option (ChangeMap κ α)}
    (h : updateChildIn m k c p acc = some (m', acc')) : m' = m.updateImmediateChild k c := by
  rw [updateChildIn] at h
  dsimp only at h
  split at h
  · split at h
    · next hequal =>
      rw [← Node.isEqual_iff.mp hequal, Node.updateImmediateChild_getImmediateChild]
      exact (Prod.mk.inj (Option.some.inj h)).1.symm
    · cases h
  · rw [newNode_eq] at h
    cases acc with
    | none => exact (Prod.mk.inj (Option.some.inj h)).1.symm
    | some changes =>
      obtain ⟨changes', -, heq⟩ := Option.map_eq_some_iff.mp h
      exact (Prod.mk.inj heq).1.symm

/-- **An update of a child below a path** is an update of the node below it. -/
theorem updateChildIn_updateChild {y m' : Node κ α} {p : List κ} {acc acc' : Option (ChangeMap κ α)}
    (h : updateChildIn m k ((m.getImmediateChild k).updateChild p y) p acc = some (m', acc')) :
    m' = m.updateChild (k :: p) y := by
  rw [Node.updateChild_cons]
  exact updateChildIn_eq_some h

end Filter

/-! ### The whole node -/

/-- Changes for some of the children, each once, bring the report from `f` to `g`. -/
theorem Reports.foldlM {step : ChangeMap κ α → κ → Option (ChangeMap κ α)} {g : κ → Node κ α}
    {names : List κ} (hnames : names.Nodup)
    (hstep : ∀ changes f, Reports n f changes → ∀ k ∈ names, f k = m.getImmediateChild k →
      ∃ changes', step changes k = some changes' ∧ Reports n (Function.update f k (g k)) changes')
    {f : κ → Node κ α} (hold : ∀ k ∈ names, f k = m.getImmediateChild k)
    (hnew : ∀ k, k ∉ names → f k = g k) (h : Reports n f changes) :
    ∃ changes', names.foldlM step changes = some changes' ∧ Reports n g changes' := by
  induction names generalizing f changes with
  | nil =>
    obtain rfl : f = g := funext fun k => hnew k List.not_mem_nil
    exact ⟨changes, rfl, h⟩
  | cons k names ih =>
    obtain ⟨hk, hnodup⟩ := List.nodup_cons.mp hnames
    obtain ⟨changes₁, hstep₁, h₁⟩ :=
      hstep changes f h k List.mem_cons_self (hold k List.mem_cons_self)
    have hrest : ∀ j ∈ names, Function.update f k (g k) j = m.getImmediateChild j := by
      intro j hj
      have hjk : j ≠ k := by
        rintro rfl
        exact hk hj
      rw [Function.update_of_ne hjk]
      exact hold j (List.mem_cons_of_mem k hj)
    have hdone : ∀ j, j ∉ names → Function.update f k (g k) j = g j := by
      intro j hj
      by_cases hjk : j = k
      · subst hjk
        rw [Function.update_self]
      · rw [Function.update_of_ne hjk]
        exact hnew j (List.not_mem_cons_of_ne_of_not_mem hjk hj)
    obtain ⟨changes', hfold, h'⟩ := ih hnodup
      (fun changes f h j hj => hstep changes f h j (List.mem_cons_of_mem k hj)) hrest hdone h₁
    exact ⟨changes', by rw [List.foldlM_cons, hstep₁]; exact hfold, h'⟩

/-- The children that are still there. -/
def remaining (oldSnap newSnap : Node κ α) (k : κ) : Node κ α :=
  if newSnap.hasChild k then oldSnap.getImmediateChild k else .empty

theorem trackGone_reports (h : Reports n f changes) (hold : f k = m.getImmediateChild k)
    (hk : k ∈ m.childNames) (newSnap : Node κ α) :
    ∃ changes', trackGone m newSnap changes k = some changes' ∧
      Reports n (Function.update f k (remaining m newSnap k)) changes' := by
  rw [trackGone, remaining, ← hold]
  split
  · exact ⟨changes, rfl, by rwa [Function.update_eq_self]⟩
  · refine h.track (.removed ?_)
    rw [hold]
    exact Node.hasChild_iff.mp (Node.mem_childNames.mp hk)

theorem trackThere_reports [DecidableEq α] (h : Reports n f changes)
    (hold : f k = m.getImmediateChild k) {newSnap : Node κ α} (hk : k ∈ newSnap.childNames) :
    ∃ changes', trackThere m newSnap changes k = some changes' ∧
      Reports n (Function.update f k (newSnap.getImmediateChild k)) changes' := by
  have hnew := Node.hasChild_iff.mp (Node.mem_childNames.mp hk)
  rw [trackThere, ← hold]
  dsimp only
  split
  · next hchild =>
    split
    · next hequal =>
      rw [← Node.isEqual_iff.mp hequal, Function.update_eq_self]
      exact ⟨changes, rfl, h⟩
    · exact h.track (.changed (hold ▸ Node.hasChild_iff.mp hchild) hnew)
  · next hchild =>
    rw [Node.hasChild_iff, not_not, ← hold] at hchild
    exact h.track (hchild ▸ .added hnew)

/-- **A full update** of a node, too. -/
theorem updateFullNode_reports [DecidableEq α] (h : Reports n m.getImmediateChild changes)
    (newSnap : Node κ α) : ∃ changes', updateFullNode m newSnap (some changes) =
      some (newSnap, some changes') ∧ Reports n newSnap.getImmediateChild changes' := by
  have hgone : ∀ k, k ∉ m.childNames → m.getImmediateChild k = remaining m newSnap k := by
    intro k hk
    rw [Node.mem_childNames, Node.hasChild_iff, not_not] at hk
    rw [remaining, hk, ite_self]
  obtain ⟨changes₁, hfold₁, h₁⟩ := h.foldlM (m := m) m.nodup_childNames
    (fun _ _ h _ hk hold => trackGone_reports h hold hk newSnap) (fun _ _ => rfl) hgone
  have hthere : ∀ k ∈ newSnap.childNames, remaining m newSnap k = m.getImmediateChild k :=
    fun k hk => if_pos (Node.mem_childNames.mp hk)
  have hnone : ∀ k, k ∉ newSnap.childNames →
      remaining m newSnap k = newSnap.getImmediateChild k := by
    intro k hk
    rw [Node.mem_childNames] at hk
    rw [remaining, if_neg hk]
    rw [Node.hasChild_iff, not_not] at hk
    exact hk.symm
  obtain ⟨changes', hfold', h'⟩ := h₁.foldlM (m := m) newSnap.nodup_childNames
    (fun _ _ h k hk hold => trackThere_reports h hold hk) hthere hnone
  refine ⟨changes', ?_, h'⟩
  simp only [updateFullNode, bind, Option.bind, hfold₁, hfold', pure]

theorem updateFullNode_eq_some [DecidableEq α] {newSnap m' : Node κ α}
    {acc acc' : Option (ChangeMap κ α)} (h : updateFullNode m newSnap acc = some (m', acc')) :
    m' = newSnap := by
  cases acc with
  | none => exact (Prod.mk.inj (Option.some.inj h)).1.symm
  | some changes =>
    simp only [updateFullNode, bind, Option.bind_eq_some_iff, pure] at h
    obtain ⟨_, -, _, -, h⟩ := h
    exact (Prod.mk.inj (Option.some.inj h)).1.symm

end FirebaseDatabase
