/-
`FEventGenerator`: the events that are raised for the changes of a view, and what a listener
that goes by them knows.

Removals are raised first, then additions and then changes, each in the order of the keys;
an added or changed child comes with the name of the child before it. A list that is kept by
these events (`handle`) is the list of the children, in their order
(`handle_generateEventsForChanges`): when a child is added the one before it is there, because it was
there before or has been added already.

The events are those of a registration that responds to every type. Nothing is moved without
priorities.
-/
import DailyDiary.FirebaseDatabase.ChildChanges

set_option autoImplicit false

namespace FirebaseDatabase

open SortedDictionary

variable {κ α : Type} [LinearOrder κ]

/-- `FIRDataEventType` of a change of a child -/
inductive ChildEventType where
  | removed
  | added
  | changed
deriving DecidableEq

def Change.type : Change κ α → ChildEventType
  | .childAdded _ => .added
  | .childRemoved _ => .removed
  | .childChanged _ _ => .changed

/-- `FDataEvent`: the snapshot with its key, and the name of the child before. -/
inductive DataEvent (κ α : Type) [LinearOrder κ] where
  | childRemoved (key : κ) (snap : Node κ α)
  | childAdded (key : κ) (snap : Node κ α) (prevName : Option κ)
  | childChanged (key : κ) (snap : Node κ α) (prevName : Option κ)
  | value (snap : Node κ α)

/-- `predecessorChildKey:`; none where it raises because there is no such child. -/
def Node.predecessorChildKey (n : Node κ α) (childKey : κ) : Option (Option κ) :=
  getPredecessorKey none childKey n.childEntries

/-- `generateEventForChange:registration:eventCache:` -/
def generateEventForChange (eventCache : Node κ α) (c : κ × Change κ α) :
    Option (DataEvent κ α) :=
  match c.2 with
  | .childRemoved snap => some (.childRemoved c.1 snap)
  | .childAdded snap => (eventCache.predecessorChildKey c.1).map (.childAdded c.1 snap)
  | .childChanged snap _ => (eventCache.predecessorChildKey c.1).map (.childChanged c.1 snap)

/-- `generateEvents:forType:changes:eventCache:eventRegistrations:` -/
def generateEvents (eventType : ChildEventType) (changes : ChangeMap κ α)
    (eventCache : Node κ α) : Option (List (DataEvent κ α)) :=
  (changes.filter fun c => c.2.type = eventType).mapM (generateEventForChange eventCache)

/-- `generateEventsForChanges:eventCache:eventRegistrations:`, with the value change apart. -/
def generateEventsForChanges (changes : ChangeMap κ α) (valueChange : Option (Node κ α))
    (eventCache : Node κ α) : Option (List (DataEvent κ α)) := do
  let removed ← generateEvents .removed changes eventCache
  let added ← generateEvents .added changes eventCache
  let changed ← generateEvents .changed changes eventCache
  pure (removed ++ added ++ changed ++ valueChange.toList.map .value)

/-- What a listener does that keeps a list of the children. -/
def handle (children : List (κ × Node κ α)) : DataEvent κ α → List (κ × Node κ α)
  | .childRemoved key _ => removeKey key children
  | .childAdded key snap prevName => insertAfter prevName key snap children
  | .childChanged key snap _ => replaceKey key snap children
  | .value _ => children

/-- The snapshot of a value event. -/
def DataEvent.valueSnap : DataEvent κ α → Option (Node κ α)
  | .value snap => some snap
  | _ => none

/-- What the last value event says. -/
def lastValue (events : List (DataEvent κ α)) : Option (Node κ α) :=
  (events.filterMap DataEvent.valueSnap).getLast?

/-! ## One event -/

/-- The list has the children that `f` says, in the order of their names. -/
structure Mirrors (f : κ → Node κ α) (children : List (κ × Node κ α)) : Prop where
  sorted : Sorted children
  lookup : ∀ k, children.lookup k = if (f k).isEmpty then none else some (f k)

variable {f g : κ → Node κ α} {l : List (κ × Node κ α)} {k : κ} {n m y : Node κ α}

theorem mirrors_childEntries (n : Node κ α) : Mirrors n.getImmediateChild n.childEntries where
  sorted := n.sorted_childEntries
  lookup k := by
    rw [n.lookup_childEntries, Node.hasChild]
    cases (n.getImmediateChild k).isEmpty <;> rfl

/-- There is one such list. -/
theorem Mirrors.eq_childEntries (h : Mirrors n.getImmediateChild l) : l = n.childEntries := by
  refine h.sorted.ext n.sorted_childEntries fun k => ?_
  rw [h.lookup, (mirrors_childEntries n).lookup]

theorem Mirrors.lookup_of_ne_empty (h : Mirrors f l) (hk : f k ≠ .empty) :
    l.lookup k = some (f k) := by
  have hfull : (f k).isEmpty = false := by rwa [← Bool.not_eq_true, Node.isEmpty_iff]
  rw [h.lookup, hfull, if_neg Bool.false_ne_true]

theorem Mirrors.ne_empty_of_mem (h : Mirrors f l) {c : κ × Node κ α} (hc : c ∈ l) :
    f c.1 ≠ .empty := by
  have hlookup := h.sorted.mem_iff.mp hc
  intro hempty
  rw [h.lookup, hempty] at hlookup
  cases hlookup

theorem Mirrors.insertKey (h : Mirrors f l) (hy : y ≠ .empty) (k : κ) :
    Mirrors (Function.update f k y) (insertKey k y l) where
  sorted := h.sorted.insertKey k y
  lookup j := by
    by_cases hj : j = k
    · subst hj
      have hfull : y.isEmpty = false := by rwa [← Bool.not_eq_true, Node.isEmpty_iff]
      rw [lookup_insertKey_self, Function.update_self, hfull, if_neg Bool.false_ne_true]
    · rw [lookup_insertKey_of_ne hj, Function.update_of_ne hj, h.lookup]

theorem Mirrors.removeKey (h : Mirrors f l) (k : κ) :
    Mirrors (Function.update f k .empty) (removeKey k l) where
  sorted := h.sorted.removeKey k
  lookup j := by
    by_cases hj : j = k
    · subst hj
      rw [h.sorted.lookup_removeKey_self, Function.update_self, Node.isEmpty_empty, if_pos rfl]
    · rw [lookup_removeKey_of_ne hj, Function.update_of_ne hj, h.lookup]

/-- A child of the event cache has a name before it, which is the one before it in the list
when the list has all the earlier children and no others. -/
theorem Mirrors.insertAfter (h : Mirrors f l) (hk : n.getImmediateChild k ≠ .empty)
    (hearlier : ∀ j < k, n.getImmediateChild j ≠ .empty → f j ≠ .empty)
    (hother : ∀ j, f j ≠ .empty → j ≠ k ∧ n.getImmediateChild j ≠ .empty) :
    ∃ prev, n.predecessorChildKey k = some prev ∧
      ∀ y, insertAfter prev k y l = SortedDictionary.insertKey k y l := by
  have hmirror := mirrors_childEntries n
  obtain ⟨prev, hprev⟩ := exists_getPredecessorKey none (hmirror.lookup_of_ne_empty hk)
  have hplace := hmirror.sorted.of_getPredecessorKey
    (fun i hi => absurd hi (Option.not_mem_none i)) hprev
  have hmem : ∀ j, n.getImmediateChild j ≠ .empty → (j, n.getImmediateChild j) ∈ n.childEntries :=
    fun j hj => hmirror.sorted.mem_iff.mpr (hmirror.lookup_of_ne_empty hj)
  refine ⟨prev, hprev, fun y => ?_⟩
  cases prev with
  | none =>
    refine (insertKey_eq_cons (fun c hc => ?_) y).symm
    obtain ⟨hne, hchild⟩ := hother c.1 (h.ne_empty_of_mem hc)
    have hle := (hplace.1 rfl).2 (c.1, n.getImmediateChild c.1) (hmem c.1 hchild)
    exact lt_of_le_of_ne hle hne.symm
  | some i =>
    obtain ⟨hi, hik, hbetween⟩ := hplace.2 i rfl
    have hmemi : (i, f i) ∈ l := by
      rcases hi with hi | ⟨c, hi⟩
      · cases hi
      · have hfi := hearlier i hik (hmirror.ne_empty_of_mem hi)
        exact h.sorted.mem_iff.mpr (h.lookup_of_ne_empty hfi)
    refine h.sorted.insertBehind_eq_insertKey hmemi hik (fun c hc => ?_) y
    obtain ⟨hne, hchild⟩ := hother c.1 (h.ne_empty_of_mem hc)
    rcases hbetween (c.1, n.getImmediateChild c.1) (hmem c.1 hchild) with hle | hle
    · exact Or.inl hle
    · exact Or.inr (lt_of_le_of_ne hle hne.symm)

/-! ## All events -/

/-- The events take a listener from the children `f` to the children `g`. -/
def Plays (f g : κ → Node κ α) (es : List (DataEvent κ α)) : Prop :=
  ∀ l, Mirrors f l → Mirrors g (es.foldl handle l)

theorem plays_nil (f : κ → Node κ α) : Plays f f [] :=
  fun _ h => h

theorem Plays.append {h : κ → Node κ α} {es es' : List (DataEvent κ α)} (hf : Plays f g es)
    (hg : Plays g h es') : Plays f h (es ++ es') := by
  intro l hl
  rw [List.foldl_append]
  exact hg _ (hf l hl)

/-- The children when those with the names `done` are new already. -/
def stage (old new : Node κ α) (done : List κ) (k : κ) : Node κ α :=
  if k ∈ done then new.getImmediateChild k else old.getImmediateChild k

theorem stage_concat (old new : Node κ α) (done : List κ) (k : κ) :
    stage old new (done ++ [k]) =
      Function.update (stage old new done) k (new.getImmediateChild k) := by
  funext j
  by_cases hj : j = k
  · subst hj
    rw [Function.update_self, stage, if_pos (by simp)]
  · rw [Function.update_of_ne hj, stage, stage]
    simp [hj]

variable {old new x : Node κ α} {done : List κ}

theorem plays_removed (hk : Describes (some (.childRemoved x)) (old.getImmediateChild k)
    (new.getImmediateChild k)) (done : List κ) :
    Plays (stage old new done) (stage old new (done ++ [k])) [.childRemoved k x] := by
  intro l hl
  generalize hnew : new.getImmediateChild k = z at hk
  cases hk with
  | removed hx =>
    rw [stage_concat, hnew]
    exact hl.removeKey k

theorem plays_changed (hk : Describes (some (.childChanged y x)) (old.getImmediateChild k)
    (new.getImmediateChild k)) (done : List κ) (prevName : Option κ) :
    Plays (stage old new done) (stage old new (done ++ [k])) [.childChanged k y prevName] := by
  intro l hl
  generalize hold : old.getImmediateChild k = z at hk
  generalize hnew : new.getImmediateChild k = z' at hk
  cases hk with
  | changed hx hy =>
    have hthere : stage old new done k ≠ .empty := by
      rw [stage]
      split
      · rwa [hnew]
      · rwa [hold]
    rw [stage_concat, hnew, List.foldl_cons, List.foldl_nil, handle,
      hl.sorted.replaceKey_eq_insertKey (hl.lookup_of_ne_empty hthere)]
    exact hl.insertKey hy k

/-- An addition is raised as an event that can be played on the stage reached so far, and
its previous name is a child the listener already has. -/
theorem exists_plays_added (hk : Describes (some (.childAdded y)) (old.getImmediateChild k)
    (new.getImmediateChild k)) (hdone : k ∉ done)
    (hearlier : ∀ j < k, new.getImmediateChild j ≠ .empty → stage old new done j ≠ .empty)
    (hother : ∀ j, stage old new done j ≠ .empty → new.getImmediateChild j ≠ .empty) :
    ∃ e, generateEventForChange new (k, .childAdded y) = some e ∧
      Plays (stage old new done) (stage old new (done ++ [k])) [e] := by
  generalize hold : old.getImmediateChild k = z at hk
  generalize hnew : new.getImmediateChild k = z' at hk
  cases hk with
  | added hy =>
    have hgone : stage old new done k = .empty := by rw [stage, if_neg hdone, hold]
    obtain ⟨prev, hprev⟩ := exists_getPredecessorKey none
      ((mirrors_childEntries new).lookup_of_ne_empty (hnew.symm ▸ hy))
    refine ⟨.childAdded k y prev, by rw [generateEventForChange, Node.predecessorChildKey, hprev]; rfl,
      fun l hl => ?_⟩
    obtain ⟨prev', hprev', hinsert⟩ := hl.insertAfter (n := new) (k := k) (hnew.symm ▸ hy) hearlier
      (fun j hj => ⟨fun hjk => hj (hjk ▸ hgone), hother j hj⟩)
    obtain rfl : prev = prev' := Option.some.inj (hprev.symm.trans hprev')
    rw [stage_concat, hnew, List.foldl_cons, List.foldl_nil, handle, hinsert]
    exact hl.insertKey hy k

/-- One event for each change, in the order of the changes. -/
theorem exists_mapM_plays {old new : Node κ α} {changes : ChangeMap κ α} {done : List κ}
    (hstep : ∀ before c after, changes = before ++ c :: after → ∃ e,
      generateEventForChange new c = some e ∧
        Plays (stage old new (done ++ before.map Prod.fst))
          (stage old new (done ++ before.map Prod.fst ++ [c.1])) [e]) :
    ∃ es, changes.mapM (generateEventForChange new) = some es ∧
      Plays (stage old new done) (stage old new (done ++ changes.map Prod.fst)) es := by
  induction changes using List.reverseRecOn with
  | nil =>
    rw [List.map_nil, List.append_nil]
    exact ⟨[], rfl, plays_nil _⟩
  | append_singleton changes c ih =>
    obtain ⟨es, hes, hplays⟩ := ih fun before d after heq => hstep before d (after ++ [c])
      (by rw [heq, List.append_assoc, List.cons_append])
    obtain ⟨e, he, hplay⟩ := hstep changes c [] rfl
    refine ⟨es ++ [e], ?_, ?_⟩
    · rw [List.mapM_append]
      simp [hes, he]
    · rw [List.map_append, ← List.append_assoc]
      exact hplays.append hplay

/-- What is read off the events of children is what is read off the changes. -/
theorem filterMap_of_mapM {β : Type} {read : DataEvent κ α → Option β}
    {tell : κ × Change κ α → Option β}
    (hread : ∀ c e, generateEventForChange new c = some e → read e = tell c)
    {changes : ChangeMap κ α} {es : List (DataEvent κ α)}
    (h : changes.mapM (generateEventForChange new) = some es) :
    es.filterMap read = changes.filterMap tell := by
  induction changes generalizing es with
  | nil =>
    obtain rfl := Option.some.inj h
    rfl
  | cons c changes ih =>
    rw [List.mapM_cons] at h
    simp only [bind, Option.bind_eq_some_iff, pure, Option.some.injEq] at h
    obtain ⟨e, he, es', hes', rfl⟩ := h
    rw [List.filterMap_cons, List.filterMap_cons, hread c e he, ih hes']

/-- No event of a child is a value event. -/
theorem filterMap_valueSnap_of_mapM {changes : ChangeMap κ α} {es : List (DataEvent κ α)}
    (h : changes.mapM (generateEventForChange new) = some es) :
    es.filterMap DataEvent.valueSnap = [] := by
  have hread : ∀ c e, generateEventForChange new c = some e → e.valueSnap = none := by
    rintro ⟨k, change⟩ e he
    cases change with
    | childRemoved x =>
      obtain rfl := Option.some.inj he
      rfl
    | childAdded y =>
      obtain ⟨prev, -, rfl⟩ := Option.map_eq_some_iff.mp he
      rfl
    | childChanged y x =>
      obtain ⟨prev, -, rfl⟩ := Option.map_eq_some_iff.mp he
      rfl
  rw [filterMap_of_mapM hread h]
  exact List.filterMap_eq_nil_iff.mpr fun c _ => rfl

/-- The value event comes last, if there is one. -/
theorem lastValue_append {changes : ChangeMap κ α} {valueChange : Option (Node κ α)}
    {es : List (DataEvent κ α)} (h : generateEventsForChanges changes valueChange new = some es)
    (es' : List (DataEvent κ α)) : lastValue (es' ++ es) = valueChange.or (lastValue es') := by
  simp only [generateEventsForChanges, generateEvents, bind, Option.bind_eq_some_iff, pure,
    Option.some.injEq] at h
  obtain ⟨removed, hremoved, added, hadded, changed, hchanged, rfl⟩ := h
  simp only [lastValue, List.filterMap_append, filterMap_valueSnap_of_mapM hremoved,
    filterMap_valueSnap_of_mapM hadded, filterMap_valueSnap_of_mapM hchanged, List.nil_append]
  cases valueChange with
  | none => simp
  | some v => simp [DataEvent.valueSnap]

/-! ## The changes of an update -/

section Changes

variable {changes : ChangeMap κ α} (h : Reports old new.getImmediateChild changes)

include h

theorem Reports.describes_of_mem {c : κ × Change κ α} (hc : c ∈ changes) :
    Describes (some c.2) (old.getImmediateChild c.1) (new.getImmediateChild c.1) := by
  have hdescribes := h.describes c.1
  rwa [h.sorted.mem_iff.mp hc] at hdescribes

theorem Reports.mem_removed (hk : old.getImmediateChild k ≠ .empty)
    (hk' : new.getImmediateChild k = .empty) :
    k ∈ (changes.filter fun c => c.2.type = .removed).map Prod.fst := by
  have hdescribes := h.describes k
  rw [hk'] at hdescribes
  generalize hold : old.getImmediateChild k = z at hdescribes hk
  generalize hlookup : changes.lookup k = change at hdescribes
  cases hdescribes with
  | nothing => exact absurd rfl hk
  | added hy => exact absurd rfl hy
  | removed hx =>
    refine List.mem_map.mpr ⟨(k, .childRemoved z), List.mem_filter.mpr ⟨?_, rfl⟩, rfl⟩
    exact h.sorted.mem_iff.mpr hlookup
  | changed hx hy => exact absurd rfl hy

theorem Reports.mem_added (hk : old.getImmediateChild k = .empty)
    (hk' : new.getImmediateChild k ≠ .empty) :
    ∃ y, (k, Change.childAdded y) ∈ changes.filter fun c => c.2.type = .added := by
  have hdescribes := h.describes k
  rw [hk] at hdescribes
  generalize hnew : new.getImmediateChild k = z at hdescribes hk'
  generalize hlookup : changes.lookup k = change at hdescribes
  cases hdescribes with
  | nothing => exact absurd rfl hk'
  | added hy =>
    exact ⟨z, List.mem_filter.mpr ⟨h.sorted.mem_iff.mpr hlookup, rfl⟩⟩
  | removed hx => exact absurd rfl hx
  | changed hx hy => exact absurd rfl hx

/-- What is added has not been removed. -/
theorem Reports.not_mem_removed {y : Node κ α} (hk : (k, Change.childAdded y) ∈ changes) :
    k ∉ (changes.filter fun c => c.2.type = .removed).map Prod.fst := by
  intro hmem
  obtain ⟨d, hd, rfl⟩ := List.mem_map.mp hmem
  obtain ⟨hd, htype⟩ := List.mem_filter.mp hd
  have hd' := h.sorted.mem_iff.mp hd
  rw [h.sorted.mem_iff.mp hk] at hd'
  rw [← Option.some.inj hd'] at htype
  simp [Change.type] at htype

theorem Reports.exists_removed (done : List κ) :
    ∃ es, generateEvents .removed changes new = some es ∧ Plays (stage old new done)
      (stage old new (done ++ (changes.filter fun c => c.2.type = .removed).map Prod.fst)) es := by
  refine exists_mapM_plays fun before c after heq => ?_
  have hc := List.mem_filter.mp (heq ▸ List.mem_append_right before List.mem_cons_self)
  have hdescribes := h.describes_of_mem hc.1
  obtain ⟨k, change⟩ := c
  cases change with
  | childRemoved x => exact ⟨_, rfl, plays_removed hdescribes _⟩
  | _ => simp [Change.type] at hc

/-- The changed children can all be raised as events, in the client's order. Playing these
moves the listener to the stage at which they are done. -/
theorem Reports.exists_changed (done : List κ) :
    ∃ es, generateEvents .changed changes new = some es ∧ Plays (stage old new done)
      (stage old new (done ++ (changes.filter fun c => c.2.type = .changed).map Prod.fst)) es := by
  refine exists_mapM_plays fun before c after heq => ?_
  have hc := List.mem_filter.mp (heq ▸ List.mem_append_right before List.mem_cons_self)
  have hdescribes := h.describes_of_mem hc.1
  obtain ⟨k, change⟩ := c
  cases change with
  | childChanged y x =>
    have hthere : new.getImmediateChild k ≠ .empty := by
      generalize hnew : new.getImmediateChild k = z at hdescribes
      generalize old.getImmediateChild k = z' at hdescribes
      cases hdescribes with
      | changed hx hy => exact hy
    obtain ⟨prev, hprev⟩ :=
      exists_getPredecessorKey none ((mirrors_childEntries new).lookup_of_ne_empty hthere)
    refine ⟨.childChanged k y prev, ?_, plays_changed hdescribes _ prev⟩
    rw [generateEventForChange, Node.predecessorChildKey, hprev]
    rfl
  | _ => simp [Change.type] at hc

/-- After the removals the additions find the children before them in place. -/
theorem Reports.exists_added :
    ∃ es, generateEvents .added changes new = some es ∧
      Plays (stage old new ((changes.filter fun c => c.2.type = .removed).map Prod.fst))
        (stage old new ((changes.filter fun c => c.2.type = .removed).map Prod.fst ++
          (changes.filter fun c => c.2.type = .added).map Prod.fst)) es := by
  refine exists_mapM_plays fun before c after heq => ?_
  have hc := List.mem_filter.mp (heq ▸ List.mem_append_right before List.mem_cons_self)
  have hdescribes := h.describes_of_mem hc.1
  have hsorted : Sorted (before ++ c :: after) := heq ▸ List.Pairwise.filter _ h.sorted
  obtain ⟨-, hafter, hbefore⟩ := List.pairwise_append.mp hsorted
  obtain ⟨k, change⟩ := c
  cases change with
  | childAdded y =>
    refine exists_plays_added hdescribes ?_ ?_ ?_
    · intro hmem
      rcases List.mem_append.mp hmem with hmem | hmem
      · exact h.not_mem_removed hc.1 hmem
      · obtain ⟨d, hd, rfl⟩ := List.mem_map.mp hmem
        exact lt_irrefl _ (hbefore d hd (d.1, .childAdded y) List.mem_cons_self)
    · intro j hjk hj
      rw [stage]
      split
      · exact hj
      · next hnot =>
        intro hold
        obtain ⟨z, hz⟩ := h.mem_added hold hj
        rw [heq] at hz
        rcases List.mem_append.mp hz with hz | hz
        · exact hnot (List.mem_append_right _ (List.mem_map.mpr ⟨_, hz, rfl⟩))
        · rcases List.mem_cons.mp hz with hz | hz
          · exact hjk.ne (Prod.mk.inj hz).1
          · exact hjk.not_gt ((List.pairwise_cons.mp hafter).1 _ hz)
    · intro j hj
      rw [stage] at hj
      split at hj
      · exact hj
      · next hnot => exact fun hnew => hnot (List.mem_append_left _ (h.mem_removed hj hnew))
  | _ => simp [Change.type] at hc

/-- A child of which no change tells is the same. -/
theorem Reports.eq_of_lookup_none (hk : changes.lookup k = none) :
    old.getImmediateChild k = new.getImmediateChild k := by
  have hdescribes := h.describes k
  rw [hk] at hdescribes
  generalize old.getImmediateChild k = z at hdescribes
  generalize new.getImmediateChild k = z' at hdescribes
  cases hdescribes
  rfl

/-- After the changes of all three kinds the children are the new ones. -/
theorem Reports.stage_eq (k : κ) :
    stage old new ((changes.filter fun c => c.2.type = .removed).map Prod.fst ++
      (changes.filter fun c => c.2.type = .added).map Prod.fst ++
      (changes.filter fun c => c.2.type = .changed).map Prod.fst) k =
        new.getImmediateChild k := by
  rw [stage]
  split
  · rfl
  · next hnot =>
    cases hlookup : changes.lookup k with
    | none => exact h.eq_of_lookup_none hlookup
    | some change =>
      have hmem : k ∈ (changes.filter fun c => c.2.type = change.type).map Prod.fst :=
        List.mem_map.mpr
          ⟨(k, change), List.mem_filter.mpr ⟨h.sorted.mem_iff.mpr hlookup, by simp⟩, rfl⟩
      refine absurd ?_ hnot
      cases htype : change.type with
      | removed => exact List.mem_append_left _ (List.mem_append_left _ (htype ▸ hmem))
      | added => exact List.mem_append_left _ (List.mem_append_right _ (htype ▸ hmem))
      | changed => exact List.mem_append_right _ (htype ▸ hmem)

/-- **A list that is kept by the events is the list of the children**, in their order. -/
theorem handle_generateEventsForChanges (valueChange : Option (Node κ α)) :
    ∃ es, generateEventsForChanges changes valueChange new = some es ∧
      es.foldl handle old.childEntries = new.childEntries := by
  obtain ⟨removed, hremoved, hplays⟩ := h.exists_removed []
  obtain ⟨added, hadded, hplays'⟩ := h.exists_added
  obtain ⟨changed, hchanged, hplays''⟩ := h.exists_changed
    ((changes.filter fun c => c.2.type = .removed).map Prod.fst ++
      (changes.filter fun c => c.2.type = .added).map Prod.fst)
  refine ⟨_, by rw [generateEventsForChanges, hremoved, hadded, hchanged]; rfl, ?_⟩
  have hall := (hplays.append hplays').append hplays''
  have hmirror := hall old.childEntries (mirrors_childEntries old)
  have hvalue : ∀ l : List (κ × Node κ α),
      (valueChange.toList.map DataEvent.value).foldl handle l = l := by
    intro l
    cases valueChange <;> rfl
  rw [List.foldl_append, hvalue]
  refine Mirrors.eq_childEntries ⟨hmirror.sorted, fun k => ?_⟩
  rw [hmirror.lookup, ← h.stage_eq k]

end Changes

end FirebaseDatabase
