/-
From a row of the list to a write: deleting and editing touch exactly the memory
the user selected.

The memory travels as an index into an array that may grow meanwhile, as the
variables of the screen that shows it, as those of the editor, and as a
component of a path. The first part is local: what the table displays, which
screen a press opens and which write it issues. The second is about runs: an
instance keeps the ID it was opened with. The third is the frame of such a write
in the database.
-/
import DailyDiary.MemoryStore

set_option autoImplicit false

namespace DailyDiary

open Device

/-! ## The rows on screen -/

/-- Asking for every row in turn gives the list. -/
theorem filterMap_range_getElem? {α β : Type} (f : α → β) (l : List α) :
    ((List.range l.length).filterMap fun i => l[i]?.map f) = l.map f := by
  induction l with
  | nil => rfl
  | cons a l ih =>
    rw [List.length_cons, List.range_succ_eq_map, List.filterMap_cons, List.filterMap_map]
    simpa [Function.comp_def] using ih

/-- The table displays the array, row for row. -/
def ViewController.Displays : ViewController → Prop
  | .myMemories c =>
    c.myMemoriesTable = c.myMemoriesArray.map fun m => (m.memoryTitle, m.memoryDate)
  | _ => True

theorem displays_reloadData (c : MyMemoriesViewController) :
    (ViewController.myMemories c.reloadData).Displays :=
  filterMap_range_getElem? _ c.myMemoriesArray

theorem ViewController.Displays.refresh {v : ViewController} (h : v.Displays)
    (view : Option Json) : (v.refresh view).Displays := by
  cases v <;> exact h

def Device.Displays (d : Device) : Prop :=
  ∀ (i : ℕ) (v : ViewController), d.vcs[i]? = some v → v.Displays

/-- A table that has been reloaded goes on showing its array row for row. Every event that
changes an array reloads the table, and the other events assign neither. -/
theorem Device.Displays.step {srv srv' : Server} {d d' : Device} {e : Event} (h : d.Displays)
    (hs : DailyDiary.step srv d e = some (srv', d')) : d'.Displays := by
  intro i v' hv'
  rcases (step_effect hs).vcs i v' hv' with ⟨v, hv, v₁, hassign, hbecomes⟩ | ⟨-, v, hopens, rfl⟩
  · have hv₁ : v₁.Displays := by
      rcases hassign with rfl | hassign
      · exact h i v₁ hv
      · cases hassign with
        | typed hvis ht =>
          cases v₁ with
          | myMemories c => unfold Typing.apply at ht; split at ht <;> grind
          | _ => trivial
        | childAdded => exact displays_reloadData _
        | appeared => exact displays_reloadData _
        | _ => trivial
    rcases hbecomes with ⟨rfl, -⟩ | rfl
    · exact hv₁
    · exact hv₁.refresh _
  · have hv : v.Displays := by
      cases hopens with
      | memories u => exact displays_reloadData _
      | initial hinit =>
        cases v with
        | myMemories c => exact hinit.elim
        | _ => trivial
      | _ => trivial
    exact hv.refresh _

theorem run_displays {w w' : World} {es : List (ℕ × Event)} (hw : app.init w)
    (hr : app.run w es = some w') (i : ℕ) : (w'.device i).Displays := by
  refine run_device (fun _ _ _ _ _ h hs => Displays.step h hs) (of_init hw ?_ i) hr
  intro user k v hv
  obtain rfl := List.mem_singleton.mp (List.mem_of_getElem? hv)
  trivial

/-! ## What the presses do -/

section Presses

variable {srv srv' : Server} {d d' : Device} {self : VcId}

/-- A tap opens the memory at that index of the array. -/
theorem step_didSelectRowAt {row : ℕ} {c : MyMemoriesViewController} {m : Memory}
    (hv : d.visible = some (self, .myMemories c)) (hm : c.myMemoriesArray[row]? = some m)
    (h : step srv d (.press (.didSelectRowAt row)) = some (srv', d')) :
    d'.vcs[d.vcs.length]? = some (.showMemory ({
      index := row
      memoryID := m.memoryID
      memoryTitle := m.memoryTitle
      memoryBody := m.memoryBody } : ShowMemoryViewController).viewDidLoad) := by
  have hon := (visible_eq_some.mp hv).1
  cases steps_of_step h with
  | press hr =>
    cases presses_of_press hr with
    | didSelectRow hv' hrow =>
      cases hv.symm.trans hv'
      simp [MyMemoriesViewController.didSelectRowAt, hm, present, if_pos hon, viewDidLoad, settle,
        push, refresh, ViewController.refresh]

/-- Edit opens the editor on the memory that is shown. -/
theorem step_editBtnPressed {today : Date} {c : ShowMemoryViewController}
    (hv : d.visible = some (self, .showMemory c))
    (h : step srv d (.press (.editBtnPressed today)) = some (srv', d')) :
    d'.vcs[d.vcs.length]? = some (.addMemory ({
      date := today
      initator := "vc2"
      memoryID := c.memoryID
      memoryTitle := c.memoryTitle
      memoryBody := c.memoryBody } : AddMemoryViewController).viewDidLoad) := by
  have hon := (visible_eq_some.mp hv).1
  cases steps_of_step h with
  | press hr =>
    cases presses_of_press hr with
    | edit hv' =>
      cases hv.symm.trans hv'
      simp [ShowMemoryViewController.editBtnPressed, present, if_pos hon, viewDidLoad, settle, push,
        refresh, ViewController.refresh]

/-- Done writes the memory the controller holds once it has read its fields, where its ID
is a path string. -/
theorem step_memoryDone_readFields {draws : Draws} {c c' : AddMemoryViewController} {u : Uid}
    (hv : d.visible = some (self, .addMemory c)) (hc : c.readFields draws = .ok c')
    (hu : d.currentUser = some u) (hid : isValidPathString c'.memoryID = true)
    (h : step srv d (.press (.memoryDoneBtnPressed draws)) = some (srv', d')) :
    srv' = srv ∧ d'.vcs[self]? = some (.addMemory c') ∧ d'.writes = d.writes ++ [{
      ref := (memoryRef u).childFromString c'.memoryID
      value := c'.memory.toDictionary
      completion := .memorySaved self }] := by
  have hlt : self < d.vcs.length := (List.getElem?_eq_some_iff.mp (visible_eq_some.mp hv).2).1
  cases steps_of_step h with
  | press hr =>
    cases presses_of_press hr with
    | memoryDone hv' =>
      cases hv.symm.trans hv'
      rw [AddMemoryViewController.doneBtnPressed_of_some hc hu hid]
      refine ⟨rfl, ?_, rfl⟩
      show ((d.vcs.set self (.addMemory c')).map _)[self]? = _
      rw [List.getElem?_map, List.getElem?_set_self hlt]
      rfl

/-- Done gets through exactly where somebody is signed in and the ID is a path string;
anywhere else it stops the app. -/
theorem step_memoryDone_fault {draws : Draws} {c : AddMemoryViewController}
    (hv : d.visible = some (self, .addMemory c))
    (h : step srv d (.press (.memoryDoneBtnPressed draws)) = some (srv', d')) :
    d'.fault = none ↔ ∃ c' u, c.readFields draws = .ok c' ∧ d.currentUser = some u ∧
      isValidPathString c'.memoryID = true := by
  have hfault := fault_of_step h
  cases steps_of_step h with
  | press hr =>
    cases presses_of_press hr with
    | memoryDone hv' =>
      cases hv.symm.trans hv'
      constructor
      · intro hnone
        rcases AddMemoryViewController.doneBtnPressed_cases self draws c d with
          ⟨f, hstops, -⟩ | ⟨c', u, hread, hu, hid, -⟩
        · rw [hstops] at hnone
          cases hnone
        · exact ⟨c', u, hread, hu, hid⟩
      · rintro ⟨c', u, hread, hu, hid⟩
        rw [AddMemoryViewController.doneBtnPressed_of_some hread hu hid]
        exact hfault

/-- Where Done stops the app it writes nothing. -/
theorem step_memoryDone_stops {draws : Draws} {c : AddMemoryViewController}
    (hv : d.visible = some (self, .addMemory c)) (hstops : d'.fault ≠ none)
    (h : step srv d (.press (.memoryDoneBtnPressed draws)) = some (srv', d')) :
    srv' = srv ∧ d'.writes = d.writes := by
  have hfault := step_memoryDone_fault hv h
  cases steps_of_step h with
  | press hr =>
    cases presses_of_press hr with
    | memoryDone hv' =>
      cases hv.symm.trans hv'
      rcases AddMemoryViewController.doneBtnPressed_cases self draws c d with
        ⟨f, herror, -⟩ | ⟨c', u, hread, hu, hid, -⟩
      · rw [herror]
        exact ⟨rfl, rfl⟩
      · exact absurd (hfault.mpr ⟨c', u, hread, hu, hid⟩) hstops

/-- Done in an editor that was not opened to add writes the memory under the ID
the editor holds. -/
theorem step_memoryDone {draws : Draws} {c : AddMemoryViewController} {u : Uid}
    (hv : d.visible = some (self, .addMemory c)) (hvc2 : c.initator ≠ "vc1")
    (hu : d.currentUser = some u) (hpath : isValidPathString c.memoryID = true)
    (h : step srv d (.press (.memoryDoneBtnPressed draws)) = some (srv', d')) :
    srv' = srv ∧ d'.writes = d.writes ++ [{
      ref := (memoryRef u).childFromString c.memoryID
      value := Memory.toDictionary {
        memoryID := c.memoryID
        memoryTitle := c.titleTextField
        memoryBody := c.memoryBodyTextField
        memoryDate := c.memoryDate }
      completion := .memorySaved self }] := by
  obtain ⟨id, hread, -, hid⟩ := c.readFields_eq_ok draws
  obtain rfl := hid hvc2
  obtain ⟨hsrv, -, hwrites⟩ := step_memoryDone_readFields hv hread hu hpath h
  exact ⟨hsrv, hwrites⟩

/-- OK on the alert of Delete removes the record of the memory that is shown. -/
theorem step_deleteConfirmed {text : String} {throws : Bool} {c : ShowMemoryViewController}
    {u : Uid} (ha : d.alert.map Alert.action = some .deleteMemory)
    (ht : d.top = some (self, .showMemory c)) (hu : d.currentUser = some u)
    (hid : isValidPathString c.memoryID = true)
    (h : step srv d (.alertOk text throws) = some (srv', d')) :
    srv' = srv ∧ d'.writes = d.writes ++ [{
      ref := (memoryRef u).childFromString c.memoryID
      value := none
      completion := .none }] := by
  obtain ⟨a, ha, hact⟩ := Option.map_eq_some_iff.mp ha
  cases steps_of_step h with
  | alertOk hr =>
    obtain ⟨a', ha', hr⟩ := alertOk_eq_some.mp hr
    obtain rfl := Option.some.inj (ha.symm.trans ha')
    rw [hact] at hr
    cases performs_of_perform hr with
    | deleteMemory ht' =>
      cases ht.symm.trans ht'
      obtain ⟨d₁, hpresent, -, hwrites⟩ := present_of_some self (.myMemories {})
        (d := { d with alert := none }.setValue ((memoryRef u).childFromString c.memoryID)
          none .none) hu
      refine ⟨rfl, ?_⟩
      rw [ShowMemoryViewController.deleteConfirmed_of_some (by exact hu) hid, hpresent]
      exact hwrites

end Presses

/-! ## What an instance keeps -/

section Kept

variable {d d' : Device} {e : Event}

theorem Device.Effect.kept (h : d.Effect e d') {i : ℕ} {v : ViewController}
    (hv : d.vcs[i]? = some v) : ∃ v', d'.vcs[i]? = some v' ∧ d.Becomes e d'.view i v v' := by
  have hlt : i < d.vcs.length := (List.getElem?_eq_some_iff.mp hv).1
  have hlt' : i < d'.vcs.length := hlt.trans_le h.length
  refine ⟨d'.vcs[i], List.getElem?_eq_getElem hlt', ?_⟩
  rcases h.vcs i _ (List.getElem?_eq_getElem hlt') with ⟨v₀, hv₀, hbecomes⟩ | ⟨hi, -⟩
  · obtain rfl := Option.some.inj (hv.symm.trans hv₀)
    exact hbecomes
  · omega

/-- A screen that shows a memory never changes. -/
theorem Device.Becomes.showMemory {view : Option Json} {i : ℕ} {c : ShowMemoryViewController}
    {v' : ViewController} (h : d.Becomes e view i (.showMemory c) v') : v' = .showMemory c := by
  obtain ⟨v₁, hassign, hbecomes⟩ := h
  have hv₁ : v₁ = .showMemory c := by
    rcases hassign with rfl | hassign
    · rfl
    · cases hassign with
      | typed hvis ht => simp [Typing.apply] at ht
  rcases hbecomes with ⟨rfl, -⟩ | rfl
  · exact hv₁
  · rw [hv₁]
    rfl

/-- With the event the user types into controller `i`. -/
def Device.TypesInto (d : Device) (i : VcId) (e : Event) : Prop :=
  ∃ t v, e = .typed t ∧ d.visible = some (i, v)

/-- An editor keeps what it was opened with, but for the ID that Done makes where it
was opened to add; its texts are changed by typing only. -/
theorem Device.Becomes.addMemory {view : Option Json} {i : ℕ} {c : AddMemoryViewController}
    {v' : ViewController} (h : d.Becomes e view i (.addMemory c) v') :
    ∃ c', v' = .addMemory c' ∧ c'.initator = c.initator ∧ c'.memoryDate = c.memoryDate ∧
      (c.initator ≠ "vc1" → c'.memoryID = c.memoryID) ∧
      (¬ d.TypesInto i e → c'.titleTextField = c.titleTextField ∧
        c'.memoryBodyTextField = c.memoryBodyTextField) := by
  obtain ⟨v₁, hassign, hbecomes⟩ := h
  suffices hv₁ : ∃ c', v₁ = .addMemory c' ∧ c'.initator = c.initator ∧
      c'.memoryDate = c.memoryDate ∧ (c.initator ≠ "vc1" → c'.memoryID = c.memoryID) ∧
      (¬ d.TypesInto i e → c'.titleTextField = c.titleTextField ∧
        c'.memoryBodyTextField = c.memoryBodyTextField) by
    obtain ⟨c', rfl, hkept⟩ := hv₁
    rcases hbecomes with ⟨rfl, -⟩ | rfl
    · exact ⟨c', rfl, hkept⟩
    · exact ⟨c', rfl, hkept⟩
  rcases hassign with rfl | hassign
  · exact ⟨c, rfl, rfl, rfl, fun _ => rfl, fun _ => ⟨rfl, rfl⟩⟩
  · cases hassign with
    | @typed t i v v' hv ht =>
      cases t with
      | addMemory title body =>
        cases ht
        exact ⟨_, rfl, rfl, rfl, fun _ => rfl, fun hno => absurd ⟨_, _, rfl, hv⟩ hno⟩
      | _ => cases ht
    | @memoryDone draws i c c' hv hc =>
      obtain ⟨id, hread, -, hid⟩ := c.readFields_eq_ok draws
      obtain rfl := Except.ok.inj (hread.symm.trans hc)
      exact ⟨_, rfl, rfl, rfl, hid, fun _ => ⟨rfl, rfl⟩⟩

/-- The controller is an editor of the memory with this ID, not opened to add. -/
def ViewController.Edits (id : String) : ViewController → Prop
  | .addMemory c => c.initator ≠ "vc1" ∧ c.memoryID = id
  | _ => False

/-- An editor stays one of its memory. -/
theorem Device.Becomes.edits {view : Option Json} {i : ℕ} {id : String} {v v' : ViewController}
    (h : d.Becomes e view i v v') (hv : v.Edits id) : v'.Edits id := by
  cases v with
  | addMemory c =>
    obtain ⟨c', rfl, hinit, -, hid, -⟩ := h.addMemory
    obtain ⟨hvc2, rfl⟩ := hv
    exact ⟨hinit ▸ hvc2, hid hvc2⟩
  | _ => exact hv.elim

end Kept

/-- What an instance keeps in every step it keeps in every run. -/
theorem run_vc {P : ViewController → Prop} {i a : ℕ}
    (hP : ∀ (d : Device) e view v v', d.Becomes e view a v v' → P v → P v')
    {w w' : World} {es : List (ℕ × Event)} (ha : ∃ v, (w.device i).vcs[a]? = some v ∧ P v)
    (hr : app.run w es = some w') : ∃ v, (w'.device i).vcs[a]? = some v ∧ P v := by
  refine run_device (Q := fun d => ∃ v, d.vcs[a]? = some v ∧ P v) ?_ ha hr
  rintro srv d e srv' d' ⟨v, hv, hPv⟩ hstep
  obtain ⟨v', hv', hbecomes⟩ := (step_effect hstep).kept hv
  exact ⟨v', hv', hP d e _ v v' hbecomes hPv⟩

theorem run_showMemory {w w' : World} {es : List (ℕ × Event)} {i s : ℕ}
    {c : ShowMemoryViewController} (hs : (w.device i).vcs[s]? = some (.showMemory c))
    (hr : app.run w es = some w') : (w'.device i).vcs[s]? = some (.showMemory c) := by
  obtain ⟨v, hv, rfl⟩ := run_vc (P := fun v => v = .showMemory c)
    (fun _ _ _ _ _ hbecomes hv => (hv ▸ hbecomes).showMemory) ⟨_, hs, rfl⟩ hr
  exact hv

/-! ## The frame in the database -/

/-- `db'` holds `value` at the record, and what `db` holds everywhere else: at
every other record of every account, and below `user`. -/
structure ReplacesRecord (u : Uid) (id : String) (value db db' : Option Json) : Prop where
  record : PathTree.get (memoryRef u ++ [id]) db' = value
  others : ∀ u' id', (u', id') ≠ (u, id) →
    PathTree.get (memoryRef u' ++ [id']) db' = PathTree.get (memoryRef u' ++ [id']) db
  users : PathTree.get ["user"] db' = PathTree.get ["user"] db

/-- Setting one record replaces this record and no other one, of the same user or of
another. Both directions are the laws of paths that part at some key. -/
theorem replacesRecord_set (u : Uid) (id : String) (value db : Option Json) :
    ReplacesRecord u id value db (PathTree.set ["memory", u.val, id] value db) where
  record := by
    simp
  others := by
    intro u' id' hne
    have hkeys : ¬ (u'.val = u.val ∧ id' = id) := by
      rintro ⟨hval, rfl⟩
      exact hne (by rw [Uid.ext hval])
    refine PathTree.get_set_of_disjoint ?_ ?_ value db
    · intro hp
      simp only [memoryRef_eq, List.cons_append, List.nil_append, List.cons_prefix_cons,
        List.nil_prefix, and_true, true_and] at hp
      exact hkeys ⟨hp.1.symm, hp.2.symm⟩
    · intro hp
      simp only [memoryRef_eq, List.cons_append, List.nil_append, List.cons_prefix_cons,
        List.nil_prefix, and_true, true_and] at hp
      exact hkeys hp
  users := by
    refine PathTree.get_set_of_disjoint ?_ ?_ value db
    · intro hp
      simp at hp
    · intro hp
      simp at hp

/-! ## The selected memory -/

/-- The step from `w` to `w'` changes nothing in the database yet and issues one
write, on device `i`; accepting that write, whenever it comes, replaces exactly
the record `id` of the account `u` by `value`. -/
def Touches (i : ℕ) (u : Uid) (id : String) (value : Option Json) (w w' : World) : Prop :=
  w'.server = w.server ∧ (∀ j, j ≠ i → (w'.device j).writes = (w.device j).writes) ∧
    ∃ wr, (w'.device i).writes = (w.device i).writes ++ [wr] ∧
      ∀ srv srv' d d' k wr', d.writes[k]? = some wr' → wr.Same wr' →
        decideWrite srv d k true = some (srv', d') → ReplacesRecord u id value srv.db srv'.db

theorem touches_of_write {w w' : World} {i : ℕ} {e : Event} {u : Uid} {id : String}
    {value : Option Json} {completion : Completion} (hs : app.step w (i, e) = some w')
    (hid : IsMemoryID id) (hsrv : w'.server = w.server)
    (hwrites : (w'.device i).writes = (w.device i).writes ++
      [{ ref := (memoryRef u).childFromString id, value, completion }]) : Touches i u id value w w' := by
  refine ⟨hsrv, fun j hj => by rw [(app_step_eq_some.mp hs).2 j hj], _, hwrites, ?_⟩
  intro srv srv' d d' k wr' hk hsame hdecide
  obtain ⟨href, hvalue, -⟩ := hsame
  simp only [decideWrite, hk] at hdecide
  split at hdecide
  · obtain ⟨rfl, -⟩ := Prod.mk.inj (Option.some.inj hdecide)
    have hset := replacesRecord_set u id value srv.db
    rw [← child_memoryRef u hid] at hset
    simp only [if_true, ← href, ← hvalue]
    exact hset
  · cases hdecide

/-- Delete, confirmed on the screen `s` of device `i`, while `u` is signed in. -/
def DeletesOnly (i s : ℕ) (u : Uid) (id : String) (w : World) : Prop :=
  ∀ c text throws w', (w.device i).top = some (s, .showMemory c) →
    (w.device i).alert.map Alert.action = some .deleteMemory →
    (w.device i).currentUser = some u → app.step w (i, .alertOk text throws) = some w' →
    Touches i u id none w w'

/-- Edit on the screen `s` of device `i`, any run, and Done in the editor that it
opened, while `u` is signed in: the record gets the typed title and body. -/
def EditsOnly (i s : ℕ) (u : Uid) (id : String) (w : World) : Prop :=
  ∀ c today w₁ es w₂ a draws w₃, (w.device i).visible = some (s, .showMemory c) →
    app.step w (i, .press (.editBtnPressed today)) = some w₁ → app.run w₁ es = some w₂ →
    (w₂.device i).visible = some ((w.device i).vcs.length, .addMemory a) →
    (w₂.device i).currentUser = some u →
    app.step w₂ (i, .press (.memoryDoneBtnPressed draws)) = some w₃ →
    Touches i u id
      (Memory.toDictionary {
        memoryID := id
        memoryTitle := a.titleTextField
        memoryBody := a.memoryBodyTextField
        memoryDate := a.memoryDate }) w₂ w₃

/-- **Delete and edit touch exactly the selected memory.** A row is tapped in any
state reached from an empty `memory` tree. The row displays the memory at its
index, and in every state of every run from there, on the screen the tap opened
and as long as the account of the list is signed in, Delete removes exactly that
memory's record and Edit replaces exactly it. -/
theorem selected_memory_only {w₀ w w₁ w₂ : World} {es₀ es : List (ℕ × Event)} {i row : ℕ}
    {l : VcId} {c : MyMemoriesViewController} {m : Memory} (h₀ : app.init w₀)
    (hempty : PathTree.get ["memory"] w₀.server.db = none) (hr₀ : app.run w₀ es₀ = some w)
    (hv : (w.device i).visible = some (l, .myMemories c)) (hm : c.myMemoriesArray[row]? = some m)
    (htap : app.step w (i, .press (.didSelectRowAt row)) = some w₁)
    (hr : app.run w₁ es = some w₂) :
    c.myMemoriesTable[row]? = some (m.memoryTitle, m.memoryDate) ∧
      ∀ u, c.observer.map Observer.uid = some u →
        DeletesOnly i (w.device i).vcs.length u m.memoryID w₂ ∧
          EditsOnly i (w.device i).vcs.length u m.memoryID w₂ := by
  have hschema := (keepsSchema_init h₀ (memoryTree_of_empty hempty)).run hr₀
  have hclean := (hschema.2 i).clean.visible hv
  have hid : IsMemoryID m.memoryID := hclean.1 m (List.mem_of_getElem? hm)
  have hshown := run_showMemory (step_didSelectRowAt hv hm (app_step_eq_some.mp htap).1) hr
  refine ⟨?_, fun u _ => ⟨?_, ?_⟩⟩
  · have htable := run_displays h₀ hr₀ i l _ (visible_eq_some.mp hv).2
    rw [htable, List.getElem?_map, hm]
    rfl
  · intro s text throws w₃ ht ha hu hs
    obtain rfl : s = _ := by
      simpa using (top_eq_some.mp ht).2.symm.trans hshown
    obtain ⟨hsrv, hwrites⟩ := step_deleteConfirmed ha ht hu hid.isKey.isValidPathString
      (app_step_eq_some.mp hs).1
    exact touches_of_write hs hid hsrv hwrites
  · intro s today w₃ es' w₄ a draws w₅ hvis hedit hr' hvis' hu hdone
    obtain rfl : s = _ := by
      simpa using (visible_eq_some.mp hvis).2.symm.trans hshown
    have hopened := step_editBtnPressed hvis (app_step_eq_some.mp hedit).1
    have hvc2 : "vc2" ≠ "vc1" := by decide
    obtain ⟨v, hv₄, hedits⟩ := run_vc (P := ViewController.Edits m.memoryID)
      (fun _ _ _ _ _ hbecomes => hbecomes.edits) ⟨_, hopened, hvc2, rfl⟩ hr'
    obtain rfl := Option.some.inj (hv₄.symm.trans (visible_eq_some.mp hvis').2)
    obtain ⟨hvc2, hida⟩ := hedits
    obtain ⟨hsrv, hwrites⟩ := step_memoryDone hvis' hvc2 hu
      (hida.symm ▸ hid.isKey.isValidPathString) (app_step_eq_some.mp hdone).1
    rw [hida] at hwrites
    exact touches_of_write hdone hid hsrv hwrites

/-- The list on top of a device, by what can be compared of it. -/
def Device.listOnTop (d : Device) : Option (VcId × List Memory × Option Uid) :=
  d.visible.bind fun p =>
    match p.2 with
    | .myMemories c => some (p.1, c.myMemoriesArray, c.observer.map Observer.uid)
    | _ => none

theorem listOnTop_eq_some {d : Device} {l : VcId} {rows : List Memory} {u : Uid}
    (h : d.listOnTop = some (l, rows, some u)) : ∃ c, d.visible = some (l, .myMemories c) ∧
      c.myMemoriesArray = rows ∧ c.observer.map Observer.uid = some u := by
  obtain ⟨⟨l', v⟩, hv, h⟩ := Option.bind_eq_some_iff.mp h
  cases v with
  | myMemories c =>
    simp only [Option.some.injEq, Prod.mk.injEq] at h
    obtain ⟨rfl, rfl, hu⟩ := h
    exact ⟨c, hv, rfl, hu⟩
  | _ => cases h

/-- `ann` adds a memory and waits for it in the new list. -/
def annAddsMemory : List Event :=
  [.typed (.logIn ann.email ann.password), .press .logInBtnPressed,
    .authCompleted 0 (.success ann.uid), .press (.addMemoriesBtnPressed ⟨1, 2, 2019⟩),
    .typed (.addMemory "title" "body"), .press (.memoryDoneBtnPressed zeroDraws),
    .writeDecided 0 true, .writeCompleted 0, .alertOk "" false, .childAdded 3 0]

def annsMemory : Memory where
  memoryID := String.ofList (List.replicate 28 'a')
  memoryTitle := "title"
  memoryBody := "body"
  memoryDate := "01/02/2019"

set_option maxRecDepth 10000 in
theorem selected_memory_only_ann :
    ∃ w w₁, app.run (World.start ⟨[ann], none⟩) (alone annAddsMemory) = some w ∧
      app.step w (0, .press (.didSelectRowAt 0)) = some w₁ ∧
      DeletesOnly 0 (w.device 0).vcs.length ann.uid annsMemory.memoryID w₁ ∧
      EditsOnly 0 (w.device 0).vcs.length ann.uid annsMemory.memoryID w₁ := by
  have h : ((app.run (World.start ⟨[ann], none⟩) (alone annAddsMemory)).bind fun w =>
      (app.step w (0, .press (.didSelectRowAt 0))).map fun _ => (w.device 0).listOnTop) =
      some (some (3, [annsMemory], some ann.uid)) := by decide
  obtain ⟨w, hw, h⟩ := Option.bind_eq_some_iff.mp h
  obtain ⟨w₁, hw₁, hlist⟩ := Option.map_eq_some_iff.mp h
  obtain ⟨c, hv, hrows, hu⟩ := listOnTop_eq_some hlist
  have hm : c.myMemoriesArray[0]? = some annsMemory := by rw [hrows]; rfl
  exact ⟨w, w₁, hw, hw₁, (selected_memory_only (init_start _) (by decide) hw hv hm hw₁
    (app.run_nil w₁)).2 ann.uid hu⟩

end DailyDiary
