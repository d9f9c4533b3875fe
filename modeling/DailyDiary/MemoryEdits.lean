/-
A memory on its way through the app: read by a list, tapped, shown, edited and saved.

The record is taken apart and put together again on the way. The list holds it
whole, the screen that shows it gets the ID and the two texts, the editor gets the
same three, and `viewDidLoad` of the editor computes the date of the record it will
save from the day on which it is opened. Done asks the database for the child of that
ID, which stops the app where the ID is no path string, and unwraps the user. The first
part follows one memory through any run between these hops; `memory_edit_kept_iff` says
which edits keep the record.
-/
import DailyDiary.MemorySelection

set_option autoImplicit false

namespace DailyDiary

open Device

/-! ## What a list, and an editor, keep -/

/-- The controller is a list whose row `row` is the memory `m`. -/
def ViewController.HasRow (row : ℕ) (m : Memory) : ViewController → Prop
  | .myMemories c => c.myMemoriesArray[row]? = some m
  | _ => False

/-- A list only appends. -/
theorem Device.Becomes.hasRow {d : Device} {e : Event} {view : Option Json} {i row : ℕ}
    {m : Memory} {v v' : ViewController} (h : d.Becomes e view i v v') (hv : v.HasRow row m) :
    v'.HasRow row m := by
  obtain ⟨v₁, hassign, hbecomes⟩ := h
  -- first the assignments of the handler, then the refresh of the view
  have hv₁ : v₁.HasRow row m := by
    rcases hassign with rfl | hassign
    · exact hv
    · cases hassign with
      | @typed t i v v' hvis ht =>
        cases v with
        | myMemories c => cases t <;> cases ht
        | _ => exact hv.elim
      | childAdded ho hq hm =>
        obtain ⟨hlt, _⟩ := List.getElem?_eq_some_iff.mp hv
        show (_ ++ _)[row]? = some m
        rw [List.getElem?_append_left hlt]
        exact hv
      | appeared => exact hv
      | _ => exact hv.elim
  rcases hbecomes with ⟨rfl, -⟩ | rfl
  · exact hv₁
  · cases v₁ with
    | myMemories c => exact hv₁
    | _ => exact hv₁.elim

/-- The controller edits a record with this ID, and will date it like this. -/
def ViewController.EditsDated (id date : String) : ViewController → Prop
  | .addMemory c => c.initator = "vc2" ∧ c.memoryID = id ∧ c.memoryDate = date
  | _ => False

theorem Device.Becomes.editsDated {d : Device} {e : Event} {view : Option Json} {i : ℕ}
    {id date : String} {v v' : ViewController} (h : d.Becomes e view i v v')
    (hv : v.EditsDated id date) : v'.EditsDated id date := by
  cases v with
  | addMemory c =>
    obtain ⟨c', rfl, hinit, hdate, hid, -⟩ := h.addMemory
    obtain ⟨hvc2, rfl, rfl⟩ := hv
    exact ⟨hinit.trans hvc2, hid (by rw [hvc2]; decide), hdate⟩
  | _ => exact hv.elim

/-- The controller is an editor with these texts in its fields. -/
def ViewController.Reads (title body : String) : ViewController → Prop
  | .addMemory c => c.titleTextField = title ∧ c.memoryBodyTextField = body
  | _ => False

theorem Device.Becomes.reads {d : Device} {e : Event} {view : Option Json} {i : ℕ}
    {title body : String} {v v' : ViewController} (h : d.Becomes e view i v v')
    (hno : ¬ d.TypesInto i e) (hv : v.Reads title body) : v'.Reads title body := by
  cases v with
  | addMemory c =>
    obtain ⟨c', rfl, -, -, -, htexts⟩ := h.addMemory
    obtain ⟨rfl, rfl⟩ := hv
    exact htexts hno
  | _ => exact hv.elim

/-- A delivered snapshot becomes the last row of the list. -/
theorem step_childAdded {srv srv' : Server} {d d' : Device} {l : VcId} {j : ℕ}
    {c : MyMemoriesViewController} {o : Observer} {key : String} {snapshot : Json} {m : Memory}
    (hc : d.vcs[l]? = some (.myMemories c)) (ho : c.observer = some o)
    (hq : o.queue[j]? = some (key, snapshot)) (hm : Memory.ofSnapshot snapshot = .ok m)
    (h : step srv d (.childAdded l j) = some (srv', d')) :
    ∃ v, d'.vcs[l]? = some v ∧ v.HasRow c.myMemoriesArray.length m := by
  have hlt : l < d.vcs.length := (List.getElem?_eq_some_iff.mp hc).1
  cases steps_of_step h with
  | childAdded hr =>
    obtain ⟨c', o', key', snapshot', hc', ho', hq', rfl⟩ := childAdded_eq_some.mp hr
    cases hc.symm.trans hc'
    cases ho.symm.trans ho'
    cases hq.symm.trans hq'
    simp only [MyMemoriesViewController.childAdded, hm, Result.ok_bind, Result.pure_eq_ok, settle,
      setVc, List.getElem?_set_self hlt]
    refine ⟨_, rfl, ?_⟩
    exact List.getElem?_concat_length

/-- Different memories are stored as different records. -/
theorem toDictionary_injective : Function.Injective Memory.toDictionary := by
  intro m m' h
  exact Except.ok.inj ((ofSnapshot_toDictionary rfl).symm.trans (ofSnapshot_toDictionary h.symm))

/-! ## The way of a memory -/

/-- A memory is read by a list of device `i`, its row is tapped, Edit is pressed on the
screen that opens, and Done in the editor. Between these anything may happen, on this
device and on the others; Done may have been pressed before. -/
structure MemoryEdit where
  i : ℕ
  /-- the snapshot is delivered -/
  w : World
  reachable : app.Reachable w
  l : VcId
  list : MyMemoriesViewController
  observer : Observer
  j : ℕ
  key : String
  snapshot : Json
  hlist : (w.device i).vcs[l]? = some (.myMemories list)
  hobserver : list.observer = some observer
  hsnapshot : observer.queue[j]? = some (key, snapshot)
  memory : Memory
  hmemory : Memory.ofSnapshot snapshot = .ok memory
  read : World
  hread : app.step w (i, .childAdded l j) = some read
  /-- its row is tapped -/
  listed : World
  toTap : List (ℕ × Event)
  hlisted : app.run read toTap = some listed
  list' : MyMemoriesViewController
  hvisible : (listed.device i).visible = some (l, .myMemories list')
  tapped : World
  htapped : app.step listed (i, .press (.didSelectRowAt list.myMemoriesArray.length)) = some tapped
  /-- Edit is pressed -/
  shown : World
  toEdit : List (ℕ × Event)
  hshown : app.run tapped toEdit = some shown
  screen : ShowMemoryViewController
  hscreen : (shown.device i).visible = some ((listed.device i).vcs.length, .showMemory screen)
  today : Date
  opened : World
  hopened : app.step shown (i, .press (.editBtnPressed today)) = some opened
  /-- Done is pressed -/
  edited : World
  toDone : List (ℕ × Event)
  hedited : app.run opened toDone = some edited
  editor : AddMemoryViewController
  heditor : (edited.device i).visible = some ((shown.device i).vcs.length, .addMemory editor)
  draws : Draws
  saved : World
  hsaved : app.step edited (i, .press (.memoryDoneBtnPressed draws)) = some saved

namespace MemoryEdit

variable (edit : MemoryEdit)

/-- The value of the write that Done issues, if the app has not stopped in Done. -/
def written : Option Json :=
  if (edit.saved.device edit.i).fault = none then
    (edit.saved.device edit.i).writes.getLast?.bind Write.value
  else none

/-- The texts in the editor are not touched before Done. -/
def Untouched : Prop :=
  app.Always (fun v e => ¬ (e.1 = edit.i ∧
    (v.device edit.i).TypesInto (edit.shown.device edit.i).vcs.length e.2)) edit.opened edit.toDone

/-- The edit keeps the record: Done writes it back with the title and the body that
are in the editor, and as it was when they have not been touched. -/
structure Kept : Prop where
  texts : edit.written = Memory.toDictionary { edit.memory with
    memoryTitle := edit.editor.titleTextField
    memoryBody := edit.editor.memoryBodyTextField }
  untouched : edit.Untouched → edit.written = edit.memory.toDictionary

/-- The tap shows the memory. -/
theorem screen_eq : edit.screen = ({
    index := edit.list.myMemoriesArray.length
    memoryID := edit.memory.memoryID
    memoryTitle := edit.memory.memoryTitle
    memoryBody := edit.memory.memoryBody } : ShowMemoryViewController).viewDidLoad := by
  -- the row keeps its index until the tap, and the screen its texts until Edit
  have hlast := step_childAdded edit.hlist edit.hobserver edit.hsnapshot edit.hmemory
    (app_step_eq_some.mp edit.hread).1
  obtain ⟨v, hv, hrow⟩ := run_vc (P := ViewController.HasRow _ edit.memory)
    (fun _ _ _ _ _ hbecomes => hbecomes.hasRow) hlast edit.hlisted
  obtain rfl := Option.some.inj (hv.symm.trans (visible_eq_some.mp edit.hvisible).2)
  have hopens := step_didSelectRowAt edit.hvisible hrow (app_step_eq_some.mp edit.htapped).1
  have hshows := run_showMemory hopens edit.hshown
  simpa using (visible_eq_some.mp edit.hscreen).2.symm.trans hshows

/-- The editor has the ID of the memory, and dates the record with its own day. -/
theorem editor_eq : edit.editor.initator = "vc2" ∧
    edit.editor.memoryID = edit.memory.memoryID ∧
    edit.editor.memoryDate = edit.today.formatted := by
  have hopens := step_editBtnPressed edit.hscreen (app_step_eq_some.mp edit.hopened).1
  rw [edit.screen_eq] at hopens
  obtain ⟨v, hv, hedits⟩ := run_vc
    (P := ViewController.EditsDated edit.memory.memoryID edit.today.formatted)
    (fun _ _ _ _ _ hbecomes => hbecomes.editsDated) ⟨_, hopens, rfl, rfl, rfl⟩ edit.hedited
  obtain rfl := Option.some.inj (hv.symm.trans (visible_eq_some.mp edit.heditor).2)
  exact hedits

/-- From the read to the editor is one run. -/
theorem exists_run_opened : ∃ es, app.run edit.w es = some edit.opened := by
  have hopened : app.run edit.tapped (edit.toEdit ++ [_]) = some edit.opened :=
    (app.run_append_eq_some).mpr ⟨_, edit.hshown, (app.run_cons_eq_some).mpr ⟨_, edit.hopened, rfl⟩⟩
  have htapped : app.run edit.read (edit.toTap ++ _ :: _) = some edit.opened :=
    (app.run_append_eq_some).mpr
      ⟨_, edit.hlisted, (app.run_cons_eq_some).mpr ⟨_, edit.htapped, hopened⟩⟩
  exact ⟨_ :: _, (app.run_cons_eq_some).mpr ⟨_, edit.hread, htapped⟩⟩

theorem reachable_opened : app.Reachable edit.opened := by
  obtain ⟨es, hr⟩ := edit.exists_run_opened
  exact edit.reachable.run hr

/-- Texts nobody has touched are those of the memory. -/
theorem texts_eq (h : edit.Untouched) :
    edit.editor.titleTextField = edit.memory.memoryTitle ∧
      edit.editor.memoryBodyTextField = edit.memory.memoryBody := by
  have hopens := step_editBtnPressed edit.hscreen (app_step_eq_some.mp edit.hopened).1
  rw [edit.screen_eq] at hopens
  have hreads : ∃ v, (edit.edited.device edit.i).vcs[(edit.shown.device edit.i).vcs.length]? =
      some v ∧ v.Reads edit.memory.memoryTitle edit.memory.memoryBody := by
    -- only typing changes the texts, so the induction is over the runs without it
    refine run_device_guarded (Q := fun d => ∃ v,
        d.vcs[(edit.shown.device edit.i).vcs.length]? = some v ∧
          v.Reads edit.memory.memoryTitle edit.memory.memoryBody)
      (G := fun d e => ¬ d.TypesInto (edit.shown.device edit.i).vcs.length e) ?_
      (reachable_inv edit.reachable_opened) ⟨_, hopens, rfl, rfl⟩ ?_ edit.hedited
    · rintro srv d e srv' d' - ⟨v, hv, hreads⟩ hno hs
      obtain ⟨v', hv', hbecomes⟩ := (step_effect hs).kept hv
      exact ⟨v', hv', hbecomes.reads hno hreads⟩
    · exact app.always_mono (fun v e _ hno hi htypes => hno ⟨hi, htypes⟩) h
  obtain ⟨v, hv, hreads⟩ := hreads
  obtain rfl := Option.some.inj (hv.symm.trans (visible_eq_some.mp edit.heditor).2)
  exact hreads

/-- Done gets through: somebody is signed in, and the database has a child of the ID. -/
structure GetsThrough : Prop where
  signedIn : (edit.edited.device edit.i).currentUser ≠ none
  isPath : isValidPathString edit.memory.memoryID = true

/-- Anywhere else Done stops the app. -/
theorem fault_eq_none_iff : (edit.saved.device edit.i).fault = none ↔ edit.GetsThrough := by
  obtain ⟨hvc2, hid, -⟩ := edit.editor_eq
  obtain ⟨c, hread, -, hkept⟩ := edit.editor.readFields_eq_ok edit.draws
  have hedit : edit.editor.initator ≠ "vc1" := by
    rw [hvc2]
    decide
  rw [step_memoryDone_fault edit.heditor (app_step_eq_some.mp edit.hsaved).1]
  constructor
  · rintro ⟨c', u, hread', hu, hpath⟩
    obtain rfl := Except.ok.inj (hread.symm.trans hread')
    refine ⟨Option.ne_none_iff_exists'.mpr ⟨u, hu⟩, ?_⟩
    rw [← hid, ← hkept hedit]
    exact hpath
  · rintro ⟨hsigned, hpath⟩
    obtain ⟨u, hu⟩ := Option.ne_none_iff_exists'.mp hsigned
    rw [← hid, ← hkept hedit] at hpath
    exact ⟨_, u, hread, hu, hpath⟩

/-- Done writes the record with the texts of the editor and the day on which it was
opened. -/
theorem written_eq (h : edit.GetsThrough) : edit.written = Memory.toDictionary {
    memoryID := edit.memory.memoryID
    memoryTitle := edit.editor.titleTextField
    memoryBody := edit.editor.memoryBodyTextField
    memoryDate := edit.today.formatted } := by
  obtain ⟨hvc2, hid, hdate⟩ := edit.editor_eq
  obtain ⟨u, hu⟩ := Option.ne_none_iff_exists'.mp h.signedIn
  obtain ⟨-, hwrites⟩ := step_memoryDone edit.heditor (by rw [hvc2]; decide) hu
    (hid.symm ▸ h.isPath) (app_step_eq_some.mp edit.hsaved).1
  rw [written, if_pos (edit.fault_eq_none_iff.mpr h), hwrites, List.getLast?_concat, ← hid, ← hdate]
  rfl

/-- An edit that keeps the record writes one. -/
theorem Kept.getsThrough {edit : MemoryEdit} (h : edit.Kept) : edit.GetsThrough := by
  rw [← edit.fault_eq_none_iff]
  by_contra hstops
  have htexts := h.texts
  rw [written, if_neg hstops] at htexts
  cases htexts

/-- It keeps its date, which is that of the editor. -/
theorem Kept.memoryDate {edit : MemoryEdit} (h : edit.Kept) :
    edit.memory.memoryDate = edit.today.formatted := by
  have hsame := toDictionary_injective ((edit.written_eq h.getsThrough).symm.trans h.texts)
  exact (congrArg Memory.memoryDate hsame).symm

end MemoryEdit

/-- **Which edits keep the record.** An edit writes back the memory that was read, with
no more than its title and body changed, exactly when Done gets through, with somebody
signed in and an ID that is a path string, and the memory carries the date of the day on
which the editor is opened. -/
theorem memory_edit_kept_iff (edit : MemoryEdit) :
    edit.Kept ↔ edit.GetsThrough ∧ edit.memory.memoryDate = edit.today.formatted := by
  constructor
  · exact fun hkept => ⟨hkept.getsThrough, hkept.memoryDate⟩
  · rintro ⟨hthrough, hdate⟩
    have hwritten := edit.written_eq hthrough
    rw [← hdate] at hwritten
    refine ⟨hwritten, ?_⟩
    intro huntouched
    obtain ⟨htitle, hbody⟩ := edit.texts_eq huntouched
    rw [hwritten, htitle, hbody]

/-- How many rows a list has, and what the `j`-th snapshot that waits for it reads as. -/
def Device.delivery (l : VcId) (j : ℕ) (d : Device) : Option (ℕ × Result Memory) :=
  match d.vcs[l]? with
  | some (.myMemories c) =>
    (c.observer.bind fun o => o.queue[j]?).map fun p =>
      (c.myMemoriesArray.length, Memory.ofSnapshot p.2)
  | _ => none

theorem delivery_eq_some {d : Device} {l : VcId} {j n : ℕ} {r : Result Memory}
    (h : d.delivery l j = some (n, r)) :
    ∃ c o key snapshot, d.vcs[l]? = some (.myMemories c) ∧ c.observer = some o ∧
      o.queue[j]? = some (key, snapshot) ∧ c.myMemoriesArray.length = n ∧
      Memory.ofSnapshot snapshot = r := by
  unfold Device.delivery at h
  split at h
  · next c hc =>
    obtain ⟨⟨key, snapshot⟩, hq, h⟩ := Option.map_eq_some_iff.mp h
    obtain ⟨o, ho, hq⟩ := Option.bind_eq_some_iff.mp hq
    obtain ⟨rfl, rfl⟩ := Prod.mk.inj h
    exact ⟨c, o, key, snapshot, hc, ho, hq, rfl, rfl⟩
  · cases h

/-- `ann` adds a memory, which waits for the new list. -/
def annSavesMemory : List Event :=
  annAddsMemory.dropLast

/-- The worlds on the way of an edit on device 0, to evaluate one. -/
structure EditRun where
  w : World
  read : World
  tapped : World
  opened : World
  edited : World
  saved : World

/-- After `before`, `ann` opens the memory for editing on `today`, and presses Done
after `toDone`. -/
def annsEdit (before : List (ℕ × Event)) (today : Date) (toDone : List (ℕ × Event)) :
    Option EditRun :=
  (app.run (World.start ⟨[ann], none⟩) before).bind fun w =>
    (app.step w (0, .childAdded 3 0)).bind fun read =>
      (app.step read (0, .press (.didSelectRowAt 0))).bind fun tapped =>
        (app.step tapped (0, .press (.editBtnPressed today))).bind fun opened =>
          (app.run opened toDone).bind fun edited =>
            (app.step edited (0, .press (.memoryDoneBtnPressed zeroDraws))).map fun saved =>
              { w, read, tapped, opened, edited, saved }

/-- What is seen of it: the snapshot, the screens, the identities that the tap and Edit
give out, and whether Done has stopped the app. -/
structure EditSeen where
  delivery : Option (ℕ × Result Memory)
  list : Option (VcId × Screen)
  opens : VcId × VcId
  screen : Option (VcId × Screen)
  editor : Option (VcId × Screen)
  fault : Option Fault
  deriving DecidableEq

def EditRun.seen (r : EditRun) : EditSeen where
  delivery := (r.w.device 0).delivery 3 0
  list := (r.read.device 0).visibleScreen
  opens := ((r.read.device 0).vcs.length, (r.tapped.device 0).vcs.length)
  screen := (r.tapped.device 0).visibleScreen
  editor := (r.edited.device 0).visibleScreen
  fault := (r.saved.device 0).fault

def annsSeen : EditSeen where
  delivery := some (0, .ok annsMemory)
  list := some (3, .memories (some ann.uid))
  opens := (4, 5)
  screen := some (4, .showMemory)
  editor := some (5, .addMemory)
  fault := none

/-- What a computed run of ann's edit says as a `MemoryEdit`. The run is evaluated up to the
edited row and up to Done, and its parts become the fields. -/
theorem exists_annsEdit {before toDone : List (ℕ × Event)} {today : Date} {r : EditRun}
    (h : annsEdit before today toDone = some r) (hseen : r.seen = annsSeen) :
    ∃ edit : MemoryEdit, app.run (World.start ⟨[ann], none⟩) before = some edit.w ∧ edit.i = 0 ∧
      edit.memory = annsMemory ∧ edit.today = today ∧ edit.toDone = toDone ∧
      edit.edited = r.edited ∧ edit.saved = r.saved ∧
      (edit.saved.device edit.i).fault = none := by
  obtain ⟨w, hw, h⟩ := Option.bind_eq_some_iff.mp h
  obtain ⟨read, hread, h⟩ := Option.bind_eq_some_iff.mp h
  obtain ⟨tapped, htapped, h⟩ := Option.bind_eq_some_iff.mp h
  obtain ⟨opened, hopened, h⟩ := Option.bind_eq_some_iff.mp h
  obtain ⟨edited, hedited, h⟩ := Option.bind_eq_some_iff.mp h
  obtain ⟨saved, hsaved, rfl⟩ := Option.map_eq_some_iff.mp h
  obtain ⟨hdelivery, hlist, hopens, hscreen, heditor, hfault⟩ := EditSeen.mk.inj hseen
  obtain ⟨hlist₁, hlist₂⟩ := Prod.mk.inj hopens
  obtain ⟨c, o, key, snapshot, hc, ho, hq, hlen, hm⟩ := delivery_eq_some hdelivery
  obtain ⟨v₁, hv₁, hs₁⟩ := visibleScreen_eq_some.mp hlist
  obtain ⟨v₂, hv₂, hs₂⟩ := visibleScreen_eq_some.mp hscreen
  obtain ⟨v₃, hv₃, hs₃⟩ := visibleScreen_eq_some.mp heditor
  cases v₁ with
  | myMemories list =>
    cases v₂ with
    | showMemory screen =>
      cases v₃ with
      | addMemory editor =>
        refine ⟨{
          i := 0, w := w, reachable := ⟨_, _, init_start _, hw⟩
          l := 3, list := c, observer := o, j := 0, key := key, snapshot := snapshot
          hlist := hc, hobserver := ho, hsnapshot := hq
          memory := annsMemory, hmemory := hm, read := read, hread := hread
          listed := read, toTap := [], hlisted := rfl, list' := list, hvisible := hv₁
          tapped := tapped, htapped := by rw [hlen]; exact htapped
          shown := tapped, toEdit := [], hshown := rfl, screen := screen
          hscreen := by rw [hlist₁]; exact hv₂
          today := today, opened := opened, hopened := hopened
          edited := edited, toDone := toDone, hedited := hedited, editor := editor
          heditor := by rw [hlist₂]; exact hv₃
          draws := zeroDraws, saved := saved, hsaved := hsaved }, hw, rfl, rfl, rfl, rfl, rfl, rfl,
            hfault⟩
      | _ => cases hs₃
    | _ => cases hs₂
  | _ => cases hs₁

set_option maxRecDepth 10000 in
/-- Saved on another day, the memory loses its date. -/
theorem memory_edit_loses_date : ¬ ∀ edit : MemoryEdit, edit.Kept := by
  intro h
  have hseen : (annsEdit (alone annSavesMemory) ⟨3, 2, 2019⟩ []).map EditRun.seen =
      some annsSeen := by decide
  obtain ⟨r, hr, hseen⟩ := Option.map_eq_some_iff.mp hseen
  obtain ⟨edit, -, -, hmemory, htoday, -⟩ := exists_annsEdit hr hseen
  have hdate := (h edit).memoryDate
  rw [hmemory, htoday] at hdate
  exact absurd hdate (by decide)

set_option maxRecDepth 10000 in
/-- Saved on the day on which it was written, it stays as it is. -/
theorem memory_edit_kept_ann :
    ∃ edit : MemoryEdit, edit.written = annsMemory.toDictionary ∧ edit.Kept := by
  have hseen : (annsEdit (alone annSavesMemory) ⟨1, 2, 2019⟩ []).map EditRun.seen =
      some annsSeen := by decide
  obtain ⟨r, hr, hseen⟩ := Option.map_eq_some_iff.mp hseen
  obtain ⟨edit, -, -, hmemory, htoday, htoDone, -, -, hfault⟩ := exists_annsEdit hr hseen
  have hkept : edit.Kept := (memory_edit_kept_iff edit).mpr
    ⟨edit.fault_eq_none_iff.mp hfault, by rw [hmemory, htoday]; decide⟩
  have huntouched : edit.Untouched := by
    rw [MemoryEdit.Untouched, htoDone]
    trivial
  exact ⟨edit, hmemory ▸ hkept.untouched huntouched, hkept⟩

end DailyDiary
