/-
Edits of several devices: whose edit a record holds.

No write of the app is conditional. An editor writes the whole record back, and a
deletion removes it, whatever the record has become since the screen was opened. So a
record holds what the server accepted last at its place (`run_record`), and an edit
takes effect over edits and deletions it has not seen (`edits_take_effect`).
-/
import DailyDiary.MemoryEdits

set_option autoImplicit false

namespace DailyDiary

open Device

/-! ## What is stored at the place of a record -/

/-- The record `id` of the account `u`, as the server stores it. -/
def Server.record (srv : Server) (u : Uid) (id : String) : Option Json :=
  PathTree.get (memoryRef u ++ [id]) srv.db

/-- The value that the server accepts with the event at the place of a record. -/
def Device.acceptsRecord (d : Device) (u : Uid) (id : String) : Event → Option (Option Json)
  | .writeDecided k true =>
    d.writes[k]?.bind fun wr => if wr.ref = memoryRef u ++ [id] then some wr.value else none
  | _ => none

/-- The values accepted at the place of a record in a run, from any device. -/
def acceptedRecords (u : Uid) (id : String) (w : World) (es : List (ℕ × Event)) :
    List (Option Json) :=
  app.collect (fun v e => (v.device e.1).acceptsRecord u id e.2) w es

/-- A write of the app at another place leaves a record alone. -/
theorem Write.Clean.get_record {wr : Write} (h : wr.Clean) {u : Uid} {id : String}
    (hne : wr.ref ≠ memoryRef u ++ [id]) (db : Option Json) :
    PathTree.get (memoryRef u ++ [id]) (PathTree.set wr.ref wr.value db) =
      PathTree.get (memoryRef u ++ [id]) db := by
  rcases h with hhead | ⟨uid, id', href, hid, -⟩
  -- a write to the other tree, and a write to another record
  · obtain ⟨rest, hrest⟩ := List.head?_eq_some_iff.mp hhead
    rw [hrest]
    refine PathTree.get_set_of_disjoint ?_ ?_ _ _ <;> simp
  · rw [href, memoryRef_eq] at hne
    rw [href, memoryRef_eq]
    have hkeys : ¬ (uid = u.val ∧ id' = id) := by
      rintro ⟨rfl, rfl⟩
      exact hne rfl
    refine PathTree.get_set_of_disjoint ?_ ?_ _ _
    · intro hp
      simp only [List.cons_append, List.nil_append, List.cons_prefix_cons, List.nil_prefix,
        and_true, true_and] at hp
      exact hkeys hp
    · intro hp
      simp only [List.cons_append, List.nil_append, List.cons_prefix_cons, List.nil_prefix,
        and_true, true_and] at hp
      exact hkeys ⟨hp.1.symm, hp.2.symm⟩

/-- A record is what a step writes there, or stays. -/
theorem step_record {srv srv' : Server} {d d' : Device} {e : Event} (hd : d.Clean)
    (h : step srv d e = some (srv', d')) (u : Uid) (id : String) :
    srv'.record u id = (d.acceptsRecord u id e).getD (srv.record u id) := by
  cases steps_of_step h with
  | @writeDecided k accepted srv' d' hdecide =>
    obtain ⟨wr, hwr, -, rfl, -⟩ := decideWrite_eq_some.mp hdecide
    cases accepted with
    | false => rfl
    | true =>
      -- no clean write is above or below a record, so its place decides
      simp only [Server.record, if_true, Device.acceptsRecord, hwr, Option.bind_some]
      by_cases href : wr.ref = memoryRef u ++ [id]
      · rw [if_pos href, ← href, PathTree.get_set_self]
        rfl
      · rw [if_neg href]
        exact (hd.writes wr (List.mem_of_getElem? hwr)).get_record href srv.db
  | authCompleted hr =>
    obtain ⟨call, -, hanswer, -⟩ := completeAuth_eq_some.mp hr
    rw [Server.record, Server.answer_db hanswer]
    rfl
  | _ => rfl

/-- **The last write wins.** In every run a record is what was accepted last at its
place, or what it was before the run. -/
theorem run_record {w w' : World} {es : List (ℕ × Event)} (hw : KeepsSchema w)
    (hr : app.run w es = some w') (u : Uid) (id : String) :
    w'.server.record u id = (acceptedRecords u id w es).getLastD (w.server.record u id) := by
  have hlast := app.last_collect (f := fun v e => (v.device e.1).acceptsRecord u id e.2)
    (P := fun value v => KeepsSchema v ∧ v.server.record u id = value) ?_ ⟨hw, rfl⟩ hr
  · exact hlast.2
  · rintro value v e v' ⟨hv, rfl⟩ hs
    exact ⟨hv.step hs, step_record (hv.2 e.1).clean (app_step_eq_some.mp hs).1 u id⟩

/-! ## An edit among others -/

/-- An edit on device `i`, in a run that starts with a clean database: `u` presses Done,
and later, after anything else, the server accepts the write. -/
structure EditRace where
  edit : MemoryEdit
  start : World
  hstart : app.init start
  htree : MemoryTree start.server.db
  toRead : List (ℕ × Event)
  hread : app.run start toRead = some edit.w
  u : Uid
  huser : (edit.edited.device edit.i).currentUser = some u
  ready : World
  toReady : List (ℕ × Event)
  hready : app.run edit.saved toReady = some ready
  /-- where the write waits for its decision -/
  k : ℕ
  wr : Write
  hwr : (ready.device edit.i).writes[k]? = some wr
  hsame : ∃ issued, (edit.saved.device edit.i).writes.getLast? = some issued ∧ issued.Same wr
  accepted : World
  haccepted : app.step ready (edit.i, .writeDecided k true) = some accepted

namespace EditRace

variable (race : EditRace)

/-- The record of the memory that is edited. -/
def stored (w : World) : Option Json :=
  w.server.record race.u race.edit.memory.memoryID

/-- The edit takes effect only over the memory that the screen was opened with. -/
def Guarded : Prop :=
  race.stored race.accepted = race.edit.written →
    race.stored race.ready = race.edit.memory.toDictionary

/-- What has been accepted at the place of the record since the editor was opened. -/
def overwritten : List (Option Json) :=
  acceptedRecords race.u race.edit.memory.memoryID race.edit.opened
    (race.edit.toDone ++ (race.edit.i, .press (.memoryDoneBtnPressed race.edit.draws)) ::
      race.toReady)

theorem schema_read : KeepsSchema race.edit.w :=
  (keepsSchema_init race.hstart race.htree).run race.hread

theorem schema_opened : KeepsSchema race.edit.opened := by
  obtain ⟨es, hr⟩ := race.edit.exists_run_opened
  exact race.schema_read.run hr

theorem schema_saved : KeepsSchema race.edit.saved :=
  (race.schema_opened.run race.edit.hedited).step race.edit.hsaved

theorem isMemoryID : IsMemoryID race.edit.memory.memoryID := by
  obtain ⟨hvc2, hid, -⟩ := race.edit.editor_eq
  -- in edit mode a clean editor has an ID that `random` can return
  have hclean := ((race.schema_opened.run race.edit.hedited).2 race.edit.i).clean.visible
    race.edit.heditor
  rcases hclean with ⟨hvc1, -⟩ | hclean
  · rw [hvc2] at hvc1
    exact absurd hvc1 (by decide)
  · exact hid ▸ hclean

/-- Done gets through, as the account is signed in and the ID is one that `random` makes. -/
theorem getsThrough : race.edit.GetsThrough where
  signedIn := Option.ne_none_iff_exists'.mpr ⟨_, race.huser⟩
  isPath := race.isMemoryID.isKey.isValidPathString

/-- The write that is accepted is the one Done issued. -/
theorem write_eq : race.wr.ref = memoryRef race.u ++ [race.edit.memory.memoryID] ∧
    race.wr.value = race.edit.written := by
  obtain ⟨hvc2, hid, -⟩ := race.edit.editor_eq
  obtain ⟨-, hwrites⟩ := step_memoryDone race.edit.heditor (by rw [hvc2]; decide) race.huser
    (hid.symm ▸ race.isMemoryID.isKey.isValidPathString) (app_step_eq_some.mp race.edit.hsaved).1
  obtain ⟨issued, hlast, href, hvalue, -⟩ := race.hsame
  rw [MemoryEdit.written, if_pos (race.edit.fault_eq_none_iff.mpr race.getsThrough), hlast]
  refine ⟨?_, hvalue.symm⟩
  rw [hwrites, List.getLast?_concat] at hlast
  obtain rfl := Option.some.inj hlast
  rw [← href, hid, child_memoryRef race.u race.isMemoryID, memoryRef_eq]
  rfl

/-- Accepting it puts the edit in the place of the record, and nothing else changes. -/
theorem replaces : ReplacesRecord race.u race.edit.memory.memoryID race.edit.written
    race.ready.server.db race.accepted.server.db := by
  obtain ⟨href, hvalue⟩ := race.write_eq
  have hdb : race.accepted.server.db =
      PathTree.set race.wr.ref race.wr.value race.ready.server.db := by
    rw [writeDecided_server race.hwr (app_step_eq_some.mp race.haccepted).1]
    rfl
  rw [hdb, href, hvalue, memoryRef_eq]
  exact replacesRecord_set race.u race.edit.memory.memoryID race.edit.written _

theorem run_opened : app.run race.edit.opened
    (race.edit.toDone ++ (race.edit.i, .press (.memoryDoneBtnPressed race.edit.draws)) ::
      race.toReady) = some race.ready :=
  (app.run_append_eq_some).mpr ⟨_, race.edit.hedited,
    (app.run_cons_eq_some).mpr ⟨_, race.edit.hsaved, race.hready⟩⟩

end EditRace

/-- **Edits take effect unconditionally, and the last write wins.** When the write of an
edit is accepted, the record becomes that of the edit, and every other record of every
account and the `user` tree stay as they are. What it replaces is the record as it was
stored when the editor was opened only if nothing has been accepted at its place since,
and otherwise what was accepted there last: an edit or a deletion the screen has not
seen. Afterwards the record is the edit's until a write is accepted at its place. -/
theorem edits_take_effect (race : EditRace) :
    ReplacesRecord race.u race.edit.memory.memoryID race.edit.written
      race.ready.server.db race.accepted.server.db ∧
    race.stored race.ready = race.overwritten.getLastD (race.stored race.edit.opened) ∧
    ∀ es w', app.run race.accepted es = some w' → race.stored w' =
      (acceptedRecords race.u race.edit.memory.memoryID race.accepted es).getLastD
        race.edit.written := by
  refine ⟨race.replaces, run_record race.schema_opened race.run_opened _ _, ?_⟩
  intro es w' hr
  -- the run starts where the edit has just been put in place
  have haccepted := (race.schema_saved.run race.hready).step race.haccepted
  rw [EditRace.stored, run_record haccepted hr]
  congr 1
  exact race.replaces.record

/-! ## Two devices of `ann` -/

/-- She saves a memory on device 0, and opens it on device 1. -/
def annOnTwoDevices : List (ℕ × Event) :=
  alone annSavesMemory ++
    [.typed (.logIn ann.email ann.password), .press .logInBtnPressed,
      .authCompleted 0 (.success ann.uid), .serverPush, .childAdded 1 0,
      .press (.didSelectRowAt 0)].map fun e => (1, e)

/-- On device 1 she edits it. -/
def editsElsewhere : List (ℕ × Event) :=
  [.press (.editBtnPressed ⟨2, 2, 2019⟩), .typed (.addMemory "title" "longer body"),
    .press (.memoryDoneBtnPressed zeroDraws), .writeDecided 0 true].map fun e => (1, e)

/-- On device 1 she deletes it. -/
def deletesElsewhere : List (ℕ × Event) :=
  [.press .deleteBtnPressed, .alertOk "" false, .writeDecided 0 true].map fun e => (1, e)

/-- What is stored, as it reads, when the server accepts the edit of device 0. -/
def annsRace (toDone : List (ℕ × Event)) :
    Option (EditSeen × Option Uid × ℕ × Option (Result Memory)) :=
  (annsEdit annOnTwoDevices ⟨3, 2, 2019⟩ toDone).bind fun r =>
    (app.step r.saved (0, .writeDecided 0 true)).map fun _ =>
      (r.seen, (r.edited.device 0).currentUser, (r.saved.device 0).writes.length,
        (r.saved.server.record ann.uid annsMemory.memoryID).map Memory.ofSnapshot)

theorem exists_annsRace (toDone : List (ℕ × Event)) {stored : Option (Result Memory)}
    (h : annsRace toDone = some (annsSeen, some ann.uid, 1, stored)) :
    ∃ race : EditRace, race.edit.memory = annsMemory ∧
      (race.stored race.ready).map Memory.ofSnapshot = stored := by
  obtain ⟨r, hr, h⟩ := Option.bind_eq_some_iff.mp h
  obtain ⟨accepted, haccepted, h⟩ := Option.map_eq_some_iff.mp h
  obtain ⟨hseen, h⟩ := Prod.mk.inj h
  obtain ⟨huser, h⟩ := Prod.mk.inj h
  obtain ⟨hlen, hstored⟩ := Prod.mk.inj h
  obtain ⟨edit, hstart, hi, hmemory, -, -, hedited, hsaved, -⟩ := exists_annsEdit hr hseen
  obtain ⟨wr, hwr⟩ := List.length_eq_one_iff.mp hlen
  refine ⟨{
    edit := edit, start := _, hstart := init_start _, htree := memoryTree_of_empty (by decide)
    toRead := _, hread := hstart, u := ann.uid
    huser := by rw [hedited, hi]; exact huser
    ready := edit.saved, toReady := [], hready := rfl
    k := 0, wr := wr
    hwr := by rw [hsaved, hi, hwr]; rfl
    hsame := ⟨wr, by rw [hsaved, hi, hwr]; rfl, .refl wr⟩
    accepted := accepted
    haccepted := by rw [hsaved, hi]; exact haccepted }, hmemory, ?_⟩
  show (edit.saved.server.record ann.uid edit.memory.memoryID).map Memory.ofSnapshot = stored
  rw [hmemory, hsaved]
  exact hstored

/-- An edit that the screen has not seen is overwritten, or a deletion. -/
theorem not_guarded_of_stored {race : EditRace} {stored : Option (Result Memory)}
    (hmemory : race.edit.memory = annsMemory)
    (hstored : (race.stored race.ready).map Memory.ofSnapshot = stored)
    (hne : stored ≠ some (.ok annsMemory)) : ¬ race.Guarded := by
  intro hguarded
  have hready := hguarded race.replaces.record
  rw [hready, hmemory] at hstored
  exact hne hstored.symm

set_option maxRecDepth 10000 in
/-- The edit of device 1 is lost, and the memory deleted on device 1 is back. -/
theorem lost_update_and_resurrection :
    (∃ race : EditRace, (race.stored race.ready).map Memory.ofSnapshot =
        some (.ok { annsMemory with memoryBody := "longer body", memoryDate := "02/02/2019" }) ∧
      ¬ race.Guarded) ∧
    ∃ race : EditRace, (race.stored race.ready).map Memory.ofSnapshot = none ∧
      ¬ race.Guarded := by
  have hedit : annsRace editsElsewhere = some (annsSeen, some ann.uid, 1,
      some (.ok { annsMemory with memoryBody := "longer body", memoryDate := "02/02/2019" })) := by
    decide
  have hdelete : annsRace deletesElsewhere = some (annsSeen, some ann.uid, 1, none) := by decide
  constructor
  · obtain ⟨race, hmemory, hstored⟩ := exists_annsRace editsElsewhere hedit
    exact ⟨race, hstored, not_guarded_of_stored hmemory hstored (by decide)⟩
  · obtain ⟨race, hmemory, hstored⟩ := exists_annsRace deletesElsewhere hdelete
    exact ⟨race, hstored, not_guarded_of_stored hmemory hstored (by decide)⟩

set_option maxRecDepth 10000 in
/-- With nothing in between, the edit replaces the memory it was opened with. -/
theorem edits_take_effect_ann :
    ∃ race : EditRace, (race.stored race.ready).map Memory.ofSnapshot = some (.ok annsMemory) ∧
      race.stored race.accepted = race.edit.written := by
  have hnothing : annsRace [] = some (annsSeen, some ann.uid, 1, some (.ok annsMemory)) := by
    decide
  obtain ⟨race, -, hstored⟩ := exists_annsRace [] hnothing
  exact ⟨race, hstored, (edits_take_effect race).1.record⟩

end DailyDiary
