/-
One opening of the screen that adds or edits a memory, with all the presses of Done in it.

Done is also the way to try again: nothing blocks it while a write waits for its
decision. Every press issues a write of its own, and the SDK has them decided in the
order of the presses. What is written is right press by press: the place of a press
holds the texts of the last one that was accepted there (`Accounted`). Where it is
written is the ID of the memory in edit mode, and the ID that the press draws in add
mode, so `editor_writes_one_record_iff` says which openings write one record.
-/
import DailyDiary.MemoryIDs
import DailyDiary.PendingRequests

set_option autoImplicit false

namespace DailyDiary

open Device AddMemoryViewController

/-! ## What is observed of the screen -/

/-- A press of Done: who is signed in, the draws it is given, the texts in the fields, and
the last write that waits afterwards. -/
structure DonePress where
  user : Option Uid
  draws : Draws
  title : String
  body : String
  write : Option Write

/-- The place that the press writes to. -/
def DonePress.key (p : DonePress) : Option Ref :=
  p.write.map Write.ref

/-- The event is a press of Done on the screen `s` of device `i` that gets through. One
that stops the app, as nobody is signed in or the ID is no path string, writes nothing
(`step_memoryDone_stops`) and ends what happens on the device. -/
def donePress (i : ℕ) (s : VcId) (w : World) (e : ℕ × Event) : Option DonePress :=
  if e.1 = i then
    match e.2, (w.device i).visible with
    | .press (.memoryDoneBtnPressed draws), some (self, .addMemory c) =>
      if self = s then
        (app.step w e).bind fun w' =>
          if (w'.device i).fault = none then
            some {
              user := (w.device i).currentUser
              draws := draws
              title := c.titleTextField
              body := c.memoryBodyTextField
              write := (w'.device i).writes.getLast? }
          else none
      else none
    | _, _ => none
  else none

/-- The event is the server's decision on a write of the screen `s` of device `i`. -/
def doneVerdict (i : ℕ) (s : VcId) (w : World) (e : ℕ × Event) : Option Bool :=
  if e.1 = i then
    match e.2 with
    | .writeDecided k accepted =>
      (w.device i).writes[k]?.bind fun wr =>
        if wr.completion = .memorySaved s then some accepted else none
    | _ => none
  else none

/-- The last press whose write has been accepted, where the decisions come in the order
of the presses. -/
def lastAccepted (presses : List DonePress) (verdicts : List Bool) : Option DonePress :=
  ((presses.zip verdicts).filter Prod.snd).getLast?.map Prod.fst

/-- The write is one of the screen `s` and waits for its decision. -/
def Write.waitsOn (s : VcId) (wr : Write) : Bool :=
  wr.verdict = none ∧ wr.completion = .memorySaved s

/-- The server accepts no write but those of the screen `s` of device `i`, and decides
the writes of a device in the order in which they were issued. -/
structure Undisturbed (i : ℕ) (s : VcId) (w : World) (e : ℕ × Event) : Prop where
  alone : ∀ k, e.2 = .writeDecided k true → e.1 = i ∧
    ∃ wr, (w.device i).writes[k]? = some wr ∧ wr.completion = .memorySaved s
  inOrder : ∀ k accepted, e.2 = .writeDecided k accepted → ∀ j wr, j < k →
    (w.device e.1).writes[j]? = some wr → wr.verdict ≠ none

/-- The computed record of a press, in plain words: the editor is visible, the app gets
through the press, and the write it issues is the last one of the queue. -/
theorem donePress_eq_some {i : ℕ} {s : VcId} {w : World} {e : ℕ × Event} {p : DonePress} :
    donePress i s w e = some p ↔ ∃ draws c w', e = (i, .press (.memoryDoneBtnPressed draws)) ∧
      (w.device i).visible = some (s, .addMemory c) ∧ app.step w e = some w' ∧
      (w'.device i).fault = none ∧ p = {
        user := (w.device i).currentUser
        draws := draws
        title := c.titleTextField
        body := c.memoryBodyTextField
        write := (w'.device i).writes.getLast? } := by
  obtain ⟨j, e⟩ := e
  constructor
  · intro h
    unfold donePress at h
    split at h
    · next hj =>
      obtain rfl : j = i := hj
      split at h
      · next draws self c he hv =>
        obtain rfl : e = .press (.memoryDoneBtnPressed draws) := he
        split at h
        · next hself =>
          subst hself
          obtain ⟨w', hs, h⟩ := Option.bind_eq_some_iff.mp h
          split at h
          · next hfault => exact ⟨draws, c, w', rfl, hv, hs, hfault, (Option.some.inj h).symm⟩
          · cases h
        · cases h
      · cases h
    · cases h
  · rintro ⟨draws, c, w', he, hv, hs, hfault, rfl⟩
    obtain ⟨rfl, rfl⟩ := Prod.mk.inj he
    simp [donePress, hv, hs, hfault]

/-- The computed verdict in plain words: the server decides a pending write whose completion
block belongs to this editor. -/
theorem doneVerdict_eq_some {i : ℕ} {s : VcId} {w : World} {e : ℕ × Event} {accepted : Bool} :
    doneVerdict i s w e = some accepted ↔ ∃ k wr, e = (i, .writeDecided k accepted) ∧
      (w.device i).writes[k]? = some wr ∧ wr.completion = .memorySaved s := by
  obtain ⟨j, e⟩ := e
  constructor
  · intro h
    unfold doneVerdict at h
    split at h
    · next hj =>
      obtain rfl : j = i := hj
      split at h
      · next k accepted' he =>
        obtain rfl : e = .writeDecided k accepted' := he
        obtain ⟨wr, hwr, h⟩ := Option.bind_eq_some_iff.mp h
        split at h
        · next hcompletion =>
          obtain rfl := Option.some.inj h
          exact ⟨k, wr, rfl, hwr, hcompletion⟩
        · cases h
      · cases h
    · cases h
  · rintro ⟨k, wr, he, hwr, hcompletion⟩
    obtain ⟨rfl, rfl⟩ := Prod.mk.inj he
    simp [doneVerdict, hwr, hcompletion]

/-! ## The last press that was accepted -/

theorem zip_concat_left {α β : Type} {as : List α} {bs : List β} (h : bs.length ≤ as.length)
    (a : α) : (as ++ [a]).zip bs = as.zip bs := by
  induction as generalizing bs with
  | nil =>
    obtain rfl := List.length_eq_zero_iff.mp (Nat.le_zero.mp h)
    rfl
  | cons a' as ih =>
    cases bs with
    | nil => rfl
    | cons b bs => exact congrArg ((a', b) :: ·) (ih (Nat.le_of_succ_le_succ h))

theorem zip_concat_right {α β : Type} {as : List α} {bs : List β} {a : α}
    (h : as[bs.length]? = some a) (b : β) : as.zip (bs ++ [b]) = as.zip bs ++ [(a, b)] := by
  induction bs generalizing as with
  | nil =>
    cases as with
    | nil => cases h
    | cons a' as =>
      obtain rfl := Option.some.inj h
      simp
  | cons b' bs ih =>
    cases as with
    | nil => cases h
    | cons a' as => exact congrArg ((a', b') :: ·) (ih h)

/-- A press that waits changes nothing. -/
theorem lastAccepted_press {presses : List DonePress} {verdicts : List Bool}
    (h : verdicts.length ≤ presses.length) (p : DonePress) :
    lastAccepted (presses ++ [p]) verdicts = lastAccepted presses verdicts := by
  rw [lastAccepted, zip_concat_left h, lastAccepted]

/-- The decision on the first press that waits. -/
theorem lastAccepted_verdict {presses : List DonePress} {verdicts : List Bool} {p : DonePress}
    (h : presses[verdicts.length]? = some p) (accepted : Bool) :
    lastAccepted presses (verdicts ++ [accepted]) =
      if accepted then some p else lastAccepted presses verdicts := by
  rw [lastAccepted, zip_concat_right h, List.filter_append]
  cases accepted with
  | true => simp
  | false => simp [lastAccepted]

/-! ## One opening -/

/-- The controller is an editor that was opened with the variables of this one. -/
def ViewController.OpenedLike (editor : AddMemoryViewController) : ViewController → Prop
  | .addMemory c => c.initator = editor.initator ∧ c.memoryDate = editor.memoryDate ∧
      (editor.initator ≠ "vc1" → c.memoryID = editor.memoryID)
  | _ => False

theorem Device.Becomes.openedLike {d : Device} {e : Event} {view : Option Json} {i : ℕ}
    {editor : AddMemoryViewController} {v v' : ViewController} (h : d.Becomes e view i v v')
    (hv : v.OpenedLike editor) : v'.OpenedLike editor := by
  cases v with
  | addMemory c =>
    obtain ⟨c', rfl, hinit', hdate', hid', -⟩ := h.addMemory
    obtain ⟨hinit, hdate, hid⟩ := hv
    refine ⟨hinit'.trans hinit, hdate'.trans hdate, ?_⟩
    intro hvc2
    exact (hid' (hinit ▸ hvc2)).trans (hid hvc2)
  | _ => exact hv.elim

/-- The screen `s` of device `i` is opened to add or to edit, and `es` follows, in which
anything may happen on this device and on the others. -/
structure EditorOpening where
  i : ℕ
  before : World
  reachable : app.Reachable before
  s : VcId
  new : (before.device i).vcs[s]? = none
  e : Event
  opened : World
  hopened : app.step before (i, e) = some opened
  editor : AddMemoryViewController
  heditor : (opened.device i).vcs[s]? = some (.addMemory editor)
  es : List (ℕ × Event)
  now : World
  hnow : app.run opened es = some now

namespace EditorOpening

variable (o : EditorOpening)

/-- The presses of Done on the screen in a part of what follows. -/
def pressesIn (es : List (ℕ × Event)) : List DonePress :=
  app.collect (donePress o.i o.s) o.opened es

/-- The decisions of the server on their writes. -/
def verdictsIn (es : List (ℕ × Event)) : List Bool :=
  app.collect (doneVerdict o.i o.s) o.opened es

def presses : List DonePress :=
  o.pressesIn o.es

/-- The last press whose write was accepted. -/
def lastSaved : Option DonePress :=
  lastAccepted o.presses (o.verdictsIn o.es)

/-- All presses write to one place; and where no other write is accepted meanwhile, every
place the presses did not write to is as it was when the screen was opened, and the place
of the last press that was accepted holds its title and its body. -/
structure WritesOneRecord : Prop where
  key : ∀ p ∈ o.presses, ∀ q ∈ o.presses, p.key = q.key
  elsewhere : app.Always (Undisturbed o.i o.s) o.opened o.es → ∀ path : Ref,
    (∀ p ∈ o.presses, ∀ ref, p.key = some ref → ¬ ref <+: path ∧ ¬ path <+: ref) →
      PathTree.get path o.now.server.db = PathTree.get path o.opened.server.db
  last : app.Always (Undisturbed o.i o.s) o.opened o.es → ∀ p, o.lastSaved = some p →
    ∃ ref, p.key = some ref ∧
      stringField "memoryTitle" (PathTree.get ref o.now.server.db) = some p.title ∧
      stringField "memoryBody" (PathTree.get ref o.now.server.db) = some p.body

/-- The same account is signed in at all presses. -/
def SameUser : Prop :=
  ∀ p ∈ o.presses, ∀ q ∈ o.presses, p.user = q.user

/-- All presses are given the same draws. -/
def SameDraws : Prop :=
  ∀ p ∈ o.presses, ∀ q ∈ o.presses, p.draws = q.draws

/-- The ID that a press with these draws writes under. -/
def recordID (draws : Draws) : String :=
  if o.editor.initator = "vc1" then (randomID draws).val else o.editor.memoryID

theorem reachable_opened : app.Reachable o.opened :=
  o.reachable.step o.hopened

/-- The screen is opened to add or to edit. -/
theorem initator_eq : o.editor.initator = "vc1" ∨ o.editor.initator = "vc2" := by
  have hstep := (app_step_eq_some.mp o.hopened).1
  rcases (step_effect hstep).vcs o.s _ o.heditor with ⟨v, hv, -⟩ | ⟨-, v, hopens, heq⟩
  · cases o.new.symm.trans hv
  -- of all that a step can open, two are editors
  · generalize o.e = e at hopens
    cases hopens with
    | addMemory hv =>
      rw [ViewController.addMemory.inj heq]
      exact Or.inl rfl
    | editMemory hv =>
      rw [ViewController.addMemory.inj heq]
      exact Or.inr rfl
    | initial hinit =>
      cases v with
      | addMemory c => exact hinit.elim
      | _ => cases heq
    | _ => cases heq

/-- The instance keeps what it was opened with, but for the ID in add mode. -/
theorem run_editor {es : List (ℕ × Event)} {w : World} (hr : app.run o.opened es = some w)
    {c : AddMemoryViewController} (hc : (w.device o.i).vcs[o.s]? = some (.addMemory c)) :
    c.initator = o.editor.initator ∧ c.memoryDate = o.editor.memoryDate ∧
      (o.editor.initator ≠ "vc1" → c.memoryID = o.editor.memoryID) := by
  obtain ⟨v, hv, hlike⟩ := run_vc (P := ViewController.OpenedLike o.editor)
    (fun _ _ _ _ _ hbecomes => hbecomes.openedLike) ⟨_, o.heditor, rfl, rfl, fun _ => rfl⟩ hr
  cases hc.symm.trans hv
  exact hlike

/-- The write that a press issues. -/
def write (u : Uid) (p : DonePress) : Write where
  ref := (memoryRef u).childFromString (o.recordID p.draws)
  value := Memory.toDictionary {
    memoryID := o.recordID p.draws
    memoryTitle := p.title
    memoryBody := p.body
    memoryDate := o.editor.memoryDate }
  completion := .memorySaved o.s

/-- What a press does. -/
theorem step_press {es : List (ℕ × Event)} {w w' : World} {e : ℕ × Event} {p : DonePress}
    (hr : app.run o.opened es = some w) (hp : donePress o.i o.s w e = some p)
    (hs : app.step w e = some w') :
    ∃ u, p.user = some u ∧ p.write = some (o.write u p) ∧
      (w'.device o.i).writes = (w.device o.i).writes ++ [o.write u p] := by
  obtain ⟨draws, c, w'', rfl, hv, hs', hfault, rfl⟩ := donePress_eq_some.mp hp
  obtain rfl := Option.some.inj (hs.symm.trans hs')
  obtain ⟨c', u, hread, hu, hpath⟩ :=
    (step_memoryDone_fault hv (app_step_eq_some.mp hs).1).mp hfault
  obtain rfl := Except.ok.inj ((readFields_eq draws c).symm.trans hread)
  obtain ⟨hinit, hdate, hid⟩ := o.run_editor hr (visible_eq_some.mp hv).2
  obtain ⟨-, -, hwrites⟩ := step_memoryDone_readFields hv hread hu hpath
    (app_step_eq_some.mp hs).1
  have hrecord : (if c.initator = "vc1" then (randomID draws).val else c.memoryID) =
      o.recordID draws := by
    rw [recordID, hinit]
    by_cases hvc1 : o.editor.initator = "vc1"
    · rw [if_pos hvc1, if_pos hvc1]
    · rw [if_neg hvc1, if_neg hvc1, hid hvc1]
  -- the write is the last one that waits, which is how a press is observed
  simp only [hrecord] at hwrites
  refine ⟨u, hu, ?_, ?_⟩
  · rw [hwrites, List.getLast?_concat]
    simp [write, memory, hdate]
  · rw [hwrites]
    simp [write, memory, hdate]

/-- Every press issues its write. -/
theorem press_write {p : DonePress} {es : List (ℕ × Event)} (hp : p ∈ o.pressesIn es) :
    ∃ u, p.user = some u ∧ p.write = some (o.write u p) := by
  obtain ⟨before, e, after, w, w', rfl, hr, hs, hpress⟩ := app.exists_of_mem_collect hp
  obtain ⟨u, hu, hwrite, -⟩ := o.step_press hr hpress hs
  exact ⟨u, hu, hwrite⟩

/-! ## The account of an opening -/

/-- The presses and the decisions so far, against the state: the writes that wait are those
of the presses without a decision, in their order, and the database shows the others. -/
structure Accounted (es : List (ℕ × Event)) (w : World) : Prop where
  length : (o.verdictsIn es).length ≤ (o.pressesIn es).length
  waiting : ((w.device o.i).writes.filter (Write.waitsOn o.s)).map some =
    ((o.pressesIn es).drop (o.verdictsIn es).length).map DonePress.write
  elsewhere : ∀ path : Ref,
    (∀ p ∈ o.pressesIn es, ∀ ref, p.key = some ref → ¬ ref <+: path ∧ ¬ path <+: ref) →
      PathTree.get path w.server.db = PathTree.get path o.opened.server.db
  last : ∀ p, lastAccepted (o.pressesIn es) (o.verdictsIn es) = some p → ∃ ref, p.key = some ref ∧
    stringField "memoryTitle" (PathTree.get ref w.server.db) = some p.title ∧
    stringField "memoryBody" (PathTree.get ref w.server.db) = some p.body

/-- The screen is new, so no write of it waits when it is opened. -/
theorem accounted_opened : o.Accounted [] o.opened where
  length := Nat.le_refl 0
  waiting := by
    have hno : (o.opened.device o.i).writes.filter (Write.waitsOn o.s) = [] := by
      rw [List.filter_eq_nil_iff]
      intro wr hwr hwaits
      obtain ⟨-, hcompletion⟩ := of_decide_eq_true hwaits
      rcases (step_effect (app_step_eq_some.mp o.hopened).1).writes.mem hwr with
        ⟨wr₀, hwr₀, -, -, hsame⟩ | hissue
      -- every write is owned by a screen that is there, and a new one by the visible screen
      · have howned := (reachable_inv o.reachable o.i).wf.writes wr₀ hwr₀
        rw [hsame, hcompletion, Completion.OwnedBy, screens_getElem?, o.new] at howned
        cases howned
      · generalize o.e = e at hissue
        cases hissue with
        | memory hv hc hu hid =>
          cases hcompletion
          cases o.new.symm.trans (visible_eq_some.mp hv).2
        | _ => cases hcompletion
    rw [hno]
    rfl
  elsewhere := fun _ _ => rfl
  last := by
    intro p hp
    cases hp

theorem pressesIn_concat {es : List (ℕ × Event)} {w w' : World} {e : ℕ × Event}
    (hr : app.run o.opened es = some w) (hs : app.step w e = some w') :
    o.pressesIn (es ++ [e]) = o.pressesIn es ++ (donePress o.i o.s w e).toList :=
  app.collect_concat hr hs

theorem verdictsIn_concat {es : List (ℕ × Event)} {w w' : World} {e : ℕ × Event}
    (hr : app.run o.opened es = some w) (hs : app.step w e = some w') :
    o.verdictsIn (es ++ [e]) = o.verdictsIn es ++ (doneVerdict o.i o.s w e).toList :=
  app.collect_concat hr hs

end EditorOpening

section Steps

variable {i : ℕ} {s : VcId} {w w' : World} {e : ℕ × Event}

/-- A step that is no decision on a write of the screen accepts nothing. -/
theorem Undisturbed.db_eq (h : Undisturbed i s w e) (hno : doneVerdict i s w e = none)
    (hs : app.step w e = some w') : w'.server.db = w.server.db := by
  rcases step_db (app_step_eq_some.mp hs).1 with hsame | ⟨k, wr, he, hwr, -, -⟩
  · exact hsame
  · obtain ⟨hi, wr', hwr', hcompletion⟩ := h.alone k he
    have hverdict : doneVerdict i s w e = some true :=
      doneVerdict_eq_some.mpr ⟨k, wr', Prod.ext hi he, hwr', hcompletion⟩
    cases hno.symm.trans hverdict

/-- A press that issues a write of the screen gets through. -/
theorem exists_donePress {e : Event} {wr : Write} (hissue : (w.device i).Issues e wr)
    (hcompletion : wr.completion = .memorySaved s) (hs : app.step w (i, e) = some w') :
    ∃ p, donePress i s w (i, e) = some p := by
  cases hissue with
  | memory hv hc hu hid =>
    cases hcompletion
    have hfault := (step_memoryDone_fault hv (app_step_eq_some.mp hs).1).mpr ⟨_, _, hc, hu, hid⟩
    exact ⟨_, donePress_eq_some.mpr ⟨_, _, w', rfl, hv, hs, hfault, rfl⟩⟩
  | _ => cases hcompletion

/-- New writes wait on the screen only after a press of Done. -/
theorem filter_waitsOn_of_issues {e : Event} {ws : List Write}
    (hws : ∀ wr ∈ ws, (w.device i).Issues e wr) (hno : donePress i s w (i, e) = none)
    (hs : app.step w (i, e) = some w') : ws.filter (Write.waitsOn s) = [] := by
  rw [List.filter_eq_nil_iff]
  intro wr hwr hwaits
  obtain ⟨-, hcompletion⟩ := of_decide_eq_true hwaits
  obtain ⟨p, hp⟩ := exists_donePress (hws wr hwr) hcompletion hs
  cases hno.symm.trans hp

/-- A step that is neither a press nor a decision leaves the writes that wait. -/
theorem filter_waitsOn_step (hpress : donePress i s w e = none)
    (hverdict : doneVerdict i s w e = none) (hs : app.step w e = some w') :
    (w'.device i).writes.filter (Write.waitsOn s) =
      (w.device i).writes.filter (Write.waitsOn s) := by
  obtain ⟨j, e⟩ := e
  obtain ⟨hstep, hne⟩ := app_step_eq_some.mp hs
  by_cases hj : i = j
  · subst hj
    cases step_queued hstep with
    | appends hanswers hdecides hauths hwrites hcalls hws =>
      rw [hwrites, List.filter_append, filter_waitsOn_of_issues hws hpress hs, List.append_nil]
    | answered hk hauths hauths' hwrites hws =>
      rw [hwrites, List.filter_append, filter_waitsOn_of_issues hws hpress hs, List.append_nil]
    | @decided k accepted d' wr l₁ l₂ hk hnone hwrites hwrites' hauths =>
      -- a decision on a write of another screen
      have hother : wr.completion ≠ .memorySaved s := by
        intro hcompletion
        have hwr : (w.device i).writes[k]? = some wr := getElem?_of_split hk hwrites
        cases hverdict.symm.trans (doneVerdict_eq_some.mpr ⟨k, wr, rfl, hwr, hcompletion⟩)
      rw [hwrites, hwrites', List.filter_append, List.filter_append]
      simp [Write.waitsOn, hother]
    | acknowledged hk hdecided hwrites hwrites' hauths =>
      -- the write that goes away was decided, so it waited no more
      rw [hwrites, hwrites', List.filter_append, List.filter_append]
      simp [Write.waitsOn, hdecided]
  · rw [hne i hj]

end Steps

namespace EditorOpening

variable {o : EditorOpening} {es : List (ℕ × Event)} {w w' : World} {e : ℕ × Event}

/-- A step that is neither a press nor a decision. -/
theorem Accounted.other (h : o.Accounted es w) (hr : app.run o.opened es = some w)
    (hund : Undisturbed o.i o.s w e) (hpress : donePress o.i o.s w e = none)
    (hverdict : doneVerdict o.i o.s w e = none) (hs : app.step w e = some w') :
    o.Accounted (es ++ [e]) w' := by
  have hpresses : o.pressesIn (es ++ [e]) = o.pressesIn es := by
    rw [o.pressesIn_concat hr hs, hpress, Option.toList_none, List.append_nil]
  have hverdicts : o.verdictsIn (es ++ [e]) = o.verdictsIn es := by
    rw [o.verdictsIn_concat hr hs, hverdict, Option.toList_none, List.append_nil]
  have hdb := hund.db_eq hverdict hs
  constructor
  · rw [hpresses, hverdicts]
    exact h.length
  · rw [hpresses, hverdicts, filter_waitsOn_step hpress hverdict hs]
    exact h.waiting
  · rw [hpresses, hdb]
    exact h.elsewhere
  · rw [hpresses, hverdicts, hdb]
    exact h.last

/-- A press of Done waits behind those before it. -/
theorem Accounted.press (h : o.Accounted es w) (hr : app.run o.opened es = some w)
    (hund : Undisturbed o.i o.s w e) {p : DonePress} (hpress : donePress o.i o.s w e = some p)
    (hs : app.step w e = some w') : o.Accounted (es ++ [e]) w' := by
  obtain ⟨u, hu, hwrite, hwrites⟩ := o.step_press hr hpress hs
  have hverdict : doneVerdict o.i o.s w e = none := by
    obtain ⟨draws, c, w'', rfl, -⟩ := donePress_eq_some.mp hpress
    simp [doneVerdict]
  have hpresses : o.pressesIn (es ++ [e]) = o.pressesIn es ++ [p] := by
    rw [o.pressesIn_concat hr hs, hpress, Option.toList_some]
  have hverdicts : o.verdictsIn (es ++ [e]) = o.verdictsIn es := by
    rw [o.verdictsIn_concat hr hs, hverdict, Option.toList_none, List.append_nil]
  have hdb := hund.db_eq hverdict hs
  constructor
  · rw [hpresses, hverdicts, List.length_append]
    exact Nat.le_add_right_of_le h.length
  · have hwaits : [o.write u p].filter (Write.waitsOn o.s) = [o.write u p] := by
      simp [Write.waitsOn, write]
    rw [hpresses, hverdicts, List.drop_append_of_le_length h.length, hwrites, List.filter_append,
      hwaits, List.map_append, List.map_append, h.waiting]
    simp [hwrite]
  · rw [hpresses, hdb]
    intro path hpath
    exact h.elsewhere path fun q hq => hpath q (List.mem_append_left _ hq)
  · rw [hpresses, hverdicts, hdb, lastAccepted_press h.length]
    exact h.last

/-- The writes of the screen are decided first come, first served. -/
theorem Accounted.first (h : o.Accounted es w) (hund : Undisturbed o.i o.s w e) {k : ℕ}
    {accepted : Bool} {wr : Write} (he : e = (o.i, .writeDecided k accepted))
    (hwr : (w.device o.i).writes[k]? = some wr) (hcompletion : wr.completion = .memorySaved o.s)
    (hs : app.step w e = some w') :
    ∃ p, (o.pressesIn es)[(o.verdictsIn es).length]? = some p ∧ p.write = some wr ∧
      ((w'.device o.i).writes.filter (Write.waitsOn o.s)).map some =
        ((o.pressesIn es).drop ((o.verdictsIn es).length + 1)).map DonePress.write := by
  subst he
  cases step_queued (app_step_eq_some.mp hs).1 with
  | appends hanswers hdecides hauths hwrites hcalls hws => cases hdecides
  | @decided k accepted d' wr' l₁ l₂ hk hnone hwrites hwrites' hauths =>
    have hat : (w.device o.i).writes[k]? = some wr' := getElem?_of_split hk hwrites
    obtain rfl := Option.some.inj (hwr.symm.trans hat)
    -- what stands in front has been decided
    have hfront : l₁.filter (Write.waitsOn o.s) = [] := by
      rw [List.filter_eq_nil_iff]
      intro wr₁ hwr₁ hwaits
      obtain ⟨j, hj⟩ := List.mem_iff_getElem?.mp hwr₁
      have hlt : j < k := hk ▸ (List.getElem?_eq_some_iff.mp hj).1
      refine hund.inOrder k accepted rfl j wr₁ hlt ?_ (of_decide_eq_true hwaits).1
      show (w.device o.i).writes[j]? = some wr₁
      rw [hwrites, List.getElem?_append_left (hk ▸ hlt), hj]
    have hwaits : wr.waitsOn o.s = true := by simp [Write.waitsOn, hnone, hcompletion]
    have hdone : ({ wr with verdict := some accepted } : Write).waitsOn o.s = false := by
      simp [Write.waitsOn]
    -- so it is the first that waits, and the account names the press it belongs to
    have hwaiting := h.waiting
    rw [hwrites, List.filter_append, hfront, List.nil_append, List.filter_cons_of_pos hwaits,
      List.map_cons] at hwaiting
    rw [hwrites', List.filter_append, hfront, List.nil_append,
      List.filter_cons_of_neg (by simp [hdone])]
    cases hdrop : (o.pressesIn es).drop (o.verdictsIn es).length with
    | nil =>
      rw [hdrop] at hwaiting
      cases hwaiting
    | cons p rest =>
      rw [hdrop, List.map_cons] at hwaiting
      obtain ⟨hwrite, hrest⟩ := List.cons.inj hwaiting
      refine ⟨p, ?_, hwrite.symm, ?_⟩
      · rw [← Nat.add_zero (o.verdictsIn es).length, ← List.getElem?_drop, hdrop]
        rfl
      · rw [hrest, ← List.drop_drop, hdrop]
        rfl

/-- The decision on the first press that waits: an accepted write puts the texts of the
press in its place. -/
theorem Accounted.verdict (h : o.Accounted es w) (hr : app.run o.opened es = some w)
    (hund : Undisturbed o.i o.s w e) {accepted : Bool}
    (hverdict : doneVerdict o.i o.s w e = some accepted) (hs : app.step w e = some w') :
    o.Accounted (es ++ [e]) w' := by
  obtain ⟨k, wr, he, hwr, hcompletion⟩ := doneVerdict_eq_some.mp hverdict
  obtain ⟨p, hp, hwrite, hwaiting⟩ := h.first hund he hwr hcompletion hs
  have hpress : donePress o.i o.s w e = none := by
    rw [he]
    simp [donePress]
  have hpresses : o.pressesIn (es ++ [e]) = o.pressesIn es := by
    rw [o.pressesIn_concat hr hs, hpress, Option.toList_none, List.append_nil]
  have hverdicts : o.verdictsIn (es ++ [e]) = o.verdictsIn es ++ [accepted] := by
    rw [o.verdictsIn_concat hr hs, hverdict, Option.toList_some]
  have hmem : p ∈ o.pressesIn es := List.mem_of_getElem? hp
  obtain ⟨hlt, -⟩ := List.getElem?_eq_some_iff.mp hp
  have hdb : w'.server.db = if accepted then PathTree.set wr.ref wr.value w.server.db
      else w.server.db := by
    subst he
    rw [writeDecided_server hwr (app_step_eq_some.mp hs).1]
    cases accepted <;> rfl
  have hkey : p.key = some wr.ref := by rw [DonePress.key, hwrite]; rfl
  constructor
  · rw [hpresses, hverdicts, List.length_append]
    exact hlt
  · rw [hpresses, hverdicts, List.length_append]
    exact hwaiting
  · rw [hpresses, hdb]
    intro path hpath
    cases accepted with
    | false => exact h.elsewhere path hpath
    | true =>
      -- `path` is not one the presses wrote to
      obtain ⟨hbelow, habove⟩ := hpath p hmem wr.ref hkey
      rw [if_pos rfl, PathTree.get_set_of_disjoint hbelow habove]
      exact h.elsewhere path hpath
  · rw [hpresses, hverdicts, hdb, lastAccepted_verdict hp]
    cases accepted with
    | false => exact h.last
    | true =>
      intro q hq
      obtain rfl := Option.some.inj hq
      obtain ⟨u, -, hissued⟩ := o.press_write hmem
      obtain rfl := Option.some.inj (hwrite.symm.trans hissued)
      refine ⟨_, hkey, ?_, ?_⟩
      · rw [if_pos rfl, PathTree.get_set_self]
        rfl
      · rw [if_pos rfl, PathTree.get_set_self]
        rfl

theorem Accounted.step (h : o.Accounted es w) (hr : app.run o.opened es = some w)
    (hund : Undisturbed o.i o.s w e) (hs : app.step w e = some w') :
    o.Accounted (es ++ [e]) w' := by
  cases hverdict : doneVerdict o.i o.s w e with
  | some accepted => exact h.verdict hr hund hverdict hs
  | none =>
    cases hpress : donePress o.i o.s w e with
    | some p => exact h.press hr hund hpress hs
    | none => exact h.other hr hund hpress hverdict hs

/-- The account is right at the end of every run that is not disturbed. -/
theorem run_accounted (hund : app.Always (Undisturbed o.i o.s) o.opened es)
    (hr : app.run o.opened es = some w) : o.Accounted es w := by
  -- from the end, since the presses and the decisions are collected in the order of the run
  refine app.run_induction
    (P := fun es w => app.Always (Undisturbed o.i o.s) o.opened es → o.Accounted es w)
    (fun _ => o.accounted_opened) ?_ hr hund
  intro es w e w' hr ih hs hund
  have hlast : app.Always (Undisturbed o.i o.s) w [e] := app.always_append hund hr
  exact (ih (app.always_prefix hund)).step hr hlast.1 hs

/-! ## One record -/

theorem child_memoryRef_inj {u v : Uid} {id id' : String}
    (h : (memoryRef u).childFromString id = (memoryRef v).childFromString id') :
    u = v ∧ pieces id = pieces id' := by
  simp only [Ref.childFromString, memoryRef_eq, List.cons_append, List.nil_append, List.cons.injEq,
    true_and] at h
  exact ⟨Uid.ext h.1, h.2⟩

/-- One place, one account. -/
theorem WritesOneRecord.sameUser (h : o.WritesOneRecord) : o.SameUser := by
  intro p hp q hq
  obtain ⟨u, hu, hwrite⟩ := o.press_write hp
  obtain ⟨v, hv, hwrite'⟩ := o.press_write hq
  have hkey := h.key p hp q hq
  rw [DonePress.key, DonePress.key, hwrite, hwrite'] at hkey
  rw [hu, hv, (child_memoryRef_inj (Option.some.inj hkey)).1]

/-- In add mode, one place is one ID, and one ID tells the draws. -/
theorem WritesOneRecord.sameDraws (h : o.WritesOneRecord) (hvc1 : o.editor.initator = "vc1") :
    o.SameDraws := by
  intro p hp q hq
  obtain ⟨u, -, hwrite⟩ := o.press_write hp
  obtain ⟨v, -, hwrite'⟩ := o.press_write hq
  have hkey := h.key p hp q hq
  rw [DonePress.key, DonePress.key, hwrite, hwrite'] at hkey
  obtain ⟨-, hpieces⟩ := child_memoryRef_inj (Option.some.inj hkey)
  -- an ID that was drawn is one piece of a path
  rw [recordID, recordID, if_pos hvc1, if_pos hvc1, pieces_eq_of_isKey (isKey_randomID p.draws),
    pieces_eq_of_isKey (isKey_randomID q.draws)] at hpieces
  exact randomID_injective (Subtype.ext (List.singleton_inj.mp hpieces))

/-- Presses by one account, in edit mode or with the same draws, write to one place. -/
theorem key_eq (huser : o.SameUser) (hmode : o.editor.initator = "vc2" ∨ o.SameDraws)
    {p q : DonePress} (hp : p ∈ o.presses) (hq : q ∈ o.presses) : p.key = q.key := by
  obtain ⟨u, hu, hwrite⟩ := o.press_write hp
  obtain ⟨v, hv, hwrite'⟩ := o.press_write hq
  have huv : u = v := by
    have hsame := huser p hp q hq
    rw [hu, hv] at hsame
    exact Option.some.inj hsame
  have hid : o.recordID p.draws = o.recordID q.draws := by
    rcases hmode with hvc2 | hdraws
    · have hne : o.editor.initator ≠ "vc1" := by
        rw [hvc2]
        decide
      rw [recordID, recordID, if_neg hne, if_neg hne]
    · rw [hdraws p hp q hq]
  rw [DonePress.key, DonePress.key, hwrite, hwrite']
  simp only [write, Option.map_some, huv, hid]

end EditorOpening

/-- **Which openings write one record.** All presses of Done of an opening write one
record exactly when the same account is signed in at all of them and the screen was
opened to edit, or to add and every press draws the same ID. -/
theorem editor_writes_one_record_iff (o : EditorOpening) :
    o.WritesOneRecord ↔ o.SameUser ∧ (o.editor.initator = "vc2" ∨ o.SameDraws) := by
  constructor
  · intro h
    refine ⟨h.sameUser, ?_⟩
    rcases o.initator_eq with hvc1 | hvc2
    · exact Or.inr (h.sameDraws hvc1)
    · exact Or.inl hvc2
  · rintro ⟨huser, hmode⟩
    refine ⟨fun p hp q hq => EditorOpening.key_eq huser hmode hp hq, ?_, ?_⟩
    · intro hund
      exact (EditorOpening.run_accounted hund o.hnow).elsewhere
    · intro hund
      exact (EditorOpening.run_accounted hund o.hnow).last

/-! ## `ann` presses Done twice -/

/-- What is seen of an opening: the identity given out, the screen, and who presses Done
with which draws. -/
structure OpeningSeen where
  identity : ℕ
  editor : Option (VcId × AddMemoryViewController × Option Uid)
  presses : List (Option Uid × List ℕ)
  deriving DecidableEq

/-- `ann` opens the screen that adds a memory, and `es` follows. -/
def annsPresses (es : List Event) : Option OpeningSeen :=
  (app.run (World.start ⟨[ann], none⟩) (alone annOpensEditor.dropLast)).bind fun w =>
    (app.step w (0, .press (.addMemoriesBtnPressed ⟨1, 2, 2019⟩))).bind fun opened =>
      (app.run opened (alone es)).map fun _ => {
        identity := (w.device 0).vcs.length
        editor := (opened.device 0).editorOnTop
        presses := (app.collect (donePress 0 2) opened (alone es)).map fun p =>
          (p.user, p.draws.values) }

theorem exists_annsOpening {es : List Event} {presses : List (Option Uid × List ℕ)}
    (h : annsPresses es = some ⟨2, some (2, annsEditor, some ann.uid), presses⟩) :
    ∃ o : EditorOpening, o.editor = annsEditor ∧
      o.presses.map (fun p => (p.user, p.draws.values)) = presses := by
  obtain ⟨w, hw, h⟩ := Option.bind_eq_some_iff.mp h
  obtain ⟨opened, hopened, h⟩ := Option.bind_eq_some_iff.mp h
  obtain ⟨now, hnow, h⟩ := Option.map_eq_some_iff.mp h
  obtain ⟨hlen, htop, hpresses⟩ := OpeningSeen.mk.inj h
  obtain ⟨hv, -⟩ := editorOnTop_eq_some htop
  exact ⟨{
    i := 0, before := w, reachable := ⟨_, _, init_start _, hw⟩
    s := 2, new := List.getElem?_eq_none hlen.le
    e := _, opened := opened, hopened := hopened
    editor := annsEditor, heditor := (visible_eq_some.mp hv).2
    es := alone es, now := now, hnow := hnow }, rfl, hpresses⟩

set_option maxRecDepth 10000 in
/-- Done, pressed again while the first write waits, draws another ID. -/
theorem editor_writes_two_records : ¬ ∀ o : EditorOpening, o.WritesOneRecord := by
  intro h
  have hseen : annsPresses [.press (.memoryDoneBtnPressed zeroDraws),
      .press (.memoryDoneBtnPressed oneDraws)] = some ⟨2, some (2, annsEditor, some ann.uid),
        [(some ann.uid, zeroDraws.values), (some ann.uid, oneDraws.values)]⟩ := by decide
  obtain ⟨o, heditor, hpresses⟩ := exists_annsOpening hseen
  obtain ⟨p, hp, hpdraws⟩ := List.mem_map.mp (hpresses ▸ List.mem_cons_self)
  obtain ⟨q, hq, hqdraws⟩ := List.mem_map.mp
    (hpresses ▸ List.mem_cons_of_mem _ (List.mem_singleton_self _))
  have hdraws : p.draws = q.draws := (h o).sameDraws (by rw [heditor]; rfl) p hp q hq
  have hvalues : zeroDraws.values = oneDraws.values :=
    (Prod.mk.inj hpdraws).2.symm.trans ((congrArg Draws.values hdraws).trans (Prod.mk.inj hqdraws).2)
  exact absurd hvalues (by decide)

set_option maxRecDepth 10000 in
/-- The write is rejected, and the second press makes the same draws. -/
theorem editor_writes_one_record_ann : ∃ o : EditorOpening, o.presses.length = 2 ∧
    o.WritesOneRecord := by
  have hseen : annsPresses [.press (.memoryDoneBtnPressed zeroDraws), .writeDecided 0 false,
      .press (.memoryDoneBtnPressed zeroDraws), .writeDecided 1 true] =
        some ⟨2, some (2, annsEditor, some ann.uid),
          [(some ann.uid, zeroDraws.values), (some ann.uid, zeroDraws.values)]⟩ := by decide
  obtain ⟨o, -, hpresses⟩ := exists_annsOpening hseen
  have hall : ∀ p ∈ o.presses, p.user = some ann.uid ∧ p.draws = zeroDraws := by
    intro p hp
    have hmem := List.mem_map_of_mem (f := fun p => (p.user, p.draws.values)) hp
    rw [hpresses] at hmem
    simp only [List.mem_cons, Prod.mk.injEq, List.not_mem_nil, or_false, or_self] at hmem
    exact ⟨hmem.1, Draws.ext hmem.2⟩
  refine ⟨o, ?_, (editor_writes_one_record_iff o).mpr ⟨?_, Or.inr ?_⟩⟩
  · simpa using congrArg List.length hpresses
  · intro p hp q hq
    rw [(hall p hp).1, (hall q hq).1]
  · intro p hp q hq
    rw [(hall p hp).2, (hall q hq).2]

end DailyDiary
