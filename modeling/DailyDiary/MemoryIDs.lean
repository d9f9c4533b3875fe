/-
The generator of memory IDs loses nothing of what it draws.

Each of the 28 draws is below the number of characters `random` counts, so every
index denotes a character; the characters of the alphabet are all different, so a
returned string tells its draws. `randomID` is `random` as a total function between
the two, and `random_bijective` says that it is a bijection, and that the presses of
Done in screens opened to add get the same ID from the same draws only.
-/
import Mathlib.Data.List.Nodup
import DailyDiary.MemorySelection

set_option autoImplicit false

namespace DailyDiary

open Device

theorem Draws.ext {draws draws' : Draws} (h : draws.values = draws'.values) : draws = draws' := by
  cases draws
  cases draws'
  congr

namespace AddMemoryViewController

/-- The strings of 28 characters over the alphabet. -/
def OverAlphabet (s : String) : Prop :=
  s.toList.length = 28 ∧ ∀ c ∈ s.toList, c ∈ alphabet

set_option maxRecDepth 4000 in
theorem nodup_alphabet : alphabet.Nodup := by decide

theorem overAlphabet_of_random {draws : Draws} {s : String} (h : random draws = .ok s) :
    OverAlphabet s := by
  obtain ⟨s', hs', hmap⟩ := random_eq_ok_of_draws draws
  obtain rfl := Except.ok.inj (h.symm.trans hs')
  constructor
  · have hlen := congrArg List.length hmap
    simpa [draws.length_eq] using hlen
  · intro c hc
    have hmem : some c ∈ draws.values.map fun r => alphabet[r]? :=
      hmap ▸ List.mem_map_of_mem hc
    obtain ⟨r, -, hr⟩ := List.mem_map.mp hmem
    exact List.mem_of_getElem? hr

theorem random_ne_error (draws : Draws) (f : Fault) : random draws ≠ .error f := by
  obtain ⟨s, hs, -⟩ := random_eq_ok_of_draws draws
  rw [hs]
  exact nofun

/-- `random`, which never stops the app, with what is known of its result. -/
def randomID (draws : Draws) : { s : String // OverAlphabet s } :=
  match h : random draws with
  | .ok s => ⟨s, overAlphabet_of_random h⟩
  | .error f => absurd h (random_ne_error draws f)

theorem random_eq_randomID (draws : Draws) : random draws = .ok (randomID draws).val := by
  unfold randomID
  split
  · next s h => exact h
  · next f h => exact absurd h (random_ne_error draws f)

/-- The characters of an ID are those of the alphabet at the draws. -/
theorem map_randomID (draws : Draws) :
    (randomID draws).val.toList.map some = draws.values.map fun r => alphabet[r]? := by
  obtain ⟨s, hs, hmap⟩ := random_eq_ok_of_draws draws
  obtain rfl := Except.ok.inj (hs.symm.trans (random_eq_randomID draws))
  exact hmap

/-- Indices into a list without repetition are told by what they denote. -/
theorem map_getElem?_inj {α : Type} {l : List α} (hl : l.Nodup) {rs rs' : List ℕ}
    (hrs : ∀ r ∈ rs, r < l.length)
    (h : (rs.map fun r => l[r]?) = rs'.map fun r => l[r]?) : rs = rs' := by
  induction rs generalizing rs' with
  | nil => exact (List.map_eq_nil_iff.mp h.symm).symm
  | cons r rs ih =>
    cases rs' with
    | nil => cases h
    | cons r' rs' =>
      obtain ⟨hhead, htail⟩ := List.cons.inj h
      obtain ⟨hr, hrest⟩ := List.forall_mem_cons.mp hrs
      rw [(List.getElem?_inj hr hl).mp hhead, ih hrest htail]

theorem randomID_injective : Function.Injective randomID := by
  intro draws draws' h
  have hmap : (draws.values.map fun r => alphabet[r]?) =
      draws'.values.map fun r => alphabet[r]? := by
    rw [← map_randomID, ← map_randomID, h]
  exact Draws.ext (map_getElem?_inj nodup_alphabet draws.below hmap)

/-- The draws for a string are the indices of its characters. -/
theorem randomID_surjective : Function.Surjective randomID := by
  rintro ⟨s, hlen, hmem⟩
  -- a character has one index, since the alphabet repeats none
  let draws : Draws := {
    values := s.toList.map fun c => alphabet.idxOf c
    length_eq := by rw [List.length_map, hlen]
    below := by
      intro r hr
      obtain ⟨c, hc, rfl⟩ := List.mem_map.mp hr
      exact List.idxOf_lt_length_of_mem (hmem c hc) }
  refine ⟨draws, Subtype.ext ?_⟩
  have hmap : (randomID draws).val.toList.map some = s.toList.map some := by
    rw [map_randomID, List.map_map]
    refine List.map_congr_left ?_
    intro c hc
    exact List.getElem?_idxOf (hmem c hc)
  exact String.toList_injective ((List.map_injective_iff.mpr (Option.some_injective Char)) hmap)

theorem randomID_getElem? (draws : Draws) (k : ℕ) :
    (randomID draws).val.toList[k]? = draws.values[k]?.bind fun r => alphabet[r]? := by
  have hk := congrArg (fun l => l[k]?) (map_randomID draws)
  simp only [List.getElem?_map] at hk
  cases hr : draws.values[k]? with
  | none =>
    rw [hr] at hk
    exact Option.map_eq_none_iff.mp hk
  | some r =>
    rw [hr] at hk
    obtain ⟨c, hc, hsome⟩ := Option.map_eq_some_iff.mp hk
    rw [hc]
    exact hsome

end AddMemoryViewController

open AddMemoryViewController

/-! ## The presses -/

/-- Done is pressed on device `i` on a screen opened to add, with these draws, and
the memory is written under this ID. -/
def AddsAs (w : World) (i : ℕ) (draws : Draws) (id : String) : Prop :=
  ∃ self c c' u w', (w.device i).visible = some (self, .addMemory c) ∧ c.initator = "vc1" ∧
    (w.device i).currentUser = some u ∧
    app.step w (i, .press (.memoryDoneBtnPressed draws)) = some w' ∧
    (w'.device i).vcs[self]? = some (.addMemory c') ∧ c'.memoryID = id ∧
    (w'.device i).writes = (w.device i).writes ++ [{
      ref := (memoryRef u).childFromString id
      value := c'.memory.toDictionary
      completion := .memorySaved self }]

/-- What Done assigns: the texts, and the ID where the screen was opened to add. -/
theorem readFields_eq (draws : Draws) (c : AddMemoryViewController) :
    c.readFields draws = .ok { c with
      memoryTitle := c.titleTextField
      memoryBody := c.memoryBodyTextField
      memoryID := if c.initator = "vc1" then (randomID draws).val else c.memoryID } := by
  by_cases hvc1 : c.initator = "vc1"
  · simp only [readFields, if_pos hvc1, random_eq_randomID, Result.ok_bind, Result.pure_eq_ok]
  · simp only [readFields, if_neg hvc1, Result.pure_eq_ok]

/-- What is drawn is one step of a path. -/
theorem isKey_randomID (draws : Draws) : IsKey (randomID draws).val := by
  obtain ⟨id, hid, hshape⟩ := random_eq_ok draws
  obtain rfl := Except.ok.inj (hid.symm.trans (random_eq_randomID draws))
  exact hshape.isKey

theorem AddsAs.eq_randomID {w : World} {i : ℕ} {draws : Draws} {id : String}
    (h : AddsAs w i draws id) : id = (randomID draws).val := by
  obtain ⟨self, c, c', u, w', hv, hvc1, hu, hs, hc', rfl, -⟩ := h
  have hread := readFields_eq draws c
  rw [if_pos hvc1] at hread
  obtain ⟨-, hvc, -⟩ := step_memoryDone_readFields hv hread hu
    (isKey_randomID draws).isValidPathString (app_step_eq_some.mp hs).1
  obtain rfl := ViewController.addMemory.inj (Option.some.inj (hc'.symm.trans hvc))
  rfl

/-- **The generator of memory IDs.** Every draw denotes a character of the alphabet,
and `random` returns the 28 characters that were drawn, in order; as a map from the
draws to the strings of 28 characters over the alphabet it is a bijection. So two
presses of Done in screens opened to add use the same ID exactly when all their
draws coincide. -/
theorem random_bijective :
    (∀ draws : Draws, (∀ r ∈ draws.values, ∃ c ∈ alphabet, characterAt r = .ok c) ∧
      random draws = .ok (randomID draws).val ∧ IsMemoryID (randomID draws).val ∧
      ∀ k : ℕ, (randomID draws).val.toList[k]? = draws.values[k]?.bind fun r => alphabet[r]?) ∧
    Function.Bijective randomID ∧
    ∀ (w₁ w₂ : World) (i₁ i₂ : ℕ) (draws₁ draws₂ : Draws) (id₁ id₂ : String),
      AddsAs w₁ i₁ draws₁ id₁ → AddsAs w₂ i₂ draws₂ id₂ →
      (id₁ = id₂ ↔ draws₁.values = draws₂.values) := by
  refine ⟨?_, ⟨randomID_injective, randomID_surjective⟩, ?_⟩
  · intro draws
    refine ⟨?_, random_eq_randomID draws, ?_, randomID_getElem? draws⟩
    · intro r hr
      have hc := List.getElem?_eq_getElem (draws.below r hr)
      exact ⟨_, List.mem_of_getElem? hc, characterAt_eq_ok hc⟩
    · obtain ⟨s, hs, hid⟩ := random_eq_ok draws
      obtain rfl := Except.ok.inj (hs.symm.trans (random_eq_randomID draws))
      exact hid
  · intro w₁ w₂ i₁ i₂ draws₁ draws₂ id₁ id₂ h₁ h₂
    rw [h₁.eq_randomID, h₂.eq_randomID]
    constructor
    · intro hid
      rw [randomID_injective (Subtype.ext hid)]
    · intro hvalues
      rw [Draws.ext hvalues]

/-- Draws for the ID of 28 times `b`. -/
def oneDraws : Draws where
  values := List.replicate 28 1
  length_eq := by simp
  below := by decide

/-- `ann` opens the screen that adds a memory. -/
def annOpensEditor : List Event :=
  [.typed (.logIn ann.email ann.password), .press .logInBtnPressed,
    .authCompleted 0 (.success ann.uid), .press (.addMemoriesBtnPressed ⟨1, 2, 2019⟩)]

/-- The editor on top of a device, and who is signed in. -/
def Device.editorOnTop (d : Device) : Option (VcId × AddMemoryViewController × Option Uid) :=
  d.visible.bind fun p =>
    match p.2 with
    | .addMemory c => some (p.1, c, d.currentUser)
    | _ => none

theorem editorOnTop_eq_some {d : Device} {self : VcId} {c : AddMemoryViewController}
    {user : Option Uid} (h : d.editorOnTop = some (self, c, user)) :
    d.visible = some (self, .addMemory c) ∧ d.currentUser = user := by
  obtain ⟨⟨self', v⟩, hv, h⟩ := Option.bind_eq_some_iff.mp h
  cases v with
  | addMemory c' =>
    simp only [Option.some.injEq, Prod.mk.injEq] at h
    obtain ⟨rfl, rfl, rfl⟩ := h
    exact ⟨hv, rfl⟩
  | _ => cases h

/-- The editor after `annOpensEditor`. -/
def annsEditor : AddMemoryViewController where
  date := ⟨1, 2, 2019⟩
  initator := "vc1"
  memoryDate := "01/02/2019"

/-- Done, pressed there, writes the memory under the ID of its draws. -/
theorem exists_addsAs (draws : Draws)
    (h : ((app.run (World.start ⟨[ann], none⟩) (alone annOpensEditor)).bind fun w =>
      (app.step w (0, .press (.memoryDoneBtnPressed draws))).map fun _ =>
        (w.device 0).editorOnTop) = some (some (2, annsEditor, some ann.uid))) :
    ∃ w, app.run (World.start ⟨[ann], none⟩) (alone annOpensEditor) = some w ∧
      AddsAs w 0 draws (randomID draws).val := by
  obtain ⟨w, hw, h⟩ := Option.bind_eq_some_iff.mp h
  obtain ⟨w', hs, htop⟩ := Option.map_eq_some_iff.mp h
  obtain ⟨hv, hu⟩ := editorOnTop_eq_some htop
  have hread : annsEditor.readFields draws =
      .ok { annsEditor with memoryID := (randomID draws).val } := by
    simp only [readFields, annsEditor, if_pos, random_eq_randomID, Result.ok_bind,
      Result.pure_eq_ok]
  obtain ⟨-, hc, hwrites⟩ := step_memoryDone_readFields hv hread hu
    (isKey_randomID draws).isValidPathString (app_step_eq_some.mp hs).1
  exact ⟨w, hw, 2, annsEditor, _, ann.uid, w', hv, rfl, hu, hs, hc, rfl, hwrites⟩

set_option maxRecDepth 10000 in
/-- `ann` presses Done with other draws, and gets another ID. -/
theorem random_bijective_ann :
    ∃ w₁ w₂, AddsAs w₁ 0 zeroDraws (randomID zeroDraws).val ∧
      AddsAs w₂ 0 oneDraws (randomID oneDraws).val ∧
      (randomID zeroDraws).val ≠ (randomID oneDraws).val := by
  obtain ⟨w₁, -, h₁⟩ := exists_addsAs zeroDraws (by decide)
  obtain ⟨w₂, -, h₂⟩ := exists_addsAs oneDraws (by decide)
  refine ⟨w₁, w₂, h₁, h₂, ?_⟩
  intro hid
  have hvalues := (random_bijective.2.2 w₁ w₂ 0 0 zeroDraws oneDraws _ _ h₁ h₂).mp hid
  exact absurd hvalues (by decide)

end DailyDiary
