/-
Where the memories come from that are stored, that wait, and that are on a screen.

A memory is copied many times on its way: from the fields of an editor into a write,
into the server's tree, into the trees of other devices, into the queues of their
observers, into rows, and from a row through the screen that shows it into another
editor. `ShowsOnly` says of all these places that what they hold satisfies one
predicate, and its step lemma that Done is the only way in. `memories_authored` takes
the predicate to be that somebody has typed the memory.
-/
import DailyDiary.LastWriteWins

set_option autoImplicit false

namespace DailyDiary

open Device

/-! ## Done -/

/-- With the event Done is pressed in the editor `c`, while `u` is signed in, and saves
the memory `m`. -/
structure Device.Saves (d : Device) (e : Event) (draws : Draws) (c : AddMemoryViewController)
    (u : Uid) (m : Memory) : Prop where
  press : e = .press (.memoryDoneBtnPressed draws)
  visible : ∃ self, d.visible = some (self, .addMemory c)
  user : d.currentUser = some u
  title : m.memoryTitle = c.titleTextField
  body : m.memoryBody = c.memoryBodyTextField
  date : m.memoryDate = c.memoryDate
  drawn : c.initator = "vc1" → AddMemoryViewController.random draws = .ok m.memoryID
  kept : c.initator ≠ "vc1" → m.memoryID = c.memoryID

theorem Device.saves_of_readFields {d : Device} {draws : Draws} {self : VcId}
    {c c' : AddMemoryViewController} {u : Uid} (hv : d.visible = some (self, .addMemory c))
    (hc : c.readFields draws = .ok c') (hu : d.currentUser = some u) :
    d.Saves (.press (.memoryDoneBtnPressed draws)) draws c u c'.memory := by
  unfold AddMemoryViewController.readFields at hc
  dsimp only at hc
  split at hc
  · next hvc1 =>
    obtain ⟨id, hid, hc⟩ := Result.bind_eq_ok.mp hc
    obtain rfl := Except.ok.inj hc
    exact ⟨rfl, ⟨self, hv⟩, hu, rfl, rfl, rfl, fun _ => hid, fun hvc2 => absurd hvc1 hvc2⟩
  · next hvc2 =>
    obtain rfl := Except.ok.inj hc
    exact ⟨rfl, ⟨self, hv⟩, hu, rfl, rfl, rfl, fun hvc1 => absurd hvc1 hvc2, fun _ => rfl⟩

/-! ## The places of a memory -/

variable {A A' : Uid → Memory → Prop}

/-- The records of the tree are memories that satisfy `A` with their account. -/
def StoresOnly (A : Uid → Memory → Prop) (t : Option Json) : Prop :=
  ∀ u id n, PathTree.get (memoryRef u ++ [id]) t = some n →
    ∃ m, A u m ∧ m.memoryID = id ∧ m.toDictionary = some n

/-- So is the record that the write stores, if it stores one. -/
def Write.StoresOnly (A : Uid → Memory → Prop) (wr : Write) : Prop :=
  ∀ u id n, wr.ref = memoryRef u ++ [id] → wr.value = some n →
    ∃ m, A u m ∧ m.memoryID = id ∧ m.toDictionary = some n

/-- The rows of a list, and the snapshots that wait for it, are memories of the account
it observes; a screen shows a memory of some account, and the ID in an editor opened to
edit is of one. -/
def ViewController.ShowsOnly (A : Uid → Memory → Prop) : ViewController → Prop
  | .myMemories c => (∀ m ∈ c.myMemoriesArray, ∃ o, c.observer = some o ∧ A o.uid m) ∧
      ∀ o, c.observer = some o → ∀ p ∈ o.queue, ∃ m, A o.uid m ∧ m.toDictionary = some p.2
  | .showMemory c => ∃ u m, A u m ∧ m.memoryID = c.memoryID ∧ m.memoryTitle = c.memoryTitle ∧
      m.memoryBody = c.memoryBody
  | .addMemory c => c.initator ≠ "vc1" → ∃ u m, A u m ∧ m.memoryID = c.memoryID
  | _ => True

/-- Everything a device holds satisfies `A` with its account: the server's tree as it was
last pushed, the writes that wait, and what the controllers show, also those that are
covered or dismissed. -/
structure Device.ShowsOnly (A : Uid → Memory → Prop) (d : Device) : Prop where
  cache : StoresOnly A d.cache
  writes : ∀ wr ∈ d.writes, wr.StoresOnly A
  vcs : ∀ (i : ℕ) (v : ViewController), d.vcs[i]? = some v → v.ShowsOnly A

theorem StoresOnly.mono {t : Option Json} (h : StoresOnly A t) (hA : ∀ u m, A u m → A' u m) :
    StoresOnly A' t := by
  intro u id n hn
  obtain ⟨m, hm, hrest⟩ := h u id n hn
  exact ⟨m, hA u m hm, hrest⟩

theorem Write.StoresOnly.mono {wr : Write} (h : wr.StoresOnly A) (hA : ∀ u m, A u m → A' u m) :
    wr.StoresOnly A' := by
  intro u id n href hvalue
  obtain ⟨m, hm, hrest⟩ := h u id n href hvalue
  exact ⟨m, hA u m hm, hrest⟩

theorem Write.StoresOnly.same {wr wr' : Write} (h : wr.StoresOnly A) (hs : wr.Same wr') :
    wr'.StoresOnly A := by
  obtain ⟨href, hvalue, -⟩ := hs
  intro u id n
  rw [← href, ← hvalue]
  exact h u id n

/-- What a screen shows is authored by more writes as the run goes on. The relation only
grows, so what was shown stays justified. -/
theorem ViewController.ShowsOnly.mono {v : ViewController} (h : v.ShowsOnly A)
    (hA : ∀ u m, A u m → A' u m) : v.ShowsOnly A' := by
  cases v with
  | myMemories c =>
    refine ⟨?_, ?_⟩
    · intro m hm
      obtain ⟨o, ho, hmA⟩ := h.1 m hm
      exact ⟨o, ho, hA _ _ hmA⟩
    · intro o ho p hp
      obtain ⟨m, hmA, hn⟩ := h.2 o ho p hp
      exact ⟨m, hA _ _ hmA, hn⟩
  | showMemory c =>
    obtain ⟨u, m, hmA, hrest⟩ := h
    exact ⟨u, m, hA _ _ hmA, hrest⟩
  | addMemory c =>
    intro hvc2
    obtain ⟨u, m, hmA, hid⟩ := h hvc2
    exact ⟨u, m, hA _ _ hmA, hid⟩
  | _ => trivial

theorem StoresOnly.set {t : Option Json} (h : StoresOnly A t) {wr : Write} (hclean : wr.Clean)
    (hwr : wr.StoresOnly A) : StoresOnly A (PathTree.set wr.ref wr.value t) := by
  intro u id n hn
  by_cases href : wr.ref = memoryRef u ++ [id]
  · rw [← href, PathTree.get_set_self] at hn
    exact hwr u id n href hn
  · rw [hclean.get_record href] at hn
    exact h u id n hn

theorem StoresOnly.foldl {ws : List Write} (hclean : ∀ wr ∈ ws, wr.Clean)
    (hws : ∀ wr ∈ ws, wr.StoresOnly A) {t : Option Json} (h : StoresOnly A t) :
    StoresOnly A (ws.foldl (fun t wr => PathTree.set wr.ref wr.value t) t) := by
  induction ws generalizing t with
  | nil => exact h
  | cons wr ws ih =>
    rw [List.foldl_cons]
    refine ih (fun w hw => hclean w (List.mem_cons_of_mem wr hw))
      (fun w hw => hws w (List.mem_cons_of_mem wr hw)) ?_
    exact h.set (hclean wr List.mem_cons_self) (hws wr List.mem_cons_self)

/-- An observer is told of records of the tree of its account. -/
theorem ViewController.ShowsOnly.refresh {v : ViewController} (h : v.ShowsOnly A)
    {view : Option Json} (hview : DailyDiary.StoresOnly A view) :
    (v.refresh view).ShowsOnly A := by
  cases v with
  | myMemories c =>
    refine ⟨?_, ?_⟩
    · intro m hm
      obtain ⟨o, ho, hmA⟩ := h.1 m hm
      exact ⟨o.refresh view, Option.map_eq_some_iff.mpr ⟨o, ho, rfl⟩, hmA⟩
    · intro o ho p hp
      obtain ⟨o₀, ho₀, rfl⟩ := Option.map_eq_some_iff.mp ho
      rcases List.mem_append.mp hp with hp | hp
      · exact h.2 o₀ ho₀ p hp
      · obtain ⟨-, hchild⟩ := PathTree.mem_added.mp hp
        obtain ⟨m, hmA, -, hn⟩ := hview o₀.uid p.1 p.2 (by rw [PathTree.get_append]; exact hchild)
        exact ⟨m, hmA, hn⟩
  | _ => exact h

/-! ## One step -/

namespace Device

variable {srv srv' : Server} {d d' : Device} {e : Event}

theorem showsOnly_launch (user : Option Uid) : (launch user).ShowsOnly A where
  cache := by
    intro u id n hn
    rw [launch, PathTree.get_none] at hn
    cases hn
  writes := by simp [launch]
  vcs := by
    intro i v hv
    obtain rfl := List.mem_singleton.mp (List.mem_of_getElem? hv)
    trivial

theorem ShowsOnly.visible (h : d.ShowsOnly A) {i : VcId} {v : ViewController}
    (hv : d.visible = some (i, v)) : v.ShowsOnly A :=
  h.vcs i v (visible_eq_some.mp hv).2

theorem ShowsOnly.typed {t : Typing} {v v' : ViewController} (h : v.ShowsOnly A)
    (ht : t.apply v = some v') : v'.ShowsOnly A := by
  unfold Typing.apply at ht
  split at ht <;> try cases ht
  all_goals first
    | trivial
    | exact h
    | (split at ht <;> cases ht; trivial)

/-- A row is what its snapshot has been read as. -/
theorem ShowsOnly.assigns (h : d.ShowsOnly A) {i : VcId} {v v' : ViewController}
    (hv : d.vcs[i]? = some v) (ha : d.Assigns e i v v') : v'.ShowsOnly A := by
  have hshows := h.vcs i v hv
  cases ha with
  | typed _ ht => exact ShowsOnly.typed hshows ht
  | @memoryDone draws i c c' hvis hc =>
    obtain ⟨id, hread, -, hkept⟩ := c.readFields_eq_ok draws
    obtain rfl := Except.ok.inj (hread.symm.trans hc)
    intro hvc2
    obtain ⟨u, m, hmA, hid⟩ := hshows hvc2
    exact ⟨u, m, hmA, hid.trans (hkept hvc2).symm⟩
  | @childAdded i j c o key snapshot m ho hq hm =>
    obtain ⟨m', hmA, hn⟩ := hshows.2 o ho _ (List.mem_of_getElem? hq)
    obtain rfl := Except.ok.inj ((ofSnapshot_toDictionary hn).symm.trans hm)
    refine ⟨?_, ?_⟩
    · intro m hmem
      rcases List.mem_append.mp hmem with hmem | hmem
      · obtain ⟨o', ho', hA⟩ := hshows.1 m hmem
        obtain rfl := Option.some.inj (ho.symm.trans ho')
        exact ⟨_, rfl, hA⟩
      · obtain rfl := List.mem_singleton.mp hmem
        exact ⟨_, rfl, hmA⟩
    · intro o' ho' p hp
      obtain rfl := Option.some.inj ho'
      exact hshows.2 o ho p (List.mem_of_mem_eraseIdx hp)
  | appeared => exact hshows
  | _ => trivial

/-- A screen opened from one that shows only authored memories does so too: a show screen
takes its labels from a row, the editor from a show screen. -/
theorem ShowsOnly.opens (h : d.ShowsOnly A) {v : ViewController} (hv : d.Opens e v) :
    v.ShowsOnly A := by
  cases hv with
  | initial hinit =>
    cases v with
    | myMemories c => exact hinit.elim
    | addMemory c => exact hinit.elim
    | showMemory c => exact hinit.elim
    | _ => trivial
  | memories u =>
    refine ⟨nofun, ?_⟩
    intro o ho p hp
    obtain rfl := Option.some.inj ho
    cases hp
  | addMemory hvis => exact fun hvc2 => absurd rfl hvc2
  | showMemory hvis hm =>
    obtain ⟨o, -, hmA⟩ := (h.visible hvis).1 _ (List.mem_of_getElem? hm)
    exact ⟨o.uid, _, hmA, rfl, rfl, rfl⟩
  | editMemory hvis =>
    obtain ⟨u, m, hmA, hid, -⟩ := h.visible hvis
    exact fun _ => ⟨u, m, hmA, hid⟩

theorem ref_ne_of_head {u : Uid} {id : String} {ref : Ref} (h : ref.head? = some "user") :
    ref ≠ memoryRef u ++ [id] := by
  rintro rfl
  simp at h

/-- The ID that Done saves under. -/
theorem isMemoryID_of_readFields (hclean : d.Clean) {draws : Draws} {self : VcId}
    {c c' : AddMemoryViewController} (hvis : d.visible = some (self, .addMemory c))
    (hc : c.readFields draws = .ok c') : IsMemoryID c'.memoryID := by
  obtain ⟨id, hread, hvc1, hvc2⟩ := c.readFields_eq_ok draws
  obtain rfl := Except.ok.inj (hread.symm.trans hc)
  by_cases hinit : c.initator = "vc1"
  · exact hvc1 hinit
  · rcases hclean.visible hvis with ⟨hvc, _⟩ | hid
    · exact absurd hvc hinit
    · exact hvc2 hinit ▸ hid

/-- Done is the only way into the tree. -/
theorem ShowsOnly.issues (h : d.ShowsOnly A) (hclean : d.Clean) {wr : Write}
    (hissue : d.Issues e wr) (hsaves : ∀ draws c u m, d.Saves e draws c u m →
      (c.initator ≠ "vc1" → ∃ v m', A v m' ∧ m'.memoryID = m.memoryID) → A' u m) :
    wr.StoresOnly A' := by
  intro u id n href hvalue
  cases hissue with
  | userRow hcall hc => exact absurd href (ref_ne_of_head (by simp))
  | @memory draws self c c' v hvis hc hu _ =>
    have hdone := saves_of_readFields hvis hc hu
    -- the place names the account and the ID, since an ID is one piece of a path
    have hplace : (memoryRef v).childFromString c'.memoryID = memoryRef u ++ [id] := href
    rw [child_memoryRef v (isMemoryID_of_readFields hclean hvis hc), memoryRef_eq] at hplace
    simp only [List.cons_append, List.nil_append, List.cons.injEq, and_true, true_and] at hplace
    obtain rfl := Uid.ext hplace.1
    refine ⟨c'.memory, hsaves draws c v _ hdone ?_, hplace.2, hvalue⟩
    intro hvc2
    obtain ⟨v', m', hm', hid''⟩ := h.visible hvis hvc2
    exact ⟨v', m', hm', hid''.trans (hdone.kept hvc2).symm⟩
  | deletion ha ht hu hid => cases hvalue
  | userName ha ht hu =>
    refine absurd href (ref_ne_of_head ?_)
    rw [userFieldRef_eq _ (by decide)]
    rfl
  | password hvis hshown hc hu =>
    refine absurd href (ref_ne_of_head ?_)
    rw [userFieldRef_eq _ (by decide)]
    rfl

/-- **What a step adds.** Where everything shown and stored satisfies `A`, it satisfies
`A'` after the step, if `A'` admits what Done saves with it. -/
theorem ShowsOnly.step (h : d.ShowsOnly A) (hdb : StoresOnly A srv.db) (hclean : d.Clean)
    (hclean' : d'.Clean) (hA : ∀ u m, A u m → A' u m)
    (hsaves : ∀ draws c u m, d.Saves e draws c u m →
      (c.initator ≠ "vc1" → ∃ v m', A v m' ∧ m'.memoryID = m.memoryID) → A' u m)
    (hs : DailyDiary.step srv d e = some (srv', d')) :
    StoresOnly A' srv'.db ∧ d'.ShowsOnly A' := by
  have heffect := step_effect hs
  have hcache : StoresOnly A' d'.cache := by
    rcases step_cache hs with hc | hc
    · exact hc ▸ h.cache.mono hA
    · exact hc ▸ hdb.mono hA
  have hwrites : ∀ wr ∈ d'.writes, wr.StoresOnly A' := by
    intro wr hwr
    rcases heffect.writes.mem hwr with ⟨wr₀, hwr₀, hsame⟩ | hissue
    · exact ((h.writes wr₀ hwr₀).same hsame).mono hA
    · exact h.issues hclean hissue hsaves
  have hview : StoresOnly A' d'.view := hcache.foldl hclean'.writes hwrites
  refine ⟨?_, hcache, hwrites, ?_⟩
  · rcases step_db hs with hsame | ⟨i, wr, -, hwr, -, hset⟩
    · exact hsame ▸ hdb.mono hA
    · have hmem := List.mem_of_getElem? hwr
      rw [hset]
      exact (hdb.set (hclean.writes wr hmem) (h.writes wr hmem)).mono hA
  · intro i v' hv'
    rcases heffect.vcs i v' hv' with ⟨v, hv, v₁, hassign, hbecomes⟩ | ⟨-, v, hopens, rfl⟩
    · have hv₁ : v₁.ShowsOnly A' := by
        rcases hassign with rfl | hassign
        · exact (h.vcs i v₁ hv).mono hA
        · exact (h.assigns hv hassign).mono hA
      rcases hbecomes with ⟨rfl, -⟩ | rfl
      · exact hv₁
      · exact hv₁.refresh hview
    · exact ((h.opens hopens).mono hA).refresh hview

end Device

/-! ## Runs -/

/-- In the run `es` from `w₀` Done is pressed, in an editor that was opened as `opened`
says, and saves the memory `m` while `u` is signed in. -/
def SavedIn (w₀ : World) (es : List (ℕ × Event)) (opened : String → Prop) (u : Uid) (m : Memory) :
    Prop :=
  ∃ before e after w draws c, es = before ++ e :: after ∧ app.run w₀ before = some w ∧
    (w.device e.1).Saves e.2 draws c u m ∧ opened c.initator

/-- The memory is one of the account at the start, or is saved in the run while the
account is signed in. -/
def Authored (w₀ : World) (es : List (ℕ × Event)) (u : Uid) (m : Memory) : Prop :=
  PathTree.get (memoryRef u ++ [m.memoryID]) w₀.server.db = m.toDictionary ∨
    SavedIn w₀ es (fun _ => True) u m

/-- The ID is in use at the start, or is drawn in the run by a Done that adds a memory. -/
def Drawn (w₀ : World) (es : List (ℕ × Event)) (id : String) : Prop :=
  (∃ u, PathTree.get (memoryRef u ++ [id]) w₀.server.db ≠ none) ∨
    ∃ u m, SavedIn w₀ es (· = "vc1") u m ∧ m.memoryID = id

section Runs

variable {w₀ w w' : World} {es : List (ℕ × Event)} {e : ℕ × Event} {u : Uid} {m : Memory}

theorem SavedIn.concat {opened : String → Prop} (h : SavedIn w₀ es opened u m)
    (e : ℕ × Event) : SavedIn w₀ (es ++ [e]) opened u m := by
  obtain ⟨before, e', after, w, draws, c, rfl, hr, hsaves⟩ := h
  exact ⟨before, e', after ++ [e], w, draws, c, by simp, hr, hsaves⟩

theorem savedIn_of_saves {opened : String → Prop} (hr : app.run w₀ es = some w) {draws : Draws}
    {c : AddMemoryViewController} (h : (w.device e.1).Saves e.2 draws c u m)
    (hc : opened c.initator) : SavedIn w₀ (es ++ [e]) opened u m :=
  ⟨es, e, [], w, draws, c, rfl, hr, h, hc⟩

/-- What is known of every memory: somebody has typed it, and its ID was drawn. -/
def Known (w₀ : World) (es : List (ℕ × Event)) (u : Uid) (m : Memory) : Prop :=
  Authored w₀ es u m ∧ Drawn w₀ es m.memoryID

theorem Known.concat (h : Known w₀ es u m) (e : ℕ × Event) : Known w₀ (es ++ [e]) u m := by
  obtain ⟨hauthored, hdrawn⟩ := h
  constructor
  · exact hauthored.imp_right fun hsaved => hsaved.concat e
  · refine hdrawn.imp_right ?_
    rintro ⟨v, m', hsaved, hid⟩
    exact ⟨v, m', hsaved.concat e, hid⟩

/-- One more Done: an editor opened to edit has its ID from a memory that is known. -/
theorem known_of_saves (hr : app.run w₀ es = some w) {draws : Draws}
    {c : AddMemoryViewController} (h : (w.device e.1).Saves e.2 draws c u m)
    (hkept : c.initator ≠ "vc1" → ∃ v m', Known w₀ es v m' ∧ m'.memoryID = m.memoryID) :
    Known w₀ (es ++ [e]) u m := by
  refine ⟨Or.inr (savedIn_of_saves hr h trivial), ?_⟩
  by_cases hvc1 : c.initator = "vc1"
  · exact Or.inr ⟨u, m, savedIn_of_saves hr h hvc1, rfl⟩
  · obtain ⟨v, m', hknown, hid⟩ := hkept hvc1
    exact hid ▸ (hknown.concat e).2

/-- Everything that is stored, waits or is shown in the world satisfies `A`. -/
def World.ShowsOnly (A : Uid → Memory → Prop) (w : World) : Prop :=
  StoresOnly A w.server.db ∧ ∀ i, (w.device i).ShowsOnly A

theorem showsOnly_init (hw : app.init w₀) (htree : MemoryTree w₀.server.db) :
    w₀.ShowsOnly (Known w₀ []) := by
  refine ⟨?_, of_init hw showsOnly_launch⟩
  intro u id n hn
  obtain ⟨-, m, rfl, hm⟩ := htree u.val id n (by rw [memoryRef_eq] at hn; exact hn)
  refine ⟨m, ⟨Or.inl (hn.trans hm.symm), Or.inl ⟨u, ?_⟩⟩, rfl, hm⟩
  rw [hn]
  exact Option.some_ne_none n

theorem World.ShowsOnly.step (h : w.ShowsOnly (Known w₀ es)) (hschema : KeepsSchema w)
    (hr : app.run w₀ es = some w) (hs : app.step w e = some w') :
    w'.ShowsOnly (Known w₀ (es ++ [e])) := by
  obtain ⟨i, e⟩ := e
  obtain ⟨hstep, hne⟩ := app_step_eq_some.mp hs
  have hmono : ∀ u m, Known w₀ es u m → Known w₀ (es ++ [(i, e)]) u m :=
    fun u m hknown => hknown.concat _
  obtain ⟨hdb, hdevice⟩ := (h.2 i).step h.1 (hschema.2 i).clean ((hschema.step hs).2 i).clean hmono
    (fun draws c u m hsaves hkept => known_of_saves (e := (i, e)) hr hsaves hkept) hstep
  refine ⟨hdb, ?_⟩
  intro j
  by_cases hj : j = i
  · exact hj ▸ hdevice
  · rw [hne j hj]
    exact ⟨(h.2 j).cache.mono hmono, fun wr hwr => ((h.2 j).writes wr hwr).mono hmono,
      fun k v hv => ((h.2 j).vcs k v hv).mono hmono⟩

theorem run_showsOnly (hw : app.init w₀) (htree : MemoryTree w₀.server.db)
    (hr : app.run w₀ es = some w) : KeepsSchema w ∧ w.ShowsOnly (Known w₀ es) := by
  refine app.run_induction (P := fun es w => KeepsSchema w ∧ w.ShowsOnly (Known w₀ es)) ?_ ?_ hr
  · exact ⟨keepsSchema_init hw htree, showsOnly_init hw htree⟩
  · rintro es w e w' hr ⟨hschema, hshows⟩ hs
    exact ⟨hschema.step hs, hshows.step hschema hr hs⟩

end Runs

/-- Where the memories of the world `w` come from, which the run `es` from `w₀` has led to. -/
structure MemoryOrigins (w₀ : World) (es : List (ℕ × Event)) (w : World) : Prop where
  /-- a record of an account has been typed while the account was signed in -/
  stored : ∀ u id n, PathTree.child id (PathTree.get (memoryRef u) w.server.db) = some n →
    ∃ m, m.memoryID = id ∧ m.toDictionary = some n ∧ Authored w₀ es u m ∧ Drawn w₀ es id
  /-- so has every record in the tree that a device sees -/
  seen : ∀ i u id n, PathTree.child id (PathTree.get (memoryRef u) (w.device i).view) = some n →
    ∃ m, m.memoryID = id ∧ m.toDictionary = some n ∧ Authored w₀ es u m ∧ Drawn w₀ es id
  /-- and every row, while the account was signed in that the list observes -/
  rows : ∀ (i l : ℕ) c, (w.device i).vcs[l]? = some (.myMemories c) →
    ∀ m ∈ c.myMemoriesArray, ∃ o, c.observer = some o ∧ Authored w₀ es o.uid m ∧
      Drawn w₀ es m.memoryID
  /-- a screen shows the ID and the texts of one memory that has been typed -/
  shown : ∀ (i s : ℕ) c, (w.device i).vcs[s]? = some (.showMemory c) →
    ∃ u m, Authored w₀ es u m ∧ Drawn w₀ es m.memoryID ∧ m.memoryID = c.memoryID ∧
      m.memoryTitle = c.memoryTitle ∧ m.memoryBody = c.memoryBody
  /-- an editor opened to edit saves under an ID that has been drawn -/
  edited : ∀ (i s : ℕ) c, (w.device i).vcs[s]? = some (.addMemory c) → c.initator ≠ "vc1" →
    Drawn w₀ es c.memoryID

theorem StoresOnly.origin {w₀ : World} {es : List (ℕ × Event)} {t : Option Json}
    (h : StoresOnly (Known w₀ es) t) {u : Uid} {id : String} {n : Json}
    (hn : PathTree.child id (PathTree.get (memoryRef u) t) = some n) :
    ∃ m, m.memoryID = id ∧ m.toDictionary = some n ∧ Authored w₀ es u m ∧ Drawn w₀ es id := by
  obtain ⟨m, hknown, rfl, hm⟩ := h u id n (by rw [PathTree.get_append]; exact hn)
  exact ⟨m, rfl, hm, hknown⟩

/-- **No memory comes out of nowhere.** In every run that starts with a clean database,
every record that is stored, that some device sees, or that is shown, as a row of a list
or on a screen of its own, was there at the start or is exactly what the editor held at
some press of Done in the run, made on a device on which that account was signed in then;
and its ID was there at the start or has been drawn by a Done that adds. -/
theorem memories_authored {w₀ w : World} {es : List (ℕ × Event)} (hw : app.init w₀)
    (htree : MemoryTree w₀.server.db) (hr : app.run w₀ es = some w) : MemoryOrigins w₀ es w := by
  obtain ⟨hschema, hdb, hdevices⟩ := run_showsOnly hw htree hr
  constructor
  · exact fun u id n hn => hdb.origin hn
  · intro i u id n hn
    have hview : StoresOnly (Known w₀ es) (w.device i).view :=
      (hdevices i).cache.foldl (hschema.2 i).clean.writes (hdevices i).writes
    exact hview.origin hn
  · intro i l c hc m hm
    obtain ⟨o, ho, hknown⟩ := ((hdevices i).vcs l _ hc).1 m hm
    exact ⟨o, ho, hknown⟩
  · intro i s c hc
    obtain ⟨u, m, hknown, hrest⟩ := (hdevices i).vcs s _ hc
    exact ⟨u, m, hknown.1, hknown.2, hrest⟩
  · intro i s c hc hvc2
    obtain ⟨u, m, hknown, hid⟩ := (hdevices i).vcs s _ hc hvc2
    exact hid ▸ hknown.2

set_option maxRecDepth 10000 in
/-- The row in the list of `ann` is what she has typed. -/
theorem memories_authored_ann :
    ∃ (w : World) (l : VcId) (c : MyMemoriesViewController) (m : Memory),
      app.run (World.start ⟨[ann], none⟩) (alone annAddsMemory) = some w ∧
      (w.device 0).vcs[l]? = some (.myMemories c) ∧ m ∈ c.myMemoriesArray ∧
      Authored (World.start ⟨[ann], none⟩) (alone annAddsMemory) ann.uid m := by
  have h : (app.run (World.start ⟨[ann], none⟩) (alone annAddsMemory)).map
      (fun w => (w.device 0).listOnTop) = some (some (3, [annsMemory], some ann.uid)) := by decide
  obtain ⟨w, hw, hlist⟩ := Option.map_eq_some_iff.mp h
  obtain ⟨c, hv, hrows, hu⟩ := listOnTop_eq_some hlist
  have hc := (visible_eq_some.mp hv).2
  have hm : annsMemory ∈ c.myMemoriesArray := by
    rw [hrows]
    exact List.mem_singleton_self _
  have horigins := memories_authored (init_start _) (memoryTree_of_empty (by decide)) hw
  obtain ⟨o, ho, hauthored, -⟩ := horigins.rows 0 3 c hc _ hm
  have huid : o.uid = ann.uid := by
    rw [ho] at hu
    exact Option.some.inj hu
  exact ⟨w, 3, c, annsMemory, hw, hc, hm, huid ▸ hauthored⟩

end DailyDiary
