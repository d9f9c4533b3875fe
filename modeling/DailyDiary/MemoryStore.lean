/-
The schema of the `memory` tree.

The writer of a record (`doneBtnPressed`) and its reader (the `.childAdded`
handler) share no type: the record travels as a dictionary and is force-cast
back, and its ID travels from a row of the list to the screen that shows it, to
the editor, and into the path of a write. `Device.Clean` is the invariant that
covers all these places at once; with `MemoryTree` of the database it is kept by
every step of every device, and `memory_schema` reads the promises off it.
-/
import DailyDiary.Effects

set_option autoImplicit false

namespace DailyDiary

open Device

/-! ## Records -/

/-- The node is what the app writes for a memory with this ID. -/
def IsRecord (id : String) (n : Json) : Prop :=
  IsMemoryID id ∧ ∃ m : Memory, m.memoryID = id ∧ m.toDictionary = some n

/-- The reader gets back what the writer wrote. -/
theorem ofSnapshot_toDictionary {m : Memory} {n : Json} (h : m.toDictionary = some n) :
    Memory.ofSnapshot n = .ok m := by
  obtain rfl := Option.some.inj h
  rfl

theorem IsRecord.ofSnapshot {id : String} {n : Json} (h : IsRecord id n) :
    ∃ m, Memory.ofSnapshot n = .ok m ∧ m.memoryID = id := by
  obtain ⟨-, m, hid, hm⟩ := h
  exact ⟨m, ofSnapshot_toDictionary hm, hid⟩

/-- The fields of a record are strings, and its ID is its key. -/
theorem IsRecord.fields {id : String} {n : Json} (h : IsRecord id n) :
    stringField "memoryID" (some n) = some id ∧
      ∀ field ∈ ["memoryID", "memoryTitle", "memoryBody", "memoryDate"],
        ∃ s, stringField field (some n) = some s := by
  obtain ⟨-, m, rfl, hm⟩ := h
  obtain rfl := Option.some.inj hm
  refine ⟨rfl, ?_⟩
  intro field hfield
  simp only [List.mem_cons, List.not_mem_nil, or_false] at hfield
  rcases hfield with rfl | rfl | rfl | rfl
  · exact ⟨m.memoryID, rfl⟩
  · exact ⟨m.memoryTitle, rfl⟩
  · exact ⟨m.memoryBody, rfl⟩
  · exact ⟨m.memoryDate, rfl⟩

/-! ## The tree -/

/-- Every child of every `memory/<uid>` is a record under its own ID. -/
def MemoryTree (t : Option Json) : Prop :=
  ∀ uid id n, PathTree.get ["memory", uid, id] t = some n → IsRecord id n

theorem memoryTree_of_empty {t : Option Json} (h : PathTree.get ["memory"] t = none) :
    MemoryTree t := by
  intro uid id n hn
  have hsplit : PathTree.get ["memory", uid, id] t =
      PathTree.get [uid, id] (PathTree.get ["memory"] t) :=
    PathTree.get_append ["memory"] [uid, id] t
  rw [hsplit, h, PathTree.get_none] at hn
  cases hn

/-- What the app writes: something below `user`, or at the place of one record
that record or nothing. -/
def Write.Clean (w : Write) : Prop :=
  w.ref.head? = some "user" ∨
    ∃ uid id, w.ref = ["memory", uid, id] ∧ IsMemoryID id ∧
      (w.value = none ∨ ∃ m : Memory, w.value = m.toDictionary ∧ m.memoryID = id)

theorem Write.Clean.same {w w' : Write} (h : w.Clean) (hs : w.Same w') : w'.Clean := by
  obtain ⟨href, hvalue, -⟩ := hs
  rw [Write.Clean, ← href, ← hvalue]
  exact h

/-- Writing a clean value at its reference keeps the tree of memories. The path ends at a
record of a user, or at the user's row outside the memories. -/
theorem MemoryTree.set {t : Option Json} (h : MemoryTree t) {w : Write} (hw : w.Clean) :
    MemoryTree (PathTree.set w.ref w.value t) := by
  intro uid id n hn
  rcases hw with hhead | ⟨uid', id', href, hid, hvalue⟩
  · -- a write below `user` and a record part at the root
    obtain ⟨rest, hrest⟩ := List.head?_eq_some_iff.mp hhead
    rw [hrest, PathTree.get_set_of_disjoint] at hn
    · exact h uid id n hn
    · intro hp
      simp at hp
    · intro hp
      simp at hp
  · by_cases heq : uid = uid' ∧ id = id'
    · obtain ⟨rfl, rfl⟩ := heq
      rw [href, PathTree.get_set_self] at hn
      rcases hvalue with hnone | ⟨m, hm, hmid⟩
      · rw [hnone] at hn
        cases hn
      · exact ⟨hid, m, hmid, hm.symm.trans hn⟩
    · rw [href, PathTree.get_set_of_disjoint] at hn
      · exact h uid id n hn
      · intro hp
        simp only [List.cons_prefix_cons, List.nil_prefix, and_true, true_and] at hp
        exact heq ⟨hp.1.symm, hp.2.symm⟩
      · intro hp
        simp only [List.cons_prefix_cons, List.nil_prefix, and_true, true_and] at hp
        exact heq hp

theorem MemoryTree.foldl {ws : List Write} (hws : ∀ w ∈ ws, w.Clean) {t : Option Json}
    (h : MemoryTree t) : MemoryTree (ws.foldl (fun t w => PathTree.set w.ref w.value t) t) := by
  induction ws generalizing t with
  | nil => exact h
  | cons w ws ih =>
    rw [List.foldl_cons]
    exact ih (fun w' hw' => hws w' (List.mem_cons_of_mem w hw')) (h.set (hws w List.mem_cons_self))

/-! ## Controllers and devices -/

/-- The IDs a controller holds are IDs, and its observer waits to deliver records
only. The editor opened to add has no ID before its first Done. -/
def ViewController.Clean : ViewController → Prop
  | .myMemories c => (∀ m ∈ c.myMemoriesArray, IsMemoryID m.memoryID) ∧
    ∀ o, c.observer = some o → ∀ p ∈ o.queue, IsRecord p.1 p.2
  | .showMemory c => IsMemoryID c.memoryID
  | .addMemory c => (c.initator = "vc1" ∧ c.memoryID = "") ∨ IsMemoryID c.memoryID
  | _ => True

structure Device.Clean (d : Device) : Prop where
  cache : MemoryTree d.cache
  writes : ∀ w ∈ d.writes, w.Clean
  vcs : ∀ (i : ℕ) (v : ViewController), d.vcs[i]? = some v → v.Clean

namespace Device

variable {d d' : Device} {e : Event}

theorem clean_launch (user : Option Uid) : (launch user).Clean where
  cache := memoryTree_of_empty (PathTree.get_none _)
  writes := by simp [launch]
  vcs := by
    intro i v hv
    obtain rfl := List.mem_singleton.mp (List.mem_of_getElem? hv)
    trivial

theorem Clean.view (h : d.Clean) : MemoryTree d.view :=
  h.cache.foldl h.writes

theorem Clean.visible (h : d.Clean) {i : VcId} {v : ViewController}
    (hv : d.visible = some (i, v)) : v.Clean :=
  h.vcs i v (visible_eq_some.mp hv).2

end Device

/-- An observer adds to its queue children of the tree only. -/
theorem ViewController.Clean.refresh {v : ViewController} (h : v.Clean) {view : Option Json}
    (hview : MemoryTree view) : (v.refresh view).Clean := by
  cases v with
  | myMemories c =>
    refine ⟨h.1, ?_⟩
    intro o ho p hp
    obtain ⟨o₀, ho₀, rfl⟩ := Option.map_eq_some_iff.mp ho
    rcases List.mem_append.mp hp with hp | hp
    · exact h.2 o₀ ho₀ p hp
    · obtain ⟨-, hchild⟩ := PathTree.mem_added.mp hp
      refine hview o₀.uid.val p.1 p.2 ?_
      rw [memoryRef_eq] at hchild
      exact hchild
  | _ => exact h

namespace Device

variable {d d' : Device} {e : Event}

theorem Clean.typed {t : Typing} {v v' : ViewController} (h : v.Clean)
    (ht : t.apply v = some v') : v'.Clean := by
  unfold Typing.apply at ht
  split at ht <;> try cases ht
  all_goals first
    | trivial
    | exact h
    | (split at ht <;> cases ht; trivial)

/-- An ID is kept, or comes from `random`. -/
theorem Clean.assigns (h : d.Clean) {i : VcId} {v v' : ViewController} (hv : d.vcs[i]? = some v)
    (ha : d.Assigns e i v v') : v'.Clean := by
  have hclean := h.vcs i v hv
  cases ha with
  | typed _ ht => exact Clean.typed hclean ht
  | @memoryDone draws i c c' hvis hc =>
    obtain ⟨id, hread, hvc1, hvc2⟩ := c.readFields_eq_ok draws
    obtain rfl := Except.ok.inj (hread.symm.trans hc)
    by_cases hinit : c.initator = "vc1"
    · exact Or.inr (hvc1 hinit)
    · rcases hclean with ⟨hvc, _⟩ | hid
      · exact absurd hvc hinit
      · exact Or.inr (hvc2 hinit ▸ hid)
  | @childAdded i j c o key snapshot m ho hq hm =>
    have hrecord := hclean.2 o ho _ (List.mem_of_getElem? hq)
    refine ⟨?_, ?_⟩
    · intro m' hm'
      rcases List.mem_append.mp hm' with hm' | hm'
      · exact hclean.1 m' hm'
      · obtain rfl := List.mem_singleton.mp hm'
        obtain ⟨m₀, hm₀, hid⟩ := hrecord.ofSnapshot
        obtain rfl := Except.ok.inj (hm.symm.trans hm₀)
        exact hid ▸ hrecord.1
    · intro o' ho' p hp
      obtain rfl := Option.some.inj ho'
      exact hclean.2 o ho p (List.mem_of_mem_eraseIdx hp)
  | appeared => exact hclean
  | _ => trivial

theorem Clean.opens (h : d.Clean) {v : ViewController} (hv : d.Opens e v) : v.Clean := by
  cases hv with
  | initial hinit =>
    cases v with
    | myMemories c => exact hinit.elim
    | addMemory c => exact hinit.elim
    | showMemory c => exact hinit.elim
    | _ => trivial
  | memories u =>
    refine ⟨nofun, ?_⟩
    intro o ho p hp
    obtain rfl := Option.some.inj ho
    cases hp
  | addMemory hvis => exact Or.inl ⟨rfl, rfl⟩
  | showMemory hvis hm => exact (h.visible hvis).1 _ (List.mem_of_getElem? hm)
  | editMemory hvis => exact Or.inr (h.visible hvis)

theorem child_memoryRef (u : Uid) {id : String} (h : IsMemoryID id) :
    (memoryRef u).childFromString id = ["memory", u.val, id] := by
  rw [memoryRef_eq, Ref.childFromString, pieces_eq_of_isKey h.isKey]
  rfl

/-- Every write that a clean device issues is clean. A deletion is clean by itself, a saved
memory has its four fields from the editor or its loaded record. -/
theorem Clean.issues (h : d.Clean) {w : Write} (hw : d.Issues e w) : w.Clean := by
  cases hw with
  | userRow hcall hc => exact Or.inl (by simp)
  | @memory draws self c c' u hvis hc hu _ =>
    have hclean := h.visible hvis
    obtain ⟨id, hread, hvc1, hvc2⟩ := c.readFields_eq_ok draws
    obtain rfl := Except.ok.inj (hread.symm.trans hc)
    have hid : IsMemoryID id := by
      by_cases hinit : c.initator = "vc1"
      · exact hvc1 hinit
      · rcases hclean with ⟨hvc, _⟩ | hid
        · exact absurd hvc hinit
        · exact hvc2 hinit ▸ hid
    exact Or.inr ⟨u.val, id, child_memoryRef u hid, hid, Or.inr ⟨_, rfl, rfl⟩⟩
  | @deletion text throws self c u hact ht hu _ =>
    have hid : IsMemoryID c.memoryID := h.vcs self _ (top_eq_some.mp ht).2
    exact Or.inr ⟨u.val, c.memoryID, child_memoryRef u hid, hid, Or.inl rfl⟩
  | @userName text throws self c u hact ht hu =>
    refine Or.inl ?_
    simp only [userFieldRef_eq u (show IsKey "userName" by decide)]
    rfl
  | @password self c u hvis hshown hc hu =>
    refine Or.inl ?_
    simp only [userFieldRef_eq u (show IsKey "password" by decide)]
    rfl

/-- A step keeps the store a tree of memories and the device clean, together: the writes it
issues come from clean screens, and the snapshots it takes from such a store. -/
theorem Clean.step {srv srv' : Server} (hdb : MemoryTree srv.db) (h : d.Clean)
    (hs : DailyDiary.step srv d e = some (srv', d')) : MemoryTree srv'.db ∧ d'.Clean := by
  have heffect := step_effect hs
  have hcache : MemoryTree d'.cache := by
    rcases step_cache hs with hc | hc
    · exact hc ▸ h.cache
    · exact hc ▸ hdb
  have hwrites : ∀ w ∈ d'.writes, w.Clean := by
    intro w hw
    rcases heffect.writes.mem hw with ⟨w₀, hw₀, hsame⟩ | hissue
    · exact (h.writes w₀ hw₀).same hsame
    · exact h.issues hissue
  have hview : MemoryTree d'.view := hcache.foldl hwrites
  refine ⟨?_, hcache, hwrites, ?_⟩
  · rcases step_db hs with hsame | ⟨i, w, -, hw, -, hset⟩
    · exact hsame ▸ hdb
    · rw [hset]
      exact hdb.set (h.writes w (List.mem_of_getElem? hw))
  · intro i v' hv'
    rcases heffect.vcs i v' hv' with ⟨v, hv, v₁, hassign, hbecomes⟩ | ⟨-, v, hopens, rfl⟩
    · have hv₁ : v₁.Clean := by
        rcases hassign with rfl | hassign
        · exact h.vcs i v₁ hv
        · exact h.assigns hv hassign
      rcases hbecomes with ⟨rfl, -⟩ | rfl
      · exact hv₁
      · exact hv₁.refresh hview
    · exact (h.opens hopens).refresh hview

end Device

/-! ## Every reachable world -/

/-- Nothing has stopped at a snapshot. -/
def Device.ReadsSnapshots (d : Device) : Prop :=
  ∀ f, d.fault = some f → f ≠ .forcedCast ∧ f ≠ .missingKey

/-- The invariant of one device against a clean database. -/
structure Device.KeepsSchema (d : Device) : Prop where
  inv : d.Inv
  clean : d.Clean
  reads : d.ReadsSnapshots

theorem Device.keepsSchema_launch (user : Option Uid) : (launch user).KeepsSchema :=
  ⟨inv_launch user, clean_launch user, nofun⟩

theorem Device.KeepsSchema.step {srv srv' : Server} {d d' : Device} {e : Event}
    (hdb : MemoryTree srv.db) (h : d.KeepsSchema)
    (hs : DailyDiary.step srv d e = some (srv', d')) : MemoryTree srv'.db ∧ d'.KeepsSchema := by
  have hrefines := step_refines h.inv.wf h.inv.nav hs
  obtain ⟨hdb', hclean⟩ := h.clean.step hdb hs
  refine ⟨hdb', h.inv.step hs, hclean, ?_⟩
  intro f hf
  cases hrefines.fault f hf with
  | index => exact ⟨nofun, nofun⟩
  | path => exact ⟨nofun, nofun⟩
  | privileged hu hp => exact ⟨nofun, nofun⟩
  | acknowledgement hu hack => exact ⟨nofun, nofun⟩
  | snapshot hc ho hq hm =>
    -- what waits in an observer's queue can be read
    obtain ⟨m, hok, -⟩ := ((h.clean.vcs _ _ hc).2 _ ho _ (List.mem_of_getElem? hq)).ofSnapshot
    exact absurd (hm.symm.trans hok) nofun

/-- A clean database and devices that keep it so. -/
def KeepsSchema (w : World) : Prop :=
  MemoryTree w.server.db ∧ ∀ i, (w.device i).KeepsSchema

theorem keepsSchema_init {w : World} (hw : app.init w) (hdb : MemoryTree w.server.db) :
    KeepsSchema w :=
  ⟨hdb, of_init hw keepsSchema_launch⟩

theorem KeepsSchema.step {w w' : World} {e : ℕ × Event} (h : KeepsSchema w)
    (hs : app.step w e = some w') : KeepsSchema w' :=
  Transition.interleave_invariant (P := fun srv : Server => MemoryTree srv.db)
    (Q := Device.KeepsSchema) (fun _ _ _ _ _ hdb hd hs => hd.step hdb hs) h.1 h.2 hs

theorem KeepsSchema.run {w w' : World} {es : List (ℕ × Event)} (h : KeepsSchema w)
    (hr : app.run w es = some w') : KeepsSchema w' :=
  app.run_invariant' (fun _ _ _ h hs => h.step hs) h hr

/-- The schema of the memory store, in one state of the world. -/
structure MemorySchema (w : World) : Prop where
  /-- a child of `memory/<uid>` is a record of four strings under its own ID -/
  stored : ∀ u id n, PathTree.child id (PathTree.get (memoryRef u) w.server.db) = some n →
    IsMemoryID id ∧ stringField "memoryID" (some n) = some id ∧
      ∀ field ∈ ["memoryID", "memoryTitle", "memoryBody", "memoryDate"],
        ∃ s, stringField field (some n) = some s
  /-- the rows of every list -/
  rows : ∀ (i j : ℕ) c, (w.device i).vcs[j]? = some (.myMemories c) →
    ∀ m ∈ c.myMemoriesArray, IsMemoryID m.memoryID
  /-- every screen that shows a memory -/
  shown : ∀ (i j : ℕ) c, (w.device i).vcs[j]? = some (.showMemory c) → IsMemoryID c.memoryID
  /-- every editor that has an ID; the one opened to add gets it at its first Done -/
  edited : ∀ (i j : ℕ) c, (w.device i).vcs[j]? = some (.addMemory c) →
    (c.initator = "vc1" ∧ c.memoryID = "") ∨ IsMemoryID c.memoryID
  /-- a write of a memory is one of the record at the place its ID names -/
  written : ∀ i, ∀ wr ∈ (w.device i).writes, wr.ref.head? = some "memory" →
    ∃ uid id, wr.ref = ["memory", uid, id] ∧ IsMemoryID id ∧
      (wr.value = none ∨ ∃ m : Memory, wr.value = m.toDictionary ∧ m.memoryID = id)
  /-- a snapshot that waits for its `.childAdded` handler can be read -/
  delivered : ∀ (i j : ℕ) c o, (w.device i).vcs[j]? = some (.myMemories c) → c.observer = some o →
    ∀ p ∈ o.queue, ∃ m, Memory.ofSnapshot p.2 = .ok m
  /-- and no handler has stopped at one -/
  read : ∀ i, (w.device i).fault ≠ some .forcedCast ∧ (w.device i).fault ≠ some .missingKey

/-- The invariant over caches, pending writes and screens contains the schema of the store
itself, which is what a reader of the database relies on. -/
theorem KeepsSchema.schema {w : World} (h : KeepsSchema w) : MemorySchema w where
  stored := by
    intro u id n hn
    have hrecord : IsRecord id n := by
      refine h.1 u.val id n ?_
      rw [memoryRef_eq] at hn
      exact hn
    exact ⟨hrecord.1, hrecord.fields⟩
  rows := fun i j c hc => ((h.2 i).clean.vcs j _ hc).1
  shown := fun i j c hc => (h.2 i).clean.vcs j _ hc
  edited := fun i j c hc => (h.2 i).clean.vcs j _ hc
  written := by
    intro i wr hwr hhead
    rcases (h.2 i).clean.writes wr hwr with huser | hmemory
    · rw [huser] at hhead
      simp at hhead
    · exact hmemory
  delivered := by
    intro i j c o hc ho p hp
    obtain ⟨m, hm, -⟩ := (((h.2 i).clean.vcs j _ hc).2 o ho p hp).ofSnapshot
    exact ⟨m, hm⟩
  read := by
    intro i
    constructor
    · intro hf
      exact ((h.2 i).reads _ hf).1 rfl
    · intro hf
      exact ((h.2 i).reads _ hf).2 rfl

/-- **The memory store keeps its schema** in every run that starts with an empty
`memory` tree. -/
theorem memory_schema {w w' : World} {es : List (ℕ × Event)} (hw : app.init w)
    (hempty : PathTree.get ["memory"] w.server.db = none) (hr : app.run w es = some w') :
    MemorySchema w' :=
  ((keepsSchema_init hw (memoryTree_of_empty hempty)).run hr).schema

/-- Draws for the ID of 28 times `a`. -/
def zeroDraws : Draws where
  values := List.replicate 28 0
  length_eq := by simp
  below := by decide

/-- `ann` adds a memory, opens it from the new list, and edits it. -/
def annEditsMemory : List Event :=
  [.typed (.logIn ann.email ann.password), .press .logInBtnPressed,
    .authCompleted 0 (.success ann.uid), .press (.addMemoriesBtnPressed ⟨1, 2, 2019⟩),
    .typed (.addMemory "title" "body"), .press (.memoryDoneBtnPressed zeroDraws),
    .writeDecided 0 true, .writeCompleted 0, .alertOk "" false, .childAdded 3 0,
    .press (.didSelectRowAt 0), .press (.editBtnPressed ⟨3, 2, 2019⟩),
    .typed (.addMemory "new title" "new body"), .press (.memoryDoneBtnPressed zeroDraws),
    .writeDecided 0 true]

set_option maxRecDepth 10000 in
theorem memory_schema_ann :
    ∃ w', app.run (World.start ⟨[ann], none⟩) (alone annEditsMemory) = some w' ∧
      MemorySchema w' := by
  have hruns : (app.run (World.start ⟨[ann], none⟩) (alone annEditsMemory)).isSome := by decide
  obtain ⟨w', hr⟩ := Option.isSome_iff_exists.mp hruns
  exact ⟨w', hr, memory_schema (init_start _) (by decide) hr⟩

end DailyDiary
