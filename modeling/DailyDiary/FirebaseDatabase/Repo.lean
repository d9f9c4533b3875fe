/-
`FRepo` and `FSyncTree`, as far as the client's own writes go: `setValue` and `removeValue`
give a write the next identifier and record it, the server's answer to one takes it out.

What is pending is what has been issued and not been answered, in the order it was issued,
and the assertions of the write tree never fire (`pending_of_run`). When the answers come
in order the merge of the pending writes is the right one in every run
(`eventCache_of_run`): what is shown is the server's node with the unanswered writes made
in turn. What a transaction reads is merged anew each time, and is right in any order
(`latestState_of_run`).

The merges of `updateChildValues` and what transactions write themselves, which may be hidden,
are left out here as in `WriteTree`.
-/
import DailyDiary.FirebaseDatabase.WriteTree
import DailyDiary.Transition
import Mathlib.Algebra.Order.Ring.Int

set_option autoImplicit false

namespace FirebaseDatabase

variable {κ α : Type} [LinearOrder κ]

/-- What happens to the client's writes. -/
inductive RepoEvent (κ α : Type) [LinearOrder κ] where
  /-- `set:withNode:withCallback:` -/
  | set (path : List κ) (node : Node κ α)
  /-- `ackWrite:rerunTransactionsAtPath:status:` with a status of the server, be it that the write is
  accepted or refused. The client ignores `kFErrorWriteCanceled`, which it gives itself to writes
  it has removed already. -/
  | ackWrite (writeId : ℤ)

/-- `FRepo`, with the write tree of its server sync tree. -/
structure Repo (κ α : Type) [LinearOrder κ] where
  writeIdCounter : ℤ
  pendingWriteTree : WriteTree κ α

namespace Repo

def init : Repo κ α where
  writeIdCounter := 0
  pendingWriteTree := WriteTree.init

/-- `set:withNode:withCallback:` -/
def set (repo : Repo κ α) (path : List κ) (node : Node κ α) : Option (Repo κ α) :=
  let writeId := repo.writeIdCounter
  (repo.pendingWriteTree.addOverwriteAtPath path node writeId true).map fun tree =>
    { writeIdCounter := writeId + 1, pendingWriteTree := tree }

/-- `ackUserWriteWithWriteId:revert:persist:clock:`; a write that is taken back is removed as one
that was accepted is. -/
def ackWrite (repo : Repo κ α) (writeId : ℤ) : Option (Repo κ α) :=
  (repo.pendingWriteTree.removeWriteId writeId).map fun r => { repo with pendingWriteTree := r.2 }

/-- `latestStateAtPath:excludeWriteIds:`, from the server's node that the sync tree finds. -/
def latestStateAtPath (repo : Repo κ α) (path : List κ) (serverCache : Option (Node κ α))
    (writeIdsToExclude : List ℤ) : Node κ α :=
  (repo.pendingWriteTree.calculateCompleteEventCacheExcluding path serverCache writeIdsToExclude
    true).getD Node.empty

def step (repo : Repo κ α) : RepoEvent κ α → Option (Repo κ α)
  | .set path node => repo.set path node
  | .ackWrite writeId => repo.ackWrite writeId

end Repo

/-- The client's writes from its start on. -/
def repo : Transition.System (Repo κ α) (RepoEvent κ α) where
  init r := r = Repo.init
  step := Repo.step

namespace Repo

variable {r r' : Repo κ α} {es : List (RepoEvent κ α)}

/-! ## What is pending -/

/-- The writes of a run, numbered from `n`. -/
def issuedFrom : ℤ → List (RepoEvent κ α) → List (WriteRecord κ α)
  | _, [] => []
  | n, .set path node :: es => ⟨n, path, node, true⟩ :: issuedFrom (n + 1) es
  | n, .ackWrite _ :: es => issuedFrom n es

/-- The identifiers of the answered writes. -/
def answered (es : List (RepoEvent κ α)) : List ℤ :=
  es.filterMap fun
    | .set _ _ => none
    | .ackWrite writeId => some writeId

/-- The writes that have been issued and not been answered, in the order they were issued. -/
def unanswered (es : List (RepoEvent κ α)) : List (WriteRecord κ α) :=
  (issuedFrom 0 es).filter fun w => !(answered es).contains w.writeId

theorem issuedFrom_append (n : ℤ) (es fs : List (RepoEvent κ α)) :
    issuedFrom n (es ++ fs) =
      issuedFrom n es ++ issuedFrom (n + (issuedFrom n es).length) fs := by
  induction es generalizing n with
  | nil => simp [issuedFrom]
  | cons e es ih =>
    cases e with
    | set path node =>
      have hn : n + 1 + ((issuedFrom (n + 1) es).length : ℤ) =
          n + ((issuedFrom (n + 1) es).length + 1 : ℕ) := by
        push_cast
        omega
      rw [List.cons_append, issuedFrom, issuedFrom, ih, List.cons_append, List.length_cons, hn]
    | ackWrite writeId => exact ih n

theorem answered_append (es fs : List (RepoEvent κ α)) :
    answered (es ++ fs) = answered es ++ answered fs :=
  List.filterMap_append

theorem issuedFrom_id {n : ℤ} {w : WriteRecord κ α} (h : w ∈ issuedFrom n es) :
    n ≤ w.writeId ∧ w.writeId < n + (issuedFrom n es).length := by
  induction es generalizing n with
  | nil => cases h
  | cons e es ih =>
    cases e with
    | set path node =>
      rw [issuedFrom, List.length_cons]
      push_cast
      rcases List.mem_cons.mp h with rfl | h
      · dsimp only
        omega
      · have hrest := ih h
        omega
    | ackWrite writeId => exact ih h

theorem issuedFrom_pairwise (n : ℤ) (es : List (RepoEvent κ α)) :
    (issuedFrom n es).Pairwise fun w w' => w.writeId < w'.writeId := by
  induction es generalizing n with
  | nil => exact List.Pairwise.nil
  | cons e es ih =>
    cases e with
    | set path node =>
      refine List.pairwise_cons.mpr ⟨?_, ih (n + 1)⟩
      intro w hw
      have hid := issuedFrom_id hw
      dsimp only
      omega
    | ackWrite writeId => exact ih n

/-- The pending writes after a run, and how they are numbered. -/
structure Ordered (es : List (RepoEvent κ α)) (r : Repo κ α) : Prop where
  counter : r.writeIdCounter = (issuedFrom 0 es).length
  last : r.pendingWriteTree.lastWriteId < r.writeIdCounter
  /-- what is pending has been issued and not been answered -/
  allWrites_eq : r.pendingWriteTree.allWrites = unanswered es
  answered_lt : ∀ i ∈ answered es, i < r.writeIdCounter

theorem ordered_init : Ordered ([] : List (RepoEvent κ α)) Repo.init where
  counter := rfl
  last := Int.negSucc_lt_zero 0
  allWrites_eq := rfl
  answered_lt _ hi := absurd hi List.not_mem_nil

/-- What is pending, from what was pending: the answered write is none of it. -/
theorem unanswered_ackWrite (es : List (RepoEvent κ α)) (writeId : ℤ) :
    unanswered (es ++ [.ackWrite writeId]) =
      (unanswered es).filter fun w => w.writeId ≠ writeId := by
  have hissued : issuedFrom 0 (es ++ [.ackWrite writeId]) = issuedFrom 0 es := by
    rw [issuedFrom_append]
    exact List.append_nil _
  have hanswered : answered (es ++ [.ackWrite writeId]) = answered es ++ [writeId] :=
    answered_append es _
  rw [unanswered, unanswered, hissued, hanswered, List.filter_filter]
  congr 1
  funext w
  simp [Bool.and_comm]

theorem unanswered_set {path : List κ} {node : Node κ α}
    (h : ((issuedFrom 0 es).length : ℤ) ∉ answered es) :
    unanswered (es ++ [.set path node]) =
      unanswered es ++ [⟨(issuedFrom 0 es).length, path, node, true⟩] := by
  have hanswered : answered (es ++ [.set path node]) = answered es := by
    rw [answered_append]
    exact List.append_nil _
  rw [unanswered, unanswered, hanswered, issuedFrom_append, List.filter_append, zero_add]
  simp [issuedFrom, h]

/-- A list of writes with one of them taken out. -/
theorem filter_ne_of_pairwise {before after : List (WriteRecord κ α)} {w : WriteRecord κ α}
    (h : (before ++ w :: after).Pairwise fun w w' => w.writeId < w'.writeId) :
    (before ++ w :: after).filter (fun c => c.writeId ≠ w.writeId) = before ++ after := by
  obtain ⟨-, hafter, hbefore⟩ := List.pairwise_append.mp h
  have hpos : ∀ c ∈ before ++ after, decide (c.writeId ≠ w.writeId) = true := by
    intro c hc
    rw [decide_eq_true_eq]
    rcases List.mem_append.mp hc with hc | hc
    · exact (hbefore c hc w List.mem_cons_self).ne
    · exact ((List.pairwise_cons.mp hafter).1 c hc).ne'
  have hall := List.filter_eq_self.mpr hpos
  rw [List.filter_append] at hall
  rw [List.filter_append, List.filter_cons_of_neg (by simp), hall]

/-- The older ones. -/
theorem filter_lt_of_pairwise {before after : List (WriteRecord κ α)} {w : WriteRecord κ α}
    (h : (before ++ w :: after).Pairwise fun w w' => w.writeId < w'.writeId) :
    (before ++ w :: after).filter (fun c => c.writeId < w.writeId) = before := by
  obtain ⟨-, hafter, hbefore⟩ := List.pairwise_append.mp h
  have hall : before.filter (fun c => c.writeId < w.writeId) = before :=
    List.filter_eq_self.mpr fun c hc => decide_eq_true (hbefore c hc w List.mem_cons_self)
  have hnone : (w :: after).filter (fun c => c.writeId < w.writeId) = [] := by
    rw [List.filter_eq_nil_iff]
    intro c hc
    rcases List.mem_cons.mp hc with rfl | hc
    · simp
    · simpa using ((List.pairwise_cons.mp hafter).1 c hc).le
  rw [List.filter_append, hall, hnone, List.append_nil]

theorem Ordered.pairwise (h : Ordered es r) :
    r.pendingWriteTree.allWrites.Pairwise fun w w' => w.writeId < w'.writeId := by
  rw [h.allWrites_eq]
  exact (issuedFrom_pairwise 0 es).filter _

theorem Ordered.id_lt (h : Ordered es r) :
    ∀ w ∈ r.pendingWriteTree.allWrites, w.writeId < r.writeIdCounter := by
  intro w hw
  rw [h.allWrites_eq] at hw
  have hid := issuedFrom_id (List.mem_of_mem_filter hw)
  rw [h.counter]
  omega

/-- The write tree never objects to a new write. -/
theorem Ordered.set_eq (h : Ordered es r) (path : List κ) (node : Node κ α) :
    r.set path node = some
      { writeIdCounter := r.writeIdCounter + 1
        pendingWriteTree :=
          { visibleWrites := r.pendingWriteTree.visibleWrites.addWrite node path
            allWrites := r.pendingWriteTree.allWrites ++ [⟨r.writeIdCounter, path, node, true⟩]
            lastWriteId := r.writeIdCounter } } := by
  rw [Repo.set, WriteTree.addOverwriteAtPath, if_pos h.last]
  rfl

/-- A write joins the pending ones at the end, under the counter as its identifier. All
identifiers given before are smaller. -/
theorem Ordered.set (h : Ordered es r) {path : List κ} {node : Node κ α}
    (hset : r.set path node = some r') : Ordered (es ++ [.set path node]) r' := by
  rw [h.set_eq] at hset
  obtain rfl := Option.some.inj hset
  have hnew : ((issuedFrom 0 es).length : ℤ) ∉ answered es := by
    intro hmem
    exact absurd (h.answered_lt _ hmem) (by rw [h.counter]; exact lt_irrefl _)
  constructor
  · rw [issuedFrom_append, List.length_append, h.counter]
    rfl
  · exact lt_add_one _
  · rw [unanswered_set hnew, ← h.allWrites_eq, ← h.counter]
  · intro i hi
    rw [answered_append] at hi
    rcases List.mem_append.mp hi with hi | hi
    · exact (h.answered_lt i hi).trans (lt_add_one _)
    · cases hi

/-- An answer keeps the write tree in step with the history: it takes away the write it
names and leaves the others in the order they were issued. -/
theorem Ordered.ackWrite (h : Ordered es r) {writeId : ℤ} (hack : r.ackWrite writeId = some r') :
    Ordered (es ++ [.ackWrite writeId]) r' := by
  obtain ⟨⟨b, tree⟩, hremove, rfl⟩ := Option.map_eq_some_iff.mp hack
  obtain ⟨before, w, after, hremoval⟩ := WriteTree.removeWriteId_eq_some hremove
  obtain ⟨hall, rfl, hall'⟩ := hremoval.allWrites
  have hlt : ∀ c ∈ tree.allWrites, c.writeId < r.writeIdCounter := by
    intro c hc
    refine h.id_lt c ?_
    rw [hall]
    rw [hall'] at hc
    exact List.mem_of_mem_filter (filter_ne_of_pairwise (hall ▸ h.pairwise) ▸ hc)
  constructor
  · rw [issuedFrom_append, List.length_append, h.counter]
    rfl
  · exact hremoval.lastWriteId_lt (by rw [h.counter]; exact Int.natCast_nonneg _) h.last hlt
  · rw [unanswered_ackWrite, ← h.allWrites_eq, hall, filter_ne_of_pairwise (hall ▸ h.pairwise)]
    exact hall'
  · intro i hi
    rw [answered_append] at hi
    rcases List.mem_append.mp hi with hi | hi
    · exact h.answered_lt i hi
    · obtain rfl := List.mem_singleton.mp hi
      exact h.id_lt w (by rw [hall]; simp)

/-- Nor to the answer to a pending one, which leaves the others. -/
theorem Ordered.exists_ackWrite (h : Ordered es r) {before after : List (WriteRecord κ α)}
    {w : WriteRecord κ α} (hall : r.pendingWriteTree.allWrites = before ++ w :: after) :
    ∃ r', r.ackWrite w.writeId = some r' ∧ r'.pendingWriteTree.allWrites = before ++ after := by
  have hmem : w ∈ r.pendingWriteTree.allWrites := by
    rw [hall]
    simp
  obtain ⟨t, ht⟩ := WriteTree.exists_removeWriteId hmem
  have hack : r.ackWrite w.writeId = some { r with pendingWriteTree := t.2 } := by
    rw [Repo.ackWrite, ht]
    rfl
  refine ⟨_, hack, ?_⟩
  rw [(h.ackWrite hack).allWrites_eq, unanswered_ackWrite, ← h.allWrites_eq, hall,
    filter_ne_of_pairwise (hall ▸ h.pairwise)]

/-- **No write is lost and none is kept.** After any run the pending writes are those that have
been issued and not been answered, in the order they were issued. -/
theorem ordered_of_run (hr : repo.run Repo.init es = some r) : Ordered es r := by
  refine repo.run_induction (P := Ordered) ordered_init ?_ hr
  intro es r e r' _ ih hs
  cases e with
  | set path node => exact ih.set hs
  | ackWrite writeId => exact ih.ackWrite hs

/-- The answered write is not below an older one that is pending. -/
def NotBelow (r : Repo κ α) (writeId : ℤ) : Prop :=
  ∀ before w after, r.pendingWriteTree.allWrites = before ++ w :: after → w.writeId = writeId →
    ∀ c ∈ before, ¬ (c.path <+: w.path ∧ c.path ≠ w.path)

/-- What an event may be, when answers satisfy `P`. -/
def Answers (P : Repo κ α → ℤ → Prop) (r : Repo κ α) : RepoEvent κ α → Prop
  | .set _ _ => True
  | .ackWrite writeId => P r writeId

theorem layered_step (h : r.pendingWriteTree.Layered) {e : RepoEvent κ α}
    (he : Answers NotBelow r e) (hs : repo.step r e = some r') : r'.pendingWriteTree.Layered := by
  cases e with
  | set path node =>
    obtain ⟨tree, hadd, rfl⟩ := Option.map_eq_some_iff.mp hs
    exact h.addOverwriteAtPath hadd
  | ackWrite writeId =>
    obtain ⟨⟨b, tree⟩, hremove, rfl⟩ := Option.map_eq_some_iff.mp hs
    obtain ⟨before, w, after, hremoval⟩ := WriteTree.removeWriteId_eq_some hremove
    obtain ⟨hall, hid, -⟩ := hremoval.allWrites
    exact h.removal hremoval (he before w after hall hid)

theorem layered_of_run (hr : repo.run Repo.init es = some r)
    (hes : repo.Always (Answers NotBelow) Repo.init es) : r.pendingWriteTree.Layered :=
  repo.run_invariant (P := fun r => r.pendingWriteTree.Layered)
    (fun _ _ _ h he hs => layered_step h he hs) WriteTree.layered_init hes hr

/-- Identifiers decide which writes are older, so a pending write splits the others in one way. -/
theorem Ordered.split_unique (h : Ordered es r) {before before' after after' : List (WriteRecord κ α)}
    {w w' : WriteRecord κ α} (hall : r.pendingWriteTree.allWrites = before ++ w :: after)
    (hall' : r.pendingWriteTree.allWrites = before' ++ w' :: after')
    (hid : w'.writeId = w.writeId) : before = before' ∧ w = w' := by
  have hpairwise := h.pairwise
  have holder := filter_lt_of_pairwise (hall ▸ hpairwise)
  have holder' := filter_lt_of_pairwise (hall' ▸ hpairwise)
  rw [hid, ← hall', hall, holder] at holder'
  obtain rfl := holder'
  exact ⟨rfl, (List.cons.inj (List.append_cancel_left (hall.symm.trans hall'))).1⟩

/-- The older writes of a pending one; the first has none. -/
theorem Ordered.notBelow (h : Ordered es r) {before after : List (WriteRecord κ α)}
    {w : WriteRecord κ α} (hall : r.pendingWriteTree.allWrites = before ++ w :: after)
    (hbefore : ∀ c ∈ before, ¬ (c.path <+: w.path ∧ c.path ≠ w.path)) : NotBelow r w.writeId := by
  intro before' w' after' hall' hid c hc
  obtain ⟨rfl, rfl⟩ := h.split_unique hall hall' hid
  exact hbefore c hc

/-- **What a client shows.** In every run in which no write is answered while an older one above
it is pending, the event cache at a path is what the unanswered writes make of the server's
node, one after the other in the order they were issued. -/
theorem eventCache_of_run (hr : repo.run Repo.init es = some r)
    (hes : repo.Always (Answers NotBelow) Repo.init es) {n : Node κ α}
    (hn : ∀ w ∈ unanswered es, n.Passes w.path) (treePath : List κ) :
    r.pendingWriteTree.calculateCompleteEventCacheAtPath treePath (some (n.getChild treePath)) =
      some ((n.overwritten (unanswered es)).getChild treePath) := by
  have hall := (ordered_of_run hr).allWrites_eq
  rw [WriteTree.calculateCompleteEventCacheAtPath_getChild,
    (layered_of_run hr hes).applyToNode (hall ▸ hn), hall]

/-- A node is written, and something below it, and taken back; the first write is answered. -/
def writesAndDeletes : List (RepoEvent ℕ ℕ) :=
  [.set [1] (.leaf 5), .set [1, 2] (.leaf 6), .set [1] .empty, .ackWrite 0]

theorem always_writesAndDeletes : repo.Always (Answers NotBelow) Repo.init writesAndDeletes := by
  refine ⟨trivial, fun r₁ h₁ => ⟨trivial, fun r₂ h₂ => ⟨trivial, fun r₃ h₃ => ⟨?_, ?_⟩⟩⟩⟩
  · obtain rfl := Option.some.inj h₁
    obtain rfl := Option.some.inj h₂
    obtain rfl := Option.some.inj h₃
    have hordered : Ordered (writesAndDeletes.take 3) _ := ordered_of_run rfl
    exact hordered.notBelow (List.nil_append _).symm fun c hc => absurd hc List.not_mem_nil
  · exact fun _ _ => trivial

theorem eventCache_of_run_writesAndDeletes :
    ∃ r : Repo ℕ ℕ, repo.run Repo.init writesAndDeletes = some r ∧
      r.pendingWriteTree.calculateCompleteEventCacheAtPath [1] (some (Node.empty.getChild [1])) =
        some ((Node.empty.overwritten (unanswered writesAndDeletes)).getChild [1]) :=
  ⟨_, rfl, eventCache_of_run rfl always_writesAndDeletes (fun w _ => Node.passes_empty w.path) [1]⟩

/-- Answers out of order can leave a write behind: after the second write has been answered it
is still shown, although only the first one is pending. -/
example : ((repo.run Repo.init [.set [1] (Node.empty.updateChild [2] (.leaf 5)),
    .set [1, 2] (.leaf 6), .ackWrite 1]).bind fun r : Repo ℕ ℕ =>
      (r.pendingWriteTree.calculateCompleteEventCacheAtPath [1, 2] (some .empty)).bind
        Node.leafValue) = some 6 := by
  rfl

/-- **What a transaction reads.** In every run, in whatever order the writes are answered, the
latest state at a path without the writes of a transaction is what the other unanswered
writes make of the server's node, one after the other in the order they were issued. -/
theorem latestState_of_run (hr : repo.run Repo.init es = some r) {n : Node κ α}
    (hn : ∀ w ∈ unanswered es, n.Passes w.path) (path : List κ) (writeIdsToExclude : List ℤ) :
    r.latestStateAtPath path (some (n.getChild path)) writeIdsToExclude =
      (n.overwritten ((unanswered es).filter fun w =>
        !writeIdsToExclude.contains w.writeId)).getChild path := by
  have hall := (ordered_of_run hr).allWrites_eq
  rw [latestStateAtPath,
    WriteTree.calculateCompleteEventCacheExcluding_hidden _ (hall ▸ hn) path writeIdsToExclude,
    Option.getD_some, hall]

/-- The run that leaves a write behind. -/
theorem latestState_of_run_outOfOrder :
    ∃ r : Repo ℕ ℕ, repo.run Repo.init [.set [1] (Node.empty.updateChild [2] (.leaf 5)),
        .set [1, 2] (.leaf 6), .ackWrite 1] = some r ∧
      r.latestStateAtPath [1, 2] (some (Node.empty.getChild [1, 2])) [] =
        (Node.empty.overwritten ((unanswered [.set [1] (Node.empty.updateChild [2] (.leaf 5)),
          .set [1, 2] (.leaf 6), .ackWrite 1]).filter fun w =>
            !([] : List ℤ).contains w.writeId)).getChild [1, 2] :=
  ⟨_, rfl, latestState_of_run rfl (fun w _ => Node.passes_empty w.path) [1, 2] []⟩

/-- **No write is lost, and none is kept**: after every run the pending writes are those that have
been issued and not been answered, in their order. The next write is recorded behind them under
an identifier of its own, and the answer to any one of them takes out that one alone, neither of
which makes an assertion fail. -/
theorem pending_of_run (hr : repo.run Repo.init es = some r) :
    r.pendingWriteTree.allWrites = unanswered es ∧
      (∀ path node, ∃ r', repo.step r (.set path node) = some r' ∧
        r'.pendingWriteTree.allWrites =
          unanswered es ++ [⟨(issuedFrom 0 es).length, path, node, true⟩]) ∧
      ∀ before w after, unanswered es = before ++ w :: after →
        ∃ r', repo.step r (.ackWrite w.writeId) = some r' ∧
          r'.pendingWriteTree.allWrites = before ++ after := by
  have hordered := ordered_of_run hr
  have hall := hordered.allWrites_eq
  refine ⟨hall, fun path node => ?_, fun before w after hw => ?_⟩
  · refine ⟨_, hordered.set_eq path node, ?_⟩
    rw [hall, hordered.counter]
  · exact hordered.exists_ackWrite (hall.trans hw)

theorem pending_of_run_writesAndDeletes :
    ∃ r : Repo ℕ ℕ, repo.run Repo.init writesAndDeletes = some r ∧
      ∃ r', repo.step r (.ackWrite 2) = some r' ∧
        r'.pendingWriteTree.allWrites = [⟨1, [1, 2], .leaf 6, true⟩] := by
  have hrun : repo.run Repo.init writesAndDeletes = some _ := rfl
  obtain ⟨-, -, hanswer⟩ := pending_of_run hrun
  exact ⟨_, hrun, hanswer [⟨1, [1, 2], .leaf 6, true⟩] ⟨2, [1], .empty, true⟩ [] rfl⟩

end Repo

end FirebaseDatabase
