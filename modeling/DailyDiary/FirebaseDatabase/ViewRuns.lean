/-
The event cache of a view, over whole runs of a client.

The view processor changes the event cache step by step and never calculates it anew, unless
an operation is about the place of the view or one above it. `Shows` says what must come
out: once the server's node is complete, the event cache is that node with the pending
writes made in turn. It is kept by every event (`Shows.set`, `Shows.answer` and
`Shows.server`), when writes fit the places, and when the server does not answer a write
while an older one on the same way is pending. Out of that order a client keeps what it
should no longer show, as `Repo` has it for the write tree, and a Debug build may run into an
assertion; in order it does not (`exists_run_of_conforms`).

What is shadowed as a whole is complete without the server, which is the second part of the
invariant: the server's node may come when it is not looked at.

The writes are those of `setValue` and `removeValue`, in a client with one view; the merges of
`updateChildValues` and the hidden writes of transactions are left out.
-/
import DailyDiary.FirebaseDatabase.EventCache
import DailyDiary.FirebaseDatabase.SyncTree

set_option autoImplicit false

namespace FirebaseDatabase

variable {κ α : Type} [LinearOrder κ]

/-! ## Operations at a place -/

namespace Operation

/-- The operation with another path. -/
def withPath (operation : Operation κ α) (path : List κ) : Operation κ α :=
  match operation with
  | overwrite fromUser _ snap => overwrite fromUser path snap
  | merge _ children => merge path children
  | ackUserWrite _ revert => ackUserWrite path revert
  | listenComplete _ => listenComplete path

variable (op : Operation κ α) {w P : List κ}

@[simp] theorem path_withPath (p : List κ) : (op.withPath p).path = p := by
  cases op <;> rfl

theorem withPath_path : op.withPath op.path = op := by
  cases op <;> rfl

theorem operationForChild_withPath (k j : κ) (p : List κ) :
    (op.withPath (k :: p)).operationForChild j = some (op.withPath p) := by
  cases op <;> rfl

/-- Along the path of the operation. -/
theorem atPlace_cons (k : κ) (p P : List κ) :
    (op.withPath (k :: p)).atPlace (k :: P) = (op.withPath p).atPlace P := by
  rw [atPlace, path_withPath]
  dsimp only
  rw [if_pos rfl, operationForChild_withPath, Option.bind_some]

/-- Below the place the rest of the path is left. -/
theorem atPlace_append (P p : List κ) : (op.withPath (P ++ p)).atPlace P = some (op.withPath p) := by
  induction P with
  | nil => rfl
  | cons k P ih => rw [List.cons_append, atPlace_cons, ih]

/-- Above it the operation goes on without a path. -/
theorem atPlace_below (w q : List κ) :
    (op.withPath w).atPlace (w ++ q) = (op.withPath []).atPlace q := by
  induction w with
  | nil => rfl
  | cons k w ih => rw [List.cons_append, atPlace_cons, ih]

/-- Elsewhere it does not come. -/
theorem atPlace_disjoint (hw : ¬ w <+: P) (hP : ¬ P <+: w) : (op.withPath w).atPlace P = none := by
  induction P generalizing w with
  | nil => exact absurd List.nil_prefix hP
  | cons k P ih =>
    cases w with
    | nil => exact absurd List.nil_prefix hw
    | cons j w =>
      by_cases hjk : j = k
      · subst hjk
        rw [atPlace_cons]
        exact ih (by simpa using hw) (by simpa using hP)
      · rw [atPlace, path_withPath]
        dsimp only
        rw [if_neg hjk]

theorem atPlace_overwrite (fromUser : Bool) (snap : Node κ α) (q : List κ) :
    (overwrite fromUser [] snap).atPlace q = some (overwrite fromUser [] (snap.getChild q)) := by
  induction q generalizing snap with
  | nil => rfl
  | cons k q ih => exact (ih _).trans (by rw [Node.getChild_cons])

theorem atPlace_ackUserWrite (revert : Bool) (q : List κ) :
    (ackUserWrite [] revert : Operation κ α).atPlace q = some (ackUserWrite [] revert) := by
  induction q with
  | nil => rfl
  | cons k q ih => exact ih

theorem atPlace_listenComplete (q : List κ) :
    (listenComplete [] : Operation κ α).atPlace q = some (listenComplete []) := by
  induction q with
  | nil => rfl
  | cons k q ih => exact ih

end Operation

/-! ## What is to be shown -/

/-- The node that has another one at a place and nothing else. -/
def Node.placed (P : List κ) (m : Node κ α) : Node κ α :=
  Node.empty.updateChild P m

section Placed

variable {Inner : List κ → Prop} {P p : List κ} {m : Node κ α}

@[simp] theorem Node.getChild_placed (P : List κ) (m : Node κ α) :
    (Node.placed P m).getChild P = m := by
  have hget := Node.getChild_updateChild_append P [] m Node.empty
  rwa [List.append_nil, Node.getChild_nil] at hget

theorem Node.placed_updateChild (P p : List κ) (m x : Node κ α) :
    Node.placed P (m.updateChild p x) = (Node.placed P m).updateChild (P ++ p) x :=
  (Node.updateChild_updateChild_below (Node.passes_empty P) p m x).symm

theorem Node.plain_placed (hm : ∀ r, Inner (P ++ r) → (m.getChild r).leafValue = none) :
    (Node.placed P m).Plain Inner := by
  intro q hq
  rw [Node.placed]
  by_cases hPq : P <+: q
  · obtain ⟨r, rfl⟩ := hPq
    rw [Node.getChild_updateChild_append]
    exact hm r hq
  · by_cases hqP : q <+: P
    · obtain ⟨r, rfl⟩ := hqP
      rw [Node.getChild_append_updateChild]
      cases r with
      | nil => exact absurd (by simp) hPq
      | cons k r => exact Node.leafValue_updateChild (Node.plain_empty Inner q hq) k r m
    · rw [Node.getChild_updateChild_of_disjoint hPq hqP]
      exact Node.plain_empty Inner q hq

end Placed

/-- The merge is right, and the pending writes fit the places. -/
structure WriteTree.Tidy (Inner : List κ → Prop) (t : WriteTree κ α) : Prop where
  layered : t.Layered
  fits : ∀ r ∈ t.allWrites, Node.Fits Inner r.path r.overwrite

section Tidy

variable {Inner : List κ → Prop} {t : WriteTree κ α} (ht : t.Tidy Inner) {P p : List κ}

include ht

theorem WriteTree.Tidy.shown {n : Node κ α} (hn : n.Plain Inner) :
    (⟨P, t⟩ : WriteTreeRef κ α).shown n = (n.overwritten t.allWrites).getChild P := by
  rw [WriteTreeRef.shown, ht.layered.applyToNode fun r hr => hn.passes (ht.fits r hr).way]

theorem WriteTree.Tidy.isSome_shadowingWriteAtPath :
    ((⟨P, t⟩ : WriteTreeRef κ α).shadowingWriteAtPath p).isSome = true ↔
      ∃ r ∈ t.allWrites, r.path <+: P ++ p := by
  rw [WriteTreeRef.shadowingWriteAtPath, ht.layered.visibleWrites_eq,
    WriteTree.layerTreeFromWrites_root]
  exact CompoundWrite.isSome_completeNodeAtPath_addWrites

/-- What is shadowed at the place is shadowed below it. -/
theorem WriteTree.Tidy.isSome_shadowingWriteAtPath_below (hP : ∃ r ∈ t.allWrites, r.path <+: P)
    (p : List κ) : ((⟨P, t⟩ : WriteTreeRef κ α).shadowingWriteAtPath p).isSome = true := by
  obtain ⟨r, hr, hrP⟩ := hP
  exact ht.isSome_shadowingWriteAtPath.mpr ⟨r, hr, hrP.trans (List.prefix_append P p)⟩

end Tidy

/-- The event cache is what is to be shown of the server's node with the writes made in turn,
when that is known, or when the writes shadow the place. -/
structure Shows (Inner : List κ → Prop) (P : List κ) (ws : List (WriteRecord κ α))
    (v : ViewCache κ α) : Prop where
  plain : (Node.placed P v.cachedServerSnap.node).Plain Inner
  complete : v.cachedServerSnap.isFullyInitialized = true → v.cachedEventSnap =
    ⟨((Node.placed P v.cachedServerSnap.node).overwritten ws).getChild P, true⟩
  shadowed : (∃ r ∈ ws, r.path <+: P) →
    v.cachedEventSnap = ⟨((Node.empty : Node κ α).overwritten ws).getChild P, true⟩

section Steps

variable {Inner : List κ → Prop} {P p q : List κ} {ws : List (WriteRecord κ α)}
  {r : WriteRecord κ α} {v v' : ViewCache κ α} {t : WriteTree κ α}
  {acc acc' : Option (ChangeMap κ α)}

/-! ## A write of the user -/

/-- What is shown after another write at the place or above it. -/
theorem getChild_overwritten_concat_above (hr : P = r.path ++ q) (n : Node κ α)
    (ws : List (WriteRecord κ α)) :
    (n.overwritten (ws ++ [r])).getChild P = r.overwrite.getChild q := by
  rw [Node.overwritten_concat, hr, Node.getChild_updateChild_append]

/-- And after one below it. -/
theorem getChild_overwritten_concat_below (hr : r.path = P ++ q) (n : Node κ α)
    (ws : List (WriteRecord κ α)) : (n.overwritten (ws ++ [r])).getChild P =
      ((n.overwritten ws).getChild P).updateChild q r.overwrite := by
  rw [Node.overwritten_concat, hr, Node.getChild_append_updateChild]

theorem Shows.set_elsewhere (h : Shows Inner P ws v) (hr : ¬ r.path <+: P) (hP : ¬ P <+: r.path) :
    Shows Inner P (ws ++ [r]) v := by
  have hsame : ∀ n : Node κ α,
      (n.overwritten (ws ++ [r])).getChild P = (n.overwritten ws).getChild P := by
    intro n
    rw [Node.overwritten_concat, Node.getChild_updateChild_of_disjoint hr hP]
  refine ⟨h.plain, fun hinit => ?_, ?_⟩
  · rw [hsame]
    exact h.complete hinit
  · rintro ⟨c, hc, hcP⟩
    rw [hsame]
    rcases List.mem_append.mp hc with hc | hc
    · exact h.shadowed ⟨c, hc, hcP⟩
    · exact absurd (List.mem_singleton.mp hc ▸ hcP) hr

variable [DecidableEq α]

theorem Shows.set_above (h : Shows Inner P ws v) (hr : P = r.path ++ q) {w : WriteTreeRef κ α}
    (happly : v.applyUserOverwriteTo [] (r.overwrite.getChild q) w acc = some (v', acc')) :
    Shows Inner P (ws ++ [r]) v' := by
  have hserver := ViewCache.applyUserOverwriteTo_server happly
  have hevent := ViewCache.applyUserOverwriteTo_eq (fun hno => absurd rfl hno) happly
  refine ⟨hserver ▸ h.plain, fun _ => ?_, fun _ => ?_⟩
  · rw [hevent, getChild_overwritten_concat_above hr]
    rfl
  · rw [hevent, getChild_overwritten_concat_above hr]
    rfl

/-- A write strictly below the view is laid over what the view already shows, since the
record appended to the pending writes is the last one applied. -/
theorem Shows.set_below (h : Shows Inner P ws v) (hr : r.path = P ++ q) (hq : q ≠ [])
    {w : WriteTreeRef κ α}
    (happly : v.applyUserOverwriteTo q r.overwrite w acc = some (v', acc')) :
    Shows Inner P (ws ++ [r]) v' := by
  have hserver := ViewCache.applyUserOverwriteTo_server happly
  have hshown : ∀ n : Node κ α, v.cachedEventSnap = ⟨(n.overwritten ws).getChild P, true⟩ →
      v'.cachedEventSnap = ⟨(n.overwritten (ws ++ [r])).getChild P, true⟩ := by
    intro n hn
    rw [ViewCache.applyUserOverwriteTo_eq (fun _ => by rw [hn]) happly, hn,
      getChild_overwritten_concat_below hr]
  -- the same step for what is shown of the server's node and of what is shadowed
  refine ⟨hserver ▸ h.plain, fun hinit => ?_, ?_⟩
  · rw [hserver]
    exact hshown _ (h.complete (hserver ▸ hinit))
  · rintro ⟨c, hc, hcP⟩
    refine hshown _ (h.shadowed ?_)
    rcases List.mem_append.mp hc with hc | hc
    · exact ⟨c, hc, hcP⟩
    · -- a write below the place does not shadow it
      rw [List.mem_singleton.mp hc, hr] at hcP
      have hlen := hcP.length_le
      rw [List.length_append] at hlen
      exact absurd (List.length_eq_zero_iff.mp (by omega)) hq

/-! ## Messages of the server -/

omit [DecidableEq α] in
/-- Where the writes shadow the place, the server does not matter. -/
theorem Shows.of_shadowed (h : Shows Inner P ws v) (hshadow : ∃ r ∈ ws, r.path <+: P)
    (n : Node κ α) : v.cachedEventSnap = ⟨(n.overwritten ws).getChild P, true⟩ := by
  rw [h.shadowed hshadow, Node.getChild_overwritten_above hshadow n]

omit [DecidableEq α] in
/-- The server's node of the place has come, with or without data. -/
theorem Shows.of_server {m : Node κ α} (hm : (Node.placed P m).Plain Inner)
    (hv : v' = ⟨⟨((Node.placed P m).overwritten ws).getChild P, true⟩, ⟨m, true⟩⟩) :
    Shows Inner P ws v' := by
  subst hv
  refine ⟨hm, fun _ => rfl, fun hshadow => ?_⟩
  rw [Node.getChild_overwritten_above hshadow Node.empty]

theorem Shows.serverOverwrite_above (h : Shows Inner P t.allWrites v) (ht : t.Tidy Inner)
    {m : Node κ α} (hm : (Node.placed P m).Plain Inner)
    (happly : v.applyServerOverwriteTo [] m ⟨P, t⟩ acc = some (v', acc')) :
    Shows Inner P t.allWrites v' := by
  have heq := ViewCache.applyServerOverwriteTo_eq (w := ⟨P, t⟩) (n := Node.placed P m)
    (by simp) (fun hno => absurd rfl hno) (fun hno => absurd rfl hno) (Node.sameBut_nil _ _)
    (fun hs => by
      rw [ht.isSome_shadowingWriteAtPath, List.append_nil] at hs
      rw [ht.shown hm]
      exact h.of_shadowed hs _) happly
  rw [ht.shown hm, Node.getChild_placed] at heq
  exact Shows.of_server hm heq

theorem Shows.listenComplete_above (h : Shows Inner P t.allWrites v) (ht : t.Tidy Inner)
    (happly : v.listenCompleteOldCache [] ⟨P, t⟩ acc = some (v', acc')) :
    Shows Inner P t.allWrites v' := by
  have heq := ViewCache.listenCompleteOldCache_eq (w := ⟨P, t⟩)
    (n := Node.placed P v.cachedServerSnap.node)
    (by simp) (fun hno => absurd rfl hno) (fun hno => absurd rfl hno) (Node.sameBut_nil _ _)
    (fun hs => by
      rw [ht.isSome_shadowingWriteAtPath, List.append_nil] at hs
      rw [ht.shown h.plain]
      exact h.of_shadowed hs _) happly
  rw [ht.shown h.plain, Node.getChild_placed] at heq
  exact Shows.of_server h.plain heq

/-- Below the place an overwrite shows there, unless a write covers it. -/
theorem Shows.serverOverwrite_below (h : Shows Inner P t.allWrites v) (ht : t.Tidy Inner)
    {x : Node κ α} (hp : p ≠ []) (hx : Node.Fits Inner (P ++ p) x)
    (happly : v.applyServerOverwriteTo p x ⟨P, t⟩ acc = some (v', acc')) :
    Shows Inner P t.allWrites v' := by
  have hplain := h.plain.updateChild hx
  rw [← Node.placed_updateChild] at hplain
  by_cases hinit : v.cachedServerSnap.isFullyInitialized = true
  · -- the node is known: what is shown of it differs at the place of the overwrite only
    have hsame : Node.SameBut (P ++ p)
        ((Node.placed P v.cachedServerSnap.node).overwritten t.allWrites)
        ((Node.placed P (v.cachedServerSnap.node.updateChild p x)).overwritten t.allWrites) := by
      refine Node.SameBut.overwritten ?_ h.plain hx.way ht.fits
      rw [Node.placed_updateChild]
      exact Node.sameBut_updateChild _ _ _
    have hevent := h.complete hinit
    have heq := ViewCache.applyServerOverwriteTo_eq (w := ⟨P, t⟩)
      (n := Node.placed P (v.cachedServerSnap.node.updateChild p x)) (by simp) (fun _ => hinit)
      (fun _ => by rw [hevent]) (by rw [ht.shown hplain, hevent]; exact hsame.getChild)
      (fun hs => by
        rw [ht.isSome_shadowingWriteAtPath] at hs
        rw [ht.shown hplain, hevent,
          hsame.eq_of_getChild (Node.getChild_overwritten_above hs _ _)]) happly
    rw [ht.shown hplain, Node.getChild_placed] at heq
    exact Shows.of_server hplain heq
  · -- it is not: the overwrite is kept or skipped, and shows what is shadowed at most
    have hno : v'.cachedServerSnap.isFullyInitialized = false ∧
        (Node.placed P v'.cachedServerSnap.node).Plain Inner := by
      rw [Bool.not_eq_true] at hinit
      rcases ViewCache.applyServerOverwriteTo_server happly with ⟨hserver, -⟩ | hserver
      · rw [hserver]
        exact ⟨hinit, h.plain⟩
      · rw [hserver, hinit]
        exact ⟨by simpa using hp, hplain⟩
    refine ⟨hno.2, fun hinit' => ?_, fun hshadow => ?_⟩
    · rw [hno.1] at hinit'
      cases hinit'
    · have hs := ht.isSome_shadowingWriteAtPath_below hshadow p
      rw [ViewCache.applyServerOverwriteTo_shadowed hs happly]
      exact h.shadowed hshadow

/-- A listen completing below the view changes nothing the view shows: the complete server
data it reports is data the view already has. -/
theorem Shows.listenComplete_below (h : Shows Inner P t.allWrites v) (ht : t.Tidy Inner)
    (hp : p ≠ []) (happly : v.listenCompleteOldCache p ⟨P, t⟩ acc = some (v', acc')) :
    Shows Inner P t.allWrites v' := by
  by_cases hinit : v.cachedServerSnap.isFullyInitialized = true
  · have hevent := h.complete hinit
    have heq := ViewCache.listenCompleteOldCache_eq (w := ⟨P, t⟩)
      (n := Node.placed P v.cachedServerSnap.node) (by simp) (fun _ => hinit)
      (fun _ => by rw [hevent]) (by rw [ht.shown h.plain, hevent]; exact Node.sameBut_refl _ _)
      (fun _ => by rw [ht.shown h.plain, hevent]) happly
    rw [ht.shown h.plain, Node.getChild_placed] at heq
    exact Shows.of_server h.plain heq
  · rw [ViewCache.listenCompleteOldCache] at happly
    have hserver : v'.cachedServerSnap =
        ⟨v.cachedServerSnap.node, v.cachedServerSnap.isFullyInitialized || p.isEmpty⟩ :=
      ViewCache.generateEventCacheAfterServerEvent_server happly
    refine ⟨?_, fun hinit' => ?_, fun hshadow => ?_⟩
    · rw [hserver]
      exact h.plain
    · rw [hserver] at hinit'
      simp [hp, hinit] at hinit'
    · have hs := ht.isSome_shadowingWriteAtPath_below hshadow p
      rw [ViewCache.generateEventCacheAfterServerEvent_shadowed hs] at happly
      obtain ⟨rfl, -⟩ := Prod.mk.inj (Option.some.inj happly)
      exact h.shadowed hshadow

/-! ## Answers to writes -/

/-- The event cache is not looked at where a pending write covers the place of the answer. -/
theorem applyOperation_ackUserWrite_shadowed {w : WriteTreeRef κ α} {revert : Bool}
    (hshadow : (w.shadowingWriteAtPath p).isSome = true) :
    v.applyOperation (.ackUserWrite p revert) w acc = some (v, acc) := by
  cases revert with
  | false => exact ViewCache.ackUserWriteOn_shadowed hshadow
  | true => exact ViewCache.revertUserWriteOn_shadowed hshadow

theorem applyOperation_ackUserWrite_server {w : WriteTreeRef κ α} {revert : Bool}
    (happly : v.applyOperation (.ackUserWrite p revert) w acc = some (v', acc')) :
    v'.cachedServerSnap = v.cachedServerSnap := by
  cases revert with
  | false => exact ViewCache.ackUserWriteOn_server happly
  | true => exact ViewCache.revertUserWriteOn_server happly

/-- Accepted or taken back, the write is gone from the event cache. -/
theorem applyOperation_ackUserWrite_eq {w : WriteTreeRef κ α} {revert : Bool} {n : Node κ α}
    (hserver : v.cachedServerSnap = ⟨n.getChild w.path, true⟩)
    (hevent : v.cachedEventSnap.isFullyInitialized = true)
    (hsame : Node.SameBut p v.cachedEventSnap.node (w.shown n))
    (hshadow : ¬ (w.shadowingWriteAtPath p).isSome = true)
    (happly : v.applyOperation (.ackUserWrite p revert) w acc = some (v', acc')) :
    v' = ⟨⟨w.shown n, true⟩, ⟨n.getChild w.path, true⟩⟩ := by
  have hnode : v.cachedServerSnap.node = n.getChild w.path := by rw [hserver]
  have hinit : v.cachedServerSnap.isFullyInitialized = true := by rw [hserver]
  cases revert with
  | false => exact ViewCache.ackUserWriteOn_eq hnode hinit hevent hsame hshadow happly
  | true =>
    rw [ViewCache.revertUserWriteOn_eq hnode hinit hsame hshadow happly, hserver]

/-- A pending write among the others: no older one is on its way, and it leads to none. -/
def Apart (before : List (WriteRecord κ α)) (r : WriteRecord κ α) : Prop :=
  ∀ c ∈ before, ¬ c.path <+: r.path ∧ ¬ r.path <+: c.path

section Answer

variable {before after : List (WriteRecord κ α)}

omit [DecidableEq α] in
theorem Shows.congr {ws' : List (WriteRecord κ α)} (h : Shows Inner P ws v)
    (hcomplete : ((Node.placed P v.cachedServerSnap.node).overwritten ws').getChild P =
      ((Node.placed P v.cachedServerSnap.node).overwritten ws).getChild P)
    (hshadowed : (∃ r ∈ ws', r.path <+: P) → (∃ r ∈ ws, r.path <+: P) ∧
      ((Node.empty : Node κ α).overwritten ws').getChild P =
        ((Node.empty : Node κ α).overwritten ws).getChild P) : Shows Inner P ws' v := by
  refine ⟨h.plain, fun hinit => ?_, fun hshadow => ?_⟩
  · rw [hcomplete]
    exact h.complete hinit
  · obtain ⟨hws, heq⟩ := hshadowed hshadow
    rw [heq]
    exact h.shadowed hws

omit [DecidableEq α] in
/-- The writes without one of them differ at its place at most. -/
theorem sameBut_overwritten_removed {n : Node κ α} (hn : n.Plain Inner)
    (hfits : ∀ c ∈ before ++ r :: after, Node.Fits Inner c.path c.overwrite) :
    Node.SameBut r.path (n.overwritten (before ++ r :: after)) (n.overwritten (before ++ after)) := by
  have hr := hfits r (by simp)
  have hplain := hn.overwritten fun c hc => hfits c (List.mem_append_left _ hc)
  rw [Node.overwritten_append, Node.overwritten_append]
  refine Node.SameBut.overwritten (Node.sameBut_of_updateChild (hplain.passes hr.way) _)
    (hplain.updateChild hr) hr.way fun c hc => hfits c ?_
  exact List.mem_append_right _ (List.mem_cons_of_mem r hc)

omit [DecidableEq α] in
/-- And not at all when a later one covers it. -/
theorem overwritten_removed_of_covered {n : Node κ α} (hn : n.Plain Inner)
    (hfits : ∀ c ∈ before ++ r :: after, Node.Fits Inner c.path c.overwrite)
    (hcover : ∃ c ∈ after, c.path <+: r.path) :
    n.overwritten (before ++ after) = n.overwritten (before ++ r :: after) := by
  have hr := hfits r (by simp)
  have hplain := hn.overwritten fun c hc => hfits c (List.mem_append_left _ hc)
  rw [Node.overwritten_append, Node.overwritten_append]
  refine (Node.SameBut.overwritten_above (Node.sameBut_of_updateChild (hplain.passes hr.way) _)
    (hplain.updateChild hr) hr.way (fun c hc => hfits c ?_) hcover).symm
  exact List.mem_append_right _ (List.mem_cons_of_mem r hc)

omit [DecidableEq α] in
/-- A later write that covers a place covers it without the removed one, too. -/
theorem getChild_overwritten_removed (hcover : ∃ c ∈ after, c.path <+: P) (n : Node κ α) :
    (n.overwritten (before ++ after)).getChild P =
      (n.overwritten (before ++ r :: after)).getChild P := by
  rw [Node.overwritten_append, Node.overwritten_append]
  exact Node.getChild_overwritten_above hcover _ _

omit [DecidableEq α] in
theorem Shows.answer_covered (h : Shows Inner P (before ++ r :: after) v)
    (hfits : ∀ c ∈ before ++ r :: after, Node.Fits Inner c.path c.overwrite)
    (hcover : ∃ c ∈ after, c.path <+: r.path) : Shows Inner P (before ++ after) v := by
  refine h.congr ?_ ?_
  · rw [overwritten_removed_of_covered h.plain hfits hcover]
  · rintro ⟨c, hc, hcP⟩
    refine ⟨⟨c, ?_, hcP⟩, ?_⟩
    · rcases List.mem_append.mp hc with hc | hc
      · exact List.mem_append_left _ hc
      · exact List.mem_append_right _ (List.mem_cons_of_mem r hc)
    · rw [overwritten_removed_of_covered (Node.plain_empty Inner) hfits hcover]

omit [DecidableEq α] in
theorem Shows.answer_elsewhere (h : Shows Inner P (before ++ r :: after) v) (hr : ¬ r.path <+: P)
    (hP : ¬ P <+: r.path) : Shows Inner P (before ++ after) v := by
  have hsame : ∀ n : Node κ α, (n.overwritten (before ++ after)).getChild P =
      (n.overwritten (before ++ r :: after)).getChild P := by
    intro n
    rw [Node.overwritten_append, Node.overwritten_append]
    refine Node.getChild_overwritten_congr ?_ after
    exact (Node.getChild_updateChild_of_disjoint hr hP _ _).symm
  refine h.congr (hsame _) ?_
  rintro ⟨c, hc, hcP⟩
  refine ⟨⟨c, ?_, hcP⟩, hsame _⟩
  rcases List.mem_append.mp hc with hc | hc
  · exact List.mem_append_left _ hc
  · exact List.mem_append_right _ (List.mem_cons_of_mem r hc)

/-- The answer to a write at the place or above it: the cache is calculated anew, or a later
write shadows the place. -/
theorem Shows.answer_above (h : Shows Inner P (before ++ r :: after) v) (ht : t.Tidy Inner)
    (hall : t.allWrites = before ++ after) (hapart : Apart before r) (hr : r.path <+: P)
    {revert : Bool}
    (happly : v.applyOperation (.ackUserWrite [] revert) ⟨P, t⟩ acc = some (v', acc')) :
    Shows Inner P (before ++ after) v' := by
  by_cases hs : ((⟨P, t⟩ : WriteTreeRef κ α).shadowingWriteAtPath []).isSome = true
  · rw [applyOperation_ackUserWrite_shadowed hs] at happly
    obtain ⟨rfl, -⟩ := Prod.mk.inj (Option.some.inj happly)
    rw [ht.isSome_shadowingWriteAtPath, hall, List.append_nil] at hs
    obtain ⟨c, hc, hcP⟩ := hs
    have hafter : ∃ c ∈ after, c.path <+: P := by
      rcases List.mem_append.mp hc with hc | hc
      · -- an older one would be on the way of the answered write
        rcases List.prefix_or_prefix_of_prefix hcP hr with hcr | hrc
        · exact absurd hcr (hapart c hc).1
        · exact absurd hrc (hapart c hc).2
      · exact ⟨c, hc, hcP⟩
    exact h.congr (getChild_overwritten_removed hafter _)
      fun _ => ⟨⟨r, by simp, hr⟩, getChild_overwritten_removed hafter _⟩
  -- nothing shadows the place: the event cache is calculated anew from the server's node
  · have hserver := applyOperation_ackUserWrite_server happly
    by_cases hinit : v.cachedServerSnap.isFullyInitialized = true
    · have heq := applyOperation_ackUserWrite_eq (w := ⟨P, t⟩)
        (n := Node.placed P v.cachedServerSnap.node) (by rw [Node.getChild_placed, ← hinit])
        (by rw [h.complete hinit]) (Node.sameBut_nil _ _) hs happly
      rw [ht.shown h.plain, Node.getChild_placed, hall] at heq
      exact Shows.of_server h.plain heq
    · refine ⟨hserver ▸ h.plain, fun hinit' => absurd (hserver ▸ hinit') hinit, fun hshadow => ?_⟩
      rw [ht.isSome_shadowingWriteAtPath, hall, List.append_nil] at hs
      exact absurd hshadow hs

/-- The answer to a write below the place that no later one covers. -/
theorem Shows.answer_below (h : Shows Inner P (before ++ r :: after) v) (ht : t.Tidy Inner)
    (hall : t.allWrites = before ++ after) (hapart : Apart before r)
    (hafter : ∀ c ∈ after, ¬ c.path <+: r.path)
    (hfits : ∀ c ∈ before ++ r :: after, Node.Fits Inner c.path c.overwrite)
    (hr : r.path = P ++ p) {revert : Bool}
    (happly : v.applyOperation (.ackUserWrite p revert) ⟨P, t⟩ acc = some (v', acc')) :
    Shows Inner P (before ++ after) v' := by
  -- the place of the answered write is not shadowed, so the cache is put in order there
  have huncovered : ¬ ∃ c ∈ before ++ after, c.path <+: r.path := by
    rintro ⟨c, hc, hcr⟩
    rcases List.mem_append.mp hc with hc | hc
    · exact (hapart c hc).1 hcr
    · exact hafter c hc hcr
  have hs : ¬ ((⟨P, t⟩ : WriteTreeRef κ α).shadowingWriteAtPath p).isSome = true := by
    rwa [ht.isSome_shadowingWriteAtPath, hall, ← hr]
  have hserver := applyOperation_ackUserWrite_server happly
  by_cases hinit : v.cachedServerSnap.isFullyInitialized = true
  · have hevent := h.complete hinit
    have hsame := sameBut_overwritten_removed h.plain hfits
    rw [hr] at hsame
    have heq := applyOperation_ackUserWrite_eq (w := ⟨P, t⟩)
      (n := Node.placed P v.cachedServerSnap.node) (by rw [Node.getChild_placed, ← hinit])
      (by rw [hevent]) (by rw [ht.shown h.plain, hevent, hall]; exact hsame.getChild) hs happly
    rw [ht.shown h.plain, Node.getChild_placed, hall] at heq
    exact Shows.of_server h.plain heq
  · refine ⟨hserver ▸ h.plain, fun hinit' => absurd (hserver ▸ hinit') hinit, ?_⟩
    rintro ⟨c, hc, hcP⟩
    exact absurd ⟨c, hc, hcP.trans (hr ▸ List.prefix_append P p)⟩ huncovered

end Answer

end Steps

/-! ## Runs -/

/-- The answered write has no older pending one on its way, and leads to none. -/
def Repo.Foremost (r : Repo κ α) (writeId : ℤ) : Prop :=
  ∀ before w after, r.pendingWriteTree.allWrites = before ++ w :: after → w.writeId = writeId →
    Apart before w

/-- What the user writes and the server sends fits the places, and the server answers the writes
on one way in their order. Merges of the server are left out. -/
def Conforms (Inner : List κ → Prop) (s : SyncTree κ α) : SyncEvent κ α → Prop
  | .set path node => Node.Fits Inner path node
  | .ackWrite writeId _ => s.repo.Foremost writeId
  | .serverOverwrite path newData => Node.Fits Inner path newData
  | .serverMerge _ _ => False
  | .listenComplete _ => True

/-- The view shows what it should. -/
structure Correct (Inner : List κ → Prop) (P : List κ) (s : SyncTree κ α) : Prop where
  ordered : ∃ es, Repo.Ordered es s.repo
  tidy : s.repo.pendingWriteTree.Tidy Inner
  shows : Shows Inner P s.repo.pendingWriteTree.allWrites s.viewCache

section Runs

variable {Inner : List κ → Prop} {P path : List κ} {s s' : SyncTree κ α}

omit [LinearOrder κ] in
/-- How a path and a place lie. -/
theorem prefix_cases (path P : List κ) : (∃ q, P = path ++ q) ∨ (∃ q, q ≠ [] ∧ path = P ++ q) ∨
    ¬ path <+: P ∧ ¬ P <+: path := by
  by_cases hP : path <+: P
  · obtain ⟨q, rfl⟩ := hP
    exact Or.inl ⟨q, rfl⟩
  · by_cases hpath : P <+: path
    · obtain ⟨q, rfl⟩ := hpath
      refine Or.inr (Or.inl ⟨q, ?_, rfl⟩)
      rintro rfl
      exact hP (by simp)
    · exact Or.inr (Or.inr ⟨hP, hpath⟩)

theorem Repo.Ordered.writeForId {es : List (RepoEvent κ α)} {r : Repo κ α} (h : Repo.Ordered es r)
    {before after : List (WriteRecord κ α)} {w : WriteRecord κ α}
    (hall : r.pendingWriteTree.allWrites = before ++ w :: after) :
    r.pendingWriteTree.writeForId w.writeId = some w := by
  obtain ⟨-, -, hbefore⟩ := List.pairwise_append.mp (hall ▸ h.pairwise)
  have hnone : before.find? (fun record => record.writeId = w.writeId) = none := by
    rw [List.find?_eq_none]
    intro c hc
    simpa using (hbefore c hc w List.mem_cons_self).ne
  rw [WriteTree.writeForId, hall, List.find?_append, hnone, Option.none_or]
  exact List.find?_cons_of_pos (by simp)

variable [DecidableEq α]

/-- How an operation comes to the view of a place. One whose path ends at the place or above it
comes as `left`, by the steps that remain. -/
inductive Reaches (P : List κ) (op : Operation κ α) (left : List κ → Operation κ α)
    (s s' : SyncTree κ α) : Prop where
  | above (q : List κ) (acc : Option (ChangeMap κ α)) (hP : P = op.path ++ q)
      (hview : s.viewCache.applyOperation (left q) ⟨P, s.repo.pendingWriteTree⟩ (some []) =
        some (s'.viewCache, acc))
  | below (q : List κ) (acc : Option (ChangeMap κ α)) (hq : q ≠ []) (hpath : op.path = P ++ q)
      (hview : s.viewCache.applyOperation (op.withPath q) ⟨P, s.repo.pendingWriteTree⟩ (some []) =
        some (s'.viewCache, acc))
  | elsewhere (hpath : ¬ op.path <+: P) (hP : ¬ P <+: op.path) (heq : s' = s)

/-- Applying an operation leaves the pending writes of the client alone and reaches the view
with the part of the operation that concerns its place. -/
theorem reaches_of_applied {op : Operation κ α} {left : List κ → Operation κ α}
    (h : s.applyOperationToSyncPoints P op = some s')
    (hleft : ∀ q, (op.withPath []).atPlace q = some (left q)) :
    s'.repo = s.repo ∧ Reaches P op left s s' := by
  rcases prefix_cases op.path P with ⟨q, hP⟩ | ⟨q, hq, hpath⟩ | ⟨hpath, hP⟩
  · have hop : op.atPlace P = some (left q) := by
      calc op.atPlace P = (op.withPath op.path).atPlace (op.path ++ q) := by
            rw [Operation.withPath_path, ← hP]
        _ = (op.withPath []).atPlace q := op.atPlace_below op.path q
        _ = some (left q) := hleft q
    obtain ⟨acc, events, hview, -, hs'⟩ := SyncTree.applied_of_atPlace hop h
    exact ⟨by rw [hs'], .above q acc hP hview⟩
  · have hop : op.atPlace P = some (op.withPath q) := by
      rw [← op.atPlace_append P q, ← hpath, Operation.withPath_path]
    obtain ⟨acc, events, hview, -, hs'⟩ := SyncTree.applied_of_atPlace hop h
    exact ⟨by rw [hs'], .below q acc hq hpath hview⟩
  · have hop : op.atPlace P = none := by
      rw [← op.atPlace_disjoint hpath hP, Operation.withPath_path]
    obtain rfl := SyncTree.eq_of_atPlace hop h
    exact ⟨rfl, .elsewhere hpath hP rfl⟩

omit [DecidableEq α] in
theorem correct_of_view {r : Repo κ α} (hordered : ∃ es, Repo.Ordered es r)
    (htidy : r.pendingWriteTree.Tidy Inner) (hrepo : s'.repo = r)
    (hshows : Shows Inner P r.pendingWriteTree.allWrites s'.viewCache) : Correct Inner P s' := by
  subst hrepo
  exact ⟨hordered, htidy, hshows⟩

/-- A write of the user keeps the view correct. It reaches the view from above, at its place
or below it, and the pending writes shown grow by exactly this one. -/
theorem Correct.set (h : Correct Inner P s) {node : Node κ α} (hfits : Node.Fits Inner path node)
    (hs : SyncTree.step P s (.set path node) = some s') : Correct Inner P s' := by
  obtain ⟨es, hordered⟩ := h.ordered
  obtain ⟨repo, hset, happly⟩ := Option.bind_eq_some_iff.mp hs
  obtain ⟨t, hadd, hrepo⟩ := Option.map_eq_some_iff.mp hset
  have hset' := hordered.set_eq path node
  rw [hset] at hset'
  have hall : repo.pendingWriteTree.allWrites = s.repo.pendingWriteTree.allWrites ++
      [⟨s.repo.writeIdCounter, path, node, true⟩] := by
    rw [Option.some.inj hset']
  have htidy : repo.pendingWriteTree.Tidy Inner := by
    refine ⟨by rw [← hrepo]; exact h.tidy.layered.addOverwriteAtPath hadd, ?_⟩
    intro r hr
    rw [hall] at hr
    rcases List.mem_append.mp hr with hr | hr
    · exact h.tidy.fits r hr
    · rw [List.mem_singleton.mp hr]
      exact hfits
  obtain ⟨hrepo', hreach⟩ := reaches_of_applied happly (Operation.atPlace_overwrite true node)
  refine correct_of_view ⟨_, hordered.set hset⟩ htidy hrepo' ?_
  rw [hall]
  cases hreach with
  | above q acc hP hview =>
    have hview' : s.viewCache.applyUserOverwriteTo [] (node.getChild q)
        ⟨P, repo.pendingWriteTree⟩ (some []) = some (s'.viewCache, acc) := hview
    exact h.shows.set_above (r := ⟨_, path, node, true⟩) hP hview'
  | below q acc hq hpath hview =>
    have hview' : s.viewCache.applyUserOverwriteTo q node ⟨P, repo.pendingWriteTree⟩ (some []) =
        some (s'.viewCache, acc) := hview
    exact h.shows.set_below (r := ⟨_, path, node, true⟩) hpath hq hview'
  | elsewhere hpath hP heq =>
    subst heq
    exact h.shows.set_elsewhere (r := ⟨_, path, node, true⟩) hpath hP

/-- Data of the server keeps the view correct: the server cache takes the new data and the
event cache shows it under the writes still pending. -/
theorem Correct.serverOverwrite (h : Correct Inner P s) {newData : Node κ α}
    (hfits : Node.Fits Inner path newData)
    (hs : SyncTree.step P s (.serverOverwrite path newData) = some s') : Correct Inner P s' := by
  have happly : s.applyOperationToSyncPoints P (.overwrite false path newData) = some s' := hs
  obtain ⟨hrepo, hreach⟩ := reaches_of_applied happly (Operation.atPlace_overwrite false newData)
  refine correct_of_view h.ordered h.tidy hrepo ?_
  cases hreach with
  | above q acc hP hview =>
    refine h.shows.serverOverwrite_above h.tidy (Node.plain_placed fun r hr => ?_) hview
    rw [← Node.getChild_append]
    exact hfits.below _ (by rwa [hP, List.append_assoc] at hr)
  | below q acc hq hpath hview =>
    have hpath' : path = P ++ q := hpath
    exact h.shows.serverOverwrite_below h.tidy hq (hpath' ▸ hfits) hview
  | elsewhere hpath hP heq =>
    subst heq
    exact h.shows

theorem Correct.listenComplete (h : Correct Inner P s)
    (hs : SyncTree.step P s (.listenComplete path) = some s') : Correct Inner P s' := by
  have happly : s.applyOperationToSyncPoints P (.listenComplete path) = some s' := hs
  obtain ⟨hrepo, hreach⟩ := reaches_of_applied happly Operation.atPlace_listenComplete
  refine correct_of_view h.ordered h.tidy hrepo ?_
  cases hreach with
  | above q acc hP hview => exact h.shows.listenComplete_above h.tidy hview
  | below q acc hq hpath hview => exact h.shows.listenComplete_below h.tidy hq hview
  | elsewhere hpath hP heq =>
    subst heq
    exact h.shows

omit [DecidableEq α] in
/-- The tree without the answered write, and whether it was covered. -/
theorem removal_cases {t t' : WriteTree κ α} {writeId : ℤ} {b : Bool}
    {before after : List (WriteRecord κ α)} {r : WriteRecord κ α} (ht : t.Tidy Inner)
    (hremoval : WriteTree.Removal t writeId b t' before r after) (hapart : Apart before r) :
    t'.Tidy Inner ∧ (b = false ∧ (∃ c ∈ after, c.path <+: r.path) ∨
      b = true ∧ ∀ c ∈ after, ¬ c.path <+: r.path) := by
  obtain ⟨hall, -, hall'⟩ := hremoval.allWrites
  have hlayered := ht.layered.removal hremoval fun c hc hcr => (hapart c hc).1 hcr.1
  have hmem : ∀ c ∈ before ++ after, c ∈ t.allWrites := by
    intro c hc
    rw [hall]
    rcases List.mem_append.mp hc with hc | hc
    · exact List.mem_append_left _ hc
    · exact List.mem_append_right _ (List.mem_cons_of_mem r hc)
  refine ⟨⟨hlayered, fun c hc => ht.fits c (hmem c (hall' ▸ hc))⟩, ?_⟩
  have hseen : ∀ c ∈ after, c.visible = true := fun c hc =>
    ht.layered.visible c (hmem c (List.mem_append_right _ hc))
  cases hremoval with
  | unseen hall hid hcovered =>
    obtain ⟨c, hc, -, hcr⟩ := hcovered (ht.layered.visible r (by rw [hall]; simp))
    exact Or.inl ⟨rfl, c, hc, hcr⟩
  | reset hall hid habove => exact Or.inr ⟨rfl, fun c hc => habove c hc (hseen c hc)⟩
  | removed hall hid habove hbelow => exact Or.inr ⟨rfl, fun c hc => habove c hc (hseen c hc)⟩

/-- An answer keeps the view correct if it comes for the foremost open write. If a later
write covers the answered one the view is not asked, and otherwise it is reached above,
below or not at all. -/
theorem Correct.ackWrite (h : Correct Inner P s) {writeId : ℤ} {revert : Bool}
    (hforemost : s.repo.Foremost writeId)
    (hs : SyncTree.step P s (.ackWrite writeId revert) = some s') : Correct Inner P s' := by
  obtain ⟨es, hordered⟩ := h.ordered
  rw [SyncTree.step, SyncTree.ackUserWriteWithWriteId] at hs
  cases hfind : s.repo.pendingWriteTree.writeForId writeId with
  | none =>
    rw [hfind] at hs
    cases hs
  | some write =>
    rw [hfind] at hs
    obtain ⟨⟨b, t⟩, hremove, hs⟩ := Option.bind_eq_some_iff.mp hs
    obtain ⟨before, r, after, hremoval⟩ := WriteTree.removeWriteId_eq_some hremove
    obtain ⟨hall, rfl, hall'⟩ := hremoval.allWrites
    -- the write the tree finds by its identifier is the one it removes
    have hapart := hforemost before r after hall rfl
    obtain ⟨htidy, hcover⟩ := removal_cases h.tidy hremoval hapart
    obtain rfl : r = write := Option.some.inj ((hordered.writeForId hall).symm.trans hfind)
    have hack : s.repo.ackWrite r.writeId = some { s.repo with pendingWriteTree := t } := by
      rw [Repo.ackWrite, hremove]
      rfl
    have hshows := h.shows
    have hfits := h.tidy.fits
    rw [hall] at hshows hfits
    have hordered' : ∃ es, Repo.Ordered es { s.repo with pendingWriteTree := t } :=
      ⟨_, hordered.ackWrite hack⟩
    rcases hcover with ⟨rfl, hcovered⟩ | ⟨rfl, hafter⟩
    · -- a later write covers the answered one: the view is not asked
      obtain rfl := Option.some.inj hs
      refine correct_of_view hordered' htidy rfl ?_
      exact hall'.symm ▸ hshows.answer_covered hfits hcovered
    · have happly : SyncTree.applyOperationToSyncPoints P
          { s with repo := { s.repo with pendingWriteTree := t } }
            (.ackUserWrite r.path revert) = some s' := hs
      obtain ⟨hrepo, hreach⟩ := reaches_of_applied happly (Operation.atPlace_ackUserWrite revert)
      refine correct_of_view hordered' htidy hrepo (hall'.symm ▸ ?_)
      cases hreach with
      | above q acc hP hview =>
        have hr : r.path <+: P := ⟨q, hP.symm⟩
        exact hshows.answer_above htidy hall' hapart hr hview
      | below q acc hq hpath hview =>
        exact hshows.answer_below htidy hall' hapart hafter hfits hpath hview
      | elsewhere hpath hP heq =>
        subst heq
        exact hshows.answer_elsewhere hpath hP

/-- The answer to the foremost write on its way leaves nothing to be mistaken, when the server's
node is known: what is shown is wrong at the place of the write at most. -/
theorem Correct.clean_ackWrite (h : Correct Inner P s)
    (hinit : s.viewCache.cachedServerSnap.isFullyInitialized = true) {w : WriteRecord κ α}
    (hw : s.repo.pendingWriteTree.writeForId w.writeId = some w)
    (hforemost : s.repo.Foremost w.writeId) (revert : Bool) :
    Clean P s (.ackWrite w.writeId revert) := by
  obtain ⟨es, hordered⟩ := h.ordered
  refine ⟨w, hw, fun t hremove op' hop' => ViewCache.revertsCleanly_of_refused fun p hp => ?_⟩
  subst hp
  obtain ⟨before, r, after, hremoval⟩ := WriteTree.removeWriteId_eq_some hremove
  obtain ⟨hall, hid, hall'⟩ := hremoval.allWrites
  have hapart := hforemost before r after hall hid
  have htidy := (removal_cases h.tidy hremoval hapart).1
  obtain rfl : r = w := Option.some.inj ((hordered.writeForId hall).symm.trans (hid ▸ hw))
  obtain ⟨path, hpath, rfl | hr⟩ := Operation.eq_of_atPlace_ackUserWrite hop'
  · trivial
  · obtain ⟨rfl, rfl⟩ := Operation.ackUserWrite.inj hpath
    have hfits := h.tidy.fits
    rw [hall] at hfits
    have hsame := sameBut_overwritten_removed h.shows.plain hfits
    rw [hr] at hsame
    refine ViewCache.revertsCleanly_of_sameBut
      (n := Node.placed P s.viewCache.cachedServerSnap.node) ?_ hinit ?_
    · rw [Node.getChild_placed]
    · rw [htidy.shown h.shows.plain, h.shows.complete hinit, hall, hall']
      exact hsame.getChild

/-- **One event** keeps the view right. -/
theorem Correct.step (h : Correct Inner P s) {e : SyncEvent κ α} (he : Conforms Inner s e)
    (hs : (syncTree P).step s e = some s') : Correct Inner P s' := by
  cases e with
  | set path node => exact h.set he hs
  | ackWrite writeId revert => exact h.ackWrite he hs
  | serverOverwrite path newData => exact h.serverOverwrite he hs
  | serverMerge path changedChildren => exact he.elim
  | listenComplete path => exact h.listenComplete hs

/-! ### The beginning -/

omit [DecidableEq α] in
/-- A new view shows what it should. -/
theorem correct_of_addEventRegistration {es : List (RepoEvent κ α)} {r : Repo κ α}
    (hr : repo.run Repo.init es = some r) (htidy : r.pendingWriteTree.Tidy Inner)
    {c : CacheNode κ α} (hc : (Node.placed P c.node).Plain Inner)
    (hs : addEventRegistration P r c = some s) : Correct Inner P s := by
  obtain ⟨events, -, rfl⟩ := Option.map_eq_some_iff.mp hs
  refine ⟨⟨es, Repo.ordered_of_run hr⟩, htidy, hc, fun hinit => ?_, fun hshadow => ?_⟩
  · let w : WriteTreeRef κ α := ⟨P, r.pendingWriteTree⟩
    have hcalc : w.calculateCompleteEventCacheWithCompleteServerCache
        (some ((Node.placed P c.node).getChild P)) = some (w.shown (Node.placed P c.node)) :=
      WriteTreeRef.calculateCompleteEventCacheWithCompleteServerCache_getChild
    rw [Node.getChild_placed, htidy.shown hc] at hcalc
    have hinit' : c.isFullyInitialized = true := hinit
    dsimp only
    rw [WriteTreeRef.eventCacheNode, if_pos hinit', hcalc]
  · have hs := htidy.isSome_shadowingWriteAtPath (P := P) (p := [])
    rw [List.append_nil] at hs
    obtain ⟨m, hm⟩ := Option.isSome_iff_exists.mp (hs.mpr hshadow)
    have hshown := WriteTreeRef.getChild_shown_of_shadowing hm Node.empty
    rw [Node.getChild_nil, htidy.shown (Node.plain_empty Inner)] at hshown
    rw [WriteTreeRef.shadowingWriteAtPath, List.append_nil] at hm
    dsimp only at hm ⊢
    rw [WriteTreeRef.eventCacheNode, WriteTreeRef.calculateCompleteEventCacheWithCompleteServerCache,
      WriteTree.calculateCompleteEventCacheAtPath, hm, hshown]

/-! ### The whole -/

/-- A server's node that is known stays so. -/
theorem complete_of_step {e : SyncEvent κ α}
    (hinit : s.viewCache.cachedServerSnap.isFullyInitialized = true)
    (hs : (syncTree P).step s e = some s') :
    s'.viewCache.cachedServerSnap.isFullyInitialized = true := by
  have happlied : ∀ (u : SyncTree κ α) (op : Operation κ α), u.viewCache = s.viewCache →
      u.applyOperationToSyncPoints P op = some s' →
      s'.viewCache.cachedServerSnap.isFullyInitialized = true := by
    intro u op hu happly
    cases hplace : op.atPlace P with
    | none =>
      obtain rfl := SyncTree.eq_of_atPlace hplace happly
      rw [hu, hinit]
    | some op' =>
      obtain ⟨acc, es, hview, -, -⟩ := SyncTree.applied_of_atPlace hplace happly
      exact ViewCache.applyOperation_complete (hu ▸ hinit) hview
  cases e with
  | set path node =>
    obtain ⟨r, -, happly⟩ := Option.bind_eq_some_iff.mp hs
    exact happlied { s with repo := r } _ rfl happly
  | ackWrite writeId revert =>
    have hack : s.ackUserWriteWithWriteId P writeId revert = some s' := hs
    rw [SyncTree.ackUserWriteWithWriteId] at hack
    split at hack
    · cases hack
    · obtain ⟨t, -, hack⟩ := Option.bind_eq_some_iff.mp hack
      dsimp only at hack
      split at hack
      · exact happlied { s with repo := { s.repo with pendingWriteTree := t.2 } } _ rfl hack
      · obtain rfl := Option.some.inj hack
        exact hinit
  | serverOverwrite path newData => exact happlied s _ rfl hs
  | serverMerge path changedChildren => exact happlied s _ rfl hs
  | listenComplete path => exact happlied s _ rfl hs

/-- The answer is to a pending write. -/
def Pending (s : SyncTree κ α) : SyncEvent κ α → Prop
  | .ackWrite writeId _ => ∃ w ∈ s.repo.pendingWriteTree.allWrites, w.writeId = writeId
  | _ => True

/-- **Nothing is asserted wrongly in order.** Once the server's node of the place is known, a client
whose writes on one way are answered in their order gets through whatever comes, with writes that
are refused at any depth. -/
theorem exists_run_of_conforms (hsound : Sound s) (h : Correct Inner P s)
    (hinit : s.viewCache.cachedServerSnap.isFullyInitialized = true) {es : List (SyncEvent κ α)}
    (hes : (syncTree P).Always (fun s e => Conforms Inner s e ∧ Pending s e) s es) :
    ∃ s', (syncTree P).run s es = some s' := by
  have hstep : ∀ (s : SyncTree κ α) (e : SyncEvent κ α), (Sound s ∧ Correct Inner P s ∧
      s.viewCache.cachedServerSnap.isFullyInitialized = true) →
      Conforms Inner s e ∧ Pending s e → ∃ s', (syncTree P).step s e = some s' ∧ Sound s' ∧
        Correct Inner P s' ∧ s'.viewCache.cachedServerSnap.isFullyInitialized = true := by
    rintro s e ⟨hsound, h, hinit⟩ ⟨he, hpending⟩
    have hclean : Clean P s e := by
      cases e with
      | ackWrite writeId revert =>
        obtain ⟨w, hw, rfl⟩ := hpending
        obtain ⟨fs, hordered⟩ := h.ordered
        obtain ⟨before, after, hall⟩ := List.append_of_mem hw
        exact h.clean_ackWrite hinit (hordered.writeForId hall) he revert
      | _ => trivial
    obtain ⟨s', hs⟩ := hsound.exists_step hclean
    exact ⟨s', hs, hsound.step hs, h.step he hs, complete_of_step hinit hs⟩
  obtain ⟨s', hr, -⟩ := (syncTree P).exists_run hstep ⟨hsound, h, hinit⟩ hes
  exact ⟨s', hr⟩

end Runs

end FirebaseDatabase
