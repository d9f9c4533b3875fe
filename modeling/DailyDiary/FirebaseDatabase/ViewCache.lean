/-
`FViewCache` and `FWriteTreeRef`: what a view of a place keeps, and what it asks the write
tree of the place.

A view keeps the server's node and the node it shows, each with the flag that it is
complete. The flag is not set before the server has sent the node of the place; until then
single children may be known. Filters and priorities are left out.
-/
import DailyDiary.FirebaseDatabase.WriteTree
import DailyDiary.FirebaseDatabase.ChildChanges

set_option autoImplicit false

namespace FirebaseDatabase

variable {κ α : Type} [LinearOrder κ]

/-- `FCacheNode` -/
structure CacheNode (κ α : Type) [LinearOrder κ] where
  node : Node κ α
  isFullyInitialized : Bool

namespace CacheNode

/-- `isCompleteForChild:` -/
def isCompleteForChild (c : CacheNode κ α) (childKey : κ) : Bool :=
  c.isFullyInitialized || c.node.hasChild childKey

/-- `isCompleteForPath:` -/
def isCompleteForPath (c : CacheNode κ α) (path : List κ) : Bool :=
  match path with
  | [] => c.isFullyInitialized
  | childKey :: _ => c.isCompleteForChild childKey

variable {c : CacheNode κ α}

theorem isCompleteForChild_of_complete (h : c.isFullyInitialized = true) (k : κ) :
    c.isCompleteForChild k = true := by
  rw [isCompleteForChild, h, Bool.true_or]

theorem isCompleteForPath_of_complete (h : c.isFullyInitialized = true) (p : List κ) :
    c.isCompleteForPath p = true := by
  cases p with
  | nil => exact h
  | cons k p => exact isCompleteForChild_of_complete h k

end CacheNode

/-- `FViewCache` -/
structure ViewCache (κ α : Type) [LinearOrder κ] where
  cachedEventSnap : CacheNode κ α
  cachedServerSnap : CacheNode κ α

namespace ViewCache

/-- `completeServerSnap` -/
def completeServerSnap (v : ViewCache κ α) : Option (Node κ α) :=
  if v.cachedServerSnap.isFullyInitialized then some v.cachedServerSnap.node else none

/-- `updateEventSnap:isComplete:` -/
def updateEventSnap (v : ViewCache κ α) (eventSnap : Node κ α) (complete : Bool) : ViewCache κ α :=
  { v with cachedEventSnap := ⟨eventSnap, complete⟩ }

/-- `updateServerSnap:isComplete:` -/
def updateServerSnap (v : ViewCache κ α) (serverSnap : Node κ α) (complete : Bool) :
    ViewCache κ α :=
  { v with cachedServerSnap := ⟨serverSnap, complete⟩ }

@[simp] theorem cachedEventSnap_updateServerSnap (v : ViewCache κ α) (s : Node κ α) (b : Bool) :
    (v.updateServerSnap s b).cachedEventSnap = v.cachedEventSnap := rfl

@[simp] theorem cachedServerSnap_updateServerSnap (v : ViewCache κ α) (s : Node κ α) (b : Bool) :
    (v.updateServerSnap s b).cachedServerSnap = ⟨s, b⟩ := rfl

@[simp] theorem cachedEventSnap_updateEventSnap (v : ViewCache κ α) (s : Node κ α) (b : Bool) :
    (v.updateEventSnap s b).cachedEventSnap = ⟨s, b⟩ := rfl

@[simp] theorem cachedServerSnap_updateEventSnap (v : ViewCache κ α) (s : Node κ α) (b : Bool) :
    (v.updateEventSnap s b).cachedServerSnap = v.cachedServerSnap := rfl

end ViewCache

/-- `completeChildren`: the children that are written as a whole. -/
def CompoundWrite.completeChildren (w : CompoundWrite κ α) : List (κ × Node κ α) :=
  match w.writeTree.value with
  | some node => node.childNames.map fun key => (key, node.getImmediateChild key)
  | none => w.writeTree.children.filterMap fun c => c.2.value.map fun node => (c.1, node)

namespace WriteTree

/-- `calculateCompleteEventChildrenAtPath:` -/
def calculateCompleteEventChildrenAtPath (t : WriteTree κ α) (treePath : List κ)
    (completeServerChildren : Node κ α) : Node κ α :=
  match t.visibleWrites.completeNodeAtPath treePath with
  | some topLevelSet =>
    if topLevelSet.isLeafNode then Node.empty
    else topLevelSet.childNames.foldl (fun completeChildren key =>
      completeChildren.updateImmediateChild key (topLevelSet.getImmediateChild key)) Node.empty
  | none =>
    let merge := t.visibleWrites.childCompoundWriteAtPath treePath
    let completeChildren := completeServerChildren.childNames.foldl (fun completeChildren key =>
      let childMerge := merge.childCompoundWriteAtPath [key]
      completeChildren.updateImmediateChild key
        (childMerge.applyToNode (completeServerChildren.getImmediateChild key))) Node.empty
    merge.completeChildren.foldl (fun completeChildren c =>
      completeChildren.updateImmediateChild c.1 c.2) completeChildren

/-- `calculateCompleteChildAtPath:` -/
def calculateCompleteChildAtPath (t : WriteTree κ α) (treePath : List κ) (childKey : κ)
    (existingServerCache : CacheNode κ α) : Option (Node κ α) :=
  let path := treePath ++ [childKey]
  match t.visibleWrites.completeNodeAtPath path with
  | some shadowingNode => some shadowingNode
  | none =>
    if existingServerCache.isCompleteForChild childKey then
      let childMerge := t.visibleWrites.childCompoundWriteAtPath path
      some (childMerge.applyToNode (existingServerCache.node.getImmediateChild childKey))
    else none

end WriteTree

/-- `FWriteTreeRef` -/
structure WriteTreeRef (κ α : Type) [LinearOrder κ] where
  path : List κ
  writeTree : WriteTree κ α

namespace WriteTreeRef

variable (writes : WriteTreeRef κ α)

def calculateCompleteEventCacheWithCompleteServerCache (completeServerCache : Option (Node κ α)) :
    Option (Node κ α) :=
  writes.writeTree.calculateCompleteEventCacheAtPath writes.path completeServerCache

def calculateCompleteEventChildrenWithCompleteServerChildren (completeServerChildren : Node κ α) :
    Node κ α :=
  writes.writeTree.calculateCompleteEventChildrenAtPath writes.path completeServerChildren

/-- The node of the server is there. -/
def calculateEventCacheAfterServerOverwriteWithChildPath (childPath : List κ)
    (existingServerSnap : Node κ α) : Option (Node κ α) :=
  writes.writeTree.calculateEventCacheAfterServerOverwriteAtPath writes.path childPath
    existingServerSnap

def shadowingWriteAtPath (path : List κ) : Option (Node κ α) :=
  writes.writeTree.visibleWrites.completeNodeAtPath (writes.path ++ path)

def calculateCompleteChild (childKey : κ) (existingServerCache : CacheNode κ α) :
    Option (Node κ α) :=
  writes.writeTree.calculateCompleteChildAtPath writes.path childKey existingServerCache

/-- What is shown of the place when the server has the node, which is one of everything. -/
def shown (n : Node κ α) : Node κ α :=
  (writes.writeTree.visibleWrites.applyToNode n).getChild writes.path

variable {writes} {n : Node κ α} {p : List κ}

theorem calculateCompleteEventCacheWithCompleteServerCache_getChild :
    writes.calculateCompleteEventCacheWithCompleteServerCache (some (n.getChild writes.path)) =
      some (writes.shown n) :=
  writes.writeTree.calculateCompleteEventCacheAtPath_getChild writes.path n

/-- What is shadowed does not depend on the server. -/
theorem getChild_shown_of_shadowing {m : Node κ α} (h : writes.shadowingWriteAtPath p = some m)
    (n : Node κ α) : (writes.shown n).getChild p = m := by
  rw [shown, ← Node.getChild_append]
  exact CompoundWrite.getChild_applyToNode_of_some h n

/-- A child that the server has sent is known with the writes. -/
theorem calculateCompleteChild_eq {c : CacheNode κ α} {k : κ}
    (hcomplete : c.isCompleteForChild k = true)
    (hc : c.node.getImmediateChild k = (n.getChild writes.path).getImmediateChild k) :
    writes.calculateCompleteChild k c = some ((writes.shown n).getImmediateChild k) := by
  have hchild : ∀ m : Node κ α, (m.getChild writes.path).getImmediateChild k =
      m.getChild (writes.path ++ [k]) := by
    intro m
    rw [Node.getChild_append, Node.getChild_cons, Node.getChild_nil]
  rw [calculateCompleteChild, WriteTree.calculateCompleteChildAtPath, shown, hchild]
  cases hshadow :
      writes.writeTree.visibleWrites.completeNodeAtPath (writes.path ++ [k]) with
  | some m => exact congrArg some (CompoundWrite.getChild_applyToNode_of_some hshadow n).symm
  | none =>
    dsimp only
    rw [if_pos hcomplete, hc, hchild, CompoundWrite.applyToNode_childCompoundWriteAtPath]

end WriteTreeRef

end FirebaseDatabase
