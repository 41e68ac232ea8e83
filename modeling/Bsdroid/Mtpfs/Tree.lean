import Bsdroid.PtpProto.Container
import Mathlib.Logic.Function.Basic

/-!
# The map from a path to an object handle

The tree holds the listings the host read, and answers which handle a path
names, or which folder the caller must read before the tree can tell.  It never
reads from a device.  A listing stays until the caller forgets it.
-/

namespace Bsdroid

/-- The handle of the root folder. -/
def root : UInt32 := 0

/-- One object of a device. -/
structure Entry where
  handle : UInt32
  parent : UInt32
  name : Str
  isDir : Bool
  size : Nat
deriving DecidableEq, Repr

/-- What a caller must do to answer a question about a path. -/
inductive Lookup where
  | found (handle : UInt32)
  | needListing (folder : UInt32)
  | notFound
deriving DecidableEq, Repr

/-- The tree of objects, and the listings the host already read. -/
structure Tree where
  entries : UInt32 → Option Entry
  childrenOf : UInt32 → Option (List UInt32)
  listed : UInt32 → Bool

/-- The largest depth the tree walks. -/
def maxDepth : Nat := 256

/-- Splits a path into parts, and drops an empty part and a part that is `.`. -/
def splitPath (path : Str) : List Str :=
  (path.splitOn '/').filter fun p => p ≠ [] ∧ p ≠ ['.']

namespace Tree

/-- Makes an empty tree. -/
def new : Tree := ⟨fun _ => none, fun _ => none, fun _ => false⟩

/-- Tells you if the host already read a folder. -/
def isListed (t : Tree) (parent : UInt32) : Bool := t.listed parent

/-- Records the objects a folder holds. -/
def setChildren (t : Tree) (parent : UInt32) (entries : List Entry) : Tree where
  entries := entries.foldl (fun m e => Function.update m e.handle (some e)) t.entries
  childrenOf := Function.update t.childrenOf parent (some (entries.map Entry.handle))
  listed := Function.update t.listed parent true

/-- Gives one object. -/
def get (t : Tree) (handle : UInt32) : Option Entry := t.entries handle

/-- Gives the objects a folder holds, when the host read the folder. -/
def children (t : Tree) (parent : UInt32) : Option (List Entry) :=
  if t.listed parent then (t.childrenOf parent).map fun hs => hs.filterMap t.entries
  else none

/-- Finds a child of a folder by name. -/
def childrenNamed (t : Tree) (parent : UInt32) (name : Str) : Option Entry :=
  match t.childrenOf parent with
  | none => none
  | some handles => (handles.filterMap t.entries).find? fun e => e.name = name

/-- Walks the parts of a path from a folder. -/
def lookupFrom (t : Tree) : UInt32 → List Str → Lookup
  | current, [] => .found current
  | current, part :: rest =>
      if t.listed current then
        match t.childrenNamed current part with
        | some e => t.lookupFrom e.handle rest
        | none => .notFound
      else .needListing current

/-- Finds the handle a path names. -/
def lookup (t : Tree) (path : Str) : Lookup := t.lookupFrom root (splitPath path)

/-- Walks from an object to the root, and collects the names on the way. -/
def pathFrom (t : Tree) : Nat → UInt32 → List Str → Option (List Str)
  | 0, _, _ => none
  | depth + 1, current, parts =>
      if current = root then some parts
      else
        match t.entries current with
        | none => none
        | some e => t.pathFrom depth e.parent (e.name :: parts)

/-- Builds the path of an object. -/
def pathOf (t : Tree) (handle : UInt32) : Option Str :=
  if handle = root then some ['/']
  else (t.pathFrom maxDepth handle []).map fun parts => parts.flatMap fun p => '/' :: p

/-- Forgets a listing, and keeps the objects. -/
def forgetListing (t : Tree) (parent : UInt32) : Tree :=
  { t with
    childrenOf := Function.update t.childrenOf parent none
    listed := Function.update t.listed parent false }

end Tree

end Bsdroid
