import HbbCommon.Files.FileSys

/-!
# Trees with symbolic links

A file system as the tree that it is: an entry stands at the place that the names of the
directories above it and its own name make. A path is resolved component by component, and a
link on the way is followed; the last component is followed or not, by the call. Only a file,
a link and an empty directory are removed. No other process is at work.
-/

namespace HbbCommon.Files

open HbbCommon.Base

abbrev Name := List UInt8

/-- The names from the root of the file system down. -/
abbrev Place := List Name

/-- A name in a directory. -/
structure IsName (n : Name) : Prop where
  ne_nil : n ≠ []
  separator_notMem : Path.separator ∉ n
  ne_dot : n ≠ Path.dot
  ne_dotDot : n ≠ Path.dotDot

instance (n : Name) : Decidable (IsName n) :=
  decidable_of_iff (n ≠ [] ∧ Path.separator ∉ n ∧ n ≠ Path.dot ∧ n ≠ Path.dotDot)
    ⟨fun h => ⟨h.1, h.2.1, h.2.2.1, h.2.2.2⟩,
      fun h => ⟨h.ne_nil, h.separator_notMem, h.ne_dot, h.ne_dotDot⟩⟩

/-- What stands at a place, with what `symlink_metadata` says of it. -/
inductive Inode
  | file (m : Metadata)
  | dir (m : Metadata)
  | link (target : Path) (m : Metadata)
  deriving DecidableEq, Repr

namespace Inode

def metadata : Inode → Metadata
  | .file m => m
  | .dir m => m
  | .link _ m => m

def isFile : Inode → Bool
  | .file _ => true
  | _ => false

def isDir : Inode → Bool
  | .dir _ => true
  | _ => false

def isLink : Inode → Bool
  | .link _ _ => true
  | _ => false

end Inode

structure LinkTree where
  node : Place → Option Inode
  /-- the names in a directory, in the order in which it is read -/
  list : Place → List Name
  /-- the working directory -/
  cwd : Place
  /-- how deep the tree is -/
  depth : Nat
  root_dir : (node []).any Inode.isDir
  parent_dir : ∀ a n, (node (a ++ [n])).isSome → (node a).any Inode.isDir
  mem_list : ∀ a n, n ∈ list a ↔ (node (a ++ [n])).isSome
  nodup_list : ∀ a, (list a).Nodup
  isName : ∀ a n, (node (a ++ [n])).isSome → IsName n
  length_le : ∀ a, (node a).isSome → a.length ≤ depth

namespace LinkTree

def fileAt (t : LinkTree) (a : Place) : Prop := (t.node a).any Inode.isFile

def dirAt (t : LinkTree) (a : Place) : Prop := (t.node a).any Inode.isDir

def linkAt (t : LinkTree) (a : Place) : Prop := (t.node a).any Inode.isLink

instance (t : LinkTree) (a : Place) : Decidable (t.fileAt a) := inferInstanceAs (Decidable (_ = _))

instance (t : LinkTree) (a : Place) : Decidable (t.dirAt a) := inferInstanceAs (Decidable (_ = _))

instance (t : LinkTree) (a : Place) : Decidable (t.linkAt a) := inferInstanceAs (Decidable (_ = _))

/-- The place that components lead to from a place, every link followed; so many links may
stand on the way. -/
def walk (t : LinkTree) (links : Nat) (at_ : Place) (components : List Component) :
    Option Place :=
  match components with
  | [] => some at_
  | .rootDir :: rest => t.walk links [] rest
  | .curDir :: rest => t.walk links at_ rest
  | .parentDir :: rest => t.walk links at_.dropLast rest
  | .normal n :: rest =>
      match t.node (at_ ++ [n]) with
      | none => none
      | some (.dir _) => t.walk links (at_ ++ [n]) rest
      | some (.file _) => if rest = [] then some (at_ ++ [n]) else none
      | some (.link target _) =>
          match links with
          | 0 => none
          | links + 1 => t.walk links at_ (target.components ++ rest)
termination_by (links, components.length)

/-- The links that may stand on the way of a path. -/
def maxLinks : Nat := 40

/-- Where a path leads. -/
def resolve (t : LinkTree) (p : Path) : Option Place :=
  if p = [] then none else t.walk maxLinks t.cwd p.components

/-- Where a path leads when a link at its end is not followed. -/
def resolveParent (t : LinkTree) (p : Path) : Option Place :=
  match p.components.getLast? with
  | some (.normal n) => (t.walk maxLinks t.cwd p.components.dropLast).map (· ++ [n])
  | _ => t.resolve p

/-! ## Calls -/

def isDir (t : LinkTree) (p : Path) : Bool := ((t.resolve p).bind t.node).any Inode.isDir

def isFile (t : LinkTree) (p : Path) : Bool := ((t.resolve p).bind t.node).any Inode.isFile

def metadata (t : LinkTree) (p : Path) : Option Metadata :=
  ((t.resolve p).bind t.node).map Inode.metadata

def symlinkMetadata (t : LinkTree) (p : Path) : Option Inode := (t.resolveParent p).bind t.node

/-- `read_dir`, as the names of the entries. -/
def readDir (t : LinkTree) (p : Path) : Option (List Name) :=
  match t.resolve p with
  | none => none
  | some a => if t.dirAt a then some (t.list a) else none

/-- The tree without an entry that nothing stands in. -/
def without (t : LinkTree) (b : Place) (hb : b ≠ []) (h : t.list b = []) : LinkTree where
  node := Function.update t.node b none
  list a := (t.list a).filter (fun n => a ++ [n] ≠ b)
  cwd := t.cwd
  depth := t.depth
  root_dir := by
    rw [Function.update_of_ne hb.symm]
    exact t.root_dir
  parent_dir a n ha := by
    have hkept : a ++ [n] ≠ b := by
      rintro rfl
      rw [Function.update_self] at ha
      cases ha
    rw [Function.update_of_ne hkept] at ha
    have hparent : a ≠ b := by
      rintro rfl
      have hmem := (t.mem_list _ n).mpr ha
      rw [h] at hmem
      cases hmem
    rw [Function.update_of_ne hparent]
    exact t.parent_dir a n ha
  mem_list a n := by
    rw [List.mem_filter, t.mem_list]
    by_cases heq : a ++ [n] = b
    · simp [heq]
    · rw [Function.update_of_ne heq]
      simp [heq]
  nodup_list a := (t.nodup_list a).filter _
  isName a n ha := by
    refine t.isName a n ?_
    by_cases heq : a ++ [n] = b
    · rw [heq, Function.update_self] at ha
      cases ha
    · rwa [Function.update_of_ne heq] at ha
  length_le a ha := by
    refine t.length_le a ?_
    by_cases heq : a = b
    · rw [heq, Function.update_self] at ha
      cases ha
    · rwa [Function.update_of_ne heq] at ha

/-- The tree with nothing below its root. -/
def empty : LinkTree where
  node a := if a = [] then some (.dir { modified := 0, len := 0 }) else none
  list _ := []
  cwd := []
  depth := 0
  root_dir := rfl
  parent_dir a n h := by simp at h
  mem_list a n := by simp
  nodup_list _ := List.nodup_nil
  isName a n h := by simp at h
  length_le a h := by
    by_cases ha : a = []
    · rw [ha]
      exact Nat.le_refl 0
    · rw [if_neg ha] at h
      cases h

/-- The tree with one entry more. -/
def add (t : LinkTree) (a : Place) (n : Name) (inode : Inode) (ha : t.dirAt a) (hn : IsName n)
    (hfree : t.node (a ++ [n]) = none) : LinkTree where
  node := Function.update t.node (a ++ [n]) (some inode)
  list := Function.update t.list a (t.list a ++ [n])
  cwd := t.cwd
  depth := max t.depth (a.length + 1)
  root_dir := by
    rw [Function.update_of_ne (by simp)]
    exact t.root_dir
  parent_dir b m hb := by
    by_cases hnew : b ++ [m] = a ++ [n]
    · rw [(List.append_inj' hnew rfl).1, Function.update_of_ne (by simp)]
      exact ha
    · rw [Function.update_of_ne hnew] at hb
      have hparent : b ≠ a ++ [n] := by
        rintro rfl
        have hdir := t.parent_dir _ m hb
        rw [hfree] at hdir
        cases hdir
      rw [Function.update_of_ne hparent]
      exact t.parent_dir b m hb
  mem_list b m := by
    by_cases hb : b = a
    · subst hb
      rw [Function.update_self, List.mem_append, t.mem_list, List.mem_singleton]
      by_cases hm : m = n
      · simp [hm]
      · rw [Function.update_of_ne (by simpa using hm)]
        simp [hm]
    · have hne : b ++ [m] ≠ a ++ [n] := fun heq => hb (List.append_inj' heq rfl).1
      rw [Function.update_of_ne hb, Function.update_of_ne hne]
      exact t.mem_list b m
  nodup_list b := by
    by_cases hb : b = a
    · have hnew : n ∉ t.list a := by
        rw [t.mem_list, hfree]
        simp
      rw [hb, Function.update_self, List.nodup_append]
      refine ⟨t.nodup_list a, List.nodup_singleton n, fun m hm m' hm' heq => ?_⟩
      rw [List.mem_singleton.mp hm'] at heq
      exact hnew (heq ▸ hm)
    · rw [Function.update_of_ne hb]
      exact t.nodup_list b
  isName b m hb := by
    by_cases hnew : b ++ [m] = a ++ [n]
    · rw [List.singleton_inj.mp (List.append_inj' hnew rfl).2]
      exact hn
    · rw [Function.update_of_ne hnew] at hb
      exact t.isName b m hb
  length_le b hb := by
    by_cases hnew : b = a ++ [n]
    · rw [hnew, List.length_append, List.length_singleton]
      exact le_max_right _ _
    · rw [Function.update_of_ne hnew] at hb
      exact (t.length_le b hb).trans (le_max_left _ _)

/-- The tree without the entry of a path, when the system lets it be removed. -/
def remove (t : LinkTree) (p : Path) (removable : Inode → Bool) : Option LinkTree :=
  match t.resolveParent p with
  | none => none
  | some b =>
      if h : b ≠ [] ∧ t.list b = [] ∧ (t.node b).any removable then
        some (t.without b h.1 h.2.1)
      else none

/-- `remove_file`: a file or a link. -/
def removeFile (t : LinkTree) (p : Path) : Option LinkTree := t.remove p (fun node => !node.isDir)

/-- `remove_dir`: a directory with nothing in it, by its own name. -/
def removeDir (t : LinkTree) (p : Path) : Option LinkTree :=
  match p.components.getLast? with
  | some (.normal _) => t.remove p Inode.isDir
  | _ => none

end LinkTree

end HbbCommon.Files
