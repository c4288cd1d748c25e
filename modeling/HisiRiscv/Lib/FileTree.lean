/-
HisiRiscv.Lib.FileTree — trees of files and directories, copied and written.

A tree says what is at each path. `copyTree` puts a tree in the place of whatever was at a
path (`below_graft_self`) and changes nothing at a path that is neither above nor below it
(`graft_apart`, `below_graft_apart`). It fails where a file stands in the way.
-/
import Mathlib.Data.List.Infix
import Mathlib.Logic.Function.Basic

namespace HisiRiscv.FileTree

inductive Node (γ : Type*) where
  | directory
  | file (content : γ)

abbrev Tree (κ γ : Type*) : Type _ := List κ → Option (Node γ)

variable {κ γ : Type*} [DecidableEq κ]

def emptyDirectory : Tree κ γ := fun path => if path = [] then some .directory else none

def present (tree : Tree κ γ) (path : List κ) : Bool := (tree path).isSome

def isFile (tree : Tree κ γ) (path : List κ) : Bool :=
  match tree path with
  | some (.file _) => true
  | _ => false

def isDirectory (tree : Tree κ γ) (path : List κ) : Bool :=
  match tree path with
  | some .directory => true
  | _ => false

/-- What is at a path and below it. -/
def below (dir : List κ) (tree : Tree κ γ) : Tree κ γ := fun path => tree (dir ++ path)

/-- There is a file at the path or above it. -/
def blocked (tree : Tree κ γ) (path : List κ) : Bool := path.inits.any (isFile tree)

/-- `source` in the place of what was at `dir`, in a directory. -/
def graft (source : Tree κ γ) (dir : List κ) (tree : Tree κ γ) : Tree κ γ := fun path =>
  if dir <+: path then source (path.drop dir.length)
  else if path <+: dir then some .directory
  else tree path

/-- Removes what is at `dir` and copies `source` there. -/
def copyTree (source : Tree κ γ) (dir : List κ) (tree : Tree κ γ) : Option (Tree κ γ) :=
  if isDirectory source [] ∧ ¬ blocked tree dir then some (graft source dir tree) else none

/-- Writes a file in a directory. -/
def writeFile (path : List κ) (content : γ) (tree : Tree κ γ) : Option (Tree κ γ) :=
  if isDirectory tree path.dropLast ∧ ¬ isDirectory tree path then
    some (Function.update tree path (some (.file content)))
  else none

variable {source tree : Tree κ γ} {dir path other : List κ} {content : γ}

theorem copyTree_eq_some (hsource : isDirectory source [] = true)
    (hclear : ∀ above, above <+: dir → isFile tree above = false) :
    copyTree source dir tree = some (graft source dir tree) := by
  have hblocked : ¬ blocked tree dir = true := by
    rw [blocked, List.any_eq_true]
    rintro ⟨above, habove, hfile⟩
    rw [hclear above ((List.mem_inits _ _).mp habove)] at hfile
    cases hfile
  rw [copyTree, if_pos ⟨hsource, hblocked⟩]

theorem eq_graft_of_copyTree {tree' : Tree κ γ} (h : copyTree source dir tree = some tree') :
    tree' = graft source dir tree := by
  obtain ⟨-, heq⟩ := Option.ite_none_right_eq_some.mp h
  exact (Option.some.inj heq).symm

theorem eq_update_of_writeFile {tree' : Tree κ γ} (h : writeFile path content tree = some tree') :
    tree' = Function.update tree path (some (.file content)) := by
  obtain ⟨-, heq⟩ := Option.ite_none_right_eq_some.mp h
  exact (Option.some.inj heq).symm

theorem below_graft_self : below dir (graft source dir tree) = source := by
  funext path
  rw [below, graft, if_pos (List.prefix_append dir path), List.drop_left]

theorem graft_apart (h : ¬ dir <+: path) (h' : ¬ path <+: dir) :
    graft source dir tree path = tree path := by
  rw [graft, if_neg h, if_neg h']

theorem graft_above (h : ¬ dir <+: path) (h' : path <+: dir) :
    graft source dir tree path = some .directory := by
  rw [graft, if_neg h, if_pos h']

/-- What is neither above nor below the copy stays. -/
theorem below_graft_apart (h : ¬ dir <+: other) (h' : ¬ other <+: dir) :
    below other (graft source dir tree) = below other tree := by
  funext path
  rw [below, below]
  apply graft_apart
  · intro hdir
    obtain hle | hle := List.prefix_or_prefix_of_prefix hdir (List.prefix_append other path)
    · exact h hle
    · exact h' hle
  · intro hdir
    exact h' ((List.prefix_append other path).trans hdir)

theorem graft_root (h : dir ≠ []) : graft source dir tree [] = some .directory :=
  graft_above (by simpa using h) List.nil_prefix

theorem writeFile_eq_some (hparent : tree path.dropLast = some .directory)
    (h : isDirectory tree path = false) :
    writeFile path content tree = some (Function.update tree path (some (.file content))) := by
  rw [writeFile, if_pos ⟨by rw [isDirectory, hparent], by simp [h]⟩]

theorem below_update (h : ¬ dir <+: path) (node : Option (Node γ)) :
    below dir (Function.update tree path node) = below dir tree := by
  funext rest
  rw [below, below, Function.update_of_ne]
  rintro rfl
  exact h (List.prefix_append dir rest)

end HisiRiscv.FileTree
