import CatScript.Command.Input
import CatScript.Scope

/-! # Folders

A folder is known by the files in it.  A path is followed from the folder one name at a time, and
`read` gives the text of the file it leads to, or says why there is none.  No path leads on from a
file. -/
set_option autoImplicit false
namespace CatScript

structure Folder where
  files : Scope String

/-- Where a path has led to: a folder around this one, of which nothing else is known, this folder,
or a file. -/
inductive Folder.Position where
  | around | inside
  | file (text : String)

namespace Folder

def maxName : Nat := 255

def maxPath : Nat := 4095

def enter (folder : Folder) (position : Position) (name : String) :
    Except ReadProblem Position :=
  match position with
  | .file _ => .error .notDirectory
  | .around | .inside =>
    if name = "" ∨ name = "." then .ok position
    else if name = ".." then .ok .around
    else if maxName < name.utf8ByteSize then .error .nameTooLong
    else
      match position, folder.files.find? name with
      | .inside, some text => .ok (.file text)
      | _, _ => .error .missing

def read (folder : Folder) (path : String) : Except ReadProblem String := do
  if path = "" then throw .missing
  if maxPath < path.utf8ByteSize then throw .nameTooLong
  let start : Position := if path.toList.head? = some '/' then .around else .inside
  match ← (path.splitOn "/").foldlM folder.enter start with
  | .file text => return text
  | .around | .inside => throw .isDirectory

end Folder
end CatScript
