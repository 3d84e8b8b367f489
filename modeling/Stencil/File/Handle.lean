import Stencil.File.Tree

/-!
Open files. A handle remembers the file, the position of the next byte and what
it may do. Writing puts bytes at the position, or at the end for a handle that
appends, and fills a gap before the position with zeros.
-/

namespace Stencil

structure OpenMode where
  read : Bool
  write : Bool
  append : Bool
  create : Bool
  truncate : Bool

namespace OpenMode

/-- `r`, `w` and `a`, each with an optional plus; the letter `b` changes nothing. -/
def of? (mode : String) : Option OpenMode :=
  match String.ofList (mode.toList.filter (· != 'b')) with
  | "r" => some ⟨true, false, false, false, false⟩
  | "w" => some ⟨false, true, false, true, true⟩
  | "a" => some ⟨false, true, true, true, false⟩
  | "r+" => some ⟨true, true, false, false, false⟩
  | "w+" => some ⟨true, true, false, true, true⟩
  | "a+" => some ⟨true, true, true, true, false⟩
  | _ => none

end OpenMode

structure FileHandle where
  /-- The full path of the file. -/
  file : String
  offset : Nat
  mode : OpenMode

namespace FileTree

/-- Opens the file of a path, making or emptying it as the mode says. A
directory can be opened for reading only. -/
def openFile (tree : FileTree) (path : String) (mode : OpenMode) : Option (FileHandle × FileTree) :=
  match tree.locate? path with
  | some place =>
    let file := fullPath place
    if tree.isDirectoryAt place then if mode.write then none else some (⟨file, 0, mode⟩, tree)
    else if mode.truncate then some (⟨file, 0, mode⟩, tree.put file .empty)
    else some (⟨file, 0, mode⟩, tree)
  | none =>
    if mode.create then
      (tree.placeForNew? path).map fun place =>
        (⟨fullPath place, 0, mode⟩, tree.put (fullPath place) .empty)
    else none

def contentAt (tree : FileTree) (fullPath : String) : Option ByteArray :=
  match tree.nodes.get? fullPath with
  | some (.file content) => some content
  | _ => none

def readRest (tree : FileTree) (handle : FileHandle) : Option (ByteArray × FileHandle) :=
  if handle.mode.read then
    (tree.contentAt handle.file).map fun content =>
      (content.extract handle.offset content.size,
        { handle with offset := max handle.offset content.size })
  else none

def patch (content : ByteArray) (offset : Nat) (bytes : ByteArray) : ByteArray :=
  let gap : ByteArray := ⟨Array.replicate (offset - content.size) 0⟩
  content.extract 0 offset ++ gap ++ bytes ++ content.extract (offset + bytes.size) content.size

/-- Writes at the position or at the end. Writing nothing asks nothing of the
handle. -/
def writeBytes (tree : FileTree) (handle : FileHandle) (bytes : ByteArray) :
    Option (FileHandle × FileTree) :=
  if bytes.isEmpty then some (handle, tree)
  else if handle.mode.write then
    (tree.contentAt handle.file).map fun content =>
      let offset := if handle.mode.append then content.size else handle.offset
      ({ handle with offset := offset + bytes.size },
        tree.put handle.file (patch content offset bytes))
  else none

end FileTree

end Stencil
