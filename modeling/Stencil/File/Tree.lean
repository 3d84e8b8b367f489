import Stencil.Dict
import Stencil.File.Path
import Stencil.Text.Utf8

/-!
Files and directories as a value. A node is known by its full path, the names
from the root with a slash before each; the root itself is always there and has
the empty path. A path in a program is looked up name by name from the root or
from the working directory, and everything it passes through must be a
directory. Open files are handles with a position that moves as they are read
and written.
-/

namespace Stencil

inductive FileNode
  | directory
  | file (content : ByteArray)

structure FileTree where
  /-- The names of the working directory, the innermost first. -/
  workingDir : List String
  nodes : Dict FileNode

namespace FileTree

def fullPath (place : List String) : String :=
  String.join (place.reverse.map ("/" ++ ·))

def node? (tree : FileTree) (place : List String) : Option FileNode :=
  if place.isEmpty then some .directory else tree.nodes.get? (fullPath place)

def isDirectoryAt (tree : FileTree) (place : List String) : Bool :=
  match tree.node? place with
  | some .directory => true
  | _ => false

def walk (tree : FileTree) (place : List String) : List String → Option (List String)
  | [] => some place
  | name :: rest =>
    if !tree.isDirectoryAt place then none
    else if name = "" || name = "." then tree.walk place rest
    else if name = ".." then tree.walk place.tail rest
    else if (tree.node? (name :: place)).isSome then tree.walk (name :: place) rest
    else none

def isUsable (path : String) : Bool :=
  !path.isEmpty && !path.contains '\x00' && path.utf8ByteSize < 4096

def startOf (tree : FileTree) (path : String) : List String :=
  if Path.isAbsolute path then [] else tree.workingDir

def locate? (tree : FileTree) (path : String) : Option (List String) :=
  if isUsable path then tree.walk (tree.startOf path) (Path.names path) else none

def isFileName (name : String) : Bool :=
  name ≠ "" && name ≠ "." && name ≠ ".." && name.utf8ByteSize ≤ 255

/-- The place of a file that is about to be made: its directory must exist. -/
def placeForNew? (tree : FileTree) (path : String) : Option (List String) :=
  if !isUsable path then none
  else match (Path.names path).reverse with
    | [] => none
    | name :: before =>
      match tree.walk (tree.startOf path) before.reverse with
      | some place =>
        if isFileName name && tree.isDirectoryAt place then some (name :: place) else none
      | none => none

def isDirectory (tree : FileTree) (path : String) : Bool :=
  match tree.locate? path with
  | some place => tree.isDirectoryAt place
  | none => false

def content? (tree : FileTree) (path : String) : Option ByteArray :=
  match (tree.locate? path).bind tree.node? with
  | some (.file content) => some content
  | _ => none

def isFile (tree : FileTree) (path : String) : Bool := (tree.content? path).isSome

def readText? (tree : FileTree) (path : String) : Option String :=
  (tree.content? path).bind Text.ofUtf8?

def canonical? (tree : FileTree) (path : String) : Option String :=
  (tree.locate? path).map fullPath

def put (tree : FileTree) (fullPath : String) (content : ByteArray) : FileTree :=
  { tree with nodes := tree.nodes.insert fullPath (.file content) }

def makeDirectoriesFrom (tree : FileTree) (place : List String) : List String → Option FileTree
  | [] => if tree.isDirectoryAt place then some tree else none
  | name :: rest =>
    if !tree.isDirectoryAt place then none
    else if name = "" || name = "." then tree.makeDirectoriesFrom place rest
    else if name = ".." then tree.makeDirectoriesFrom place.tail rest
    else
      let inner := name :: place
      match tree.node? inner with
      | some _ => tree.makeDirectoriesFrom inner rest
      | none =>
        let grown := { tree with nodes := tree.nodes.insert (fullPath inner) .directory }
        grown.makeDirectoriesFrom inner rest

def makeDirectories (tree : FileTree) (path : String) : Option FileTree :=
  if isUsable path then tree.makeDirectoriesFrom (tree.startOf path) (Path.names path) else none

def overwrite (tree : FileTree) (path : String) (content : ByteArray) : Option FileTree :=
  match tree.locate? path with
  | some place => if tree.isDirectoryAt place then none else some (tree.put (fullPath place) content)
  | none => (tree.placeForNew? path).map fun place => tree.put (fullPath place) content

def agreesOn (tree : FileTree) (fullPath : String) (node : FileNode) : Bool :=
  match tree.nodes.get? fullPath, node with
  | some .directory, .directory => true
  | some (.file old), .file content => old == content
  | _, _ => false

def changes (before after : FileTree) : List (String × FileNode) :=
  after.nodes.toList.filter fun (path, node) => !before.agreesOn path node

/-- A full path as it is seen from the working directory, if it lies below it. -/
def relative? (tree : FileTree) (path : String) : Option String :=
  let start := (fullPath tree.workingDir ++ "/").toList
  if start.isPrefixOf path.toList then some (String.ofList (path.toList.drop start.length))
  else none

end FileTree

end Stencil
