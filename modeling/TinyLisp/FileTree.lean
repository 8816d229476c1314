import TinyLisp.Text.Blank

/-!
# Paths and file trees

There are three groups.

* `Path`: a path as its root and its parts, without empty parts and single
  dots.  `Path.ofText` reads a path and `Path.text` writes it.
* `FileTree`: the files and directories below the current directory.
* `FileTree.find`: what a path leads to.  Of the directories above the current
  one only their being there is known.
-/

namespace TinyLisp

/-- Where a path starts, and the names along it. -/
structure Path where
  /-- The slashes in front of an absolute path; nothing for a relative one. -/
  root : String
  parts : List String
deriving DecidableEq, Repr

namespace Path

/-- The root of a path: two slashes are another root than one, and three or
more are the same as one. -/
def rootOf (text : List Char) : String :=
  match text with
  | '/' :: '/' :: '/' :: _ => "/"
  | '/' :: '/' :: _ => "//"
  | '/' :: _ => "/"
  | _ => ""

/-- The names between the slashes of a text, empty ones too. -/
def namesOf (text : List Char) : List String :=
  (text.splitOn '/').map String.ofList

/-- Reads a path. -/
def ofText (text : String) : Path :=
  ⟨rootOf text.toList, (namesOf text.toList).filter fun name => name ≠ "" ∧ name ≠ "."⟩

/-- Writes a path. -/
def text (path : Path) : String :=
  if path.parts.isEmpty then (if path.root = "" then "." else path.root)
  else path.root ++ "/".intercalate path.parts

/-- The path of an entry of a directory. -/
def entry (path : Path) (name : String) : Path :=
  { path with parts := path.parts ++ [name] }

end Path

/-- Files with their contents, and directories that need not hold any. -/
structure FileTree where
  files : List (List String × String)
  directories : List (List String)

/-- What a path leads to. -/
inductive Found where
  | file (contents : String)
  /-- A directory with the names of its entries. -/
  | directory (entries : List String)
  | nothing
deriving DecidableEq, Repr

namespace FileTree

/-- All places that hold something, with every directory on the way. -/
def places (tree : FileTree) : List (List String) :=
  tree.files.map (·.1) ++ tree.directories

/-- Whether a place is a directory. -/
def isDirectory (tree : FileTree) (place : List String) : Bool :=
  place.isEmpty || tree.directories.contains place ||
    tree.places.any fun other => place.isPrefixOf other && place.length < other.length

/-- The names in a directory, in order and once each. -/
def entries (tree : FileTree) (place : List String) : List String :=
  let names := tree.places.filterMap fun other =>
    if place.isPrefixOf other then other[place.length]? else none
  names.eraseDups.mergeSort fun a b => decide (a ≤ b)

/-- A place below the current directory, or some directory above it. -/
inductive Location where
  | below (place : List String)
  | above
deriving DecidableEq, Repr

/-- Where a path starts: the root is a directory above the current one. -/
def Location.start (path : Path) : Location :=
  if path.root = "" then below [] else above

/-- Follows one part of a path. -/
def follow (tree : FileTree) : Location → String → Option Location
  | .above, part => if part = ".." then some .above else none
  | .below place, part =>
    if !tree.isDirectory place then none
    else if part ≠ ".." then some (.below (place ++ [part]))
    else if place.isEmpty then some .above
    else some (.below place.dropLast)

/-- What a path leads to. -/
def find (tree : FileTree) (path : Path) : Found :=
  match path.parts.foldlM tree.follow (.start path) with
  | none => .nothing
  | some .above => .directory []
  | some (.below place) =>
    if tree.isDirectory place then .directory (tree.entries place)
    else
      match tree.files.lookup place with
      | some contents => .file contents
      | none => .nothing

end FileTree

end TinyLisp
