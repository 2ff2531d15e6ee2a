/-!
# Files

The files around a program, as a value: what each path of the working directory holds.
A path is resolved component by component, as the operating system does it, so that the
reason of a failure is the one that the system gives.
-/

namespace TinyLisp

/-- Why a file cannot be read or written. -/
inductive FileError where
  | notFound
  | isDirectory
  | notDirectory
  | nameTooLong
  /-- The bytes of the file are no UTF-8. -/
  | notText
  /-- Another reason, in the words of the system. -/
  | other (reason : String)
  deriving DecidableEq, Repr

/-- The reason in words. -/
def FileError.reason : FileError → String
  | notFound => "No such file or directory (os error 2)"
  | isDirectory => "Is a directory (os error 21)"
  | notDirectory => "Not a directory (os error 20)"
  | nameTooLong => "File name too long (os error 36)"
  | notText => "stream did not contain valid UTF-8"
  | other reason => reason

/-- What a path holds. -/
inductive FileEntry where
  | file (bytes : ByteArray)
  | directory

/-- The entries of the working directory, each under the names that lead to it. -/
structure FileTree where
  entries : List (List String × FileEntry)

namespace FileTree

/-- The longest name of a file, in bytes. -/
def longestName : Nat := 255

/-- The longest path, in bytes. -/
def longestPath : Nat := 4095

/-- The entry under a list of names.  No names lead to the working directory itself. -/
def entry? (tree : FileTree) (names : List String) : Option FileEntry :=
  if names.isEmpty then some .directory
  else (tree.entries.find? fun entry => entry.1 = names).map Prod.snd

/-- Where a walk through the tree has come to. -/
inductive Place where
  /-- The entry under these names. -/
  | inside (names : List String)
  /-- This many directories above the working directory. -/
  | above (levels : Nat)

/-- One step of a walk. -/
def walkTo (tree : FileTree) (place : Place) (name : String) : Except FileError Place :=
  match place with
  | .above levels =>
    if name = "" || name = "." then .ok (.above levels)
    else if name = ".." then .ok (.above (levels + 1))
    else if longestName < name.utf8ByteSize then .error .nameTooLong
    else .error .notFound
  | .inside names =>
    match tree.entry? names with
    | none => .error .notFound
    | some (.file _) => .error .notDirectory
    | some .directory =>
      if name = "" || name = "." then .ok (.inside names)
      else if name = ".." then .ok (if names.isEmpty then .above 1 else .inside names.dropLast)
      else if longestName < name.utf8ByteSize then .error .nameTooLong
      else .ok (.inside (names ++ [name]))

/-- The place that a path leads to.  Its last name need not be there. -/
def walk (tree : FileTree) (path : String) : Except FileError Place :=
  if path = "" then .error .notFound
  else if longestPath < path.utf8ByteSize then .error .nameTooLong
  else
    let start := if path.startsWith "/" then Place.above 0 else .inside []
    (path.splitOn "/").foldlM tree.walkTo start

/-- The text that bytes stand for. -/
def textOf (bytes : ByteArray) : Except FileError String :=
  match String.fromUTF8? bytes with
  | some text => .ok text
  | none => .error .notText

/-- The bytes of the file at a path. -/
def read (tree : FileTree) (path : String) : Except FileError ByteArray := do
  match ← tree.walk path with
  | .above _ => throw .isDirectory
  | .inside names =>
    match tree.entry? names with
    | none => throw .notFound
    | some .directory => throw .isDirectory
    | some (.file bytes) => return bytes

/-- The text of the file at a path. -/
def readText (tree : FileTree) (path : String) : Except FileError String := do
  textOf (← tree.read path)

/-- Puts a text into the file at a path, which need not be there.  A path that ends in a
slash can only be that of a directory. -/
def write (tree : FileTree) (path text : String) : Except FileError FileTree := do
  match ← tree.walk (String.ofList (path.toList.reverse.dropWhile (· = '/')).reverse) with
  | .above _ => throw .isDirectory
  | .inside names =>
    if path.endsWith "/" then throw .isDirectory
    match tree.entry? names with
    | some .directory => throw .isDirectory
    | _ =>
      let others := tree.entries.filter fun entry => entry.1 ≠ names
      return ⟨others ++ [(names, .file text.toUTF8)]⟩

/-- The names that a path is made of. -/
def namesOf (path : String) : List String :=
  (path.splitOn "/").filter fun name => name ≠ "" && name ≠ "."

/-- Adds an entry and the directories that lead to it. -/
def add (tree : FileTree) (path : String) (entry : FileEntry) : FileTree :=
  let names := namesOf path
  let parents := (List.range names.length).map fun n => (names.take n, FileEntry.directory)
  ⟨tree.entries ++ [(names, entry)] ++ parents⟩

end FileTree

end TinyLisp
