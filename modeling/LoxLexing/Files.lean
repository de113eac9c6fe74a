/-!
# Files

A tree of files, as far as a program that only reads can see it: bytes, directories and links, each at a **place**,
which the names that lead there from the root tell. A path is followed name by name, from the root if it begins with a
slash, and from the working directory if it does not. Going on from a place asks that the place be a directory, and
where a link stands, what it says is followed first. A name that is not there, a file where a directory is needed, and
a directory where a file is needed are three different failures.

A file is text if its bytes are the UTF-8 form of a text, and then it is that text; nothing is dropped or replaced, a
byte order mark included.
-/

namespace LoxLexing

/-! ## Failures of reading -/

/-- Why a path cannot be read as text. -/
inductive ReadFailure where
  | notFound
  /-- The path goes on below a file. -/
  | notADirectory
  | isADirectory
  /-- More links are on the way than the system follows. -/
  | tooManyLinks
  /-- The path holds the character that ends every path for the operating system. -/
  | nulInPath
  | pathTooLong
  /-- The bytes are not the UTF-8 form of any text. -/
  | notText
  /-- Any other refusal of the operating system, in its own words. -/
  | system (message : String)
deriving DecidableEq, Repr

/-- The wording of a failure. -/
def ReadFailure.message : ReadFailure → String
  | notFound => "No such file or directory (os error 2)"
  | notADirectory => "Not a directory (os error 20)"
  | isADirectory => "Is a directory (os error 21)"
  | tooManyLinks => "Too many levels of symbolic links (os error 40)"
  | nulInPath => "file name contained an unexpected NUL byte"
  | pathTooLong => "File name too long (os error 36)"
  | notText => "stream did not contain valid UTF-8"
  | system message => message

/-- A way to read paths as text. -/
abbrev TextReader := String → Except ReadFailure String

/-- The text that some bytes are the UTF-8 form of. -/
def decodeText (bytes : ByteArray) : Except ReadFailure String :=
  match String.fromUTF8? bytes with
  | some text => .ok text
  | none => .error .notText

/-! ## Places -/

/-- The names that lead to a place from the root. -/
abbrev Place := List String

/-- The place that a name leads to from a directory. The root lies in itself. -/
def Place.toward (place : Place) (name : String) : Place :=
  if name = "" ∨ name = "." then place
  else if name = ".." then place.dropLast
  else place ++ [name]

/-- Where a path begins that is followed from a directory, and the names to follow. The empty path begins nowhere. -/
def pathNames? (here : Place) (path : String) : Option (Place × List String) :=
  if path = "" then none
  else
    match path.toList.splitOn '/' with
    | [] :: names => some ([], names.map String.ofList)
    | names => some (here, names.map String.ofList)

/-! ## Trees of files -/

/-- What stands at a place. -/
inductive FileEntry where
  | file (bytes : ByteArray)
  | directory
  /-- A link that says another path, to be followed from the directory which the link is in. -/
  | link (target : String)
  /-- Something that the operating system neither reads nor enters, for reasons of its own. -/
  | refused (message : String)

/-- All that can be reached in a system of files. -/
structure FileTree where
  /-- What stands at a place, if anything does. -/
  entryAt? : Place → Option FileEntry
  /-- Where paths are followed from that do not begin at the root. -/
  workingDirectory : Place
  /-- How many links are followed for one path. -/
  linkLimit : Nat
  /-- How many bytes a path may have. -/
  pathLimit : Nat

namespace FileTree

/-- Follows names as long as they go through directories. Gives the place that is reached, and the names that are left
there. -/
def advance (tree : FileTree) (place : Place) : List String → Place × List String
  | [] => (place, [])
  | name :: names =>
    match tree.entryAt? place with
    | some .directory => tree.advance (place.toward name) names
    | _ => (place, name :: names)

/-- The bytes of the file that names lead to from a place, over some links at most. -/
def readFrom (tree : FileTree) (links : Nat) (place : Place) (names : List String) :
    Except ReadFailure ByteArray :=
  let (place, names) := tree.advance place names
  match tree.entryAt? place with
  | none => .error .notFound
  | some (.refused message) => .error (.system message)
  | some (.file bytes) => if names = [] then .ok bytes else .error .notADirectory
  | some .directory => .error .isADirectory
  | some (.link target) =>
    match links with
    | 0 => .error .tooManyLinks
    | links + 1 =>
      match pathNames? place.dropLast target with
      | none => .error .notFound
      | some (start, more) => tree.readFrom links start (more ++ names)

/-- The bytes of the file that a path leads to. -/
def read (tree : FileTree) (path : String) : Except ReadFailure ByteArray :=
  if '\x00' ∈ path.toList then .error .nulInPath
  else if tree.pathLimit < path.utf8ByteSize then .error .pathTooLong
  else
    match pathNames? tree.workingDirectory path with
    | none => .error .notFound
    | some (start, names) => tree.readFrom tree.linkLimit start names

/-- Reads the text of the file that a path leads to. -/
def readText (tree : FileTree) : TextReader := fun path => do
  decodeText (← tree.read path)

/-- The tree of entries that are given by paths, which are followed from a directory in the root. A directory with
something in it need not be listed. -/
def ofPaths (entries : List (String × FileEntry)) : FileTree :=
  let workingDirectory : Place := ["work"]
  let listed : List (Place × FileEntry) := entries.filterMap fun (path, entry) =>
    (pathNames? workingDirectory path).map fun (start, names) => (names.foldl Place.toward start, entry)
  { entryAt? := fun place =>
      match listed.find? (·.1 == place) with
      | some (_, entry) => some entry
      | none =>
        if place.isPrefixOf workingDirectory || listed.any (place.isPrefixOf ·.1) then some .directory else none
    workingDirectory
    linkLimit := 40
    pathLimit := 4095 }

end FileTree

end LoxLexing
