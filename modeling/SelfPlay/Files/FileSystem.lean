import SelfPlay.Files.Access

/-!
# File systems in memory

A file system is a tree of names with a working directory in it. Opening files, creating them and
making directories answer as an operating system does: the names of a path are followed one after
the other, and the first that cannot be followed decides.
-/

namespace SelfPlay

/-- What stands under a name. -/
inductive FileTree where
  | file (bytes : List UInt8)
  /-- A device that is always empty and forgets what is written to it. -/
  | null
  /-- A directory, by the names in it. -/
  | folder (entries : List (String × FileTree))
deriving Repr

namespace FileTree

/-- A directory's entries with one set, in its place or at the end. -/
def setEntry (name : String) (tree : FileTree) :
    List (String × FileTree) → List (String × FileTree)
  | [] => [(name, tree)]
  | entry :: rest =>
    if entry.1 = name then (name, tree) :: rest else entry :: setEntry name tree rest

/-- The tree with something put at a location in it. -/
def put (item : FileTree) : List String → FileTree → FileTree
  | [], _ => item
  | name :: rest, .folder entries =>
    .folder (setEntry name (put item rest ((entries.lookup name).getD (.folder []))) entries)
  | _ :: _, tree => tree

/-- What stands at a location in a tree. -/
def at? : List String → FileTree → Option FileTree
  | [], tree => some tree
  | name :: rest, .folder entries => (entries.lookup name).bind (at? rest)
  | _ :: _, _ => none

mutual

def files : FileTree → List (List String)
  | .file _ => [[]]
  | .null => []
  | .folder entries => filesIn entries

/-- The locations of the files among entries. -/
def filesIn : List (String × FileTree) → List (List String)
  | [] => []
  | (name, tree) :: rest => tree.files.map (name :: ·) ++ filesIn rest

end

end FileTree

/-- A tree of names with a working directory. -/
structure FileSystem where
  /-- The directory that everything is in. -/
  root : FileTree
  /-- The names from the root to the working directory. -/
  workingDirectory : List String
deriving Repr

namespace FileSystem

/-- A way down from the root: names with what stands under them, the last one first. -/
abbrev Trail := List (String × FileTree)

/-- A file system with an empty working directory. -/
def empty : FileSystem :=
  ⟨.folder [("dev", .folder [("null", .null)]), ("tmp", .folder [("work", .folder [])])],
    ["tmp", "work"]⟩

/-- The files in the working directory and below it, by their paths. -/
def paths (system : FileSystem) : List String :=
  ((system.root.at? system.workingDirectory).elim [] FileTree.files).map ("/".intercalate ·)

/-- What a trail leads to. -/
def endOf (system : FileSystem) : Trail → FileTree
  | [] => system.root
  | (_, tree) :: _ => tree

/-- What a name leads to in a directory. -/
def entry? (entries : List (String × FileTree)) (name : String) :
    Except FileError (Option FileTree) :=
  if Path.maxNameLength < name.utf8ByteSize then .error .nameTooLong
  else .ok (entries.lookup name)

/-- The trail after one more name. Nothing is above the root but the root. -/
def follow (system : FileSystem) (trail : Trail) (name : String) : Except FileError Trail :=
  match system.endOf trail with
  | .folder entries =>
    if name = "." then .ok trail
    else if name = ".." then .ok (trail.drop 1)
    else
      match entry? entries name with
      | .error error => .error error
      | .ok none => .error .notFound
      | .ok (some tree) => .ok ((name, tree) :: trail)
  | _ => .error .notDirectory

/-- The trail that the first names of a path lead to, from the root for an absolute path and else
from the working directory. -/
def trail (system : FileSystem) (path : String) (names : List String) : Except FileError Trail :=
  match Path.fault? path with
  | some fault => .error fault
  | none =>
    ((if Path.isAbsolute path then [] else system.workingDirectory) ++ names).foldlM
      system.follow []

/-- A name to be used in a directory. -/
structure Slot where
  location : List String
  entries : List (String × FileTree)
  name : String

/-- Where the last name of a path is to be used; that of the root is a single point. -/
def slot (system : FileSystem) (path : String) : Except FileError Slot :=
  match system.trail path (Path.names path).dropLast with
  | .error error => .error error
  | .ok trail =>
    match system.endOf trail with
    | .folder entries =>
      .ok ⟨(trail.map (·.1)).reverse, entries, (Path.names path).getLast?.getD "."⟩
    | _ => .error .notDirectory

/-- The file system with something put into a slot. -/
def fill (system : FileSystem) (slot : Slot) (item : FileTree) : FileSystem :=
  { system with root := FileTree.put item (slot.location ++ [slot.name]) system.root }

/-- Opens a file to be read. A directory can be opened but not read. -/
def read (system : FileSystem) (path : String) : Except FileError Stream :=
  match system.trail path (Path.names path) with
  | .error error => .error error
  | .ok trail =>
    match system.endOf trail with
    | .folder _ => .ok ⟨[], some .isDirectory⟩
    | .file bytes => if Path.endsInSlash path then .error .notDirectory else .ok (.ofBytes bytes)
    | .null => if Path.endsInSlash path then .error .notDirectory else .ok (.ofBytes [])

/-- The files of a file system beside a standard input. -/
def source (system : FileSystem) (codec : Codec) (input : Stream) : FileSource :=
  ⟨input, codec, system.read⟩

def isFolder (system : FileSystem) (path : String) : Bool :=
  match system.trail path (Path.names path) with
  | .error _ => false
  | .ok trail =>
    match system.endOf trail with
    | .folder _ => true
    | _ => false

def makeFolder (system : FileSystem) (path : String) : Except FileError FileSystem :=
  match system.slot path with
  | .error error => .error error
  | .ok slot =>
    if Path.isPoints slot.name then .error .alreadyExists
    else
      match entry? slot.entries slot.name with
      | .error error => .error error
      | .ok (some _) => .error .alreadyExists
      | .ok none => .ok (system.fill slot (.folder []))

/-- Makes a directory unless it is there. -/
def ensureFolder (system : FileSystem) (path : String) : Except FileError Unit × FileSystem :=
  match system.makeFolder path with
  | .ok made => (.ok (), made)
  | .error error => (if system.isFolder path then .ok () else .error error, system)

/-- Makes the directory whose path has the given pieces, from the last to the first, and those above
it that are missing. Directories that were made stay when a later one cannot be. -/
def makeFolders (system : FileSystem) : List String → Except FileError Unit × FileSystem
  | [] => (.ok (), system)
  | piece :: above =>
    if Path.isIdle piece then system.makeFolders above
    else
      let path := Path.ofReversed (piece :: above)
      match system.makeFolder path with
      | .error .notFound =>
        match system.makeFolders above with
        | (.error error, system) => (.error error, system)
        | (.ok (), system) => system.ensureFolder path
      | _ => system.ensureFolder path

/-- Creates a file with the given bytes, or empties one first. -/
def create (system : FileSystem) (path : String) (bytes : List UInt8) :
    Except FileError FileSystem :=
  match system.slot path with
  | .error error => .error error
  | .ok slot =>
    if Path.isPoints slot.name ∨ Path.endsInSlash path then .error .isDirectory
    else
      match entry? slot.entries slot.name with
      | .error error => .error error
      | .ok (some (.folder _)) => .error .isDirectory
      | .ok (some .null) => .ok system
      | .ok _ => .ok (system.fill slot (.file bytes))

/-- Creates a file, making directories above it that are missing. -/
def write (system : FileSystem) (path : String) (bytes : List UInt8) :
    Except FileError Unit × FileSystem :=
  match system.makeFolders (Path.above path) with
  | (.error error, system) => (.error error, system)
  | (.ok (), system) =>
    match system.create path bytes with
    | .error error => (.error error, system)
    | .ok system => (.ok (), system)

end FileSystem

end SelfPlay
