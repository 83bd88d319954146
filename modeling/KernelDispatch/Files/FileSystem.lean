import KernelDispatch.Files.Path

/-! A tree of directories and files, seen from a working directory. -/
namespace KernelDispatch

/-- Why a file or directory cannot be used. -/
inductive FileError where
  | missing
  | alreadyExists
  | notDirectory
  | isDirectory
  | nameTooLong
  | containsNul
  | notText
  | other (text : String)
  deriving DecidableEq, Repr

def FileError.message : FileError → String
  | .missing => "No such file or directory (os error 2)"
  | .alreadyExists => "File exists (os error 17)"
  | .notDirectory => "Not a directory (os error 20)"
  | .isDirectory => "Is a directory (os error 21)"
  | .nameTooLong => "File name too long (os error 36)"
  | .containsNul => "file name contained an unexpected NUL byte"
  | .notText => "stream did not contain valid UTF-8"
  | .other text => text

/-- What a file holds: text, or bytes that are no text. -/
inductive Content where
  | text (s : String)
  | binary (bytes : List UInt8)
  deriving DecidableEq, Repr

def Content.ofBytes (bytes : List UInt8) : Content :=
  match String.fromUTF8? ⟨bytes.toArray⟩ with
  | some s => .text s
  | none => .binary bytes

inductive FileEntry where
  | directory
  | file (content : Content)
  deriving DecidableEq, Repr

/-- The entries under the names that lead to them from the root, and the names that lead to the
working directory. -/
structure FileSystem where
  home : List String
  entries : List (List String × FileEntry)
  deriving DecidableEq, Repr

/-- What a path leads to. -/
inductive Place where
  | directory (names : List String)
  | file (names : List String) (content : Content)
  deriving DecidableEq, Repr

namespace FileSystem

def get? (fs : FileSystem) (names : List String) : Option FileEntry :=
  if names = [] then some .directory else fs.entries.lookup names

/-- Puts an entry in the place of the one under the same names. -/
def set (fs : FileSystem) (names : List String) (e : FileEntry) : FileSystem :=
  { fs with entries := (names, e) :: fs.entries.filter fun p => p.1 != names }

def texts (fs : FileSystem) : List (List String × String) :=
  fs.entries.filterMap fun (names, e) =>
    match e with
    | .file (.text s) => some (names, s)
    | _ => none

/-- Puts an entry into the directory that holds it, which is made if needed. -/
def put (fs : FileSystem) (names : List String) (e : FileEntry) : FileSystem :=
  let parents := (List.range names.length).drop 1 |>.map fun n => names.take n
  let fs := parents.foldl (fun fs p => if (fs.get? p).isSome then fs else fs.set p .directory) fs
  fs.set names e

/-- A working directory with the entries below it. -/
def ofEntries (home : List String) (entries : List (List String × FileEntry)) : FileSystem :=
  entries.foldl (fun fs (names, e) => fs.put (home ++ names) e) ((mk home []).put home .directory)

def maxNameBytes : Nat := 255

def maxPathBytes : Nat := 4095

/-- Follows segments from a directory. Only a directory has anything below it. -/
def follow (fs : FileSystem) : List String → List String → Except FileError Place
  | dir, [] => .ok (.directory dir)
  | dir, s :: rest =>
    if Path.isIdle s then fs.follow dir rest
    else if s == ".." then fs.follow dir.dropLast rest
    else if s.utf8ByteSize > maxNameBytes then .error .nameTooLong
    else
      match fs.get? (dir ++ [s]) with
      | none => .error .missing
      | some .directory => fs.follow (dir ++ [s]) rest
      | some (.file content) =>
        if rest = [] then .ok (.file (dir ++ [s]) content) else .error .notDirectory

def start (fs : FileSystem) (path : String) : List String :=
  if Path.isAbsolute path then [] else fs.home

/-- The segments of a path that names something. -/
def segments (path : String) : Except FileError (List String) :=
  if path = "" then .error .missing
  else if '\x00' ∈ path.toList then .error .containsNul
  else if path.utf8ByteSize > maxPathBytes then .error .nameTooLong
  else .ok (Path.segments path)

def locate (fs : FileSystem) (path : String) : Except FileError Place := do
  fs.follow (fs.start path) (← segments path)

def isDirectory (fs : FileSystem) (path : String) : Bool :=
  match fs.locate path with
  | .ok (.directory _) => true
  | _ => false

def readText (fs : FileSystem) (path : String) : Except FileError String := do
  match ← fs.locate path with
  | .directory _ => throw .isDirectory
  | .file _ (.binary _) => throw .notText
  | .file _ (.text s) => return s

/-- The names under which the last segment of a path is found or created. `none` stands for a path
that ends in a directory by its form. -/
def lastNames (fs : FileSystem) (path : String) : Except FileError (Option (List String)) := do
  match ((← segments path).reverse.dropWhile (· == "")) with
  | [] => return none
  | s :: before =>
    match ← fs.follow (fs.start path) before.reverse with
    | .file _ _ => throw .notDirectory
    | .directory dir => return if s == "." || s == ".." then none else some (dir ++ [s])

/-- The entry that is found under names under which one can be created. -/
def entry? (fs : FileSystem) (names : List String) : Except FileError (Option FileEntry) :=
  if names.any fun s => s.utf8ByteSize > maxNameBytes then .error .nameTooLong
  else .ok (fs.get? names)

def makeDirectory (fs : FileSystem) (path : String) : Except FileError FileSystem := do
  match ← fs.lastNames path with
  | none => throw .alreadyExists
  | some names =>
    if (← fs.entry? names).isSome then throw .alreadyExists else return fs.set names .directory

/-- Makes a directory and those above it. An existing directory is left as it is. What was made
before an error stays. -/
def makeDirectories (fs : FileSystem) (path : String) : FileSystem × Except FileError Unit :=
  go path.length fs path
where
  settle (fs : FileSystem) (path : String) (e : FileError) : FileSystem × Except FileError Unit :=
    (fs, if fs.isDirectory path then .ok () else .error e)
  go : Nat → FileSystem → String → FileSystem × Except FileError Unit
    | 0, fs, _ => (fs, .ok ())
    | fuel + 1, fs, path =>
      if path = "" then (fs, .ok ())
      else match fs.makeDirectory path, Path.parent? path with
        | .ok fs, _ => (fs, .ok ())
        | .error .missing, some above =>
          match go fuel fs above with
          | (fs, .error e) => (fs, .error e)
          | (fs, .ok ()) =>
            match fs.makeDirectory path with
            | .ok fs => (fs, .ok ())
            | .error e => settle fs path e
        | .error e, _ => settle fs path e

/-- Creates a file or replaces what it holds. A path that ends in a slash is never that of a file,
whatever is found there. -/
def writeText (fs : FileSystem) (path text : String) : Except FileError FileSystem := do
  match ← fs.lastNames path with
  | none => throw .isDirectory
  | some names =>
    if path.toList.getLast? == some '/' then throw .isDirectory
    else if (← fs.entry? names) == some .directory then throw .isDirectory
    else return fs.set names (.file (.text text))

end FileSystem
end KernelDispatch
