/-! Paths as they are written: nothing is normalized. -/
namespace KernelDispatch.Path

/-- The segments of a text between slashes. -/
def splitSlashes : List Char → List (List Char)
  | [] => [[]]
  | '/' :: rest => [] :: splitSlashes rest
  | c :: rest =>
    match splitSlashes rest with
    | [] => [[c]]
    | s :: ss => (c :: s) :: ss

def segments (path : String) : List String := (splitSlashes path.toList).map String.ofList

def isAbsolute (path : String) : Bool := path.toList.head? == some '/'

/-- A path relative to a directory. An absolute path stands for itself. -/
def join (dir path : String) : String :=
  if isAbsolute path || dir == "" then path
  else if dir.toList.getLast? == some '/' then dir ++ path
  else dir ++ "/" ++ path

/-- Segments that name nothing. -/
def isIdle (segment : String) : Bool := segment == "" || segment == "."

def dropIdleEnd (segments : List String) : List String :=
  (segments.reverse.dropWhile isIdle).reverse

/-- The directory that holds the last named segment of a path. Neither the root nor the empty path
has one. A dot at the start of a path is named. -/
def parent? (path : String) : Option String :=
  let below (lead : String) (body : List String) (text : List String → String) : Option String :=
    match dropIdleEnd body with
    | [] => if lead == "." then some "" else none
    | named => some (text (dropIdleEnd named.dropLast))
  match segments path with
  | "" :: body => below "/" body fun kept => "/" ++ "/".intercalate kept
  | "." :: body => below "." body fun kept => "/".intercalate ("." :: kept)
  | body => below "" body fun kept => "/".intercalate kept

example : parent? "m.json" = some "" := by decide +kernel
example : parent? "./m.json" = some "." := by decide +kernel
example : parent? "d//m.json" = some "d" := by decide +kernel
example : parent? "d/./m.json" = some "d" := by decide +kernel
example : parent? "//m" = some "/" := by decide +kernel
example : parent? "." = some "" := by decide +kernel
example : parent? "/" = none := by decide +kernel
example : parent? "./../x/./y.c" = some "./../x" := by decide +kernel

end KernelDispatch.Path
