import KernelDispatch.Tag

/-! What can be wrong with a configuration, and what is only worth reporting. -/
namespace KernelDispatch

/-- The sets of tags that are read from text. -/
inductive TagSort where
  | opKind
  | layout
  | dataType
  | padding
  | param
  | style
  deriving DecidableEq, Repr

/-- A configuration from which no artifact can be generated. -/
inductive ConfigError where
  /-- The text is no tag of this sort. -/
  | unknownTag (sort : TagSort) (text : String)
  /-- A level of the hierarchy or a test reads a variable without a runtime expression. -/
  | missingBinding (name : String)
  /-- Two members of a family have the same symbol. -/
  | nameCollision (symbol : String)
  /-- The hierarchy is exhausted at `path` and more than one variant is left. -/
  | unresolvedPartition (path : String) (symbols : List String)
  | repeatedLevel (param : Param)
  | paddingNotDeepest
  /-- A generic variant fixes a parameter. -/
  | constrainedGeneric (symbol : String)
  | defaultNotGeneric (symbol : String)
  /-- A generic variant other than the default. -/
  | secondGeneric (symbol default : String)
  | tooManyCoreRoutines (symbol : String) (count : Nat)
  /-- A template that must be filled has a placeholder without a value. -/
  | unboundPlaceholder (template key : String)
  deriving DecidableEq, Repr

/-- What the message on an unknown tag of each sort opens with. -/
def TagSort.complaint : TagSort → String
  | .opKind => "unknown op kind"
  | .layout => "unknown layout"
  | .dataType => "unsupported data type"
  | .padding => "unknown padding scheme"
  | .param => "unknown dispatch parameter"
  | .style => "unknown dispatch style"

def ConfigError.message : ConfigError → String
  | .unknownTag sort text => sort.complaint ++ ": " ++ text
  | .missingBinding name =>
    "wrapper hierarchy contains " ++ name ++ " but no binding was provided for it"
  | .nameCollision symbol => "naming collision: " ++ symbol ++ " is declared more than once"
  | .unresolvedPartition path symbols =>
    "hierarchy " ++ path ++ " does not separate variants: " ++ ", ".intercalate symbols
  | .repeatedLevel param => "invalid hierarchy: " ++ param.word ++ " appears twice"
  | .paddingNotDeepest => "invalid hierarchy: padding must be the deepest hierarchy level"
  | .constrainedGeneric symbol =>
    "invalid generic variant: " ++ symbol ++ " is generic but fixes parameters"
  | .defaultNotGeneric symbol =>
    "invalid generic variant: default " ++ symbol ++ " is not marked generic"
  | .secondGeneric symbol default =>
    "invalid generic variant: " ++ symbol ++ " is generic but " ++ default ++ " is the default"
  | .tooManyCoreRoutines symbol count =>
    symbol ++ " declares " ++ toString count ++ " core routines, at most 10 are supported"
  | .unboundPlaceholder template key => "template " ++ template ++ " has no value for $" ++ key

/-- Something met while generating that the reader of the artifact should know. -/
inductive Finding where
  /-- Several variants of one level put no condition on the padding: only `kept` is reached. -/
  | ambiguousPadding (path kept : String) (shadowed : List String)
  /-- A variant of a chain puts no condition at all: those after it are not reached. -/
  | unreachable (after : String) (symbols : List String)
  deriving DecidableEq, Repr

def Finding.message : Finding → String
  | .ambiguousPadding path kept shadowed =>
    "ambiguous padding branch at " ++ path ++ ": keeping " ++ kept ++ ", shadowed "
      ++ ", ".intercalate shadowed
  | .unreachable after symbols =>
    after ++ " matches unconditionally, unreachable: " ++ ", ".intercalate symbols

end KernelDispatch
