import KernelDispatch.Artifact.Body
import KernelDispatch.Artifact.Family
import KernelDispatch.Plan.Dispatch
import KernelDispatch.Template

/-! The text of sources and headers. -/
namespace KernelDispatch

/-- The text of an artifact and what was found while it was generated. -/
structure Rendered where
  text : String
  findings : List Finding
  deriving DecidableEq, Repr

def statusType : String := "mli_status"

def nameType : String := "char *"

def wrapperType (diagnostic : Bool) : String := if diagnostic then nameType else statusType

/-- The notice that names the templates of an artifact. -/
def banner (templates : List String) : String :=
  "/* This file is generated, do not edit!\n"
    ++ (if templates.length > 1 then " * edit following template files instead:\n"
      else " * edit following template file instead:\n")
    ++ .join (templates.map fun name => " * " ++ name ++ "\n") ++ " */\n"

/-- The function that dispatches to the variants of a family, or its diagnostic twin. -/
def wrapperText (default : Variant) (declarations : String) (p : Plan) (diagnostic : Bool) :
    String :=
  (default.wrapper diagnostic).prototype (wrapperType diagnostic) ++ " \x7b\n" ++ declarations
    ++ "\n" ++ p.code diagnostic ++ "\x7d\n"

def renderWrappers (d : Dispatch) (f : Family) : Reported ConfigError Rendered := do
  let p ← d.plan f.variants f.default
  let declarations ← d.declarations p
  let wrapper := wrapperText f.default declarations p
  return ⟨wrapper false ++ wrapper true, p.findings⟩

def functionText (body : Template) (v : Variant) : String :=
  v.prototype statusType ++ " \x7b\n" ++ body.fill v.bodyValues ++ "\n"

/-- What a source file is made from, besides the family and its dispatch. -/
structure SourceParts where
  body : Template
  file : Template
  includes : List String
  defines : List String
  deriving DecidableEq, Repr

/-- A source file: the functions of all members and the two wrappers. -/
def renderSource (d : Dispatch) (f : Family) (parts : SourceParts) :
    Reported ConfigError Rendered := do
  f.requireConsistent
  Reported.report .trace
    ("rendering " ++ (f.default.wrapper false).symbol ++ " with " ++ toString f.variants.length
      ++ " variants (" ++ d.style.word ++ " dispatch)")
  let wrappers ← renderWrappers d f
  f.members.forM fun v => Reported.report .detail ("body " ++ v.symbol)
  let text ← parts.file.fillAll (.ofList
    [("extra_includes", .join (parts.includes.map fun name => "#include \"" ++ name ++ "\"\n")),
      ("extra_defines", .join (parts.defines.map fun line => line ++ "\n")),
      ("functions", .join (f.members.map (functionText parts.body))),
      ("wrapper", wrappers.text)])
  return ⟨banner [parts.file.name, parts.body.name] ++ text, wrappers.findings⟩

/-- The declaration of the function of a member. A blank line follows a long one. -/
def memberDeclaration (v : Variant) : String :=
  let line := v.prototype statusType ++ ";\n"
  if line.utf8ByteSize > maxLineBytes then line ++ "\n" else line

def familyDeclarations (f : Family) : String :=
  .join ([false, true].map fun diagnostic =>
    (f.default.wrapper diagnostic).prototype (wrapperType diagnostic) ++ ";\n")
    ++ "\n" ++ .join (f.members.map memberDeclaration)

/-- A header that declares the functions of some families. -/
def renderHeader (families : List Family) (header : Template) (group guard : String) :
    Except ConfigError Rendered := do
  families.forM Family.requireConsistent
  let text ← header.fillAll (.ofList
    [("capital_file_name", guard), ("func_group", group),
      ("functions", .join (families.map familyDeclarations))])
  return ⟨banner [header.name] ++ text, []⟩

end KernelDispatch
