/-!
# Diagnostics

What loading and translating report without stopping: a list of entries, oldest
first, each with a severity, a category and the name of what it is about.
-/

namespace Assemblage

inductive Severity where
  | info | warning | error
deriving DecidableEq, Inhabited

def Severity.text : Severity → String
  | info => "INFO"
  | warning => "WARN"
  | error => "ERROR"

inductive Category where
  | assembly | symbols | type | member | method | proxy | declaration | general
deriving DecidableEq, Inhabited

namespace Category

def all : List Category :=
  [assembly, symbols, type, member, method, proxy, declaration, general]

def text : Category → String
  | assembly => "Assembly"
  | symbols => "Symbols"
  | type => "Type"
  | member => "Member"
  | method => "Method"
  | proxy => "Proxy"
  | declaration => "Declaration"
  | general => "General"

end Category

structure Diagnostic where
  severity : Severity
  category : Category
  message : String
  /-- Name of the type, member or assembly it is about. -/
  subject : Option String := none
deriving DecidableEq, Inhabited

def Diagnostic.text (diagnostic : Diagnostic) : String :=
  "[" ++ diagnostic.severity.text ++ "] " ++ diagnostic.category.text ++ ": " ++
    diagnostic.message ++ (diagnostic.subject.map fun subject => " (" ++ subject ++ ")").getD ""

structure Diagnostics where
  entries : List Diagnostic := []
deriving DecidableEq, Inhabited

namespace Diagnostics

def push (diagnostics : Diagnostics) (entry : Diagnostic) : Diagnostics :=
  ⟨diagnostics.entries ++ [entry]⟩

def size (diagnostics : Diagnostics) : Nat :=
  diagnostics.entries.length

def isEmpty (diagnostics : Diagnostics) : Bool :=
  diagnostics.entries.isEmpty

def ofSeverity (diagnostics : Diagnostics) (severity : Severity) : List Diagnostic :=
  diagnostics.entries.filter (·.severity == severity)

def ofCategory (diagnostics : Diagnostics) (category : Category) : List Diagnostic :=
  diagnostics.entries.filter (·.category == category)

def has (diagnostics : Diagnostics) (severity : Severity) : Bool :=
  diagnostics.entries.any (·.severity == severity)

def texts (diagnostics : Diagnostics) : List String :=
  diagnostics.entries.map Diagnostic.text

/-- A headed paragraph of entries, nothing where there are none. -/
def paragraph (heading : String) (entries : List Diagnostic) : String :=
  if entries.isEmpty then ""
  else "\n" ++ heading ++ ":\n" ++ String.join (entries.map fun entry => "  " ++ entry.text ++ "\n")

/-- The numbers of entries, then the errors, then the warnings. -/
def summary (diagnostics : Diagnostics) : String :=
  let errors := diagnostics.ofSeverity .error
  let warnings := diagnostics.ofSeverity .warning
  let infos := diagnostics.ofSeverity .info
  "Diagnostics: " ++ toString errors.length ++ " error(s), " ++ toString warnings.length ++
    " warning(s), " ++ toString infos.length ++ " info(s)\n" ++
    paragraph "Errors" errors ++ paragraph "Warnings" warnings

end Diagnostics

end Assemblage
