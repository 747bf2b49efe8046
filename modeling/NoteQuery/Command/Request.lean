import NoteQuery.Command.Argument
import NoteQuery.Command.Basic
import NoteQuery.Number.Decimal

/-!
# Requests

The grammar of the command line. General options may stand at every level, and the one of the
deepest level counts; the others belong to one command.
-/

namespace NoteQuery

set_option autoImplicit false

inductive Argument where
  | vault (folder : String)
  | templateFolder (folder : String)
  | verbose
  | quiet
  | version
  | format (format : TableFormat)
  | inPlace
  | into (file : String)
  | line (number : Nat)
  | word (w : String)
  deriving DecidableEq

namespace Argument

def single? : Argument → Option String
  | vault _ => some "vault"
  | templateFolder _ => some "template folder"
  | quiet => some "quiet"
  | version => some "version"
  | format _ => some "format"
  | inPlace => some "in place"
  | into _ => some "into"
  | line _ => some "line"
  | verbose => none
  | word _ => none

def vault? : Argument → Option String
  | vault folder => some folder
  | _ => none

def templateFolder? : Argument → Option String
  | templateFolder folder => some folder
  | _ => none

def format? : Argument → Option TableFormat
  | format f => some f
  | _ => none

def into? : Argument → Option String
  | into file => some file
  | _ => none

def line? : Argument → Option Nat
  | line n => some n
  | _ => none

def word? : Argument → Option String
  | word w => some w
  | _ => none

def path? (s : String) : Option String := if s.isEmpty then none else some s

def formatOf? (s : String) : Option TableFormat :=
  if s = "markdown" then some .markdown else if s = "json" then some .json else none

/-- The number of a line: digits, with a plus sign if one likes, of a number below 2^64. -/
def lineNumber? (s : String) : Option Nat :=
  let digits := match s.toList with
    | '+' :: r => r
    | r => r
  if digits.isEmpty || !digits.all Decimal.isDigit || Nat.pow 2 64 ≤ Decimal.ofDigits digits then none
  else some (Decimal.ofDigits digits)

def general : List (String × Meaning Argument) := [
  ("vault", .valued fun s => (path? s).map vault),
  ("template-dir", .valued fun s => some (templateFolder s)),
  ("verbose", .plain verbose),
  ("quiet", .plain quiet)]

def level (own : List (String × Meaning Argument)) (ownLetters : List (Char × Argument))
    (word : Option (String → Argument)) : Level Argument where
  named := general ++ own
  lettered := [('v', verbose), ('q', quiet)] ++ ownLetters
  word := word
  isFinal a := a == version

def outerLevel : Level Argument := level [("version", .plain version)] [('V', version)] none

def templateLevel : Level Argument := level [] [] none

def queryLevel : Level Argument :=
  level [("format", .valued fun s => (formatOf? s).map format)] [] (some word)

def renderLevel : Level Argument := level [("in-place", .plain inPlace)] [] (some word)

def listLevel : Level Argument := level [] [] (some word)

def applyLevel : Level Argument :=
  level [("into", .valued fun s => (path? s).map into),
    ("line", .valued fun s => (lineNumber? s).map line)] [] (some word)

/-- Whether arguments can stand at one level: no single one twice, and no silence with more to tell. -/
def agree (as : List Argument) : Bool :=
  (as.filterMap single?).Nodup && (as.contains version || !(as.contains verbose && as.contains quiet))

def read? (l : Level Argument) (ws : List String) : Option (List Argument × List String) :=
  (l.arguments? ws).filter fun (as, _) => agree as

end Argument

namespace Command

def ofQuery? (as : List Argument) : Option Command :=
  let format := (as.findSome? Argument.format?).getD .markdown
  match as.filterMap Argument.word? with
  | [] => some (.query "-" format)
  | [file] => some (.query file format)
  | _ => none

def ofRender? (as : List Argument) : Option Command :=
  match as.filterMap Argument.word? with
  | [file] => (Argument.path? file).map fun file => .render file (as.contains .inPlace)
  | _ => none

def ofList? (as : List Argument) : Option Command :=
  if as.any (·.word?.isSome) then none else some .templates

def ofApply? (as : List Argument) : Option Command :=
  match as.filterMap Argument.word?, as.findSome? Argument.into?, as.findSome? Argument.line? with
  | [template], none, none => some (.apply template)
  | [template], some file, line => some (.insert template file line)
  | _, _, _ => none

end Command

inductive Request where
  | version
  | invoke (i : Invocation)
  deriving DecidableEq

namespace Request

/-- The last argument of a kind counts. -/
def invocation (as : List Argument) (c : Command) : Invocation where
  vault := (as.reverse.findSome? Argument.vault?).getD "."
  templateFolder := as.reverse.findSome? Argument.templateFolder?
  command := c

/-- Reads the level of a command behind the arguments of the levels above. -/
def ofLevel? (above : List Argument) (l : Level Argument) (command? : List Argument → Option Command)
    (ws : List String) : Option Request := do
  let (as, _) ← Argument.read? l ws
  return .invoke (invocation (above ++ as) (← command? as))

def ofTemplateLevel? (above : List Argument) (ws : List String) : Option Request := do
  let (as, rest) ← Argument.read? Argument.templateLevel ws
  match rest with
  | "list" :: ws => ofLevel? (above ++ as) Argument.listLevel Command.ofList? ws
  | "apply" :: ws => ofLevel? (above ++ as) Argument.applyLevel Command.ofApply? ws
  | _ => none

/-- The request of a command line, if it is well formed and no request for help or for the
completions of a shell: their texts are not modelled. -/
def ofWords? (ws : List String) : Option Request := do
  let (as, rest) ← Argument.read? Argument.outerLevel ws
  if as.contains .version then return .version
  match rest with
  | "query" :: ws => ofLevel? as Argument.queryLevel Command.ofQuery? ws
  | "q" :: ws => ofLevel? as Argument.queryLevel Command.ofQuery? ws
  | "render" :: ws => ofLevel? as Argument.renderLevel Command.ofRender? ws
  | "template" :: ws => ofTemplateLevel? as ws
  | _ => none

end Request

end NoteQuery
