import Hookclose.Digest
import Hookclose.Patterns
import Mathlib.Data.List.Infix

/-!
From the output of a failure to its signature: the traceback that the output
holds, its category, and the key under which recurrences are counted. Which
characters beyond ASCII count as letters is left to the interpreter's tables.
-/
namespace Hookclose.FailureAnalyzer
open Hookclose.Patterns

/-! ### Text -/

/-- The letters, digits and underscores of `re`: the interpreter's tables, which
    agree with ASCII below 128. -/
structure WordTable where
  isWord : Char → Bool
  ascii : ∀ c, c.toNat < 128 → isWord c = (c.isAlphanum || c == '_')

/-- The table of an interpreter that knows only ASCII letters. -/
def asciiWords : WordTable := ⟨fun c => c.isAlphanum || c == '_',fun _ _ => rfl⟩

def isDecimal (c : Char) : Bool := (Text.decimal c).isSome

/-- The characters that end a line for `str.splitlines`. -/
def isLineBreak (c : Char) : Bool :=
  let n := c.toNat
  (10 ≤ n && n ≤ 13) || (28 ≤ n && n ≤ 30) || n = 0x85 || n = 0x2028 || n = 0x2029

/-- The lines of a text; `current` is what has been read of the line so far, reversed. -/
def linesFrom (current : List Char) : List Char → List (List Char)
  | [] => if current = [] then [] else [current.reverse]
  | '\r' :: '\n' :: rest => current.reverse :: linesFrom [] rest
  | c :: rest => if isLineBreak c then current.reverse :: linesFrom [] rest else linesFrom (c :: current) rest

def splitlines (text : List Char) : List (List Char) := linesFrom [] text

/-- `needle in text` on the lowered text; only ASCII letters are lowered to ASCII
    ones that the needles have. -/
def mentions (text : List Char) (needle : String) : Bool := decide (needle.toList <:+: text.map Char.toLower)

/-! ### Tracebacks -/

inductive FailureCategory
  | syntax_
  | import_
  | dependency
  | assertion
  | timeout
  | lint
  | runtime
  | unknown
  deriving DecidableEq, Repr

def FailureCategory.value : FailureCategory → String
  | .syntax_ => "syntax"
  | .import_ => "import"
  | .dependency => "dependency"
  | .assertion => "assertion"
  | .timeout => "timeout"
  | .lint => "lint"
  | .runtime => "runtime"
  | .unknown => "unknown"

/-- Categories that can be fixed mechanically without a model. -/
def FailureCategory.deterministic (category : FailureCategory) : Bool := category = .lint || category = .dependency

structure Frame where
  file : String
  line : Int
  func : String
  deriving DecidableEq, Repr

structure ParsedTraceback where
  exceptionType : String
  message : String
  frames : List Frame
  deriving DecidableEq, Repr

def ParsedTraceback.lastFrame (traceback : ParsedTraceback) : Option Frame := traceback.frames.getLast?

/-- `File "(?P<file>[^"]+)", line (?P<line>\d+), in (?P<func>\S+)` -/
def framePattern : Pattern :=
  sequence [literal "File \"",.group "file" (.many (fun c => c != '"') 1 none),literal "\", line ",
    .group "line" (.many isDecimal 1 none),literal ", in ",.group "func" (.many (fun c => !Text.isSpace c) 1 none)]

/-- `^(?P<type>[A-Za-z_][\w.]*(?:Error|Exception|Warning|Failure)): ?(?P<msg>.*)$` -/
def excPattern (table : WordTable) : Pattern :=
  sequence [.start,
    .group "type" (sequence [.one (fun c => c.isAlpha || c == '_'),.many (fun c => table.isWord c || c == '.') 0 none,
      choice (literal "Error") [literal "Exception",literal "Warning",literal "Failure"]]),
    literal ":",.many (fun c => c == ' ') 0 (some 1),.group "msg" (.many (fun c => c != '\n') 0 none),.finish]

/-- `\b0x[0-9a-fA-F]+\b|\b\d+\b` -/
def numPattern (table : WordTable) : Pattern :=
  choice
    (sequence [.boundary table.isWord,literal "0x",
      .many (fun c => c.isDigit || ('a' ≤ c && c ≤ 'f') || ('A' ≤ c && c ≤ 'F')) 1 none,.boundary table.isWord])
    [sequence [.boundary table.isWord,.many isDecimal 1 none,.boundary table.isWord]]

/-- `\b[EWFB]\d{3}\b` -/
def lintPattern (table : WordTable) : Pattern :=
  sequence [.boundary table.isWord,.one (fun c => c == 'E' || c == 'W' || c == 'F' || c == 'B'),
    .many isDecimal 3 (some 3),.boundary table.isWord]

def toFrame (found : Place) : Frame where
  file := String.ofList (found.captured "file")
  line := (Text.parseInt (String.ofList (found.captured "line"))).getD 0
  func := String.ofList (found.captured "func")

/-- `StacktraceParser.parse`: all frames, and the last line that reads as an
    exception; failing that, the last line is the message. -/
def parse (table : WordTable) (text : String) : ParsedTraceback :=
  let lines := splitlines (Text.strip text.toList)
  let frames := (findAll framePattern 0 none text.toList).map toFrame
  match lines.reverse.findSome? (fun line => matchStart (excPattern table) (Text.strip line)) with
  | some found => ⟨String.ofList (found.captured "type"),String.ofList (Text.strip (found.captured "msg")),frames⟩
  | none => ⟨"",String.ofList (lines.getLast?.getD []),frames⟩

/-! ### Signatures -/

structure FailureSignature where
  category : FailureCategory
  exceptionType : String
  location : String
  normalizedMessage : String
  deriving DecidableEq, Repr

/-- The first sixteen hexadecimal digits of a digest of the whole signature. -/
@[irreducible] def FailureSignature.key (signature : FailureSignature) : String :=
  let raw := signature.category.value ++ "|" ++ signature.exceptionType ++ "|" ++ signature.location ++ "|" ++
    signature.normalizedMessage
  String.ofList ((Digest.hexdigest (Digest.sha1 raw.toUTF8.toList)).take 16)

structure FailureAnalysis where
  signature : FailureSignature
  summary : String
  deterministicFixable : Bool
  traceback : ParsedTraceback

/-- The categories that an exception type has by name. -/
def excCategory (exceptionType : String) : Option FailureCategory :=
  if exceptionType = "SyntaxError" then some .syntax_
  else if exceptionType = "IndentationError" then some .syntax_
  else if exceptionType = "ModuleNotFoundError" then some .dependency
  else if exceptionType = "ImportError" then some .import_
  else if exceptionType = "AssertionError" then some .assertion
  else if exceptionType = "TimeoutError" then some .timeout
  else none

def categorize (table : WordTable) (traceback : ParsedTraceback) (output : String) : FailureCategory :=
  match excCategory traceback.exceptionType with
  | some category => category
  | none =>
    let text := output.toList
    if mentions text "timed out" then .timeout
    else if mentions text "assert" && mentions text "failed" then .assertion
    else if mentions text "ruff" || findAll (lintPattern table) 0 none text ≠ [] then .lint
    else if traceback.exceptionType ≠ "" then .runtime
    else .unknown

/-- `_normalize`: numbers are replaced, so that signatures are stable. -/
def normalize (table : WordTable) (message : String) : String :=
  String.ofList ((Text.strip (replaceAll (numPattern table) ['N'] 0 none message.toList)).take 160)

@[irreducible] def analyze (table : WordTable) (output : String) : FailureAnalysis :=
  let traceback := parse table output
  let category := categorize table traceback output
  let location := match traceback.lastFrame with
    | some frame => frame.file ++ ":" ++ toString frame.line
    | none => ""
  let summary := category.value ++ ": " ++ (if traceback.exceptionType = "" then "failure" else traceback.exceptionType) ++
    " " ++ traceback.message
  { signature := {
      category := category
      exceptionType := if traceback.exceptionType = "" then category.value else traceback.exceptionType
      location := location
      normalizedMessage := normalize table traceback.message }
    summary := String.ofList ((Text.strip summary.toList).take 300)
    deterministicFixable := category.deterministic
    traceback := traceback }

/-- Lint and dependency failures are those that can be fixed mechanically. -/
theorem analyze_fixable (table : WordTable) (output : String) :
    (analyze table output).deterministicFixable = true ↔ (analyze table output).signature.category = .lint ∨
      (analyze table output).signature.category = .dependency := by
  have fixable : (analyze table output).deterministicFixable =
      (analyze table output).signature.category.deterministic := by
    simp only [analyze]
  rw [fixable,FailureCategory.deterministic,Bool.or_eq_true,decide_eq_true_iff,decide_eq_true_iff]

end Hookclose.FailureAnalyzer
