import LockAudit.Text.Digit

/-!
# `LockAudit.CommandLine.Options` — words of a command line

A word is an argument, or it names an option. An option may be named by an unambiguous beginning of
its long name, its value may follow an equals sign, and options of one letter may stand together. A
word that begins like an option but is a negative number or has a space in it is an argument, and so
is every word behind `--`.

## Contents
- **`Key`**, the options with their names.
- **Words.** `Word`, `Ambiguity`, `classify`, `classifyAll`.
-/

namespace LockAudit.CommandLine

open LockAudit.Text

/-- The options. -/
inductive Key
  | help
  | skipDev
  | devPolicy
  | command
  | url
  | workers
  | sequential
  | severity
  | jsonOutput
  | noFail
  | config
  | verbose
  | quiet
  | version
  deriving DecidableEq, Repr

/-- The options in the order in which they are listed. -/
def Key.all : List Key :=
  [.help, .skipDev, .devPolicy, .command, .url, .workers, .sequential, .severity, .jsonOutput,
    .noFail, .config, .verbose, .quiet, .version]

/-- The names of an option. -/
def Key.names : Key → List String
  | .help => ["-h", "--help"]
  | .skipDev => ["--skip-dev", "--no-skip-dev"]
  | .devPolicy => ["--dev-policy"]
  | .command => ["--yarn"]
  | .url => ["--audit-url"]
  | .workers => ["--workers"]
  | .sequential => ["--sequential"]
  | .severity => ["--severity-threshold"]
  | .jsonOutput => ["--json"]
  | .noFail => ["--no-fail"]
  | .config => ["--config"]
  | .verbose => ["-v", "--verbose"]
  | .quiet => ["-q", "--quiet"]
  | .version => ["--version"]

/-- Whether an option has a value. -/
def Key.takesValue : Key → Bool
  | .devPolicy | .command | .url | .workers | .severity | .jsonOutput | .config => true
  | _ => false

/-- All names with their options. -/
def allNames : List (String × Key) := Key.all.flatMap fun k => k.names.map fun n => (n, k)

/-- The option with a name. -/
def keyOf? (name : String) : Option Key := (allNames.find? fun p => p.1 = name).map (·.2)

/-- An option as a word names it. -/
structure Use where
  key : Key
  name : String
  /-- What follows the name in the same word. -/
  attached : Option String
  deriving DecidableEq, Repr

/-- What a word of a command line is. -/
inductive Word
  | argument (s : String)
  /-- The word behind which all words are arguments. -/
  | separator
  | option (use : Use) (s : String)
  /-- A word that looks like an option and is none. -/
  | unknown (s : String)
  deriving DecidableEq, Repr

/-- The text of a word. -/
def Word.text : Word → String
  | .argument s => s
  | .separator => "--"
  | .option _ s => s
  | .unknown s => s

/-- A word that could name several options. -/
structure Ambiguity where
  word : String
  names : List String
  deriving DecidableEq, Repr

/-- The text before the first equals sign, and the text behind it if there is one. -/
def cutEquals (s : String) : String × Option String :=
  let cs := s.toList
  (String.ofList (cs.takeWhile (· ≠ '=')),
    match cs.dropWhile (· ≠ '=') with
    | _ :: r => some (String.ofList r)
    | [] => none)

/-- Whether a text begins with another. -/
def startsWith (s start : String) : Bool := start.toList.isPrefixOf s.toList

/-- The options that a word with two hyphens in front may name by their beginning. -/
def longUses (s : String) : List Use :=
  let (start, attached) := cutEquals s
  (allNames.filter fun p => startsWith p.1 start).map fun p => ⟨p.2, p.1, attached⟩

/-- The options that a word with one hyphen in front may name: the one with the word's first letter,
    behind which the rest is attached, and those that begin like the word. -/
def shortUses (s : String) : List Use :=
  let letter := String.ofList (s.toList.take 2)
  allNames.filterMap fun p =>
    if p.1 = letter then some ⟨p.2, p.1, some (String.ofList (s.toList.drop 2))⟩
    else if startsWith p.1 s then some ⟨p.2, p.1, none⟩
    else none

/-- A row of at least one digit. -/
def isDigits (s : List Char) : Bool := !s.isEmpty && s.all isDigit

/-- Whether a word is a negative number; a line feed may end it. -/
def isNegativeNumber (s : List Char) : Bool :=
  match s with
  | '-' :: r =>
    let r := if r.getLast? = some '\n' then r.dropLast else r
    isDigits r
      || match r.dropWhile isDigit with
        | '.' :: places => isDigits places
        | _ => false
  | _ => false

/-- What a word before any `--` is. -/
def classify (s : String) : Except Ambiguity Word :=
  match s.toList with
  | '-' :: c :: _ =>
    match keyOf? s with
    | some k => .ok (.option ⟨k, s, none⟩ s)
    | none =>
      let (name, attached) := cutEquals s
      match attached.bind fun _ => keyOf? name with
      | some k => .ok (.option ⟨k, name, attached⟩ s)
      | none =>
        match if c = '-' then longUses s else shortUses s with
        | [use] => .ok (.option use s)
        | use :: uses => .error ⟨s, (use :: uses).map (·.name)⟩
        | [] =>
          if isNegativeNumber s.toList || s.toList.contains ' ' then .ok (.argument s)
          else .ok (.unknown s)
  | _ => .ok (.argument s)

/-- Classifies the words of a command line. -/
def classifyAll : List String → Except Ambiguity (List Word)
  | [] => .ok []
  | s :: r =>
    if s = "--" then .ok (.separator :: r.map .argument)
    else do
      let w ← classify s
      let ws ← classifyAll r
      pure (w :: ws)

end LockAudit.CommandLine
