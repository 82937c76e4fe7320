import LockAudit.Text.Digit
import LockAudit.Shell.Script

/-!
# `LockAudit.Shell.Reader` — reading scripts

A script is read a line at a time, a line being all that must be read before something can run. The
reader takes characters from the front and counts lines.

## Contents
- **`Reader`** and its faults.
- **Words.** `word`, with what stands between quotes and behind a dollar sign.
- **Commands.** `list`, `pipeline`, `command`.
- **`line`**, the next line of a script.
-/

namespace LockAudit.Shell

/-- Why a script cannot be read. -/
inductive Fault
  | unterminated
  /-- A closing sign is missing. -/
  | missing (sign : String)
  | backtick
  /-- A sign or a word where none may stand. -/
  | unexpected (sign : String)
  /-- The end, where something must follow; what that is, if it is known. -/
  | ended (expected : Option String)
  | substitution
  deriving DecidableEq, Repr

/-- The words for it. -/
def Fault.message : Fault → String
  | .unterminated => "Syntax error: Unterminated quoted string"
  | .missing sign => "Syntax error: Missing '" ++ sign ++ "'"
  | .backtick => "Syntax error: EOF in backquote substitution"
  | .unexpected sign => "Syntax error: " ++ sign ++ " unexpected"
  | .ended none => "Syntax error: end of file unexpected"
  | .ended (some w) => "Syntax error: end of file unexpected (expecting \"" ++ w ++ "\")"
  | .substitution => "Bad substitution"

/-- A place in a script. -/
structure Place where
  rest : List Char
  line : Nat
  /-- The lines that have been taken out behind the end of this line. -/
  taken : Nat
  deriving Repr

/-- The start of a script. -/
def Place.start (script : List Char) : Place := ⟨script, 1, 0⟩

/-- Reads from the front. A fault comes with the place where it was found. -/
abbrev Reader := StateT Place (Except (Fault × Nat))

namespace Reader

/-- Gives up. -/
def fail {α : Type} (f : Fault) : Reader α := do throw (f, (← get).line)

/-- The next character. -/
def peek : Reader (Option Char) := do pure (← get).rest.head?

/-- Goes past some characters. -/
def skip (n : Nat) : Reader Unit :=
  modify fun p =>
    let ends := (p.rest.take n).count '\n'
    if ends = 0 then { p with rest := p.rest.drop n }
    else ⟨p.rest.drop n, p.line + ends + p.taken, 0⟩

/-- Whether the text goes on in a way. -/
def isAt (s : String) : Reader Bool := do pure (s.toList.isPrefixOf (← get).rest)

/-- Goes past a text, if it is next. -/
def accept (s : String) : Reader Bool := do
  if ← isAt s then
    skip s.length
    pure true
  else pure false

/-- The characters up to one that does not satisfy a test. -/
def span (p : Char → Bool) : Reader (List Char) := do
  let run := (← get).rest.takeWhile p
  skip run.length
  pure run

/-- The length of blanks and of joined lines at the front. -/
def blankLength : List Char → Nat
  | '\\' :: '\n' :: r => blankLength r + 2
  | c :: r => if c = ' ' ∨ c = '\t' then blankLength r + 1 else 0
  | [] => 0

/-- Goes past blanks and a comment. -/
def skipBlanks : Reader Unit := do
  skip (blankLength (← get).rest)
  if (← peek) = some '#' then
    let _ ← span (· ≠ '\n')

/-- Goes past blanks, comments and ends of lines. -/
def skipLines : Nat → Reader Unit
  | 0 => pure ()
  | n + 1 => do
    skipBlanks
    if ← accept "\n" then skipLines n

/-! ## Names and numbers -/

/-- A character that a name may begin with. -/
def startsName (c : Char) : Bool := c.isAlpha || c == '_'

/-- A character of a name. -/
def inName (c : Char) : Bool := c.isAlphanum || c == '_'

/-- Whether a text is a name. -/
def isName (s : List Char) : Bool := s.head?.any startsName && s.all inName

/-- A parameter that one sign stands for. -/
def isSpecial (c : Char) : Bool := "@*#?$!-".toList.contains c || Text.isAsciiDigit c

/-! ## Sums -/

/-- The value of a row of digits. -/
def number (ds : List Char) : Int := ds.foldl (fun n c => 10 * n + ((c.toNat : Int) - 48)) 0

mutual

/-- Reads a term: a number, a name, or a sum in parentheses. -/
def term : Nat → Reader Sum
  | 0 => fail .substitution
  | n + 1 => do
    let _ ← span (· == ' ')
    match ← peek with
    | some '(' =>
      skip 1
      let e ← sumFrom n
      let _ ← span (· == ' ')
      if !(← accept ")") then fail (.missing "))")
      pure e
    | some '-' =>
      skip 1
      pure (.binary '-' (.number 0) (← term n))
    | some c =>
      let _ ← accept "$"
      let w ← span inName
      if w.isEmpty then fail (.missing "))")
      else if Text.isAsciiDigit c then pure (.number (number w))
      else pure (.variable (String.ofList w))
    | none => fail (.missing "))")

/-- Reads products that follow a term. -/
def productFrom : Nat → Sum → Reader Sum
  | 0, e => pure e
  | n + 1, e => do
    let _ ← span (· == ' ')
    match ← peek with
    | some c =>
      if c = '*' ∨ c = '/' ∨ c = '%' then
        skip 1
        productFrom n (.binary c e (← term n))
      else pure e
    | none => pure e

/-- Reads sums that follow a product. -/
def sumRest : Nat → Sum → Reader Sum
  | 0, e => pure e
  | n + 1, e => do
    let _ ← span (· == ' ')
    match ← peek with
    | some c =>
      if c = '+' ∨ c = '-' then
        skip 1
        sumRest n (.binary c e (← productFrom n (← term n)))
      else pure e
    | none => pure e

/-- Reads a sum. -/
def sumFrom : Nat → Reader Sum
  | 0 => fail .substitution
  | n + 1 => do sumRest n (← productFrom n (← term n))

end

/-! ## Words -/

/-- Reads up to a closing parenthesis, past those that are opened before it and past quotes. -/
def enclosed : Nat → Nat → Reader (List Char)
  | 0, _ => fail .unterminated
  | n + 1, depth => do
    match ← peek with
    | none => fail (.ended (some ")"))
    | some c =>
      skip 1
      if c = ')' ∧ depth = 0 then pure []
      else if c = '\'' ∨ c = '"' then
        let s ← span (· ≠ c)
        if !(← accept (String.singleton c)) then fail .unterminated
        pure (c :: s ++ c :: (← enclosed n depth))
      else
        let depth := if c = '(' then depth + 1 else if c = ')' then depth - 1 else depth
        pure (c :: (← enclosed n depth))

/-- Reads up to a backtick; a backslash is dropped before one, before another and before `$`. -/
def backticked : Nat → Reader (List Char)
  | 0 => fail .backtick
  | n + 1 => do
    match ← peek with
    | none => fail .backtick
    | some '\x60' =>
      skip 1
      pure []
    | some '\\' =>
      skip 1
      match ← peek with
      | some c =>
        skip 1
        if c = '\x60' ∨ c = '\\' ∨ c = '$' then pure (c :: (← backticked n))
        else pure ('\\' :: c :: (← backticked n))
      | none => fail .backtick
    | some c =>
      skip 1
      pure (c :: (← backticked n))

/-- Reads what stands between braces behind a dollar sign. -/
def braced (isQuoted : Bool) : Reader Part := do
  let close : Reader Unit := do
    if !(← accept "\x7d") then
      if (← peek).isNone then fail (.missing "\x7d") else fail .substitution
  if ← accept "#" then
    let name ← span inName
    close
    return if name.isEmpty then .parameter "#" .nothing isQuoted
      else .parameter (String.ofList name) .length isQuoted
  let name ← (do
    let name ← span inName
    if !name.isEmpty then return name
    match ← peek with
    | some c =>
      if isSpecial c then
        skip 1
        pure [c]
      else fail .substitution
    | none => fail (.missing "\x7d"))
  let name := String.ofList name
  if !(← isAt ":-") && !(← isAt "-") then
    close
    return .parameter name .nothing isQuoted
  let isBlank ← accept ":"
  let _ ← accept "-"
  let word ← span (· ≠ '\x7d')
  close
  pure (.parameter name (if isBlank then .blank word else .unset word) isQuoted)

/-- Reads what a dollar sign announces. -/
def dollar (isQuoted : Bool) : Reader Part := do
  skip 1
  let fuel := (← get).rest.length + 1
  if ← accept "((" then
    let e ← sumFrom fuel
    let _ ← span (· == ' ')
    if !(← accept "))") then fail (.missing "))")
    return .sum e isQuoted
  if ← accept "(" then return .output (← enclosed fuel 0) isQuoted
  if ← accept "\x7b" then return ← braced isQuoted
  match ← peek with
  | some c =>
    if startsName c then
      pure (.parameter (String.ofList (← span inName)) .nothing isQuoted)
    else if isSpecial c then
      skip 1
      pure (.parameter (String.singleton c) .nothing isQuoted)
    else pure (.quoted ['$'])
  | none => pure (.quoted ['$'])

/-- Reads what stands between double quotes, or a text to its end in which double quotes stand for
    themselves. -/
def quotedParts (inQuotes : Bool) : Nat → Reader (List Part)
  | 0 => fail .unterminated
  | n + 1 => do
    match ← peek with
    | none => if inQuotes then fail .unterminated else pure [.quoted []]
    | some '$' =>
      let p ← dollar true
      pure (p :: (← quotedParts inQuotes n))
    | some '\x60' =>
      skip 1
      let s ← backticked ((← get).rest.length + 1)
      pure (.output s true :: (← quotedParts inQuotes n))
    | some '\\' =>
      skip 1
      match ← peek with
      | none => if inQuotes then fail .unterminated else pure [.quoted ['\\']]
      | some c =>
        skip 1
        let s :=
          if c = '\n' then []
          else if "$\\\x60".toList.contains c || (inQuotes && c == '"') then [c]
          else ['\\', c]
        pure (.quoted s :: (← quotedParts inQuotes n))
    | some c =>
      if inQuotes && c == '"' then
        skip 1
        pure [.quoted []]
      else
        let s ← span fun c => !((inQuotes && c == '"') || c == '$' || c == '\x60' || c == '\\')
        pure (.quoted s :: (← quotedParts inQuotes n))

/-- A character that ends a word. -/
def endsWord (c : Char) : Bool := " \t\n;&|<>()".toList.contains c

/-- A character that stands for itself. -/
def isOrdinary (c : Char) : Bool :=
  !(endsWord c || c == '\'' || c == '"' || c == '\\' || c == '$' || c == '\x60')

/-- Reads the parts of a word, none if there is no word. -/
def word : Nat → Reader Word
  | 0 => pure []
  | n + 1 => do
    match ← peek with
    | none => pure []
    | some c =>
      if endsWord c then pure []
      else if c = '\'' then
        skip 1
        let s ← span (· ≠ '\'')
        if !(← accept "'") then fail .unterminated
        pure (.quoted s :: (← word n))
      else if c = '"' then
        skip 1
        let parts ← quotedParts true ((← get).rest.length + 1)
        pure (parts ++ (← word n))
      else if c = '$' then
        let p ← dollar false
        pure (p :: (← word n))
      else if c = '\x60' then
        skip 1
        let s ← backticked ((← get).rest.length + 1)
        pure (.output s false :: (← word n))
      else if c = '\\' then
        skip 1
        match ← peek with
        | none => pure [.quoted ['\\']]
        | some d =>
          skip 1
          pure ((if d = '\n' then .text [] else .quoted [d]) :: (← word n))
      else
        let s ← span isOrdinary
        pure (.text s :: (← word n))

/-- Reads a word. -/
def wholeWord : Reader Word := do word ((← get).rest.length + 1)

/-! ## Simple commands -/

/-- The assignment that a word is. -/
def assignment? : Word → Option (String × Word)
  | .text s :: r =>
    let name := s.takeWhile (· ≠ '=')
    match s.drop name.length with
    | '=' :: value => if isName name then some (String.ofList name, .text value :: r) else none
    | _ => none
  | _ => none

/-- What is next, in the words of a fault. -/
def nextSign : Reader Fault := do
  match ← peek with
  | none => pure (.ended none)
  | some '\n' => pure (.unexpected "newline")
  | some c =>
    for s in ["&&", "||", ";;"] do
      if ← isAt s then return .unexpected ("\"" ++ s ++ "\"")
    pure (.unexpected ("\"" ++ String.singleton c ++ "\""))

/-- The text of a word, without its quotes; and whether it has any. -/
def bareText : Word → List Char × Bool
  | [] => ([], false)
  | .quoted s :: r => (s ++ (bareText r).1, true)
  | .text s :: r => (s ++ (bareText r).1, (bareText r).2)
  | _ :: r => bareText r

/-- The lines up to one that is a mark, the number of lines that were looked at, and what follows. Tabs
    in front of a line may be dropped. -/
def linesUpTo (mark : List Char) (dropTabs : Bool) : Nat → List Char → List Char × Nat × List Char
  | 0, s => ([], 0, s)
  | _, [] => ([], 0, [])
  | n + 1, s =>
    let whole := s.takeWhile (· ≠ '\n')
    let line := if dropTabs then whole.dropWhile (· == '\t') else whole
    let rest := s.drop whole.length
    if line = mark then ([], 1, rest.tail)
    else
      let (more, count, rest') := linesUpTo mark dropTabs n rest.tail
      (line ++ rest.take 1 ++ more, count + 1, rest')

/-- Takes a text out of the script that begins on the next line and ends at a mark. -/
def hereText (dropTabs : Bool) : Reader Word := do
  skipBlanks
  let (mark, isLiteral) := bareText (← wholeWord)
  let p ← get
  let current := p.rest.takeWhile (· ≠ '\n')
  let (text, count, rest) :=
    linesUpTo mark dropTabs (p.rest.length + 1) (p.rest.drop (current.length + 1))
  set { p with rest := current ++ '\n' :: rest, taken := p.taken + count }
  if isLiteral then pure [.quoted text]
  else
    match (quotedParts false (2 * text.length + 2)).run (Place.start text) with
    | .ok (parts, _) => pure parts
    | .error e => throw e

/-- Reads a redirection, if one is next. -/
def redirection? : Reader (Option Redirection) := do
  let before ← get
  let digits ← span Text.isAsciiDigit
  let direction : Option (Direction × Nat) ← (do
    if ← accept ">>" then pure (some (.append, 1))
    else if ← accept ">&" then pure (some (.duplicate, 1))
    else if ← accept ">|" then pure (some (.output, 1))
    else if ← accept ">" then pure (some (.output, 1))
    else if ← accept "<&" then pure (some (.duplicate, 0))
    else if ← accept "<<" then pure (some (.here, 0))
    else if ← accept "<" then pure (some (.input, 0))
    else pure none)
  match direction with
  | none =>
    set before
    pure none
  | some (d, own) =>
    let target ← (do
      if d = .here then hereText (← accept "-")
      else
        skipBlanks
        let w ← wholeWord
        if w.isEmpty then fail (← nextSign)
        pure w)
    pure (some (.mk (if digits.isEmpty then own else (number digits).toNat) d target))

/-- Reads redirections. -/
def redirections : Nat → Reader (List Redirection)
  | 0 => pure []
  | n + 1 => do
    skipBlanks
    match ← redirection? with
    | some r => pure (r :: (← redirections n))
    | none => pure []

/-- What is read of a simple command. -/
structure Simple where
  assignments : List (String × Word)
  words : List Word
  redirections : List Redirection

/-- Reads the rest of a simple command, behind its first words. -/
def simpleFrom : Nat → Simple → Reader Simple
  | 0, s => pure s
  | n + 1, s => do
    skipBlanks
    match ← redirection? with
    | some r => simpleFrom n { s with redirections := s.redirections ++ [r] }
    | none =>
      let w ← wholeWord
      if w.isEmpty then pure s
      else match (if s.words.isEmpty then assignment? w else none) with
        | some a => simpleFrom n { s with assignments := s.assignments ++ [a] }
        | none => simpleFrom n { s with words := s.words ++ [w] }

/-! ## Commands -/

/-- The words that have a meaning where a command may begin. -/
def reserved : List String :=
  ["if", "then", "else", "elif", "fi", "while", "until", "do", "done", "for", "case", "esac", "!",
    "\x7b", "\x7d"]

/-- The reserved word that is next, if one is. -/
def reserved? : Reader (Option String) := do
  skipBlanks
  let w := (← get).rest.takeWhile fun c => !endsWord c
  let w := String.ofList w
  pure (if reserved.contains w then some w else none)

/-- Goes past a reserved word that must be next. -/
def expectWord (w : String) : Reader Unit := do
  match ← reserved? with
  | some v => if v = w then skip w.length else fail (.unexpected ("\"" ++ v ++ "\""))
  | none =>
    if (← peek).isNone then fail (.ended (some w)) else fail (← nextSign)

/-- Goes past what may end a command in a list, and says whether it runs in the background. -/
def separator? (isLine : Bool) : Reader (Option Bool) := do
  skipBlanks
  if (← isAt "&&") || (← isAt ";;") then pure none
  else if ← accept "&" then pure (some true)
  else if ← accept ";" then pure (some false)
  else if isLine then pure none
  else if ← accept "\n" then pure (some false)
  else pure none

/-- Whether a list of commands is over. -/
def isOver : Reader Bool := do
  match ← reserved? with
  | some w => pure (["then", "else", "elif", "fi", "do", "done", "esac", "\x7d"].contains w)
  | none =>
    match ← peek with
    | none => pure true
    | some c => pure (c == ')' || c == '\n' || (← isAt ";;"))

/-- Reads the words that a variable goes through. -/
def eachWords : Nat → Reader (List Word)
  | 0 => pure []
  | n + 1 => do
    skipBlanks
    let w ← wholeWord
    if w.isEmpty then pure [] else pure (w :: (← eachWords n))

/-- Reads the patterns of a case and the parenthesis behind them. -/
def patternsUpTo : Nat → Reader (List Word)
  | 0 => fail (.ended none)
  | n + 1 => do
    skipBlanks
    let w ← wholeWord
    if w.isEmpty then fail (← nextSign)
    skipBlanks
    if ← accept ")" then pure [w]
    else if ← accept "|" then pure (w :: (← patternsUpTo n))
    else fail (← nextSign)

/-- The name of a command that is defined here, if one is. -/
def definedName? : Reader (Option String) := do
  let before ← get
  let name ← span inName
  skipBlanks
  if isName name then
    if ← accept "(" then
      skipBlanks
      if ← accept ")" then return some (String.ofList name)
  set before
  pure none

mutual

/-- Reads a list of commands: up to the end of the line, or up to the word or sign that ends it. -/
def list : Nat → Bool → Reader Command
  | 0, _ => fail (.ended none)
  | n + 1, isLine => do
    if !isLine then skipLines (n + 1)
    if ← isOver then return .nothing
    let c ← chain n
    match ← separator? isLine with
    | none => pure c
    | some isBackground =>
      let c := if isBackground then .background c else c
      pure (.sequence c (← list n isLine))

/-- Reads a list that must hold a command. -/
def someList : Nat → Option String → Reader Command
  | 0, _ => fail (.ended none)
  | n + 1, expected => do
    skipLines (n + 1)
    if ← isOver then
      match ← reserved? with
      | some w => fail (.unexpected ("\"" ++ w ++ "\""))
      | none => if (← peek).isNone then fail (.ended expected) else fail (← nextSign)
    list n false

/-- Reads pipelines that depend on each other. -/
def chain : Nat → Reader Command
  | 0 => fail (.ended none)
  | n + 1 => do chainRest n (← pipeline n)

/-- Reads the pipelines that follow one. -/
def chainRest : Nat → Command → Reader Command
  | 0, _ => fail (.ended none)
  | n + 1, c => do
    skipBlanks
    if ← accept "&&" then
      skipLines (n + 1)
      chainRest n (.both c (← pipeline n))
    else if ← accept "||" then
      skipLines (n + 1)
      chainRest n (.either c (← pipeline n))
    else pure c

/-- Reads a pipeline. -/
def pipeline : Nat → Reader Command
  | 0 => fail (.ended none)
  | n + 1 => do
    if (← reserved?) = some "!" then
      skip 1
      pure (.negation (← pipeline n))
    else pipelineRest n (← command n)

/-- Reads the commands that take what one writes. -/
def pipelineRest : Nat → Command → Reader Command
  | 0, _ => fail (.ended none)
  | n + 1, c => do
    skipBlanks
    if ← isAt "||" then return c
    if ← accept "|" then
      skipLines (n + 1)
      pure (.pipe c (← pipelineRest n (← command n)))
    else pure c

/-- Reads a command. -/
def command : Nat → Reader Command
  | 0 => fail (.ended none)
  | n + 1 => do
    match ← reserved? with
    | some "if" =>
      skip 2
      let c ← branch n
      compound n c
    | some "while" =>
      skip 5
      let c ← repetition n false
      compound n c
    | some "until" =>
      skip 5
      let c ← repetition n true
      compound n c
    | some "for" =>
      skip 3
      let c ← enumeration n
      compound n c
    | some "case" =>
      skip 4
      let c ← choice n
      compound n c
    | some "\x7b" =>
      skip 1
      let c ← someList n (some "\x7d")
      expectWord "\x7d"
      pure (.group c (← redirections n))
    | some w => fail (.unexpected ("\"" ++ w ++ "\""))
    | none =>
      if ← accept "(" then
        let c ← someList n (some ")")
        skipLines n
        if !(← accept ")") then
          if (← peek).isNone then fail (.ended (some ")")) else fail (← nextSign)
        pure (.apart c (← redirections n))
      else
        let line := (← get).line
        match ← definedName? with
        | some name =>
          skipLines n
          return .definition name (← command n)
        | none => pure ()
        let s ← simpleFrom (← get).rest.length ⟨[], [], []⟩
        if s.assignments.isEmpty && s.words.isEmpty && s.redirections.isEmpty then
          fail (← nextSign)
        pure (.simple line s.assignments s.words s.redirections)

/-- Reads a choice from behind its first word. -/
def choice : Nat → Reader Command
  | 0 => fail (.ended none)
  | n + 1 => do
    skipBlanks
    let w ← wholeWord
    skipLines n
    if !(← accept "in") then fail (← nextSign)
    pure (.choice w (← cases n))

/-- Reads the cases of a choice and the word behind them. -/
def cases : Nat → Reader (List (List Word × Command))
  | 0 => fail (.ended none)
  | n + 1 => do
    skipLines n
    if (← reserved?) = some "esac" then
      skip 4
      return []
    let _ ← accept "("
    let patterns ← patternsUpTo n
    let c ← list n false
    skipLines n
    if ← accept ";;" then pure ((patterns, c) :: (← cases n))
    else
      expectWord "esac"
      pure [(patterns, c)]

/-- Puts the redirections behind a command on it. -/
def compound : Nat → Command → Reader Command
  | 0, _ => fail (.ended none)
  | n + 1, c => do
    let rs ← redirections n
    pure (if rs.isEmpty then c else .group c rs)

/-- Reads a condition from behind its first word. -/
def branch : Nat → Reader Command
  | 0 => fail (.ended none)
  | n + 1 => do
    let test ← someList n (some "then")
    expectWord "then"
    let first ← someList n (some "fi")
    match ← reserved? with
    | some "elif" =>
      skip 4
      pure (.condition test first (← branch n))
    | some "else" =>
      skip 4
      let second ← someList n (some "fi")
      expectWord "fi"
      pure (.condition test first second)
    | _ =>
      expectWord "fi"
      pure (.condition test first .nothing)

/-- Reads the body of a loop. -/
def body : Nat → Reader Command
  | 0 => fail (.ended none)
  | n + 1 => do
    expectWord "do"
    let c ← someList n (some "done")
    expectWord "done"
    pure c

/-- Reads a loop from behind its first word. -/
def repetition : Nat → Bool → Reader Command
  | 0, _ => fail (.ended none)
  | n + 1, isUntil => do
    let test ← someList n (some "do")
    pure (.loop isUntil test (← body n))

/-- Reads a loop over words from behind its first word. -/
def enumeration : Nat → Reader Command
  | 0 => fail (.ended none)
  | n + 1 => do
    skipBlanks
    let name ← span inName
    if !isName name then fail (← nextSign)
    skipLines n
    let words ← (do
      if ← accept "in" then eachWords n
      else pure [[.parameter "@" .nothing true]])
    let _ ← separator? false
    skipLines n
    pure (.each (String.ofList name) words (← body n))

end

/-- Reads the next line of a script, and says whether the script is over. -/
def line : Reader (Option Command) := do
  let fuel := 8 * (← get).rest.length + 16
  skipLines fuel
  if (← peek).isNone then return none
  let c ← list fuel true
  skipBlanks
  if (← peek).isSome && !(← accept "\n") then
    match ← reserved? with
    | some w => fail (.unexpected ("\"" ++ w ++ "\""))
    | none => fail (← nextSign)
  pure (some c)

end Reader

end LockAudit.Shell
