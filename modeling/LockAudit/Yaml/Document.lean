import LockAudit.Yaml.Node
import LockAudit.Yaml.Token

/-!
# `LockAudit.Yaml.Document` — reading a document

Nodes are read from tokens. A node may have a name, its anchor, and later nodes may be an alias of it,
also nodes within it. A text holds one document, with directives in front of it or without.

## Contents
- **`Reader`**, a step that takes tokens and keeps the anchors.
- **Properties.** `properties`, with handles for the tags.
- **Nodes.** `node` and the entries of the four kinds of collections.
- **`parse`**, the value of a text.
-/

namespace LockAudit.Yaml

/-- What is still to be read, and the nodes that have a name. -/
structure Reading.State where
  tokens : List Token
  anchors : List (String × Node)

/-- A step of reading. -/
abbrev Reader := StateT Reading.State (Except Fault)

namespace Reader

/-- The next token. -/
def peek : Reader (Option Token) := do pure (← get).tokens.head?

/-- Goes past a token. -/
def skip : Reader Unit := modify fun s => { s with tokens := s.tokens.tail }

/-- Goes past a token, if it is next, and says whether it was. -/
def accept (t : Token) : Reader Bool := do
  if (← peek) = some t then
    skip
    pure true
  else pure false

/-- Goes past a token that must be next. -/
def expect (t : Token) : Reader Unit := do
  if !(← accept t) then throw .misplaced

/-- Whether one of some tokens is next. -/
def isAt (ts : List Token) : Reader Bool := do
  match ← peek with
  | some t => pure (ts.contains t)
  | none => pure false

/-- Gives a node a name. -/
def bindName (name : String) (n : Node) : Reader Unit :=
  modify fun s => { s with anchors := (name, n) :: s.anchors }

/-- The node with a name. -/
def named (name : String) : Reader Node := do
  match (← get).anchors.lookup name with
  | some n => pure n
  | none => throw .anchor

/-! ## Properties -/

/-- What handles stand for. -/
abbrev Handles := List (String × String)

/-- The handles that need no directive. -/
def standardHandles : Handles := [("!", "!"), ("!!", Tag.language)]

/-- The full name of a tag. -/
def fullTag (handles : Handles) (t : TagText) : Reader String :=
  match t.handle with
  | none => pure t.suffix
  | some h =>
    match handles.lookup h with
    | some beginning => pure (beginning ++ t.suffix)
    | none => throw .property

/-- The anchor and the tag of a node. -/
structure Properties where
  anchor : Option String
  tag : Option String

/-- The anchor and the tag of a node, in either order. -/
def properties (handles : Handles) : Reader Properties := do
  match ← peek with
  | some (.anchor a) =>
    skip
    match ← peek with
    | some (.tag t) =>
      skip
      pure ⟨some a, some (← fullTag handles t)⟩
    | _ => pure ⟨some a, none⟩
  | some (.tag t) =>
    skip
    let t ← fullTag handles t
    match ← peek with
    | some (.anchor a) =>
      skip
      pure ⟨some a, some t⟩
    | _ => pure ⟨none, some t⟩
  | _ => pure ⟨none, none⟩

/-! ## Nodes -/

/-- Where a node stands. -/
inductive Place
  | flow
  | block
  /-- As a key or a value in a block, where a sequence need not be indented. -/
  | entry
  deriving DecidableEq, Repr

/-- What a node turns out to be, before its properties are put on it. -/
inductive Content
  | scalar (text : String) (isPlain : Bool)
  | sequence (items : List Node)
  | mapping (entries : List (Node × Node))

/-- The node with a content. -/
def Content.node (tag : Option String) : Content → Except Fault Node
  | .scalar s isPlain => .ok (.ofScalar tag isPlain s)
  | .sequence items => .ok (.ofItems tag items)
  | .mapping entries => Node.ofEntries tag entries

mutual

/-- Reads a node. The bound is on the depth of the reading. -/
def node (handles : Handles) : Nat → Place → Reader Node
  | 0, _ => throw .misplaced
  | n + 1, place => do
    match ← peek with
    | some (.alias a) =>
      skip
      named a
    | _ =>
      let p ← properties handles
      match p.anchor with
      | none => (← content handles n place (p.tag.isSome)).node p.tag
      | some a =>
        if ((← get).anchors.lookup a).isSome then throw .anchor
        bindName a .enclosing
        let found ← (← content handles n place true).node p.tag
        bindName a found
        pure found

/-- Reads what follows the properties of a node. After some it may be nothing. -/
def content (handles : Handles) : Nat → Place → Bool → Reader Content
  | 0, _, _ => throw .misplaced
  | n + 1, place, mayBeEmpty => do
    match ← peek with
    | some (.scalar s isPlain) =>
      skip
      pure (.scalar s isPlain)
    | some .flowSequence =>
      skip
      pure (.sequence (← flowItems handles n true))
    | some .flowMapping =>
      skip
      pure (.mapping (← flowEntries handles n true))
    | t =>
      if place = .entry ∧ t = some .blockEntry then
        pure (.sequence (← looseItems handles n))
      else if place ≠ .flow ∧ t = some .blockSequence then do
        skip
        pure (.sequence (← blockItems handles n))
      else if place ≠ .flow ∧ t = some .blockMapping then do
        skip
        pure (.mapping (← blockEntries handles n))
      else if mayBeEmpty then pure (.scalar "" true)
      else throw .misplaced

/-- Reads a node, unless one of some tokens is next, before which nothing is written. -/
def nodeUnless (handles : Handles) : Nat → List Token → Place → Reader Node
  | 0, _, _ => throw .misplaced
  | n + 1, ends, place => do
    if ← isAt ends then pure .empty else node handles n place

/-- Reads the items of a block sequence and its end. -/
def blockItems (handles : Handles) : Nat → Reader (List Node)
  | 0 => throw .misplaced
  | n + 1 => do
    if ← accept .blockEntry then
      let item ← nodeUnless handles n [.blockEntry, .blockEnd] .block
      pure (item :: (← blockItems handles n))
    else
      expect .blockEnd
      pure []

/-- Reads the items of a sequence that is not indented. Nothing marks its end. -/
def looseItems (handles : Handles) : Nat → Reader (List Node)
  | 0 => throw .misplaced
  | n + 1 => do
    if ← accept .blockEntry then
      let item ← nodeUnless handles n [.blockEntry, .key, .value, .blockEnd] .block
      pure (item :: (← looseItems handles n))
    else pure []

/-- Reads the entries of a block mapping and its end. -/
def blockEntries (handles : Handles) : Nat → Reader (List (Node × Node))
  | 0 => throw .misplaced
  | n + 1 => do
    if ← accept .key then
      let ends := [Token.key, .value, .blockEnd]
      let k ← nodeUnless handles n ends .entry
      let v ← if ← accept .value then nodeUnless handles n ends .entry else pure .empty
      pure ((k, v) :: (← blockEntries handles n))
    else
      expect .blockEnd
      pure []

/-- Reads the items of a sequence in brackets and the closing bracket. An item may be an entry, and
    then it is a mapping of this entry. -/
def flowItems (handles : Handles) : Nat → Bool → Reader (List Node)
  | 0, _ => throw .misplaced
  | n + 1, isFirst => do
    if ← accept .flowSequenceEnd then return []
    if !isFirst then expect .flowEntry
    if ← accept .key then
      let k ← nodeUnless handles n [.value, .flowEntry, .flowSequenceEnd] .flow
      let v ← if ← accept .value then nodeUnless handles n [.flowEntry, .flowSequenceEnd] .flow
        else pure .empty
      let item ← Node.ofEntries none [(k, v)]
      pure (item :: (← flowItems handles n false))
    else if ← accept .flowSequenceEnd then pure []
    else
      let item ← node handles n .flow
      pure (item :: (← flowItems handles n false))

/-- Reads the entries of a mapping in braces and the closing brace. An entry may be a key alone. -/
def flowEntries (handles : Handles) : Nat → Bool → Reader (List (Node × Node))
  | 0, _ => throw .misplaced
  | n + 1, isFirst => do
    if ← accept .flowMappingEnd then return []
    if !isFirst then expect .flowEntry
    if ← accept .key then
      let k ← nodeUnless handles n [.value, .flowEntry, .flowMappingEnd] .flow
      let v ← if ← accept .value then nodeUnless handles n [.flowEntry, .flowMappingEnd] .flow
        else pure .empty
      pure ((k, v) :: (← flowEntries handles n false))
    else if ← accept .flowMappingEnd then pure []
    else
      let k ← node handles n .flow
      pure ((k, .empty) :: (← flowEntries handles n false))

end

/-! ## Documents -/

/-- Reads the directives in front of a document. Whether a version was given is told. -/
def directives : List Token → Bool → Handles → Except Fault (List Token × Handles)
  | .directive d :: r, versioned, handles =>
    match d with
    | .version major =>
      if versioned || major != 1 then .error .directive else directives r true handles
    | .tag handle beginning =>
      if (handles.lookup handle).isSome then .error .directive
      else directives r versioned ((handle, beginning) :: handles)
    | .other => directives r versioned handles
  | ts, _, handles => .ok (ts, handles ++ standardHandles)

/-- Reads the node of a document. -/
def root (handles : Handles) : Reader Node := do
  node handles (3 * (← get).tokens.length + 3) .block

/-- Reads the only document. Without any token there is none. -/
def document (ts : List Token) : Except Fault (Option Node) := do
  let finish (n : Node) (rest : List Token) : Except Fault (Option Node) :=
    if (rest.dropWhile (· == .documentEnd)).isEmpty then .ok (some n) else .error .several
  match ts with
  | [] => pure none
  | .documentStart :: _ | .directive _ :: _ =>
    let (ts, handles) ← directives ts false []
    match ts with
    | .documentStart :: r =>
      match r with
      | [] | .documentStart :: _ | .documentEnd :: _ | .directive _ :: _ => finish .empty r
      | _ =>
        let (n, s) ← (root handles).run ⟨r, []⟩
        finish n s.tokens
    | _ => throw .directive
  | _ =>
    let (n, s) ← (root standardHandles).run ⟨ts, []⟩
    finish n s.tokens

end Reader

/-- The value of a text: that of its document, or nothing if it has none. -/
def parse (s : List Char) : Except Fault Value := do
  if !s.all isPrintable then throw .unprintable
  match ← Reader.document (← tokens s) with
  | none => pure .null
  | some n => n.value

end LockAudit.Yaml
