import LockAudit.Yaml.Value

/-!
# `LockAudit.Yaml.Node` — the nodes of a document

A node is a text or a collection of nodes, under a tag. It carries the value that it has, or why it
has none: a node without a value is a fault only where its value is wanted, and an alias to it does
not find its value anew.

A mapping may take in the entries of other mappings, under the merge key. They come before its own
entries, so that its own ones count; of several mappings the first counts.

## Contents
- **`Node`** and its value, tag and text.
- **Merging.** `mergedFrom` and `flatten`.
- **Making nodes.** `Node.ofScalar`, `Node.ofItems`, `Node.ofEntries`.
-/

namespace LockAudit.Yaml

/-- The value of a node, or why it has none. -/
abbrev Reading := Except Fault Value

/-- A node. -/
inductive Node
  | scalar (tag : Tag) (text : String)
  | sequence (tag : Tag) (items : List Node) (value : Reading)
  /-- The entries as they are written, and with those that are merged in; what the mapping stands
      for where a scalar is wanted. -/
  | mapping (tag : Tag) (entries merged : List (Node × Node)) (text : Option String)
      (value : Reading)
  /-- A collection that the node is itself a part of. -/
  | enclosing

namespace Node

/-- What the node stands for; the surrounding collections are left unnamed. -/
def tag : Node → Tag
  | .scalar t _ => t
  | .sequence t _ _ => t
  | .mapping t _ _ _ _ => t
  | .enclosing => .map

/-- The value. -/
def value : Node → Reading
  | .scalar t s => Value.ofScalar t s
  | .sequence _ _ v => v
  | .mapping _ _ _ _ v => v
  | .enclosing => .ok .enclosing

/-- The text, where a scalar is wanted. -/
def text? : Node → Option String
  | .scalar _ s => some s
  | .mapping _ _ _ s _ => s
  | _ => none

/-! ## Merging -/

/-- The entries that a mapping gives to another one; a surrounding mapping has none to give yet. -/
def given : Node → Except Fault (List (Node × Node))
  | .mapping _ _ merged _ _ => .ok merged
  | .enclosing => .ok []
  | _ => .error .merge

/-- The entries that come in under a merge key. -/
def mergedFrom : Node → Except Fault (List (Node × Node))
  | .sequence _ items _ => do pure (← items.mapM given).reverse.flatten
  | n => n.given

/-- The entry with a key that is no merge key; the key for the scalar value is a text here. -/
def own (e : Node × Node) : Option (Node × Node) :=
  match e.1 with
  | .scalar .merge _ => none
  | .scalar .value s => some (.scalar .str s, e.2)
  | k => if k.tag = .merge then none else some e

/-- The entries of a mapping with those that are merged in before them. -/
def flatten (entries : List (Node × Node)) : Except Fault (List (Node × Node)) := do
  let merges ← (entries.filter fun e => e.1.tag = .merge).mapM fun e => mergedFrom e.2
  pure (merges.flatten ++ entries.filterMap own)

/-! ## Values of collections -/

/-- The value of an entry, whose key must not be a collection. -/
def entryValue (e : Node × Node) : Except Fault (Value × Value) := do
  let k ← e.1.value
  if !k.isHashable then throw .key
  pure (k, ← e.2.value)

/-- The value of a mapping of one entry: its key with its value. -/
def pairValue : Node → Reading
  | .mapping _ [(k, v)] _ _ _ => do pure (.list [← k.value, ← v.value])
  | _ => .error .tag

/-- The value of a sequence under a tag. -/
def sequenceValue (tag : Tag) (items : List Node) : Reading :=
  match tag with
  | .seq => do pure (.list (← items.mapM value))
  | .omap | .pairs => do pure (.list (← items.mapM pairValue))
  | _ => .error .tag

/-- The value of a mapping under a tag. A tag for scalars takes the text that it stands for, except
    that a timestamp is never written so. -/
def mappingValue (tag : Tag) (merged : List (Node × Node)) (text : Option String) : Reading :=
  match tag with
  | .map => do pure (.map (← merged.mapM entryValue))
  | .set => do pure (.set ((← merged.mapM entryValue).map Prod.fst))
  | .timestamp => .error .tag
  | _ =>
    match text with
    | some s => Value.ofScalar tag s
    | none => .error .tag

/-! ## Making nodes -/

/-- A text. Without a tag, or under the tag `!`, it is what a plain text is. -/
def ofScalar (tag : Option String) (isPlain : Bool) (s : String) : Node :=
  match tag with
  | none => .scalar (if isPlain then .ofPlain s.toList else .str) s
  | some t => .scalar (if t = "!" then .ofPlain s.toList else .ofUri t) s

/-- The node that stands where nothing is written. -/
def empty : Node := ofScalar none true ""

/-- The tag of a collection, which has one of its own if it is given none. -/
def collectionTag (own : Tag) (tag : Option String) : Tag :=
  match tag with
  | none => own
  | some t => if t = "!" then own else .ofUri t

/-- A sequence. -/
def ofItems (tag : Option String) (items : List Node) : Node :=
  let t := collectionTag .seq tag
  .sequence t items (sequenceValue t items)

/-- The text that a mapping stands for: the value of its key `=`. -/
def textOf? (entries : List (Node × Node)) : Option String :=
  (entries.find? fun e => e.1.tag = .value).bind fun e => e.2.text?

/-- A mapping. -/
def ofEntries (tag : Option String) (entries : List (Node × Node)) : Except Fault Node := do
  let t := collectionTag .map tag
  let merged ← flatten entries
  let text := textOf? entries
  pure (.mapping t entries merged text (mappingValue t merged text))

end Node

end LockAudit.Yaml
