import LinkExpr.Yaml.Token
import LinkExpr.Table

/-!
# Nodes of YAML

A document is a tree of scalars, sequences and mappings. A node may be anchored by a name, and an
alias stands for a node anchored before it. Names are resolved to numbers while the tokens are
read: a new name gets the number of names so far, and so does a name that is used again, which then
shares its number with the next new one. An alias stands for the last node of its number.

`Document.ofText?` reads a text that holds one document. Parts that are left out, such as the value
after a colon, are empty plain scalars.
-/

namespace LinkExpr.Yaml

/-- A node of a document. -/
inductive Node
  /-- A text, whether it is written without quotes and not as a block, and its tag if it has one. -/
  | scalar (text : String) (plain : Bool) (tag : Option Tag)
  | sequence (items : List Node)
  /-- Keys and values in the order they are written. -/
  | mapping (entries : List (Node × Node))
  /-- The node that is anchored under a number. -/
  | reference (number : Nat)
deriving Repr

namespace Node

/-- What stands for a part that is left out. -/
def empty : Node := .scalar "" true none

mutual

/-- The number of marks in which a node is written down: one for a scalar or an alias, and a
beginning and an end for a collection. -/
def size : Node → Nat
  | scalar .. | reference _ => 1
  | sequence items => 2 + sizeOfItems items
  | mapping entries => 2 + sizeOfEntries entries

/-- The sizes of several nodes together. -/
def sizeOfItems : List Node → Nat
  | [] => 0
  | item :: items => item.size + sizeOfItems items

/-- The sizes of keys and values together. -/
def sizeOfEntries : List (Node × Node) → Nat
  | [] => 0
  | (key, value) :: entries => key.size + value.size + sizeOfEntries entries

end

end Node

/-- A document, with its anchored nodes and their numbers in the order they begin. -/
structure Document where
  root : Node
  anchored : List (Nat × Node)
deriving Repr

/-- The node that an alias stands for. -/
def Document.target? (d : Document) (number : Nat) : Option Node :=
  (d.anchored.reverse.find? fun a => a.1 = number).map Prod.snd

/-! ### Reading -/

/-- The state of reading nodes. -/
structure Progress where
  /-- The tokens that are left. -/
  rest : List Token
  /-- The numbers of the anchors' names. -/
  numbers : Table Nat
  /-- The anchored nodes that have begun, with a stand-in for those that have not ended. -/
  anchored : Array (Nat × Node)

/-- Reading nodes; it fails if the tokens do not form any. -/
abbrev Reading := StateT Progress Option

namespace Reading

/-- The next token. -/
def peek : Reading (Option Token) := return (← get).rest.head?

/-- Passes over a token. -/
def skip : Reading Unit := modify fun p => { p with rest := p.rest.drop 1 }

/-- Passes over a token if it is the given one. -/
def skipIf (token : Token) : Reading Bool := do
  if (← peek) = some token then
    skip
    return true
  else return false

/-- The node that a name stands for. -/
def aliasOf (name : List Char) : Reading Node := do
  match (← get).numbers.get? (String.ofList name) with
  | some number => return .reference number
  | none => failure

/-- Begins a node that is anchored by a name, and answers its place among the anchored nodes. -/
def beginAnchored (name : List Char) : Reading Nat := do
  let p ← get
  let number := p.numbers.size
  set { p with
    numbers := p.numbers.insert (String.ofList name) number
    anchored := p.anchored.push (number, .empty) }
  return p.anchored.size

/-- Ends the node at a place among the anchored nodes. -/
def endAnchored (place : Nat) (node : Node) : Reading Unit :=
  modify fun p => { p with anchored := p.anchored.modify place fun (number, _) => (number, node) }

/-- The anchor before a node, if there is one. -/
def anchor? : Reading (Option (List Char)) := do
  match ← peek with
  | some (.anchor name) =>
      skip
      return some name
  | _ => return none

/-- The tag before a node, if there is one. The handle of a tag has to be among the known ones. -/
def tag? (handles : Table Tag) : Reading (Option Tag) := do
  match ← peek with
  | some (.tag handle suffix) =>
      skip
      if handle = [] then return some suffix
      else match handles.get? (String.ofList handle) with
        | some expansion => return some (expansion ++ suffix)
        | none => failure
  | _ => return none

/-- The anchor and the tag before a node, in either order. -/
def properties (handles : Table Tag) : Reading (Option (List Char) × Option Tag) := do
  match ← anchor? with
  | some name => return (some name, ← tag? handles)
  | none =>
      let tag ← tag? handles
      if tag.isSome then return (← anchor?, tag) else return (none, none)

/-- Where a node stands. -/
inductive Place
  /-- In a flow collection. -/
  | flow
  /-- In a block sequence, or at the root. -/
  | item
  /-- A key or value of a block mapping, where a sequence need not be indented. -/
  | member
deriving DecidableEq

mutual

/-- Reads a node. The fuel bounds the number of steps. -/
def node (handles : Table Tag) : (fuel : Nat) → Place → Reading Node
  | 0, _ => failure
  | fuel + 1, place => do
      match ← peek with
      | some (.reference name) =>
          skip
          aliasOf name
      | _ =>
          let (anchor, tag) ← properties handles
          match anchor with
          | none => content handles fuel place tag tag.isSome
          | some name =>
              let index ← beginAnchored name
              let node ← content handles fuel place tag true
              endAnchored index node
              return node

/-- Reads what follows the properties of a node; it may be left out if there are any. -/
def content (handles : Table Tag) :
    (fuel : Nat) → Place → (tag : Option Tag) → (optional : Bool) → Reading Node
  | 0, _, _, _ => failure
  | fuel + 1, place, tag, optional => do
      match ← peek, decide (place = .flow) with
      | some (.scalar text plain), _ =>
          skip
          return .scalar (String.ofList text) plain tag
      | some .flowSequenceStart, _ =>
          skip
          .sequence <$> flowItems handles fuel true
      | some .flowMappingStart, _ =>
          skip
          .mapping <$> flowEntries handles fuel true
      | some .blockSequenceStart, false =>
          skip
          .sequence <$> blockItems handles fuel
      | some .blockMappingStart, false =>
          skip
          .mapping <$> blockEntries handles fuel
      | some .blockEntry, false =>
          if place = .member then .sequence <$> memberItems handles fuel
          else if optional then return .scalar "" true tag
          else failure
      | _, _ => if optional then return .scalar "" true tag else failure

/-- Reads a node, unless one of the given tokens shows that it is left out. -/
def part (handles : Table Tag) : (fuel : Nat) → Place → (ends : List Token) → Reading Node
  | 0, _, _ => failure
  | fuel + 1, place, ends => do
      if (← peek).any ends.contains then return .empty else node handles fuel place

/-- Reads the items of a flow sequence up to its end. An item with the indicator of a key is a
mapping of one entry. -/
def flowItems (handles : Table Tag) : (fuel : Nat) → (first : Bool) → Reading (List Node)
  | 0, _ => failure
  | fuel + 1, first => do
      if ← skipIf .flowSequenceEnd then return []
      unless first do
        unless ← skipIf .flowEntry do failure
      if ← skipIf .flowSequenceEnd then return []
      let item ←
        if ← skipIf .key then (.mapping [·]) <$> flowPair handles fuel
        else node handles fuel .flow
      return item :: (← flowItems handles fuel false)

/-- Reads the only entry of a mapping within a flow sequence. A token that shows that the key is
left out is passed over. -/
def flowPair (handles : Table Tag) : (fuel : Nat) → Reading (Node × Node)
  | 0 => failure
  | fuel + 1 => do
      let ends : List Token := [.flowEntry, .flowSequenceEnd]
      let key ←
        if (← peek).any (Token.value :: ends).contains then
          skip
          pure Node.empty
        else node handles fuel .flow
      let value ← if ← skipIf .value then part handles fuel .flow ends else pure Node.empty
      return (key, value)

/-- Reads the entries of a flow mapping up to its end. -/
def flowEntries (handles : Table Tag) :
    (fuel : Nat) → (first : Bool) → Reading (List (Node × Node))
  | 0, _ => failure
  | fuel + 1, first => do
      if ← skipIf .flowMappingEnd then return []
      unless first do
        unless ← skipIf .flowEntry do failure
      let ends : List Token := [.flowEntry, .flowMappingEnd]
      if ← skipIf .key then
        let key ← part handles fuel .flow (.value :: ends)
        let value ← if ← skipIf .value then part handles fuel .flow ends else pure Node.empty
        return (key, value) :: (← flowEntries handles fuel false)
      else if ← skipIf .flowMappingEnd then return []
      else
        let key ← node handles fuel .flow
        return (key, .empty) :: (← flowEntries handles fuel false)

/-- Reads the items of a block sequence up to its end. -/
def blockItems (handles : Table Tag) : (fuel : Nat) → Reading (List Node)
  | 0 => failure
  | fuel + 1 => do
      if ← skipIf .blockEntry then
        let item ← part handles fuel .item [.blockEntry, .blockEnd]
        return item :: (← blockItems handles fuel)
      else if ← skipIf .blockEnd then return []
      else failure

/-- Reads the items of a block sequence that is not indented, which ends with its last item. -/
def memberItems (handles : Table Tag) : (fuel : Nat) → Reading (List Node)
  | 0 => failure
  | fuel + 1 => do
      if ← skipIf .blockEntry then
        let item ← part handles fuel .item [.blockEntry, .key, .value, .blockEnd]
        return item :: (← memberItems handles fuel)
      else return []

/-- Reads the entries of a block mapping up to its end. -/
def blockEntries (handles : Table Tag) : (fuel : Nat) → Reading (List (Node × Node))
  | 0 => failure
  | fuel + 1 => do
      let ends : List Token := [.key, .value, .blockEnd]
      if ← skipIf .key then
        let key ← part handles fuel .member ends
        let value ← if ← skipIf .value then part handles fuel .member ends else pure Node.empty
        return (key, value) :: (← blockEntries handles fuel)
      else if ← skipIf .blockEnd then return []
      else failure

end

end Reading

/-! ### Documents -/

/-- The handles of tags that are known in every document. -/
def standardHandles : Table Tag :=
  .ofList [("!", .nonSpecific), ("!!", .ofText "tag:yaml.org,2002:")]

/-- Reads the directives at the beginning of a document, and answers the known handles and what is
left. The version has to be 1.1 or 1.2 and is given at most once, and so is every handle. -/
def readDirectives : (versioned : Bool) → (handles : Table Tag) → List Token →
    Option (Table Tag × List Token)
  | versioned, handles, .versionDirective major minor :: rest =>
      if !versioned && major = 1 && (minor = 1 || minor = 2) then readDirectives true handles rest
      else none
  | versioned, handles, .tagDirective handle expansion :: rest =>
      let handle := String.ofList handle
      if (handles.get? handle).isSome then none
      else readDirectives versioned (handles.insert handle expansion) rest
  | _, handles, rest => some (handles, rest)

/-- Whether a token shows that the root of a document is left out. -/
def Token.endsRoot : Token → Bool
  | .versionDirective .. | .tagDirective .. | .documentStart | .documentEnd => true
  | _ => false

/-- Reads the beginning of a document: the known handles, whether its root may be left out, and what
is left. The marker of the beginning may be missing if there are no directives. -/
def readBeginning : List Token → Option (Table Tag × Bool × List Token)
  | [] => some (standardHandles, true, [])
  | tokens@(first :: _) =>
      if first.endsRoot && first ≠ .documentEnd then do
        let (handles, rest) ← readDirectives false .empty tokens
        let known := standardHandles.entries.foldl
          (fun known (handle, expansion) =>
            if (known.get? handle).isSome then known else known.insert handle expansion) handles
        match rest with
        | .documentStart :: rest => some (known, true, rest)
        | _ => none
      else some (standardHandles, false, tokens)

namespace Document

/-- Reads a single document. Every step passes over a token, or goes from a collection to its first
entry and to a part of that, so that four steps for each token are enough. -/
def ofTokens? (tokens : List Token) : Option Document := do
  let (handles, optional, rest) ← readBeginning tokens
  let read : Reading Node :=
    if optional && rest.head?.all Token.endsRoot then pure .empty
    else Reading.node handles (4 * rest.length + 8) .item
  let (root, p) ← read.run ⟨rest, .empty, #[]⟩
  match p.rest.dropWhile (· = .documentEnd) with
  | [] => return ⟨root, p.anchored.toList⟩
  | _ => none

/-- Reads a text that holds a single document. -/
def ofText? (text : String) : Option Document := do ofTokens? (← Token.ofText? text)

end Document

end LinkExpr.Yaml
