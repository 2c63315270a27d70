import Leasehold.Yaml.Node
import Leasehold.Yaml.Token.Reader

/-!
# Yaml.Node.Reader — from tokens to trees

The grammar of documents as a recursive reader of tokens. Where a key, a value or
an item is missing, the empty scalar stands for it. Fuel bounds the recursion; no
reading goes deeper than a small multiple of the number of tokens.
-/

namespace Leasehold.Yaml

/-- What the reader knows. -/
structure TreeReader where
  tokens : List Token
  /-- What the handles of tags mean. -/
  handles : List (String × String)
  /-- The numbers of the names given so far. -/
  names : Table String Nat
  /-- How many nodes were anchored so far. -/
  places : Nat
  numbered : List (Nat × Nat)
  anchored : List (Nat × Node)

/-- Reading from the tokens that are left. -/
abbrev Reading := StateT TreeReader Option

namespace Reading

/-- The next token. -/
def peek : Reading (Option Token) := return (← get).tokens.head?

/-- Whether one of some tokens is next; the end of the tokens is none of them. -/
def nextIs (ts : List Token) : Reading Bool := return (← peek).any ts.contains

/-- Skips a token. -/
def skip : Reading Unit := modify fun r => { r with tokens := r.tokens.drop 1 }

/-- Skips a token if it is next, and says whether it was. -/
def accept (t : Token) : Reading Bool := do
  if ← nextIs [t] then
    skip
    return true
  else return false

/-- Skips a token that has to be next. -/
def expect (t : Token) : Reading Unit := do
  if ← accept t then pure () else failure

/-! ## Properties of nodes -/

/-- The tag that a handle and a suffix write. -/
def resolveTag (handle suffix : String) : Reading String := do
  if handle.isEmpty then return suffix
  else match (← get).handles.lookup handle with
    | some meaning => return meaning ++ suffix
    | none => failure

/-- Reads the anchor and the tag in front of a node, in either order. -/
def properties : Reading (Option String × Option (String × String)) := do
  match ← peek with
  | some (.anchor name) => do
    skip
    match ← peek with
    | some (.tag handle suffix) => do
      skip
      return (some name, some (handle, suffix))
    | _ => return (some name, none)
  | some (.tag handle suffix) => do
    skip
    match ← peek with
    | some (.anchor name) => do
      skip
      return (some name, some (handle, suffix))
    | _ => return (none, some (handle, suffix))
  | _ => return (none, none)

/-- Gives a name to the node that is about to be read, and answers its place. -/
def give (name : String) : Reading Nat := do
  let r ← get
  let number := r.names.size
  set { r with
    names := r.names.insert name number
    numbered := (number, r.places) :: r.numbered
    places := r.places + 1 }
  return r.places

/-- Reads a node behind its anchor. -/
def anchoredAs (name : Option String) (read : Reading Node) : Reading Node := do
  match name with
  | none => read
  | some name => do
    let place ← give name
    let node ← read
    modify fun r => { r with anchored := (place, node) :: r.anchored }
    return node

/-- A tag, unless it is the plain mark, which says nothing about a scalar. -/
def scalarTag (tag : Option String) : Option String := tag.filter (· != "!")

/-! ## Nodes -/

mutual

/-- Reads a node: in block style, where its collections may be block collections, or in flow style;
`indentless` allows a block sequence that is not indented further than its parent. -/
def node : Nat → Bool → Bool → Reading Node
  | 0, _, _ => failure
  | fuel + 1, block, indentless => do
    match ← peek with
    | some (.alias name) => do
      skip
      match (← get).names.get? name with
      | some number => return .alias number
      | none => failure
    | _ => do
      let (name, written) ← properties
      let tag ← written.mapM fun (handle, suffix) => resolveTag handle suffix
      match ← peek with
      | some .blockEntry =>
        if indentless then anchoredAs name (.sequence tag <$> blockItems fuel true)
        else bare name tag
      | some (.scalar style text) => do
        skip
        anchoredAs name (return .scalar (scalarTag tag) style text)
      | some .flowSequence => do
        skip
        anchoredAs name (.sequence tag <$> flowItems fuel true)
      | some .flowMapping => do
        skip
        anchoredAs name (.mapping tag <$> flowEntries fuel true)
      | some .blockSequence =>
        if block then do
          skip
          anchoredAs name (.sequence tag <$> blockItems fuel false)
        else bare name tag
      | some .blockMapping =>
        if block then do
          skip
          anchoredAs name (.mapping tag <$> blockEntries fuel)
        else bare name tag
      | _ => bare name tag
where
  /-- Nothing is written, which an anchor or a tag must announce. -/
  bare (name tag : Option String) : Reading Node :=
    if name.isSome || tag.isSome then anchoredAs name (return .scalar tag .plain "")
    else failure

/-- Reads the items of a block sequence behind its start. -/
def blockItems : Nat → Bool → Reading (List Node)
  | 0, _ => failure
  | fuel + 1, indentless => do
    if ← accept .blockEntry then do
      let enders : List Token := if indentless then [.blockEntry, .key, .value, .blockEnd]
        else [.blockEntry, .blockEnd]
      let item ← if ← nextIs enders then pure .nothing else node fuel true false
      return item :: (← blockItems fuel indentless)
    else do
      if indentless then return [] else do
        expect .blockEnd
        return []

/-- Reads the entries of a block mapping behind its start. -/
def blockEntries : Nat → Reading (List (Node × Node))
  | 0 => failure
  | fuel + 1 => do
    if ← accept .key then do
      let key ← if ← nextIs [.key, .value, .blockEnd] then pure .nothing else node fuel true true
      let value ← if ← accept .value then do
          if ← nextIs [.key, .value, .blockEnd] then pure .nothing else node fuel true true
        else pure .nothing
      return (key, value) :: (← blockEntries fuel)
    else do
      expect .blockEnd
      return []

/-- Reads the items of a flow sequence behind its start. A key makes a mapping of one entry. -/
def flowItems : Nat → Bool → Reading (List Node)
  | 0, _ => failure
  | fuel + 1, first => do
    if ← accept .flowSequenceEnd then return []
    else do
      if !first then expect .flowEntry
      if ← accept .key then do
        let entry ← flowPair fuel
        return .mapping none [entry] :: (← flowItems fuel false)
      else if ← accept .flowSequenceEnd then return []
      else do
        let item ← node fuel false false
        return item :: (← flowItems fuel false)

/-- Reads the one entry of a mapping in a flow sequence behind its key mark. A missing key swallows
the token in its place. -/
def flowPair : Nat → Reading (Node × Node)
  | 0 => failure
  | fuel + 1 => do
    let key ← if ← nextIs [.value, .flowEntry, .flowSequenceEnd] then do
        skip
        pure .nothing
      else node fuel false false
    let value ← if ← accept .value then do
        if ← nextIs [.flowEntry, .flowSequenceEnd] then pure .nothing else node fuel false false
      else pure .nothing
    return (key, value)

/-- Reads the entries of a flow mapping behind its start. -/
def flowEntries : Nat → Bool → Reading (List (Node × Node))
  | 0, _ => failure
  | fuel + 1, first => do
    if ← accept .flowMappingEnd then return []
    else do
      if !first then expect .flowEntry
      if ← accept .key then do
        let key ← if ← nextIs [.value, .flowEntry, .flowMappingEnd] then pure .nothing
          else node fuel false false
        let value ← if ← accept .value then do
            if ← nextIs [.flowEntry, .flowMappingEnd] then pure .nothing
            else node fuel false false
          else pure .nothing
        return (key, value) :: (← flowEntries fuel false)
      else if ← accept .flowMappingEnd then return []
      else do
        let key ← node fuel false false
        return (key, .nothing) :: (← flowEntries fuel false)

end

/-! ## Documents -/

/-- What the handles mean that no directive speaks of. -/
def standardHandles : List (String × String) := [("!", "!"), ("!!", "tag:yaml.org,2002:")]

/-- Reads the directives before a document. The version is given once at most, and every handle
gets its meaning once at most. -/
def directives : Nat → Bool → List (String × String) → Reading (List (String × String))
  | 0, _, _ => failure
  | fuel + 1, versioned, handles => do
    match ← peek with
    | some (.version major minor) =>
      if versioned || major != 1 || !(minor == 1 || minor == 2) then failure
      else do
        skip
        directives fuel true handles
    | some (.handle handle meaning) =>
      if (handles.lookup handle).isSome then failure
      else do
        skip
        directives fuel versioned ((handle, meaning) :: handles)
    | _ => return handles

/-- Reads the only document of a text to the end of the tokens. A document may start with a mark,
and has to if directives are before it. -/
def document (fuel : Nat) : Reading (Option Node) := do
  match ← peek with
  | none => return none
  | some first => do
    let announced := match first with
      | .version .. | .handle .. | .documentStart => true
      | _ => false
    let root ← if announced then do
        let handles ← directives fuel false []
        modify ({ · with handles := handles ++ standardHandles })
        expect .documentStart
        if ← atEnd then pure .nothing else node fuel true false
      else node fuel true false
    skipEnds fuel
    if (← peek).isSome then failure else return some root
where
  /-- Whether the document is over before it has a node. -/
  atEnd : Reading Bool := do
    match ← peek with
    | none | some (.version ..) | some (.handle ..) | some .documentStart | some .documentEnd =>
      return true
    | _ => return false
  /-- Skips the marks that end a document. -/
  skipEnds : Nat → Reading Unit
    | 0 => pure ()
    | fuel + 1 => do if ← accept .documentEnd then skipEnds fuel else pure ()

end Reading

/-- The document that tokens write, if they write one or none. -/
def Document.ofTokens? (tokens : List Token) : Option Document := do
  let fuel := 4 * tokens.length + 4
  let start : TreeReader := ⟨tokens, Reading.standardHandles, .empty, 0, [], []⟩
  let (root, r) ← (Reading.document fuel).run start
  return ⟨root, r.numbered, r.anchored⟩

/-- The document that a text writes, if it writes one or none. -/
def Document.ofText? (text : String) : Option Document :=
  (Token.ofText? text).bind Document.ofTokens?

end Leasehold.Yaml
