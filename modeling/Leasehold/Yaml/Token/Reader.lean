import Leasehold.Yaml.Token.Block
import Leasehold.Yaml.Token.Flow
import Leasehold.Yaml.Token.Name

/-!
# Yaml.Token.Reader — from text to tokens

A key needs no mark in front of it: that something was a key is known only when
the colon behind it is read. So the reader remembers, for every flow collection it
is in, where the last thing started that could be a key, and puts the tokens in
front of it when the colon comes. A key without a mark stays on one line and is
at most 1024 characters long.
-/

namespace Leasehold.Yaml

/-- Something that is a key if a colon follows. -/
structure KeyCandidate where
  /-- How many tokens come before it. -/
  position : Nat
  place : Place
  /-- It stands where the next key of the block must stand, so a colon must follow. -/
  required : Bool
  deriving Repr

/-- The reader between two tokens. -/
structure TokenReader where
  source : Source
  tokens : Array Token
  /-- The column behind the one at which the innermost block collection stands; zero outside of
  any. -/
  margin : Nat
  /-- The margins of the blocks around it. -/
  outerMargins : List Nat
  /-- The candidate in the innermost collection. -/
  candidate : Option KeyCandidate
  /-- The candidates in the collections around it, one for each flow collection. -/
  outerCandidates : List (Option KeyCandidate)
  /-- Whether a key without a mark may start here. -/
  keyAllowed : Bool

namespace TokenReader

def start (source : Source) : TokenReader := ⟨source, #[], 0, [], none, [], true⟩

/-- Whether the reader is in a flow collection. -/
def inFlow (r : TokenReader) : Bool := !r.outerCandidates.isEmpty

/-- Adds a token. -/
def push (r : TokenReader) (t : Token) : TokenReader := { r with tokens := r.tokens.push t }

/-- Puts a token in front of those from a position on. -/
def insert (r : TokenReader) (position : Nat) (t : Token) : TokenReader :=
  { r with tokens := r.tokens.extract 0 position |>.push t
      |>.append (r.tokens.extract position r.tokens.size) }

/-- Skips so many characters. -/
def skip (r : TokenReader) (n : Nat) : TokenReader := { r with source := r.source.drop n }

/-! ## Indentation -/

/-- Enters a block collection whose content stands at a column, if that is further right than the
block around it; its first token goes to a position. -/
def enterBlock (r : TokenReader) (column position : Nat) (t : Token) : TokenReader :=
  if r.inFlow || column < r.margin then r
  else { r with margin := column + 1, outerMargins := r.margin :: r.outerMargins }.insert position t

/-- The number of blocks that end before a margin, and what is then left of the margins. -/
def leaving (limit margin : Nat) : List Nat → Nat × Nat × List Nat
  | [] => (0, margin, [])
  | outer :: rest =>
    if limit < margin then
      let (n, m, rest) := leaving limit outer rest
      (n + 1, m, rest)
    else (0, margin, outer :: rest)

/-- Leaves the blocks whose margin is above a limit. -/
def leaveBlocks (r : TokenReader) (limit : Nat) : TokenReader :=
  if r.inFlow then r
  else
    let (n, margin, outerMargins) := leaving limit r.margin r.outerMargins
    { r with margin, outerMargins, tokens := r.tokens ++ Array.replicate n .blockEnd }

/-! ## Keys without a mark -/

/-- Gives up the candidate, which must not be a required one. -/
def dropCandidate (r : TokenReader) : Option TokenReader :=
  if r.candidate.any (·.required) then none else some { r with candidate := none }

/-- Takes what starts here for a candidate, if a key may start here. -/
def markCandidate (r : TokenReader) : Option TokenReader :=
  match r.source with
  | p :: _ =>
    if r.keyAllowed then do
      let r ← r.dropCandidate
      let required := !r.inFlow && r.margin == p.column + 1
      return { r with candidate := some ⟨r.tokens.size, p, required⟩ }
    else some r
  | [] => some r

/-- Whether a candidate can still be a key at a colon: it is near, and on the same line. -/
def KeyCandidate.reaches (k : KeyCandidate) (colon : Place) : Bool :=
  k.place.line == colon.line && colon.index ≤ k.place.index + 1024

/-! ## Tokens -/

/-- Skips to the next token: blanks, comments, breaks. A break allows a key in block style, and
tabs count as blanks where no key may start. -/
def skipToToken (inFlow keyAllowed inComment : Bool) : Source → Bool × Source
  | [] => (keyAllowed, [])
  | p :: rest =>
    if isBreak p.char then skipToToken inFlow (keyAllowed || !inFlow) false rest
    else if inComment then skipToToken inFlow keyAllowed true rest
    else if p.char == '#' then skipToToken inFlow keyAllowed true rest
    else if p.char == ' ' || (p.char == '\t' && (inFlow || !keyAllowed))
        || (p.char == '\ufeff' && p.index == 0) then
      skipToToken inFlow keyAllowed false rest
    else (keyAllowed, p :: rest)

/-- A token outside of any block, behind so many characters. -/
def readOuter (r : TokenReader) (t : Token) (width : Nat) : Option TokenReader := do
  let r ← (r.leaveBlocks 0).dropCandidate
  return ({ r with keyAllowed := false }.skip width).push t

/-- The start of a flow collection. -/
def readFlowStart (r : TokenReader) (t : Token) : Option TokenReader := do
  let r ← r.markCandidate
  let r := { r with
    candidate := none
    outerCandidates := r.candidate :: r.outerCandidates
    keyAllowed := true }
  return (r.skip 1).push t

/-- The end of a flow collection. -/
def readFlowEnd (r : TokenReader) (t : Token) : Option TokenReader := do
  let r ← r.dropCandidate
  let r := match r.outerCandidates with
    | candidate :: outerCandidates => { r with candidate, outerCandidates }
    | [] => r
  return ({ r with keyAllowed := false }.skip 1).push t

/-- A mark that a block collection can start with. -/
def readBlockMark (r : TokenReader) (column : Nat) (collection mark : Token) (keyAllowed : Bool) :
    Option TokenReader :=
  if !r.inFlow && !r.keyAllowed then none
  else do
    let r ← (r.enterBlock column r.tokens.size collection).dropCandidate
    return ({ r with keyAllowed }.skip 1).push mark

/-- A colon: it makes the candidate a key, or stands behind a key that has a mark. -/
def readValueMark (r : TokenReader) (colon : Place) : Option TokenReader :=
  match r.candidate with
  | some k =>
    if KeyCandidate.reaches k colon then
      let r := (r.insert k.position .key).enterBlock k.place.column k.position .blockMapping
      some ({ r with candidate := none, keyAllowed := false }.skip 1 |>.push .value)
    else if k.required then none
    else withoutKey { r with candidate := none }
  | none => withoutKey r
where
  withoutKey (r : TokenReader) : Option TokenReader :=
    if !r.inFlow && !r.keyAllowed then none
    else
      let r := r.enterBlock colon.column r.tokens.size .blockMapping
      some ({ r with keyAllowed := !r.inFlow }.skip 1 |>.push .value)

/-- A token that may be, or start, a key without a mark. -/
def readKeyLike (r : TokenReader) (read : Source → Option (Token × Source)) :
    Option TokenReader := do
  let r ← r.markCandidate
  let (t, source) ← read r.source
  return { r with source, keyAllowed := false }.push t

/-- A block scalar, behind which a key may start. -/
def readBlock (r : TokenReader) (style : ScalarStyle) : Option TokenReader := do
  let r ← r.dropCandidate
  let (text, source) ← readBlockScalar (style == .folded) r.margin (r.source.drop 1)
  return { r with source, keyAllowed := true }.push (.scalar style text)

/-- A quoted scalar. -/
def readQuotedToken (single : Bool) (s : Source) : Option (Token × Source) := do
  let (text, rest) ← readQuoted single .text {} (s.drop 1)
  return (.scalar (if single then .singleQuoted else .doubleQuoted) text, rest)

/-- A plain scalar; if a line ended behind it, a key may start there. -/
def readPlainToken (r : TokenReader) : Option TokenReader := do
  let r ← r.markCandidate
  let scalar ← readPlain r.inFlow r.margin {} r.source
  return { r with source := scalar.rest, keyAllowed := scalar.brokeLine }.push
    (.scalar .plain scalar.text)

/-- The characters that start no plain scalar, or only one before something that is no gap. -/
def isIndicator (c : Char) : Bool :=
  isBlank c || ['-', '?', ':', ',', '[', ']', '{', '}', '#', '&', '*', '!', '|', '>', '\'', '"',
    '%', '@', '\x60'].contains c

/-- Reads the token that starts here. -/
def readToken (r : TokenReader) (p : Place) : Option TokenReader :=
  let s := r.source
  let beforeGap := isGap (s.peek 1)
  match p.char with
  | '%' => if p.column == 0 then directive else none
  | '[' => r.readFlowStart .flowSequence
  | '{' => r.readFlowStart .flowMapping
  | ']' => r.readFlowEnd .flowSequenceEnd
  | '}' => r.readFlowEnd .flowMappingEnd
  | ',' => do
    let r ← r.dropCandidate
    return ({ r with keyAllowed := true }.skip 1).push .flowEntry
  | '*' => r.readKeyLike fun s => do
    let (name, rest) ← readAnchor (s.drop 1)
    return (.alias name, rest)
  | '&' => r.readKeyLike fun s => do
    let (name, rest) ← readAnchor (s.drop 1)
    return (.anchor name, rest)
  | '!' => r.readKeyLike (readTag r.inFlow)
  | '\'' => r.readKeyLike (readQuotedToken true)
  | '"' => r.readKeyLike (readQuotedToken false)
  | '|' => if r.inFlow then none else r.readBlock .literal
  | '>' => if r.inFlow then none else r.readBlock .folded
  | c =>
    if s.startsMark '-' then r.readOuter .documentStart 3
    else if s.startsMark '.' then r.readOuter .documentEnd 3
    else if c == '-' && beforeGap then r.readBlockMark p.column .blockSequence .blockEntry true
    else if c == '?' && (r.inFlow || beforeGap) then
      r.readBlockMark p.column .blockMapping .key (!r.inFlow)
    else if c == ':' && (r.inFlow || beforeGap) then r.readValueMark p
    else if isIndicator c && c != '-' && (r.inFlow || !(c == '?' || c == ':')) then none
    else r.readPlainToken
where
  directive : Option TokenReader := do
    let r ← (r.leaveBlocks 0).dropCandidate
    let (t, source) ← readDirective (r.source.drop 1)
    return { r with source, keyAllowed := false }.push t

/-- Reads tokens to the end of the text. Every token takes a character at least. -/
def readAll : Nat → TokenReader → Option (List Token)
  | 0, _ => none
  | fuel + 1, r =>
    let (keyAllowed, source) := skipToToken r.inFlow r.keyAllowed false r.source
    let r := { r with keyAllowed, source }
    match source with
    | [] => do
      let r ← (r.leaveBlocks 0).dropCandidate
      return r.tokens.toList
    | p :: _ => do
      let r ← (r.leaveBlocks (p.column + 1)).readToken p
      readAll fuel r

end TokenReader

/-- The tokens of a text. -/
def Token.ofText? (text : String) : Option (List Token) := do
  let source ← Source.ofText? text
  TokenReader.readAll (source.length + 1) (.start source)

end Leasehold.Yaml
