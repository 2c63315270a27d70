import Leasehold.Yaml.Source
import Leasehold.Yaml.Token
import Leasehold.Text.Utf8

/-!
# Yaml.Token.Name — directives, anchors and tags

The words that name something: an anchor or alias, a tag with its handle, and the
directives that come before a document.
-/

namespace Leasehold.Yaml

/-! ## Anchors -/

/-- Reads the name of an anchor or alias behind its mark. -/
def readAnchor (s : Source) : Option (String × Source) :=
  let (name, rest) := s.spanText isNameChar
  let ends := isGap (rest.peek 0)
    || (rest.peek 0).any fun c => ['?', ':', ',', ']', '}', '%', '@', '\x60'].contains c
  if name.isEmpty || !ends then none else some (name, rest)

/-! ## Tags -/

/-- A character that a tag may hold; brackets and commas only between angle brackets. -/
def isTagChar (verbatim : Bool) (c : Char) : Bool :=
  isNameChar c || [';', '/', '?', ':', '@', '&', '=', '+', '$', '.', '%', '!', '~', '*', '\'',
    '(', ')'].contains c || (verbatim && [',', '[', ']'].contains c)

/-- The octets of a tag, in which a percent sign and two digits write one octet. -/
def tagOctets? : List Char → Option Bytes
  | [] => some []
  | '%' :: a :: b :: rest => do
    let high ← Text.Hex.digit? a
    let low ← Text.Hex.digit? b
    let octets ← tagOctets? rest
    return UInt8.ofNat (16 * high + low) :: octets
  | '%' :: _ => none
  | c :: rest => (tagOctets? rest).map (Text.Utf8.encode (String.singleton c) ++ ·)

/-- Reads the characters of a tag; there may be none only if `optional`. -/
def readTagText (verbatim optional : Bool) (s : Source) : Option (String × Source) := do
  let (text, rest) := s.spanText (isTagChar verbatim)
  if text.isEmpty && !optional then none
  else
    let octets ← tagOctets? text.toList
    let decoded ← Text.Utf8.decode? octets
    return (decoded, rest)

/-- Reads a handle: an exclamation mark, and a name with another one behind it if there is one. -/
def readHandle (s : Source) : Option (String × Source) :=
  if s.peek 0 == some '!' then
    let (name, rest) := Source.spanText isNameChar (s.drop 1)
    if rest.peek 0 == some '!' then some ("!" ++ name ++ "!", rest.drop 1)
    else some ("!" ++ name, rest)
  else none

/-- Whether a handle names something: it is more than one exclamation mark and ends in one. -/
def isNamedHandle (handle : String) : Bool := handle != "!" && handle.endsWith "!"

/-- Reads a tag: one between angle brackets, one behind a named handle, or one behind the plain
handle. The plain handle alone is a tag of its own. -/
def readTagBody (s : Source) : Option (Token × Source) := do
  if s.peek 1 == some '<' then do
    let (text, rest) ← readTagText true false (s.drop 2)
    if rest.peek 0 == some '>' then return (.tag "" text, rest.drop 1) else none
  else do
    let (handle, rest) ← readHandle s
    if isNamedHandle handle then do
      let (suffix, rest) ← readTagText false false rest
      return (.tag handle suffix, rest)
    else do
      let (more, rest) ← readTagText false true rest
      let suffix := (handle.drop 1).toString ++ more
      return (if suffix.isEmpty then .tag "" "!" else .tag "!" suffix, rest)

/-- Reads a tag, which ends at a gap or, in flow style, at a comma. -/
def readTag (inFlow : Bool) (s : Source) : Option (Token × Source) := do
  let (tag, rest) ← readTagBody s
  if isGap (rest.peek 0) || (inFlow && rest.peek 0 == some ',') then return (tag, rest) else none

/-! ## Directives -/

/-- Reads a number of at most nine digits. -/
def readVersionPart (s : Source) : Option (Nat × Source) :=
  let (digits, rest) := s.spanText Char.isDigit
  if digits.isEmpty || 9 < digits.length then none else digits.toNat?.map (·, rest)

/-- Reads the value of a directive that names the version. -/
def readVersion (s : Source) : Option (Token × Source) := do
  let (major, rest) ← readVersionPart s.skipBlanks
  if rest.peek 0 == some '.' then do
    let (minor, rest) ← readVersionPart (rest.drop 1)
    return (.version major minor, rest)
  else none

/-- Reads the value of a directive that gives a handle its meaning. -/
def readHandleMeaning (s : Source) : Option (Token × Source) := do
  let (handle, rest) ← readHandle s.skipBlanks
  if (handle == "!" || isNamedHandle handle) && (rest.peek 0).any isBlank then do
    let (meaning, rest) ← readTagText true false rest.skipBlanks
    if isGap (rest.peek 0) then return (.handle handle meaning, rest) else none
  else none

/-- Reads a directive behind its percent sign, and the rest of its line. -/
def readDirective (s : Source) : Option (Token × Source) := do
  let (name, rest) := s.spanText isNameChar
  let (token, rest) ←
    if name == "YAML" then readVersion rest
    else if name == "TAG" then readHandleMeaning rest
    else none
  let rest ← rest.skipLineEnd?
  return (token, rest)

end Leasehold.Yaml
