import Leasehold.Text.Blank

/-!
# LogFilter — which texts choose log lines

A filter is a list of directives between commas. A directive names a level, or a
place in the program with a level behind an equals sign; between the two, brackets
may name a span, and braces in them its fields. A directive with nothing behind the
equals sign chooses everything.
-/

namespace Leasehold.LogFilter

/-- The names of the levels. -/
def levels : List String := ["off", "error", "warn", "info", "debug", "trace"]

/-- Whether a text is a level: a name in any case, or its place in the list. -/
def isLevel (text : String) : Bool :=
  levels.contains (text.map Char.toLower) || isPlace text.toList
where
  isPlace : List Char → Bool
    | '+' :: cs => isDigits cs
    | cs => isDigits cs
  isDigits (cs : List Char) : Bool :=
    match cs.reverse with
    | last :: zeros => '0' ≤ last && last ≤ '5' && zeros.all (· = '0')
    | [] => false

/-- What follows an equals sign: a level or nothing. -/
def isChoice (cs : List Char) : Bool := cs.isEmpty || isLevel (String.ofList cs)

/-- What follows the brackets. -/
def endsWell : List Char → Bool
  | [] => true
  | '=' :: cs => isChoice cs
  | _ => false

/-- Whether the brackets close behind the braces, and what follows is in order. -/
def closesWell : List Char → Bool
  | ']' :: cs => endsWell cs
  | _ => false

/-- What follows an opening brace: the name of a field, and the closing of both. -/
def isFields (cs : List Char) : Bool :=
  match cs.dropWhile (· ≠ '}') with
  | _ :: rest => !(cs.takeWhile (· ≠ '}')).isEmpty && closesWell rest
  | [] => false

/-- What follows an opening bracket. -/
def isSpan (cs : List Char) : Bool :=
  match cs.dropWhile fun c => c ≠ ']' && c ≠ '{' with
  | '{' :: rest => isFields rest
  | _ :: rest => endsWell rest
  | [] => false

/-- What follows the first character of a name. -/
def isNamed (cs : List Char) : Bool :=
  match cs.dropWhile fun c => c ≠ '=' && c ≠ '[' with
  | '=' :: rest => isChoice rest
  | _ :: rest => isSpan rest
  | [] => true

/-- What a name may start with: a letter, a digit or one of three marks. Beyond ASCII every
character counts as a letter. -/
def isNameStart (c : Char) : Bool :=
  c.isAlphanum || ['-', ':', '_'].contains c || 0x7f < c.toNat

/-- A directive, with nothing blank around it. -/
def isDirective : List Char → Bool
  | '[' :: cs => isSpan cs
  | c :: cs => isNameStart c && isNamed cs
  | [] => false

/-- Whether a text is a filter. Nothing between two commas is passed over. -/
def isValid (text : String) : Bool :=
  (text.splitOn ",").all fun piece =>
    piece.isEmpty || isDirective (Text.trim piece.toList)

end Leasehold.LogFilter
