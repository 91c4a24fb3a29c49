import NedCheck.Text.Regex

/-!
# Import specifications

An import names types by their qualified names. In a specification `*` stands for any text within one package segment and `**` for any text across segments; everything else stands for itself. A specification without stars is explicit: it names one type, and brings it into scope under its last segment.

A specification is also a regular expression, which an engine can match. Matching here works on the table of all suffixes of the name, one row for each token, so its cost is the product of the two lengths whatever the stars.
-/

namespace NedCheck

namespace ImportSpec

inductive Token where
  /-- Any text without a line feed. -/
  | across
  /-- Any text without a dot. -/
  | within
  /-- Exactly this text. -/
  | literal (text : List Char)
deriving DecidableEq, Repr

/-- A specification cut from left to right into `**`, `*` and runs of other characters. -/
def tokens : List Char → List Token
  | [] => []
  | '*' :: '*' :: rest => .across :: tokens rest
  | '*' :: rest => .within :: tokens rest
  | c :: rest =>
    match tokens rest with
    | .literal text :: others => .literal (c :: text) :: others
    | others => .literal [c] :: others

/-- What a token stands for in a regular expression. -/
def Token.item : Token → Regex.Item
  | .across => .many .any
  | .within => .many .notDot
  | .literal text => .literal (String.ofList text)

/-! ### Rows

A row holds a truth value for every suffix of the name, the name itself first and the empty suffix last: whether the tokens from some point on match that suffix. -/

/-- No tokens match the empty suffix only. -/
def endRow : List Char → List Bool
  | [] => [true]
  | _ :: name => false :: endRow name

/-- The row of a character followed by what the given row stands for. -/
def charRow (wanted : Char) : List Char → List Bool → List Bool
  | c :: name, _ :: later => (c = wanted && later.headD false) :: charRow wanted name later
  | _, _ => [false]

/-- The row of any number of allowed characters followed by what the given row stands for. -/
def starRow (allowed : Char → Bool) : List Char → List Bool → List Bool
  | c :: name, here :: later =>
    let row := starRow allowed name later
    (here || allowed c && row.headD false) :: row
  | _, row => row

def Token.row (name : List Char) (later : List Bool) : Token → List Bool
  | .across => starRow (· ≠ '\n') name later
  | .within => starRow (· ≠ '.') name later
  | .literal text => text.foldr (fun c row => charRow c name row) later

/-- The row of a sequence of tokens. -/
def row (name : List Char) (tokens : List Token) : List Bool :=
  tokens.foldr (fun token later => token.row name later) (endRow name)

end ImportSpec

/-- The regular expression of a specification, anchored to match nothing but whole names. -/
def importPattern (engine : Regex.Engine) (spec : String) : String :=
  engine.text (.start :: (ImportSpec.tokens spec.toList).map ImportSpec.Token.item ++ [.finish])

/-- Whether the specification, stars and all, stands for the whole qualified name. -/
def importMatches (spec name : String) : Bool :=
  (ImportSpec.row name.toList (ImportSpec.tokens spec.toList)).headD false

/-- Whether the specification may stand for more than one type. -/
def isWildcardImport (spec : String) : Bool := spec.toList.contains '*'

/-- Whether an explicit import brings a type into scope under the given simple name. -/
def importsName (spec name : String) : Bool :=
  spec = name || ("." ++ name).toList.isSuffixOf spec.toList

end NedCheck
