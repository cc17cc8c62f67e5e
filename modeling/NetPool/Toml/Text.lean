import NetPool.Toml.Scan

/-! Blanks, comments, strings and keys of a TOML text. -/

namespace NetPool.Toml

open Scan

/-- A character that stands for itself in comments and strings. -/
def isPlain (c : Char) : Bool := c = '\t' || (0x20 ≤ c.toNat && c.toNat ≠ 0x7F)

def isGap (c : Char) : Bool := c = ' ' || c = '\t'

def gap : Scan Unit := discard (every isGap)

def newline : Scan Unit := exactly "\n" <|> exactly "\r\n"

def comment : Scan Unit := do
  exactly "#"
  discard (every isPlain)

def lineEnd : Scan Unit := do
  gap
  discard (maybe comment)
  newline <|> finished

/-- Blanks, line ends and comments between the items of a list. -/
def wideGap : Scan Unit :=
  discard (many (discard (one isGap) <|> newline <|> (do comment; newline)))

def digitValue (c : Char) : Nat :=
  let n := c.toNat
  if 0x30 ≤ n ∧ n ≤ 0x39 then n - 0x30
  else if 0x61 ≤ n ∧ n ≤ 0x66 then n - 0x57
  else if 0x41 ≤ n ∧ n ≤ 0x46 then n - 0x37
  else 16

def isDigitOf (base : Nat) (c : Char) : Bool := digitValue c < base

def valueOf (base : Nat) (digits : List Char) : Nat :=
  digits.foldl (fun n c => n * base + digitValue c) 0

def numbered (count : Nat) : Scan Char := do
  let digits ← (List.replicate count ()).mapM fun _ => one (isDigitOf 16)
  let n := valueOf 16 digits
  if n.isValidChar then return Char.ofNat n else failure

/-- What comes after the backslash of an escape. -/
def escaped : Scan Char := do
  match ← any with
  | 'b' => return '\x08'
  | 't' => return '\t'
  | 'n' => return '\n'
  | 'f' => return '\x0c'
  | 'r' => return '\x0d'
  | '\"' => return '\"'
  | '\\' => return '\\'
  | 'u' => numbered 4
  | 'U' => numbered 8
  | _ => failure

/-- The next character of a string on one line, or its end. -/
def basicPiece : Scan (Option Char) := do
  match ← any with
  | '\"' => return none
  | '\\' => some <$> escaped
  | c => if isPlain c then return some c else failure

def basic : Scan (List Char) := do
  exactly "\""
  repeated basicPiece

/-- Nothing is escaped between single quotes. -/
def literal : Scan (List Char) := do
  exactly "'"
  let s ← every fun c => isPlain c && c ≠ '\''
  exactly "'"
  return s

/-- A backslash at the end of a line takes the blanks and line ends after it along. -/
def folded : Scan (List Char) := do
  gap
  newline
  discard (many (newline <|> discard (one isGap)))
  return []

def longBasicPiece : Scan (List Char) := do
  match ← peek with
  | some '\\' =>
    discard any
    folded <|> (List.singleton <$> escaped)
  | _ => (do newline; return ['\n']) <|> (List.singleton <$> one isPlain)

def longLiteralPiece : Scan (List Char) :=
  (do newline; return ['\n']) <|> (List.singleton <$> one isPlain)

/-- The rest of a string of several lines: three quotes end it, and up to two more before them
belong to it. -/
def longBody (quote : Char) (piece : Scan (List Char)) : Nat → Scan (List Char)
  | 0 => failure
  | fuel + 1 => do
    let quotes := min 5 ((← get).takeWhile (· = quote)).length
    modify (·.drop quotes)
    if 3 ≤ quotes then return List.replicate (quotes - 3) quote
    else if 0 < quotes then return List.replicate quotes quote ++ (← longBody quote piece fuel)
    else return (← piece) ++ (← longBody quote piece fuel)

/-- A line end right after the opening quotes does not count. -/
def long (quote : Char) (piece : Scan (List Char)) : Scan (List Char) := do
  exactly (String.ofList [quote, quote, quote])
  discard (maybe newline)
  longBody quote piece ((← get).length + 1)

def text : Scan String :=
  String.ofList <$> (long '\"' longBasicPiece <|> basic <|> long '\'' longLiteralPiece <|> literal)

def isBare (c : Char) : Bool := c.isAlphanum || c = '-' || c = '_'

def bare : Scan (List Char) := do
  let s ← every isBare
  if s = [] then failure else return s

def keyPart : Scan String := do
  gap
  let s ← basic <|> literal <|> bare
  gap
  return String.ofList s

/-- Lists and tables stand in each other less deep than this, and keys have fewer parts. -/
def nestingLimit : Nat := 80

/-- A key: one part or several, with points between them. -/
def key : Scan (List String) := do
  let first ← keyPart
  let rest ← many do exactly "."; keyPart
  if rest.length + 1 < nestingLimit then return first :: rest else failure

end NetPool.Toml
