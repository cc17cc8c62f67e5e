import NetPool.Text.Bytes

/-! The tokens of a JSON text. -/

namespace NetPool.Json

inductive Token
  | openRecord
  | closeRecord
  | openList
  | closeList
  | colon
  | comma
  | null
  | bool (b : Bool)
  | number (spelling : String)
  | text (s : Option String)
deriving DecidableEq

/-- What one step through a string yields: a byte, or a 16-bit unit written as an escape. -/
inductive Piece
  | byte (b : UInt8)
  | unit (n : Nat)
deriving DecidableEq

def hexDigit? (b : UInt8) : Option Nat :=
  let n := b.toNat
  if 0x30 ≤ n ∧ n ≤ 0x39 then some (n - 0x30)
  else if 0x61 ≤ n ∧ n ≤ 0x66 then some (n - 0x57)
  else if 0x41 ≤ n ∧ n ≤ 0x46 then some (n - 0x37)
  else none

def hexUnit? (a b c d : UInt8) : Option Nat := do
  return (← hexDigit? a) * 4096 + (← hexDigit? b) * 256 + (← hexDigit? c) * 16 + (← hexDigit? d)

/-- The byte that a one-letter escape stands for. -/
def escape? (b : UInt8) : Option UInt8 :=
  match b.toNat with
  | 0x22 => some 0x22
  | 0x5C => some 0x5C
  | 0x2F => some 0x2F
  | 0x62 => some 0x08
  | 0x66 => some 0x0C
  | 0x6E => some 0x0A
  | 0x72 => some 0x0D
  | 0x74 => some 0x09
  | _ => none

/-- The rest of a string after its opening quote: its pieces, last first, and what follows the
closing quote. Control characters must be escaped. -/
def stringBody (seen : List Piece) : Bytes → Option (List Piece × Bytes)
  | [] => none
  | 0x22 :: rest => some (seen, rest)
  | 0x5C :: 0x75 :: a :: b :: c :: d :: rest =>
    match hexUnit? a b c d with
    | some u => stringBody (.unit u :: seen) rest
    | none => none
  | 0x5C :: e :: rest =>
    match escape? e with
    | some b => stringBody (.byte b :: seen) rest
    | none => none
  | b :: rest => if b < 0x20 then none else stringBody (.byte b :: seen) rest

def utf8Of (n : Nat) : Bytes := Text.utf8 (String.singleton (Char.ofNat n))

/-- The bytes of a string, given its pieces last first. A high unit needs a low one after it, and
a low one needs a high one before it. -/
def pieceBytes (done : Bytes) : List Piece → Option Bytes
  | [] => some done
  | .byte b :: rest => pieceBytes (b :: done) rest
  | .unit low :: .unit high :: rest =>
    if 0xDC00 ≤ low ∧ low < 0xE000 then
      if 0xD800 ≤ high ∧ high < 0xDC00 then
        pieceBytes (utf8Of (0x10000 + (high - 0xD800) * 1024 + (low - 0xDC00)) ++ done) rest
      else none
    else if 0xD800 ≤ low ∧ low < 0xDC00 then none
    else pieceBytes (utf8Of low ++ done) (.unit high :: rest)
  | .unit n :: rest =>
    if 0xD800 ≤ n ∧ n < 0xE000 then none else pieceBytes (utf8Of n ++ done) rest

def isDigit (b : UInt8) : Bool := 0x30 ≤ b && b ≤ 0x39

/-- Splits off a part of a number: what was read, and what follows. -/
abbrev Part := Bytes → Option (Bytes × Bytes)

def digitRun : Part := fun s =>
  match s.span isDigit with
  | ([], _) => none
  | (ds, rest) => some (ds, rest)

def minus : Part
  | 0x2D :: rest => some ([0x2D], rest)
  | s => some ([], s)

/-- A zero alone, or digits that start with another one. -/
def whole : Part
  | 0x30 :: rest => some ([0x30], rest)
  | s => digitRun s

def fraction : Part
  | 0x2E :: rest => (digitRun rest).map fun (ds, rest) => (0x2E :: ds, rest)
  | s => some ([], s)

def signedRun : Part
  | 0x2B :: rest => (digitRun rest).map fun (ds, rest) => (0x2B :: ds, rest)
  | 0x2D :: rest => (digitRun rest).map fun (ds, rest) => (0x2D :: ds, rest)
  | s => digitRun s

def exponent : Part
  | 0x65 :: rest => (signedRun rest).map fun (ds, rest) => (0x65 :: ds, rest)
  | 0x45 :: rest => (signedRun rest).map fun (ds, rest) => (0x45 :: ds, rest)
  | s => some ([], s)

/-- A sign, a whole part, a fraction and an exponent; only the whole part has to be there. -/
def numberSpelling? : Part := fun s => do
  let (a, s) ← minus s
  let (b, s) ← whole s
  let (c, s) ← fraction s
  let (d, s) ← exponent s
  return (a ++ b ++ c ++ d, s)

/-- One token at the start of a text, and what follows it. -/
def Token.first? : Bytes → Option (Token × Bytes)
  | 0x7B :: rest => some (.openRecord, rest)
  | 0x7D :: rest => some (.closeRecord, rest)
  | 0x5B :: rest => some (.openList, rest)
  | 0x5D :: rest => some (.closeList, rest)
  | 0x3A :: rest => some (.colon, rest)
  | 0x2C :: rest => some (.comma, rest)
  | 0x6E :: 0x75 :: 0x6C :: 0x6C :: rest => some (.null, rest)
  | 0x74 :: 0x72 :: 0x75 :: 0x65 :: rest => some (.bool true, rest)
  | 0x66 :: 0x61 :: 0x6C :: 0x73 :: 0x65 :: rest => some (.bool false, rest)
  | 0x22 :: rest => (stringBody [] rest).map fun (pieces, rest) =>
      (.text ((pieceBytes [] pieces).bind Text.ofUtf8?), rest)
  | s => (numberSpelling? s).bind fun (spelling, rest) =>
      (Text.ofUtf8? spelling).map fun n => (.number n, rest)

def isSpace (b : UInt8) : Bool := b == 0x20 || b == 0x0A || b == 0x0D || b == 0x09

/-- The tokens of a text, those already read last first. A token takes a byte at least, so the
length of the text bounds their number. -/
def Token.scan (seen : List Token) : Nat → Bytes → Option (List Token)
  | 0, s => if s.all isSpace then some seen.reverse else none
  | n + 1, s =>
    match s.dropWhile isSpace with
    | [] => some seen.reverse
    | b :: rest =>
      match Token.first? (b :: rest) with
      | some (t, rest) => Token.scan (t :: seen) n rest
      | none => none

def Token.ofBytes? (s : Bytes) : Option (List Token) := Token.scan [] s.length s

end NetPool.Json
