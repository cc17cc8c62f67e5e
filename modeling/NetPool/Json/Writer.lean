import NetPool.Json.Basic

/-! Writing JSON: compact on one line, or indented by two blanks. -/

namespace NetPool.Json

def hexDigit (n : Nat) : Char := if n < 10 then Char.ofNat (0x30 + n) else Char.ofNat (0x57 + n)

/-- Control characters, the quote and the backslash are escaped, all else stands as it is. -/
def escape (c : Char) : List Char :=
  match c.toNat with
  | 0x22 => ['\\', '\"']
  | 0x5C => ['\\', '\\']
  | 0x08 => ['\\', 'b']
  | 0x0C => ['\\', 'f']
  | 0x0A => ['\\', 'n']
  | 0x0D => ['\\', 'r']
  | 0x09 => ['\\', 't']
  | n => if n < 0x20 then ['\\', 'u', '0', '0', hexDigit (n / 16), hexDigit (n % 16)] else [c]

def quoted (s : String) : String :=
  String.ofList ('\"' :: s.toList.flatMap escape ++ ['\"'])

namespace Value

/-- A string without valid text is written as the empty one. -/
def compact : Value → String
  | .null => "null"
  | .bool b => if b then "true" else "false"
  | .number n => n
  | .text s => quoted (s.getD "")
  | .list items => "[" ++ String.intercalate "," (itemTexts items) ++ "]"
  | .record members => "\x7b" ++ String.intercalate "," (memberTexts members) ++ "\x7d"
where
  itemTexts : List Value → List String
    | [] => []
    | v :: rest => compact v :: itemTexts rest
  memberTexts : List (Option String × Value) → List String
    | [] => []
    | (name, v) :: rest => (quoted (name.getD "") ++ ":" ++ compact v) :: memberTexts rest

/-- The lines of a value, its own indentation left to the caller. -/
def prettyLines : Value → List String
  | .list items => block "[" "]" (itemBlocks items)
  | .record members => block "\x7b" "\x7d" (memberBlocks members)
  | v => [compact v]
where
  block (opening closing : String) (blocks : List (List String)) : List String :=
    match blocks with
    | [] => [opening ++ closing]
    | _ => opening :: (separated blocks).map ("  " ++ ·) ++ [closing]
  separated : List (List String) → List String
    | [] => []
    | [last] => last
    | b :: rest => b.dropLast ++ (b.getLast?.map (· ++ ",")).toList ++ separated rest
  itemBlocks : List Value → List (List String)
    | [] => []
    | v :: rest => prettyLines v :: itemBlocks rest
  memberBlocks : List (Option String × Value) → List (List String)
    | [] => []
    | (name, v) :: rest =>
      let named := match prettyLines v with
        | [] => []
        | first :: more => (quoted (name.getD "") ++ ": " ++ first) :: more
      named :: memberBlocks rest

def pretty (v : Value) : String := String.intercalate "\n" v.prettyLines

end Value

end NetPool.Json
