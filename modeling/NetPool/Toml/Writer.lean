import NetPool.Number.Shortest
import NetPool.Settings.Tree
import NetPool.Toml.Text

/-! Writing settings as a TOML document. -/

namespace NetPool.Toml

/-- The longest row of one character. -/
def longestRow (c : Char) (s : List Char) : Nat :=
  (s.foldl (fun (longest, row) d =>
    let row := if d = c then row + 1 else 0
    (max longest row, row)) (0, 0)).1

/-- A control character other than the blank ones that a string may hold. -/
def needsEscape (c : Char) : Bool := !isPlain c && c ≠ '\n'

inductive Style
  | basic
  | literal
  | longBasic
  | longLiteral
deriving DecidableEq

/-- The plainest way: without escapes if there is one, on one line if it can be. -/
def Style.of (s : List Char) : Style :=
  let control := s.any needsEscape
  let backslash := s.contains '\\'
  let newline := s.contains '\n'
  let double := longestRow '\"' s
  let single := longestRow '\'' s
  if !control && !backslash && double = 0 && !newline then .basic
  else if !control && single = 0 && !newline then .literal
  else if !control && !backslash && double ≤ 2 then .longBasic
  else if !control && single ≤ 2 then .longLiteral
  else if newline then .longBasic
  else .basic

def numberEscape (c : Char) : List Char :=
  let digits := (Nat.toDigits 16 c.toNat).map Char.toUpper
  '\\' :: 'u' :: digits.leftpad 4 '0'

/-- The characters of a string between double quotes. `allowed` quotes in a row stand for
themselves, the next one is escaped. -/
def escape (isLong : Bool) (allowed row : Nat) : List Char → List Char
  | [] => []
  | c :: rest =>
    if c = '\"' then
      if row < allowed then c :: escape isLong allowed (row + 1) rest
      else '\\' :: c :: escape isLong allowed 0 rest
    else
      let written := match c.toNat with
        | 0x08 => ['\\', 'b']
        | 0x09 => ['\\', 't']
        | 0x0A => if isLong then ['\n'] else ['\\', 'n']
        | 0x0C => ['\\', 'f']
        | 0x0D => ['\\', 'r']
        | 0x5C => ['\\', '\\']
        | _ => if isPlain c then [c] else numberEscape c
      written ++ escape isLong allowed 0 rest

/-- A string of several lines starts on a line of its own. -/
def quoted (s : String) : String :=
  let cs := s.toList
  let start := if cs.contains '\n' then "\n" else ""
  match Style.of cs with
  | .basic => "\"" ++ String.ofList (escape false 0 0 cs) ++ "\""
  | .literal => "'" ++ s ++ "'"
  | .longBasic => "\"\"\"" ++ start ++ String.ofList (escape true 2 0 cs) ++ "\"\"\""
  | .longLiteral => "'''" ++ start ++ s ++ "'''"

def keyText (key : String) : String :=
  if key ≠ "" ∧ key.toList.all isBare then key else quoted key

def valueText : Setting → String
  | .null => ""
  | .bool b => if b then "true" else "false"
  | .integer n => Setting.integerText n
  | .real x => Number.toml.write x
  | .text s => quoted s
  | .moment s => s
  | .list items => "[" ++ String.intercalate ", " (itemTexts items) ++ "]"
  | .table members => "\x7b " ++ String.intercalate ", " (memberTexts members) ++ " \x7d"
where
  itemTexts : List Setting → List String
    | [] => []
    | s :: rest => valueText s :: itemTexts rest
  memberTexts : List (String × Setting) → List String
    | [] => []
    | (key, s) :: rest => (keyText key ++ " = " ++ valueText s) :: memberTexts rest

/-- One line for each member that is set. -/
def memberLines (members : List (String × Setting)) : List String :=
  members.filterMap fun (key, s) => match s with
    | .null => none
    | s => some (keyText key ++ " = " ++ valueText s)

def members? : Setting → Option (List (String × Setting))
  | .table members => some members
  | _ => none

/-- The sections of a member: one for a table, one for each table of a list. -/
def sections : String × Setting → List (List String)
  | (key, .table members) => [("[" ++ keyText key ++ "]") :: memberLines members]
  | (key, .list items) => (items.filterMap members?).map fun members =>
      ("[[" ++ keyText key ++ "]]") :: memberLines members
  | _ => []

/-- The lines of a document: its plain members, then its sections, a blank line before each. -/
def documentLines (members : List (String × Setting)) : List String :=
  let plain := memberLines (members.filter fun m => (sections m).isEmpty)
  let blocks := (if plain = [] then [] else [plain]) ++ members.flatMap sections
  [""].intercalate blocks

end NetPool.Toml
