/-! Readers that take what they can use from the front of a text and leave the rest. One that fails
takes nothing. -/

namespace NetPool.Toml

abbrev Scan := StateT (List Char) Option

namespace Scan

def peek : Scan (Option Char) := do return (← get).head?

def any : Scan Char
  | [] => none
  | c :: rest => some (c, rest)

def one (p : Char → Bool) : Scan Char := do
  let c ← any
  if p c then return c else failure

def exactly (s : String) : Scan Unit := fun text =>
  (s.toList.isPrefixOf? text).map fun rest => ((), rest)

/-- As many characters as fit. -/
def every (p : Char → Bool) : Scan (List Char) := modifyGet (·.span p)

def finished : Scan Unit := do if (← get) ≠ [] then failure

def maybe (x : Scan α) : Scan (Option α) := (some <$> x) <|> pure none

/-- Repeats a reader until it has no more to give; it has to take something each time. -/
def repeated (x : Scan (Option α)) : Scan (List α) := do go ((← get).length + 1)
where
  go : Nat → Scan (List α)
    | 0 => failure
    | fuel + 1 => do
      match ← x with
      | none => return []
      | some a => return a :: (← go fuel)

/-- As often as a reader succeeds. -/
def many (x : Scan α) : Scan (List α) := repeated (maybe x)

end Scan

end NetPool.Toml
