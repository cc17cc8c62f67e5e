/-! Command lines: verbs with verbs of their own below them, and options that take one value. An
option is given as --name value, --name=value, or by its letter. Global options may stand after any
verb; the deepest one counts. -/

namespace NetPool.Command

/-- Why a command line runs nothing. -/
inductive UsageError
  | help
  | version
  /-- Nothing but a verb whose own verbs are wanted. -/
  | bare
  | missingVerb
  | unknownVerb
  | unknownArgument
  | missingValue
  | unneededValue
  | repeatedOption
  | missingOption
deriving DecidableEq

/-- Asking for help or for the version is no error. -/
def UsageError.exitCode : UsageError → Nat
  | .help | .version => 0
  | _ => 2

inductive Verb
  | leaf (options needed : List String)
  | branch (verbs : List (String × Verb))

namespace Verb

def options : Verb → List String
  | leaf options _ => options
  | branch _ => []

def needed : Verb → List String
  | leaf _ needed => needed
  | branch _ => []

def verb? (name : String) : Verb → Option Verb
  | leaf _ _ => none
  | branch verbs => (verbs.find? (·.1 = name)).map (·.2)

def isBranch : Verb → Bool
  | leaf _ _ => false
  | branch _ => true

end Verb

structure Grammar where
  top : Verb
  /-- Options of every verb. -/
  globals : List String
  /-- Options that have a letter. -/
  letters : List (Char × String)

structure Reading where
  values : List (String × String) := []
  /-- The last option, and its value once it has come. -/
  pending : Option (String × Option String) := none
  /-- After two dashes no more options and verbs come. -/
  plain : Bool := false

/-- The verbs of a command line and the values of its options, those of the last verb first. -/
structure Phrase where
  verbs : List String
  values : List (String × String)

namespace Reading

def give (r : Reading) (option value : String) : Except UsageError Reading :=
  if r.values.any (·.1 = option) then throw .repeatedOption
  else return { r with values := (option, value) :: r.values, pending := none }

/-- Takes the last option in. -/
def settle (r : Reading) : Except UsageError Reading :=
  match r.pending with
  | none => return r
  | some (_, none) => throw .missingValue
  | some (option, some value) => r.give option value

def awaits (r : Reading) : Bool :=
  match r.pending with
  | some (_, none) => true
  | _ => false

def expect (r : Reading) (option : String) : Except UsageError Reading := do
  return { ← r.settle with pending := some (option, none) }

def attach (r : Reading) (option value : String) : Except UsageError Reading := do
  (← r.settle).give option value

def receive (r : Reading) (value : String) : Reading :=
  { r with pending := r.pending.map fun (option, _) => (option, some value) }

/-- Help and version show at once, unless an option lacks its value. -/
def stop (r : Reading) (e : UsageError) : Except UsageError α := do
  discard r.settle
  throw e

end Reading

namespace Grammar

def takes (g : Grammar) (v : Verb) (option : String) : Bool :=
  g.globals.contains option || v.options.contains option

/-- An argument that starts with two dashes, without them. -/
def readLong (g : Grammar) (v : Verb) (isTop : Bool) (r : Reading) (name : List Char) :
    Except UsageError Reading :=
  let option := String.ofList (name.takeWhile (· ≠ '='))
  let flag : Option UsageError :=
    if option = "help" then some .help
    else if option = "version" ∧ isTop then some .version
    else none
  match flag, (name.dropWhile (· ≠ '=')) with
  | some _, _ :: _ => throw .unneededValue
  | some e, [] => r.stop e
  | none, value =>
    if !g.takes v option then throw .unknownArgument
    else match value with
      | [] => r.expect option
      | _ :: value => r.attach option (String.ofList value)

/-- The letters after a single dash; the first option among them takes the rest as its value. -/
def readLetters (g : Grammar) (isTop : Bool) (r : Reading) : List Char → Except UsageError Reading
  | [] => return r
  | 'h' :: _ => r.stop .help
  | c :: rest =>
    if c = 'V' ∧ isTop then r.stop .version
    else match g.letters.lookup c, rest with
      | none, _ => throw .unknownArgument
      | some option, [] => r.expect option
      | some option, '=' :: value => r.attach option (String.ofList value)
      | some option, value => r.attach option (String.ofList value)

/-- An argument that is neither an option nor a verb nor a value. -/
def stray (v : Verb) (plain : Bool) (a : String) : UsageError :=
  if !v.isBranch then .unknownArgument
  else if plain ∧ (a = "help" ∨ (v.verb? a).isSome) then .unknownArgument
  else .unknownVerb

/-- Help on a verb, by its names from the top. -/
def helpOn (v : Verb) : List String → UsageError
  | [] => .help
  | name :: rest =>
    if !v.isBranch then .unknownVerb
    else match v.verb? name with
      | some w => helpOn w rest
      | none => if name = "help" ∧ rest = [] then .help else .unknownVerb

/-- Everything is read; a branch still wants a verb, and a leaf its options. -/
def finish (v : Verb) (r : Reading) : Except UsageError Phrase := do
  let r ← r.settle
  if v.isBranch then throw (if r.values = [] then .bare else .missingVerb)
  if v.needed.any fun o => !r.values.any (·.1 = o) then throw .missingOption
  return { verbs := [], values := r.values }

def readFrom (g : Grammar) (v : Verb) (isTop : Bool) (r : Reading) :
    List String → Except UsageError Phrase
  | [] => finish v r
  | a :: rest => do
    if r.plain then throw (stray v true a)
    else if !r.awaits ∧ v.isBranch ∧ a = "help" then throw (helpOn v rest)
    else match if r.awaits then none else v.verb? a with
      | some w =>
        let p ← g.readFrom w false {} rest
        let r ← r.settle
        return { verbs := a :: p.verbs, values := p.values ++ r.values }
      | none =>
        match a.toList with
        | ['-', '-'] => g.readFrom v isTop { r with plain := true } rest
        | '-' :: '-' :: name => g.readFrom v isTop (← g.readLong v isTop r name) rest
        | '-' :: c :: letters => g.readFrom v isTop (← g.readLetters isTop r (c :: letters)) rest
        | _ =>
          if r.awaits then g.readFrom v isTop (r.receive a) rest
          else throw (stray v false a)

def read (g : Grammar) (args : List String) : Except UsageError Phrase := g.readFrom g.top true {} args

end Grammar

end NetPool.Command
