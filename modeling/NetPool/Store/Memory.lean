import NetPool.Store.Basic

/-! A store in memory: an index by key, a bounded history of writes, named locks. It can be made
unavailable, and a number of creations can be made to fail. -/

namespace NetPool

structure Store where
  revision : Nat
  /-- Ascending by key, each key once. -/
  entries : List KeyValue
  /-- Ascending by revision. -/
  history : List Event
  /-- Writes below this revision may be gone from the history. -/
  floor : Nat
  historyLimit : Nat
  locks : List Grant
  lastToken : Nat
  failingCreations : Nat
  available : Bool

namespace Store

/-- At least one write is kept, whatever the limit. -/
def empty (historyLimit : Nat) : Store where
  revision := 0
  entries := []
  history := []
  floor := 0
  historyLimit := max historyLimit 1
  locks := []
  lastToken := 0
  failingCreations := 0
  available := true

def find? (s : Store) (key : String) : Option KeyValue := s.entries.find? (·.key = key)

/-- Puts an entry where its key belongs, in place of an entry with that key. -/
def place (e : KeyValue) : List KeyValue → List KeyValue
  | [] => [e]
  | a :: rest =>
    if a.key < e.key then a :: place e rest
    else if a.key = e.key then e :: rest
    else e :: a :: rest

/-- Adds a write to the history, which lets go of its oldest ones past the limit. -/
def record (s : Store) (e : Event) : Store :=
  let all := s.history ++ [e]
  let excess := all.length - s.historyLimit
  { s with
    history := all.drop excess
    floor := match (all.take excess).getLast? with
      | none => s.floor
      | some oldest => oldest.revision + 1 }

/-- The write of a value; the key keeps the revision at which it came to be. -/
def write (s : Store) (key : String) (value : Bytes) : Store :=
  let revision := s.revision + 1
  let entry : KeyValue :=
    { key, value, created := ((s.find? key).map (·.created)).getD revision, modified := revision }
  { s with revision, entries := place entry s.entries }.record { change := .put, entry, revision }

def erase (s : Store) (entry : KeyValue) : Store :=
  let revision := s.revision + 1
  { s with revision, entries := s.entries.filter (·.key ≠ entry.key) }.record
    { change := .delete, entry, revision }

def reachable (s : Store) : Except StoreError Unit :=
  if s.available then .ok () else .error (.unavailable "memory store marked unavailable")

/-- All entries whose key starts with a text: they stand together. -/
def range (s : Store) (start : String) : Except StoreError Snapshot := do
  s.reachable
  return { entries := (s.entries.dropWhile (·.key < start)).takeWhile (startsWith ·.key start)
           revision := s.revision }

def get (s : Store) (key : String) : Except StoreError (Option KeyValue) := do
  s.reachable
  return s.find? key

def put (s : Store) (key : String) (value : Bytes) : Except StoreError Nat × Store :=
  match s.reachable with
  | .error e => (.error e, s)
  | .ok () => (.ok (s.revision + 1), s.write key value)

/-- Writes the key only if it is absent. -/
def create (s : Store) (key : String) (value : Bytes) : Except StoreError Creation × Store :=
  match s.reachable with
  | .error e => (.error e, s)
  | .ok () =>
    if 0 < s.failingCreations then
      (.error (.unavailable "injected create failure"),
        { s with failingCreations := s.failingCreations - 1 })
    else if (s.find? key).isSome then (.ok .alreadyExists, s)
    else (.ok (.created (s.revision + 1)), s.write key value)

def delete (s : Store) (key : String) : Except StoreError Bool × Store :=
  match s.reachable with
  | .error e => (.error e, s)
  | .ok () =>
    match s.find? key with
    | none => (.ok false, s)
    | some entry => (.ok true, s.erase entry)

/-- Deletes the key only if `modified` is the revision of its last write. -/
def compareAndDelete (s : Store) (key : String) (modified : Nat) : Except StoreError Bool × Store :=
  match s.reachable with
  | .error e => (.error e, s)
  | .ok () =>
    match s.find? key with
    | none => (.ok false, s)
    | some entry => if entry.modified = modified then (.ok true, s.erase entry) else (.ok false, s)

/-- Events in scope after a revision; `none` when there is none yet. -/
def watch (s : Store) (scope : Scope) (after : Nat) : Except StoreError (Option Batch) := do
  s.reachable
  if after + 1 < s.floor then throw (.compacted after s.floor)
  let events := s.history.filter fun e => after < e.revision && scope.covers e.entry.key
  return if events.isEmpty then none else some { events, revision := s.revision }

def isLocked (s : Store) (name : String) : Bool := s.locks.any (·.name = name)

/-- Grants a lock that is free; `none` while it is held. -/
def lock (s : Store) (name : String) : Except StoreError (Option Grant) × Store :=
  match s.reachable with
  | .error e => (.error e, s)
  | .ok () =>
    if s.isLocked name then (.ok none, s)
    else
      let grant : Grant := { name, token := s.lastToken + 1 }
      (.ok (some grant), { s with locks := grant :: s.locks, lastToken := s.lastToken + 1 })

/-- Frees a lock held under this very grant; works while the store is unavailable. -/
def unlock (s : Store) (grant : Grant) : Except StoreError Unit × Store :=
  if grant ∈ s.locks then (.ok (), { s with locks := s.locks.filter (· ≠ grant) })
  else (.error (.internal ("lock " ++ grant.name ++ " is not held by this session")), s)

/-- Lets go of the history below a revision; the number of writes dropped. -/
def compact (s : Store) (revision : Nat) : Nat × Store :=
  let revision := min revision s.revision
  if revision ≤ s.floor then (0, s)
  else
    ((s.history.filter (·.revision < revision)).length,
      { s with history := s.history.filter (revision ≤ ·.revision), floor := revision })

end Store

end NetPool
