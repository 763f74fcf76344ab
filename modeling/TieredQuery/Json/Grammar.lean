import TieredQuery.Json.Numeral

/-!
# Lists and objects

The loops over the items of a list and the members of an object, for any reader of an item. Both
stop before the closing bracket; `leaveList` and `leaveObject` go past it. A container is left
even when its content was at fault: the content's fault counts, but a pending one is placed where
the reader has arrived then.
-/

namespace TieredQuery.Json

/-! ## Items -/

/-- Goes to the next item of a list: whether there is one, and the text from there. -/
def nextItem (first : Bool) (s : List Char) : Except Fault (Bool × List Char) :=
  match skipBlanks s with
  | [] => .error (.here .listEnds [])
  | ']' :: rest => .ok (false, ']' :: rest)
  | c :: rest =>
    if first then .ok (true, c :: rest)
    else if c ≠ ',' then .error (.next .expectedListSeparator (c :: rest))
    else match skipBlanks rest with
      | ']' :: after => .error (.next .trailingComma (']' :: after))
      | [] => .error (.here .valueEnds [])
      | after => .ok (true, after)

/-- Reads the items of a list. Every item takes at least one character, so `fuel` may be the
    length of the text. `read` holds the items read so far, the last one first. -/
def itemsLoop {α : Type} (item : Reader α) :
    (fuel : Nat) → (read : List α) → Reader (List α)
  -- not reached with as much fuel as the text is long: the text ends before
  | 0, _, _ => .error (.here .listEnds [])
  | fuel + 1, read, s =>
    match nextItem read.isEmpty s with
    | .error fault => .error fault
    | .ok (false, rest) => .ok (read.reverse, rest)
    | .ok (true, rest) =>
      match item rest with
      | .error fault => .error fault
      | .ok (a, rest) => itemsLoop item fuel (a :: read) rest

/-- The items of a list, up to its closing bracket. -/
def items {α : Type} (item : Reader α) : Reader (List α) := fun s =>
  itemsLoop item (s.length + 1) [] s

/-! ## Members -/

/-- Reads the key of the next member of an object, if there is one. -/
def nextKey (first : Bool) (s : List Char) : Except Fault (Option String × List Char) :=
  match skipBlanks s with
  | [] => .error (.here .objectEnds [])
  | '}' :: rest => .ok (none, '}' :: rest)
  | c :: rest =>
    if first then key (c :: rest)
    else if c ≠ ',' then .error (.next .expectedObjectSeparator (c :: rest))
    else match skipBlanks rest with
      | '}' :: after => .error (.next .trailingComma ('}' :: after))
      | [] => .error (.here .valueEnds [])
      | after => key after
where
  /-- Reads a key at the front of a text. -/
  key : List Char → Except Fault (Option String × List Char)
    | '"' :: rest =>
      match stringBody [] rest with
      | .error fault => .error fault
      | .ok (key, rest) => .ok (some key, rest)
    | s => .error (.next .keyNotString s)

/-- Goes past the colon after a key. -/
def colon (s : List Char) : Except Fault (List Char) :=
  match skipBlanks s with
  | [] => .error (.here .objectEnds [])
  | ':' :: rest => .ok rest
  | s => .error (.next .expectedColon s)

/-- Reads the members of an object. `member` takes a key and what was gathered so far, and reads
    from the colon on. Every member takes at least one character, so `fuel` may be the length of
    the text. -/
def membersLoop {σ : Type} (member : String → σ → Reader σ) :
    (fuel : Nat) → (first : Bool) → (gathered : σ) → Reader σ
  | 0, _, _, _ => .error (.here .objectEnds [])
  | fuel + 1, first, gathered, s =>
    match nextKey first s with
    | .error fault => .error fault
    | .ok (none, rest) => .ok (gathered, rest)
    | .ok (some key, rest) =>
      match member key gathered rest with
      | .error fault => .error fault
      | .ok (gathered, rest) => membersLoop member fuel false gathered rest

/-- The members of an object, up to its closing brace. -/
def members {σ : Type} (member : String → σ → Reader σ) (none : σ) : Reader σ := fun s =>
  membersLoop member (s.length + 1) true none s

/-- A member whose value is entered under its key; of two with one key the last counts. -/
def entry {α : Type} (item : Reader α) (key : String) (d : Dictionary α) : Reader (Dictionary α) :=
  fun s => do
    let s ← colon s
    let (a, s) ← item s
    return (d.insert key a, s)

/-! ## Leaving -/

/-- Goes past the closing bracket of a list: the text arrived at, and a fault if there is one. -/
def leaveList (s : List Char) : List Char × Option Fault :=
  match skipBlanks s with
  | [] => ([], some (.here .listEnds []))
  | ']' :: rest => (rest, none)
  | ',' :: rest =>
    -- the comma is gone past before the fault is placed, which it is not in an object
    match skipBlanks rest with
    | ']' :: after => (']' :: after, some (.next .trailingComma (']' :: after)))
    | after => (after, some (.next .trailingCharacters after))
  | s => (s, some (.next .trailingCharacters s))

/-- Goes past the closing brace of an object. -/
def leaveObject (s : List Char) : List Char × Option Fault :=
  match skipBlanks s with
  | [] => ([], some (.here .objectEnds []))
  | '}' :: rest => (rest, none)
  | ',' :: rest => (',' :: rest, some (.next .trailingComma (',' :: rest)))
  | s => (s, some (.next .trailingCharacters s))

/-- Reads the content of a container and leaves it. -/
def within {α : Type} (leave : List Char → List Char × Option Fault) (content : Reader α) :
    Reader α := fun s =>
  match content s with
  -- a fault that has its place keeps it, and one that is pending is placed after leaving
  | .error (.placed cause unread) => .error (.placed cause unread)
  | .error (.pending cause rest) => .error (.here cause (leave rest).1)
  | .ok (a, rest) =>
    match leave rest with
    | (_, some fault) => .error fault
    | (rest, none) => .ok (a, rest)

/-- Enters a container if it is not nested too deep; `s` starts with the opening bracket. -/
def nested {α : Type} (leave : List Char → List Char × Option Fault)
    (content : Nat → Reader α) : (levels : Nat) → Reader α
  | 0, s => .error (.next .nestedTooDeep s)
  | levels + 1, s => within leave (content levels) (s.drop 1)

/-! ## Any value -/

/-- Reads null, a truth value, a number or a string. -/
def scalar (s : List Char) : Except Fault (Value × List Char) :=
  match s with
  | 'n' :: rest => word .null ['u', 'l', 'l'] rest
  | 't' :: rest => word (.bool true) ['r', 'u', 'e'] rest
  | 'f' :: rest => word (.bool false) ['a', 'l', 's', 'e'] rest
  | '"' :: rest =>
    match stringBody [] rest with
    | .error fault => .error fault
    | .ok (s, rest) => .ok (.str s, rest)
  | c :: rest =>
    if c = '-' ∨ c.isDigit then number (c :: rest) else .error (.next .expectedValue (c :: rest))
  | [] => .error (.here .valueEnds [])

/-- Reads any value, given readers for arrays and objects from their brackets on. -/
def valueWith (list object : Reader Value) : Reader Value := fun s =>
  match skipBlanks s with
  | '[' :: rest => list ('[' :: rest)
  | '{' :: rest => object ('{' :: rest)
  | s => scalar s

/-- Reads any value that nests arrays and objects at most `levels` deep. -/
def value : (levels : Nat) → Reader Value
  | 0 =>
    let deep : Reader Value := fun s => .error (.next .nestedTooDeep s)
    valueWith deep deep
  | levels + 1 =>
    valueWith
      (fun s => (within leaveList (items (value levels)) (s.drop 1)).map fun (vs, rest) =>
        (.arr vs, rest))
      (fun s => (within leaveObject (members (entry (value levels)) .empty) (s.drop 1)).map
        fun (d, rest) => (.ofDictionary d, rest))

end TieredQuery.Json
