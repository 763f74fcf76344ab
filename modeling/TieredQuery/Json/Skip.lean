import TieredQuery.Json.Grammar

/-!
# Skipping a value

The value of a member that no one asks for is skipped: its grammar is checked, but nothing is
built, so there is no limit to its depth, numbers may have any size and surrogates need not pair.
The open brackets around the place reached are kept in a list, the innermost first.
-/

namespace TieredQuery.Json.Skip

/-- Skips a string after its opening quote. -/
def stringBody (s : List Char) : Except Fault (List Char) :=
  match s with
  | [] => .error (.here .stringEnds [])
  | '"' :: rest => .ok rest
  | '\\' :: 'u' :: rest =>
    match hexUnit rest with
    | .error fault => .error fault
    | .ok (_, ⟨after, _⟩) => stringBody after
  | ['\\'] => .error (.here .stringEnds [])
  | '\\' :: c :: rest =>
    if c ∈ ['"', '\\', '/', 'b', 'f', 'n', 'r', 't'] then stringBody rest
    else .error (.next .invalidEscape (c :: rest))
  | c :: rest =>
    -- the character is not gone past here, as it is by the reader of strings
    if c < ' ' then .error (.here .controlCharacter (c :: rest)) else stringBody rest
termination_by s.length
decreasing_by all_goals simp only [List.length_cons]; omega

/-- A bracket that is open. -/
inductive Bracket where
  | list
  | object
deriving DecidableEq

/-- What may come at the place reached. -/
inductive Expect where
  /-- A value. -/
  | value
  /-- The first item or member after an opening bracket, or the closing bracket. -/
  | first
  /-- A separator or a closing bracket. -/
  | separator
deriving DecidableEq

/-- A place inside a value: what is expected there and the brackets open around it. -/
structure Place where
  expect : Expect
  around : List Bracket

/-- The place after a complete value. -/
def Place.after (around : List Bracket) : Place := ⟨.separator, around⟩

/-- Skips a scalar or an opening bracket. -/
def enter (around : List Bracket) (s : List Char) : Except Fault (Place × List Char) :=
  match s with
  | [] => .error (.here .valueEnds [])
  | '[' :: rest => .ok (⟨.first, .list :: around⟩, rest)
  | '{' :: rest => .ok (⟨.first, .object :: around⟩, rest)
  | '"' :: rest =>
    match stringBody rest with
    | .error fault => .error fault
    | .ok rest => .ok (.after around, rest)
  | c :: rest =>
    if c = '-' ∨ c.isDigit then
      -- only the digits are read: a number that no one asks for has no range
      match Numeral.read .invalidNumber (c :: rest) with
      | .error fault => .error fault
      | .ok (_, rest) => .ok (.after around, rest)
    else
      match scalar (c :: rest) with
      | .error fault => .error fault
      | .ok (_, rest) => .ok (.after around, rest)

/-- Skips a key and its colon. -/
def key (around : List Bracket) (s : List Char) : Except Fault (Place × List Char) :=
  match skipBlanks s with
  | [] => .error (.here .objectEnds [])
  | '"' :: rest =>
    match stringBody rest with
    | .error fault => .error fault
    | .ok rest =>
      match colon rest with
      | .error fault => .error fault
      | .ok rest => .ok (⟨.value, around⟩, rest)
  | s => .error (.next .keyNotString s)

/-- The cause when the text ends inside a bracket. -/
def Bracket.ends : Bracket → Cause
  | .list => .listEnds
  | .object => .objectEnds

/-- The closing character of a bracket. -/
def Bracket.closing : Bracket → Char
  | .list => ']'
  | .object => '}'

/-- The cause when neither a separator nor the closing character comes. -/
def Bracket.separatorMissing : Bracket → Cause
  | .list => .expectedListSeparator
  | .object => .expectedObjectSeparator

/-- Skips the next token or two. There is no next place when the value is complete. -/
def step (place : Place) (s : List Char) : Except Fault (Option Place × List Char) :=
  match place.around with
  | [] =>
    -- no bracket is open: the value is still to come, or is complete
    match place.expect with
    | .separator => .ok (none, s)
    | _ => (enter [] (skipBlanks s)).map fun (next, rest) => (some next, rest)
  | bracket :: around =>
    -- the next item of a list, or the next key of an object with its colon
    let item (s : List Char) : Except Fault (Option Place × List Char) :=
      (match bracket with
        | .list => enter (bracket :: around) (skipBlanks s)
        | .object => key (bracket :: around) s).map fun (next, rest) => (some next, rest)
    match place.expect with
    | .value => (enter (bracket :: around) (skipBlanks s)).map fun (next, rest) => (some next, rest)
    | .first =>
      match skipBlanks s with
      | [] => .error (.here bracket.ends [])
      | c :: rest =>
        if c = bracket.closing then .ok (some (.after around), rest) else item (c :: rest)
    | .separator =>
      match skipBlanks s with
      | [] => .error (.here bracket.ends [])
      | c :: rest =>
        if c = ',' then item rest
        else if c = bracket.closing then .ok (some (.after around), rest)
        else .error (.next bracket.separatorMissing (c :: rest))

/-- Skips on until the value is complete. Every step but the last takes at least one character. -/
def run : (fuel : Nat) → Place → List Char → Except Fault (List Char)
  | 0, _, _ => .error (.here .valueEnds [])
  | fuel + 1, place, s =>
    match step place s with
    | .error fault => .error fault
    | .ok (none, rest) => .ok rest
    | .ok (some next, rest) => run fuel next rest

/-- Skips a value. -/
def value (s : List Char) : Except Fault (List Char) := run (s.length + 2) ⟨.value, []⟩ s

end TieredQuery.Json.Skip
