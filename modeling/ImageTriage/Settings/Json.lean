/-!
# Reading JSON

Readers for JSON text. Each takes the characters that are left and answers what it read with the
characters after it, or `none` when the text is not as it should be.

A record is read by its fields: from an object with the names of the fields, or from an array with
their values in order. What is left out keeps its default, and members of other names are passed
over. To pass over a value, `skip` keeps the brackets that are open in a list, so depth costs no
stack.
-/

namespace ImageTriage.Json

/-- A reader of values. -/
abbrev Reader (α : Type) := List Char → Option (α × List Char)

/-- A blank between tokens. -/
def isBlank (c : Char) : Bool := c == ' ' || c == '\n' || c == '\t' || c == '\r'

/-- The text after its blanks. -/
def skipBlanks (cs : List Char) : List Char := cs.dropWhile isBlank

/-- The text after blanks and the given character. -/
def afterMark (mark : Char) (cs : List Char) : Option (List Char) :=
  match skipBlanks cs with
  | c :: rest => if c = mark then some rest else none
  | [] => none

/-! ## Strings -/

/-- The value of a hexadecimal digit. -/
def hexValue? (c : Char) : Option Nat :=
  if '0' ≤ c ∧ c ≤ '9' then some (c.toNat - 48)
  else if 'a' ≤ c ∧ c ≤ 'f' then some (c.toNat - 87)
  else if 'A' ≤ c ∧ c ≤ 'F' then some (c.toNat - 55)
  else none

/-- The value of four hexadecimal digits. -/
def hexValue4? (a b c d : Char) : Option Nat := do
  return (((← hexValue? a) * 16 + (← hexValue? b)) * 16 + (← hexValue? c)) * 16 + (← hexValue? d)

/-- The characters that an escape of one letter stands for. -/
def escapes : List (Char × Char) :=
  [('"', '"'), ('\\', '\\'), ('/', '/'), ('b', Char.ofNat 8), ('f', Char.ofNat 12), ('n', '\n'),
    ('r', '\r'), ('t', '\t')]

/-- Whether a number is the first half of a surrogate pair. -/
def isHigh (n : Nat) : Bool := 0xD800 ≤ n && n < 0xDC00

/-- Whether a number is the second half of a surrogate pair. -/
def isLow (n : Nat) : Bool := 0xDC00 ≤ n && n < 0xE000

/-- Reads a string after its opening quote, with what was read so far, last character first. Halves
of a surrogate pair must stand together. -/
def stringFrom (found : List Char) : Reader String
  | [] => none
  | '"' :: rest => some (String.ofList found.reverse, rest)
  | '\\' :: 'u' :: a :: b :: c :: d :: '\\' :: 'u' :: e :: f :: g :: h :: rest =>
    match hexValue4? a b c d with
    | none => none
    | some n =>
      if isHigh n then
        match hexValue4? e f g h with
        | none => none
        | some k =>
          if isLow k then
            stringFrom (Char.ofNat (0x10000 + (n - 0xD800) * 0x400 + (k - 0xDC00)) :: found) rest
          else none
      else if isLow n then none
      else stringFrom (Char.ofNat n :: found) ('\\' :: 'u' :: e :: f :: g :: h :: rest)
  | '\\' :: 'u' :: a :: b :: c :: d :: rest =>
    match hexValue4? a b c d with
    | none => none
    | some n => if isHigh n || isLow n then none else stringFrom (Char.ofNat n :: found) rest
  | '\\' :: e :: rest =>
    match escapes.lookup e with
    | none => none
    | some c => stringFrom (c :: found) rest
  | c :: rest => if c = '\\' ∨ c < ' ' then none else stringFrom (c :: found) rest
termination_by cs => cs.length

/-- Reads a string. -/
def string : Reader String := fun cs => do stringFrom [] (← afterMark '"' cs)

/-- The text after a string, from after its opening quote. Numbers of characters are not looked
into. -/
def skipString : List Char → Option (List Char)
  | [] => none
  | '"' :: rest => some rest
  | '\\' :: 'u' :: a :: b :: c :: d :: rest =>
    if (hexValue4? a b c d).isSome then skipString rest else none
  | '\\' :: e :: rest => if (escapes.lookup e).isSome then skipString rest else none
  | c :: rest => if c = '\\' ∨ c < ' ' then none else skipString rest

/-! ## Numbers -/

/-- The text after its digits. -/
def skipDigits (cs : List Char) : List Char := cs.dropWhile Char.isDigit

/-- The text after one digit or more. -/
def skipDigits? : List Char → Option (List Char)
  | c :: rest => if c.isDigit then some (skipDigits rest) else none
  | [] => none

/-- The text after the digits of a whole number, which begins with zero only if it is zero. -/
def skipWhole? : List Char → Option (List Char)
  | '0' :: c :: rest => if c.isDigit then none else some (c :: rest)
  | cs => skipDigits? cs

/-- The text after an exponent, if there is one. -/
def skipExponent? : List Char → Option (List Char)
  | e :: rest =>
    if e = 'e' ∨ e = 'E' then
      match rest with
      | sign :: more => if sign = '+' ∨ sign = '-' then skipDigits? more else skipDigits? rest
      | [] => none
    else some (e :: rest)
  | [] => some []

/-- The text after a fraction and an exponent, if they are there. -/
def skipFraction? : List Char → Option (List Char)
  | '.' :: rest => (skipDigits? rest).bind skipExponent?
  | cs => skipExponent? cs

/-- The text after a number. -/
def skipNumber? : List Char → Option (List Char)
  | '-' :: rest => (skipWhole? rest).bind skipFraction?
  | cs => (skipWhole? cs).bind skipFraction?

/-- The number that digits write, when it has 64 bits. A number that is too large is given up at the
digit that makes it so. -/
def wordOf? (digits : List Char) : Option Nat :=
  digits.foldlM (fun n c =>
    let n := 10 * n + (c.toNat - 48)
    if n < UInt64.size then some n else none) 0

/-- Reads a whole number of 64 bits. It must be written as one: without sign, fraction or
exponent. -/
def word : Reader Nat := fun cs => do
  let cs := skipBlanks cs
  let rest ← skipWhole? cs
  let n ← wordOf? (cs.takeWhile Char.isDigit)
  match rest with
  | c :: _ => guard (c ≠ '.' ∧ c ≠ 'e' ∧ c ≠ 'E')
  | [] => return (n, rest)
  return (n, rest)

/-! ## Passing over a value -/

/-- An open bracket. -/
inductive Bracket where
  | array
  | object
  deriving DecidableEq

/-- The mark that closes a bracket. -/
def Bracket.close : Bracket → Char
  | array => ']'
  | object => '}'

/-- What may come next. -/
inductive Expected where
  | value
  /-- The first part of the innermost bracket, or its end. -/
  | firstOrClose
  /-- Another part of the innermost bracket, or its end. -/
  | commaOrClose

/-- The text after a value without parts. -/
def skipScalar? : List Char → Option (List Char)
  | 'n' :: 'u' :: 'l' :: 'l' :: rest => some rest
  | 't' :: 'r' :: 'u' :: 'e' :: rest => some rest
  | 'f' :: 'a' :: 'l' :: 's' :: 'e' :: rest => some rest
  | '"' :: rest => skipString rest
  | cs => skipNumber? cs

/-- The text after the name of a part, where parts have names. -/
def skipName? (cs : List Char) : Bracket → Option (List Char)
  | .array => some cs
  | .object => do afterMark ':' (← skipString (← afterMark '"' cs))

/-- The text after a value, in at most `steps` steps. Its open brackets are in `inside`, the
innermost first. -/
def skipSteps : Nat → List Bracket → Expected → List Char → Option (List Char)
  | 0, _, _, _ => none
  | steps + 1, inside, .value, cs =>
    match skipBlanks cs with
    | '[' :: rest => skipSteps steps (.array :: inside) .firstOrClose rest
    | '\x7b' :: rest => skipSteps steps (.object :: inside) .firstOrClose rest
    | cs =>
      match skipScalar? cs, inside with
      | none, _ => none
      | some rest, [] => some rest
      | some rest, inside => skipSteps steps inside .commaOrClose rest
  | steps + 1, inside, expected, cs =>
    match inside, skipBlanks cs with
    | bracket :: outside, c :: rest =>
      if c = bracket.close then
        match outside with
        | [] => some rest
        | outside => skipSteps steps outside .commaOrClose rest
      else
        match expected with
        | .commaOrClose =>
          if c = ',' then (skipName? rest bracket).bind (skipSteps steps inside .value) else none
        | _ => (skipName? (c :: rest) bracket).bind (skipSteps steps inside .value)
    | _, _ => none

/-- The text after a value, in a text of at most `bound` characters. Every second step takes a
character, so the steps suffice. -/
def skip (bound : Nat) (cs : List Char) : Option (List Char) :=
  skipSteps (2 * bound + 2) [] .value cs

/-! ## Records -/

/-- A field of a record: its name, and how to read a value into it. -/
structure FieldReader (σ : Type) where
  name : String
  read : Reader (σ → σ)

/-- A field that is read by `reader` and stored by `store`. -/
def FieldReader.of {σ α : Type} (name : String) (reader : Reader α) (store : α → σ → σ) :
    FieldReader σ where
  name
  read cs := (reader cs).map fun (a, rest) => (store a, rest)

variable {σ : Type}

/-- Reads the values of an array into the fields, in order, after the opening bracket. -/
def elements (isFirst : Bool) (s : σ) : List (FieldReader σ) → Reader σ
  | [], cs => (afterMark ']' cs).map fun rest => (s, rest)
  | field :: fields, cs =>
    match afterMark ']' cs with
    | some rest => some (s, rest)
    | none => do
      let cs ← if isFirst then some cs else afterMark ',' cs
      let (store, rest) ← field.read cs
      elements false (store s) fields rest

/-- Reads one member of an object, in a text of at most `bound` characters. The names in `seen` must
not come again. -/
def member (fields : List (FieldReader σ)) (bound : Nat) (seen : List String) (s : σ)
    (cs : List Char) : Option (List String × σ × List Char) := do
  let (name, rest) ← string cs
  let rest ← afterMark ':' rest
  match fields.find? (·.name == name) with
  | none => return (seen, s, ← skip bound rest)
  | some field =>
    guard (name ∉ seen)
    let (store, rest) ← field.read rest
    return (name :: seen, store s, rest)

/-- Reads the members of an object after the opening bracket, in a text of less than `bound`
characters. Each member takes characters, so the bound may fall by one with each; it is not measured
anew, and the time of reading grows with the text alone. -/
def members (fields : List (FieldReader σ)) : Nat → Bool → List String → σ → Reader σ
  | 0, _, _, _, _ => none
  | bound + 1, isFirst, seen, s, cs =>
    match afterMark '}' cs with
    | some rest => some (s, rest)
    | none => do
      let cs ← if isFirst then some cs else afterMark ',' cs
      let (seen, s, rest) ← member fields bound seen s cs
      members fields bound false seen s rest

/-- Reads a record of the given fields; fields that are left out keep their value in `start`. -/
def record (fields : List (FieldReader σ)) (start : σ) : Reader σ := fun cs =>
  match skipBlanks cs with
  | '[' :: rest => elements true start fields rest
  | '\x7b' :: rest => members fields (rest.length + 1) true [] start rest
  | _ => none

/-- Reads a whole text. -/
def whole {α : Type} (reader : Reader α) (cs : List Char) : Option α := do
  let (a, rest) ← reader cs
  guard (skipBlanks rest = [])
  return a

end ImageTriage.Json
