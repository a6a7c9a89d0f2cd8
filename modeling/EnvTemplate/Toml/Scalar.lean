import EnvTemplate.Toml.Lexeme
import EnvTemplate.Toml.Value

/-!
Numbers and moments in TOML.  A value that begins with a digit or a sign is a moment if it can be
read as one, else a floating-point number, else an integer.
-/
namespace EnvTemplate
namespace Toml

def digitsValue (base : Nat) (digits : Text) : Nat :=
  digits.foldl (fun n c => base * n + (Hex.digit? c).getD 0) 0

/-- The digits at the head of a text.  An underscore may stand between two digits. -/
def digitRun (isDigit : Char → Bool) : Text → Text × Text
  | [] => ([], [])
  | '_' :: c :: t =>
    if isDigit c then
      let (digits, rest) := digitRun isDigit t
      (c :: digits, rest)
    else ([], '_' :: c :: t)
  | c :: t =>
    if isDigit c then
      let (digits, rest) := digitRun isDigit t
      (c :: digits, rest)
    else ([], c :: t)

def digits? (isDigit : Char → Bool) : Text → Option (Text × Text)
  | c :: t =>
    if isDigit c then
      let (digits, rest) := digitRun isDigit t
      some (c :: digits, rest)
    else none
  | [] => none

def sign : Text → Bool × Text
  | '-' :: t => (true, t)
  | '+' :: t => (false, t)
  | t => (false, t)

/-- A decimal integer: its sign and its digits, with no zero before other digits. -/
def decimal? (t : Text) : Option (Bool × Text × Text) :=
  let (negative, t) := sign t
  match t with
  | '0' :: t => some (negative, ['0'], t)
  | t => (digits? Char.isDigit t).map fun (digits, rest) => (negative, digits, rest)

def exponent? : Text → Option (Int × Text)
  | c :: t =>
    if c = 'e' ∨ c = 'E' then do
      let (negative, t) := sign t
      let (digits, t) ← digits? Char.isDigit t
      let n : Int := digitsValue 10 digits
      some (if negative then -n else n, t)
    else none
  | [] => none

/-- A number with a fraction, an exponent, or both.  One that is too large is no number, while one
that is too far below zero is minus infinity. -/
def fraction? (t : Text) : Option (Binary64 × Text) := do
  let (negative, whole, t) ← decimal? t
  let (places, exponent, t) ←
    match t with
    | '.' :: t => do
      let (places, t) ← digits? Char.isDigit t
      let (exponent, t) := (exponent? t).getD (0, t)
      some (places, exponent, t)
    | t => (exponent? t).map fun (exponent, t) => ([], exponent, t)
  let x := Binary64.ofDecimal negative (digitsValue 10 (whole ++ places)) (exponent - places.length)
  if x = .infinite false then none else some (x, t)

def specialFloat? (t : Text) : Option (Binary64 × Text) :=
  let (negative, t) := sign t
  match t with
  | 'i' :: 'n' :: 'f' :: t => some (.infinite negative, t)
  | 'n' :: 'a' :: 'n' :: t => some (.nan, t)
  | _ => none

def boundedInteger? (n : Int) : Option Int :=
  if -Int.pow 2 63 ≤ n ∧ n < Int.pow 2 63 then some n else none

def based? (base : Nat) (isDigit : Char → Bool) (t : Text) : Option (Int × Text) := do
  let (digits, t) ← digits? isDigit t
  let n ← boundedInteger? (digitsValue base digits)
  some (n, t)

def integer? : Text → Option (Int × Text)
  | '0' :: 'x' :: t => based? 16 (fun c => (Hex.digit? c).isSome) t
  | '0' :: 'o' :: t => based? 8 (fun c => '0' ≤ c && c ≤ '7') t
  | '0' :: 'b' :: t => based? 2 (fun c => c == '0' || c == '1') t
  | t => do
    let (negative, digits, t) ← decimal? t
    let size : Int := digitsValue 10 digits
    let n ← boundedInteger? (if negative then -size else size)
    some (n, t)

def field? (width low high : Nat) (t : Text) : Option (Nat × Text) :=
  let digits := t.take width
  let n := digitsValue 10 digits
  if digits.length = width ∧ digits.all Char.isDigit ∧ low ≤ n ∧ n ≤ high then
    some (n, t.drop width)
  else none

def mark? (c : Char) : Text → Option Text
  | d :: t => if d = c then some t else none
  | [] => none

def daysIn (year month : Nat) : Nat :=
  if month = 2 then
    if year % 4 = 0 ∧ (year % 100 ≠ 0 ∨ year % 400 = 0) then 29 else 28
  else if month = 4 ∨ month = 6 ∨ month = 9 ∨ month = 11 then 30
  else 31

def date? (t : Text) : Option Text := do
  let (year, t) ← field? 4 0 9999 t
  let (month, t) ← field? 2 1 12 (← mark? '-' t)
  let (_, t) ← field? 2 1 (daysIn year month) (← mark? '-' t)
  some t

/-- A time of the day.  A minute may have a leap second. -/
def time? (t : Text) : Option Text := do
  let (_, t) ← field? 2 0 23 t
  let (_, t) ← field? 2 0 59 (← mark? ':' t)
  let (_, t) ← field? 2 0 60 (← mark? ':' t)
  match t with
  | '.' :: c :: u => some (if c.isDigit then u.dropWhile Char.isDigit else t)
  | t => some t

def offset? : Text → Option Text
  | c :: t =>
    if c = 'Z' ∨ c = 'z' then some t
    else if c = '+' ∨ c = '-' then do
      let (_, t) ← field? 2 0 23 t
      let (_, t) ← field? 2 0 59 (← mark? ':' t)
      some t
    else none
  | [] => none

/-- A date, a time, or a date with a time and perhaps an offset. -/
def datetime? (t : Text) : Option Text :=
  match date? t with
  | some t =>
    match t with
    | c :: u =>
      if c = 'T' ∨ c = 't' ∨ c = ' ' then
        match time? u with
        | some u => some ((offset? u).getD u)
        | none => some t
      else some t
    | [] => some t
  | none => time? t

def number? (t : Text) : Option (Value × Text) :=
  match datetime? t with
  | some t => some (.datetime, t)
  | none =>
    match fraction? t with
    | some (x, t) => some (.float x, t)
    | none =>
      match specialFloat? t with
      | some (x, t) => some (.float x, t)
      | none => (integer? t).map fun (n, t) => (.integer n, t)

end Toml
end EnvTemplate
