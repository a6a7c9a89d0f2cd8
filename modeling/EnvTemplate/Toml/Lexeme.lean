import EnvTemplate.Text.Hex

/-!
The lexical elements of TOML: blanks, comments, ends of lines, strings and keys.  Each reader takes
its element off the head of a text and returns what follows it; `none` is a syntax error.
-/
namespace EnvTemplate
namespace Toml

def isBlank (c : Char) : Bool := c == ' ' || c == '\t'

def isPlain (c : Char) : Bool := c == '\t' || (' ' ≤ c && c != '\x7f')

def skipBlanks (t : Text) : Text := t.dropWhile isBlank

def newline? : Text → Option Text
  | '\n' :: t => some t
  | '\r' :: '\n' :: t => some t
  | _ => none

def skipComment : Text → Text
  | '#' :: t => t.dropWhile isPlain
  | t => t

def lineEnd? (t : Text) : Option Text :=
  match skipComment (skipBlanks t) with
  | [] => some []
  | t => newline? t

def skipVoid (inComment : Bool) : Text → Text
  | [] => []
  | '\n' :: t => skipVoid false t
  | '\r' :: '\n' :: t => skipVoid false t
  | c :: t =>
    if inComment then
      if isPlain c then skipVoid true t else c :: t
    else if isBlank c then skipVoid false t
    else if c = '#' then skipVoid true t
    else c :: t

def consTo (c : Char) (r : Option (Text × Text)) : Option (Text × Text) :=
  r.map fun (text, rest) => (c :: text, rest)

def escape? : Char → Option Char
  | 'b' => some '\x08'
  | 't' => some '\t'
  | 'n' => some '\n'
  | 'f' => some '\x0c'
  | 'r' => some '\r'
  | '"' => some '"'
  | '\\' => some '\\'
  | _ => none

def basicString? : Text → Option (Text × Text)
  | [] => none
  | '"' :: t => some ([], t)
  | '\\' :: 'u' :: a :: b :: c :: d :: t => do
    consTo (← Hex.char? [a, b, c, d]) (basicString? t)
  | '\\' :: 'U' :: a :: b :: c :: d :: e :: f :: g :: h :: t => do
    consTo (← Hex.char? [a, b, c, d, e, f, g, h]) (basicString? t)
  | '\\' :: c :: t => do consTo (← escape? c) (basicString? t)
  | c :: t => if isPlain c && c != '\\' then consTo c (basicString? t) else none

def literalString? : Text → Option (Text × Text)
  | [] => none
  | '\'' :: t => some ([], t)
  | c :: t => if isPlain c then consTo c (literalString? t) else none

def endsLine (t : Text) : Bool := (newline? (skipBlanks t)).isSome

/-- The rest of a basic string of several lines.  Blanks and ends of lines are left out while
`trimming`, which begins at a backslash that ends a line.  Up to two quotes may stand before the
closing three. -/
def basicLines? (trimming : Bool) : Text → Option (Text × Text)
  | [] => none
  | '"' :: '"' :: '"' :: '"' :: '"' :: t => some (['"', '"'], t)
  | '"' :: '"' :: '"' :: '"' :: t => some (['"'], t)
  | '"' :: '"' :: '"' :: t => some ([], t)
  | '\r' :: '\n' :: t =>
    if trimming then basicLines? true t else consTo '\n' (basicLines? false t)
  | '\n' :: t =>
    if trimming then basicLines? true t else consTo '\n' (basicLines? false t)
  | '\\' :: 'u' :: a :: b :: c :: d :: t => do
    consTo (← Hex.char? [a, b, c, d]) (basicLines? false t)
  | '\\' :: 'U' :: a :: b :: c :: d :: e :: f :: g :: h :: t => do
    consTo (← Hex.char? [a, b, c, d, e, f, g, h]) (basicLines? false t)
  | '\\' :: c :: t =>
    if endsLine (c :: t) then basicLines? true (c :: t)
    else do consTo (← escape? c) (basicLines? false t)
  | c :: t =>
    if trimming && isBlank c then basicLines? true t
    else if isPlain c && c != '\\' then consTo c (basicLines? false t)
    else none

def literalLines? : Text → Option (Text × Text)
  | [] => none
  | '\'' :: '\'' :: '\'' :: '\'' :: '\'' :: t => some (['\'', '\''], t)
  | '\'' :: '\'' :: '\'' :: '\'' :: t => some (['\''], t)
  | '\'' :: '\'' :: '\'' :: t => some ([], t)
  | '\r' :: '\n' :: t => consTo '\n' (literalLines? t)
  | '\n' :: t => consTo '\n' (literalLines? t)
  | c :: t => if isPlain c then consTo c (literalLines? t) else none

/-- A string of any of the four forms.  The line end behind three opening quotes is not part of it. -/
def string? : Text → Option (Text × Text)
  | '"' :: '"' :: '"' :: t => basicLines? false ((newline? t).getD t)
  | '\'' :: '\'' :: '\'' :: t => literalLines? ((newline? t).getD t)
  | '"' :: t => basicString? t
  | '\'' :: t => literalString? t
  | _ => none

def isBareKey (c : Char) : Bool := c.isAlphanum || c == '-' || c == '_'

def simpleKey? : Text → Option (Text × Text)
  | '"' :: t => basicString? t
  | '\'' :: t => literalString? t
  | t =>
    match t.takeWhile isBareKey with
    | [] => none
    | key => some (key, t.dropWhile isBareKey)

/-- The greatest nesting of values, and the least number of parts that a key must not have. -/
def nestingLimit : Nat := 80

/-- A key: its last part and the parts before it, which name tables. -/
structure Key where
  path : List Text
  last : Text

def keyParts? : Nat → Text → Option (Key × Text)
  | 0, _ => none
  | n + 1, t => do
    let (part, t) ← simpleKey? (skipBlanks t)
    match skipBlanks t with
    | '.' :: t =>
      let (key, t) ← keyParts? n t
      some (⟨part :: key.path, key.last⟩, t)
    | t => some (⟨[], part⟩, t)

def key? (t : Text) : Option (Key × Text) := keyParts? (nestingLimit - 1) t

end Toml
end EnvTemplate
