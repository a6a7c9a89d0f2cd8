import EnvTemplate.Text.Utf8

/-!
Paths as they are written: bytes in which slashes separate names.  Everything here looks at the
spelling alone; where a path leads is a question for a file tree.
-/
namespace EnvTemplate

abbrev Path := Bytes

namespace Path

def slash : UInt8 := 0x2F

def dot : Bytes := [0x2E]

def dotDot : Bytes := [0x2E, 0x2E]

def ofText (t : Text) : Path := Utf8.encode t

def display (p : Path) : Text := Utf8.lossy p

/-- The pieces between the slashes of a path.  There is one more of them than slashes. -/
def pieces : Path → List Bytes
  | [] => [[]]
  | b :: p =>
    if b = slash then [] :: pieces p
    else
      match pieces p with
      | [] => [[b]]
      | piece :: more => (b :: piece) :: more

def unite : List Bytes → Path
  | [] => []
  | [piece] => piece
  | piece :: more => piece ++ slash :: unite more

theorem unite_pieces (p : Path) : unite (pieces p) = p := by
  induction p with
  | nil => rfl
  | cons b p ih =>
    have hne : pieces p ≠ [] := by
      cases p with
      | nil => simp [pieces]
      | cons c p =>
        unfold pieces
        split
        · simp
        · split <;> simp
    unfold pieces
    split
    · next hb =>
      cases hp : pieces p with
      | nil => exact absurd hp hne
      | cons x xs =>
        rw [hp] at ih
        simp [unite, ih, hb]
    · split
      · next hp => exact absurd hp hne
      · next piece more hp =>
        rw [hp] at ih
        cases more with
        | nil => simpa [unite] using ih
        | cons y ys => simpa [unite] using ih

def isAbsolute (p : Path) : Bool := p.head? == some slash

def endsWithSlash (p : Path) : Bool := p.getLast? == some slash

def names (p : Path) : List Bytes := (pieces p).filter (!·.isEmpty)

def join (base p : Path) : Path :=
  if p.isAbsolute then p
  else if base.isEmpty || base.endsWithSlash then base ++ p
  else base ++ slash :: p

def fromRoot (names : List Bytes) : Path := slash :: unite names

/-- Pieces without those at the end that lead nowhere. -/
def trim (ps : List Bytes) : List Bytes :=
  (ps.reverse.dropWhile fun piece => piece.isEmpty || piece == dot).reverse

/-- The spelling of the directory that a path is in.  A path without a name, such as the empty path
or the root, has none. -/
def parent? (p : Path) : Option Path :=
  match pieces p with
  | [] => none
  | first :: more =>
    if p.isAbsolute then
      match trim more with
      | [] => none
      | body => some (slash :: unite (trim body.dropLast))
    else if first = dot then
      match trim more with
      | [] => some []
      | body => some (unite (dot :: trim body.dropLast))
    else
      match trim (first :: more) with
      | [] => none
      | body => some (unite (trim body.dropLast))

/-- The directory to put something beside a path: its parent, or the directory itself. -/
def beside (p : Path) : Path :=
  match p.parent? with
  | some (b :: q) => b :: q
  | _ => dot

end Path
end EnvTemplate
