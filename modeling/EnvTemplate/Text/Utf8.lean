import EnvTemplate.Text

/-!
Bytes and the UTF-8 form of a text.  `encode` and `decode?` are inverse to each other; `units` reads
any bytes, setting the parts that are not UTF-8 apart, and `lossy` writes a replacement character
for each of these.
-/
namespace EnvTemplate

abbrev Bytes := List UInt8

namespace Utf8

def encode (t : Text) : Bytes := t.flatMap String.utf8EncodeChar

def decode? (b : Bytes) : Option Text := b.toByteArray.utf8Decode?.map Array.toList

@[simp] theorem decode?_encode (t : Text) : decode? (encode t) = some t := by
  have h : (encode t).toByteArray = t.utf8Encode := rfl
  simp [decode?, h]

theorem encode_of_decode? {b : Bytes} {t : Text} (h : decode? b = some t) : encode t = b := by
  obtain ⟨a, ha, rfl⟩ := Option.map_eq_some_iff.1 h
  have hs : b.toByteArray.utf8Decode?.isSome = true := by simp [ha]
  have he : a = b.toByteArray.utf8Decode?.get hs := by simp [ha]
  have hb : (encode a.toList).toByteArray = b.toByteArray := by
    rw [he]
    exact ByteArray.utf8Encode_get_utf8Decode?
  simpa using congrArg (fun x : ByteArray => x.data.toList) hb

@[simp] theorem encode_append (s t : Text) : encode (s ++ t) = encode s ++ encode t := by
  simp [encode]

@[simp] theorem length_encode (t : Text) : (encode t).length = t.byteSize := by
  induction t with
  | nil => rfl
  | cons c t ih => simp_all [encode]

inductive Unit
  | char (c : Char)
  | broken (bytes : Bytes)
  deriving DecidableEq

/-- The width of the sequence that a lead byte announces and the bounds of its second byte. -/
def sequence? (lead : UInt8) : Option (Nat × UInt8 × UInt8) :=
  if 0xC2 ≤ lead ∧ lead ≤ 0xDF then some (2, 0x80, 0xBF)
  else if lead = 0xE0 then some (3, 0xA0, 0xBF)
  else if lead = 0xED then some (3, 0x80, 0x9F)
  else if 0xE1 ≤ lead ∧ lead ≤ 0xEF then some (3, 0x80, 0xBF)
  else if lead = 0xF0 then some (4, 0x90, 0xBF)
  else if lead = 0xF4 then some (4, 0x80, 0x8F)
  else if 0xF1 ≤ lead ∧ lead ≤ 0xF3 then some (4, 0x80, 0xBF)
  else none

def isContinuation (b : UInt8) : Bool := 0x80 ≤ b && b ≤ 0xBF

/-- How many bytes of a text that begins with a multi-byte lead belong together, and whether they
are the whole announced sequence. -/
def extent (lead : UInt8) (rest : Bytes) : Nat × Bool :=
  match sequence? lead, rest with
  | some (width, low, high), second :: more =>
    if low ≤ second && second ≤ high then
      let tail := (more.take (width - 2)).takeWhile isContinuation
      (2 + tail.length, tail.length == width - 2)
    else (1, false)
  | _, _ => (1, false)

def nextUnit (lead : UInt8) (rest : Bytes) : Unit × Bytes :=
  if lead < 0x80 then (.char (Char.ofNat lead.toNat), rest)
  else
    let (size, whole) := extent lead rest
    let bytes := lead :: rest.take (size - 1)
    match if whole then decode? bytes else none with
    | some (c :: _) => (.char c, rest.drop (size - 1))
    | _ => (.broken bytes, rest.drop (size - 1))

def units (b : Bytes) : List Unit := go b.length b
where
  go : Nat → Bytes → List Unit
    | 0, _ => []
    | _, [] => []
    | n + 1, lead :: rest =>
      let (u, rest') := nextUnit lead rest
      u :: go n rest'

/-- A text for any bytes: each part that is not UTF-8 becomes a replacement character. -/
def lossy (b : Bytes) : Text :=
  (units b).map fun
    | .char c => c
    | .broken _ => '\uFFFD'

end Utf8
end EnvTemplate
