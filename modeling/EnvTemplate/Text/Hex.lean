import EnvTemplate.Text

/-!
Numbers in base sixteen.
-/
namespace EnvTemplate
namespace Hex

def digits (n : Nat) : Text := Nat.toDigits 16 n

def pair (n : Nat) : Text := List.replicate (2 - (digits n).length) '0' ++ digits n

def digit? (c : Char) : Option Nat :=
  if '0' ≤ c ∧ c ≤ '9' then some (c.toNat - 48)
  else if 'a' ≤ c ∧ c ≤ 'f' then some (c.toNat - 87)
  else if 'A' ≤ c ∧ c ≤ 'F' then some (c.toNat - 55)
  else none

def char? (digits : Text) : Option Char := do
  let n ← digits.foldlM (fun n c => (digit? c).map (16 * n + ·)) 0
  if n.isValidChar then some (Char.ofNat n) else none

end Hex
end EnvTemplate
