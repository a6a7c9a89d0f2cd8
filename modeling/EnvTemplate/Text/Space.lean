import EnvTemplate.Text
import EnvTemplate.Text.Ranges

/-!
White space of all scripts.
-/
namespace EnvTemplate
namespace Space

def ranges : Ranges := [
  (0x9, 0xD), (0x20, 0x20), (0x85, 0x85), (0xA0, 0xA0), (0x1680, 0x1680), (0x2000, 0x200A),
  (0x2028, 0x2029), (0x202F, 0x202F), (0x205F, 0x205F), (0x3000, 0x3000)]

def contains (c : Char) : Bool := Ranges.contains ranges c

def trim (t : Text) : Text :=
  ((t.dropWhile contains).reverse.dropWhile contains).reverse

end Space
end EnvTemplate
