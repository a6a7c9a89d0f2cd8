/-!
Classes of characters as ranges of their numbers.
-/
namespace EnvTemplate

abbrev Ranges := List (Nat × Nat)

namespace Ranges

def contains (ranges : Ranges) (c : Char) : Bool :=
  ranges.any fun (first, last) => first ≤ c.toNat && c.toNat ≤ last

end Ranges
end EnvTemplate
