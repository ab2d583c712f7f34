/-!
Sets of characters given as ranges of code points, both ends included.
-/

namespace Catalog.Text

abbrev Ranges := List (Nat × Nat)

def Ranges.has (r : Ranges) (c : Char) : Bool :=
  r.any (fun p => p.1 ≤ c.toNat && c.toNat ≤ p.2)

end Catalog.Text
