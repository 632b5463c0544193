/-!
This module contains look-up in tables of code points. A table is a list of closed ranges, in
increasing order and without overlap.
-/

namespace GraphGateway
namespace Text

abbrev CharTable := List (Nat × Nat)

namespace CharTable

def contains (table : CharTable) (c : Char) : Bool :=
  table.any fun (low, high) => low ≤ c.toNat && c.toNat ≤ high

def size (table : CharTable) : Nat :=
  table.foldl (fun n (low, high) => n + (high + 1 - low)) 0

theorem contains_iff (table : CharTable) (c : Char)
    : table.contains c = true ↔ ∃ range ∈ table, range.1 ≤ c.toNat ∧ c.toNat ≤ range.2 := by
  simp [contains]

end CharTable

end Text
end GraphGateway
