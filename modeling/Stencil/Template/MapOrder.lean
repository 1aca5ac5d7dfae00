/-! The orders in which loops go through maps. A map has no order of its own: it may show its entries in any order,
and in another one each time. -/
namespace Stencil

/-- A way to put the names of a map in order: each of them comes once. -/
structure Arrangement where
  arrange : List String → List String
  perm : ∀ names, (arrange names).Perm names

/-- The names as they stand. -/
def Arrangement.stored : Arrangement := ⟨id, List.Perm.refl⟩

/-- How the loops of a rendering go through maps. A loop is told by its place: the index of its tag, behind the index
of the tag and the number of the round for each block around it, the outermost first. The same loop may go through
its map in another order in another round of a loop around it. -/
abbrev MapOrder := List Nat → Arrangement

namespace MapOrder

/-- The orders inside the block that the tag at an index opens, in one of its rounds. -/
def inside (order : MapOrder) (tag round : Nat) : MapOrder := fun place => order (tag :: round :: place)

end MapOrder

end Stencil
