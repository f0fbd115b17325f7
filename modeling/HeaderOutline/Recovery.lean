import HeaderOutline.Construct.Brackets

/-! # Going on after a fault

After a construct that could not be read, tokens are passed over up to the end of
the construct: behind the next semicolon, or before a token that starts another
construct or closes a scope.  Blocks in braces on the way are passed over whole.
-/
namespace HeaderOutline.Recovery

/-- What the reading does after a fault. -/
inductive Policy
  /-- It goes on with the next construct. -/
  | resync
  /-- It comes to an end. -/
  | strict
deriving DecidableEq, Repr

/-- The tokens at which to go on, from inside `depth` open braces. -/
def resume (depth : Nat) : List Token → List Token
  | [] => []
  | t :: ts =>
    if t.kind == .punct .lBrace then resume (depth + 1) ts
    else if depth != 0 then resume (if t.kind == .punct .rBrace then depth - 1 else depth) ts
    else if t.kind == .punct .semicolon then ts
    else if Context.topLevel.stops.contains t.kind then t :: ts
    else resume 0 ts

theorem resume_suffix (depth : Nat) (ts : List Token) : resume depth ts <:+ ts := by
  fun_induction resume depth ts with
  | case1 => exact List.suffix_rfl
  | case2 _ t ts _ ih | case3 _ t ts _ _ ih | case6 _ t ts _ _ _ _ ih =>
    exact ih.trans (List.suffix_cons t ts)
  | case4 _ t ts => exact List.suffix_cons t ts
  | case5 => exact List.suffix_rfl

end HeaderOutline.Recovery
