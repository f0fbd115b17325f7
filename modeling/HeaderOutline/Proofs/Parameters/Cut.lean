import HeaderOutline.Construct.Template
import HeaderOutline.Proofs.Words
import Mathlib.Data.List.DropRight

/-! # Cutting a parameter list

The parameters of a template stand between the commas of its list that no bracket within the list
encloses (`Construct.Template.parametersOf`), where brackets are read as they are where the end of
the list is looked for: what stands in parentheses is passed over, and `>>` closes two lists.

The reading cuts the characters of the list instead, and counts every character that looks like a
bracket.  The two agree on a list whose brackets pair up to its last comma
(`Construct.Template.params_eq_parametersOf`).  Along such a list the brackets that are open tell
both how deep the characters lie and which brackets count (`Nest.ofOpen`), and no token but a
bracket or a comma is to hold one of their characters.
-/
namespace HeaderOutline

/-- The closer of one list that `>>` is made of, along with that of the list around it. -/
def Token.half (t : Token) : Token := { t with kind := .punct .gt, text := Punct.gt.spelling }

namespace Construct.Template

/-! ## Parameters between commas -/

/-- How many brackets of each form are open at a place in a parameter list. -/
structure Nest where
  angles : Nat
  parens : Nat
  squares : Nat
deriving DecidableEq, Repr

namespace Nest

/-- The place outside of all brackets. -/
def outside : Nest := ⟨0, 0, 0⟩

/-- The place behind a token.  In parentheses nothing but parentheses counts. -/
def past (n : Nest) (k : Kind) : Nest :=
  match k, n.parens with
  | .punct .lParen, _ => { n with parens := n.parens + 1 }
  | .punct .rParen, _ => { n with parens := n.parens - 1 }
  | .punct .lt, 0 => { n with angles := n.angles + 1 }
  | .punct .gt, 0 => { n with angles := n.angles - 1 }
  | .punct .gtGt, 0 => { n with angles := n.angles - 2 }
  | .punct .lBracket, 0 => { n with squares := n.squares + 1 }
  | .punct .rBracket, 0 => { n with squares := n.squares - 1 }
  | _, _ => n

/-- The place behind some tokens. -/
def run (n : Nest) (ts : List Token) : Nest := ts.foldl (fun n t => n.past t.kind) n

/-- Whether a token closes the list itself. -/
def closes (n : Nest) (k : Kind) : Bool :=
  n.parens == 0 && (k == .punct .gt && n.angles == 0 || k == .punct .gtGt && n.angles ≤ 1)

/-- What the closing token of the list leaves to the last parameter: where another list ends with
the same token, the closer of that one. -/
def closer (n : Nest) (last : Token) : List Token := if n.angles = 0 then [] else [last.half]

end Nest

/-- The pieces of a parameter list between the commas outside of all brackets, from some place in
it up to its end, with the piece read so far. -/
def pieces (n : Nest) (piece : List Token) : List Token → List (List Token)
  | [] => [piece]
  | t :: ts =>
    if n.closes t.kind then [piece ++ n.closer t]
    else if t.kind = .punct .comma ∧ n = .outside then piece :: pieces n [] ts
    else pieces (n.past t.kind) (piece ++ [t]) ts

/-- The parameters of a list in angle brackets: the pieces between its commas, each on one line,
without the empty ones. -/
def parametersOf (list : List Token) : List Text :=
  ((pieces .outside [] list.tail).map fun piece => (Token.textOf piece).collapse).filter
    (!·.isEmpty)

/-! ## Lists whose brackets pair up -/

/-- Commas and the brackets that may stand in a parameter list. -/
def isMark (k : Kind) : Bool :=
  [Kind.punct .comma, .punct .lParen, .punct .rParen, .punct .lBracket, .punct .rBracket,
    .punct .lt, .punct .gt, .punct .gtGt].contains k

/-- Commas and all characters that may be brackets. -/
def isMarkChar (c : Char) : Bool := ",<>()[]\x7b\x7d".toList.contains c

/-- The forms of brackets in a parameter list. -/
inductive Bracket
  | paren | square | angle
deriving DecidableEq, Repr

/-- What opens a bracket. -/
def Bracket.opener : Bracket → Punct
  | .paren => .lParen
  | .square => .lBracket
  | .angle => .lt

/-- What closes a bracket. -/
def Bracket.closer : Bracket → Punct
  | .paren => .rParen
  | .square => .rBracket
  | .angle => .gt

/-- The brackets open behind a token, the innermost first; none if it closes another one than the
innermost. -/
def pair (opened : List Bracket) (k : Kind) : Option (List Bracket) :=
  match k, opened with
  | .punct .lParen, _ => some (.paren :: opened)
  | .punct .lBracket, _ => some (.square :: opened)
  | .punct .lt, _ => some (.angle :: opened)
  | .punct .rParen, .paren :: outer => some outer
  | .punct .rBracket, .square :: outer => some outer
  | .punct .gt, .angle :: outer => some outer
  | .punct .gtGt, .angle :: .angle :: outer => some outer
  | .punct .rParen, _ | .punct .rBracket, _ | .punct .gt, _ | .punct .gtGt, _ => none
  | _, _ => some opened

/-- The tokens between the brackets of a list. -/
def inside (list : List Token) : List Token := list.tail.dropLast

/-- Some tokens up to the last one with a comma in it. -/
def upToComma (ts : List Token) : List Token := ts.rdropWhile fun t => !t.text.contains ','

/-- The brackets of a list pair up to its last comma: each closes the innermost one that is open,
and no other token holds their characters.  And where `>>` closes the list, it closes another one
along with it. -/
structure Paired (list : List Token) : Prop where
  plain : ∀ t ∈ upToComma (inside list), isMark t.kind = true ∨ t.text.all (!isMarkChar ·) = true
  pair : ((upToComma (inside list)).foldlM (fun opened t => pair opened t.kind) []).isSome = true
  closed : (list.getLast?.map Token.kind) = some (.punct .gtGt) →
    (Nest.outside.run (inside list)).angles = 1

theorem paired_iff {list : List Token} :
    Paired list ↔
      (∀ t ∈ upToComma (inside list), isMark t.kind = true ∨ t.text.all (!isMarkChar ·) = true) ∧
      ((upToComma (inside list)).foldlM (fun opened t => pair opened t.kind) []).isSome = true ∧
      ((list.getLast?.map Token.kind) = some (.punct .gtGt) →
        (Nest.outside.run (inside list)).angles = 1) :=
  ⟨fun h => ⟨h.plain, h.pair, h.closed⟩, fun ⟨plain, pair, closed⟩ => ⟨plain, pair, closed⟩⟩

instance (list : List Token) : Decidable (Paired list) := decidable_of_iff _ paired_iff.symm

/-! ## How a list is closed -/

/-- Tokens of a list that do not close it, behind which a token does. -/
inductive Nest.Encloses : Nest → List Token → Token → Prop
  | nil {n : Nest} {last : Token} (h : n.closes last.kind = true) : Encloses n [] last
  | cons {n : Nest} {t last : Token} {ts : List Token} (ht : n.closes t.kind = false)
    (h : Encloses (n.past t.kind) ts last) : Encloses n (t :: ts) last

namespace Nest

variable {n : Nest} {t last : Token} {ts taken after done : List Token}

theorem run_cons (n : Nest) (t : Token) (ts : List Token) :
    n.run (t :: ts) = (n.past t.kind).run ts := rfl

/-- The search for the end of a list takes one token: it ends with what closes the list, and goes
on behind any other token. -/
theorem closeAngles_cons {found : List Token × List Token}
    (h : Tokens.closeAngles done (n.angles + 1) n.parens (t :: ts) = some found) :
    if n.closes t.kind then found = ((t :: done).reverse, ts)
    else Tokens.closeAngles (t :: done) ((n.past t.kind).angles + 1) (n.past t.kind).parens ts
      = some found := by
  obtain ⟨angles, parens, squares⟩ := n
  unfold Tokens.closeAngles at h
  split at h
  · cases h
  · cases h
  · cases h
  · next hk => simpa [hk, closes, past] using h
  · next hk => simpa [hk, closes, past] using h
  · next hk =>
    cases parens with
    | zero => simpa [hk, closes, past] using h
    | succ => simpa [hk, closes, past] using h
  · next hk =>
    cases parens with
    | succ => simpa [hk, closes, past] using h
    | zero =>
      cases angles with
      | zero => simpa [hk, closes, past] using h.symm
      | succ => simpa [hk, closes, past] using h
  · next hk =>
    cases parens with
    | succ => simpa [hk, closes, past] using h
    | zero =>
      rcases angles with - | - | angles
      · simpa [hk, closes, past] using h.symm
      · simpa [hk, closes, past] using h.symm
      · simpa [hk, closes, past] using h
  · next hlp hrp hlt hgt hgg =>
    have hpast : (past ⟨angles, parens, squares⟩ t.kind).angles = angles ∧
        (past ⟨angles, parens, squares⟩ t.kind).parens = parens := by
      unfold past
      split <;> simp_all
    have hcl : closes ⟨angles, parens, squares⟩ t.kind = false := by
      rw [closes, beq_false_of_ne hgt, beq_false_of_ne hgg, Bool.false_and, Bool.false_and,
        Bool.or_false, Bool.and_false]
    rw [hcl, if_neg Bool.false_ne_true, hpast.1, hpast.2]
    exact h

/-- A token closes a list where the search for its end finds it. -/
theorem encloses_of_closeAngles
    (h : Tokens.closeAngles done (n.angles + 1) n.parens ts = some (taken, after)) :
    ∃ inner last, taken = done.reverse ++ (inner ++ [last]) ∧ n.Encloses inner last := by
  induction ts generalizing n done with
  | nil => cases h
  | cons t ts ih =>
    replace h := closeAngles_cons h
    split at h
    · next hcl =>
      obtain ⟨rfl, rfl⟩ := Prod.mk.inj h
      exact ⟨[], t, by simp, .nil hcl⟩
    · next hcl =>
      obtain ⟨inner, last, rfl, henc⟩ := ih h
      exact ⟨t :: inner, last, by simp, .cons (eq_false_of_ne_true hcl) henc⟩

/-- Behind the last comma nothing is cut. -/
theorem Encloses.pieces_eq (h : n.Encloses ts last) (hcomma : ∀ t ∈ ts, t.kind ≠ .punct .comma)
    (piece : List Token) :
    pieces n piece (ts ++ [last]) = [piece ++ (ts ++ (n.run ts).closer last)] := by
  induction h generalizing piece with
  | nil hcl => simp [pieces, hcl, run]
  | @cons n t last ts ht _ ih =>
    rw [List.forall_mem_cons] at hcomma
    rw [List.cons_append, pieces, ht, if_neg Bool.false_ne_true, if_neg (fun h => hcomma.1 h.1),
      ih hcomma.2, run_cons, List.append_assoc, List.singleton_append, List.cons_append]

end Nest

/-! ## Brackets that pair up -/

variable {opened opened' : List Bracket} {k : Kind} {t last : Token} {front back : List Token}
  {w : Text}

/-- The place where some brackets are open. -/
def Nest.ofOpen : List Bracket → Nest
  | [] => .outside
  | b :: outer => (ofOpen outer).past (.punct b.opener)

namespace Nest

/-- A bracket leads inside. -/
theorem past_opener_ne_outside (b : Bracket) (n : Nest) : n.past (.punct b.opener) ≠ outside := by
  obtain ⟨angles, parens, squares⟩ := n
  cases b with
  | paren => simp [Bracket.opener, past, outside]
  | square => cases parens <;> simp [Bracket.opener, past, outside]
  | angle => cases parens <;> simp [Bracket.opener, past, outside]

theorem ofOpen_eq_outside_iff : ofOpen opened = outside ↔ opened = [] := by
  cases opened with
  | nil => exact ⟨fun _ => rfl, fun _ => rfl⟩
  | cons b outer =>
    exact ⟨fun h => absurd h (past_opener_ne_outside b (ofOpen outer)), nofun⟩

/-- A closer leads back to where its bracket was opened. -/
theorem past_closer (b : Bracket) (n : Nest) :
    (n.past (.punct b.opener)).past (.punct b.closer) = n := by
  obtain ⟨angles, parens, squares⟩ := n
  cases b with
  | paren => rfl
  | square => cases parens <;> rfl
  | angle => cases parens <;> rfl

theorem past_gtGt (n : Nest) :
    ((n.past (.punct .lt)).past (.punct .lt)).past (.punct .gtGt) = n := by
  obtain ⟨angles, parens, squares⟩ := n
  cases parens <;> rfl

theorem past_eq_self (h : isMark k = false ∨ k = .punct .comma) (n : Nest) : n.past k = n := by
  unfold past
  split
  all_goals first | rfl | (rcases h with h | h <;> cases h)

end Nest

/-- What a token of some kind does to the brackets that are open: it opens one, closes the
innermost one or the two innermost ones, or leaves them as they are. -/
inductive Pairs (opened : List Bracket) (k : Kind) : List Bracket → Prop
  | opens (b : Bracket) (hk : k = .punct b.opener) : Pairs opened k (b :: opened)
  | closes (b : Bracket) (outer : List Bracket) (hk : k = .punct b.closer)
    (ho : opened = b :: outer) : Pairs opened k outer
  | closesTwo (outer : List Bracket) (hk : k = .punct .gtGt)
    (ho : opened = .angle :: .angle :: outer) : Pairs opened k outer
  | leaves (hk : isMark k = false ∨ k = .punct .comma) : Pairs opened k opened

theorem pairs_of_pair (h : pair opened k = some opened') : Pairs opened k opened' := by
  unfold pair at h
  split at h
  · exact Option.some.inj h ▸ .opens .paren rfl
  · exact Option.some.inj h ▸ .opens .square rfl
  · exact Option.some.inj h ▸ .opens .angle rfl
  · exact Option.some.inj h ▸ .closes .paren _ rfl rfl
  · exact Option.some.inj h ▸ .closes .square _ rfl rfl
  · exact Option.some.inj h ▸ .closes .angle _ rfl rfl
  · exact Option.some.inj h ▸ .closesTwo _ rfl rfl
  · cases h
  · cases h
  · cases h
  · cases h
  · next hlp hlb hlt hrp hrb hgt hgg _ _ _ _ =>
    refine Option.some.inj h ▸ .leaves ?_
    by_cases hcomma : k = .punct .comma
    · exact .inr hcomma
    · left
      simp only [isMark, List.contains_eq_mem, decide_eq_false_iff_not, List.mem_cons,
        List.not_mem_nil, or_false, not_or]
      exact ⟨hcomma, hlp, hrp, hlb, hrb, hlt, hgt, hgg⟩

/-- The brackets that are open tell the place. -/
theorem Pairs.ofOpen (h : Pairs opened k opened') :
    Nest.ofOpen opened' = (Nest.ofOpen opened).past k := by
  cases h with
  | opens b hk => rw [hk, Nest.ofOpen]
  | closes b outer hk ho => rw [hk, ho, Nest.ofOpen, Nest.past_closer]
  | closesTwo outer hk ho => rw [hk, ho]; exact (Nest.past_gtGt _).symm
  | leaves hk => exact (Nest.past_eq_self hk _).symm

/-! ## Cutting characters -/

/-- Characters other than commas and brackets go to the piece that is read. -/
theorem splitCommas_append (hw : w.all (!isMarkChar ·) = true) (depth : Int) (acc v : Text) :
    splitCommas depth acc (w ++ v) = splitCommas depth (w.reverse ++ acc) v := by
  induction w generalizing acc with
  | nil => rfl
  | cons c w ih =>
    simp only [List.all_cons, Bool.and_eq_true, Bool.not_eq_true'] at hw
    have hc := hw.1
    simp only [isMarkChar, List.contains_eq_mem, decide_eq_false_iff_not] at hc
    have hne : ∀ d ∈ ",<>()[]\x7b\x7d".toList, (c == d) = false := by
      intro d hd
      exact beq_false_of_ne fun h => hc (h ▸ hd)
    rw [List.cons_append, splitCommas]
    simp only [hne ',' (by decide), hne '<' (by decide), hne '(' (by decide), hne '[' (by decide),
      hne '\x7b' (by decide), hne '>' (by decide), hne ')' (by decide), hne ']' (by decide),
      hne '\x7d' (by decide), Bool.false_and, Bool.or_false, Bool.false_eq_true, if_false]
    rw [ih hw.2, List.reverse_cons, List.append_assoc, List.singleton_append]

/-- Without a comma nothing is cut. -/
theorem splitCommas_of_notMem (hw : ',' ∉ w) (depth : Int) (acc : Text) :
    splitCommas depth acc w = [acc.reverse ++ w] := by
  induction w generalizing depth acc with
  | nil => simp [splitCommas]
  | cons c w ih =>
    have hc : (c == ',') = false := beq_false_of_ne fun h => hw (h ▸ List.mem_cons_self)
    have hgo : ∀ depth, splitCommas depth (c :: acc) w = [acc.reverse ++ c :: w] := by
      intro depth
      rw [ih (fun h => hw (List.mem_cons_of_mem c h)), List.reverse_cons, List.append_assoc,
        List.singleton_append]
    rw [splitCommas, hc, Bool.false_and, if_neg Bool.false_ne_true]
    split
    · exact hgo _
    · split
      · exact hgo _
      · exact hgo _

theorem splitCommas_opener (b : Bracket) (depth : Int) (acc v : Text) :
    splitCommas depth acc (b.opener.spelling ++ v)
      = splitCommas (depth + 1) (b.opener.spelling.reverse ++ acc) v := by
  cases b <;> simp [Bracket.opener, Punct.spelling, splitCommas]

theorem splitCommas_closer (b : Bracket) (depth : Int) (acc v : Text) :
    splitCommas depth acc (b.closer.spelling ++ v)
      = splitCommas (depth - 1) (b.closer.spelling.reverse ++ acc) v := by
  cases b <;> simp [Bracket.closer, Punct.spelling, splitCommas]

/-- **One token** goes to the piece that is read, and the characters lie as deep behind it as
brackets are open, unless it is a comma outside of all of them. -/
theorem splitCommas_token (hp : Pairs opened t.kind opened')
    (hspelled : ∀ p, t.kind = .punct p → t.text = p.spelling)
    (hplain : isMark t.kind = true ∨ t.text.all (!isMarkChar ·) = true)
    (hcut : t.kind = .punct .comma → opened ≠ []) (acc v : Text) :
    splitCommas opened.length acc (t.text ++ v)
      = splitCommas opened'.length (t.text.reverse ++ acc) v := by
  cases hp with
  | opens b hk => rw [hspelled _ hk, splitCommas_opener, List.length_cons, Int.natCast_add_one]
  | closes b outer hk ho =>
    rw [hspelled _ hk, splitCommas_closer, ho, List.length_cons, Int.natCast_add_one,
      Int.add_sub_cancel]
  | closesTwo outer hk ho =>
    simp [hspelled _ hk, ho, Punct.spelling, splitCommas]
  | leaves hk =>
    rcases hk with hk | hk
    · exact splitCommas_append (hplain.resolve_left (by rw [hk]; exact nofun)) _ _ _
    · simp [hspelled _ hk, Punct.spelling, splitCommas, hcut hk]

/-- **The characters of a list are cut where its tokens are**, as long as the front of them pairs
up with the brackets that are open, and there is no comma behind it. -/
theorem splitCommas_eq_pieces {opened : List Bracket}
    (hspelled : ∀ t ∈ front, ∀ p, t.kind = .punct p → t.text = p.spelling)
    (hplain : ∀ t ∈ front, isMark t.kind = true ∨ t.text.all (!isMarkChar ·) = true)
    (hpair : (front.foldlM (fun opened t => pair opened t.kind) opened).isSome = true)
    (hkind : ∀ t ∈ back, t.kind ≠ .punct .comma)
    (henc : (Nest.ofOpen opened).Encloses (front ++ back) last) {rest : Text}
    (hrest : rest = Token.textOf (back ++ ((Nest.ofOpen opened).run (front ++ back)).closer last))
    (hcomma : ',' ∉ rest) (piece : List Token) :
    splitCommas opened.length (Token.textOf piece).reverse (Token.textOf front ++ rest)
      = (pieces (.ofOpen opened) piece (front ++ (back ++ [last]))).map Token.textOf := by
  induction front generalizing opened piece with
  | nil =>
    rw [List.nil_append] at henc hrest
    rw [List.nil_append, henc.pieces_eq hkind, Token.textOf_nil, List.nil_append,
      splitCommas_of_notMem hcomma, List.reverse_reverse, List.map_singleton, Token.textOf_append,
      hrest]
  | cons t front ih =>
    rw [List.forall_mem_cons] at hspelled hplain
    obtain ⟨opened', hp⟩ : ∃ opened', pair opened t.kind = some opened' := by
      cases hp : pair opened t.kind with
      | none => simp [hp] at hpair
      | some opened' => exact ⟨opened', rfl⟩
    replace hpair : (front.foldlM (fun opened t => pair opened t.kind) opened').isSome = true := by
      simpa [hp] using hpair
    have hpairs := pairs_of_pair hp
    cases henc with
    | cons hcl henc =>
      rw [← hpairs.ofOpen] at henc
      have ih := ih hspelled.2 hplain.2 hpair henc (by
        rw [hrest, List.cons_append, Nest.run_cons, hpairs.ofOpen])
      rw [Token.textOf_cons, List.append_assoc, List.cons_append, pieces, hcl,
        if_neg Bool.false_ne_true, ← hpairs.ofOpen]
      by_cases hcut : t.kind = .punct .comma ∧ opened = []
      · -- both sides cut here
        obtain ⟨hk, rfl⟩ := hcut
        obtain rfl : [] = opened' := by simpa [pair, hk] using hp
        rw [if_pos ⟨hk, rfl⟩, List.map_cons, ← ih [], hspelled.1 _ hk]
        simp [Punct.spelling, splitCommas]
      · have hdeep : t.kind = .punct .comma → opened ≠ [] := fun hk ho => hcut ⟨hk, ho⟩
        rw [if_neg (by rwa [Nest.ofOpen_eq_outside_iff]), ← ih (piece ++ [t]),
          splitCommas_token hpairs hspelled.1 hplain.1 hdeep, Token.textOf_append,
          List.reverse_append, Token.textOf_cons, Token.textOf_nil, List.append_nil]

/-! ## Parameter lists -/

/-- The end of some tokens behind the last one with a comma in it. -/
theorem exists_upToComma (ts : List Token) :
    ∃ back, ts = upToComma ts ++ back ∧ ∀ t ∈ back, ',' ∉ t.text := by
  refine ⟨ts.rtakeWhile fun t => !t.text.contains ',', (List.rdropWhile_append_rtakeWhile ..).symm,
    fun t ht => ?_⟩
  simpa using List.mem_rtakeWhile_imp ht

@[simp] theorem inside_brackets (first last : Token) (inner : List Token) :
    inside (first :: (inner ++ [last])) = inner := by
  simp [inside]

/-- A list starts with the bracket that opens it and ends with the one that closes it. -/
theorem exists_encloses {ts list after : List Token} (h : Tokens.angles? ts = some (list, after))
    (hlt : Tokens.headKind ts = .punct .lt) :
    ∃ first inner last, first.kind = .punct .lt ∧ list = first :: (inner ++ [last]) ∧
      Nest.outside.Encloses inner last := by
  cases ts with
  | nil => cases h
  | cons first ts =>
    replace hlt : first.kind = .punct .lt := hlt
    rw [Tokens.angles?, Tokens.closeAngles, hlt] at h
    obtain ⟨inner, last, rfl, henc⟩ := Nest.encloses_of_closeAngles (n := .outside) h
    exact ⟨first, inner, last, hlt, rfl, henc⟩

/-- Behind the tokens of a list stands what closes it. -/
theorem Nest.Encloses.closes_last {n : Nest} {ts : List Token} (h : n.Encloses ts last) :
    (n.run ts).closes last.kind = true := by
  induction h with
  | nil hcl => exact hcl
  | cons _ _ ih => exact ih

/-- The brackets around a list are taken off, and what is between them is cut. -/
theorem params_brackets (w : Text) : params ('<' :: (w ++ ['>']))
    = ((splitCommas 0 [] w).map Text.collapse).filter (!·.isEmpty) := by
  have hopen : Text.isBlank '<' = false := by decide
  have hclose : Text.isBlank '>' = false := by decide
  have htrim : Text.trim ('<' :: (w ++ ['>'])) = '<' :: (w ++ ['>']) := by
    simp [Text.trim, Text.strip, hopen, hclose]
  have hinner : ((Text.trim ('<' :: (w ++ ['>']))).dropLead ['<']).dropTail ['>'] = w := by
    rw [htrim]
    simp [Text.dropLead, Text.after?, Text.dropTail, Text.before?]
  rw [params, hinner]

/-- What closes a list is the end of its text, and may leave a closer of another list to it. -/
theorem Nest.closer_append {n : Nest} (hcl : n.closes last.kind = true)
    (hspelled : ∀ p, last.kind = .punct p → last.text = p.spelling)
    (hclosed : last.kind = .punct .gtGt → n.angles = 1) :
    Token.textOf (n.closer last) ++ ['>'] = last.text := by
  simp only [closes, Bool.and_eq_true, Bool.or_eq_true, beq_iff_eq, decide_eq_true_eq] at hcl
  rcases hcl.2 with ⟨hk, hangles⟩ | ⟨hk, -⟩
  · rw [closer, if_pos hangles, hspelled _ hk]
    rfl
  · rw [closer, if_neg (by rw [hclosed hk]; exact Nat.one_ne_zero), hspelled _ hk]
    rfl

/-- No comma stands in what closes a list. -/
theorem Nest.comma_notMem_closer (n : Nest) (last : Token) :
    ',' ∉ Token.textOf (n.closer last) := by
  unfold closer
  split
  · exact List.not_mem_nil
  · exact show ',' ∉ Punct.gt.spelling by decide

/-- **A list whose brackets pair up is cut between its parameters.** -/
theorem params_eq_parametersOf {ts list after : List Token}
    (h : Tokens.angles? ts = some (list, after)) (hlt : Tokens.headKind ts = .punct .lt)
    (hspelled : ∀ t ∈ list, ∀ p, t.kind = .punct p → t.text = p.spelling) (hpaired : Paired list) :
    params (Token.textOf list) = parametersOf list := by
  obtain ⟨first, inner, last, hfirst, rfl, henc⟩ := exists_encloses h hlt
  obtain ⟨plain, pair, closed⟩ := hpaired
  rw [inside_brackets] at plain pair closed
  rw [List.forall_mem_cons, List.forall_mem_append, List.forall_mem_singleton] at hspelled
  obtain ⟨hopener, hinner, hlast⟩ := hspelled
  obtain ⟨back, hback, hcomma⟩ := exists_upToComma inner
  have hcloser := Nest.closer_append henc.closes_last hlast fun hk =>
    closed (by rw [List.getLast?_cons, List.getLast?_append]; simp [hk])
  have htext : Token.textOf (first :: (inner ++ [last]))
      = '<' :: (Token.textOf (inner ++ (Nest.outside.run inner).closer last) ++ ['>']) := by
    rw [Token.textOf_cons, Token.textOf_append, hopener _ hfirst, Token.textOf_append,
      List.append_assoc, hcloser, Token.textOf_cons, Token.textOf_nil, List.append_nil]
    rfl
  generalize upToComma inner = front at plain pair hback
  subst hback
  have hkind : ∀ t ∈ back, t.kind ≠ .punct .comma := by
    intro t ht hk
    refine hcomma t ht ?_
    rw [hinner t (List.mem_append_right _ ht) _ hk]
    exact List.mem_cons_self
  have hrest : ',' ∉ Token.textOf (back ++ (Nest.outside.run (front ++ back)).closer last) := by
    rw [Token.textOf_append, List.mem_append, not_or]
    refine ⟨fun h => ?_, Nest.comma_notMem_closer _ last⟩
    obtain ⟨t, ht, hc⟩ := List.mem_flatMap.mp h
    exact hcomma t ht hc
  have hopened : (Nest.ofOpen []).Encloses (front ++ back) last := henc
  have hcut := splitCommas_eq_pieces (fun t ht => hinner t (List.mem_append_left _ ht)) plain pair
    hkind hopened rfl hrest []
  have hwhole : Token.textOf (front ++ back ++ (Nest.outside.run (front ++ back)).closer last)
      = Token.textOf front ++ Token.textOf (back ++ (Nest.outside.run (front ++ back)).closer last)
      := by
    rw [List.append_assoc, Token.textOf_append]
  have hpieces : splitCommas 0 []
        (Token.textOf (front ++ back ++ (Nest.outside.run (front ++ back)).closer last))
      = (pieces .outside [] (front ++ back ++ [last])).map Token.textOf := by
    rw [hwhole, List.append_assoc]
    exact hcut
  rw [htext, params_brackets, hpieces, List.map_map, parametersOf, List.tail_cons]
  rfl

end Construct.Template
end HeaderOutline
