import HeaderOutline.Proofs.Order
import HeaderOutline.Proofs.Revision.Run

/-! # The tokens of a revised header

The tokens of a header without mistakes are its lexemes put one after the other.  The same
lexemes, but for that of the comment, make up the revised header (`Revision.ofLexemes`); so
its tokens are the revised ones (`Revision.map_token_placed`), and all but the comment are
kept.
-/
namespace HeaderOutline

namespace Token

@[simp] theorem textOf_placed (p : Position) (xs : List Lexeme) :
    textOf (placed p xs) = Lexeme.textOf xs := by
  induction xs generalizing p with
  | nil => rfl
  | cons x xs ih =>
    rw [placed, textOf_cons, ih]
    rfl

theorem exists_of_mem_placed {p : Position} {xs : List Lexeme} {t : Token}
    (h : t ∈ placed p xs) : ∃ x ∈ xs, ∃ q, t = ofLexeme x q := by
  induction xs generalizing p with
  | nil => cases h
  | cons x xs ih =>
    rcases List.mem_cons.mp h with rfl | h
    · exact ⟨x, List.mem_cons_self, p, rfl⟩
    · obtain ⟨y, hy, hq⟩ := ih h
      exact ⟨y, List.mem_cons_of_mem x hy, hq⟩

/-- Documentation among the tokens of a text has no flaw, and its first characters show how
it ends. -/
theorem docComment_of_scan [Alphabet] {l : Limits} {source : Text} {t : Token}
    (hany : (scan l source).any isError = false) (hm : t ∈ (scan l source).dropLast)
    (hk : t.kind = .docComment) :
    t.flaw = none ∧ ("//".toList <+: t.text ∨ Lexeme.OpensBlock t.text) := by
  obtain ⟨xs, hcuts, heq⟩ := scan_eq_placed hany
  rw [heq, List.dropLast_concat] at hm
  obtain ⟨x, hx, q, rfl⟩ := exists_of_mem_placed hm
  obtain ⟨c, cs, rfl⟩ := hcuts.mem hx
  exact Lexeme.next_docComment c cs hk

/-- No token of a text without mistakes comes twice. -/
theorem nodup_of_ordered {ts : List Token} (h : Span.Ordered (ts.map span)) : ts.Nodup := by
  have hap := List.pairwise_map.mp h.apart
  refine hap.imp_of_mem fun {t u} ht _ hle htu => ?_
  have hpos := h.nonempty t.span (List.mem_map_of_mem ht)
  subst htu
  exact Nat.not_le_of_lt hpos hle

end Token

namespace Revision

variable {r : Revision}

/-- Tokens in a stretch of the header whose places move as one. -/
theorem placed_moves {p q : Position} {w : Text}
    (hplace : ∀ u, u <+: w → r.place (p.advance u) = q.advance u) {xs : List Lexeme} {u : Text}
    (h : u ++ Lexeme.textOf xs <+: w) (hc : r.comment ∉ Token.placed (p.advance u) xs) :
    (∀ t ∈ Token.placed (p.advance u) xs, r.relocation.Keeps t) ∧
      (Token.placed (p.advance u) xs).map r.token = Token.placed (q.advance u) xs :=
  Relocation.placed_moves (r := r.relocation) hplace h fun t ht =>
    r.token_eq (by rintro rfl; exact hc ht)

variable (r)

/-- The comment without its place. -/
def lexeme : Lexeme := ⟨.docComment, r.old, none⟩

/-- What takes its place. -/
def newLexeme : Lexeme := ⟨.docComment, r.new, none⟩

/-- The lexemes of the header are those around the comment and the comment. -/
structure Splits (xs ys : List Lexeme) : Prop where
  before : Lexeme.textOf xs = r.before
  behind : Lexeme.textOf ys = r.behind

variable {r} {xs ys : List Lexeme}

theorem placed_split (h : r.Splits xs ys) (x : Lexeme) :
    Token.placed .origin (xs ++ x :: ys) = Token.placed .origin xs ++
      Token.ofLexeme x (Position.origin.advance r.before) ::
        Token.placed (Position.origin.advance (r.before ++ x.text)) ys := by
  rw [Token.placed_append, h.before, Token.placed, ← Position.advance_append]

/-- **The tokens of the revised header** are the revised tokens, and all but the comment are
kept. -/
theorem map_token_placed (h : r.Splits xs ys)
    (hnd : (Token.placed .origin (xs ++ r.lexeme :: ys)).Nodup) :
    r.KeepsOthers (Token.placed .origin (xs ++ r.lexeme :: ys)) ∧
      (Token.placed .origin (xs ++ r.lexeme :: ys)).map r.token
        = Token.placed .origin (xs ++ r.newLexeme :: ys) := by
  rw [placed_split h] at hnd ⊢
  rw [placed_split h]
  have hcomment : Token.ofLexeme r.lexeme (Position.origin.advance r.before) = r.comment := rfl
  rw [hcomment] at hnd ⊢
  obtain ⟨_, hcons, hdisjoint⟩ := List.nodup_append.mp hnd
  have hin : r.comment ∉ Token.placed .origin xs := fun hm =>
    hdisjoint _ hm _ List.mem_cons_self rfl
  have hout := (List.nodup_cons.mp hcons).1
  obtain ⟨hfront, hfrontmap⟩ := placed_moves (r := r) (p := .origin) (q := .origin) (u := [])
    (w := r.before) (fun u hu => r.place_before hu) (h.before ▸ List.prefix_rfl) hin
  obtain ⟨hback, hbackmap⟩ := placed_moves (r := r)
    (p := Position.origin.advance (r.before ++ r.old))
    (q := Position.origin.advance (r.before ++ r.new)) (u := []) (w := r.behind)
    (fun u hu => by
      rw [← Position.advance_append, ← Position.advance_append]
      exact r.place_behind hu)
    (h.behind ▸ List.prefix_rfl) hout
  constructor
  · intro t ht hne
    rcases List.mem_append.mp ht with ht | ht
    · exact hfront t ht
    · exact hback t ((List.mem_cons.mp ht).resolve_left hne)
  · rw [Position.advance_nil] at hfrontmap hbackmap
    rw [List.map_append, List.map_cons, r.token_comment, hfrontmap,
      show r.lexeme.text = r.old from rfl, hbackmap]
    rfl

/-- The revised header is cut into the lexemes of the header, but for that of the comment. -/
theorem scan_revised [Alphabet] {l : Limits} (h : r.Splits xs ys)
    (hcuts : Lexeme.Cuts r.source (xs ++ r.lexeme :: ys) [])
    (hnew : Lexeme.Cuts r.new [r.newLexeme] [])
    (hany : (Token.scan l r.revised).any Token.isError = false) :
    (Token.scan l r.revised).dropLast = Token.placed .origin (xs ++ r.newLexeme :: ys) := by
  obtain ⟨zs, hzs, heq⟩ := Token.scan_eq_placed hany
  have hreplace := hcuts.replace r.old_opens r.new_opens hnew rfl
  rw [h.before, h.behind] at hreplace
  obtain rfl := hzs.unique hreplace
  rw [heq, List.dropLast_concat]

end Revision

/-- A text that is documentation by itself is one lexeme. -/
theorem Token.cuts_of_scan [Alphabet] {l : Limits} {c : Text}
    (h : (scan l c).map (·.kind) = [.docComment, .eof]) :
    Lexeme.Cuts c [⟨.docComment, c, none⟩] [] := by
  have hany : (scan l c).any isError = false := by
    have hkinds : ((scan l c).map (·.kind)).any (· == .error) = false := by
      rw [h]
      rfl
    rwa [List.any_map] at hkinds
  obtain ⟨xs, hcuts, heq⟩ := scan_eq_placed hany
  rw [heq, List.map_append] at h
  obtain ⟨x, rfl⟩ : ∃ x, xs = [x] := by
    have hlength := congrArg List.length h
    rcases xs with _ | ⟨x, _ | ⟨y, zs⟩⟩
    · simp [placed] at hlength
    · exact ⟨x, rfl⟩
    · simp [placed] at hlength
  obtain ⟨d, cs, hx⟩ := hcuts.mem (List.mem_singleton_self x)
  have hkind : x.kind = .docComment := (List.cons.inj h).1
  have hflaw : x.flaw = none := hx ▸ (Lexeme.next_docComment d cs (hx ▸ hkind)).1
  have htext : x.text = c := by simpa using hcuts.append_eq
  obtain ⟨kind, text, flaw⟩ := x
  subst hkind hflaw htext
  exact hcuts

/-- The tokens of a text without mistakes, the end left out, make up the text. -/
theorem Token.textOf_scan [Alphabet] {l : Limits} {source : Text}
    (hany : (scan l source).any isError = false) :
    textOf (scan l source).dropLast = source ∧
      ∃ e, scan l source = (scan l source).dropLast ++ [e] := by
  obtain ⟨xs, hcuts, heq⟩ := scan_eq_placed hany
  have htext := hcuts.append_eq
  rw [List.append_nil] at htext
  rw [heq, List.dropLast_concat, textOf_placed, htext]
  exact ⟨rfl, _, rfl⟩

theorem Span.slice_of_offsets {s : Span} {u v w : Text} (hstart : s.start.offset = u.size)
    (hstop : s.stop.offset = (u ++ v).size) : s.slice (u ++ v ++ w) = v := by
  have hle : u.size ≤ (u ++ v).size := by simp
  rw [slice, range, hstart, hstop, Nat.max_eq_left hle, Text.slice?_append, Option.getD_some]

/-- A stretch from the first of some tokens to the end of the last one holds their text. -/
theorem Token.slice_stretch [Alphabet] {l : Limits} {source : Text} {front taken rest : List Token}
    {t last : Token} (hany : (scan l source).any isError = false)
    (hts : (scan l source).dropLast = front ++ (taken ++ rest)) (hfirst : taken.head? = some t)
    (hlast : taken.getLast? = some last) :
    (Span.between t last).slice source = textOf taken := by
  obtain ⟨htext, e, heq⟩ := textOf_scan hany
  obtain ⟨more, rfl⟩ := List.head?_eq_some_iff.mp hfirst
  obtain ⟨mid, hmid⟩ := List.getLast?_eq_some_iff.mp hlast
  rw [hts] at htext heq
  have hstart := start_of_scan
    (show scan l source = front ++ t :: (more ++ rest ++ [e]) by simp [heq])
  have hlaststart := start_of_scan
    (show scan l source = (front ++ mid) ++ last :: (rest ++ [e]) by simp [heq, hmid])
  rw [← htext, textOf_append, textOf_append, ← List.append_assoc]
  refine Span.slice_of_offsets ?_ ?_
  · rw [Span.between, hstart, Position.origin_advance_offset]
  · rw [Span.between, stop_offset, hlaststart, Position.origin_advance_offset, hmid]
    simp only [textOf_append, textOf_cons, textOf_nil, Text.size_append, List.append_nil]
    omega

/-- A stretch from one token to the end of another holds the text of the first one. -/
theorem Token.slice_between [Alphabet] {l : Limits} {source : Text} {t last : Token}
    {behind rest : List Token} (hany : (scan l source).any isError = false)
    (hs : t :: behind <:+ (scan l source).dropLast) (hp : Passed (t :: behind) rest last) :
    t.text <+: (Span.between t last).slice source := by
  obtain ⟨front, hfront⟩ := hs
  obtain ⟨taken, htaken, hlast⟩ := hp
  obtain ⟨mid, more, rfl⟩ := List.append_of_mem hlast
  have hsplit : t :: behind = (mid ++ [last]) ++ (more ++ rest) := by
    rw [htaken]
    simp
  have hfirst : (mid ++ [last]).head? = some t := by
    cases mid with
    | nil => exact congrArg some (List.cons.inj hsplit).1.symm
    | cons u mid => exact congrArg some (List.cons.inj hsplit).1.symm
  rw [slice_stretch hany (hsplit ▸ hfront.symm) hfirst (by simp)]
  -- the first token is the one with which the stretch starts
  obtain ⟨others, hothers⟩ := List.head?_eq_some_iff.mp hfirst
  rw [hothers, textOf_cons]
  exact List.prefix_append _ _

/-- Every block of documentation in a header without mistakes can be revised. -/
theorem Revision.exists_of_scan [Alphabet] {l : Limits} {source c : Text} {t : Token}
    {behind : List Token} (hany : (Token.scan l source).any Token.isError = false)
    (hs : t :: behind <:+ (Token.scan l source).dropLast) (ht : t.IsBlockDoc)
    (hc : Lexeme.OpensBlock c) :
    ∃ (r : Revision) (xs ys : List Lexeme), r.Splits xs ys ∧ r.source = source ∧ r.new = c ∧
      r.comment = t ∧ Lexeme.Cuts source (xs ++ r.lexeme :: ys) [] ∧
      (Token.scan l source).dropLast = Token.placed .origin (xs ++ r.lexeme :: ys) := by
  obtain ⟨zs, hcuts, heq⟩ := Token.scan_eq_placed hany
  have hflaw := (Token.docComment_of_scan hany (hs.subset List.mem_cons_self) ht.1).1
  obtain ⟨front, hfront⟩ := hs
  rw [heq, List.dropLast_concat] at hfront ⊢
  obtain ⟨xs, zs, rfl, -, hback⟩ := Token.exists_of_placed_eq_append hfront.symm
  cases zs with
  | nil => cases hback
  | cons x ys =>
    obtain ⟨rfl, -⟩ := List.cons.inj hback
    have hsource := hcuts.append_eq
    obtain ⟨kind, old, flaw⟩ := x
    obtain rfl : kind = .docComment := ht.1
    obtain rfl : flaw = none := hflaw
    refine ⟨⟨Lexeme.textOf xs, old, c, Lexeme.textOf ys, ht.2, hc⟩, xs, ys, ⟨rfl, rfl⟩, ?_, rfl,
      rfl, hcuts, rfl⟩
    rw [← hsource]
    simp [Revision.source, Lexeme.textOf]

end HeaderOutline
