import HeaderOutline.Token.Stream

/-! # What a scan gives

Scanning goes on lexeme by lexeme: it ends where the text ends or a limit on the whole
input is met, and otherwise gives the first lexeme as a token and starts anew behind it.
`Token.scanFrom` is that recursion, which a lexer that is asked for all its tokens goes
through (`Token.scan_eq`), and `Token.scan_induction` the induction along it.  With it, no
character is lost between two tokens (`Token.textOf_scanFrom`) and each token starts where
the ones before it lead to (`Token.start_of_scanFrom`).
-/
namespace HeaderOutline

namespace Flaw

/-- Whether a flaw is that of an input as a whole, so that nothing more is read of it. -/
def endsInput : Flaw → Bool
  | .tokenLimit | .iterationLimit | .positionLimit => true
  | _ => false

/-- A limit that ends the tokens is one on the input as a whole. -/
theorem endsInput_of_halt? {l : Limits} {n : Nat} {p : Position} {f : Flaw}
    (h : l.halt? n p = some f) : f.endsInput = true := by
  unfold Limits.halt? at h
  split at h
  · cases h
    rfl
  · split at h
    · cases h
      rfl
    · split at h
      · cases h
        rfl
      · cases h

end Flaw

namespace Lexeme

/-- A lexeme that stands for a piece of text: not the end of the input, and if it is a
mistake, one of its own and not of the input as a whole. -/
structure IsPiece (x : Lexeme) : Prop where
  kind_ne_eof : x.kind ≠ .eof
  text_ne_nil : x.text ≠ []
  flaw_own : ∀ f ∈ x.flaw, f.endsInput = false ∧ f ≠ .stalled

theorem isPiece_sound {k : Kind} {t : Text} (hk : k ≠ .eof) (ht : t ≠ []) :
    (sound k t).IsPiece :=
  ⟨hk, ht, nofun⟩

theorem isPiece_flawed {f : Flaw} {t : Text} (hf : f.endsInput = false) (hs : f ≠ .stalled)
    (ht : t ≠ []) : (flawed f t).IsPiece :=
  ⟨nofun, ht, fun g hg => by obtain rfl := Option.some.inj hg; exact ⟨hf, hs⟩⟩

theorem lineCommentKind_isComment (t : Text) : (lineCommentKind t).isComment = true := by
  unfold lineCommentKind
  split <;> rfl

theorem blockCommentKind_isComment (t : Text) : (blockCommentKind t).isComment = true := by
  unfold blockCommentKind
  split <;> rfl

theorem ne_eof_of_isComment {k : Kind} (h : k.isComment = true) : k ≠ .eof := by
  rintro rfl
  cases h

theorem wordKind_ne_eof (t : Text) : wordKind t ≠ .eof := by
  unfold wordKind
  split <;> exact nofun

theorem isPiece_literal {quote : Char} {kind : Kind} {unclosed : Flaw} (cs : Text)
    (hk : kind ≠ .eof) (hf : unclosed.endsInput = false) (hs : unclosed ≠ .stalled) :
    (literal quote kind unclosed cs).1.IsPiece := by
  have ht := literal_text_ne_nil quote kind unclosed cs
  revert ht
  unfold literal
  split
  · exact isPiece_sound hk
  · exact isPiece_flawed hf hs

theorem isPiece_symbol (c : Char) (cs : Text) : (symbol c cs).1.IsPiece := by
  unfold symbol
  split
  · exact isPiece_sound nofun (Punct.spelling_ne_nil _)
  · exact isPiece_flawed rfl nofun (List.cons_ne_nil c [])

/-- What is cut off a text is a piece of it. -/
theorem isPiece_next [Alphabet] (c : Char) (cs : Text) : (next c cs).1.IsPiece := by
  unfold next
  split
  · exact isPiece_sound nofun (List.cons_ne_nil c [])
  split
  · exact isPiece_sound nofun (List.cons_ne_nil c _)
  split
  · exact isPiece_sound (ne_eof_of_isComment (lineCommentKind_isComment _))
      (List.cons_ne_nil c _)
  split
  · split
    · next text rest hm =>
      exact isPiece_sound (ne_eof_of_isComment (blockCommentKind_isComment _))
        (closeComment_text_ne_nil (by simp) hm)
    · exact isPiece_flawed rfl nofun (List.cons_ne_nil c cs)
  split
  · exact isPiece_literal cs nofun rfl nofun
  split
  · exact isPiece_literal cs nofun rfl nofun
  split
  · exact isPiece_sound nofun (closeNumber_text_ne_nil cs (List.cons_ne_nil c []))
  split
  · exact isPiece_sound (wordKind_ne_eof _) (List.cons_ne_nil c _)
  · exact isPiece_symbol c cs

/-- A limit on length is one of the lexeme itself. -/
theorem excess?_own {l : Limits} {x : Lexeme} {f : Flaw} (h : l.excess? x = some f) :
    f.endsInput = false ∧ f ≠ .stalled := by
  unfold Limits.excess? at h
  split at h
  all_goals first
    | (split at h <;> cases h <;> exact ⟨rfl, nofun⟩)
    | cases h

/-- A lexeme that is flagged stays a piece of the text. -/
theorem IsPiece.flag {x : Lexeme} (h : x.IsPiece) (l : Limits) : (l.flag x).IsPiece := by
  unfold Limits.flag
  split
  · next f hf => exact isPiece_flawed (excess?_own hf).1 (excess?_own hf).2 h.text_ne_nil
  · exact h

end Lexeme

namespace Token

/-- The tokens of a text at a place, if `count` tokens come before it. -/
def scanFrom [Alphabet] (l : Limits) (count : Nat) (p : Position) : Text → List Token
  | [] => [eof p]
  | c :: cs =>
    match l.halt? count p with
    | some flaw => [halt flaw p, eof p]
    | none =>
      ofLexeme (l.flag (Lexeme.next c cs).1) p ::
        scanFrom l (count + 1) (p.advance (Lexeme.next c cs).1.text) (Lexeme.next c cs).2
termination_by cs => cs.length
decreasing_by exact Lexeme.next_rest_length_lt c cs

variable {l : Limits} {n : Nat} {p : Position} {c : Char} {cs : Text}

/-- The token at the start of a text. -/
def first [Alphabet] (l : Limits) (p : Position) (c : Char) (cs : Text) : Token :=
  ofLexeme (l.flag (Lexeme.next c cs).1) p

@[simp] theorem first_start [Alphabet] : (first l p c cs).start = p := rfl

@[simp] theorem first_text [Alphabet] : (first l p c cs).text = (Lexeme.next c cs).1.text :=
  l.flag_text _

@[simp] theorem first_stop [Alphabet] :
    (first l p c cs).stop = p.advance (Lexeme.next c cs).1.text := by
  rw [stop, first_start, first_text]

theorem scanFrom_nil [Alphabet] : scanFrom l n p [] = [eof p] := by
  rw [scanFrom]

theorem scanFrom_halt [Alphabet] {f : Flaw} (h : l.halt? n p = some f) :
    scanFrom l n p (c :: cs) = [halt f p, eof p] := by
  rw [scanFrom, h]

theorem scanFrom_cons [Alphabet] (h : l.halt? n p = none) :
    scanFrom l n p (c :: cs) =
      first l p c cs :: scanFrom l (n + 1) (first l p c cs).stop (Lexeme.next c cs).2 := by
  rw [scanFrom, h, first_stop]
  rfl

/-- **Induction along a scan**: what holds at the end of a text and where a limit is met,
and at a lexeme if it holds behind it, holds at every text. -/
@[elab_as_elim]
theorem scan_induction [Alphabet] (l : Limits) {motive : Nat → Position → Text → Prop}
    (nil : ∀ n p, motive n p [])
    (halt : ∀ n p c cs f, l.halt? n p = some f → motive n p (c :: cs))
    (cons : ∀ n p c cs, l.halt? n p = none →
      motive (n + 1) (first l p c cs).stop (Lexeme.next c cs).2 → motive n p (c :: cs))
    (n : Nat) (p : Position) (cs : Text) : motive n p cs := by
  induction hk : cs.length using Nat.strongRecOn generalizing n p cs with
  | ind k ih =>
    subst hk
    cases cs with
    | nil => exact nil n p
    | cons c cs =>
      cases h : l.halt? n p with
      | some f => exact halt n p c cs f h
      | none => exact cons n p c cs h (ih _ (Lexeme.next_rest_length_lt c cs) _ _ _ rfl)

end Token

namespace Lexer

variable [Alphabet]

/-- Every lexeme has text, so that no character has to be passed over. -/
theorem lexeme_eq (l : Limits) (c : Char) (cs : Text) :
    lexeme l c cs = (l.flag (Lexeme.next c cs).1, (Lexeme.next c cs).2) := by
  have hne : (Lexeme.next c cs).1.text.isEmpty = false := by
    simpa using Lexeme.next_text_ne_nil c cs
  simp only [lexeme, hne, Bool.false_eq_true, if_false]

theorem collectOnto_of_none {x y : Lexer} (h : x.next = (none, y)) (done : List CountedToken) :
    x.collectOnto done = done.reverse := by
  unfold collectOnto
  split
  · rfl
  · next hx =>
    rw [h] at hx
    cases hx

theorem collectOnto_of_some {x y : Lexer} {t : CountedToken} (h : x.next = (some t, y))
    (done : List CountedToken) : x.collectOnto done = y.collectOnto (t :: done) := by
  conv => lhs; unfold collectOnto
  split
  · next hx =>
    rw [h] at hx
    cases hx
  · next hx =>
    rw [h] at hx
    cases hx
    rfl

/-- **Induction along what a lexer gives**: what holds of a lexer without tokens, and before
a token if it holds behind it, holds of every lexer. -/
@[elab_as_elim]
theorem next_induction {motive : Lexer → Prop}
    (none : ∀ x y, x.next = (none, y) → motive x)
    (some : ∀ x t y, x.next = (some t, y) → motive y → motive x) (x : Lexer) : motive x := by
  induction hn : x.left using Nat.strongRecOn generalizing x with
  | ind n ih =>
    subst hn
    match h : x.next with
    | (.none, y) => exact none x y h
    | (.some t, y) => exact some x t y h (ih _ (left_lt_of_next h) y rfl)

/-- What is done stands first. -/
theorem collectOnto_eq (done : List CountedToken) (x : Lexer) :
    x.collectOnto done = done.reverse ++ x.collectOnto [] := by
  induction x using next_induction generalizing done with
  | none x y h =>
    rw [collectOnto_of_none h, collectOnto_of_none h, List.reverse_nil, List.append_nil]
  | some x t y h ih =>
    rw [collectOnto_of_some h, collectOnto_of_some h, ih (t :: done), ih [t], List.reverse_cons,
      List.append_assoc, List.reverse_singleton]

/-- A token that a lexer gives comes first. -/
theorem collect_of_some {x y : Lexer} {t : CountedToken} (h : x.next = (some t, y)) :
    x.collectOnto [] = t :: y.collectOnto [] := by
  rw [collectOnto_of_some h, collectOnto_eq]
  rfl

/-- A lexer that stands before a text gives the tokens of it. -/
theorem toToken_collect (l : Limits) (k : Counter) (n : Nat) (p : Position) (cs : Text) :
    (collectOnto [] ⟨l, cs, p, k, n, .scanning⟩).map (·.toToken) = Token.scanFrom l n p cs := by
  induction n, p, cs using Token.scan_induction l generalizing k with
  | nil n p =>
    rw [collect_of_some (x := ⟨l, [], p, k, n, .scanning⟩) rfl, collectOnto_of_none rfl,
      Token.scanFrom_nil]
    rfl
  | halt n p c cs f h =>
    have hnext : (⟨l, c :: cs, p, k, n, .scanning⟩ : Lexer).next =
        (some (give ⟨l, c :: cs, p, k, n, .scanning⟩ (.halt f p)),
          ⟨l, c :: cs, p, k, n, .stopping⟩) := by
      simp only [next, h]
    rw [collect_of_some hnext, collect_of_some (x := ⟨l, c :: cs, p, k, n, .stopping⟩) rfl,
      collectOnto_of_none rfl, Token.scanFrom_halt h]
    rfl
  | cons n p c cs h ih =>
    have hnext : (⟨l, c :: cs, p, k, n, .scanning⟩ : Lexer).next =
        (some (give ⟨l, c :: cs, p, k, n, .scanning⟩ (Token.first l p c cs)),
          behind ⟨l, c :: cs, p, k, n, .scanning⟩ (l.flag (Lexeme.next c cs).1)
            (Lexeme.next c cs).2) := by
      simp only [next, h, lexeme_eq]
      rfl
    rw [collect_of_some hnext, List.map_cons, Token.scanFrom_cons h]
    exact congrArg _ (ih _)

end Lexer

namespace Token

variable {l : Limits} {n : Nat} {p : Position} {c : Char} {cs : Text}

/-- **The tokens of a text are those of its lexemes**, one after the other. -/
theorem scan_eq [Alphabet] (l : Limits) (source : Text) :
    scan l source = scanFrom l 0 .origin source :=
  Lexer.toToken_collect l .origin 0 .origin source

@[simp] theorem textOf_nil : textOf [] = [] := rfl

@[simp] theorem textOf_cons (t : Token) (ts : List Token) :
    textOf (t :: ts) = t.text ++ textOf ts := rfl

@[simp] theorem textOf_append (ts us : List Token) :
    textOf (ts ++ us) = textOf ts ++ textOf us := List.flatMap_append

/-- Nothing is lost: the tokens of a text from a place on give a beginning of it. -/
theorem textOf_scanFrom [Alphabet] (l : Limits) (n : Nat) (p : Position) (cs : Text) :
    textOf (scanFrom l n p cs) <+: cs := by
  induction n, p, cs using scan_induction l with
  | nil n p =>
    rw [scanFrom_nil]
    exact List.prefix_rfl
  | halt n p c cs f h =>
    rw [scanFrom_halt h]
    exact List.nil_prefix
  | cons n p c cs h ih =>
    rw [scanFrom_cons h, textOf_cons, first_text]
    conv => rhs; rw [← Lexeme.next_append c cs]
    exact List.prefix_append_right_inj _ |>.mpr ih

/-- A token starts where the tokens before it lead to. -/
theorem start_of_scanFrom [Alphabet] {before behind : List Token} {t : Token}
    (h : scanFrom l n p cs = before ++ t :: behind) :
    t.start = p.advance (textOf before) := by
  induction n, p, cs using scan_induction l generalizing before with
  | nil n p =>
    rw [scanFrom_nil] at h
    obtain ⟨rfl, hs⟩ : before = [] ∧ [eof p] = t :: behind := by
      cases before with
      | nil => exact ⟨rfl, h⟩
      | cons u before => simp at h
    exact (List.cons.inj hs).1 ▸ rfl
  | halt n p c cs f hf =>
    rw [scanFrom_halt hf] at h
    -- both tokens are without text, so that both are at the same place
    rcases before with _ | ⟨u, _ | ⟨v, before⟩⟩
    · obtain ⟨rfl, -⟩ := List.cons.inj h
      rfl
    · obtain ⟨rfl, htail⟩ := List.cons.inj h
      obtain ⟨rfl, -⟩ := List.cons.inj htail
      rfl
    · simp at h
  | cons n p c cs hn ih =>
    rw [scanFrom_cons hn] at h
    cases before with
    | nil =>
      obtain ⟨rfl, -⟩ := List.cons.inj h
      rfl
    | cons u before =>
      obtain ⟨rfl, htail⟩ := List.cons.inj h
      rw [ih htail, textOf_cons, Position.advance_append, stop, first_start]

theorem start_of_scan [Alphabet] {source : Text} {before behind : List Token} {t : Token}
    (h : scan l source = before ++ t :: behind) :
    t.start = Position.origin.advance (textOf before) :=
  start_of_scanFrom ((scan_eq l source).symm.trans h)

/-- Nothing is lost: the tokens of a text give a beginning of it. -/
theorem textOf_scan_beginning [Alphabet] (l : Limits) (source : Text) :
    textOf (scan l source) <+: source := by
  rw [scan_eq]
  exact textOf_scanFrom l 0 .origin source

end Token
end HeaderOutline
