import HeaderOutline.Proofs.Lexemes
import HeaderOutline.Proofs.Order
import HeaderOutline.Text.Unicode
import Mathlib.Data.List.Forall2

/-! # Limits cut the tokens off or flag them

Where a lexeme starts and ends depends on no limit.  So a text has the same tokens under all
limits that it stays within, and other limits leave these tokens as they are, but for two things:
a token that is too long for its kind (`Limits.Exceeded`) becomes a mistake with the same text at
the same place, and nothing is left from the first token on before which the whole input goes
beyond a limit (`Limits.Ends`).  `Limits.Leaves` says both of a list of tokens.
-/
namespace HeaderOutline

namespace Limits

variable {l : Limits} {n : Nat} {p stop : Position} {t u : Token} {f : Flaw}

/-! ## What limits ask of tokens -/

/-- A token is too long for its kind, which makes it a mistake of some sort.  Comments are
measured in bytes, everything else in characters. -/
inductive Exceeded (l : Limits) (t : Token) : Flaw → Prop
  | whitespace (kind : t.kind = .whitespace) (long : l.whitespace < t.text.length) :
      Exceeded l t .excessiveWhitespace
  | comment (kind : t.kind.isComment = true) (long : l.comment < t.text.size) :
      Exceeded l t .commentTooLong
  | literal (kind : t.kind = .string ∨ t.kind = .char) (long : l.literal < t.text.length) :
      Exceeded l t .literalTooLong
  | number (kind : t.kind = .number) (long : l.number < t.text.length) :
      Exceeded l t .numberTooLong
  | word (kind : t.kind = .ident ∨ t.kind.isKeyword = true)
      (long : l.identifier < t.text.length) : Exceeded l t .identifierTooLong

/-- What becomes of a token: it is kept as it is, or, exactly if it is too long, it is turned
into a mistake with the same text at the same place. -/
inductive Marks (l : Limits) (t : Token) : Token → Prop
  | kept (short : ∀ f, ¬l.Exceeded t f) : Marks l t t
  | flagged {f : Flaw} (long : l.Exceeded t f) : Marks l t ⟨.error, t.text, t.start, some f⟩

/-- The tokens end before one that `k` others precede: there are too many of them, or this one
starts too far behind.  The number of tokens counts first, then that of steps. -/
inductive Ends (l : Limits) (k : Nat) (t : Token) : Flaw → Prop
  | tokens (many : l.tokens ≤ k) : Ends l k t .tokenLimit
  | iterations (few : k < l.tokens) (many : l.iterations ≤ k) : Ends l k t .iterationLimit
  | position (few : k < l.tokens) (brief : k < l.iterations)
      (far : l.position < t.start.offset) : Ends l k t .positionLimit

/-- What limits leave of some tokens, which `n` others precede and which end at a place: all of
them, or those before the first one at which the tokens end.  There a mistake without text and
the end of the input take the place of the others. -/
inductive Leaves (l : Limits) (n : Nat) (ts : List Token) (stop : Position) : List Token → Prop
  | all {us : List Token} (within : ∀ k t f, ts[k]? = some t → ¬l.Ends (n + k) t f)
      (marks : List.Forall₂ l.Marks ts us) : Leaves l n ts stop (us ++ [.eof stop])
  | cut {us : List Token} {k : Nat} {t : Token} {f : Flaw} (here : ts[k]? = some t)
      (ends : l.Ends (n + k) t f)
      (least : ∀ j u g, j < k → ts[j]? = some u → ¬l.Ends (n + j) u g)
      (marks : List.Forall₂ l.Marks (ts.take k) us) :
      Leaves l n ts stop (us ++ [.halt f t.start, .eof t.start])

theorem Exceeded.isLimit (h : l.Exceeded t f) : f.isLimit = true := by
  cases h <;> rfl

theorem Ends.isLimit (h : l.Ends n t f) : f.isLimit = true := by
  cases h <;> rfl

/-- A lexeme is flagged exactly if the token that it becomes is too long. -/
theorem excess?_eq_some_iff {x : Lexeme} :
    l.excess? x = some f ↔ l.Exceeded (.ofLexeme x p) f := by
  obtain ⟨kind, text, flaw⟩ := x
  constructor
  · intro h
    have hlong : ∀ {c : Prop} [Decidable c] {g : Flaw},
        (if c then some g else none) = some f → c ∧ g = f := by simp
    cases kind with
    | whitespace =>
      obtain ⟨long, rfl⟩ := hlong h
      exact .whitespace rfl long
    | lineComment | blockComment | docComment =>
      obtain ⟨long, rfl⟩ := hlong h
      exact .comment rfl long
    | string =>
      obtain ⟨long, rfl⟩ := hlong h
      exact .literal (.inl rfl) long
    | char =>
      obtain ⟨long, rfl⟩ := hlong h
      exact .literal (.inr rfl) long
    | number =>
      obtain ⟨long, rfl⟩ := hlong h
      exact .number rfl long
    | ident =>
      obtain ⟨long, rfl⟩ := hlong h
      exact .word (.inl rfl) long
    | keyword =>
      obtain ⟨long, rfl⟩ := hlong h
      exact .word (.inr rfl) long
    | newline | punct | error | eof => cases h
  · intro h
    cases h with
    | whitespace hk long =>
      obtain rfl : kind = .whitespace := hk
      exact if_pos long
    | comment hk long =>
      cases kind with
      | lineComment | blockComment | docComment => exact if_pos long
      | _ => cases hk
    | literal hk long =>
      obtain rfl | rfl : kind = .string ∨ kind = .char := hk
      · exact if_pos long
      · exact if_pos long
    | number hk long =>
      obtain rfl : kind = .number := hk
      exact if_pos long
    | word hk long =>
      obtain rfl | hk : kind = .ident ∨ kind.isKeyword = true := hk
      · exact if_pos long
      · cases kind with
        | keyword => exact if_pos long
        | _ => cases hk

theorem marks_flag (l : Limits) (x : Lexeme) (p : Position) :
    l.Marks (.ofLexeme x p) (.ofLexeme (l.flag x) p) := by
  unfold flag
  split
  · next f h => exact .flagged (excess?_eq_some_iff.mp h)
  · next h =>
    refine .kept fun f hf => ?_
    cases h.symm.trans (excess?_eq_some_iff.mpr hf)

/-- The scan stops exactly if the tokens end before the one that would come next. -/
theorem halt?_eq_some_iff : l.halt? n t.start = some f ↔ l.Ends n t f := by
  unfold halt?
  split
  · next many =>
    constructor
    · rintro ⟨⟩
      exact .tokens many
    · intro h
      cases h with
      | tokens => rfl
      | iterations few | position few => omega
  · next few =>
    split
    · next many =>
      constructor
      · rintro ⟨⟩
        exact .iterations (by omega) many
      · intro h
        cases h with
        | tokens => omega
        | iterations => rfl
        | position _ brief => omega
    · next brief =>
      split
      · next far =>
        constructor
        · rintro ⟨⟩
          exact .position (by omega) (by omega) far
        · intro h
          cases h with
          | tokens | iterations => omega
          | position => rfl
      · next near =>
        refine ⟨nofun, fun h => ?_⟩
        cases h <;> omega

/-! ## What is left of the tokens of a text -/

/-- A token at which the tokens do not end is left, and then what is left of those behind it. -/
theorem Leaves.cons {ts us : List Token} (h : ∀ f, ¬l.Ends n t f) (hm : l.Marks t u)
    (hl : l.Leaves (n + 1) ts stop us) : l.Leaves n (t :: ts) stop (u :: us) := by
  have hshift : ∀ k, n + 1 + k = n + (k + 1) := fun k => by omega
  cases hl with
  | all within marks =>
    refine .all (fun k v f hk => ?_) (.cons hm marks)
    cases k with
    | zero =>
      obtain rfl := Option.some.inj hk
      exact h f
    | succ k => exact hshift k ▸ within k v f hk
  | @cut us k v g here ends least marks =>
    have htake : List.Forall₂ l.Marks ((t :: ts).take (k + 1)) (u :: us) := .cons hm marks
    refine .cut (k := k + 1) here (hshift k ▸ ends) (fun j v g hj hv => ?_) htake
    cases j with
    | zero =>
      obtain rfl := Option.some.inj hv
      exact h g
    | succ j => exact hshift j ▸ least j v g (Nat.lt_of_succ_lt_succ hj) hv

/-- **What a scan leaves** of the lexemes of a text, as tokens. -/
theorem leaves_scanFrom [Alphabet] (l : Limits) (n : Nat) (p : Position) {cs : Text}
    {xs : List Lexeme} (h : Lexeme.Cuts cs xs []) :
    l.Leaves n (Token.placed p xs) (p.advance cs) (Token.scanFrom l n p cs) := by
  generalize hw : ([] : Text) = w at h
  induction h generalizing n p with
  | none =>
    subst hw
    have hall : l.Leaves n [] p ([] ++ [.eof p]) := .all (by simp) .nil
    rw [Token.scanFrom_nil]
    exact hall
  | @next c cs _ xs _ ih =>
    have hstop : p.advance (c :: cs)
        = (p.advance (Lexeme.next c cs).1.text).advance (Lexeme.next c cs).2 := by
      rw [← Position.advance_append, Lexeme.next_append]
    cases hhalt : l.halt? n p with
    | some f =>
      have hends : l.Ends n (.ofLexeme (Lexeme.next c cs).1 p) f := halt?_eq_some_iff.mp hhalt
      have hcut : l.Leaves n (Token.placed p ((Lexeme.next c cs).1 :: xs)) (p.advance (c :: cs))
          ([] ++ [.halt f p, .eof p]) :=
        .cut (k := 0) rfl hends (fun _ _ _ hj => absurd hj (Nat.not_lt_zero _)) .nil
      rw [Token.scanFrom_halt hhalt]
      exact hcut
    | none =>
      rw [Token.scanFrom_cons hhalt, Token.first_stop, hstop]
      refine Leaves.cons (fun f hf => ?_) (marks_flag l _ p) (ih _ _ hw)
      cases hhalt.symm.trans (halt?_eq_some_iff.mpr hf)

/-- What the scan of a text leaves of its lexemes. -/
theorem leaves_scan [Alphabet] (l : Limits) {source : Text} {xs : List Lexeme}
    (h : Lexeme.Cuts source xs []) :
    l.Leaves 0 (Token.placed .origin xs) (Position.origin.advance source)
      (Token.scan l source) := by
  rw [Token.scan_eq]
  exact l.leaves_scanFrom 0 .origin h

/-- Without the mistakes that they would become, tokens were kept. -/
theorem eq_of_marks {ts us : List Token} (h : List.Forall₂ l.Marks ts us)
    (hus : ∀ t ∈ ts, ∀ f, l.Exceeded t f → ⟨.error, t.text, t.start, some f⟩ ∉ us) : us = ts := by
  induction h with
  | nil => rfl
  | @cons t u ts us hm _ ih =>
    have hmore : us = ts := ih fun v hv f hf hmem =>
      hus v (List.mem_cons_of_mem t hv) f hf (List.mem_cons_of_mem u hmem)
    cases hm with
    | kept => rw [hmore]
    | flagged long => exact absurd List.mem_cons_self (hus t List.mem_cons_self _ long)

/-- If none of the tokens that are left goes beyond a limit, all of them are left as they are. -/
theorem Leaves.eq_of_isLimit {ts us : List Token} (h : l.Leaves n ts stop us)
    (hus : ∀ u ∈ us, ∀ f ∈ u.flaw, f.isLimit = false) : us = ts ++ [.eof stop] := by
  cases h with
  | all _ marks =>
    rw [eq_of_marks marks]
    intro t _ f hf hmem
    cases hf.isLimit.symm.trans (hus _ (List.mem_append_left _ hmem) f rfl)
  | @cut us k t f _ ends _ _ =>
    have hlimit := hus (.halt f t.start) (by simp) f rfl
    cases ends.isLimit.symm.trans hlimit

end Limits

/-! ## Limits that a text stays within -/

namespace Lexeme

/-- A text is cut to its end. -/
theorem exists_cuts [Alphabet] (cs : Text) : ∃ xs, Cuts cs xs [] := by
  induction hn : cs.length using Nat.strongRecOn generalizing cs with
  | ind n ih =>
    subst hn
    cases cs with
    | nil => exact ⟨[], .none []⟩
    | cons c cs =>
      obtain ⟨xs, h⟩ := ih _ (next_rest_length_lt c cs) _ rfl
      exact ⟨_, .next h⟩

end Lexeme

end HeaderOutline
