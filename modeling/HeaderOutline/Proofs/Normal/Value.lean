import HeaderOutline.Proofs.Normal.Lexemes
import HeaderOutline.Proofs.Returns.Directive
import HeaderOutline.Proofs.Values

/-! # The values of macros as lexemes

While the value of a macro is read, it is the text of lexemes that are joined by single spaces
(`Construct.Directive.Value.Joins`): what follows without a gap is cut behind them as it stands in
the header, and behind a gap they are cut by themselves.  So the value is cut into such lexemes
(`Construct.Directive.exists_joins_value`), and when it is read from them it is the same value
again (`Construct.Directive.value_joined`).
-/
namespace HeaderOutline.Construct.Directive

open Lexeme (Cuts Faithful Joined Counts textOf Stops)

variable {v : Value} {w : Text} {x : Lexeme} {xs ys : List Lexeme} {ts rest : List Token}
  {t : Token} {p : Position}

/-- Some lexemes are the value so far; what is left is cut behind them, unless there is a gap. -/
structure Value.Joins [Alphabet] (v : Value) (rest : Text) (xs : List Lexeme) : Prop where
  text : v.text = textOf xs
  joined : Joined xs
  adjacent : v.gap = false → Cuts (textOf xs ++ rest) xs rest
  apart : v.gap = true → Faithful xs

namespace Value.Joins

theorem faithful [Alphabet] (h : v.Joins w xs) : Faithful xs := by
  cases hgap : v.gap with
  | true => exact h.apart hgap
  | false => exact (h.adjacent hgap).faithful

theorem start [Alphabet] (w : Text) : Value.Joins .start w [] :=
  ⟨rfl, .nil, fun _ => .none w, nofun⟩

/-- Behind a gap anything may be left. -/
theorem space [Alphabet] (h : v.Joins w xs) (rest : Text) : v.space.Joins rest xs :=
  ⟨h.text, h.joined, nofun, fun _ => h.faithful⟩

/-- The brackets that are open make no difference. -/
theorem depth [Alphabet] (h : v.Joins w xs) (n : Nat) : Value.Joins { v with depth := n } w xs :=
  ⟨h.text, h.joined, h.adjacent, h.apart⟩

/-- One more lexeme that counts. -/
theorem push [Alphabet] (h : v.Joins (textOf (x :: ys)) xs) (hf : Faithful (x :: ys))
    (hx : x.Counts) (p : Position) : ∃ xs', (v.push (.ofLexeme x p)).Joins (textOf ys) xs' := by
  have hcut : Cuts (textOf (x :: ys)) [x] (textOf ys) := hf.cuts_head
  have hstops : Stops Lexeme.isSpace (textOf (x :: ys)) := hf.stops_isSpace hx.not_whitespace
  cases hgap : v.gap with
  | false =>
    refine ⟨xs ++ [x], ?_, h.joined.next hx, fun _ => ?_, nofun⟩
    · simp [Value.push, hgap, h.text, Token.ofLexeme]
    · simpa using (h.adjacent hgap).append hcut
  | true =>
    by_cases hne : xs = []
    · subst hne
      refine ⟨[x], ?_, Joined.nil.next hx, fun _ => ?_, nofun⟩
      · simp [Value.push, h.text, Token.ofLexeme]
      · simpa using hcut
    · have hspace : Cuts (' ' :: textOf (x :: ys)) [Lexeme.blanks 1] (textOf (x :: ys)) := by
        have hone : Cuts (' ' :: textOf (x :: ys)) [(Lexeme.next ' ' (textOf (x :: ys))).1] _ :=
          .next (.none _)
        rwa [Lexeme.next_blank hstops] at hone
      have hall := (h.joined.cuts_blank h.faithful _).append (hspace.append hcut)
      refine ⟨xs ++ [Lexeme.blanks 1, x], ?_, h.joined.behind hne hx, fun _ => ?_, nofun⟩
      · have htext : v.text ≠ [] := h.text ▸ h.faithful.textOf_ne_nil hne
        simp [Value.push, hgap, h.text ▸ htext, h.text, Token.ofLexeme, Lexeme.text_blanks_one]
      · simpa [Lexeme.text_blanks_one] using hall

end Value.Joins

/-- One more token, which counts or leaves a gap. -/
theorem Value.Joins.add [Alphabet] (h : v.Joins (textOf (x :: ys)) xs) (hf : Faithful (x :: ys))
    (hx : x.kind ≠ .error) (p : Position) :
    ∃ xs', (v.add (.ofLexeme x p)).Joins (textOf ys) xs' := by
  have hpush : ∀ n, x.kind.isTrivia = false → x.kind.isComment = false →
      ∃ xs', (Value.push { v with depth := n } (.ofLexeme x p)).Joins (textOf ys) xs' :=
    fun n ht hc => (h.depth n).push hf ⟨hx, ht, hc⟩ p
  have hkind : (Token.ofLexeme x p).kind = x.kind := rfl
  unfold Value.add
  split <;> rename_i hk
  case h_6 | h_7 | h_8 | h_9 =>
    rw [hkind] at hk
    exact hpush _ (by rw [hk]; rfl) (by rw [hk]; rfl)
  case h_10 =>
    refine hpush v.depth ?_ ?_
    · unfold Kind.isTrivia
      split <;> simp_all
    · unfold Kind.isComment
      split <;> simp_all
  all_goals exact ⟨xs, h.space _⟩

/-- **The value of a macro** is that of joined lexemes. -/
theorem exists_joins_value [Alphabet] (hf : Faithful ys) (hs : ∀ y ∈ ys, y.kind ≠ .error)
    (h : v.Joins (textOf ys) xs) (p : Position) :
    ∃ rest xs', (value v (Token.placed p ys)).1.Joins rest xs' := by
  generalize hts : Token.placed p ys = ts
  fun_induction value v ts generalizing p ys xs with
  | case1 v => exact ⟨_, _, h⟩
  | case2 v t ts _ => exact ⟨_, _, h⟩
  | case3 v t ts _ hk rest hrest ih =>
    -- the tokens that the backslash takes away leave a gap
    obtain ⟨front, hfront⟩ := (afterContinuation?_suffix hrest).trans (List.suffix_cons t ts)
    obtain ⟨us, zs, rfl, -, hzs⟩ := Token.exists_of_placed_eq_append (hts.trans hfront.symm)
    exact ih (hf.append_right) (fun y hy => hs y (List.mem_append_right us hy)) (h.space _) _
      hzs.symm
  | case4 v t ts _ hk _ ih =>
    cases ys with
    | nil => cases hts
    | cons x ys =>
      obtain ⟨rfl, rfl⟩ := List.cons.inj hts
      have hcounts : x.Counts := by
        have hk : x.kind = .punct .backslash := eq_of_beq hk
        exact ⟨hs x List.mem_cons_self, by rw [hk]; rfl, by rw [hk]; rfl⟩
      obtain ⟨xs', hpush⟩ := h.push hf hcounts p
      exact ih (hf.tail)
        (fun y hy => hs y (List.mem_cons_of_mem x hy)) hpush _ rfl
  | case5 v t ts _ hk ih =>
    cases ys with
    | nil => cases hts
    | cons x ys =>
      obtain ⟨rfl, rfl⟩ := List.cons.inj hts
      obtain ⟨xs', hadd⟩ := h.add hf (hs x List.mem_cons_self) p
      exact ih (hf.tail)
        (fun y hy => hs y (List.mem_cons_of_mem x hy)) hadd _ rfl

/-! ## Reading the value again -/

/-- A value without line ends goes on to the end of the tokens. -/
theorem value_of_not_newline (h : ∀ t ∈ ts, t.kind ≠ .newline) :
    value v ts = (ts.foldl .add v, []) := by
  induction ts generalizing v with
  | nil => rw [value]; rfl
  | cons t ts ih =>
    have hmore : ∀ u ∈ ts, u.kind ≠ .newline := fun u hu => h u (List.mem_cons_of_mem t hu)
    by_cases hk : t.kind = .punct .backslash
    · have hnone : afterContinuation? ts = none := by
        rw [Option.eq_none_iff_forall_ne_some]
        intro rest hrest
        obtain ⟨u, hline, hu⟩ := Tokens.eat?_eq_some_iff.mp hrest
        have hmem : u ∈ ts := (Tokens.skipSpace_suffix ts).mem (hu ▸ List.mem_cons_self)
        exact hmore u hmem hline
      have hadd : v.add t = v.push t := by simp [Value.add, hk]
      rw [value_of_none hk hnone, ih hmore, List.foldl_cons, hadd]
    · rw [value_of_ne (fun hn => absurd hn (h t List.mem_cons_self)) hk, ih hmore,
        List.foldl_cons]

/-- A token that counts is put behind the value, with a space in a gap. -/
theorem Value.add_of_counts (hx : x.Counts) (v : Value) (p : Position) :
    (v.add (.ofLexeme x p)).text =
        (if v.gap && !v.text.isEmpty then v.text ++ ' ' :: x.text else v.text ++ x.text) ∧
      (v.add (.ofLexeme x p)).gap = false := by
  have hkind : (Token.ofLexeme x p).kind = x.kind := rfl
  have hsolid := hx.solid
  have hplain := hx.plain
  unfold Value.add
  split <;> rename_i hk
  case h_1 | h_2 =>
    rw [← hkind, hk] at hsolid
    cases hsolid
  case h_3 | h_4 | h_5 =>
    rw [← hkind, hk] at hplain
    cases hplain
  all_goals exact ⟨rfl, rfl⟩

/-- Joined lexemes are read to their text. -/
theorem foldl_add_joined [Alphabet] (h : Joined xs) (hf : Faithful xs) (hv : v.text = [])
    (p : Position) : ((Token.placed p xs).foldl .add v).text = textOf xs ∧
      (xs ≠ [] → ((Token.placed p xs).foldl .add v).gap = false) := by
  induction h with
  | nil => exact ⟨hv, fun hne => absurd rfl hne⟩
  | @next xs x _ hx ih =>
    obtain ⟨htext, hgap⟩ := ih hf.append_left
    rw [Token.placed_append, List.foldl_append]
    generalize (Token.placed p xs).foldl Value.add v = u at htext hgap ⊢
    obtain ⟨hadd, hafter⟩ := Value.add_of_counts hx u (p.advance (textOf xs))
    have hno : ¬(u.gap && !u.text.isEmpty) = true := by
      by_cases hne : xs = []
      · simp [htext, hne]
      · simp [hgap hne]
    rw [if_neg hno, htext] at hadd
    exact ⟨hadd.trans (by simp), fun _ => hafter⟩
  | @behind xs x _ hne hx ih =>
    obtain ⟨htext, -⟩ := ih hf.append_left
    rw [Token.placed_append, List.foldl_append]
    generalize (Token.placed p xs).foldl Value.add v = u at htext ⊢
    have hsome : u.text ≠ [] := htext ▸ hf.append_left.textOf_ne_nil hne
    -- the blank leaves the gap that the token is put behind
    obtain ⟨hadd, hafter⟩ := Value.add_of_counts hx u.space
      ((p.advance (textOf xs)).advance (Lexeme.blanks 1).text)
    rw [if_pos (by simp [Value.space, hsome])] at hadd
    refine ⟨hadd.trans ?_, fun _ => hafter⟩
    simp [Value.space, htext, Lexeme.text_blanks_one]

/-- **The value of a macro, written behind a space,** is read as itself. -/
theorem value_joined [Alphabet] (h : Joined xs) (hf : Faithful xs) (p : Position) :
    (value .start (Token.placed p (Lexeme.blanks 1 :: xs))).1.text = textOf xs ∧
      (value .start (Token.placed p (Lexeme.blanks 1 :: xs))).2 = [] := by
  have hlines : ∀ t ∈ Token.placed p (Lexeme.blanks 1 :: xs), t.kind ≠ .newline := by
    intro t ht
    obtain ⟨x, hx, q, rfl⟩ := Token.exists_of_mem_placed ht
    rcases List.mem_cons.mp hx with rfl | hx
    · exact nofun
    · exact h.not_newline x hx
  rw [value_of_not_newline hlines]
  exact ⟨(foldl_add_joined (v := Value.start.space) h hf rfl _).1, rfl⟩

end HeaderOutline.Construct.Directive
