import HeaderOutline.Proofs.Declared
import HeaderOutline.Proofs.Words

/-! # The values of macros

The value of a macro is put together from the texts of tokens, with a space for each gap between
them.  A token is as long as it can be: what comes behind a word does not continue it
(`Token.stops_behind_word`).  So no value that takes in two tokens is a word, and a value that is
one is the text of a single token (`Construct.Directive.exists_of_isWord_value`).
-/
namespace HeaderOutline

variable [Alphabet]

/-- What starts with a word and a character that does not continue it is no word. -/
theorem Text.not_isWord_of_stops {s t : Text} (hs : s ≠ []) (hne : t ≠ [])
    (h : s.IsWord → Lexeme.Stops Text.continuesIdentifier t) (u : Text) :
    ¬Text.IsWord (s ++ t ++ u) := by
  intro hword
  obtain ⟨c, cs, rfl⟩ := List.exists_cons_of_ne_nil hs
  obtain ⟨d, more, rfl⟩ := List.exists_cons_of_ne_nil hne
  obtain ⟨c', cs', hc', hopens⟩ := hword.opens
  obtain rfl : c = c' := (List.cons.inj hc').1
  have hmem : ∀ x ∈ c :: cs, x ∈ c :: cs ++ d :: more ++ u := fun x hx =>
    List.mem_append_left u (List.mem_append_left _ hx)
  have hstops := h ⟨⟨c, cs, rfl, hopens⟩, fun x hx => hword.continues x (hmem x hx)⟩
  have hfalse : Text.continuesIdentifier d = false := hstops d rfl
  have htrue : Text.continuesIdentifier d = true := hword.continues d (by simp)
  exact Bool.false_ne_true (hfalse.symm.trans htrue)

/-- What comes behind a word does not continue it. -/
theorem Lexeme.Cuts.stops_behind_word {v w : Text} {xs ys : List Lexeme} {x y : Lexeme}
    (h : Cuts v (xs ++ x :: y :: ys) w) (hx : x.text.IsWord) :
    Stops Text.continuesIdentifier y.text := by
  obtain ⟨u, -, htail⟩ := h.split
  cases htail with
  | @next c cs _ _ more =>
    obtain ⟨c', cs', htext, hopens⟩ := hx.opens
    have happ := next_append c cs
    rw [htext] at happ
    obtain rfl : c' = c := (List.cons.inj happ).1
    rw [next_of_opens hopens] at more
    -- the next lexeme starts with the first character that the word leaves
    generalize hbehind : cs.dropWhile Text.continuesIdentifier = behind at more
    have hstop := List.head?_dropWhile_not Text.continuesIdentifier cs
    rw [hbehind] at hstop
    cases more with
    | @next d ds _ _ _ =>
      intro e he
      have happ := next_append d ds
      obtain ⟨more, hmore⟩ := List.head?_eq_some_iff.mp he
      rw [hmore] at happ
      obtain rfl : e = d := (List.cons.inj happ).1
      simpa using hstop

/-- The tokens of a text are as long as they can be. -/
theorem Token.stops_behind_word {l : Limits} {source : Text} {front rest : List Token}
    {t u : Token} (hany : (scan l source).any isError = false)
    (h : (scan l source).dropLast = front ++ t :: u :: rest) (ht : t.text.IsWord) :
    Lexeme.Stops Text.continuesIdentifier u.text := by
  obtain ⟨xs, hcuts, heq⟩ := scan_eq_placed hany
  rw [heq, List.dropLast_concat] at h
  obtain ⟨ys, zs, rfl, -, hzs⟩ := exists_of_placed_eq_append h
  cases zs with
  | nil => cases hzs
  | cons x zs =>
    obtain ⟨ht', hrest⟩ := List.cons.inj hzs
    cases zs with
    | nil => cases hrest
    | cons y more =>
      obtain ⟨hu', -⟩ := List.cons.inj hrest
      rw [ht'] at ht
      rw [hu']
      exact hcuts.stops_behind_word ht

/-- Tokens that are not empty and as long as they can be. -/
structure Tokens.Whole (ts : List Token) : Prop where
  text_ne_nil : ∀ t ∈ ts, t.text ≠ []
  stops : ∀ front t u rest, ts = front ++ t :: u :: rest → t.text.IsWord →
    Lexeme.Stops Text.continuesIdentifier u.text

/-- The tokens of a text without mistakes, the end left out, are whole. -/
theorem Token.whole_scan {l : Limits} {source : Text}
    (hany : (scan l source).any isError = false) : Tokens.Whole (scan l source).dropLast := by
  refine ⟨fun t ht hnil => ?_, fun front t u rest h => stops_behind_word hany h⟩
  have hpos : t.start.offset < t.stop.offset :=
    (ordered_scan hany).nonempty t.span (List.mem_map_of_mem ht)
  rw [stop_offset, hnil] at hpos
  exact Nat.lt_irrefl _ hpos

namespace Construct.Directive

variable {all ts rest : List Token} {t : Token} {v : Value}

/-- What a value may be so far, and the tokens that are left: nothing; the text of one token,
behind which the others are left unless there is a gap; or something with which no word
starts. -/
inductive Value.FromTokens (all : List Token) (v : Value) (ts : List Token) : Prop
  | none (h : v.text = [])
  | one (x : Token) (hx : x ∈ all) (htext : v.text = x.text)
    (hnext : v.gap = false → x :: ts <:+ all)
  | more (h : ∀ s : Text, ¬Text.IsWord (v.text ++ s))

namespace Value.FromTokens

/-- Neither the brackets that are open nor what is left behind a gap make a difference. -/
theorem gap (h : v.FromTokens all ts) (rest : List Token) : v.space.FromTokens all rest := by
  cases h with
  | none h => exact .none h
  | one x hx htext _ => exact .one x hx htext fun hgap => by cases hgap
  | more h => exact .more h

theorem depth (h : v.FromTokens all ts) (n : Nat) :
    Value.FromTokens all { v with depth := n } ts := by
  cases h with
  | none h => exact .none h
  | one x hx htext hnext => exact .one x hx htext hnext
  | more h => exact .more h

/-- One more token that counts. -/
theorem push (hw : Tokens.Whole all) (h : v.FromTokens all (t :: ts)) (hs : t :: ts <:+ all) :
    (v.push t).FromTokens all ts := by
  have ht : t ∈ all := hs.mem List.mem_cons_self
  cases h with
  | none h =>
    refine .one t ht ?_ fun _ => hs
    simp [Value.push, h]
  | one x hx htext hnext =>
    have hne := hw.text_ne_nil x hx
    cases hgap : v.gap with
    | true =>
      -- no space belongs to a word
      have hpush : (v.push t).text = x.text ++ ([' '] ++ t.text) := by
        simp [Value.push, hgap, htext, hne]
      refine .more fun s hword => ?_
      rw [hpush] at hword
      exact Bool.false_ne_true (hword.continues ' ' (by simp))
    | false =>
      have hpush : (v.push t).text = x.text ++ t.text := by
        simp [Value.push, hgap, htext]
      obtain ⟨front, hfront⟩ := hnext hgap
      refine .more fun s => ?_
      rw [hpush]
      exact Text.not_isWord_of_stops hne (hw.text_ne_nil t ht)
        (hw.stops front x t ts hfront.symm) s
  | more h =>
    refine .more fun s => ?_
    simp only [Value.push]
    split
    · rw [List.append_assoc]
      exact h _
    · rw [List.append_assoc]
      exact h _

theorem add (hw : Tokens.Whole all) (h : v.FromTokens all (t :: ts)) (hs : t :: ts <:+ all) :
    (v.add t).FromTokens all ts := by
  unfold Value.add
  split
  · exact h.gap ts
  · exact h.gap ts
  · exact h.gap ts
  · exact h.gap ts
  · exact h.gap ts
  · exact (h.depth _).push hw hs
  · exact (h.depth _).push hw hs
  · exact (h.depth _).push hw hs
  · exact (h.depth _).push hw hs
  · exact h.push hw hs

end Value.FromTokens

/-- A value is read from tokens. -/
theorem value_fromTokens (hw : Tokens.Whole all) (h : v.FromTokens all ts) (hs : ts <:+ all) :
    (value v ts).1.FromTokens all (value v ts).2 := by
  fun_induction value v ts with
  | case1 => exact h
  | case2 => exact h
  | case3 v t ts _ _ rest hrest ih =>
    exact ih (h.gap rest)
      (((afterContinuation?_suffix hrest).trans (List.suffix_cons t ts)).trans hs)
  | case4 v t ts _ _ _ ih => exact ih (h.push hw hs) ((List.suffix_cons t ts).trans hs)
  | case5 v t ts _ _ ih => exact ih (h.add hw hs) ((List.suffix_cons t ts).trans hs)

/-- **A value that is a word** is the text of a token. -/
theorem exists_of_isWord_value (hw : Tokens.Whole all) (hs : ts <:+ all)
    (h : (value .start ts).1.text.IsWord) : ∃ t ∈ all, (value .start ts).1.text = t.text := by
  cases value_fromTokens hw (.none rfl : Value.start.FromTokens all ts) hs with
  | none hnil => exact absurd hnil h.ne_nil
  | one x hx htext _ => exact ⟨x, hx, htext⟩
  | more hmore => exact absurd ((List.append_nil _).symm ▸ h) (hmore [])

end Construct.Directive

/-- The value of a macro that a construct defines is the text of a token, if it is a word. -/
theorem Construct.exists_of_isWord_definition {all behind rest : List Token} {ds : Definitions}
    {merge : Bool} {t : Token} {m : Definition} {d : Draft} (hw : Tokens.Whole all)
    (hs : t :: behind <:+ all) (h : read ds merge t behind = .read (.definition m d) rest)
    (hm : m.value.IsWord) : ∃ x ∈ all, m.value = x.text := by
  have hbehind : behind <:+ all := (List.suffix_cons t behind).trans hs
  have hdef : (read ds merge t behind).definition? = some m := by
    rw [h]
    rfl
  cases read_source ds merge t behind with
  | plain hplain => cases hplain.1.symm.trans hdef
  | definition hash after hus ho hd =>
    obtain ⟨name, tail, htail, hread⟩ := hd
    obtain ⟨rfl, rfl⟩ := List.cons.inj hus
    obtain ⟨hitem, -⟩ := Outcome.read.inj (h.symm.trans hread)
    obtain ⟨rfl, -⟩ := Item.definition.inj hitem
    have hlist : (Directive.paramList tail).2.2 <:+ all :=
      ((Directive.paramList_suffix tail).trans (List.suffix_cons name tail)).trans
        (htail.trans hbehind)
    exact Directive.exists_of_isWord_value hw hlist hm
  | typedefDecl keyword _ _ ho => cases (ho ▸ Typedef.read_definition? ..).symm.trans hdef
  | usingDecl lead keyword _ _ _ ho => cases (ho ▸ Using.read_definition? ..).symm.trans hdef
  | function lead ts _ ho => cases (ho ▸ Function.read_definition? ..).symm.trans hdef
  | variableDecl lead ts _ ho => cases (ho ▸ Variable.read_definition? ..).symm.trans hdef

end HeaderOutline
