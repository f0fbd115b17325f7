import HeaderOutline.Construct.Reading

/-! # Which tokens a reading has passed

A reading takes tokens from the front of a list and leaves a suffix of it.  A token is
passed if it stands in front of that suffix (`Passed`).  Whatever a construct knows of a
header it has from tokens that it passed: here is what the parts of constructs pass, each
part put in the place that it has in a longer list.
-/
namespace HeaderOutline

/-- A token stands between the start of a list and a suffix of the list. -/
def Passed (us rest : List Token) (x : Token) : Prop := ∃ taken, us = taken ++ rest ∧ x ∈ taken

namespace Passed

variable {us vs ts rest taken : List Token} {t x : Token}

/-- What is left is a suffix. -/
theorem suffix (h : Passed us rest x) : rest <:+ us := by
  obtain ⟨taken, rfl, _⟩ := h
  exact List.suffix_append taken rest

/-- A token that is passed stays so when less is left. -/
theorem leave (h : Passed us ts x) (hs : rest <:+ ts) : Passed us rest x := by
  obtain ⟨taken, rfl, hx⟩ := h
  obtain ⟨more, rfl⟩ := hs
  exact ⟨taken ++ more, (List.append_assoc ..).symm, List.mem_append_left _ hx⟩

/-- A token that is passed stays so in a longer list. -/
theorem within (h : Passed us rest x) (hs : us <:+ vs) : Passed vs rest x := by
  obtain ⟨taken, rfl, hx⟩ := h
  obtain ⟨front, rfl⟩ := hs
  exact ⟨front ++ taken, (List.append_assoc ..).symm, List.mem_append_right _ hx⟩

/-- The tokens in front of what is left are passed. -/
theorem of_append (h : taken ++ rest <:+ us) (hx : x ∈ taken) : Passed us rest x :=
  within ⟨taken, rfl, hx⟩ h

/-- The first token of a suffix is passed when the others are left. -/
theorem of_cons (h : t :: rest <:+ us) : Passed us rest t :=
  of_append (show [t] ++ rest <:+ us from h) (List.mem_singleton_self t)

/-- A token is passed if its successors are left. -/
theorem next (h : Passed us (t :: rest) x) : Passed us rest t := of_cons h.suffix

/-- The first token of a list is passed by what takes any. -/
theorem head (h : rest <:+ ts) : Passed (t :: ts) rest t := of_cons List.suffix_rfl |>.leave h

/-- The last of some tokens is passed with them. -/
theorem getLastD (h : taken ++ rest <:+ us) (hne : taken ≠ []) (x : Token) :
    Passed us rest (taken.getLastD x) := by
  refine of_append h ?_
  rw [List.getLastD_eq_getLast?, List.getLast?_eq_some_getLast hne]
  exact List.getLast_mem hne

/-- What is passed is passed on the way to a suffix or from there on. -/
theorem split (h : Passed us rest x) (hs : ts <:+ us) (hr : rest <:+ ts) :
    Passed us ts x ∨ Passed ts rest x := by
  obtain ⟨front, rfl⟩ := hs
  obtain ⟨more, rfl⟩ := hr
  obtain ⟨taken, ht, hx⟩ := h
  obtain rfl : taken = front ++ more :=
    List.append_cancel_right (ht.symm.trans (List.append_assoc ..).symm)
  rcases List.mem_append.mp hx with hx | hx
  · exact .inl ⟨front, rfl, hx⟩
  · exact .inr ⟨more, rfl, hx⟩

/-- Where one token is taken, that one is passed. -/
theorem eq_head (h : Passed (t :: rest) rest x) : x = t := by
  obtain ⟨taken, ht, hx⟩ := h
  obtain rfl : [t] = taken := (List.append_left_inj rest).mp ht
  exact List.mem_singleton.mp hx

theorem not_self : ¬Passed us us x := by
  rintro ⟨taken, ht, hx⟩
  rw [List.self_eq_append_left.mp ht] at hx
  cases hx

/-- A token that is passed is one of the list. -/
theorem mem (h : Passed us rest x) : x ∈ us := by
  obtain ⟨taken, rfl, hx⟩ := h
  exact List.mem_append_left _ hx

end Passed

namespace Tokens

/-- Nothing is lost between the two parts of a list. -/
theorem upTo_append (kinds : List Kind) (ts : List Token) :
    (upTo kinds ts).1 ++ (upTo kinds ts).2 = ts :=
  List.takeWhile_append_dropWhile

theorem space_append (ts : List Token) :
    ts.takeWhile (·.kind == .whitespace) ++ skipSpace ts = ts :=
  List.takeWhile_append_dropWhile

theorem trivia_append (ts : List Token) :
    ts.takeWhile (·.kind.isTrivia) ++ skipTrivia ts = ts :=
  List.takeWhile_append_dropWhile

/-- What comes behind the tokens up to some kinds is of one of them. -/
theorem kind_mem_of_upTo {kinds : List Kind} {ts rest : List Token} {t : Token}
    (h : (upTo kinds ts).2 = t :: rest) : t.kind ∈ kinds := by
  have hstop := List.head?_dropWhile_not (fun t : Token => !kinds.contains t.kind) ts
  rw [show ts.dropWhile _ = _ from h] at hstop
  simpa using hstop

/-- Trivia is all that comes before the first token that is none. -/
theorem exists_trivia (ts : List Token) :
    ∃ gap, (∀ t ∈ gap, t.kind.isTrivia = true) ∧ ts = gap ++ skipTrivia ts :=
  ⟨_, fun t ht => List.all_eq_true.mp List.all_takeWhile t ht, (trivia_append ts).symm⟩

theorem exists_space (ts : List Token) :
    ∃ gap, (∀ t ∈ gap, t.kind = .whitespace) ∧ ts = gap ++ skipSpace ts :=
  ⟨_, fun t ht => eq_of_beq (List.all_eq_true.mp List.all_takeWhile t ht), (space_append ts).symm⟩

/-- A block has its brace at least. -/
theorem block?_ne_nil {ts taken rest : List Token} (h : block? ts = some (taken, rest)) :
    taken ≠ [] := by
  rintro rfl
  have hlt := block?_length_lt h
  rw [← block?_append h] at hlt
  exact Nat.lt_irrefl _ hlt

theorem angles?_ne_nil {ts taken rest : List Token} (h : angles? ts = some (taken, rest)) :
    taken ≠ [] := by
  rintro rfl
  have hlt := angles?_length_lt h
  rw [← angles?_append h] at hlt
  exact Nat.lt_irrefl _ hlt

end Tokens

namespace Construct

variable {us : List Token}

/-- The last token of a name is passed with it. -/
theorem qualifiedName_last {name : Text} {last : Token} {ts : List Token}
    (h : Passed us ts last) :
    Passed us (qualifiedName name last ts).rest (qualifiedName name last ts).last := by
  fun_induction qualifiedName name last ts with
  | case1 _ _ c i rest _ ih => exact ih (h.leave (List.suffix_cons c _)).next
  | case2 => exact h
  | case3 => exact h

/-! ## Declarations -/

/-- A type definition loses none of its tokens, and knows the last of them. -/
theorem Typedef.extent_append {done ts taken rest : List Token} {p q : Progress} {last : Token}
    (h : extent done p ts = .closed q taken last rest) :
    taken ++ rest = done.reverse ++ ts ∧ taken.getLast? = some last := by
  fun_induction extent done p ts with
  | case1 => cases h
  | case2 =>
    obtain ⟨rfl, rfl, rfl, rfl⟩ := by simpa using h
    simp
  | case3 => cases h
  | case4 _ _ t ts _ _ ih => simpa using ih h

theorem Using.directive_append {done ts taken rest : List Token} {name full : Text}
    {last : Token} (h : directive done name ts = .closed full taken last rest) :
    taken ++ rest = done.reverse ++ ts ∧ taken.getLast? = some last := by
  fun_induction directive done name ts with
  | case1 => cases h
  | case2 =>
    obtain ⟨rfl, rfl, rfl, rfl⟩ := by simpa using h
    simp
  | case3 => cases h
  | case4 => cases h
  | case5 _ _ t ts _ _ _ ih => simpa using ih h

theorem Using.declaration_append {done ts taken rest : List Token} {p : Progress} {name : Text}
    {last : Token} (h : declaration done p ts = .closed name taken last rest) :
    taken ++ rest = done.reverse ++ ts ∧ taken.getLast? = some last := by
  fun_induction declaration done p ts with
  | case1 => cases h
  | case2 =>
    obtain ⟨rfl, rfl, rfl, rfl⟩ := by simpa using h
    simp
  | case3 => cases h
  | case4 _ _ t ts _ _ ih => simpa using ih h

/-- A using declaration loses none of its tokens, and knows the last of them. -/
theorem Using.extent_append {keyword last : Token} {ts taken rest : List Token} {name : Text}
    (h : extent keyword ts = .closed name taken last rest) :
    taken ++ rest = keyword :: ts ∧ taken.getLast? = some last := by
  have hts := Tokens.trivia_append ts
  unfold extent at h
  split at h
  · next t us ht =>
    rw [ht] at hts
    split at h
    · have h := directive_append h
      simpa [hts] using h
    · have h := declaration_append h
      simpa [hts] using h
  · cases h

/-- A variable loses none of its tokens, of which there is one at least. -/
theorem Variable.extent_append {done ts taken rest : List Token} {p q : Progress}
    (h : extent done p ts = .closed q taken rest) :
    taken ++ rest = done.reverse ++ ts ∧ taken ≠ [] := by
  fun_induction extent done p ts with
  | case1 => cases h
  | case2 => cases h
  | case3 =>
    obtain ⟨rfl, rfl, rfl⟩ := by simpa using h
    simp
  | case4 _ _ t ts _ _ ih => simpa using ih h

/-- The name of an operator loses none of its tokens. -/
theorem Function.operatorTokens_append (op : Token) (rest : List Token) :
    (operatorTokens op rest).1 ++ (operatorTokens op rest).2 = op :: rest := by
  have hs : ∀ ts, (operatorSymbol ts).1 ++ (operatorSymbol ts).2 = ts := by
    intro ts
    unfold operatorSymbol
    split
    · exact List.take_append_drop 2 ts
    · exact Tokens.upTo_append _ ts
  simp only [operatorTokens, List.cons_append, List.append_assoc, hs, Tokens.space_append]

/-- The head of a function loses none of its tokens; one that is declared has its
semicolon. -/
theorem Function.extent_append {done ts taken rest : List Token} {p q : Progress} :
    (extent done p ts = .declared q taken rest →
      taken ++ rest = done.reverse ++ ts ∧ taken ≠ []) ∧
    (extent done p ts = .defined q taken rest → taken ++ rest = done.reverse ++ ts) := by
  fun_induction extent done p ts with
  | case1 => constructor <;> intro h <;> cases h
  | case2 => constructor <;> intro h <;> cases h
  | case3 =>
    constructor
    · intro h
      obtain ⟨rfl, rfl, rfl⟩ := by simpa using h
      simp
    · intro h
      cases h
  | case4 => constructor <;> intro h <;> cases h
  | case5 done _ _ ts _ _ _ _ block rest hb ih =>
    rw [← Tokens.block?_append hb]
    simpa using ih
  | case6 =>
    constructor
    · intro h
      cases h
    · intro h
      obtain ⟨rfl, rfl, rfl⟩ := by simpa using h
      rfl
  | case7 done _ t ts _ _ _ _ ih =>
    rw [← operatorTokens_append t ts]
    simpa using ih
  | case8 _ _ t ts _ _ _ _ ih => simpa using ih

/-! ## Directives -/

/-- The parameters of a macro lose none of their tokens. -/
theorem Directive.params_append (names : List Text) (done ts : List Token) :
    (params names done ts).2.1 ++ (params names done ts).2.2 = done.reverse ++ ts := by
  fun_induction params names done ts <;> simp_all

/-- The last token of a value is passed with it. -/
theorem Directive.value_last {v : Value} {ts : List Token} {x : Token}
    (hs : ts <:+ us) (hv : ∀ y ∈ v.last, Passed us ts y)
    (hx : x ∈ (value v ts).1.last) : Passed us (value v ts).2 x := by
  fun_induction value v ts with
  | case1 => exact hv x hx
  | case2 => exact hv x hx
  | case3 v t ts _ _ rest h ih =>
    have hr := (afterContinuation?_suffix h).trans (List.suffix_cons t ts)
    exact ih (hr.trans hs) (fun y hy => (hv y hy).leave hr) hx
  | case4 v t ts _ _ h ih =>
    refine ih ((List.suffix_cons t ts).trans hs) (fun y hy => ?_) hx
    obtain rfl := Option.some.inj hy
    exact .of_cons hs
  | case5 v t ts _ _ ih =>
    refine ih ((List.suffix_cons t ts).trans hs) (fun y hy => ?_) hx
    -- the last token is the new one, or the one before if the new one is a gap
    have hlast : (v.add t).last = v.last ∨ (v.add t).last = some t := by
      unfold Value.add
      split
      all_goals first
        | exact .inl rfl
        | exact .inr rfl
    rcases hlast with hl | hl
    · exact (hv y (hl ▸ hy)).leave (List.suffix_cons t ts)
    · obtain rfl := Option.some.inj (hl ▸ hy)
      exact .of_cons hs

/-- What a backslash takes away loses none of the tokens. -/
theorem Directive.continuation_append {ts rest : List Token}
    (h : afterContinuation? ts = some rest) : continuation ts ++ rest = ts := by
  obtain ⟨line, _, hs⟩ := Tokens.eat?_eq_some_iff.mp h
  have hts := Tokens.space_append ts
  rw [hs] at hts
  rw [continuation, hs]
  simpa using hts

namespace Directive.Extent

/-- The tokens of a directive so far, in reverse. -/
def tokens (e : Extent) : List Token := e.loose ++ e.kept

@[simp] theorem tokens_pass (e : Extent) (t : Token) : (e.pass t).tokens = t :: e.tokens := rfl

@[simp] theorem tokens_keep (e : Extent) (t : Token) : (e.keep t).tokens = t :: e.tokens := rfl

@[simp] theorem tokens_add (e : Extent) (t : Token) : (e.add t).tokens = t :: e.tokens := by
  unfold add
  split <;> rfl

@[simp] theorem tokens_foldl_pass (e : Extent) (ts : List Token) :
    (ts.foldl pass e).tokens = ts.reverse ++ e.tokens := by
  induction ts generalizing e with
  | nil => rfl
  | cons t ts ih => simp [ih]

end Directive.Extent

/-- A directive loses none of its tokens. -/
theorem Directive.extent_append (e : Extent) (ts : List Token) :
    (extent e ts).1.tokens.reverse ++ (extent e ts).2 = e.tokens.reverse ++ ts := by
  fun_induction extent e ts with
  | case1 => rfl
  | case2 => rfl
  | case3 e t ts _ _ rest h ih =>
    rw [ih, Extent.tokens_foldl_pass]
    simp [continuation_append h]
  | case4 _ t ts _ _ _ ih => simpa using ih
  | case5 _ t ts _ _ ih => simpa using ih

/-- The tokens that a directive keeps are passed with it. -/
theorem Directive.mem_kept {e : Extent} {ts : List Token} {x : Token}
    (hs : e.tokens.reverse ++ ts <:+ us) (hx : x ∈ (extent e ts).1.kept) :
    Passed us (extent e ts).2 x := by
  rw [← extent_append e ts] at hs
  exact .of_append hs (List.mem_reverse.mpr (List.mem_append_right _ hx))

end Construct
end HeaderOutline
