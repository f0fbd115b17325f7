import HeaderOutline.Construct.Namespace
import HeaderOutline.Proofs.Alike.Declaration

/-! # The probe for a function

What the probe says is often shown by the first tokens: it passes over specifiers, and
behind words of type and name it is the next token that decides.  Nothing that starts like
another construct starts like a function.
-/
namespace HeaderOutline.Construct.Declaration

variable {t : Token} {ts rest : List Token}

theorem skipSpecifiers_skipTrivia (afterExtern : Bool) (ts : List Token) :
    skipSpecifiers afterExtern (Tokens.skipTrivia ts) = skipSpecifiers afterExtern ts := by
  rw [skipSpecifiers_eq, Tokens.skipTrivia_skipTrivia, ← skipSpecifiers_eq]

theorem isFunction_skipTrivia (ts : List Token) :
    isFunction (Tokens.skipTrivia ts) = isFunction ts := by
  rw [isFunction, skipSpecifiers_skipTrivia, isFunction]

theorem skipSpecifiers_of_kind {afterExtern : Bool} (ht : t.kind.isTrivia = false)
    (ha : t.kind ≠ .punct .lBracket) (hs : specifiers.contains t.kind = false)
    (ho : typeOpeners.contains t.kind = false) (hstring : t.kind ≠ .string) :
    skipSpecifiers afterExtern (t :: ts) = t :: ts := by
  have hskip : Tokens.skipTrivia (t :: ts) = t :: ts := Tokens.skipTrivia_of_not ht
  unfold skipSpecifiers
  rw [hskip]
  split
  · next rest hr =>
    rw [Tokens.afterAttribute?_of_kind ha] at hr
    cases hr
  · exact if_neg (by rw [hs, ho, beq_false_of_ne hstring]; simp)

theorem skipSpecifiers_of_specifier (h : specifiers.contains t.kind = true) (afterExtern : Bool) :
    skipSpecifiers afterExtern (t :: ts) = skipSpecifiers (t.kind == .keyword .externKw) ts := by
  have hne : ∀ k ∈ specifiers, k.isTrivia = false ∧ k ≠ .punct .lBracket := by decide
  obtain ⟨htrivia, hbracket⟩ := hne _ (List.contains_iff_mem.mp h)
  rw [skipSpecifiers_eq, Tokens.skipTrivia_of_not htrivia,
    Tokens.afterAttribute?_of_kind hbracket]
  simp only [h, Bool.true_or, if_true]

theorem paramsFollow_blank {seen : Bool} {words : Nat} (h : t.kind = .whitespace) :
    paramsFollow seen words (t :: ts) = paramsFollow seen words ts := by
  cases words with
  | zero => rw [paramsFollow, paramsFollow]
  | succ n =>
    rw [paramsFollow, paramsFollow, Tokens.skipTrivia_of_whitespace h]

theorem paramsFollow_word {seen : Bool} {n : Nat}
    (h : t.kind = .ident ∨ t.kind.isBuiltinType = true) :
    paramsFollow seen (n + 1) (t :: ts) = paramsFollow true n ts := by
  have ht : t.kind.isTrivia = false := by
    rcases h with h | h
    · rw [h]; rfl
    · revert h
      cases t.kind <;> first | exact fun _ => rfl | exact nofun
  rw [paramsFollow, Tokens.skipTrivia_of_not ht]
  simp [h]

theorem paramsFollow_lParen {seen : Bool} {n : Nat} (h : t.kind = .punct .lParen) :
    paramsFollow seen (n + 1) (t :: ts) = seen := by
  rw [paramsFollow, Tokens.skipTrivia_of_not (by rw [h]; rfl)]
  simp [h, Kind.isBuiltinType]

theorem paramsFollow_semicolon {seen : Bool} {n : Nat} (h : t.kind = .punct .semicolon) :
    paramsFollow seen (n + 1) (t :: ts) = false := by
  rw [paramsFollow, Tokens.skipTrivia_of_not (by rw [h]; rfl)]
  simp [h, Kind.isBuiltinType]

/-! ## Other constructs -/

/-- What starts like another construct starts like no function. -/
theorem isFunction_of_other (h : t.kind ∈ [.punct .hash, .lineComment, .blockComment, .docComment,
    .keyword .templateKw, .keyword .namespaceKw, .keyword .typedefKw, .keyword .usingKw,
    .keyword .publicKw, .keyword .protectedKw, .keyword .privateKw, .punct .rBrace,
    .punct .semicolon]) : isFunction (t :: ts) = false := by
  simp only [List.mem_cons, List.not_mem_nil, or_false] at h
  rcases h with h | h | h | h | h | h | h | h | h | h | h | h | h <;>
  · rw [isFunction, skipSpecifiers_of_kind (by rw [h]; rfl) (by simp [h]) (by rw [h]; decide)
      (by rw [h]; decide) (by simp [h]), maxWords,
      paramsFollow_succ, Tokens.skipTrivia_of_not (by rw [h]; rfl)]
    simp [h, Kind.isBuiltinType, Keyword.isBuiltinType]

/-- What starts like an inline namespace starts like no function. -/
theorem isFunction_of_inline_namespace (h : t.kind = .keyword .inlineKw)
    (hn : Tokens.nextKind ts = .keyword .namespaceKw) : isFunction (t :: ts) = false := by
  obtain ⟨u, us, hskip, hu⟩ : ∃ u us, Tokens.skipTrivia ts = u :: us ∧
      u.kind = .keyword .namespaceKw := by
    unfold Tokens.nextKind at hn
    cases hs : Tokens.skipTrivia ts with
    | nil =>
      rw [hs] at hn
      cases hn
    | cons u us =>
      rw [hs] at hn
      exact ⟨u, us, rfl, hn⟩
  rw [isFunction, skipSpecifiers_of_specifier (by rw [h]; decide), h,
    ← skipSpecifiers_skipTrivia, hskip]
  exact isFunction_of_other (by simp [hu])

/-- What starts like a linkage block starts like no function. -/
theorem isFunction_of_linkage (h : t.kind = .keyword .externKw)
    (hm : Namespace.afterLinkage? ts = some rest) : isFunction (t :: ts) = false := by
  obtain ⟨behind, hstring, hbrace⟩ := Option.bind_eq_some_iff.mp hm
  obtain ⟨string, hs, hstring⟩ := Tokens.eat?_eq_some_iff.mp hstring
  obtain ⟨brace, hb, hbrace⟩ := Tokens.eat?_eq_some_iff.mp hbrace
  have hpast : skipSpecifiers true (string :: behind) = skipSpecifiers false behind := by
    rw [skipSpecifiers_eq, Tokens.skipTrivia_of_not (by rw [hs]; rfl),
      Tokens.afterAttribute?_of_kind (by rw [hs]; exact nofun)]
    simp only [hs, beq_self_eq_true, Bool.true_and, Bool.or_true, if_true]
    rfl
  rw [isFunction, skipSpecifiers_of_specifier (by rw [h]; decide), h, beq_self_eq_true,
    ← skipSpecifiers_skipTrivia, hstring, hpast, ← skipSpecifiers_skipTrivia, hbrace]
  exact isFunction_brace rest hb

end HeaderOutline.Construct.Declaration
