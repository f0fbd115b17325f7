import HeaderOutline.Construct.Reading
import HeaderOutline.Proofs.Ahead

/-! # Names and what follows them

Names, the words around them and what is asked for behind them: nothing of that goes beyond a
semicolon or a hash sign.  While one of them is ahead, what is read is the same whatever tokens
stand behind the list, and it is ahead still.
-/
namespace HeaderOutline.Construct

open Tokens (Ahead lookEnds)

variable {k : Kind} {t : Token} {ts us rest after p r x y : List Token}

/-! ## Qualified names -/

/-- A name that other tokens follow. -/
def NameReading.followed (n : NameReading) (us : List Token) : NameReading :=
  { n with rest := n.rest ++ us }

theorem qualifiedName_append (hk : k ∈ lookEnds) (h : Ahead k ts) (name : Text) (last : Token)
    (us : List Token) :
    qualifiedName name last (ts ++ us) = (qualifiedName name last ts).followed us := by
  fun_induction qualifiedName name last ts with
  | case1 name last c i rest hc ih =>
    simp only [Bool.and_eq_true, beq_iff_eq] at hc
    have hrest := (h.pass_of_kind hk hc.1 (by decide)).pass_of_kind hk hc.2 (by decide)
    rw [List.cons_append, List.cons_append, qualifiedName, if_pos (by simp [hc])]
    exact ih hrest
  | case2 name last c i rest hc =>
    rw [List.cons_append, List.cons_append, qualifiedName, if_neg hc]
    rfl
  | case3 name last ts hts =>
    obtain ⟨c, behind, rfl⟩ := List.exists_cons_of_ne_nil h.ne_nil
    cases behind with
    | cons i rest => exact (hts c i rest rfl).elim
    | nil =>
      have hc : c.kind ≠ .punct .colonColon := by
        intro hc
        exact (h.pass_of_kind hk hc (by decide)).ne_nil rfl
      cases us with
      | nil => rfl
      | cons i rest =>
        show qualifiedName name last (c :: i :: rest) = _
        rw [qualifiedName, if_neg (by simp [hc])]
        rfl

theorem ahead_qualifiedName (hk : k ∈ lookEnds) (h : Ahead k ts) (name : Text) (last : Token) :
    Ahead k (qualifiedName name last ts).rest := by
  fun_induction qualifiedName name last ts with
  | case1 name last c i rest hc ih =>
    simp only [Bool.and_eq_true, beq_iff_eq] at hc
    exact ih ((h.pass_of_kind hk hc.1 (by decide)).pass_of_kind hk hc.2 (by decide))
  | case2 => exact h
  | case3 => exact h

/-! ## Functions and variables -/

theorem Variable.continuesAfterBlock_append (hk : k ∈ lookEnds) (h : Ahead k ts)
    (us : List Token) : continuesAfterBlock (ts ++ us) = continuesAfterBlock ts := by
  simp only [continuesAfterBlock, h.nextKind_append (Ahead.isTrivia_of_lookEnds hk)]

namespace Function.Progress

theorem opensGroup_append (hk : k ∈ lookEnds) (h : Ahead k ts) (us : List Token) :
    opensGroup (ts ++ us) = opensGroup ts := by
  have htrivia := Ahead.isTrivia_of_lookEnds hk
  simp only [opensGroup, h.skipSpace_append htrivia, (h.skipSpace htrivia).headKind_append]

theorem zeroFollows_append (hk : k ∈ lookEnds) (h : Ahead k ts) (us : List Token) :
    zeroFollows (ts ++ us) = zeroFollows ts := by
  have htrivia := Ahead.isTrivia_of_lookEnds hk
  obtain ⟨t, rest, ht⟩ := h.exists_skipTrivia htrivia
  rw [zeroFollows, zeroFollows, h.skipTrivia_append htrivia, ht]
  rfl

/-- Only behind a parenthesis that opens and behind an equals sign the next tokens matter. -/
theorem read_append (hk : k ∈ lookEnds) (p : Progress)
    (h : t.kind = .punct .lParen ∨ t.kind = .punct .eq → Ahead k ts) (us : List Token) :
    p.read t (ts ++ us) = p.read t ts := by
  have hnote : p.note t (ts ++ us) = p.note t ts := by
    unfold note
    split
    · next ht => rw [openParen, opensGroup_append hk (h (.inl ht)), openParen]
    · rfl
    · rfl
    · rfl
    · rfl
    · rfl
    · rfl
    · next ht => rw [zeroFollows_append hk (h (.inr ht))]
    · rfl
    · rfl
  rw [read, hnote, read]

end Function.Progress

/-! ## Elaborated types -/

namespace Declaration

theorem afterQualifiers?_append (hk : k ∈ lookEnds) (h : Ahead k ts) (us : List Token) :
    afterQualifiers? (ts ++ us) = (afterQualifiers? ts).map (· ++ us) := by
  fun_induction afterQualifiers? ts with
  | case1 c i rest hc hi ih =>
    have hbehind := h.pass_of_kind hk (beq_iff_eq.mp hc) (by decide)
    rw [List.cons_append, List.cons_append, afterQualifiers?, if_pos hc, if_pos hi]
    exact ih (hbehind.pass_of_kind hk (beq_iff_eq.mp hi) (by decide))
  | case2 c i rest hc hi =>
    rw [List.cons_append, List.cons_append, afterQualifiers?, if_pos hc, if_neg hi]
    rfl
  | case3 c i rest hc =>
    rw [List.cons_append, List.cons_append, afterQualifiers?, if_neg hc]
    rfl
  | case4 c hc => exact absurd rfl (h.pass_of_kind hk (beq_iff_eq.mp hc) (by decide)).ne_nil
  | case5 c hc =>
    cases us with
    | nil => simp [afterQualifiers?, hc]
    | cons i rest => simp [afterQualifiers?, hc]
  | case6 => exact absurd rfl h.ne_nil

theorem ahead_afterQualifiers? (hk : k ∈ lookEnds) (h : Ahead k ts)
    (ha : afterQualifiers? ts = some after) : Ahead k after := by
  fun_induction afterQualifiers? ts with
  | case1 c i rest hc hi ih =>
    have hbehind := h.pass_of_kind hk (beq_iff_eq.mp hc) (by decide)
    exact ih (hbehind.pass_of_kind hk (beq_iff_eq.mp hi) (by decide)) ha
  | case2 => cases ha
  | case3 c i rest hc =>
    obtain rfl := Option.some.inj ha
    exact h
  | case4 => cases ha
  | case5 c hc =>
    obtain rfl := Option.some.inj ha
    exact h
  | case6 => exact absurd rfl h.ne_nil

theorem isElaborated_append (hk : k ∈ lookEnds) (h : Ahead k ts) (us : List Token) :
    isElaborated (ts ++ us) = isElaborated ts := by
  have htrivia := Ahead.isTrivia_of_lookEnds hk
  have hfront := h.skipTrivia htrivia
  obtain ⟨t, rest, ht⟩ := h.exists_skipTrivia htrivia
  rw [ht] at hfront
  unfold isElaborated
  rw [h.skipTrivia_append htrivia, ht, List.cons_append]
  dsimp only
  split
  · rfl
  · next hi =>
    have hrest := hfront.pass_of_kind hk (by simpa using hi : t.kind = .ident) (by decide)
    rw [afterQualifiers?_append hk hrest]
    cases ha : afterQualifiers? rest with
    | none => rfl
    | some after =>
      have hafter := ahead_afterQualifiers? hk hrest ha
      have hnext := hafter.skipTrivia htrivia
      obtain ⟨u, behind, hu⟩ := hafter.exists_skipTrivia htrivia
      rw [hu] at hnext
      dsimp only [Option.map_some]
      rw [hafter.skipTrivia_append htrivia, hu, List.cons_append]
      dsimp only
      split
      · rfl
      · rfl
      · rfl
      · next hi => rw [(hnext.pass_of_kind hk hi (by decide)).nextKind_append htrivia]
      · rfl

end Declaration

/-! ## Classes and enums -/

/-- A head that other tokens follow. -/
def Head.followed (h : Head) (us : List Token) : Head := { h with rest := h.rest ++ us }

namespace Class

theorem namesClass_append (hk : k ∈ lookEnds) (h : Ahead k ts) (us : List Token) :
    namesClass (ts ++ us) = namesClass ts := by
  simp only [namesClass, h.nextKind_append (Ahead.isTrivia_of_lookEnds hk)]

theorem startsWithMacro_append (hk : k ∈ lookEnds) (h : Ahead k rest) (ds : Definitions)
    (us : List Token) : startsWithMacro ds (rest ++ us) = startsWithMacro ds rest := by
  have htrivia := Ahead.isTrivia_of_lookEnds hk
  obtain ⟨t, behind, ht⟩ := h.exists_skipTrivia htrivia
  unfold startsWithMacro
  rw [h.skipTrivia_append htrivia, ht, List.cons_append]

variable {h : Head} {ds : Definitions} {first second : Token} {behind : List Token}

theorem exported?_append (hk : k ∈ lookEnds) (hs : Ahead k rest) (ds : Definitions)
    (first : Token) (us : List Token) :
    exported? ds first (rest ++ us) = (exported? ds first rest).map (Prod.map id (· ++ us)) := by
  have htrivia := Ahead.isTrivia_of_lookEnds hk
  have hfront := hs.skipTrivia htrivia
  obtain ⟨second, behind, ht⟩ := hs.exists_skipTrivia htrivia
  rw [ht] at hfront
  unfold exported?
  rw [hs.skipTrivia_append htrivia, ht, List.cons_append]
  dsimp only
  by_cases hi : second.kind = .ident
  · rw [namesClass_append hk (hfront.pass_of_kind hk hi (by decide))]
    split <;> rfl
  · simp [hi]

theorem ahead_exported? (hk : k ∈ lookEnds) (hs : Ahead k rest)
    (he : exported? ds first rest = some (second, behind)) : Ahead k behind := by
  have hfront := hs.skipTrivia (Ahead.isTrivia_of_lookEnds hk)
  unfold exported? at he
  split at he
  · next ht =>
    split at he
    · next hi =>
      obtain ⟨rfl, rfl⟩ := Prod.mk.inj (Option.some.inj he)
      rw [ht] at hfront
      exact hfront.pass_of_kind hk (beq_iff_eq.mp (Bool.and_eq_true_iff.mp hi).1) (by decide)
    · cases he
  · cases he

theorem readName_append (hk : k ∈ lookEnds) (hs : Ahead k h.rest) (ds : Definitions)
    (us : List Token) : readName ds (h.followed us) = (readName ds h).followed us := by
  obtain ⟨signature, name, last, ts⟩ := h
  obtain ⟨first, rest, rfl⟩ := List.exists_cons_of_ne_nil hs.ne_nil
  simp only [readName, Head.followed, List.cons_append]
  split
  · next hi =>
    have hrest := hs.pass_of_kind hk (beq_iff_eq.mp hi) (by decide)
    rw [exported?_append hk hrest]
    cases he : exported? ds first rest with
    | none => simp [qualifiedName_append hk hrest, NameReading.followed]
    | some p =>
      obtain ⟨second, behind⟩ := p
      have hbehind := ahead_exported? hk hrest he
      simp [qualifiedName_append hk hbehind, NameReading.followed]
  · rfl

theorem ahead_readName (hk : k ∈ lookEnds) (hs : Ahead k h.rest) (ds : Definitions) :
    Ahead k (readName ds h).rest := by
  unfold readName
  split
  · next first rest ht =>
    rw [ht] at hs
    split
    · next hi =>
      have hrest := hs.pass_of_kind hk (beq_iff_eq.mp hi) (by decide)
      dsimp only
      split
      · next he => exact ahead_qualifiedName hk (ahead_exported? hk hrest he) _ _
      · exact ahead_qualifiedName hk hrest _ _
    · rwa [ht]
  · next ht => exact absurd ht hs.ne_nil

theorem readFinal_append (hk : k ∈ lookEnds) (hs : Ahead k h.rest) (us : List Token) :
    readFinal (h.followed us) = (readFinal h).followed us := by
  have htrivia := Ahead.isTrivia_of_lookEnds hk
  have hfront := hs.skipTrivia htrivia
  obtain ⟨t, rest, ht⟩ := hs.exists_skipTrivia htrivia
  rw [ht] at hfront
  simp only [readFinal, Head.followed, hs.skipTrivia_append htrivia, ht, List.cons_append]
  split
  · next hf =>
    have hrest := hfront.pass_of_kind hk (beq_iff_eq.mp hf) (by decide)
    rw [hrest.skipTrivia_append htrivia]
  · rfl

theorem ahead_readFinal (hk : k ∈ lookEnds) (hs : Ahead k h.rest) : Ahead k (readFinal h).rest := by
  have htrivia := Ahead.isTrivia_of_lookEnds hk
  have hfront := hs.skipTrivia htrivia
  unfold readFinal
  split
  · next t rest ht =>
    rw [ht] at hfront
    split
    · next hf =>
      exact (hfront.pass_of_kind hk (beq_iff_eq.mp hf) (by decide)).skipTrivia htrivia
    · exact hfront
  · next ht => exact absurd ht hfront.ne_nil

end Class

namespace Enum

variable {h : Head}

theorem readScoped_append (hk : k ∈ lookEnds) (hs : Ahead k h.rest) (us : List Token) :
    readScoped (h.followed us) = (readScoped h).followed us := by
  obtain ⟨signature, name, last, ts⟩ := h
  obtain ⟨t, rest, rfl⟩ := List.exists_cons_of_ne_nil hs.ne_nil
  simp only [readScoped, Head.followed, List.cons_append]
  split
  · next ht =>
    have hrest : Ahead k rest := by
      rw [Bool.or_eq_true, beq_iff_eq, beq_iff_eq] at ht
      rcases ht with ht | ht
      · exact hs.pass_of_kind hk ht (by decide)
      · exact hs.pass_of_kind hk ht (by decide)
    rw [hrest.skipTrivia_append (Ahead.isTrivia_of_lookEnds hk)]
  · rfl

theorem ahead_readScoped (hk : k ∈ lookEnds) (hs : Ahead k h.rest) :
    Ahead k (readScoped h).rest := by
  unfold readScoped
  split
  · next t rest ht =>
    rw [ht] at hs
    split
    · next hw =>
      rw [Bool.or_eq_true, beq_iff_eq, beq_iff_eq] at hw
      refine Ahead.skipTrivia (Ahead.isTrivia_of_lookEnds hk) ?_
      rcases hw with hw | hw
      · exact hs.pass_of_kind hk hw (by decide)
      · exact hs.pass_of_kind hk hw (by decide)
    · rwa [ht]
  · next ht => exact absurd ht hs.ne_nil

theorem readName_append (hk : k ∈ lookEnds) (hs : Ahead k h.rest) (us : List Token) :
    readName (h.followed us) = (readName h).followed us := by
  obtain ⟨signature, name, last, ts⟩ := h
  obtain ⟨t, rest, rfl⟩ := List.exists_cons_of_ne_nil hs.ne_nil
  simp only [readName, Head.followed, List.cons_append]
  split
  · next ht =>
    have hrest := hs.pass_of_kind hk (beq_iff_eq.mp ht) (by decide)
    have hname := ahead_qualifiedName hk hrest t.text t
    rw [qualifiedName_append hk hrest]
    simp only [NameReading.followed, hname.skipTrivia_append (Ahead.isTrivia_of_lookEnds hk)]
  · rfl

theorem ahead_readName (hk : k ∈ lookEnds) (hs : Ahead k h.rest) : Ahead k (readName h).rest := by
  unfold readName
  split
  · next t rest ht =>
    rw [ht] at hs
    split
    · next hi =>
      have hrest := hs.pass_of_kind hk (beq_iff_eq.mp hi) (by decide)
      exact (ahead_qualifiedName hk hrest _ _).skipTrivia (Ahead.isTrivia_of_lookEnds hk)
    · rwa [ht]
  · next ht => exact absurd ht hs.ne_nil

end Enum

/-! ## Namespaces -/

namespace Namespace

/-- A head that other tokens follow. -/
def Head.followed (h : Head) (us : List Token) : Head := { h with rest := h.rest ++ us }

theorem afterInline_append (hk : k ∈ lookEnds) (h : Ahead k ts) (us : List Token) :
    afterInline (ts ++ us) = afterInline ts ++ us := by
  unfold afterInline
  rw [h.eat?_append]
  cases he : Tokens.eat? (.keyword .inlineKw) ts with
  | none => rfl
  | some rest =>
    have hrest := h.eat? hk he (by decide)
    exact hrest.skipSpace_append (Ahead.isTrivia_of_lookEnds hk) us

theorem ahead_afterInline (hk : k ∈ lookEnds) (h : Ahead k ts) : Ahead k (afterInline ts) := by
  unfold afterInline
  split
  · next rest he =>
    exact (h.eat? hk he (by decide)).skipSpace (Ahead.isTrivia_of_lookEnds hk)
  · exact h

theorem readName_append (hk : k ∈ lookEnds) (h : Ahead k ts) (name : Text) (last : Token)
    (us : List Token) : readName name last (ts ++ us) = (readName name last ts).followed us := by
  fun_induction readName name last ts with
  | case1 => exact absurd rfl h.ne_nil
  | case2 name last t ts ht rest he ih =>
    have hts := h.pass_of_kind hk (beq_iff_eq.mp ht) (by decide)
    have hrest := hts.eat? hk he (by decide)
    have hsame := (hts.eat?_append (.punct .colonColon) us).trans (congrArg _ he)
    rw [List.cons_append, readName, if_pos ht]
    split
    · next behind hsome =>
      obtain rfl := Option.some.inj (hsame.symm.trans hsome)
      rw [afterInline_append hk hrest]
      exact ih (ahead_afterInline hk hrest)
    · next hnone => cases hsame.symm.trans hnone
  | case3 name last t ts ht he =>
    have hts := h.pass_of_kind hk (beq_iff_eq.mp ht) (by decide)
    have hsame := (hts.eat?_append (.punct .colonColon) us).trans (congrArg _ he)
    rw [List.cons_append, readName, if_pos ht]
    split
    · next hsome => cases hsame.symm.trans hsome
    · rfl
  | case4 name last t ts ht =>
    rw [List.cons_append, readName, if_neg ht]
    rfl

theorem ahead_readName (hk : k ∈ lookEnds) (h : Ahead k ts) (name : Text) (last : Token) :
    Ahead k (readName name last ts).rest := by
  fun_induction readName name last ts with
  | case1 => exact h
  | case2 name last t ts ht rest he ih =>
    have hts := h.pass_of_kind hk (beq_iff_eq.mp ht) (by decide)
    exact ih (ahead_afterInline hk (hts.eat? hk he (by decide)))
  | case3 name last t ts ht => exact h.pass_of_kind hk (beq_iff_eq.mp ht) (by decide)
  | case4 => exact h

theorem afterLinkage?_append (hk : k ∈ lookEnds) (h : Ahead k rest) (us : List Token) :
    afterLinkage? (rest ++ us) = (afterLinkage? rest).map (· ++ us) := by
  have htrivia := Ahead.isTrivia_of_lookEnds hk
  have hfront := h.skipTrivia htrivia
  unfold afterLinkage?
  rw [h.skipTrivia_append htrivia, hfront.eat?_append]
  cases he : Tokens.eat? .string (Tokens.skipTrivia rest) with
  | none => rfl
  | some behind =>
    have hbehind := hfront.eat? hk he (by decide)
    show Tokens.eat? _ (Tokens.skipTrivia (behind ++ us)) = _
    rw [hbehind.skipTrivia_append htrivia, (hbehind.skipTrivia htrivia).eat?_append]
    rfl

end Namespace

/-! ## Comments and words -/

namespace Comment

theorem nextLine?_append (hk : k ∈ lookEnds) (h : Ahead k rest) (mark : Text) (us : List Token) :
    nextLine? mark (rest ++ us) = (nextLine? mark rest).map (Prod.map id (· ++ us)) := by
  have htrivia := Ahead.isTrivia_of_lookEnds hk
  have hspace := h.skipSpace htrivia
  unfold nextLine?
  rw [h.skipSpace_append htrivia, hspace.eat?_append]
  cases he : Tokens.eat? .newline (Tokens.skipSpace rest) with
  | none => rfl
  | some line =>
    have hline := hspace.eat? hk he (by decide)
    obtain ⟨t, after, ht⟩ := hline.exists_skipSpace htrivia
    dsimp only [Option.map_some]
    rw [hline.skipSpace_append htrivia, ht, List.cons_append]
    dsimp only
    split <;> rfl

theorem ahead_nextLine? (hk : k ∈ lookEnds) {mark : Text} (h : Ahead k ts)
    (hl : nextLine? mark ts = some (t, after)) : Ahead k after := by
  have htrivia := Ahead.isTrivia_of_lookEnds hk
  obtain ⟨line, he, hs⟩ := nextLine?_eq_some hl
  have hline := (h.skipSpace htrivia).eat? hk he (by decide)
  have hfront := hline.skipSpace htrivia
  rw [hs] at hfront
  exact hfront.pass_of_kind hk (nextLine?_kind hl) (by decide)

theorem mergeLines_append (hk : k ∈ lookEnds) (h : Ahead k rest) (mark raw : Text) (last : Token)
    (us : List Token) :
    mergeLines mark raw last (rest ++ us) = ((mergeLines mark raw last rest).1,
      (mergeLines mark raw last rest).2.1, (mergeLines mark raw last rest).2.2 ++ us) := by
  fun_induction mergeLines mark raw last rest with
  | case1 raw last rest t after hl ih =>
    have hsame := (nextLine?_append hk h mark us).trans (congrArg _ hl)
    rw [mergeLines]
    split
    · next hsome =>
      obtain ⟨rfl, rfl⟩ := Prod.mk.inj (Option.some.inj (hsame.symm.trans hsome))
      exact ih (ahead_nextLine? hk h hl)
    · next hnone => cases hsame.symm.trans hnone
  | case2 raw last rest hl =>
    have hsame := (nextLine?_append hk h mark us).trans (congrArg _ hl)
    rw [mergeLines]
    split
    · next hsome => cases hsame.symm.trans hsome
    · rfl

theorem read_swap (hk : k ∈ lookEnds) (h : Ahead k p) {merge : Bool} {item : Item}
    (hr : read merge t (p ++ x) = .read item (r ++ x)) :
    read merge t (p ++ y) = .read item (r ++ y) := by
  unfold read at hr ⊢
  split at hr
  · next ht =>
    rw [if_pos ht]
    split at hr
    · rw [mergeLines_append hk h] at hr ⊢
      obtain ⟨rfl, hrest⟩ := Outcome.read.inj hr
      rw [List.append_cancel_right hrest]
    · obtain ⟨rfl, hrest⟩ := Outcome.read.inj hr
      rw [List.append_cancel_right hrest]
  · next ht =>
    rw [if_neg ht]
    obtain ⟨rfl, hrest⟩ := Outcome.read.inj hr
    rw [List.append_cancel_right hrest]

end Comment

theorem exportedHead?_append (hk : k ∈ lookEnds) (h : Ahead k rest) (us : List Token) :
    exportedHead? (rest ++ us) = (exportedHead? rest).map (Prod.map id (· ++ us)) := by
  have htrivia := Ahead.isTrivia_of_lookEnds hk
  obtain ⟨u, behind, hu⟩ := h.exists_skipSpace htrivia
  unfold exportedHead?
  rw [h.skipSpace_append htrivia, hu, List.cons_append]
  dsimp only
  split <;> rfl

theorem ahead_exportedHead? (hk : k ∈ lookEnds) (h : Ahead k rest)
    (he : exportedHead? rest = some (t, after)) : Ahead k after := by
  have hfront := h.skipSpace (Ahead.isTrivia_of_lookEnds hk)
  unfold exportedHead? at he
  split at he
  · next hs =>
    rw [hs] at hfront
    split at he
    · next ht =>
      obtain ⟨rfl, rfl⟩ := Prod.mk.inj (Option.some.inj he)
      refine hfront.pass hk fun hmem => ?_
      simp only [lookEnds, List.mem_cons, List.not_mem_nil, or_false] at hmem
      rcases hmem with hmem | hmem <;> simp [hmem] at ht
    · cases he
  · cases he

theorem readAccess_swap (hk : k ∈ lookEnds) {level : Access} {item : Item} (h : Ahead k p)
    (hr : readAccess t level (p ++ x) = .read item (r ++ x)) :
    readAccess t level (p ++ y) = .read item (r ++ y) := by
  have htrivia := Ahead.isTrivia_of_lookEnds hk
  have hspace := h.skipSpace htrivia
  obtain ⟨u, behind, hu⟩ := h.exists_skipSpace htrivia
  unfold readAccess at hr ⊢
  simp only [h.skipSpace_append htrivia, hspace.eat?_append] at hr ⊢
  cases he : Tokens.eat? (.punct .colon) (Tokens.skipSpace p) with
  | none =>
    rw [he] at hr
    cases hr
  | some members =>
    rw [he, hu] at hr
    rw [hu]
    obtain ⟨rfl, hrest⟩ := Outcome.read.inj hr
    rw [← List.append_cancel_right hrest]
    rfl

theorem readClose_swap {item : Item} (h : Ahead k p)
    (hr : readClose t (p ++ x) = .read item (r ++ x)) :
    readClose t (p ++ y) = .read item (r ++ y) := by
  rw [readClose, h.eat?_append] at hr ⊢
  cases he : Tokens.eat? (.punct .semicolon) p with
  | none =>
    rw [he] at hr
    obtain ⟨rfl, hrest⟩ := Outcome.read.inj hr
    rw [← List.append_cancel_right hrest]
    rfl
  | some behind =>
    rw [he] at hr
    obtain ⟨rfl, hrest⟩ := Outcome.read.inj hr
    rw [← List.append_cancel_right hrest]
    rfl

end HeaderOutline.Construct
