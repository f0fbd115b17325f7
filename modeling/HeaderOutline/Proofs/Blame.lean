import HeaderOutline.Parse
import HeaderOutline.Proofs.Cover
import HeaderOutline.Proofs.Front
import HeaderOutline.Proofs.Lexemes

/-! # The tokens that a construct finds fault with

A fault or a warning names the tokens at which it arose.  Such a token is passed before the
reading goes on, or it is the one before which the reading goes on (`Outcome.Blames`): what
a construct breaks off before is passed over unless it starts another one.  So faults arise
in the order of the tokens, and a block of documentation that is left for later is never
found fault with (`Construct.read_blames`).
-/
namespace HeaderOutline

/-- The tokens that a fault names. -/
def Fault.tokens (f : Fault) : List Token :=
  f.token.toList ++
    match f.cause with
    | .templateWithoutList keyword => [keyword]
    | _ => []

/-- The tokens that a warning names. -/
def Warning.tokens : Warning → List Token
  | .strayBrace brace => [brace]
  | .namelessMacro found => found.toList

/-- The tokens that an item finds fault with, or may find fault with once it is added. -/
def Item.blamed : Item → List Token
  | .close brace => [brace]
  | .suspect warning _ => warning.tokens
  | _ => []

/-- The tokens that a construct finds fault with. -/
def Outcome.blamed : Outcome → List Token
  | .read item _ => item.blamed
  | .failed fault _ _ => fault.tokens

/-- A block of documentation. -/
def Token.IsBlockDoc (t : Token) : Prop := t.kind = .docComment ∧ Lexeme.OpensBlock t.text

/-- Whether a construct finds fault with the end of the input. -/
def Outcome.blamesEnd : Outcome → Bool
  | .read (.suspect (.namelessMacro found) _) _ => found.isNone
  | .read _ _ => false
  | .failed fault _ _ => fault.token.isNone

/-- A construct finds fault with tokens that are passed before the reading goes on, or with
the one before which it goes on, which is no block of documentation.  It finds fault with
the end of the input only if nothing is left. -/
structure Outcome.Blames (us : List Token) (o : Outcome) : Prop where
  tokens : ∀ x ∈ o.blamed, Passed us o.next x ∨ x ∈ o.next.head? ∧ ¬ x.IsBlockDoc
  atEnd : o.blamesEnd = true → o.next = []

namespace Recovery

/-- The reading goes on before the first token if that starts another construct, and
otherwise it passes that one. -/
theorem resume_cons (t : Token) (ts : List Token) :
    resume 0 (t :: ts) = t :: ts ∧ t.kind ∈ Context.topLevel.stops ∨
      resume 0 (t :: ts) <:+ ts := by
  rw [resume]
  split
  · exact .inr (resume_suffix 1 ts)
  · rw [if_neg (by simp)]
    split
    · exact .inr List.suffix_rfl
    · split
      · next hstop => exact .inl ⟨rfl, List.contains_iff_mem.mp hstop⟩
      · exact .inr (resume_suffix 0 ts)

/-- No construct starts with trivia. -/
theorem resume_skipTrivia (depth : Nat) (ts : List Token) :
    resume depth (Tokens.skipTrivia ts) = resume depth ts := by
  induction ts with
  | nil => rfl
  | cons t ts ih =>
    by_cases ht : t.kind.isTrivia = true
    · have hk : t.kind = .whitespace ∨ t.kind = .newline := by
        revert ht
        cases t.kind <;> simp [Kind.isTrivia]
      have hpass : resume depth (t :: ts) = resume depth ts := by
        rcases hk with hk | hk <;> cases depth <;>
          simp [resume, hk, Context.stops, Context.constructStarts]
      rw [Tokens.skipTrivia_of_trivia ht, hpass, ih]
    · rw [Tokens.skipTrivia_of_not (Bool.not_eq_true _ ▸ ht)]

end Recovery

namespace Outcome

variable {us vs taken rest : List Token} {o : Outcome} {cause : Cause}

theorem Blames.within (h : o.Blames us) (hs : us <:+ vs) : o.Blames vs :=
  ⟨fun x hx => (h.tokens x hx).imp_left (·.within hs), h.atEnd⟩

/-- What a construct finds fault with is one of its tokens. -/
theorem Blames.mem (h : o.Blames us) (hs : o.next <:+ us) {x : Token} (hx : x ∈ o.blamed) :
    x ∈ us := by
  rcases h.tokens x hx with hp | ⟨hm, _⟩
  · exact hp.mem
  · exact hs.subset (List.mem_of_mem_head? hm)

/-- Most constructs find no fault. -/
theorem blames_of_nil (h : o.blamed = []) (he : o.blamesEnd = false) : o.Blames us :=
  ⟨by simp [h], by simp [he]⟩

/-- What a construct has taken may be found fault with. -/
theorem blames_of_passed (h : ∀ x ∈ o.blamed, Passed us o.rest x) (he : o.blamesEnd = false) :
    o.Blames us :=
  ⟨fun x hx => .inl ((h x hx).leave o.next_suffix), by simp [he]⟩

/-- What takes all tokens may find fault with any. -/
theorem blames_of_next (h : ∀ x ∈ o.blamed, x ∈ us) (hn : o.next = []) : o.Blames us :=
  ⟨fun x hx => .inl ⟨us, by simp [hn], h x hx⟩, fun _ => hn⟩

/-- What breaks off before a token passes that one unless it starts a construct. -/
theorem blames_head (hs : rest <:+ us) (hc : ∀ x ∈ (Fault.mk cause none).tokens, Passed us rest x) :
    (Outcome.failed ⟨cause, rest.head?⟩ false rest).Blames us := by
  constructor
  · intro x hx
    rcases List.mem_append.mp hx with hx | hx
    · cases rest with
      | nil => cases hx
      | cons t ts =>
        obtain rfl : x = t := by simpa using hx
        rcases Recovery.resume_cons x ts with ⟨hstay, hk⟩ | hleft
        · refine .inr ⟨by simp [next, hstay], fun hd => ?_⟩
          simp [hd.1, Context.stops, Context.constructStarts] at hk
        · exact .inl ((Passed.of_cons hs).leave hleft)
    · exact .inl ((hc x hx).leave (Recovery.resume_suffix 0 rest))
  · intro he
    obtain rfl : rest = [] := by simpa [blamesEnd] using he
    rfl

theorem blames_unexpected {context : Context} {code : Code} (hs : rest <:+ us) :
    (Outcome.unexpected context code rest).Blames us :=
  blames_head hs (by simp [Fault.tokens])

/-- What has taken a token may find fault with the first one. -/
theorem blames_first {ended : Bool} (h : taken ++ rest = us) (hne : taken ≠ [])
    (hc : (Fault.mk cause none).tokens = []) :
    (Outcome.failed ⟨cause, us.head?⟩ ended rest).Blames us := by
  obtain ⟨t, more, rfl⟩ := List.exists_cons_of_ne_nil hne
  subst h
  refine blames_of_passed (fun x hx => ?_) rfl
  rcases List.mem_append.mp hx with hx | hx
  · obtain rfl : x = t := by simpa using hx
    exact .of_append List.suffix_rfl List.mem_cons_self
  · have hx : x ∈ (Fault.mk cause none).tokens := hx
    rw [hc] at hx
    cases hx

end Outcome

namespace Construct

open Outcome

variable {us : List Token}

/-! ## Declarations -/

theorem Typedef.read_blames (keyword : Token) (rest : List Token) :
    (read keyword rest).Blames (keyword :: rest) := by
  have hs := extent_rest_suffix [keyword] .start rest
  unfold read
  split
  · next after he =>
    rw [he] at hs
    exact blames_unexpected (hs.trans (List.suffix_cons keyword rest))
  · next p taken last after he =>
    rw [he] at hs
    split
    · refine blames_of_passed (fun x hx => ?_) rfl
      obtain rfl : x = keyword := by simpa [blamed, Fault.tokens] using hx
      exact .head hs
    · exact blames_of_nil rfl rfl

theorem Using.read_blames (lead : Lead) (keyword : Token) (rest : List Token) :
    (read lead keyword rest).Blames (keyword :: rest) := by
  have hs := extent_rest_suffix keyword rest
  unfold read
  split
  · next after he =>
    rw [he] at hs
    exact blames_unexpected (hs.trans (List.suffix_cons keyword rest))
  · next name taken last after he =>
    rw [he] at hs
    split
    · refine blames_of_passed (fun x hx => ?_) rfl
      obtain rfl : x = keyword := by simpa [blamed, Fault.tokens] using hx
      exact .head hs
    · exact blames_of_nil rfl rfl

theorem Variable.read_blames (ds : Definitions) (lead : Lead) (ts : List Token) :
    (read ds lead ts).Blames ts := by
  have hs := extent_rest_suffix [] .start ts
  unfold read
  split
  · next rest he =>
    rw [he] at hs
    exact blames_unexpected hs
  · next p taken rest he =>
    obtain ⟨happ, hne⟩ := extent_append he
    dsimp only
    split
    · exact blames_first happ hne rfl
    · exact blames_of_nil rfl rfl

/-- A brace that is not closed is one of the tokens. -/
theorem Function.brace_of_extent_unclosed {done ts : List Token} {p : Progress} {brace : Token}
    (h : extent done p ts = .unclosed brace) : brace ∈ ts := by
  fun_induction extent done p ts with
  | case1 => cases h
  | case2 => cases h
  | case3 => cases h
  | case4 _ _ t ts =>
    obtain rfl : t = brace := by simpa using h
    exact List.mem_cons_self
  | case5 _ _ _ _ _ _ _ _ _ _ hblock ih => exact (Tokens.block?_suffix hblock).subset (ih h)
  | case6 => cases h
  | case7 _ _ t ts _ _ _ _ ih =>
    exact List.mem_cons_of_mem t ((operatorTokens_suffix t ts).subset (ih h))
  | case8 _ _ t ts _ _ _ _ ih => exact List.mem_cons_of_mem t (ih h)

theorem Function.read_blames (ds : Definitions) (lead : Lead) (ts : List Token) :
    (read ds lead ts).Blames ts := by
  have hs := extent_rest_suffix [] .start ts
  unfold read
  split
  · next rest he =>
    rw [he] at hs
    exact blames_unexpected hs
  · next brace he =>
    exact blames_of_next (by simpa [blamed, Fault.tokens] using brace_of_extent_unclosed he) rfl
  · next p taken rest he =>
    obtain ⟨happ, hne⟩ := extent_append.1 he
    split
    · exact blames_first happ hne rfl
    · exact blames_of_nil rfl rfl
  · next p taken rest he =>
    have happ : taken ++ rest = ts := extent_append.2 he
    split
    · -- the head is empty if the function starts with its body
      cases taken with
      | nil =>
        obtain rfl : rest = ts := happ
        exact blames_head List.suffix_rfl (by simp [Fault.tokens])
      | cons t taken =>
        exact blames_first happ (List.cons_ne_nil t taken) rfl
    · split
      · refine blames_of_next (fun x hx => ?_) rfl
        have hx : x ∈ rest.head? := by simpa [blamed, Fault.tokens] using hx
        rw [← happ]
        exact List.mem_append_right taken (List.mem_of_mem_head? hx)
      · exact blames_of_nil rfl rfl

theorem Declaration.read_blames (ds : Definitions) (lead : Lead) (ts : List Token) :
    (read ds lead ts).Blames ts := by
  unfold read
  split
  · exact Function.read_blames ds lead ts
  · exact Variable.read_blames ds lead ts

/-! ## Classes, enums and namespaces -/

theorem Head.readClause_blames {context : Context} {h : Head} {o : Outcome} (hs : h.rest <:+ us)
    (hr : h.readClause context = .error o) : o.Blames us := by
  obtain ⟨t, rest, after, ht, hc, rfl⟩ := readClause_eq_error hr
  rw [ht] at hs
  exact blames_unexpected ((Tokens.clause_error_suffix hc).trans
    ((List.suffix_cons t rest).trans hs))

namespace Class

theorem readArguments_blames {h : Head} {o : Outcome} (hs : h.rest <:+ us)
    (hr : readArguments h = .error o) : o.Blames us := by
  obtain ⟨t, rest, ht, hk, rfl⟩ := readArguments_eq_error hr
  have hm : t :: rest <:+ us := (ht ▸ Tokens.skipTrivia_suffix h.rest).trans hs
  -- the bracket starts no construct
  have hleft : Recovery.resume 0 h.rest <:+ rest := by
    rw [← Recovery.resume_skipTrivia, ht]
    rcases Recovery.resume_cons t rest with ⟨_, hstop⟩ | hleft
    · simp [hk, Context.stops, Context.constructStarts] at hstop
    · exact hleft
  refine ⟨fun x hx => ?_, fun hend => by simp [blamesEnd] at hend⟩
  obtain rfl : x = t := by simpa [blamed, Fault.tokens] using hx
  exact .inl ((Passed.of_cons hm).leave hleft)

theorem head_blames {ds : Definitions} {keyword : Token} {rest : List Token} {o : Outcome}
    (hh : head ds keyword rest = .error o) : o.Blames (keyword :: rest) := by
  unfold head at hh
  dsimp only at hh
  generalize hn : readName ds _ = named at hh
  have hs : named.rest <:+ keyword :: rest := by
    rw [← hn]
    exact (readName_rest_suffix ds _).trans ((Tokens.skipAttributes_suffix _).trans
      ((Tokens.skipTrivia_suffix rest).trans (List.suffix_cons keyword rest)))
  have ha := readArguments_suffix named
  cases he : readArguments named with
  | error outcome =>
    rw [he] at hh
    exact Except.error.inj hh ▸ readArguments_blames hs he
  | ok h =>
    rw [he] at hh ha
    exact Head.readClause_blames ((readFinal_rest_suffix h).trans (ha.trans hs)) hh

theorem readEnd_blames {lead : Lead} {kind : EntityKind} {access : Access} {h : Head}
    (hs : h.rest <:+ us) : (readEnd lead kind access h).Blames us := by
  unfold readEnd
  split
  · split
    · exact blames_unexpected List.nil_suffix
    · exact blames_of_nil rfl rfl
  · next t rest ht =>
    split
    · exact blames_of_nil rfl rfl
    · split
      · exact blames_of_nil rfl rfl
      · split
        · exact blames_unexpected (ht ▸ hs)
        · exact blames_of_nil rfl rfl

theorem read_blames (ds : Definitions) (lead : Lead) (keyword : Token) (rest : List Token) :
    (read ds lead keyword rest).Blames (keyword :: rest) := by
  unfold read
  split
  · exact Declaration.read_blames ds lead _
  · have hs := head_suffix ds keyword rest
    split
    · next outcome he => exact head_blames he
    · next h he =>
      rw [he] at hs
      have hs := hs.trans (List.suffix_cons keyword rest)
      split <;> exact readEnd_blames hs

end Class

namespace Enum

theorem readEnd_blames {lead : Lead} {h : Head} (hs : h.rest <:+ us) :
    (readEnd lead h).Blames us := by
  unfold readEnd
  split
  · split
    · exact blames_unexpected List.nil_suffix
    · exact blames_of_nil rfl rfl
  · next t rest ht =>
    have hm : t ∈ us := hs.subset (ht ▸ List.mem_cons_self)
    split
    · split
      · exact blames_of_next (by simp [blamed, Fault.tokens, hm]) rfl
      · dsimp only
        split
        · split <;> exact blames_of_nil rfl rfl
        · exact blames_of_nil rfl rfl
    · split
      · exact blames_of_nil rfl rfl
      · split
        · exact blames_unexpected (ht ▸ hs)
        · exact blames_of_nil rfl rfl

theorem read_blames (ds : Definitions) (lead : Lead) (keyword : Token) (rest : List Token) :
    (read ds lead keyword rest).Blames (keyword :: rest) := by
  unfold read
  split
  · exact Declaration.read_blames ds lead _
  · have hhead := (head_rest_suffix keyword rest).trans (List.suffix_cons keyword rest)
    have hs := (head keyword rest).readClause_suffix .enumHead
    split
    · next outcome he => exact Head.readClause_blames hhead he
    · next h he =>
      rw [he] at hs
      exact readEnd_blames (hs.trans hhead)

end Enum

namespace Namespace

theorem readAlias_blames (name : Text) (first : Token) (rest : List Token) :
    (readAlias name first rest).Blames (first :: rest) := by
  have hs := Tokens.upTo_suffix aliasStops (first :: rest)
  unfold readAlias
  dsimp only
  split
  · next t behind ht =>
    split
    · exact blames_of_nil rfl rfl
    · exact blames_unexpected (ht ▸ hs)
  · exact blames_unexpected List.nil_suffix

theorem readEnd_blames {isInline : Bool} {first : Token} {rest : List Token} {h : Head}
    (hs : h.rest <:+ first :: rest) :
    (readEnd isInline first rest h).Blames (first :: rest) := by
  unfold readEnd
  dsimp only
  split
  · exact readAlias_blames _ first rest
  · split
    · exact blames_of_nil rfl rfl
    · split
      · exact blames_unexpected hs
      · exact blames_of_nil rfl rfl

theorem read_blames (first : Token) (rest : List Token) :
    (read first rest).Blames (first :: rest) := by
  unfold read
  split
  · split
    · next keyword behind hk =>
      exact readEnd_blames ((readName_rest_suffix ..).trans ((Tokens.skipTrivia_suffix _).trans
        ((Tokens.tail_suffix_of_skipTrivia hk).trans (List.suffix_cons first rest))))
    · exact blames_unexpected List.nil_suffix
  · exact readEnd_blames ((readName_rest_suffix ..).trans
      ((Tokens.skipTrivia_suffix _).trans (List.suffix_cons first rest)))

end Namespace

/-! ## Comments and directives -/

theorem Comment.read_blames (merge : Bool) (t : Token) (rest : List Token) :
    (read merge t rest).Blames us := by
  unfold read
  split
  · split <;> exact blames_of_nil rfl rfl
  · exact blames_of_nil rfl rfl

namespace Directive

theorem extent_of_endsBefore {e : Extent} {t : Token} {ts : List Token}
    (h : endsBefore t = true) : (extent e (t :: ts)).2 = t :: ts := by
  rw [extent, if_pos h]

/-- A directive passes a token before which it does not end. -/
theorem passed_extent {e : Extent} {t : Token} {ts : List Token} (hs : t :: ts <:+ us)
    (h : endsBefore t = false) : Passed us (extent e (t :: ts)).2 t := by
  rw [extent, if_neg (by simp [h])]
  refine (Passed.of_cons hs).leave ?_
  split
  · split
    · next ha => exact (extent_suffix _ _).trans (afterContinuation?_suffix ha)
    · exact extent_suffix _ ts
  · exact extent_suffix _ ts

/-- A block of documentation belongs to the directive on its line. -/
theorem endsBefore_of_isBlockDoc {t : Token} (hd : t.IsBlockDoc) : endsBefore t = false := by
  obtain ⟨hk, ho⟩ := hd
  obtain ⟨cs, hcs⟩ := ho.exists_eq
  simp [endsBefore, hk, hcs, List.isPrefixOf]

theorem read_blames (hash : Token) (rest : List Token) :
    (read hash rest).Blames (hash :: rest) := by
  unfold read
  dsimp only
  split
  · exact blames_of_nil rfl rfl
  · next t ts ht =>
    have hts := (Tokens.tail_suffix_of_skipSpace ht).trans (List.suffix_cons hash rest)
    split
    · split
      · next name behind hn =>
        have hname := (hn ▸ Tokens.skipSpace_suffix ts).trans hts
        split
        · exact blames_of_nil rfl rfl
        · refine ⟨fun x hx => ?_, fun hend => by simp [blamesEnd] at hend⟩
          obtain rfl : x = name := by simpa [blamed, Item.blamed, Warning.tokens] using hx
          cases hends : endsBefore x with
          | false => exact .inl (passed_extent hname hends)
          | true =>
            refine .inr ⟨?_, fun hd => by simp [endsBefore_of_isBlockDoc hd] at hends⟩
            simp [next, extent_of_endsBefore hends]
      · exact ⟨by simp [blamed, Item.blamed, Warning.tokens], fun _ => rfl⟩
    · exact blames_of_nil rfl rfl

end Directive

/-! ## Templates -/

namespace Template

theorem clauses_blames {texts parameters : List Text} {ts : List Token} {o : Outcome}
    (hs : ts <:+ us) (h : clauses texts parameters ts = .error o) : o.Blames us := by
  fun_induction clauses texts parameters ts with
  | case1 => cases h
  | case2 _ _ t ts _ list =>
    obtain rfl := Except.error.inj h
    have hlist := (Tokens.skipTrivia_suffix ts).trans ((List.suffix_cons t ts).trans hs)
    refine blames_head hlist fun x hx => ?_
    obtain rfl : x = t := by simpa [Fault.tokens] using hx
    exact (Passed.of_cons hs).leave (Tokens.skipTrivia_suffix ts)
  | case3 _ _ t ts _ list =>
    obtain rfl := Except.error.inj h
    have hlist := (Tokens.skipTrivia_suffix ts).trans ((List.suffix_cons t ts).trans hs)
    exact blames_head hlist (by simp [Fault.tokens])
  | case4 _ _ t ts _ _ _ _ after ha _ ih =>
    refine ih ?_ h
    exact ((Tokens.skipGap_suffix after).trans (Tokens.angles?_suffix ha)).trans
      ((Tokens.skipTrivia_suffix ts).trans ((List.suffix_cons t ts).trans hs))
  | case5 => cases h

theorem readDeclaration_blames (ds : Definitions) (lead : Lead) (ts : List Token) :
    (readDeclaration ds lead ts).Blames ts := by
  unfold readDeclaration
  split
  · exact blames_unexpected List.suffix_rfl
  · next t rest =>
    split
    · exact Class.read_blames ds lead t rest
    · split
      · exact Using.read_blames lead t rest
      · split
        · exact Function.read_blames ds lead _
        · split
          · exact Variable.read_blames ds lead _
          · exact blames_unexpected List.suffix_rfl

theorem read_blames (ds : Definitions) (keyword : Token) (rest : List Token) :
    (read ds keyword rest).Blames (keyword :: rest) := by
  have hs := clauses_suffix [] [] (keyword :: rest)
  unfold read
  split
  · next outcome he => exact clauses_blames List.suffix_rfl he
  · next c he =>
    rw [he] at hs
    exact (readDeclaration_blames ds _ c.rest).within hs

end Template

/-! ## All constructs -/

theorem readAccess_blames (keyword : Token) (level : Access) (rest : List Token) :
    (readAccess keyword level rest).Blames (keyword :: rest) := by
  unfold readAccess
  dsimp only
  split
  · exact blames_of_nil rfl rfl
  · exact blames_unexpected ((Tokens.skipSpace_suffix rest).trans (List.suffix_cons keyword rest))

theorem readClose_blames (brace : Token) (rest : List Token) :
    (readClose brace rest).Blames (brace :: rest) := by
  refine blames_of_passed (fun x hx => ?_) rfl
  obtain rfl : x = brace := by simpa [readClose, blamed, Item.blamed] using hx
  exact .head (readClose_rest_suffix x rest)

theorem readWord_blames (ds : Definitions) (word : Token) (rest : List Token) :
    (readWord ds word rest).Blames (word :: rest) := by
  unfold readWord
  split
  · next t behind he =>
    have hs : t :: behind <:+ word :: rest := by
      split at he
      · exact (cons_suffix_of_exportedHead? he).trans (List.suffix_cons word rest)
      · cases he
    dsimp only
    split
    · exact (Enum.read_blames ds _ t behind).within hs
    · exact (Class.read_blames ds _ t behind).within hs
  · exact Declaration.read_blames ds _ _

/-- **What a construct finds fault with** is passed before the reading goes on, or comes
next; a block of documentation is passed. -/
theorem read_blames (ds : Definitions) (merge : Bool) (t : Token) (rest : List Token) :
    (read ds merge t rest).Blames (t :: rest) := by
  unfold read
  split
  · exact Directive.read_blames t rest
  · exact Comment.read_blames merge t rest
  · exact Comment.read_blames merge t rest
  · exact Comment.read_blames merge t rest
  · exact Template.read_blames ds t rest
  · exact Namespace.read_blames t rest
  · split
    · exact Namespace.read_blames t rest
    · exact Declaration.read_blames ds _ _
  · exact Class.read_blames ds _ t rest
  · exact Class.read_blames ds _ t rest
  · exact Class.read_blames ds _ t rest
  · exact Enum.read_blames ds _ t rest
  · exact Typedef.read_blames t rest
  · exact Using.read_blames _ t rest
  · exact readAccess_blames t _ rest
  · exact readAccess_blames t _ rest
  · exact readAccess_blames t _ rest
  · exact readClose_blames t rest
  · exact blames_of_nil rfl rfl
  · split
    · exact blames_of_nil rfl rfl
    · exact Declaration.read_blames ds _ _
  · exact readWord_blames ds t rest
  · exact Declaration.read_blames ds _ _

end Construct
end HeaderOutline
