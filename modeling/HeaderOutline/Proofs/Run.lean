import HeaderOutline.Parse
import HeaderOutline.Proofs.Front

/-! # The passes of a reading

`Building.run` goes through a header pass by pass: each pass reads one construct and
either adds what it amounts to (`Building.after`), goes on after a fault, or ends with
it.  A state of the reading is what has been built and the tokens that are left;
`Building.Reaches` leads from a state to those that later passes start from.  What
holds of a whole reading is proved by `Building.run_induction` from what one pass does.
-/
namespace HeaderOutline.Building

variable {policy : Recovery.Policy} {merge : Bool} {size : Nat}

/-- What a construct adds to an outline, or the fault that ends the reading. -/
def after (policy : Recovery.Policy) (size : Nat) (b : Building) : Outcome → Except Fault Building
  | .read item _ => .ok (b.add size item)
  | .failed fault _ _ =>
    match policy with
    | .strict => .error fault
    | .resync => .ok (b.report (fault.diagnostic size))

/-- A pass that does not end the reading adds what is read, or it reports a fault. -/
theorem after_eq_ok {o : Outcome} {b b' : Building} (h : b.after policy size o = .ok b') :
    (∃ item rest, o = .read item rest ∧ b' = b.add size item) ∨
      ∃ fault ended rest, o = .failed fault ended rest ∧ policy = .resync ∧
        b' = b.report (fault.diagnostic size) := by
  cases o with
  | read item rest => exact .inl ⟨item, rest, rfl, (Except.ok.inj h).symm⟩
  | failed fault ended rest =>
    cases policy with
    | strict => cases h
    | resync => exact .inr ⟨fault, ended, rest, rfl, rfl, (Except.ok.inj h).symm⟩

/-- A pass ends the reading with the fault of its construct, and under the strict policy only. -/
theorem after_eq_error {o : Outcome} {b : Building} {fault : Fault}
    (h : b.after policy size o = .error fault) :
    policy = .strict ∧ ∃ ended rest, o = .failed fault ended rest := by
  cases o with
  | read item rest => cases h
  | failed found ended rest =>
    cases policy with
    | strict => exact ⟨rfl, ended, rest, Except.error.inj h ▸ rfl⟩
    | resync => cases h

/-- A reading ends where no token is left but trivia. -/
theorem run_of_nil {b : Building} {ts : List Token} (h : Tokens.skipTrivia ts = []) :
    run policy merge size b ts = .ok b := by
  rw [run]
  split
  · rfl
  · next t behind ht =>
    rw [h] at ht
    cases ht

/-- One pass: the construct that comes first is added, and the reading goes on with what
the construct leaves. -/
theorem run_of_cons {b : Building} {ts behind : List Token} {t : Token}
    (h : Tokens.skipTrivia ts = t :: behind) :
    run policy merge size b ts =
      (b.after policy size (Construct.read b.definitions merge t behind)).bind fun b' =>
        run policy merge size b' (Construct.read b.definitions merge t behind).next := by
  rw [run]
  split
  · next ht =>
    rw [h] at ht
    cases ht
  · next u us ht =>
    obtain ⟨rfl, rfl⟩ : t = u ∧ behind = us := by
      rw [h] at ht
      exact List.cons.inj ht
    dsimp only
    cases Construct.read b.definitions merge t behind with
    | read item rest => rfl
    | failed fault ended rest => cases policy <;> rfl

/-- Trivia in front makes no difference. -/
theorem run_skipTrivia (b : Building) (ts : List Token) :
    run policy merge size b (Tokens.skipTrivia ts) = run policy merge size b ts := by
  cases hts : Tokens.skipTrivia ts with
  | nil => rw [run_of_nil hts, run_of_nil rfl]
  | cons t behind =>
    rw [run_of_cons hts, run_of_cons (by rw [← hts, Tokens.skipTrivia_skipTrivia])]

/-- A reading that goes through makes its first pass, and goes through from there. -/
theorem exists_after_of_run {b done : Building} {ts behind : List Token} {t : Token}
    (h : Tokens.skipTrivia ts = t :: behind) (hr : run policy merge size b ts = .ok done) :
    ∃ b', b.after policy size (Construct.read b.definitions merge t behind) = .ok b' ∧
      run policy merge size b' (Construct.read b.definitions merge t behind).next = .ok done := by
  rw [run_of_cons h] at hr
  cases ha : b.after policy size (Construct.read b.definitions merge t behind) with
  | error fault =>
    rw [ha] at hr
    cases hr
  | ok b' =>
    rw [ha] at hr
    exact ⟨b', rfl, hr⟩

/-- What a pass leaves is a suffix of what is behind its first token. -/
theorem next_suffix (ds : Definitions) (merge : Bool) (t : Token) (behind : List Token) :
    (Construct.read ds merge t behind).next <:+ behind :=
  (Outcome.next_suffix _).trans (Construct.read_rest_suffix ds merge t behind)

/-- What a pass leaves is a suffix of what it starts from. -/
theorem next_suffix_of_front {ts behind : List Token} {t : Token} (ds : Definitions)
    (merge : Bool) (h : Tokens.skipTrivia ts = t :: behind) :
    (Construct.read ds merge t behind).next <:+ ts :=
  (next_suffix ds merge t behind).trans (Tokens.tail_suffix_of_skipTrivia h)

/-- What a pass leaves is shorter than what it starts from. -/
theorem next_length_lt {ds : Definitions} {ts behind : List Token} {t : Token}
    (h : Tokens.skipTrivia ts = t :: behind) :
    (Construct.read ds merge t behind).next.length < ts.length := by
  have hle := Tokens.skipTrivia_length_le ts
  have hs := (next_suffix ds merge t behind).length_le
  rw [h, List.length_cons] at hle
  omega

/-- **Induction along a reading**: what holds at the end of the tokens, and before a pass
if it holds after it, whatever the pass adds, holds throughout. -/
@[elab_as_elim]
theorem run_induction (merge : Bool) {motive : Building → List Token → Prop}
    (nil : ∀ b ts, Tokens.skipTrivia ts = [] → motive b ts)
    (cons : ∀ b ts t behind, Tokens.skipTrivia ts = t :: behind →
      (∀ b', motive b' (Construct.read b.definitions merge t behind).next) → motive b ts)
    (b : Building) (ts : List Token) : motive b ts := by
  induction hn : ts.length using Nat.strongRecOn generalizing b ts with
  | ind n ih =>
    subst hn
    cases h : Tokens.skipTrivia ts with
    | nil => exact nil b ts h
    | cons t behind =>
      exact cons b ts t behind h fun b' => ih _ (next_length_lt h) b' _ rfl

/-- **A relation along a reading**: what holds of a state and the next one, whatever is added or
reported, holds of a state and the one at the end. -/
theorem related_of_run {R : Building → Building → Prop} (refl : ∀ b, R b b)
    (trans : ∀ {b b₁ b₂}, R b b₁ → R b₁ b₂ → R b b₂) (add : ∀ b item, R b (b.add size item))
    (report : ∀ b d, R b (b.report d)) {b done : Building} {ts : List Token}
    (h : run policy merge size b ts = .ok done) : R b done := by
  induction b, ts using run_induction merge with
  | nil b ts hnil =>
    obtain rfl := Except.ok.inj ((run_of_nil hnil).symm.trans h)
    exact refl b
  | cons b ts t behind front ih =>
    obtain ⟨b', ha, hr⟩ := exists_after_of_run front h
    refine trans ?_ (ih b' hr)
    obtain ⟨item, _, -, rfl⟩ | ⟨fault, _, _, -, -, rfl⟩ := after_eq_ok ha
    · exact add b item
    · exact report b _

/-- Documentation that waits has just been read, or it has waited before. -/
theorem mem_pending_add {b : Building} {item : Item} {c : DocComment}
    (h : c ∈ (b.add size item).pending) : item = .documentation (some c) ∨ c ∈ b.pending := by
  cases item with
  | documentation comment => exact .inl (congrArg Item.documentation h)
  | close brace =>
    simp only [add] at h
    split at h <;> exact .inr h
  | linkage | nothing => exact .inr h
  | entity | scope | access | definition | suspect => cases h

/-- **Documentation that waits at the end** has been read on the way, or it has waited before. -/
theorem pending_of_run {P : DocComment → Prop} {b done : Building} {ts : List Token}
    (h : ∀ c ∈ b.pending, P c)
    (hread : ∀ ds t behind c rest, t :: behind <:+ ts →
      Construct.read ds merge t behind = .read (.documentation (some c)) rest → P c)
    (hr : run policy merge size b ts = .ok done) : ∀ c ∈ done.pending, P c := by
  induction b, ts using run_induction merge with
  | nil b ts hnil =>
    obtain rfl := Except.ok.inj ((run_of_nil hnil).symm.trans hr)
    exact h
  | cons b ts t behind front ih =>
    obtain ⟨b', ha, hr⟩ := exists_after_of_run front hr
    have hfront : t :: behind <:+ ts := front ▸ Tokens.skipTrivia_suffix ts
    refine ih b' ?_ (fun ds u us c rest hs => hread ds u us c rest
      (hs.trans (next_suffix_of_front b.definitions merge front))) hr
    obtain ⟨item, rest, ho, rfl⟩ | ⟨_, _, _, -, -, rfl⟩ := after_eq_ok ha
    · intro c hc
      rcases mem_pending_add hc with rfl | hc
      · exact hread b.definitions t behind c rest hfront ho
      · exact h c hc
    · exact h

/-- The states that a reading comes through from a state on. -/
inductive Reaches (policy : Recovery.Policy) (merge : Bool) (size : Nat) :
    Building → List Token → Building → List Token → Prop
  | refl (b : Building) (ts : List Token) : Reaches policy merge size b ts b ts
  | pass {b b₁ b₂ : Building} {ts behind us : List Token} {t : Token}
      (front : Tokens.skipTrivia ts = t :: behind)
      (added : b.after policy size (Construct.read b.definitions merge t behind) = .ok b₁)
      (more : Reaches policy merge size b₁ (Construct.read b.definitions merge t behind).next
        b₂ us) :
      Reaches policy merge size b ts b₂ us

/-- A reading has the outcome that it has from any state that it comes through. -/
theorem Reaches.run_eq {b b' : Building} {ts us : List Token}
    (h : Reaches policy merge size b ts b' us) :
    run policy merge size b ts = run policy merge size b' us := by
  induction h with
  | refl => rfl
  | pass front added _ ih =>
    rw [run_of_cons front, added]
    exact ih

/-- A reading comes through the state in which it ends. -/
theorem reaches_of_run {b done : Building} {ts : List Token}
    (h : run policy merge size b ts = .ok done) :
    ∃ us, Reaches policy merge size b ts done us ∧ Tokens.skipTrivia us = [] := by
  induction b, ts using run_induction merge with
  | nil b ts hnil =>
    obtain rfl := Except.ok.inj ((run_of_nil hnil).symm.trans h)
    exact ⟨ts, .refl b ts, hnil⟩
  | cons b ts t behind front ih =>
    obtain ⟨b', ha, hr⟩ := exists_after_of_run front h
    obtain ⟨us, hus, hend⟩ := ih b' hr
    exact ⟨us, .pass front ha hus, hend⟩

/-- A reading never goes back. -/
theorem Reaches.suffix {b b' : Building} {ts us : List Token}
    (h : Reaches policy merge size b ts b' us) : us <:+ ts := by
  induction h with
  | refl => exact List.suffix_rfl
  | pass front added _ ih => exact ih.trans (next_suffix_of_front _ _ front)

end HeaderOutline.Building

namespace HeaderOutline

/-- A result of which something holds is one. -/
theorem exists_of_toOption_any {ε α : Type} {x : Except ε α} {p : α → Bool}
    (h : x.toOption.any p = true) : ∃ a, x = .ok a ∧ p a = true := by
  cases x with
  | error e => cases h
  | ok a => exact ⟨a, rfl, h⟩

/-- The outline that a reading leads to. -/
theorem outlineOf_of_ok {options : Options} {file : String} {source : Text} {ts : List Token}
    {b : Building}
    (h : (Building.start file source options.definitions).run options.recovery
      options.mergeLineComments source.size ts = .ok b) :
    outlineOf options file source ts = .ok b.finish := by
  rw [outlineOf, h]

/-- The error that a reading leads to. -/
theorem outlineOf_of_error {options : Options} {file : String} {source : Text}
    {ts : List Token} {fault : Fault}
    (h : (Building.start file source options.definitions).run options.recovery
      options.mergeLineComments source.size ts = .error fault) :
    outlineOf options file source ts =
      .error (.construct file (fault.diagnostic source.size)) := by
  rw [outlineOf, h]

/-- There is no lexical error exactly if no token is a mistake. -/
theorem ParseError.ofTokens?_eq_none_iff {ts : List CountedToken} :
    ParseError.ofTokens? ts = none ↔ (ts.map (·.toToken)).any Token.isError = false := by
  rw [← Bool.not_eq_true, List.any_map, List.any_eq_true, ofTokens?]
  split
  · next h => simpa using List.filter_eq_nil_iff.mp h
  · next t others h =>
    have ht : t ∈ ts.filter (·.isError) := by simp [h]
    obtain ⟨hm, he⟩ := List.mem_filter.mp ht
    simp only [reduceCtorEq, false_iff, Classical.not_not]
    exact ⟨t, hm, he⟩

/-- A header is not read if there are mistakes among its tokens. -/
theorem parse_eq [Alphabet] (options : Options) (file : String) (source : Text) :
    parse options file source =
      match ParseError.ofTokens? (Token.tokenize options.limits source) with
      | some e => .error e
      | none => outlineOf options file source (Token.scan options.limits source).dropLast :=
  rfl

/-- There is a lexical error, or the header is read. -/
theorem ParseError.ofTokens?_scan [Alphabet] {l : Limits} {source : Text} :
    ParseError.ofTokens? (Token.tokenize l source) = none ↔
      (Token.scan l source).any Token.isError = false :=
  ParseError.ofTokens?_eq_none_iff

/-- A header has an outline if there are no mistakes among its tokens and the reading of
its constructs comes to an end. -/
theorem parse_eq_ok_iff [Alphabet] {options : Options} {file : String} {source : Text}
    {o : Outline} : parse options file source = .ok o ↔
      (Token.scan options.limits source).any Token.isError = false ∧
      ∃ b, (Building.start file source options.definitions).run options.recovery
        options.mergeLineComments source.size (Token.scan options.limits source).dropLast = .ok b ∧
        o = b.finish := by
  rw [← ParseError.ofTokens?_scan, parse_eq]
  split
  · next e he => simp [he]
  · next hn =>
    simp only [hn, true_and]
    cases hr : (Building.start file source options.definitions).run options.recovery
        options.mergeLineComments source.size (Token.scan options.limits source).dropLast with
    | ok b =>
      rw [outlineOf_of_ok hr]
      simp [eq_comm]
    | error fault =>
      rw [outlineOf_of_error hr]
      simp

end HeaderOutline
