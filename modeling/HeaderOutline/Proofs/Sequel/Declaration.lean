import HeaderOutline.Proofs.Attribute.Head
import HeaderOutline.Proofs.Sequel.Front
import HeaderOutline.Proofs.Swap.Probe

/-! # The probe in sealed tokens

Only the brackets of an attribute can run on to the end of tokens that are sealed.  The probe for a
function then finds none, and no variable is read there either; so the probe says the same whatever
follows the tokens, wherever a declaration is read of them (`Construct.Declaration.probedAlike`).
-/
namespace HeaderOutline.Construct

open Tokens (Ahead Stopped Sealed)

variable {t : Token} {ts rest p r taken done : List Token} {ds : Definitions} {lead : Lead}

namespace Declaration

/-- There is no function where an attribute runs to the end. -/
theorem isFunction_of_skipSpecifiers_nil (h : skipSpecifiers false ts = []) :
    isFunction ts = false := by
  rw [isFunction, h, maxWords, paramsFollow_succ]
  rfl

end Declaration

namespace Variable

/-- While there is no name, only a few tokens end a declaration. -/
theorem extent_cons {p : Progress} (hn : p.name = none)
    (hk : t.kind ∉ [.punct .hash, .punct .rBrace, .punct .semicolon]) :
    extent done p (t :: ts) = extent (t :: done) (p.read t) ts := by
  simp only [List.mem_cons, List.not_mem_nil, or_false, not_or] at hk
  obtain ⟨hhash, hbrace, hsemicolon⟩ := hk
  rw [extent, if_neg (by simp [Progress.refuses, hn, hhash, hbrace]),
    if_neg (by simp [Progress.endsWith, hbrace, hsemicolon])]

theorem exists_extent_skipTrivia {p : Progress} (hn : p.name = none) (done ts : List Token) :
    ∃ done', extent done p ts = extent done' p (Tokens.skipTrivia ts) := by
  induction ts generalizing done with
  | nil => exact ⟨done, rfl⟩
  | cons t ts ih =>
    cases ht : t.kind.isTrivia with
    | false => exact ⟨done, by rw [Tokens.skipTrivia_of_not ht]⟩
    | true =>
      have hk : t.kind = .whitespace ∨ t.kind = .newline := by
        revert ht
        cases t.kind <;> simp [Kind.isTrivia]
      have hread : p.read t = p := by
        rcases hk with hk | hk <;> simp [Progress.read, hk]
      obtain ⟨done', hdone⟩ := ih (t :: done)
      refine ⟨done', ?_⟩
      rw [extent_cons hn (by rcases hk with hk | hk <;> simp [hk]), hread, hdone,
        Tokens.skipTrivia_of_trivia ht]

/-- Specifiers name nothing. -/
theorem Progress.read_specifier {afterExtern : Bool} {p : Progress} (hn : p.name = none)
    (hd : p.depth = 0)
    (hk : (specifiers.contains t.kind || Declaration.typeOpeners.contains t.kind
      || afterExtern && t.kind == .string) = true) :
    (p.read t).name = none ∧ (p.read t).depth = 0 := by
  have hplain : t.kind ∉ [.punct .lBrace, .punct .rBrace, .punct .lBracket, .punct .rBracket,
      .punct .lParen, .punct .rParen, .ident] := by
    intro hmem
    simp only [List.mem_cons, List.not_mem_nil, or_false] at hmem
    rcases hmem with h | h | h | h | h | h | h <;>
      simp [h, specifiers, Declaration.typeOpeners] at hk
  simp only [List.mem_cons, List.not_mem_nil, or_false, not_or] at hplain
  unfold read
  split <;> first | (split <;> exact ⟨hn, hd⟩) | exact ⟨hn, hd⟩ | simp_all

/-- The brackets of an attribute start an initializer, in front of which only specifiers
stand: there is no name. -/
theorem extent_of_skipSpecifiers_nil {afterExtern : Bool} {p q : Progress}
    (h : extent done p ts = .closed q taken rest) (hs : Stopped ts)
    (hskip : Declaration.skipSpecifiers afterExtern ts = []) (hn : p.name = none)
    (hd : p.depth = 0) : q.name = none := by
  fun_induction Declaration.skipSpecifiers afterExtern ts generalizing done p with
  | case1 afterExtern ts behind ha ih =>
    obtain ⟨done', hdone⟩ := exists_extent_skipTrivia hn done ts
    rw [hdone] at h
    cases ht : Tokens.skipTrivia ts with
    | nil =>
      rw [ht] at ha
      cases ha
    | cons t inside =>
      rw [ht] at h ha
      have hk : t.kind = .punct .lBracket := by
        by_contra hk
        rw [Tokens.afterAttribute?_of_kind hk] at ha
        cases ha
      rw [extent_cons hn (by simp [hk])] at h
      exact extent_nameless h (by simp [Progress.read, hk, hd]) (by simp [Progress.read, hk, hn])
  | case2 afterExtern ts ha ht => exact absurd ht (Ahead.skipTrivia rfl hs).ne_nil
  | case3 afterExtern ts ha t behind ht hk ih =>
    obtain ⟨done', hdone⟩ := exists_extent_skipTrivia hn done ts
    have hfront := Ahead.skipTrivia rfl hs
    have hplain : t.kind ∉ [.punct .hash, .punct .rBrace, .punct .semicolon, .punct .lBrace] := by
      intro hmem
      simp only [List.mem_cons, List.not_mem_nil, or_false] at hmem
      rcases hmem with h | h | h | h <;> simp [h, specifiers, Declaration.typeOpeners] at hk
    simp only [List.mem_cons, List.not_mem_nil, or_false, not_or] at hplain
    obtain ⟨hhash, hclose, hsemicolon, hopen⟩ := hplain
    obtain ⟨hname, hdepth⟩ := Progress.read_specifier hn hd hk
    rw [ht] at hfront
    rw [hdone, ht, extent_cons hn (by simp [hhash, hclose, hsemicolon])] at h
    exact ih h (Ahead.tail hfront hsemicolon) hskip hname hdepth
  | case4 => cases hskip

theorem read_fails_of_skipSpecifiers_nil (hs : Stopped ts)
    (hskip : Declaration.skipSpecifiers false ts = []) : (read ds lead ts).Fails := by
  unfold read
  split
  · exact ⟨_, _, _, rfl⟩
  · next he =>
    dsimp only
    rw [extent_of_skipSpecifiers_nil he hs hskip rfl rfl]
    exact ⟨_, _, _, rfl⟩

end Variable

/-- The probe does not look beyond sealed tokens where a declaration is read of them. -/
theorem Declaration.probedAlike (hs : Sealed p) (r us : List Token) : ProbedAlike p r [] us := by
  intro q ds lead item m hq hread _
  simp only [List.append_nil] at hread ⊢
  have hsealed := hs.suffix hq
  cases hskip : skipSpecifiers false q with
  | nil =>
    have hstopped : Stopped q := by
      obtain ⟨t, ht, hlast⟩ := exists_last_of_read hread
      exact ((hsealed.suffix hlast).stopped_of_cons (Ahead.isTrivia_of_mem ht)).of_suffix hlast
    obtain ⟨_, _, _, hfails⟩ := Variable.read_fails_of_skipSpecifiers_nil hstopped hskip
    rw [read, isFunction_of_skipSpecifiers_nil hskip, if_neg Bool.false_ne_true, hfails] at hread
    cases hread
  | cons t rest =>
    have hpast : Stopped (t :: rest) :=
      (hsealed.suffix (hskip ▸ skipSpecifiers_suffix false q)).stopped_of_cons
        (isTrivia_of_skipSpecifiers hskip)
    have hsame := isFunction_swap (p := q) (x := []) (y := us) List.mem_cons_self hpast
      (by simpa using hskip)
    rwa [List.append_nil] at hsame

end HeaderOutline.Construct
