import HeaderOutline.Proofs.Closing.Basic
import HeaderOutline.Proofs.Cover

/-! # Braces that a construct leaves open

A construct that opens a scope leaves one brace open, a brace that ends one closes it, and all other
constructs leave the braces as they are, whether they can be read or not (`Outcome.Closes`).

The main result is `Construct.read_closes`: **what a construct leaves closes the braces that are
open behind it**, for every construct that no directive is.
-/
namespace HeaderOutline

open Tokens (Closes Counts)

/-- What a construct leaves closes the braces that are open behind it, if at most `n` are open
before it: one more behind the start of a scope, and one less behind its end. -/
def Outcome.Closes (n : Nat) : Outcome → Prop
  | .read (.scope _ _) rest | .read .linkage rest => Tokens.Closes (n + 1) rest
  | .read (.close _) rest => 0 < n ∧ Tokens.Closes (n - 1) rest
  | .read _ rest | .failed _ _ rest => Tokens.Closes n rest

/-- A construct that cannot be read opens and closes no scope. -/
theorem Outcome.Fails.closes {o : Outcome} {n : Nat} (h : o.Fails)
    (hr : Tokens.Closes n o.rest) : o.Closes n := by
  obtain ⟨_, _, _, rfl⟩ := h
  exact hr

namespace Construct

variable {ds : Definitions} {lead : Lead} {n : Nat} {t : Token} {ts rest : List Token}

/-! ## Aliases -/

namespace Typedef

theorem Progress.read_braces (p : Progress) (t : Token) (rest : List Token) :
    (p.read t rest).braces = t.kind.count (· == .punct .rBrace) p.braces := by
  rw [Kind.count_of_closer? (o := .punct .lBrace) rfl]
  unfold read
  split
  · next hk => simp [hk]
  · next hk => simp [hk]
  · next hk => simp [hk, apply_ite Progress.braces]
  · next hk => simp [hk, apply_ite Progress.braces]
  · next hk => simp [hk, apply_ite Progress.braces]
  · next ho hc _ _ _ => rw [if_neg (by simpa using ho), if_neg (by simpa using hc)]

theorem extent_closes (done : List Token) (p : Progress)
    (h : Counts (· == .punct .rBrace) n p.braces ts) : Closes n (extent done p ts).rest := by
  fun_induction extent done p ts with
  | case1 => exact .nil n
  | case2 done p t ts he =>
    simp only [Bool.and_eq_true, beq_iff_eq] at he
    rw [he.1.2] at h
    exact (Tokens.counts_zero.mp h).tail (by simp [he.1.1])
  | case3 done p t ts _ he =>
    simp only [Bool.and_eq_true, beq_iff_eq] at he
    rw [he.2] at h
    exact Tokens.counts_zero.mp h
  | case4 done p t ts _ _ ih =>
    refine ih ?_
    rw [Progress.read_braces]
    exact h.next fun _ _ => rfl

theorem read_closes (keyword : Token) (h : Closes n rest) : (read keyword rest).Closes n := by
  have hextent := extent_closes [keyword] .start (Tokens.counts_zero.mpr h)
  unfold read
  split
  · next he =>
    rw [he] at hextent
    exact hextent
  · next he =>
    rw [he] at hextent
    split
    · exact hextent
    · exact hextent

end Typedef

namespace Using

theorem directive_closes (done : List Token) (name : Text) (h : Closes n ts) :
    Closes n (directive done name ts).rest := by
  fun_induction directive done name ts with
  | case1 => exact .nil n
  | case2 _ _ t ts hk => exact h.tail (by simp [hk])
  | case3 => exact h
  | case4 => exact h
  | case5 _ _ t ts _ hb _ ih => exact ih (h.tail hb)

theorem Progress.read_depth (p : Progress) (t : Token) :
    (p.read t).depth = t.kind.count (fun _ => true) p.depth := by
  unfold read
  split
  case h_9 hp hb hs hp' hb' hs' _ _ =>
    refine (Kind.count_of_not_bracket ?_ p.depth).symm
    simp only [List.mem_cons, List.not_mem_nil, or_false, not_or]
    exact ⟨hp, hp', hb, hb', hs, hs'⟩
  all_goals
    next hk => simp [hk, Kind.count, Kind.closer?, Kind.isCloser, apply_ite Progress.depth]

theorem declaration_closes (done : List Token) (p : Progress)
    (h : Counts (fun _ => true) n p.depth ts) : Closes n (declaration done p ts).rest := by
  fun_induction declaration done p ts with
  | case1 => exact .nil n
  | case2 done p t ts he =>
    simp only [Bool.and_eq_true, beq_iff_eq] at he
    rw [he.2] at h
    exact (Tokens.counts_zero.mp h).tail (by simp [he.1])
  | case3 done p t ts _ he =>
    simp only [Bool.and_eq_true, beq_iff_eq] at he
    rw [he.2] at h
    exact Tokens.counts_zero.mp h
  | case4 done p t ts _ _ ih =>
    refine ih ?_
    rw [Progress.read_depth]
    exact h.next fun _ _ => rfl

theorem extent_closes (keyword : Token) (h : Closes n rest) :
    Closes n (extent keyword rest).rest := by
  have hfront := (Tokens.lasting_closes n).skipTrivia h
  unfold extent
  dsimp only
  split
  · next t ts ht =>
    rw [ht] at hfront
    split
    · next hk => exact directive_closes _ _ (hfront.tail (by simp [beq_iff_eq.mp hk]))
    · exact declaration_closes _ .start (Tokens.counts_zero.mpr hfront)
  · exact .nil n

theorem read_closes (lead : Lead) (keyword : Token) (h : Closes n rest) :
    (read lead keyword rest).Closes n := by
  have hextent := extent_closes keyword h
  unfold read
  split
  · next he =>
    rw [he] at hextent
    exact hextent
  · next he =>
    rw [he] at hextent
    split
    · exact hextent
    · exact hextent

end Using

/-! ## Variables and functions -/

namespace Variable

theorem Progress.read_depth (p : Progress) (t : Token) :
    (p.read t).depth = t.kind.count (fun _ => true) p.depth := by
  unfold read
  split
  case h_14 hb hs hp hp' hs' hb' _ _ _ _ _ _ _ =>
    refine (Kind.count_of_not_bracket ?_ p.depth).symm
    simp only [List.mem_cons, List.not_mem_nil, or_false, not_or]
    exact ⟨hp, hp', hb, hb', hs, hs'⟩
  all_goals
    next hk => simp [hk, Kind.count, Kind.closer?, Kind.isCloser, apply_ite Progress.depth]

/-- A declaration that ends has closed the brackets that it counts. -/
theorem Progress.count_of_endsWith {p : Progress} {k : Kind} (h : p.endsWith k rest = true) :
    k.count (fun _ => true) p.depth = 0 ∧ (p.depth = 0 → k ≠ .punct .lBrace) := by
  unfold endsWith at h
  simp only [Bool.or_eq_true, Bool.and_eq_true, beq_iff_eq] at h
  rcases h with ⟨hd, rfl⟩ | ⟨⟨hd, rfl⟩, -⟩
  · exact ⟨hd, fun _ => by decide⟩
  · rw [hd]
    exact ⟨rfl, fun _ => by decide⟩

theorem extent_closes (done : List Token) (p : Progress)
    (h : Counts (fun _ => true) n p.depth ts) : Closes n (extent done p ts).rest := by
  fun_induction extent done p ts with
  | case1 => exact .nil n
  | case2 done p t ts hr =>
    have hd : p.depth = 0 := by
      simp only [Progress.refuses, Bool.and_eq_true, beq_iff_eq] at hr
      exact hr.1
    rw [hd] at h
    exact Tokens.counts_zero.mp h
  | case3 done p t ts _ he =>
    have hnext := h.next fun _ _ => rfl
    rw [(Progress.count_of_endsWith he).1] at hnext
    exact Tokens.counts_zero.mp hnext
  | case4 done p t ts _ _ ih =>
    refine ih ?_
    rw [Progress.read_depth]
    exact h.next fun _ _ => rfl

theorem read_closes (ds : Definitions) (lead : Lead) (h : Closes n ts) :
    (read ds lead ts).Closes n := by
  have hextent := extent_closes [] .start (Tokens.counts_zero.mpr h)
  unfold read
  split
  · next he =>
    rw [he] at hextent
    exact hextent
  · next he =>
    rw [he] at hextent
    dsimp only
    split
    · exact hextent
    · exact hextent

end Variable

namespace Function

theorem Progress.read_depth (p : Progress) (t : Token) (rest : List Token) :
    (p.read t rest).depth = t.kind.count (· == .punct .rParen) p.depth := by
  rw [Kind.count_of_closer? (o := .punct .lParen) rfl]
  have hread : (p.read t rest).depth = (p.note t rest).depth := by
    unfold read
    split
    · rfl
    · rfl
  rw [hread]
  unfold note
  dsimp only
  split
  case h_10 ho hc _ _ _ _ _ _ _ => rw [if_neg (by simpa using ho), if_neg (by simpa using hc)]
  all_goals next hk => simp [hk, openParen, closeParen, apply_ite Progress.depth]

theorem extent_closes (done : List Token) (p : Progress)
    (h : Counts (· == .punct .rParen) n p.depth ts) : Closes n (extent done p ts).rest := by
  fun_induction extent done p ts with
  | case1 => exact .nil n
  | case2 done p t ts hr =>
    have hd : p.depth = 0 := by
      simp only [Progress.refuses, Bool.and_eq_true, beq_iff_eq] at hr
      exact hr.1
    rw [hd] at h
    exact Tokens.counts_zero.mp h
  | case3 done p t ts _ he =>
    simp only [Bool.and_eq_true, beq_iff_eq] at he
    rw [he.1] at h
    exact (Tokens.counts_zero.mp h).tail (by simp [he.2])
  | case4 => exact .nil n
  | case5 done p t ts _ _ ho _ block rest hb ih =>
    simp only [Bool.and_eq_true, beq_iff_eq] at ho
    rw [ho.1] at h
    refine ih ?_
    change Counts _ n p.depth rest
    rw [ho.1]
    exact Tokens.counts_zero.mpr ((Tokens.counts_zero.mp h).block? hb)
  | case6 done p t ts _ _ ho _ =>
    simp only [Bool.and_eq_true, beq_iff_eq] at ho
    rw [ho.1] at h
    exact Tokens.counts_zero.mp h
  | case7 done p t ts _ _ _ ho ih =>
    simp only [Bool.and_eq_true, beq_iff_eq] at ho
    rw [ho.1.1] at h
    refine ih ?_
    change Counts _ n p.depth _
    rw [ho.1.1]
    have hbehind := (Tokens.counts_zero.mp h).tail (by simp [ho.2])
    exact Tokens.counts_zero.mpr (operatorTokens_lasting (Tokens.lasting_closes n) t hbehind)
  | case8 done p t ts _ _ ho _ ih =>
    refine ih ?_
    rw [Progress.read_depth]
    refine h.next fun hd hk => ?_
    simp [hd, hk] at ho

theorem read_closes (ds : Definitions) (lead : Lead) (h : Closes n ts) :
    (read ds lead ts).Closes n := by
  have hextent := extent_closes [] .start (Tokens.counts_zero.mpr h)
  unfold read
  split
  · next he =>
    rw [he] at hextent
    exact hextent
  · exact .nil n
  · next he =>
    rw [he] at hextent
    split
    · exact hextent
    · exact hextent
  · next he =>
    rw [he] at hextent
    split
    · exact hextent
    · split
      · exact .nil n
      · next hb => exact hextent.block? hb

end Function

theorem Declaration.read_closes (ds : Definitions) (lead : Lead) (h : Closes n ts) :
    (read ds lead ts).Closes n := by
  unfold read
  split
  · exact Function.read_closes ds lead h
  · exact Variable.read_closes ds lead h

/-! ## Classes and enums -/

namespace Class

theorem readEnd_closes (lead : Lead) (kind : EntityKind) (access : Access) {h : Head}
    (hr : Closes n h.rest) : (readEnd lead kind access h).Closes n := by
  unfold readEnd
  split
  · split
    · exact .nil n
    · exact Closes.nil n
  · next t rest ht =>
    rw [ht] at hr
    split
    · next hk => exact hr.opened (beq_iff_eq.mp hk)
    · split
      · next hk => exact hr.tail (by simp [beq_iff_eq.mp hk])
      · split
        · exact hr
        · exact hr

theorem read_closes (ds : Definitions) (lead : Lead) {keyword : Token}
    (hk : keyword.kind ≠ .punct .lBrace) (h : Closes n (keyword :: rest)) :
    (read ds lead keyword rest).Closes n := by
  have hfront := (Tokens.lasting_closes n).skipTrivia (h.tail hk)
  have hhead := head_lasting (Tokens.lasting_closes n) ds keyword hfront.skipAttributes
  unfold read
  split
  · exact Declaration.read_closes ds lead h
  · split
    · next he =>
      rw [he] at hhead
      exact (head_fails he).closes hhead
    · next he =>
      rw [he] at hhead
      split
      · exact readEnd_closes lead _ _ hhead
      · exact readEnd_closes lead _ _ hhead

end Class

namespace Enum

theorem head_closes (keyword : Token) (h : Closes n rest) :
    Closes n (Outcome.leftBy (·.rest) ((head keyword rest).readClause .enumHead)) := by
  have hP := Tokens.lasting_closes n
  have hscoped : Closes n (readScoped ⟨"enum".toList, [], keyword,
      Tokens.skipTrivia rest⟩).rest := readScoped_lasting hP (hP.skipTrivia h)
  exact Head.readClause_lasting hP (readName_lasting hP hscoped.skipAttributes)

theorem readEnd_closes (lead : Lead) {h : Head} (hr : Closes n h.rest) :
    (readEnd lead h).Closes n := by
  unfold readEnd
  split
  · split
    · exact .nil n
    · exact Closes.nil n
  · next t rest ht =>
    rw [ht] at hr
    split
    · split
      · exact .nil n
      · next block after hb =>
        have hafter := hr.block? hb
        dsimp only
        split
        · split
          · next hk => exact hafter.tail (by simp [beq_iff_eq.mp hk])
          · exact hafter
        · exact Closes.nil n
    · split
      · next hk => exact hr.tail (by simp [beq_iff_eq.mp hk])
      · split
        · exact hr
        · exact hr

theorem read_closes (ds : Definitions) (lead : Lead) {keyword : Token}
    (hk : keyword.kind ≠ .punct .lBrace) (h : Closes n (keyword :: rest)) :
    (read ds lead keyword rest).Closes n := by
  have hhead := head_closes keyword (h.tail hk)
  unfold read
  split
  · exact Declaration.read_closes ds lead h
  · split
    · next o he =>
      rw [he] at hhead
      obtain ⟨t, behind, after, -, -, rfl⟩ := Head.readClause_eq_error he
      exact hhead
    · next he =>
      rw [he] at hhead
      exact readEnd_closes lead hhead

end Enum

/-! ## Namespaces and templates -/

namespace Namespace

theorem readAlias_closes (name : Text) {first : Token} (h : Closes n (first :: rest)) :
    (readAlias name first rest).Closes n := by
  have hafter := (Tokens.lasting_closes n).upTo h aliasStops rfl rfl
  unfold readAlias
  dsimp only
  split
  · next t behind he =>
    rw [he] at hafter
    split
    · next hk => exact hafter.tail (by simp [beq_iff_eq.mp hk])
    · exact hafter
  · exact .nil n

theorem readEnd_closes (isInline : Bool) {first : Token} {h : Head}
    (hf : Closes n (first :: rest)) (hr : Closes n h.rest) :
    (readEnd isInline first rest h).Closes n := by
  have hnext := (Tokens.lasting_closes n).skipTrivia hr
  unfold readEnd
  dsimp only
  split
  · exact readAlias_closes _ hf
  · split
    · next members hm =>
      obtain ⟨t, hk, ht⟩ := Tokens.eat?_eq_some_iff.mp hm
      rw [ht] at hnext
      exact hnext.opened hk
    · split
      · exact hr
      · exact hr

theorem read_closes {first : Token} (hk : first.kind ≠ .punct .lBrace)
    (hinline : first.kind = .keyword .inlineKw → Tokens.nextKind rest = .keyword .namespaceKw)
    (h : Closes n (first :: rest)) : (read first rest).Closes n := by
  have hP := Tokens.lasting_closes n
  have hfront := hP.skipTrivia (h.tail hk)
  unfold read
  split
  · next hi =>
    split
    · next keyword behind hb =>
      have hkeyword : keyword.kind = .keyword .namespaceKw := by
        rw [← hinline (beq_iff_eq.mp hi), Tokens.nextKind, hb]
        rfl
      rw [hb] at hfront
      have hbehind := hP.skipTrivia (hfront.tail (by simp [hkeyword]))
      exact readEnd_closes _ h (readName_lasting hP _ _ hbehind)
    · exact .nil n
  · exact readEnd_closes _ h (readName_lasting hP _ _ hfront)

theorem afterLinkage?_closes {members : List Token} (h : Closes n rest)
    (hm : afterLinkage? rest = some members) : Closes (n + 1) members := by
  unfold afterLinkage? at hm
  obtain ⟨behind, hs, hb⟩ := Option.bind_eq_some_iff.mp hm
  have hP := Tokens.lasting_closes n
  have hbehind := hP.skipTrivia (hP.eat? (hP.skipTrivia h) hs (by decide))
  obtain ⟨t, hk, ht⟩ := Tokens.eat?_eq_some_iff.mp hb
  rw [ht] at hbehind
  exact hbehind.opened hk

end Namespace

namespace Template

theorem readDeclaration_closes (ds : Definitions) (lead : Lead) (h : Closes n ts) :
    (readDeclaration ds lead ts).Closes n := by
  unfold readDeclaration
  split
  · exact .nil n
  · next t rest =>
    split
    · next hk =>
      refine Class.read_closes ds lead ?_ h
      rintro hb
      simp [hb] at hk
    · split
      · next hk => exact Using.read_closes lead t (h.tail (by simp [beq_iff_eq.mp hk]))
      · split
        · exact Function.read_closes ds lead h
        · split
          · exact Variable.read_closes ds lead h
          · exact h

theorem read_closes (ds : Definitions) {keyword : Token} (h : Closes n (keyword :: rest)) :
    (read ds keyword rest).Closes n := by
  have hclauses := clauses_lasting (Tokens.lasting_closes n) [] [] h
  unfold read
  split
  · next he =>
    rw [he] at hclauses
    exact (clauses_fails he).closes hclauses
  · next he =>
    rw [he] at hclauses
    exact readDeclaration_closes ds _ hclauses

end Template

/-! ## All constructs -/

theorem Comment.read_closes (merge : Bool) (t : Token) (h : Closes n rest) :
    (read merge t rest).Closes n := by
  unfold read
  split
  · split
    · exact mergeLines_lasting (Tokens.lasting_closes n) _ _ _ h
    · exact h
  · exact h

theorem readAccess_closes (keyword : Token) (level : Access) (h : Closes n rest) :
    (readAccess keyword level rest).Closes n := by
  have hP := Tokens.lasting_closes n
  unfold readAccess
  dsimp only
  split
  · next hb => exact hP.eat? (hP.skipSpace h) hb (by decide)
  · exact hP.skipSpace h

theorem readClose_closes {brace : Token} (hk : brace.kind = .punct .rBrace)
    (h : Closes n (brace :: rest)) : (readClose brace rest).Closes n := by
  obtain ⟨hpos, hbehind⟩ := h.closed hk
  refine ⟨hpos, ?_⟩
  cases he : Tokens.eat? (.punct .semicolon) rest with
  | none => exact hbehind
  | some behind =>
    obtain ⟨s, hs, rfl⟩ := Tokens.eat?_eq_some_iff.mp he
    exact hbehind.tail (by simp [hs])

theorem readWord_closes (ds : Definitions) {word : Token} (hk : word.kind ≠ .punct .lBrace)
    (h : Closes n (word :: rest)) : (readWord ds word rest).Closes n := by
  unfold readWord
  split
  · next t behind he =>
    have he : exportedHead? rest = some (t, behind) := by
      split at he
      · exact he
      · cases he
    obtain ⟨hkind, hhead⟩ := exportedHead?_lasting (Tokens.lasting_closes n) (h.tail hk) he
    have hplain : t.kind ≠ .punct .lBrace := by
      rintro hb
      simp [hb] at hkind
    dsimp only
    split
    · exact Enum.read_closes ds _ hplain hhead
    · exact Class.read_closes ds _ hplain hhead
  · exact Declaration.read_closes ds _ h

/-- **What a construct leaves closes the braces that are open behind it.** -/
theorem read_closes (ds : Definitions) (merge : Bool) (h : Closes n (t :: rest))
    (hh : t.kind ≠ .punct .hash) : (read ds merge t rest).Closes n := by
  unfold read
  split
  · next hk => exact absurd hk hh
  · next hk => exact Comment.read_closes merge t (h.tail (by simp [hk]))
  · next hk => exact Comment.read_closes merge t (h.tail (by simp [hk]))
  · next hk => exact Comment.read_closes merge t (h.tail (by simp [hk]))
  · exact Template.read_closes ds h
  · next hk => exact Namespace.read_closes (by simp [hk]) (fun hi => by simp [hk] at hi) h
  · next hk =>
    split
    · next hnext => exact Namespace.read_closes (by simp [hk]) (fun _ => beq_iff_eq.mp hnext) h
    · exact Declaration.read_closes ds _ h
  · next hk => exact Class.read_closes ds _ (by simp [hk]) h
  · next hk => exact Class.read_closes ds _ (by simp [hk]) h
  · next hk => exact Class.read_closes ds _ (by simp [hk]) h
  · next hk => exact Enum.read_closes ds _ (by simp [hk]) h
  · next hk => exact Typedef.read_closes t (h.tail (by simp [hk]))
  · next hk => exact Using.read_closes _ t (h.tail (by simp [hk]))
  · next hk => exact readAccess_closes t _ (h.tail (by simp [hk]))
  · next hk => exact readAccess_closes t _ (h.tail (by simp [hk]))
  · next hk => exact readAccess_closes t _ (h.tail (by simp [hk]))
  · next hk => exact readClose_closes hk h
  · next hk => exact h.tail (by simp [hk])
  · next hk =>
    split
    · next hm => exact Namespace.afterLinkage?_closes (h.tail (by simp [hk])) hm
    · exact Declaration.read_closes ds _ h
  · next hk => exact readWord_closes ds (by simp [hk]) h
  · exact Declaration.read_closes ds _ h

end Construct
end HeaderOutline
