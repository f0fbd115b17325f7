import HeaderOutline.Proofs.Passed
import Mathlib.Data.List.TakeWhile

/-! # The pieces of a declaration

A function, a variable, a type definition and a using declaration are cut from the tokens that
they are read from: what is taken is the front of these, and what is left is the rest.  A function
may be cut once more, into a header and, behind the trivia at the end of that, a body.  A body is a
block: a brace opens it, and it ends with the brace behind which, for the first time, no brace is
open (`Tokens.IsBlock`).

For each of the four routines one lemma (`exists_of_read`) says all that it can make.
-/
namespace HeaderOutline

/-! ## Blocks -/

namespace Tokens

/-- The number of braces that some tokens open, less the number of those that they close. -/
def braceDepth (ts : List Token) : Int :=
  ts.countP (·.kind == .punct .lBrace) - ts.countP (·.kind == .punct .rBrace)

variable {ts taken rest done : List Token} {t : Token}

@[simp] theorem braceDepth_nil : braceDepth [] = 0 := rfl

theorem braceDepth_cons_open (h : t.kind = .punct .lBrace) (ts : List Token) :
    braceDepth (t :: ts) = 1 + braceDepth ts := by
  simp [braceDepth, h]
  omega

theorem braceDepth_cons_close (h : t.kind = .punct .rBrace) (ts : List Token) :
    braceDepth (t :: ts) = -1 + braceDepth ts := by
  simp [braceDepth, h]
  omega

theorem braceDepth_cons_other (ho : t.kind ≠ .punct .lBrace) (hc : t.kind ≠ .punct .rBrace)
    (ts : List Token) : braceDepth (t :: ts) = braceDepth ts := by
  simp [braceDepth, ho, hc]

/-- Tokens from inside some open braces up to the one that closes them all: no sooner than
there is no brace open. -/
structure ClosesAll (depth : Int) (ts : List Token) : Prop where
  last : ∃ stop, ts.getLast? = some stop ∧ stop.kind = .punct .rBrace
  closed : depth + braceDepth ts = 0
  inside : ∀ k < ts.length, 0 < depth + braceDepth (ts.take k)

/-- One token more in front. -/
theorem ClosesAll.cons {depth next : Int} (h : ClosesAll next ts) (hd : 0 < depth)
    (ht : ∀ us, depth + braceDepth (t :: us) = next + braceDepth us) :
    ClosesAll depth (t :: ts) := by
  obtain ⟨stop, hlast, hkind⟩ := h.last
  refine ⟨⟨stop, ?_, hkind⟩, (ht ts).trans h.closed, fun k hk => ?_⟩
  · rw [List.getLast?_cons, hlast]
    rfl
  · cases k with
    | zero => simpa using hd
    | succ k =>
      rw [List.take_succ_cons, ht]
      exact h.inside k (Nat.lt_of_succ_lt_succ hk)

/-- What is taken up to the brace that closes some open ones does close them. -/
theorem closesAll_of_closeBraces {depth : Nat} (h : closeBraces done depth ts = some (taken, rest))
    (hd : 0 < depth) : ∃ block, taken = done.reverse ++ block ∧ ClosesAll depth block := by
  fun_induction closeBraces done depth ts with
  | case1 => cases h
  | case2 done depth t ts ho ih =>
    obtain ⟨block, rfl, hblock⟩ := ih h (Nat.succ_pos depth)
    refine ⟨t :: block, by simp, hblock.cons (by omega) fun us => ?_⟩
    rw [braceDepth_cons_open (eq_of_beq ho)]
    omega
  | case3 done depth t ts ho hc hle =>
    obtain ⟨rfl, rfl⟩ := Prod.mk.inj (Option.some.inj h)
    have hc := eq_of_beq hc
    have hone : depth = 1 := by omega
    refine ⟨[t], by simp, ⟨t, rfl, hc⟩, ?_, fun k hk => ?_⟩
    · rw [braceDepth_cons_close hc, braceDepth_nil]
      omega
    · obtain rfl : k = 0 := by simpa using hk
      simpa using hd
  | case4 done depth t ts ho hc hgt ih =>
    obtain ⟨block, rfl, hblock⟩ := ih h (by omega)
    refine ⟨t :: block, by simp, hblock.cons (by omega) fun us => ?_⟩
    rw [braceDepth_cons_close (eq_of_beq hc)]
    omega
  | case5 done depth t ts ho hc ih =>
    obtain ⟨block, rfl, hblock⟩ := ih h hd
    refine ⟨t :: block, by simp, hblock.cons (by omega) fun us => ?_⟩
    rw [braceDepth_cons_other (by simpa using ho) (by simpa using hc)]

/-- A block: a brace comes first, and the last one is the first behind which no brace is
open. -/
structure IsBlock (ts : List Token) : Prop where
  opens : ∃ brace, ts.head? = some brace ∧ brace.kind = .punct .lBrace
  closes : ∃ brace, ts.getLast? = some brace ∧ brace.kind = .punct .rBrace
  balanced : braceDepth ts = 0
  inside : ∀ k, 0 < k → k < ts.length → 0 < braceDepth (ts.take k)

/-- What is taken as a block is one. -/
theorem isBlock_of_block? (ht : t.kind = .punct .lBrace)
    (h : block? (t :: ts) = some (taken, rest)) : IsBlock taken := by
  rw [block?, closeBraces, if_pos (beq_iff_eq.mpr ht)] at h
  obtain ⟨block, rfl, hblock⟩ := closesAll_of_closeBraces h Nat.one_pos
  have hwhole : [t].reverse ++ block = t :: block := rfl
  have hcons := braceDepth_cons_open ht
  obtain ⟨stop, hlast, hkind⟩ := hblock.last
  rw [hwhole]
  refine ⟨⟨t, rfl, ht⟩, ⟨stop, ?_, hkind⟩, (hcons block).trans hblock.closed, fun k hk hlt => ?_⟩
  · rw [List.getLast?_cons, hlast]
    rfl
  · obtain ⟨k, rfl⟩ := Nat.exists_eq_add_one_of_ne_zero (Nat.pos_iff_ne_zero.mp hk)
    rw [List.take_succ_cons, hcons]
    exact hblock.inside k (Nat.lt_of_succ_lt_succ hlt)

end Tokens

/-! ## The header of a function -/

namespace Construct.Function

/-- Trivia says nothing about a function. -/
theorem Progress.note_trivia {t : Token} (p : Progress) (h : t.kind.isTrivia = true)
    (rest : List Token) : p.note t rest = p := by
  unfold Kind.isTrivia at h
  unfold note
  split at h
  · next hk => simp [hk]
  · next hk => simp [hk]
  · cases h

/-- What ends the head of a function before a body is a brace. -/
theorem headKind_of_defined {done ts taken rest : List Token} {p q : Progress}
    (h : extent done p ts = .defined q taken rest) : Tokens.headKind rest = .punct .lBrace := by
  fun_induction extent done p ts with
  | case1 | case2 | case3 | case4 => cases h
  | case5 _ _ _ _ _ _ _ _ _ _ _ ih => exact ih h
  | case6 done p t ts _ _ hbrace _ =>
    obtain ⟨-, -, rfl⟩ := by simpa using h
    simpa [Tokens.headKind] using (Bool.and_eq_true_iff.mp hbrace).2
  | case7 _ _ _ _ _ _ _ _ ih => exact ih h
  | case8 _ _ _ _ _ _ _ _ ih => exact ih h

/-- A name comes from a token that is no trivia. -/
theorem exists_of_name {done ts taken rest : List Token} {p q : Progress}
    (h : extent done p ts = .defined q taken rest)
    (hp : p.name.isSome = true → ∃ t ∈ done, t.kind.isTrivia = false)
    (hq : q.name.isSome = true) : ∃ t ∈ taken, t.kind.isTrivia = false := by
  fun_induction extent done p ts with
  | case1 | case2 | case3 | case4 => cases h
  | case5 done p t ts _ _ _ _ block rest hb ih =>
    refine ih h fun hname => ?_
    obtain ⟨u, hu, hk⟩ := hp hname
    exact ⟨u, List.mem_append_right _ hu, hk⟩
  | case6 done p t ts _ _ _ _ =>
    obtain ⟨rfl, rfl, -⟩ := by simpa using h
    obtain ⟨u, hu, hk⟩ := hp hq
    exact ⟨u, List.mem_reverse.mpr hu, hk⟩
  | case7 done p t ts _ _ _ hop ih =>
    refine ih h fun _ => ⟨t, ?_, ?_⟩
    · simp [operatorTokens]
    · simp only [Bool.and_eq_true, beq_iff_eq] at hop
      rw [hop.2]
      rfl
  | case8 done p t ts _ _ _ _ ih =>
    refine ih h fun hname => ?_
    by_cases ht : t.kind.isTrivia = true
    · rw [Progress.read, if_pos (by simp [ht]), Progress.note_trivia p ht] at hname
      obtain ⟨u, hu, hk⟩ := hp hname
      exact ⟨u, List.mem_cons_of_mem t hu, hk⟩
    · exact ⟨t, List.mem_cons_self, by simpa using ht⟩

/-- Tokens that are not all trivia are more than the trivia at their end. -/
theorem withoutTrailingTrivia_ne_nil {ts : List Token} (h : ∃ t ∈ ts, t.kind.isTrivia = false) :
    withoutTrailingTrivia ts ≠ [] := by
  obtain ⟨t, ht, hk⟩ := h
  intro hnil
  rw [withoutTrailingTrivia, List.reverse_eq_nil_iff, List.dropWhile_eq_nil_iff] at hnil
  have htrivia := hnil t (List.mem_reverse.mpr ht)
  rw [hk] at htrivia
  cases htrivia

theorem exists_withoutTrailingTrivia_append (ts : List Token) :
    ∃ gap, ts = withoutTrailingTrivia ts ++ gap := by
  refine ⟨(ts.reverse.takeWhile (·.kind.isTrivia)).reverse, ?_⟩
  rw [withoutTrailingTrivia, ← List.reverse_append, List.takeWhile_append_dropWhile,
    List.reverse_reverse]

end Construct.Function

/-! ## What the routines make -/

namespace Construct

variable {ds : Definitions} {lead : Lead} {keyword : Token} {ts behind rest : List Token}
  {item : Item}

/-- **What the routine for type definitions makes.** -/
theorem Typedef.exists_of_read (h : read keyword behind = .read item rest) :
    ∃ name taken last, keyword :: behind = taken ++ rest ∧ taken.getLast? = some last ∧
      item = .entity (.simple (.plain .typedefDecl) name (Token.textOf taken)
        (.between keyword last)) := by
  unfold read at h
  split at h
  · cases h
  · next p taken last after he =>
    obtain ⟨happ, hlast⟩ := extent_append he
    split at h
    · cases h
    · next name _ =>
      obtain ⟨rfl, rfl⟩ := Outcome.read.inj h
      exact ⟨name, taken, last, happ.symm, hlast, rfl⟩

/-- **What the routine for using declarations makes.** -/
theorem Using.exists_of_read (h : read lead keyword behind = .read item rest) :
    ∃ name taken last, keyword :: behind = taken ++ rest ∧ taken.getLast? = some last ∧
      item = .entity { Draft.simple (.plain .usingDecl) name (lead.onto (Token.textOf taken))
        (.between lead.first last) with template := lead.template } := by
  unfold read at h
  split at h
  · cases h
  · next name taken last after he =>
    obtain ⟨happ, hlast⟩ := extent_append he
    split at h
    · cases h
    · obtain ⟨rfl, rfl⟩ := Outcome.read.inj h
      exact ⟨name, taken, last, happ.symm, hlast, rfl⟩

/-- **What the routine for variables makes.** -/
theorem Variable.exists_of_read (h : read ds lead ts = .read item rest) :
    ∃ flags name taken last, ts = taken ++ rest ∧ taken.getLast? = some last ∧
      item = .entity { Draft.simple .variableDecl name
        (lead.onto (Tokens.substituted ds taken).trimEnd) (.between lead.first last) with
          flags := flags
          template := lead.template } := by
  unfold read at h
  split at h
  · cases h
  · next p taken after he =>
    obtain ⟨happ, hne⟩ := extent_append he
    dsimp only at h
    split at h
    · cases h
    · next name _ =>
      obtain ⟨rfl, rfl⟩ := Outcome.read.inj h
      have hlast := List.getLast?_eq_some_getLast hne
      refine ⟨p.flags, name, taken, _, happ.symm, hlast, ?_⟩
      rw [List.getLastD_eq_getLast?, hlast, Option.getD_some]

/-- **What the routine for functions makes**: of the tokens in front, a header which is all, or a
header and a block behind it. -/
theorem Function.exists_of_read (h : read ds lead ts = .read item rest) :
    ∃ p name head last stop body, item = .entity (draft ds lead p name head stop body) ∧
      head.getLast? = some last ∧
      (ts = head ++ rest ∧ stop = last ∧ body = none ∨
        ∃ gap block brace, ts = head ++ (gap ++ (block ++ rest)) ∧ Tokens.IsBlock block ∧
          block.head? = some brace ∧ block.getLast? = some stop ∧
          body = some ⟨.between brace stop, Token.textOf block⟩) := by
  unfold read at h
  split at h
  · cases h
  · cases h
  · next p taken after he =>
    obtain ⟨happ, hne⟩ := extent_append.1 he
    split at h
    · cases h
    · next name _ =>
      obtain ⟨rfl, rfl⟩ := Outcome.read.inj h
      have hlast := List.getLast?_eq_some_getLast hne
      refine ⟨p, name, taken, _, _, none, rfl, hlast, .inl ⟨happ.symm, ?_, rfl⟩⟩
      rw [List.getLastD_eq_getLast?, hlast, Option.getD_some]
  · next p taken behind he =>
    split at h
    · cases h
    · next name hname =>
      split at h
      · cases h
      · next block after hb =>
        obtain ⟨rfl, rfl⟩ := Outcome.read.inj h
        obtain ⟨gap, hgap⟩ := exists_withoutTrailingTrivia_append taken
        -- the head ended before the brace that opens the block
        have hblock : Tokens.IsBlock block := by
          have hk := headKind_of_defined he
          cases behind with
          | nil => cases hk
          | cons brace others => exact Tokens.isBlock_of_block? hk hb
        have hhead : withoutTrailingTrivia taken ≠ [] :=
          withoutTrailingTrivia_ne_nil
            (exists_of_name he (by simp [Progress.start]) (by simp [hname]))
        have hpieces : ts = withoutTrailingTrivia taken ++ (gap ++ (block ++ after)) := by
          rw [Tokens.block?_append hb, ← List.append_assoc, ← hgap]
          exact (extent_append.2 he).symm
        obtain ⟨brace, hbrace, -⟩ := hblock.opens
        obtain ⟨stop, hstop, -⟩ := hblock.closes
        refine ⟨p, name, _, _, _, _, rfl, List.getLast?_eq_some_getLast hhead,
          .inr ⟨gap, block, brace, hpieces, hblock, hbrace, ?_, ?_⟩⟩
        · rw [List.getLastD_eq_getLast?, hstop, Option.getD_some]
        · rw [List.headD_eq_head?_getD, hbrace, Option.getD_some]

end Construct
end HeaderOutline
