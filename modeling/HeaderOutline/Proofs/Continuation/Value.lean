import HeaderOutline.Proofs.Normal
import HeaderOutline.Proofs.Swap.Directive

/-! # Gaps in the value of a macro

In the value of a macro a line end that a backslash takes away is as good as white space: the value
goes on with a gap behind either of them (`Construct.Directive.value_gap`).  So it makes no
difference to the definition which of the two stands there (`Construct.Directive.anyGap_of_value`).
In the list of the parameters it does: a list ends at any line end.
-/
namespace HeaderOutline

/-- Of a list without duplicates, two suffixes with the same first token are one. -/
theorem Tokens.eq_of_cons_suffix {t : Token} {ts us vs : List Token} (hn : ts.Nodup)
    (h : t :: us <:+ ts) (h' : t :: vs <:+ ts) : us = vs := by
  have hlt : ∀ {us vs : List Token}, t :: us <:+ ts → ¬t :: vs <:+ us := by
    intro us vs hu hv
    exact (List.nodup_cons.mp (hu.sublist.nodup hn)).1 (hv.mem List.mem_cons_self)
  rcases List.suffix_or_suffix_of_suffix h h' with hs | hs
  · rcases List.suffix_cons_iff.mp hs with he | hs
    · exact (List.cons.inj he).2
    · exact absurd hs (hlt h')
  · rcases List.suffix_cons_iff.mp hs with he | hs
    · exact (List.cons.inj he).2.symm
    · exact absurd hs (hlt h)

end HeaderOutline

namespace HeaderOutline.Construct.Directive

open Tokens (skipSpace_cons_of_ne skipSpace_cons_of_space ne_whitespace_of_not_trivia)

variable {t u w hash : Token} {g g' ts us vs rest front behind : List Token}

/-- The tokens behind the name of the macro that a directive defines, and behind the list of its
parameters, from what is behind the hash sign. -/
def behindParams? (rest : List Token) : Option (List Token) :=
  match Tokens.skipSpace rest with
  | [] => none
  | t :: ts =>
    if t.kind == .ident && t.text == "define".toList then
      match Tokens.skipSpace ts with
      | [] => none
      | name :: behind =>
        if name.kind == .ident || name.kind.isKeyword then some (paramList behind).2.2 else none
    else none

/-- The tokens of the value of the macro that a directive defines, if it defines one. -/
def valueTokens (rest : List Token) : List Token :=
  match behindParams? rest with
  | some us => us.take (us.length - (value .start us).2.length)
  | none => []

/-- White space, or a line end that a backslash takes away. -/
inductive Gap : List Token → Prop
  | space {w : Token} (hw : w.kind = .whitespace) : Gap [w]
  | continued {b n : Token} (hb : b.kind = .punct .backslash) (hn : n.kind = .newline) : Gap [b, n]

/-! ## Gaps -/

theorem Gap.headKind (h : Gap g) (ts : List Token) :
    Tokens.headKind (g ++ ts) = .whitespace ∨ Tokens.headKind (g ++ ts) = .punct .backslash := by
  cases h with
  | space hw => exact .inl hw
  | continued hb => exact .inr hb

/-- A value goes on behind a gap. -/
theorem value_of_gap (h : Gap g) (v : Value) (ts : List Token) :
    value v (g ++ ts) = value v.space ts := by
  cases h with
  | @space w hw =>
    have hadd : v.add w = v.space := by simp [Value.add, hw]
    rw [List.singleton_append, value_of_ne (by simp [hw]) (by simp [hw]), hadd]
  | @continued b n hb hn =>
    have hafter : afterContinuation? (n :: ts) = some ts := by
      rw [afterContinuation?, skipSpace_cons_of_ne (by simp [hn]), Tokens.eat?_of_kind hn]
    exact value_of_some hb hafter v

/-- Whether some tokens hold the line end that a backslash in front of them takes away can be told
in front of a gap. -/
theorem afterContinuation?_gap (ts : List Token) :
    (∃ us, us.length < ts.length ∧ ∀ vs, afterContinuation? (ts ++ vs) = some (us ++ vs)) ∨
      ∀ {g t vs}, Gap g → t.kind.isTrivia = false →
        afterContinuation? (ts ++ (g ++ t :: vs)) = none := by
  cases hs : Tokens.skipSpace ts with
  | nil =>
    refine .inr fun {g t vs} hg ht => ?_
    have hskip : Tokens.skipSpace (ts ++ (g ++ t :: vs)) = Tokens.skipSpace (g ++ t :: vs) := by
      unfold Tokens.skipSpace at hs ⊢
      rw [List.dropWhile_append, hs]
      rfl
    rw [afterContinuation?, hskip]
    cases hg with
    | space hw =>
      rw [List.singleton_append, skipSpace_cons_of_space hw,
        skipSpace_cons_of_ne (ne_whitespace_of_not_trivia ht)]
      exact Tokens.eat?_of_ne (by rintro hk; simp [hk, Kind.isTrivia] at ht)
    | continued hb hn =>
      rw [List.cons_append, skipSpace_cons_of_ne (by simp [hb])]
      exact Tokens.eat?_of_ne (by simp [hb])
  | cons n us =>
    have hmem : n :: us <:+ ts := hs ▸ Tokens.skipSpace_suffix ts
    have hn : n.kind ≠ .whitespace := by
      have hhead := List.head?_dropWhile_not (fun t : Token => t.kind == .whitespace) ts
      rw [show ts.dropWhile _ = n :: us from hs] at hhead
      simpa using hhead
    have happ := fun vs => (skipSpace_append_of_plain (hmem.mem List.mem_cons_self) hn vs).1
    by_cases hk : n.kind = .newline
    · refine .inl ⟨us, hmem.length_le, fun vs => ?_⟩
      rw [afterContinuation?, happ, hs, List.cons_append, Tokens.eat?_of_kind hk]
    · refine .inr fun {g t vs} _ _ => ?_
      rw [afterContinuation?, happ, hs, List.cons_append, Tokens.eat?_of_ne hk]

/-- **A value with a gap in it** is the same with any other gap. -/
theorem value_gap {v : Value} (hg : Gap g) (ht : t.kind.isTrivia = false)
    (h : (value v (ts ++ (g ++ t :: vs))).2 <:+ vs) :
    ∃ v', ∀ {g' t' vs'}, Gap g' → t'.kind.isTrivia = false →
      value v (ts ++ (g' ++ t' :: vs')) = value v' (t' :: vs') := by
  induction hn : ts.length using Nat.strongRecOn generalizing ts v with
  | ind n ih =>
    subst hn
    cases ts with
    | nil => exact ⟨v.space, fun hg' _ => value_of_gap hg' v _⟩
    | cons m ts =>
      simp only [List.cons_append] at h ⊢
      by_cases hline : m.kind = .newline ∧ v.depth = 0
      · -- the value would end in front of the gap
        rw [value_of_ends hline.1 hline.2] at h
        have hle := h.length_le
        simp only [List.length_cons, List.length_append] at hle
        omega
      by_cases hb : m.kind = .punct .backslash
      · rcases afterContinuation?_gap ts with ⟨us, hlt, hsome⟩ | hnone
        · simp only [value_of_some hb (hsome _)] at h ⊢
          exact ih _ (Nat.lt_succ_of_lt hlt) h rfl
        · rw [value_of_none hb (hnone hg ht)] at h
          obtain ⟨v', hv'⟩ := ih _ (Nat.lt_succ_self _) h rfl
          refine ⟨v', fun hg' ht' => ?_⟩
          rw [value_of_none hb (hnone hg' ht')]
          exact hv' hg' ht'
      · have hdepth : m.kind = .newline → v.depth ≠ 0 := fun hk hd => hline ⟨hk, hd⟩
        simp only [value_of_ne hdepth hb] at h ⊢
        exact ih _ (Nat.lt_succ_self _) h rfl

/-! ## Definitions -/

/-- **A list of parameters** is the same in front of all tokens, if what stands behind it is on its
line. -/
theorem paramList_behind {names : Option (List Text)} {list : List Token}
    (h : paramList rest = (names, list, us)) (hne : us ≠ [])
    (hline : ∀ t ∈ us.head?, t.kind ≠ .newline) :
    rest = list ++ us ∧ ∀ vs,
      (Tokens.headKind vs = .punct .lParen → Tokens.headKind us = .punct .lParen) →
        paramList (list ++ vs) = (names, list, vs) := by
  by_cases hopen : Tokens.headKind rest = .punct .lParen
  case neg =>
    rw [paramList_of_none hopen] at h
    obtain ⟨rfl, rfl, rfl⟩ := h
    exact ⟨rfl, fun vs hvs => paramList_of_none fun hk => hopen (hvs hk)⟩
  case pos =>
    have hsplit := List.takeWhile_append_dropWhile (p := fun t : Token => !endsParams t.kind)
      (l := rest)
    have hfront : ∀ t ∈ rest.takeWhile (fun t => !endsParams t.kind),
        endsParams t.kind = false := by
      intro t ht
      simpa using List.all_eq_true.mp List.all_takeWhile t ht
    have hstop := List.head?_dropWhile_not (fun t : Token => !endsParams t.kind) rest
    have hfirst : rest.takeWhile (fun t => !endsParams t.kind) ≠ [] := by
      cases rest with
      | nil => cases hopen
      | cons t rest =>
        have hk : t.kind = .punct .lParen := hopen
        rw [List.takeWhile_cons_of_pos (by simp [hk, endsParams])]
        exact List.cons_ne_nil _ _
    generalize rest.takeWhile (fun t => !endsParams t.kind) = front, rest.dropWhile _ = behind
      at hsplit hfront hstop hfirst
    subst hsplit
    rw [paramList_of_open hopen] at h
    cases behind with
    | nil =>
      rw [List.append_nil, params_of_open [] [] hfront] at h
      obtain ⟨-, -, rfl⟩ := h
      exact absurd rfl hne
    | cons t ts =>
      have ht : t.kind = .punct .rParen ∨ t.kind = .newline := by
        simpa [endsParams, imp_iff_not_or] using hstop
      rcases ht with ht | ht
      · rw [params_of_closed hfront ht] at h
        obtain ⟨rfl, rfl, rfl⟩ := h
        refine ⟨by simp, fun vs _ => ?_⟩
        obtain ⟨u, front, rfl⟩ := List.exists_cons_of_ne_nil hfirst
        have hopen : Tokens.headKind (u :: front ++ t :: vs) = .punct .lParen := hopen
        rw [List.append_assoc, List.singleton_append, paramList_of_open hopen,
          params_of_closed hfront ht]
      · rw [params_of_line hfront ht] at h
        obtain ⟨-, -, rfl⟩ := h
        exact absurd ht (hline t rfl)

/-- **A definition** depends on what is read of the value behind its name and its parameters. -/
theorem exists_front_of_behindParams? (h : behindParams? rest = some us) (hne : us ≠ [])
    (hline : ∀ t ∈ us.head?, t.kind ≠ .newline) :
    ∃ front, rest = front ++ us ∧ ∀ {ys zs} hash,
      (∀ vs ∈ [ys, zs], Tokens.headKind vs = .punct .lParen → Tokens.headKind us = .punct .lParen) →
        value .start ys = value .start zs → read hash (front ++ ys) = read hash (front ++ zs) := by
  unfold behindParams? at h
  split at h
  · cases h
  next t ts ht =>
  split at h
  case isFalse => cases h
  next hdefine =>
  split at h
  · cases h
  next name behind hname =>
  split at h
  case isFalse => cases h
  next hword =>
  simp only [Bool.and_eq_true, Bool.or_eq_true, beq_iff_eq] at hdefine hword
  obtain ⟨names, list, us', hlist⟩ : ∃ names list us', paramList behind = (names, list, us') :=
    ⟨_, _, _, rfl⟩
  rw [hlist] at h
  obtain rfl := Option.some.inj h
  obtain ⟨rfl, happ⟩ := paramList_behind hlist hne hline
  -- what is in front of the value stands behind the hash sign
  have hts := Tokens.skipSpace_suffix ts
  rw [hname, ← List.cons_append] at hts
  obtain ⟨q, rfl, hq⟩ := Tokens.exists_of_suffix hts
  have hrest := Tokens.skipSpace_suffix rest
  rw [ht, ← List.cons_append] at hrest
  obtain ⟨p, rfl, hp⟩ := Tokens.exists_of_suffix hrest
  have hplain : t.kind ≠ .whitespace ∧ name.kind ≠ .whitespace := by
    constructor
    · simp [hdefine.1]
    · rintro hk
      simp [hk, Kind.isKeyword] at hword
  have hpskip := fun vs =>
    (skipSpace_append_of_plain (hp.mem List.mem_cons_self) hplain.1 vs).1
  have hqskip := fun vs =>
    (skipSpace_append_of_plain (hq.mem List.mem_cons_self) hplain.2 vs).1
  have hpq : Tokens.skipSpace p = t :: q := by
    rw [hpskip] at ht
    exact List.append_cancel_right ht
  have hql : Tokens.skipSpace q = name :: list := by
    rw [hqskip] at hname
    exact List.append_cancel_right hname
  refine ⟨p, rfl, fun {ys zs} hash hheads hvalue => ?_⟩
  have hread : ∀ vs, read hash (p ++ vs) = readDefinition hash name (list ++ vs) := by
    intro vs
    have hskip : Tokens.skipSpace (p ++ vs) = t :: (q ++ vs) := by rw [hpskip, hpq]; rfl
    exact read_of_define hskip hdefine.1 hdefine.2 (by rw [hqskip, hql]; rfl) hword hash
  rw [hread, hread]
  unfold readDefinition
  rw [happ ys (hheads ys (by simp)), happ zs (hheads zs (by simp))]
  dsimp only
  rw [hvalue]

/-- A gap behind the front of a directive may be any gap. -/
def AnyGap (hash : Token) (front : List Token) : Prop :=
  ∀ {g g' t ts}, Gap g → Gap g' → t.kind.isTrivia = false →
    read hash (front ++ (g ++ t :: ts)) = read hash (front ++ (g' ++ t :: ts))

/-- **A directive with a gap in the value** of its macro is read as it is with any other gap. -/
theorem anyGap_of_value (h : behindParams? rest = some (us ++ (g ++ t :: vs))) (hg : Gap g)
    (ht : t.kind.isTrivia = false)
    (hvalue : (value .start (us ++ (g ++ t :: vs))).2 <:+ vs) :
    ∃ front, rest = front ++ (g ++ t :: vs) ∧ ∀ hash, AnyGap hash front := by
  have hline : ∀ n ∈ (us ++ (g ++ t :: vs)).head?, n.kind ≠ .newline := by
    intro n hn hk
    obtain ⟨more, hmore⟩ := List.head?_eq_some_iff.mp hn
    rw [hmore, value_of_ends hk rfl, ← hmore] at hvalue
    have hle := hvalue.length_le
    simp only [List.length_append, List.length_cons] at hle
    omega
  obtain ⟨front, rfl, hread⟩ := exists_front_of_behindParams? h (by simp) hline
  obtain ⟨v', hv'⟩ := value_gap hg ht hvalue
  refine ⟨front ++ us, by simp, fun hash g₁ g₂ t' vs' hg₁ hg₂ ht' => ?_⟩
  have hhead : ∀ {g' ys}, Gap g' → Tokens.headKind (us ++ (g' ++ ys)) = .punct .lParen →
      Tokens.headKind (us ++ (g ++ t :: vs)) = .punct .lParen := by
    intro g' ys hg' hk
    cases us with
    | nil =>
      rw [List.nil_append] at hk
      rcases hg'.headKind ys with hh | hh <;> cases hh.symm.trans hk
    | cons u us => exact hk
  rw [List.append_assoc, List.append_assoc]
  refine hread hash (fun ys hys => ?_) ((hv' hg₁ ht').trans (hv' hg₂ ht').symm)
  simp only [List.mem_cons, List.not_mem_nil, or_false] at hys
  rcases hys with rfl | rfl
  · exact hhead hg₁
  · exact hhead hg₂

/-! ## The tokens of a value -/

theorem behindParams?_suffix (h : behindParams? rest = some us) : us <:+ rest := by
  unfold behindParams? at h
  split at h
  · cases h
  next t ts ht =>
  split at h
  case isFalse => cases h
  split at h
  · cases h
  next name behind hname =>
  split at h
  case isFalse => cases h
  obtain rfl := Option.some.inj h
  exact (paramList_suffix behind).trans ((Tokens.tail_suffix_of_skipSpace hname).trans
    (Tokens.tail_suffix_of_skipSpace ht))

theorem mem_of_mem_valueTokens (h : t ∈ valueTokens rest) : t ∈ rest := by
  unfold valueTokens at h
  split at h
  · next us hus => exact (behindParams?_suffix hus).mem (List.mem_of_mem_take h)
  · cases h

/-- Two tokens of a value, one behind the other, stand where the value is read, and it does not end
in front of the second one. -/
theorem exists_of_mem_valueTokens (hn : rest.Nodup) (hs : w :: t :: vs <:+ rest)
    (hw : w ∈ valueTokens rest) (ht : t ∈ valueTokens rest) :
    ∃ us, behindParams? rest = some (us ++ w :: t :: vs) ∧
      (value .start (us ++ w :: t :: vs)).2 <:+ vs := by
  unfold valueTokens at hw ht
  cases hus : behindParams? rest with
  | none =>
    rw [hus] at hw
    cases hw
  | some us =>
    rw [hus] at hw ht
    dsimp only at hw ht
    have husuffix := behindParams?_suffix hus
    obtain ⟨taken, htaken⟩ := value_suffix .start us
    generalize hafter : (value .start us).2 = after at hw ht htaken
    subst htaken
    have htake : (taken ++ after).take ((taken ++ after).length - after.length) = taken := by
      simp
    rw [htake] at hw ht
    obtain ⟨a, b, rfl⟩ := List.append_of_mem hw
    have hassoc : a ++ w :: b ++ after = a ++ w :: (b ++ after) := by simp
    rw [hassoc] at husuffix hafter ⊢
    have hsame := Tokens.eq_of_cons_suffix hn hs ((List.suffix_append a _).trans husuffix)
    rw [← hsame] at hafter ⊢
    refine ⟨a, rfl, ?_⟩
    rw [hafter]
    cases b with
    | nil =>
      -- the second token would stand both in the value and behind it
      have hnodup := husuffix.sublist.nodup hn
      rw [← hsame] at hnodup
      obtain ⟨-, hback, hapart⟩ := List.nodup_append.mp hnodup
      rcases List.mem_append.mp ht with hmem | hmem
      · exact absurd rfl (hapart t hmem t (by simp))
      · rw [List.mem_singleton.mp hmem] at hback
        exact absurd List.mem_cons_self (List.nodup_cons.mp hback).1
    | cons u b =>
      rw [(List.cons.inj hsame).2]
      exact List.suffix_append b after

end HeaderOutline.Construct.Directive
