import HeaderOutline.Proofs.Respaced.Reading
import HeaderOutline.Proofs.Returns.Comment

/-! # Directives read in lines with carriage returns

A directive takes the same tokens whether its lines end in carriage returns or not: one that
stands between a backslash and the line end is white space, which is passed over, and one at the
end of the directive is trivia, which does not count (`extent_returned`).  The value of a macro
does not show carriage returns at all, since all white space is one gap in it
(`value_returned`).
-/
namespace HeaderOutline

open Tokens

/-- A text with carriage returns put into blanks is blank as well. -/
theorem Text.Returned.isEmpty_trim {s s' : Text} (h : Text.Returned s s') :
    s'.trim.isEmpty = s.trim.isEmpty := by
  have htrim := h.trim
  have htight := (Text.trim_tight s').1
  generalize s.trim = t, s'.trim = t' at htrim htight ⊢
  cases htrim with
  | nil => rfl
  | cons c _ => rfl
  | insert _ => cases Text.isBlank_return.symm.trans (htight '\r' rfl)

namespace Construct.Directive

variable {ts us : List Token} {t u : Token} {e e' : Extent} {v v' : Value}

/-! ## Where a directive ends -/

theorem endsBefore_returned (h : t.Returned u) : endsBefore u = endsBefore t := by
  unfold endsBefore
  rw [h.kind]
  by_cases hk : t.kind = .docComment
  · rw [(h.comment (hk ▸ rfl)).isPrefixOf h.plain (by decide) (by decide)]
  · rw [beq_false_of_ne hk, Bool.false_and, Bool.false_and]

theorem endsBefore_of_newline (h : t.kind = .newline) : endsBefore t = true := by
  simp [endsBefore, h]

theorem endsBefore_of_whitespace (h : t.kind = .whitespace) : endsBefore t = false := by
  simp [endsBefore, h]

/-- A backslash takes the line end away in both lists, or in none of them. -/
theorem continuation_returned (h : Returned ts us) :
    Option.Rel (fun vs ws => Returned vs ws ∧
        Text.Returned (Token.textOf (continuation ts)) (Token.textOf (continuation us)))
      (afterContinuation? ts) (afterContinuation? us) := by
  have hspace := h.takeSpace
  unfold afterContinuation? continuation
  rcases h.line_cases with ⟨hts, hus⟩ | ⟨n, n', vs, ws, hts, hus, hn, hn', htext, hmore⟩
  · rw [hts, hus]
    exact .none
  · rw [hts, hus, eat?_of_kind hn, eat?_of_kind hn']
    refine .some ⟨hmore, ?_⟩
    rw [Token.textOf_append, Token.textOf_append]
    refine hspace.append ?_
    rw [List.take_succ_cons, List.take_succ_cons, Token.textOf_cons, Token.textOf_cons, htext]
    exact .refl _

/-! ## Directives of any name -/

/-- A directive as far as it has been read, in lines with carriage returns and without. -/
structure Extent.Returned (e e' : Extent) : Prop where
  kept : Text.Returned (Token.textOf e.kept.reverse) (Token.textOf e'.kept.reverse)
  loose : Text.Returned (Token.textOf e.loose.reverse) (Token.textOf e'.loose.reverse)

theorem Extent.foldl_pass (e : Extent) (ts : List Token) :
    ts.foldl .pass e = ⟨e.kept, ts.reverse ++ e.loose⟩ := by
  induction ts generalizing e with
  | nil => rfl
  | cons t ts ih => simp [ih, Extent.pass]

namespace Extent.Returned

theorem passAll (h : e.Returned e')
    (hs : Text.Returned (Token.textOf ts) (Token.textOf us)) :
    Extent.Returned (ts.foldl .pass e) (us.foldl .pass e') := by
  rw [foldl_pass, foldl_pass]
  exact ⟨h.kept, by simpa using h.loose.append hs⟩

theorem pass (h : e.Returned e') (hs : Text.Returned t.text u.text) :
    (e.pass t).Returned (e'.pass u) := by
  have hall : Extent.Returned ([t].foldl .pass e) ([u].foldl .pass e') :=
    h.passAll (by simpa using hs)
  exact hall

theorem keep (h : e.Returned e') (hs : Text.Returned t.text u.text) :
    (e.keep t).Returned (e'.keep u) :=
  ⟨by simpa [Extent.keep] using (h.kept.append h.loose).append hs, .nil⟩

theorem add (h : e.Returned e') (hk : u.kind = t.kind) (hs : Text.Returned t.text u.text) :
    (e.add t).Returned (e'.add u) := by
  unfold Extent.add
  rw [hk]
  split
  · exact h.pass hs
  · exact h.keep hs

end Extent.Returned

theorem extent_of_ends (h : endsBefore t = true) (e : Extent) (ts : List Token) :
    extent e (t :: ts) = (e, t :: ts) := by
  rw [extent, if_pos h]

theorem extent_of_some {rest : List Token} (h : t.kind = .punct .backslash)
    (hrest : afterContinuation? ts = some rest) (e : Extent) :
    extent e (t :: ts) = extent ((t :: continuation ts).foldl .pass e) rest := by
  have hends : endsBefore t = false := by simp [endsBefore, h]
  rw [extent, if_neg (by simp [hends]), if_pos (by simp [h])]
  split <;> simp_all

theorem extent_of_none (h : t.kind = .punct .backslash) (hrest : afterContinuation? ts = none)
    (e : Extent) : extent e (t :: ts) = extent (e.keep t) ts := by
  have hends : endsBefore t = false := by simp [endsBefore, h]
  rw [extent, if_neg (by simp [hends]), if_pos (by simp [h])]
  split <;> simp_all

theorem extent_of_ne (he : endsBefore t = false) (h : t.kind ≠ .punct .backslash) (e : Extent)
    (ts : List Token) : extent e (t :: ts) = extent (e.add t) ts := by
  rw [extent, if_neg (by simp [he]), if_neg (by simpa using h)]

/-- **A directive** takes the same tokens in lines with carriage returns. -/
theorem extent_returned (h : Returned ts us) (he : e.Returned e') :
    (extent e ts).1.Returned (extent e' us).1 ∧ Returned (extent e ts).2 (extent e' us).2 := by
  fun_induction extent e ts generalizing us e' with
  | case1 e =>
    cases h
    exact ⟨by rwa [extent], by rw [extent]; exact .nil⟩
  | case2 e t ts hends =>
    have h' := h
    cases h with
    | token _ ht _ =>
      rw [extent_of_ends (by rw [endsBefore_returned ht, hends])]
      exact ⟨he, h'⟩
    | space ht => cases (endsBefore_of_whitespace ht).symm.trans hends
    | line _ hu _ _ =>
      rw [extent_of_ends (endsBefore_of_newline hu)]
      exact ⟨he, h'⟩
    | @carriage _ r u _ us ht hr hrs hu hs more =>
      have hreturn : e.Returned (e'.add r) := by
        have hpass : Extent.Returned (List.foldl .pass e []) (List.foldl .pass e' [r]) :=
          he.passAll (by simpa [hrs] using .insert .nil)
        rwa [show e'.add r = [r].foldl .pass e' by simp [Extent.add, hr, Kind.isTrivia]]
      rw [extent_of_ne (endsBefore_of_whitespace hr) (by simp [hr]),
        extent_of_ends (endsBefore_of_newline hu)]
      exact ⟨hreturn, .line ht hu hs more⟩
  | case3 e t ts hends hk rest hrest ih =>
    have hk := eq_of_beq hk
    cases h with
    | @token _ u _ us _ ht more =>
      obtain ⟨rest', hrest', hmore, hgap⟩ := exists_of_rel_some (hrest ▸ continuation_returned more)
      rw [extent_of_some (ht.kind.trans hk) hrest']
      refine ih hmore (he.passAll ?_)
      rw [Token.textOf_cons, Token.textOf_cons]
      exact ht.returned.append hgap
    | space ht => cases hk.symm.trans ht
    | line ht => cases hk.symm.trans ht
    | carriage ht => cases hk.symm.trans ht
  | case4 e t ts hends hk hrest ih =>
    have hk := eq_of_beq hk
    cases h with
    | @token _ u _ us _ ht more =>
      have hrest' := eq_none_of_rel_none (hrest ▸ continuation_returned more)
      rw [extent_of_none (ht.kind.trans hk) hrest']
      exact ih more (he.keep ht.returned)
    | space ht => cases hk.symm.trans ht
    | line ht => cases hk.symm.trans ht
    | carriage ht => cases hk.symm.trans ht
  | case5 e t ts hends hk ih =>
    have hends : endsBefore t = false := by simpa using hends
    have hk : t.kind ≠ .punct .backslash := by simpa using hk
    cases h with
    | token _ ht more =>
      rw [extent_of_ne (by rw [endsBefore_returned ht, hends]) (ht.kind ▸ hk)]
      exact ih more (he.add ht.kind ht.returned)
    | space ht hu hs more =>
      rw [extent_of_ne (endsBefore_of_whitespace hu) (by simp [hu])]
      exact ih more (he.add (hu.trans ht.symm) hs)
    | line ht => cases (endsBefore_of_newline ht).symm.trans hends
    | carriage ht => cases (endsBefore_of_newline ht).symm.trans hends

/-- A directive is named for all of its text, which is the same but for carriage returns. -/
theorem draft_returned (t u : Token) {kept kept' : List Token}
    (h : Text.Returned (Token.textOf kept.reverse) (Token.textOf kept'.reverse)) :
    Draft.Respaced .returning (draft t kept) (draft u kept') where
  form := rfl
  name := h.trim
  name_eq hf := (hf rfl).elim
  isEmpty := h.isEmpty_trim
  signature := h.trim
  flags := rfl
  template := rfl
  body := .none

/-! ## Macro definitions -/

/-- Two dots, with which an ellipsis goes on, and the tokens behind them. -/
def dots? : List Token → Option (Token × Token × List Token)
  | u :: v :: rest =>
    if u.kind == .punct .dot && v.kind == .punct .dot then some (u, v, rest) else none
  | _ => none

theorem dots?_of_ne (h : t.kind ≠ .punct .dot) (ts : List Token) : dots? (t :: ts) = none := by
  cases ts with
  | nil => rfl
  | cons v rest => simp [dots?, h]

theorem dots?_length_lt {x : Token × Token × List Token} (h : dots? ts = some x) :
    x.2.2.length < ts.length := by
  unfold dots? at h
  split at h
  · split at h
    · cases h
      simp only [List.length_cons]
      omega
    · cases h
  · cases h

theorem dots?_of_dot (h : t.kind = .punct .dot) (ts : List Token) :
    dots? (t :: ts) =
      ts.head?.bind fun v => if v.kind == .punct .dot then some (t, v, ts.tail) else none := by
  cases ts with
  | nil => rfl
  | cons v rest => simp [dots?, h]

/-- The dots of an ellipsis stand in both lists, or in none of them. -/
theorem dots?_returned (h : Returned ts us) :
    Option.Rel (fun x y => x.1.Returned y.1 ∧ x.2.1.Returned y.2.1 ∧ Returned x.2.2 y.2.2)
      (dots? ts) (dots? us) := by
  have hne : ∀ {t : Token}, t.kind = .whitespace ∨ t.kind = .newline → t.kind ≠ .punct .dot := by
    rintro t (ht | ht) hk <;> cases ht.symm.trans hk
  cases h with
  | nil => exact .none
  | space ht hu =>
    rw [dots?_of_ne (hne (.inl ht)), dots?_of_ne (hne (.inl hu))]
    exact .none
  | line ht hu =>
    rw [dots?_of_ne (hne (.inr ht)), dots?_of_ne (hne (.inr hu))]
    exact .none
  | carriage ht hr =>
    rw [dots?_of_ne (hne (.inr ht)), dots?_of_ne (hne (.inl hr))]
    exact .none
  | @token t u ts us _ ht more =>
    by_cases hk : t.kind = .punct .dot
    · rw [dots?_of_dot hk, dots?_of_dot (ht.kind.trans hk)]
      cases more with
      | nil => exact .none
      | @token v w ts us _ hv more =>
        simp only [List.head?_cons, Option.bind_some, hv.kind]
        split
        · exact .some ⟨ht, hv, more⟩
        · exact .none
      | space hv hw =>
        simp only [List.head?_cons, Option.bind_some, beq_false_of_ne (hne (.inl hv)),
          beq_false_of_ne (hne (.inl hw))]
        exact .none
      | line hv hw =>
        simp only [List.head?_cons, Option.bind_some, beq_false_of_ne (hne (.inr hv)),
          beq_false_of_ne (hne (.inr hw))]
        exact .none
      | carriage hv hr =>
        simp only [List.head?_cons, Option.bind_some, beq_false_of_ne (hne (.inr hv)),
          beq_false_of_ne (hne (.inl hr))]
        exact .none
    · rw [dots?_of_ne hk, dots?_of_ne (ht.kind ▸ hk)]
      exact .none

/-- One step of reading the parameters of a macro. -/
theorem params_cons (names : List Text) (done : List Token) (t : Token) (ts : List Token) :
    params names done (t :: ts) =
      match t.kind with
      | .punct .rParen => (names, (t :: done).reverse, ts)
      | .newline => (names, done.reverse, t :: ts)
      | .ident => params (names ++ [t.text]) (t :: done) ts
      | .punct .dot =>
        match dots? ts with
        | some (u, v, rest) => params (names ++ ["...".toList]) (v :: u :: t :: done) rest
        | none => params names (t :: done) ts
      | _ => params names (t :: done) ts := by
  conv => lhs; unfold params
  generalize t.kind = k
  split
  · rfl
  · rfl
  · rfl
  · show _ = match dots? ts with
      | some (u, v, rest) => params (names ++ ["...".toList]) (v :: u :: t :: done) rest
      | none => params names (t :: done) ts
    rcases ts with _ | ⟨u, _ | ⟨v, rest⟩⟩
    · rfl
    · rfl
    · by_cases hdots : (u.kind == .punct .dot && v.kind == .punct .dot) = true
      · simp only [dots?, hdots, ↓reduceIte]
      · simp only [dots?, hdots, ↓reduceIte, Bool.false_eq_true]
  · simp_all

theorem params_of_space (h : t.kind = .whitespace) (names : List Text) (done ts : List Token) :
    params names done (t :: ts) = params names (t :: done) ts := by
  rw [params_cons, h]

theorem params_of_newline (h : t.kind = .newline) (names : List Text) (done ts : List Token) :
    params names done (t :: ts) = (names, done.reverse, t :: ts) := by
  rw [params_cons, h]

/-- **The parameters of a macro** are the same, and so is the text of their list but for carriage
returns. -/
theorem params_returned (h : Returned ts us) (names : List Text) {done done' : List Token}
    (hd : Text.Returned (Token.textOf done.reverse) (Token.textOf done'.reverse)) :
    (params names done' us).1 = (params names done ts).1 ∧
      Text.Returned (Token.textOf (params names done ts).2.1)
        (Token.textOf (params names done' us).2.1) ∧
      Returned (params names done ts).2.2 (params names done' us).2.2 := by
  have hpush : ∀ {done done' : List Token} {t u : Token},
      Text.Returned (Token.textOf done.reverse) (Token.textOf done'.reverse) →
      Text.Returned t.text u.text →
      Text.Returned (Token.textOf (t :: done).reverse) (Token.textOf (u :: done').reverse) := by
    intro done done' t u hd hs
    rw [List.reverse_cons, List.reverse_cons, Token.textOf_append, Token.textOf_append]
    exact hd.append (by simpa using hs)
  induction hn : ts.length using Nat.strongRecOn generalizing ts us names done done' with
  | ind n ih =>
    subst hn
    have hwhole := h
    cases h with
    | nil => exact ⟨rfl, hd, .nil⟩
    | space ht hu hs more =>
      rw [params_of_space ht, params_of_space hu]
      exact ih _ (Nat.lt_succ_self _) more _ (hpush hd hs) rfl
    | line ht hu =>
      rw [params_of_newline ht, params_of_newline hu]
      exact ⟨rfl, hd, hwhole⟩
    | @carriage _ r u _ us ht hr hrs hu hs more =>
      rw [params_of_newline ht, params_of_space hr, params_of_newline hu]
      refine ⟨rfl, ?_, .line ht hu hs more⟩
      rw [List.reverse_cons, Token.textOf_append, ← List.append_nil (Token.textOf done.reverse)]
      exact hd.append (by simpa [hrs] using .insert .nil)
    | @token t u ts us fits ht more =>
      have hnext : ∀ names : List Text, _ := fun names =>
        ih _ (Nat.lt_succ_self _) more names (hpush hd ht.returned) rfl
      rw [params_cons, params_cons, ht.kind]
      split
      · exact ⟨rfl, hpush hd ht.returned, more⟩
      · exact ⟨rfl, hd, hwhole⟩
      · next hk =>
        rw [ht.text (by rw [hk]; rfl)]
        exact hnext _
      · cases hdots : dots? ts with
        | none =>
          have hdots' := eq_none_of_rel_none (hdots ▸ dots?_returned more)
          rw [hdots']
          exact hnext _
        | some x =>
          obtain ⟨y, hdots', hfirst, hsecond, hrest⟩ :=
            exists_of_rel_some (hdots ▸ dots?_returned more)
          rw [hdots']
          refine ih _ ?_ hrest _
            (hpush (hpush (hpush hd ht.returned) hfirst.returned) hsecond.returned) rfl
          exact Nat.lt_succ_of_lt (dots?_length_lt hdots)
      · exact hnext _

/-- Values of which the same has been read. -/
structure Value.Returned (v v' : Value) : Prop where
  text : v'.text = v.text
  depth : v'.depth = v.depth
  gap : v'.gap = v.gap

namespace Value.Returned

theorem space (h : v.Returned v') : v.space.Returned v'.space := ⟨h.text, h.depth, rfl⟩

theorem push (h : v.Returned v') (hs : u.text = t.text) : (v.push t).Returned (v'.push u) where
  text := by
    unfold Value.push
    rw [h.text, h.gap, hs]
  depth := h.depth
  gap := rfl

/-- A comment is a gap, so that its text does not count. -/
theorem add (h : v.Returned v') (hk : u.kind = t.kind)
    (hs : t.kind.isTrivia = false → t.kind.isComment = false → u.text = t.text) :
    (v.add t).Returned (v'.add u) := by
  have hbrackets : ∀ n n' : Nat, n' = n →
      Value.Returned { v with depth := n } { v' with depth := n' } :=
    fun _ _ hn => ⟨h.text, hn, h.gap⟩
  unfold Value.add
  rw [hk]
  split <;> rename_i hkind
  case h_10 =>
    refine h.push (hs ?_ ?_)
    · unfold Kind.isTrivia
      split <;> simp_all
    · unfold Kind.isComment
      split <;> simp_all
  all_goals
    rw [hkind] at hs
    first
      | exact h.space
      | exact (hbrackets _ _ (by rw [h.depth])).push (hs rfl rfl)

end Value.Returned

theorem value_of_ends (hk : t.kind = .newline) (hd : v.depth = 0) (ts : List Token) :
    value v (t :: ts) = (v, t :: ts) := by
  rw [value, if_pos (by simp [hk, hd])]

theorem value_of_some {rest : List Token} (h : t.kind = .punct .backslash)
    (hrest : afterContinuation? ts = some rest) (v : Value) :
    value v (t :: ts) = value v.space rest := by
  rw [value, if_neg (by simp [h]), if_pos (by simp [h])]
  split <;> simp_all

theorem value_of_none (h : t.kind = .punct .backslash) (hrest : afterContinuation? ts = none)
    (v : Value) : value v (t :: ts) = value (v.push t) ts := by
  rw [value, if_neg (by simp [h]), if_pos (by simp [h])]
  split <;> simp_all

theorem value_of_ne (hn : t.kind = .newline → v.depth ≠ 0) (h : t.kind ≠ .punct .backslash)
    (ts : List Token) : value v (t :: ts) = value (v.add t) ts := by
  rw [value, if_neg (by simpa using hn), if_neg (by simpa using h)]

/-- **The value of a macro** is the same. -/
theorem value_returned (h : Returned ts us) (hv : v.Returned v') :
    (value v' us).1.text = (value v ts).1.text ∧ Returned (value v ts).2 (value v' us).2 := by
  fun_induction value v ts generalizing us v' with
  | case1 v =>
    cases h
    rw [value]
    exact ⟨hv.text, .nil⟩
  | case2 v t ts hends =>
    obtain ⟨hk, hd⟩ := by simpa using hends
    have hd' : v'.depth = 0 := hv.depth.trans hd
    have h' := h
    cases h with
    | token _ ht _ =>
      rw [value_of_ends (ht.kind.trans hk) hd']
      exact ⟨hv.text, h'⟩
    | space ht => cases hk.symm.trans ht
    | line _ hu _ _ =>
      rw [value_of_ends hu hd']
      exact ⟨hv.text, h'⟩
    | @carriage _ r u _ us ht hr hrs hu hs more =>
      have hspace : v'.add r = v'.space := by simp [Value.add, hr]
      have hd' : v'.space.depth = 0 := hd'
      rw [value_of_ne (by simp [hr]) (by simp [hr]), hspace, value_of_ends hu hd']
      exact ⟨hv.text, .line ht hu hs more⟩
  | case3 v t ts hends hk rest hrest ih =>
    have hk := eq_of_beq hk
    cases h with
    | token _ ht more =>
      obtain ⟨rest', hrest', hmore, -⟩ := exists_of_rel_some (hrest ▸ continuation_returned more)
      rw [value_of_some (ht.kind.trans hk) hrest']
      exact ih hmore hv.space
    | space ht => cases hk.symm.trans ht
    | line ht => cases hk.symm.trans ht
    | carriage ht => cases hk.symm.trans ht
  | case4 v t ts hends hk hrest ih =>
    have hk := eq_of_beq hk
    cases h with
    | token _ ht more =>
      have hrest' := eq_none_of_rel_none (hrest ▸ continuation_returned more)
      rw [value_of_none (ht.kind.trans hk) hrest']
      exact ih more (hv.push (ht.text (by rw [hk]; rfl)))
    | space ht => cases hk.symm.trans ht
    | line ht => cases hk.symm.trans ht
    | carriage ht => cases hk.symm.trans ht
  | case5 v t ts hends hk ih =>
    have hends : t.kind = .newline → v'.depth ≠ 0 := by simpa [hv.depth] using hends
    have hk : t.kind ≠ .punct .backslash := by simpa using hk
    cases h with
    | token _ ht more =>
      rw [value_of_ne (fun hn => hends (ht.kind ▸ hn)) (ht.kind ▸ hk)]
      exact ih more (hv.add ht.kind fun _ hc => ht.text hc)
    | space ht hu hs more =>
      rw [value_of_ne (by simp [hu]) (by simp [hu])]
      exact ih more (hv.add (hu.trans ht.symm) fun hnot _ => by rw [ht] at hnot; cases hnot)
    | line ht hu hs more =>
      rw [value_of_ne (fun _ => hends ht) (by simp [hu])]
      exact ih more (hv.add (hu.trans ht.symm) fun _ _ => hs)
    | carriage ht hr hrs hu hs more =>
      -- the carriage return and the line end are one gap
      have hadd : ∀ {v : Value} {s : Token}, s.kind = .whitespace ∨ s.kind = .newline →
          v.add s = v.space := by
        rintro v s (hs | hs) <;> simp [Value.add, hs]
      have hd : v'.space.depth ≠ 0 := hends ht
      rw [value_of_ne (by simp [hr]) (by simp [hr]), hadd (.inl hr),
        value_of_ne (fun _ => hd) (by simp [hu]), hadd (.inr hu)]
      have hline : (v.add t).Returned v'.space.space := by
        rw [hadd (.inr ht)]
        exact hv.space.space
      exact ih more hline

/-- The list of parameters behind the name of a macro, if there is one. -/
theorem paramList_returned (h : Returned ts us) :
    (paramList us).1 = (paramList ts).1 ∧
      Text.Returned (Token.textOf (paramList ts).2.1) (Token.textOf (paramList us).2.1) ∧
      Returned (paramList ts).2.2 (paramList us).2.2 := by
  have hhead : (headKind us == .punct .lParen) = (headKind ts == .punct .lParen) := by
    cases h with
    | nil => rfl
    | token _ ht => simp [headKind, ht.kind]
    | space ht hu => simp [headKind, ht, hu]
    | line ht hu => simp [headKind, ht, hu]
    | carriage ht hr => simp [headKind, ht, hr]
  have hnil : Text.Returned (Token.textOf [].reverse) (Token.textOf [].reverse) := .nil
  unfold paramList
  rw [hhead]
  split
  · obtain ⟨hnames, hlist, hrest⟩ := params_returned h [] hnil
    exact ⟨congrArg some hnames, hlist, hrest⟩
  · exact ⟨rfl, .nil, h⟩

/-- The definition of a macro is read behind its name. -/
theorem readDefinition_returned (hash hash' : Token) {name name' : Token}
    (hn : name'.text = name.text) (h : Returned ts us) :
    Outcome.Respaced .returning (readDefinition hash name ts) (readDefinition hash' name' us) := by
  obtain ⟨hnames, hlist, hbehind⟩ := paramList_returned h
  have hstart : Value.start.Returned .start := ⟨rfl, rfl, rfl⟩
  obtain ⟨hvalue, hafter⟩ := value_returned hbehind hstart
  unfold readDefinition
  dsimp only
  rw [hn, hvalue, hnames]
  refine .read (.definition _ (fun _ _ => trivial) (Draft.respaced_simple ?_)) hafter.on
  exact (((Text.Returned.refl _).append hlist).append (.refl _)).trimEnd

/-- Trivia is no name of a macro. -/
theorem not_names (h : t.kind.isTrivia = true) :
    ¬(t.kind == .ident || t.kind.isKeyword) = true := by
  revert h
  unfold Kind.isTrivia
  split <;> simp_all [Kind.isKeyword]

theorem not_defines (h : t.kind.isTrivia = true) :
    ¬(t.kind == .ident && t.text == "define".toList) = true := by
  have hnames := not_names h
  simp_all

theorem not_isComment (h : (t.kind == .ident || t.kind.isKeyword) = true) :
    t.kind.isComment = false := by
  unfold Kind.isComment
  split <;> simp_all [Kind.isKeyword]

/-- **A directive is read** in lines with carriage returns as it is without them. -/
theorem read_returned {hash hash' : Token} (hh : hash.Returned hash') (h : Returned ts us) :
    Outcome.Respaced .returning (read hash ts) (read hash' us) := by
  have hhash : Extent.Returned ⟨[hash], []⟩ ⟨[hash'], []⟩ :=
    ⟨by simpa using hh.returned, .nil⟩
  have hstart := hhash.passAll h.takeSpace
  have hrest := h.skipSpace
  unfold read
  dsimp only
  generalize (ts.takeWhile _).foldl Extent.pass ⟨[hash], []⟩ = start,
    (us.takeWhile _).foldl Extent.pass ⟨[hash'], []⟩ = start' at hstart ⊢
  generalize skipSpace ts = vs, skipSpace us = ws at hrest ⊢
  cases vs with
  | nil =>
    cases hrest
    exact .entity (draft_returned _ _ (by simpa using hh.returned)) Returned.nil.on
  | cons t vs =>
    obtain ⟨u, ws, rfl⟩ := hrest.exists_cons
    dsimp only
    rcases hrest.head_cases with ⟨ht, hmore⟩ | ⟨ht, hu⟩
    · have hdef : (u.kind == .ident && u.text == "define".toList)
          = (t.kind == .ident && t.text == "define".toList) := by
        rw [ht.kind]
        by_cases hk : t.kind = .ident
        · rw [ht.text (by rw [hk]; rfl)]
        · rw [beq_false_of_ne hk, Bool.false_and, Bool.false_and]
      rw [hdef]
      split
      · have hkept := hstart.keep ht.returned
        have hgap := hkept.passAll hmore.takeSpace
        have hname := hmore.skipSpace
        generalize skipSpace vs = xs, skipSpace ws = ys at hname ⊢
        cases xs with
        | nil =>
          cases hname
          exact .read (.suspect none none (draft_returned _ _ hkept.kept)) Returned.nil.on
        | cons name xs =>
          obtain ⟨name', ys, rfl⟩ := hname.exists_cons
          obtain ⟨hextent, hafter⟩ := extent_returned hname hgap
          dsimp only
          rcases hname.head_cases with ⟨hn, hbehind⟩ | ⟨hn, hn'⟩
          · rw [hn.kind]
            split
            · next hword =>
              exact readDefinition_returned _ _ (hn.text (not_isComment hword)) hbehind
            · exact .read (.suspect _ _ (draft_returned _ _ hextent.kept)) hafter.on
          · rw [if_neg (not_names hn), if_neg (not_names hn')]
            exact .read (.suspect _ _ (draft_returned _ _ hextent.kept)) hafter.on
      · obtain ⟨hextent, hafter⟩ := extent_returned hrest hstart
        exact .entity (draft_returned _ _ hextent.kept) hafter.on
    · obtain ⟨hextent, hafter⟩ := extent_returned hrest hstart
      rw [if_neg (not_defines ht), if_neg (not_defines hu)]
      exact .entity (draft_returned _ _ hextent.kept) hafter.on

end Construct.Directive

/-- Directives and comments are read alike in lines with carriage returns and without. -/
theorem Respacing.reads_returning (merge : Bool) : Reads .returning merge where
  directive _ _ ht _ more := Construct.Directive.read_returned ht more.returned
  comment _ _ ht hk more := Construct.Comment.read_returned merge ht hk more.returned

end HeaderOutline
