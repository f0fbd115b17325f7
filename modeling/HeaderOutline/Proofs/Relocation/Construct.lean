import HeaderOutline.Proofs.Relocation.Head

/-! # Relocated constructs

Comments and directives, and with them all constructs: what a construct amounts to with
relocated tokens is what it amounts to, relocated, as long as it passes no token that is not
kept (`Construct.read_relocated`).
-/
namespace HeaderOutline.Construct

variable {r : Relocation} {us : List Token}

/-! ## Comments -/

namespace Comment

@[simp] theorem lineMark?_token (r : Relocation) (t : Token) :
    lineMark? (r.token t).text = lineMark? t.text := by
  have hslash := r.isPrefixOf_text_token ['/'] t
  have hbang := r.isPrefixOf_text_token ['!'] t
  have hmarks : ["///".toList, "//!".toList] = [['/', '/', '/'], ['/', '/', '!']] := rfl
  simp only [lineMark?, hmarks, List.find?_cons, List.find?_nil, hslash, hbang]

/-- A mark of a line of documentation. -/
theorem lineMark?_slashes {text mark : Text} (h : lineMark? text = some mark) :
    ∃ m, mark = '/' :: '/' :: m := by
  have hm : mark = "///".toList ∨ mark = "//!".toList := by
    simpa using List.mem_of_find?_eq_some h
  rcases hm with rfl | rfl
  · exact ⟨['/'], rfl⟩
  · exact ⟨['!'], rfl⟩

theorem nextLine?_map (r : Relocation) (mark : Text) (ts : List Token) :
    nextLine? ('/' :: '/' :: mark) (ts.map r.token)
      = (nextLine? ('/' :: '/' :: mark) ts).map (Prod.map r.token (·.map r.token)) := by
  unfold nextLine?
  rw [Tokens.skipSpace_map, Tokens.eat?_map]
  cases Tokens.eat? .newline (Tokens.skipSpace ts) with
  | none => rfl
  | some line =>
    simp only [Option.map_some, Tokens.skipSpace_map]
    cases Tokens.skipSpace line with
    | nil => rfl
    | cons t after =>
      simp only [List.map_cons, Relocation.kind_token, r.isPrefixOf_text_token]
      split <;> rfl

/-- Lines of documentation are the same if their tokens are kept. -/
theorem mergeLines_relocated {mark raw : Text} {last : Token} {ts : List Token} (hs : ts <:+ us)
    (hk : r.KeepsTo us (mergeLines ('/' :: '/' :: mark) raw last ts).2.2) :
    mergeLines ('/' :: '/' :: mark) raw (r.token last) (ts.map r.token) =
      ((mergeLines ('/' :: '/' :: mark) raw last ts).1,
        r.token (mergeLines ('/' :: '/' :: mark) raw last ts).2.1,
        (mergeLines ('/' :: '/' :: mark) raw last ts).2.2.map r.token) := by
  generalize hm : '/' :: '/' :: mark = m at hk ⊢
  fun_induction mergeLines m raw last ts with
  | case1 raw last ts t after h ih =>
    subst hm
    have hmap := (nextLine?_map r mark ts).trans (congrArg _ h)
    have hafter := (nextLine?_suffix h).trans hs
    have htext : (r.token t).text = t.text :=
      (hk t ((Passed.of_cons hafter).leave (mergeLines_suffix ..))).text
    rw [mergeLines]
    split
    · next hsome =>
      obtain ⟨rfl, rfl⟩ := Prod.mk.inj (Option.some.inj (hmap.symm.trans hsome))
      rw [htext]
      exact ih ((List.suffix_cons t after).trans hafter) hk
    · next hnone => cases hmap.symm.trans hnone
  | case2 raw last ts h =>
    subst hm
    have hmap := (nextLine?_map r mark ts).trans (congrArg _ h)
    rw [mergeLines]
    split
    · next hsome => cases hmap.symm.trans hsome
    · rfl

theorem documentation_relocated (raw : Text) (first : Token) {last : Token}
    (hlast : r.Keeps last) :
    documentation raw (r.token first) (r.token last)
      = (documentation raw first last).map r.doc := by
  simp only [documentation, hlast.between, Option.map_map]
  rfl

theorem read_relocated {merge : Bool} {t : Token} {rest : List Token}
    (hk : r.KeepsTo (t :: rest) (read merge t rest).rest) :
    read merge (r.token t) (rest.map r.token) = r.outcome (read merge t rest) := by
  have ht : r.Keeps t := hk.head (read_rest_suffix merge t rest)
  simp only [read, Relocation.kind_token, lineMark?_token] at hk ⊢
  by_cases hd : (t.kind == .docComment) = true
  · simp only [hd, ↓reduceIte] at hk ⊢
    cases hm : (if merge then lineMark? t.text else none) with
    | none =>
      rw [ht.text, documentation_relocated _ t ht]
      rfl
    | some mark =>
      simp only [hm] at hk
      obtain ⟨m, rfl⟩ : ∃ m, mark = '/' :: '/' :: m := by
        split at hm
        · exact lineMark?_slashes hm
        · cases hm
      have hlast := hk _ (mergeLines_last (.head List.suffix_rfl))
      simp only [mergeLines_relocated (List.suffix_cons t rest) hk, ht.text,
        documentation_relocated _ t hlast]
      rfl
  · simp only [hd, ht.text, ht.between, ↓reduceIte, Bool.false_eq_true, Relocation.outcome,
      Relocation.item, Relocation.draft_simple]

end Comment

/-! ## Directives -/

namespace Directive

@[simp] theorem afterContinuation?_map (r : Relocation) (rest : List Token) :
    afterContinuation? (rest.map r.token) = (afterContinuation? rest).map (·.map r.token) := by
  simp only [afterContinuation?, Tokens.skipSpace_map, Tokens.eat?_map]

@[simp] theorem continuation_map (r : Relocation) (rest : List Token) :
    continuation (rest.map r.token) = (continuation rest).map r.token := by
  simp [continuation]

@[simp] theorem endsBefore_token (r : Relocation) (t : Token) :
    endsBefore (r.token t) = endsBefore t := by
  have hmark : "//".toList = ['/', '/'] := rfl
  simp only [endsBefore, Relocation.kind_token, hmark, r.isPrefixOf_text_token]

/-- The tokens of a directive. -/
def Extent.relocate (r : Relocation) (e : Extent) : Extent :=
  ⟨e.kept.map r.token, e.loose.map r.token⟩

@[simp] theorem Extent.keep_relocate (r : Relocation) (e : Extent) (t : Token) :
    (e.relocate r).keep (r.token t) = (e.keep t).relocate r := by
  simp [keep, relocate]

@[simp] theorem Extent.add_relocate (r : Relocation) (e : Extent) (t : Token) :
    (e.relocate r).add (r.token t) = (e.add t).relocate r := by
  unfold add
  rw [Relocation.kind_token]
  split
  · rfl
  · exact keep_relocate r e t

@[simp] theorem Extent.foldl_pass_relocate (r : Relocation) (e : Extent) (ts : List Token) :
    (ts.map r.token).foldl pass (e.relocate r) = (ts.foldl pass e).relocate r := by
  induction ts generalizing e with
  | nil => rfl
  | cons t ts ih => exact ih (e.pass t)

@[simp] theorem extent_relocate (r : Relocation) (e : Extent) (ts : List Token) :
    extent (e.relocate r) (ts.map r.token)
      = ((extent e ts).1.relocate r, (extent e ts).2.map r.token) := by
  fun_induction extent e ts with
  | case1 => simp [extent]
  | case2 e t ts h =>
    rw [List.map_cons, extent, if_pos (by simpa using h)]
  | case3 e t ts h hb rest hc ih =>
    have hmap := (afterContinuation?_map r ts).trans (congrArg _ hc)
    rw [List.map_cons, extent, if_neg (by simpa using h), Relocation.kind_token, if_pos hb]
    split
    · next hsome =>
      obtain rfl := Option.some.inj (hmap.symm.trans hsome)
      rw [← ih, continuation_map, ← List.map_cons, Extent.foldl_pass_relocate]
    · next hnone => cases hmap.symm.trans hnone
  | case4 e t ts h hb hc ih =>
    have hmap := (afterContinuation?_map r ts).trans (congrArg _ hc)
    rw [List.map_cons, extent, if_neg (by simpa using h), Relocation.kind_token, if_pos hb]
    split
    · next hsome => cases hmap.symm.trans hsome
    · rw [Extent.keep_relocate, ih]
  | case5 e t ts h hb ih =>
    rw [List.map_cons, extent, if_neg (by simpa using h), Relocation.kind_token, if_neg hb,
      Extent.add_relocate, ih]

/-- The entity of a directive is the relocated one if its tokens are kept. -/
theorem draft_relocated {hash : Token} {kept : List Token} (hkept : ∀ t ∈ kept, r.Keeps t)
    (hlast : r.Keeps (kept.headD hash)) :
    draft (r.token hash) (kept.map r.token) = r.draft (draft hash kept) := by
  have htext := Relocation.textOf_map fun t ht => hkept t (List.mem_reverse.mp ht)
  simp only [draft, ← List.map_reverse, htext, Relocation.headD_map, hlast.between,
    Relocation.draft_simple]

/-! ## Macro definitions -/

@[simp] theorem params_map (f : Token → Token) [Token.Alike f] (names : List Text)
    (done ts : List Token) :
    params names (done.map f) (ts.map f)
      = ((params names done ts).1, (params names done ts).2.1.map f,
        (params names done ts).2.2.map f) := by
  fun_induction params names done ts with
  | case1 => simp [params]
  | case2 names done t ts hk =>
    rw [List.map_cons, params.eq_def]
    simp only [Token.Alike.kind (f := f), hk, ← List.map_cons, List.map_reverse]
  | case3 names done t ts hk =>
    rw [List.map_cons, params.eq_def]
    simp only [Token.Alike.kind (f := f), hk, List.map_reverse]
  | case4 names done t ts hk ih =>
    have htext := Token.Alike.text (f := f) (t := t) (by simp [hk])
    rw [List.map_cons, params.eq_def]
    simp only [Token.Alike.kind (f := f), hk, htext]
    exact ih
  | case5 names done t hk u v rest hc ih =>
    rw [List.map_cons, params.eq_def]
    simp only [List.map_cons, Token.Alike.kind (f := f), hk, hc, ↓reduceIte]
    exact ih
  | case6 names done t hk u v rest hc ih =>
    rw [List.map_cons, params.eq_def]
    simp only [List.map_cons, Token.Alike.kind (f := f), hk, hc, ↓reduceIte, Bool.false_eq_true]
    exact ih
  | case7 names done t hk ts hts ih =>
    rw [List.map_cons, params.eq_def]
    simp only [Token.Alike.kind (f := f), hk]
    rcases ts with _ | ⟨u, _ | ⟨v, rest⟩⟩
    · exact ih
    · exact ih
    · exact (hts u v rest rfl).elim
  | case8 names done t ts hr hn hi hd ih =>
    rw [List.map_cons, params.eq_def]
    simp only [Token.Alike.kind (f := f)]
    exact ih

@[simp] theorem paramList_map (r : Relocation) (rest : List Token) :
    paramList (rest.map r.token)
      = ((paramList rest).1, (paramList rest).2.1.map r.token,
        (paramList rest).2.2.map r.token) := by
  unfold paramList
  rw [Tokens.headKind_map]
  split
  · exact congrArg (fun p => (some p.1, p.2)) (params_map r.token [] [] rest)
  · rfl

/-- The value of a macro. -/
def Value.relocate (r : Relocation) (v : Value) : Value := { v with last := v.last.map r.token }

theorem Value.push_relocate (r : Relocation) (v : Value) {t : Token} (h : t.kind ≠ .docComment) :
    (v.relocate r).push (r.token t) = (v.push t).relocate r := by
  simp only [push, relocate, r.text_token h, Option.map_some]

@[simp] theorem Value.add_relocate (r : Relocation) (v : Value) (t : Token) :
    (v.relocate r).add (r.token t) = (v.add t).relocate r := by
  unfold add
  rw [Relocation.kind_token]
  split
  · rfl
  · rfl
  · rfl
  · rfl
  · rfl
  · next hk => exact push_relocate r { v with depth := v.depth + 1 } (t := t) (by simp [hk])
  · next hk => exact push_relocate r { v with depth := v.depth + 1 } (t := t) (by simp [hk])
  · next hk => exact push_relocate r { v with depth := v.depth - 1 } (t := t) (by simp [hk])
  · next hk => exact push_relocate r { v with depth := v.depth - 1 } (t := t) (by simp [hk])
  · next hk _ _ _ _ => exact push_relocate r _ hk

@[simp] theorem value_relocate (r : Relocation) (v : Value) (ts : List Token) :
    value (v.relocate r) (ts.map r.token)
      = ((value v ts).1.relocate r, (value v ts).2.map r.token) := by
  fun_induction value v ts with
  | case1 => simp [value]
  | case2 v t ts h =>
    rw [List.map_cons, value, Relocation.kind_token, if_pos (by exact h)]
  | case3 v t ts h hb rest hc ih =>
    have hmap := (afterContinuation?_map r ts).trans (congrArg _ hc)
    rw [List.map_cons, value, Relocation.kind_token, if_neg (by exact h), if_pos hb]
    split
    · next hsome =>
      obtain rfl := Option.some.inj (hmap.symm.trans hsome)
      exact ih
    · next hnone => cases hmap.symm.trans hnone
  | case4 v t ts h hb hc ih =>
    have hmap := (afterContinuation?_map r ts).trans (congrArg _ hc)
    rw [List.map_cons, value, Relocation.kind_token, if_neg (by exact h), if_pos hb]
    split
    · next hsome => cases hmap.symm.trans hsome
    · rw [Value.push_relocate r v (by simp [eq_of_beq hb]), ih]
  | case5 v t ts h hb ih =>
    rw [List.map_cons, value, Relocation.kind_token, if_neg (by exact h), if_neg hb,
      Value.add_relocate, ih]

theorem readDefinition_relocated {hash name : Token} {rest : List Token} (hs : name :: rest <:+ us)
    (hk : r.KeepsTo us (readDefinition hash name rest).rest) :
    readDefinition (r.token hash) (r.token name) (rest.map r.token)
      = r.outcome (readDefinition hash name rest) := by
  have hlast := hk _ (definition_last hs)
  have happ : [name] ++ (paramList rest).2.1 ++ (paramList rest).2.2 <:+ us := by
    rw [List.append_assoc, paramList_append]
    exact hs
  have hkeeps : ∀ t ∈ [name] ++ (paramList rest).2.1, r.Keeps t := fun t ht =>
    hk t ((Passed.of_append happ ht).leave (value_suffix ..))
  have hname := (hkeeps name (by simp)).text
  have hlist := Relocation.textOf_map fun t ht => hkeeps t (List.mem_append_right _ ht)
  have hstart : Value.start = Value.start.relocate r := rfl
  simp only [readDefinition, paramList_map]
  rw [hstart, value_relocate, ← hstart]
  simp only [Value.relocate, hname, hlist, Relocation.getLastD_map, Option.getD_map, hlast.between]
  rfl

/-- The entity of a directive that is read to its end. -/
theorem extent_draft_relocated {hash : Token} {rest ts : List Token} {e : Extent}
    (hts : ts <:+ rest) (hs : e.tokens.reverse ++ ts = hash :: rest)
    (hk : r.KeepsTo (hash :: rest) (extent e ts).2) :
    draft (r.token hash) (extent (e.relocate r) (ts.map r.token)).1.kept
      = r.draft (draft hash (extent e ts).1.kept) := by
  rw [extent_relocate]
  exact draft_relocated (fun t ht => hk t (mem_kept (hs ▸ List.suffix_rfl) ht))
    (hk _ (headD_kept hts hs))

theorem read_relocated {hash : Token} {rest : List Token}
    (hk : r.KeepsTo (hash :: rest) (read hash rest).rest) :
    read (r.token hash) (rest.map r.token) = r.outcome (read hash rest) := by
  have hhash : r.Keeps hash := hk.head (read_rest_suffix hash rest)
  have hrest := Tokens.space_append rest
  have hstart : ((rest.takeWhile (·.kind == .whitespace)).map r.token).foldl Extent.pass
      ⟨[r.token hash], []⟩ = ((rest.takeWhile (·.kind == .whitespace)).foldl Extent.pass
        ⟨[hash], []⟩).relocate r := Extent.foldl_pass_relocate r ⟨[hash], []⟩ _
  have htokens := Extent.tokens_foldl_pass ⟨[hash], []⟩ (rest.takeWhile (·.kind == .whitespace))
  unfold read at hk ⊢
  rw [Tokens.takeSpace_map, Tokens.skipSpace_map, hstart]
  generalize (rest.takeWhile (·.kind == .whitespace)).foldl Extent.pass ⟨[hash], []⟩ = start
    at hk htokens ⊢
  cases ht : Tokens.skipSpace rest with
  | nil =>
    have hdraft : draft (r.token hash) ([hash].map r.token) = r.draft (draft hash [hash]) :=
      draft_relocated (by simpa using hhash) hhash
    exact congrArg (fun d => Outcome.read (.entity d) []) hdraft
  | cons t ts =>
    have htail := ht ▸ Tokens.skipSpace_suffix rest
    -- the tokens up to the first one that is no white space
    have hfront : start.tokens.reverse ++ t :: ts = hash :: rest := by
      rw [ht] at hrest
      rw [htokens]
      simpa [Extent.tokens] using hrest
    have hword : (t.kind == .ident && (r.token t).text == "define".toList)
        = (t.kind == .ident && t.text == "define".toList) := by
      by_cases hi : t.kind = .ident
      · rw [r.text_token (by simp [hi])]
      · rw [beq_false_of_ne hi, Bool.false_and, Bool.false_and]
    simp only [ht, List.map_cons, Relocation.kind_token, hword] at hk ⊢
    by_cases hd : (t.kind == .ident && t.text == "define".toList) = true
    · simp only [hd, ↓reduceIte, Tokens.takeSpace_map, Tokens.skipSpace_map,
        Extent.keep_relocate, Extent.foldl_pass_relocate] at hk ⊢
      cases hn : Tokens.skipSpace ts with
      | nil =>
        simp only [hn] at hk
        have hs : (start.keep t).kept.reverse ++ ts <:+ hash :: rest := by
          rw [← hfront]
          exact ⟨[], by simp [Extent.keep, Extent.tokens]⟩
        have hkept : ∀ u ∈ (start.keep t).kept, r.Keeps u := fun u hu =>
          hk u ((Passed.of_append hs (List.mem_reverse.mpr hu)).leave List.nil_suffix)
        exact congrArg (fun d => Outcome.read (.suspect (.namelessMacro none) d) [])
          (draft_relocated hkept (hkept t List.mem_cons_self))
      | cons name behind =>
        have hname := hn ▸ Tokens.skipSpace_suffix ts
        have hspace := Tokens.space_append ts
        simp only [hn, List.map_cons, Relocation.kind_token] at hk ⊢
        by_cases hw : (name.kind == .ident || name.kind.isKeyword) = true
        · simp only [hw, ↓reduceIte] at hk ⊢
          have hback := (Tokens.tail_suffix_of_skipSpace ht).trans (List.suffix_cons hash rest)
          exact readDefinition_relocated (hname.trans hback) hk
        · simp only [hw, Bool.false_eq_true, ↓reduceIte] at hk ⊢
          have hdraft := extent_draft_relocated (hname.trans (Tokens.tail_suffix_of_skipSpace ht))
            (by simpa [← hfront, ← hn] using hspace) hk
          have hafter := congrArg Prod.snd (extent_relocate r
            ((ts.takeWhile (·.kind == .whitespace)).foldl Extent.pass (start.keep t))
            (name :: behind))
          rw [List.map_cons] at hdraft hafter
          rw [hdraft, hafter]
          rfl
    · simp only [hd, Bool.false_eq_true, ↓reduceIte] at hk ⊢
      have hdraft := extent_draft_relocated htail hfront hk
      have hafter := congrArg Prod.snd (extent_relocate r start (t :: ts))
      rw [List.map_cons] at hdraft hafter
      rw [hdraft, hafter]
      rfl

end Directive

/-! ## All constructs -/

theorem readAccess_relocated {keyword : Token} {level : Access} {rest : List Token}
    (hk : r.KeepsTo (keyword :: rest) (readAccess keyword level rest).rest) :
    readAccess (r.token keyword) level (rest.map r.token)
      = r.outcome (readAccess keyword level rest) := by
  have hs := (Tokens.skipSpace_suffix rest).trans (List.suffix_cons keyword rest)
  simp only [readAccess, Tokens.skipSpace_map, Tokens.eat?_map, Relocation.headD_map] at hk ⊢
  cases he : Tokens.eat? (.punct .colon) (Tokens.skipSpace rest) with
  | none => exact (r.outcome_unexpected ..).symm
  | some behind =>
    simp only [he] at hk
    -- the colon is the first token that is no white space
    obtain ⟨colon, _, hc⟩ := Tokens.eat?_eq_some_iff.mp he
    rw [hc] at hs
    simp only [Option.map_some, hc, List.headD_cons, (hk colon (.of_cons hs)).between]
    rfl

theorem readClose_relocated (r : Relocation) (brace : Token) (rest : List Token) :
    readClose (r.token brace) (rest.map r.token) = r.outcome (readClose brace rest) := by
  simp only [readClose, Tokens.eat?_map]
  cases Tokens.eat? (.punct .semicolon) rest <;> rfl

@[simp] theorem exportedHead?_map (r : Relocation) (rest : List Token) :
    exportedHead? (rest.map r.token)
      = (exportedHead? rest).map (Prod.map r.token (·.map r.token)) := by
  unfold exportedHead?
  rw [Tokens.skipSpace_map]
  cases Tokens.skipSpace rest with
  | nil => rfl
  | cons t behind =>
    simp only [List.map_cons, Relocation.kind_token, apply_ite (Option.map _)]
    rfl

theorem readWord_relocated {ds : Definitions} {word : Token} {rest : List Token}
    (hword : r.Keeps word) (hk : r.KeepsTo (word :: rest) (readWord ds word rest).rest) :
    readWord ds (r.token word) (rest.map r.token) = r.outcome (readWord ds word rest) := by
  unfold readWord at hk ⊢
  rw [hword.text, exportedHead?_map]
  by_cases hd : ds.contains word.text = true
  · simp only [hd, ↓reduceIte] at hk ⊢
    cases he : exportedHead? rest with
    | none =>
      simp only [he] at hk
      exact Declaration.read_relocated ds hword hk
    | some head =>
      obtain ⟨t, behind⟩ := head
      have hs := (cons_suffix_of_exportedHead? he).trans (List.suffix_cons word rest)
      have hlead : r.Keeps (Lead.mk word (ds.resolve word.text).trim none).first := hword
      simp only [he, Option.map_some, Prod.map_apply, Relocation.kind_token] at hk ⊢
      by_cases hn : (t.kind == .keyword .enumKw) = true
      · simp only [hn, ↓reduceIte] at hk ⊢
        exact Enum.read_relocated hlead (hk.part hs List.suffix_rfl)
      · simp only [hn] at hk ⊢
        exact Class.read_relocated hlead (hk.part hs List.suffix_rfl)
  · simp only [hd] at hk ⊢
    exact Declaration.read_relocated ds hword hk

/-- **What a construct amounts to, and what it leaves, is relocated with its tokens**, if it
passes none that is not kept. -/
theorem read_relocated {ds : Definitions} {merge : Bool} {t : Token} {rest : List Token}
    (hk : r.KeepsTo (t :: rest) (read ds merge t rest).rest) :
    read ds merge (r.token t) (rest.map r.token) = r.outcome (read ds merge t rest) := by
  have ht : r.Keeps t := hk.head (read_rest_suffix ds merge t rest)
  unfold read at hk ⊢
  rw [Relocation.kind_token]
  generalize t.kind = kind at hk ⊢
  split at hk
  · exact Directive.read_relocated hk
  · exact Comment.read_relocated hk
  · exact Comment.read_relocated hk
  · exact Comment.read_relocated hk
  · exact Template.read_relocated ht hk
  · exact Namespace.read_relocated hk
  · simp only [Tokens.nextKind_map]
    by_cases hn : (Tokens.nextKind rest == .keyword .namespaceKw) = true
    · simp only [hn, ↓reduceIte] at hk ⊢
      exact Namespace.read_relocated hk
    · simp only [hn] at hk ⊢
      exact Declaration.read_relocated ds ht hk
  · exact Class.read_relocated ht hk
  · exact Class.read_relocated ht hk
  · exact Class.read_relocated ht hk
  · exact Enum.read_relocated ht hk
  · exact Typedef.read_relocated hk
  · exact Using.read_relocated hk
  · exact readAccess_relocated hk
  · exact readAccess_relocated hk
  · exact readAccess_relocated hk
  · exact readClose_relocated r t rest
  · rfl
  · simp only [Namespace.afterLinkage?_map]
    cases hm : Namespace.afterLinkage? rest with
    | some members => rfl
    | none =>
      simp only [hm] at hk
      exact Declaration.read_relocated ds ht hk
  · exact readWord_relocated ht hk
  · exact Declaration.read_relocated ds ht hk

end HeaderOutline.Construct
