import HeaderOutline.Construct.Template
import HeaderOutline.Proofs.Swap.Declaration

/-! # Heads with other tokens behind

The heads of classes, enums, namespaces and templates are read alike whatever stands behind the
tokens that the whole construct takes, and so are the constructs.  Only an attribute in front of a
name may run on to the end of all tokens; then there is no name, and nothing is read.
-/
namespace HeaderOutline.Construct

open List (suffix_append_self_iff)
open Tokens (Ahead Guarded lookEnds exists_of_suffix)

variable {k : Kind} {t keyword first : Token} {ts rest p q r m x y : List Token}
  {ds : Definitions} {lead : Lead} {item : Item}

/-! ## Classes and enums -/

namespace Head

variable {h h' : Head}

/-- A head that leaves the tokens behind some others. -/
theorem exists_followed (hs : r ++ x <:+ h.rest) :
    ∃ h' : Head, h = h'.followed x ∧ r <:+ h'.rest := by
  obtain ⟨m, hm, hr⟩ := exists_of_suffix hs
  exact ⟨{ h with rest := m }, by rw [followed, ← hm], hr⟩

theorem readClause_swap {context : Context} (hk : k ∈ lookEnds) (ha : Ahead k h.rest)
    (hx : x = [] ∨ h'.rest ≠ []) (hh : (h.followed x).readClause context = .ok (h'.followed x)) :
    (h.followed y).readClause context = .ok (h'.followed y) ∧ h'.rest ≠ [] := by
  obtain ⟨signature, name, last, ts⟩ := h
  obtain ⟨signature', name', last', ts'⟩ := h'
  obtain ⟨t, rest, rfl⟩ := List.exists_cons_of_ne_nil ha.ne_nil
  simp only [readClause, followed, List.cons_append] at hh ⊢
  split at hh
  · next hc =>
    have hrest := ha.pass_of_kind hk (beq_iff_eq.mp hc) (by decide)
    rw [if_pos hc]
    split at hh
    · cases hh
    · next clause after hclause =>
      obtain ⟨rfl, rfl, rfl, rfl⟩ := Head.mk.inj (Except.ok.inj hh)
      obtain ⟨hsame, hne⟩ := Tokens.clause_swap (y := y) hk hrest hclause hx
      rw [hsame]
      exact ⟨rfl, hne⟩
  · next hc =>
    obtain ⟨rfl, rfl, rfl, hrest⟩ := Head.mk.inj (Except.ok.inj hh)
    have hsame : t :: rest = _ := List.append_cancel_right hrest
    rw [← hsame]
    exact ⟨if_neg hc, List.cons_ne_nil t rest⟩

end Head

namespace Class

theorem readArguments_swap {h h' : Head} (hk : k ∈ lookEnds) (hg : Guarded k p r)
    (ha : Ahead k h.rest) (hs : h.rest <:+ p) (hr : r <:+ h'.rest)
    (hh : readArguments (h.followed x) = .ok (h'.followed x)) :
    readArguments (h.followed y) = .ok (h'.followed y) ∧ Ahead k h'.rest := by
  have htrivia := Ahead.isTrivia_of_lookEnds hk
  obtain ⟨t, rest, ht⟩ := ha.exists_skipTrivia htrivia
  obtain ⟨signature, name, last, ts⟩ := h
  obtain ⟨signature', name', last', ts'⟩ := h'
  dsimp only at ha hs hr ht
  change readArguments ⟨signature, name, last, ts ++ x⟩ = .ok ⟨signature', name', last', ts' ++ x⟩
    at hh
  show readArguments ⟨signature, name, last, ts ++ y⟩ = .ok ⟨signature', name', last', ts' ++ y⟩ ∧ _
  simp only [readArguments, ha.skipTrivia_append htrivia, ht, List.cons_append] at hh ⊢
  split at hh
  · next hc =>
    rw [if_pos hc]
    split at hh
    · cases hh
    · next list after hlist =>
      obtain ⟨rfl, rfl, rfl, rfl⟩ := Head.mk.inj (Except.ok.inj hh)
      have hsame := Tokens.angles?_swap (p := t :: rest) (y := y) hlist
      have hfront : t :: rest <:+ p := (ht ▸ Tokens.skipTrivia_suffix ts).trans hs
      rw [List.cons_append] at hsame
      rw [hsame]
      exact ⟨rfl, hg.angles? (q := t :: rest) hlist hfront hr⟩
  · next hc =>
    obtain ⟨rfl, rfl, rfl, hrest⟩ := Head.mk.inj (Except.ok.inj hh)
    rw [← List.append_cancel_right hrest]
    exact ⟨if_neg hc, ha⟩

/-- A head ends behind the attributes in front of its name. -/
theorem head_suffix_attributes {h : Head} (hh : head ds keyword rest = .ok h) :
    h.rest <:+ Tokens.skipAttributes (Tokens.skipTrivia rest) := by
  unfold head at hh
  dsimp only at hh
  have hnamed := readName_rest_suffix ds
    ⟨keyword.text, [], keyword, Tokens.skipAttributes (Tokens.skipTrivia rest)⟩
  have hargs := (readArguments_suffix (readName ds _)).trans hnamed
  cases ha : readArguments (readName ds _) with
  | error o =>
    rw [ha] at hh
    cases hh
  | ok args =>
    rw [ha] at hargs hh
    have hbases := ((readFinal args).readClause_suffix .classHead).trans
      (readFinal_rest_suffix args)
    rw [show (readFinal args).readClause .classHead = .ok h from hh] at hbases
    exact hbases.trans hargs

/-- A head is the same if its attributes end before the tokens behind. -/
theorem head_swap {h : Head} (hk : k ∈ lookEnds) (hg : Guarded k p r) (ha : Ahead k p)
    (hattr : Tokens.skipAttributes (Tokens.skipTrivia (p ++ x)) = q ++ x) (hq : q ≠ [])
    (hx : x = [] ∨ r ≠ []) (hr : r <:+ h.rest)
    (hh : head ds keyword (p ++ x) = .ok (h.followed x)) :
    head ds keyword (p ++ y) = .ok (h.followed y) ∧ h.rest ≠ [] := by
  have htrivia := Ahead.isTrivia_of_lookEnds hk
  have hrest : x = [] ∨ h.rest ≠ [] := hx.imp_right fun hne hnil =>
    hne (List.suffix_nil.mp (hnil ▸ hr))
  have hrq : r <:+ q := hr.trans (suffix_append_self_iff.mp (hattr ▸ head_suffix_attributes hh))
  unfold head at hh ⊢
  dsimp only at hh ⊢
  rw [hattr] at hh
  rw [ha.skipTrivia_append htrivia] at hattr ⊢
  have hqp : q <:+ p := (suffix_append_self_iff.mp (hattr ▸ Tokens.skipAttributes_suffix _)).trans
    (Tokens.skipTrivia_suffix p)
  obtain ⟨hsame, hahead⟩ := Tokens.skipAttributes_swap (y := y) hk
    (hg.suffix (Tokens.skipTrivia_suffix p)) (ha.skipTrivia htrivia) hattr hq hrq
  rw [hsame]
  -- what is read of the name and behind it leaves the tokens behind as they are
  have hname : ∀ us, readName ds ⟨keyword.text, [], keyword, q ++ us⟩
      = (readName ds ⟨keyword.text, [], keyword, q⟩).followed us :=
    readName_append (h := ⟨keyword.text, [], keyword, q⟩) hk hahead ds
  have hnamed : Ahead k (readName ds ⟨keyword.text, [], keyword, q⟩).rest :=
    ahead_readName hk hahead ds
  have hnp : (readName ds ⟨keyword.text, [], keyword, q⟩).rest <:+ p :=
    (readName_rest_suffix ds _).trans hqp
  rw [hname] at hh ⊢
  generalize readName ds ⟨keyword.text, [], keyword, q⟩ = named at hh hnamed hnp ⊢
  cases hargs : readArguments (named.followed x) with
  | error o =>
    rw [hargs] at hh
    cases hh
  | ok args =>
    rw [hargs] at hh
    change (readFinal args).readClause .classHead = .ok (h.followed x) at hh
    have hsuffix := ((readFinal args).readClause_suffix .classHead).trans
      (readFinal_rest_suffix args)
    rw [hh] at hsuffix
    obtain ⟨args, rfl, hra⟩ := Head.exists_followed (r := h.rest) (x := x) hsuffix
    obtain ⟨hargs', haa⟩ := readArguments_swap (y := y) hk hg hnamed hnp (hr.trans hra) hargs
    rw [readFinal_append hk haa] at hh
    obtain ⟨hbases, hne⟩ := Head.readClause_swap (y := y) hk (ahead_readFinal hk haa) hrest hh
    rw [← readFinal_append hk haa] at hbases
    rw [hargs']
    exact ⟨hbases, hne⟩

/-- Where an attribute runs to the end, the head has no name and nothing is left. -/
theorem head_of_skipAttributes_nil (ds : Definitions) (keyword : Token)
    (h : Tokens.skipAttributes (Tokens.skipTrivia rest) = []) :
    head ds keyword rest = .ok ⟨keyword.text, [], keyword, []⟩ := by
  unfold head
  rw [h]
  rfl

theorem readEnd_swap {h : Head} {kind : EntityKind} {access : Access} (hne : h.rest ≠ [])
    (hr : readEnd lead kind access (h.followed x) = .read item (r ++ x)) :
    readEnd lead kind access (h.followed y) = .read item (r ++ y) := by
  obtain ⟨signature, name, last, ts⟩ := h
  obtain ⟨t, rest, rfl⟩ := List.exists_cons_of_ne_nil hne
  change readEnd lead kind access ⟨signature, name, last, t :: (rest ++ x)⟩ = _ at hr
  show readEnd lead kind access ⟨signature, name, last, t :: (rest ++ y)⟩ = _
  simp only [readEnd] at hr ⊢
  split at hr
  · next hb =>
    obtain ⟨rfl, hrest⟩ := Outcome.read.inj hr
    rw [if_pos hb, List.append_cancel_right hrest]
  · next hb =>
    rw [if_neg hb]
    split at hr
    · next hc =>
      obtain ⟨rfl, hrest⟩ := Outcome.read.inj hr
      rw [if_pos hc, List.append_cancel_right hrest]
    · next hc =>
      rw [if_neg hc]
      split at hr
      · cases hr
      · next hn =>
        obtain ⟨rfl, hrest⟩ := Outcome.read.inj hr
        have hsame : t :: rest = _ := List.append_cancel_right hrest
        rw [if_neg hn, ← hsame]
        rfl

theorem read_swap (hk : k ∈ lookEnds) (hg : Guarded k (keyword :: p) r) (ha : Ahead k p)
    (hp : Declaration.ProbedAlike (keyword :: p) r x y) (hx : x = [] ∨ r ≠ [])
    (hr : read ds lead keyword (p ++ x) = .read item (r ++ x)) :
    read ds lead keyword (p ++ y) = .read item (r ++ y) := by
  unfold read at hr ⊢
  rw [startsWithMacro_append hk ha, Declaration.isElaborated_append hk ha] at hr ⊢
  split at hr
  · next hc =>
    rw [if_pos hc]
    exact Declaration.read_swap (p := keyword :: p) hk hg hp hr
  · next hc =>
    rw [if_neg hc]
    cases hh : head ds keyword (p ++ x) with
    | error o =>
      rw [hh] at hr
      obtain ⟨fault, ended, left, rfl⟩ := head_fails hh
      cases hr
    | ok h =>
      rw [hh] at hr
      have hsuffix : r ++ x <:+ h.rest := by
        dsimp only at hr
        split at hr
        · have hs := readEnd_rest_suffix lead .classDecl .priv h
          rwa [hr] at hs
        · have hs := readEnd_rest_suffix lead .structDecl .pub h
          rwa [hr] at hs
      obtain ⟨h, rfl, hrh⟩ := Head.exists_followed hsuffix
      obtain ⟨q, hattr, hhq⟩ := exists_of_suffix (head_suffix_attributes hh)
      have hq : q ≠ [] := by
        rintro rfl
        rcases hx with rfl | hne
        · rw [head_of_skipAttributes_nil ds keyword (hattr.trans (List.append_nil _))] at hh
          rw [← Except.ok.inj hh] at hr
          dsimp only at hr
          split at hr <;> cases hr
        · exact hne (List.suffix_nil.mp (hrh.trans hhq))
      obtain ⟨hsame, hne⟩ := head_swap (y := y) hk hg.tail ha hattr hq hx hrh hh
      rw [hsame]
      dsimp only at hr ⊢
      split at hr
      · next hkw =>
        rw [if_pos hkw]
        exact readEnd_swap hne hr
      · next hkw =>
        rw [if_neg hkw]
        exact readEnd_swap hne hr

end Class

namespace Enum

/-- The head of an enum in front of its attributes. -/
def inFront (keyword : Token) (rest : List Token) : Head :=
  readScoped ⟨"enum".toList, [], keyword, Tokens.skipTrivia rest⟩

theorem inFront_suffix (keyword : Token) (rest : List Token) :
    (inFront keyword rest).rest <:+ rest :=
  (readScoped_rest_suffix _).trans (Tokens.skipTrivia_suffix rest)

theorem inFront_append (hk : k ∈ lookEnds) (ha : Ahead k p) (keyword : Token) (us : List Token) :
    inFront keyword (p ++ us) = (inFront keyword p).followed us := by
  have htrivia := Ahead.isTrivia_of_lookEnds hk
  rw [inFront, ha.skipTrivia_append htrivia]
  exact readScoped_append (h := ⟨_, _, _, _⟩) hk (ha.skipTrivia htrivia) us

/-- A head is the same if its attributes end before the tokens behind. -/
theorem head_swap (hk : k ∈ lookEnds) (hg : Guarded k p r) (ha : Ahead k p)
    (hattr : Tokens.skipAttributes (inFront keyword (p ++ x)).rest = q ++ x) (hq : q ≠ [])
    (hr : r <:+ q) :
    ∃ h : Head, Ahead k h.rest ∧ h.rest <:+ p ∧ head keyword (p ++ x) = h.followed x ∧
      head keyword (p ++ y) = h.followed y := by
  have hfront : Ahead k (inFront keyword p).rest :=
    ahead_readScoped (h := ⟨_, _, _, _⟩) hk
      (ha.skipTrivia (Ahead.isTrivia_of_lookEnds hk))
  have hsfront := inFront_suffix keyword p
  rw [inFront_append hk ha] at hattr
  have hqp : q <:+ (inFront keyword p).rest :=
    suffix_append_self_iff.mp (hattr ▸ Tokens.skipAttributes_suffix _)
  obtain ⟨hsame, hahead⟩ := Tokens.skipAttributes_swap (y := y) hk (hg.suffix hsfront) hfront hattr
    hq hr
  have hname : ∀ us, readName { (inFront keyword p).followed us with rest := q ++ us }
      = (readName { inFront keyword p with rest := q }).followed us :=
    readName_append (h := { inFront keyword p with rest := q }) hk hahead
  refine ⟨readName { inFront keyword p with rest := q },
    ahead_readName (h := { inFront keyword p with rest := q }) hk hahead,
    (readName_rest_suffix _).trans (hqp.trans hsfront), ?_, ?_⟩
  · show readName { inFront keyword (p ++ x) with
      rest := Tokens.skipAttributes (inFront keyword (p ++ x)).rest } = _
    rw [inFront_append hk ha, hattr, hname]
  · show readName { inFront keyword (p ++ y) with
      rest := Tokens.skipAttributes (inFront keyword (p ++ y)).rest } = _
    rw [inFront_append hk ha]
    show readName { (inFront keyword p).followed y with
      rest := Tokens.skipAttributes ((inFront keyword p).rest ++ y) } = _
    rw [hsame, hname]

/-- Where an attribute runs to the end, the head has no name and nothing is left. -/
theorem head_of_skipAttributes_nil
    (h : Tokens.skipAttributes (inFront keyword rest).rest = []) :
    (head keyword rest).name = [] ∧ (head keyword rest).rest = [] := by
  have hname : (inFront keyword rest).name = [] := by
    unfold inFront readScoped
    split
    · split <;> rfl
    · rfl
  change (readName { inFront keyword rest with
      rest := Tokens.skipAttributes (inFront keyword rest).rest }).name = [] ∧
    (readName { inFront keyword rest with
      rest := Tokens.skipAttributes (inFront keyword rest).rest }).rest = []
  rw [h]
  exact ⟨hname, rfl⟩

/-- Behind the brace that closes the body, only a semicolon matters. -/
theorem readEnd_swap {h : Head} (hg : Guarded k p r) (hs : h.rest <:+ p) (hne : h.rest ≠ [])
    (hr : readEnd lead (h.followed x) = .read item (r ++ x)) :
    readEnd lead (h.followed y) = .read item (r ++ y) := by
  obtain ⟨signature, name, last, ts⟩ := h
  obtain ⟨t, rest, rfl⟩ := List.exists_cons_of_ne_nil hne
  change readEnd lead ⟨signature, name, last, t :: (rest ++ x)⟩ = _ at hr
  show readEnd lead ⟨signature, name, last, t :: (rest ++ y)⟩ = _
  simp only [readEnd] at hr ⊢
  split at hr
  · next hb =>
    rw [if_pos hb]
    cases hblock : Tokens.block? (t :: (rest ++ x)) with
    | none =>
      rw [hblock] at hr
      cases hr
    | some found =>
      obtain ⟨block, after⟩ := found
      rw [hblock] at hr
      dsimp only at hr
      have hafter : r ++ x <:+ after := by
        split at hr
        · next s behind =>
          split at hr
          · exact (Outcome.read.inj hr).2 ▸ List.suffix_cons s behind
          · exact (Outcome.read.inj hr).2 ▸ List.suffix_rfl
        · exact (Outcome.read.inj hr).2 ▸ List.suffix_rfl
      obtain ⟨m, rfl, hm⟩ := exists_of_suffix hafter
      obtain ⟨s, behind, rfl⟩ := List.exists_cons_of_ne_nil
        (hg.block? (q := t :: rest) hblock hs hm).ne_nil
      rw [show Tokens.block? (t :: (rest ++ y)) = _ from
        Tokens.block?_swap (p := t :: rest) hblock]
      dsimp only [List.cons_append] at hr ⊢
      split at hr
      · next hc =>
        obtain ⟨rfl, hrest⟩ := Outcome.read.inj hr
        rw [if_pos hc, List.append_cancel_right hrest]
      · next hc =>
        obtain ⟨rfl, hrest⟩ := Outcome.read.inj hr
        have hsame : s :: behind = _ := List.append_cancel_right hrest
        rw [if_neg hc, ← hsame]
        rfl
  · next hb =>
    rw [if_neg hb]
    split at hr
    · next hc =>
      obtain ⟨rfl, hrest⟩ := Outcome.read.inj hr
      rw [if_pos hc, List.append_cancel_right hrest]
    · next hc =>
      rw [if_neg hc]
      split at hr
      · cases hr
      · next hn =>
        obtain ⟨rfl, hrest⟩ := Outcome.read.inj hr
        have hsame : t :: rest = _ := List.append_cancel_right hrest
        rw [if_neg hn, ← hsame]
        rfl

theorem read_swap (hk : k ∈ lookEnds) (hg : Guarded k (keyword :: p) r) (ha : Ahead k p)
    (hp : Declaration.ProbedAlike (keyword :: p) r x y) (hx : x = [] ∨ r ≠ [])
    (hr : read ds lead keyword (p ++ x) = .read item (r ++ x)) :
    read ds lead keyword (p ++ y) = .read item (r ++ y) := by
  unfold read at hr ⊢
  rw [Declaration.isElaborated_append hk ha] at hr ⊢
  split at hr
  · next hc =>
    rw [if_pos hc]
    exact Declaration.read_swap (p := keyword :: p) hk hg hp hr
  · next hc =>
    rw [if_neg hc]
    cases ht : (head keyword (p ++ x)).readClause .enumHead with
    | error o =>
      rw [ht] at hr
      obtain ⟨_, _, _, _, _, rfl⟩ := Head.readClause_eq_error ht
      cases hr
    | ok typed =>
      rw [ht] at hr
      have hend := readEnd_rest_suffix lead typed
      have htype := (head keyword (p ++ x)).readClause_suffix .enumHead
      have hname := readName_rest_suffix { inFront keyword (p ++ x) with
        rest := Tokens.skipAttributes (inFront keyword (p ++ x)).rest }
      rw [show readEnd lead typed = .read item (r ++ x) from hr] at hend
      rw [ht] at htype
      obtain ⟨typed, rfl, hrt⟩ := Head.exists_followed (x := x) (r := r) hend
      obtain ⟨q, hattr, htq⟩ := exists_of_suffix (htype.trans hname)
      have hq : q ≠ [] := by
        rintro rfl
        rcases hx with rfl | hne
        · obtain ⟨hnone, hleft⟩ := head_of_skipAttributes_nil hattr
          generalize head keyword (p ++ []) = h at ht hnone hleft
          obtain ⟨signature, name, last, left⟩ := h
          dsimp only at hnone hleft
          subst hnone hleft
          rw [← Except.ok.inj ht] at hr
          cases hr
        · exact hne (List.suffix_nil.mp (hrt.trans htq))
      obtain ⟨h, hahead, hhp, hsame, hsame'⟩ :=
        head_swap (y := y) hk hg.tail ha hattr hq (hrt.trans htq)
      rw [hsame] at ht
      have htyped : x = [] ∨ typed.rest ≠ [] := hx.imp_right fun hne hnil =>
        hne (List.suffix_nil.mp (hnil ▸ hrt))
      have htp : typed.rest <:+ p := by
        have hs := (h.followed x).readClause_suffix .enumHead
        rw [ht] at hs
        exact (suffix_append_self_iff.mp hs).trans hhp
      obtain ⟨htype', hne⟩ := Head.readClause_swap (y := y) hk hahead htyped ht
      rw [hsame', htype']
      exact readEnd_swap hg.tail htp hne hr

end Enum

/-! ## Namespaces -/

namespace Namespace

variable {name : Text}

theorem readAlias_swap (hr : readAlias name first (p ++ x) = .read item (r ++ x)) :
    readAlias name first (p ++ y) = .read item (r ++ y) := by
  unfold readAlias at hr ⊢
  cases hpieces : Tokens.upTo aliasStops (first :: (p ++ x)) with
  | mk taken left =>
    rw [hpieces] at hr
    cases left with
    | nil => cases hr
    | cons t behind =>
      dsimp only at hr
      split at hr
      · next ht =>
        obtain ⟨rfl, rfl⟩ := Outcome.read.inj hr
        have hsame := Tokens.upTo_swap (p := first :: p) (y := y) (r := t :: r) hpieces
          (List.cons_ne_nil t r)
        rw [show Tokens.upTo aliasStops (first :: (p ++ y)) = _ from hsame]
        exact if_pos ht
      · cases hr

theorem readEnd_swap (hk : k ∈ lookEnds) {isInline : Bool} {h : Head} (hh : Ahead k h.rest)
    (hr : readEnd isInline first (p ++ x) (h.followed x) = .read item (r ++ x)) :
    readEnd isInline first (p ++ y) (h.followed y) = .read item (r ++ y) := by
  have htrivia := Ahead.isTrivia_of_lookEnds hk
  obtain ⟨name, last, ts⟩ := h
  dsimp only at hh
  have hnext := hh.skipTrivia htrivia
  obtain ⟨brace, behind, hfront⟩ := hh.exists_skipTrivia htrivia
  change readEnd isInline first (p ++ x) ⟨name, last, ts ++ x⟩ = _ at hr
  show readEnd isInline first (p ++ y) ⟨name, last, ts ++ y⟩ = _
  simp only [readEnd, hh.skipTrivia_append htrivia, hnext.headKind_append,
    hnext.eat?_append] at hr ⊢
  split at hr
  · next hc =>
    rw [if_pos hc]
    exact readAlias_swap hr
  · next hc =>
    rw [if_neg hc]
    cases he : Tokens.eat? (.punct .lBrace) (Tokens.skipTrivia ts) with
    | some members =>
      rw [he, hfront] at hr
      rw [hfront]
      obtain ⟨rfl, hrest⟩ := Outcome.read.inj hr
      rw [← List.append_cancel_right hrest]
      rfl
    | none =>
      rw [he] at hr
      dsimp only [Option.map_none] at hr ⊢
      split at hr
      · cases hr
      · next hn =>
        obtain ⟨rfl, hrest⟩ := Outcome.read.inj hr
        rw [if_neg hn, ← List.append_cancel_right hrest]

theorem read_swap (hk : k ∈ lookEnds) (ha : Ahead k p)
    (hn : first.kind = .keyword .inlineKw → Tokens.nextKind p = .keyword .namespaceKw)
    (hr : read first (p ++ x) = .read item (r ++ x)) :
    read first (p ++ y) = .read item (r ++ y) := by
  have htrivia := Ahead.isTrivia_of_lookEnds hk
  have hfront := ha.skipTrivia htrivia
  unfold read at hr ⊢
  split at hr
  · next hf =>
    rw [if_pos hf, ha.skipTrivia_append htrivia]
    rw [ha.skipTrivia_append htrivia] at hr
    obtain ⟨keyword, behind, ht⟩ := ha.exists_skipTrivia htrivia
    have hkeyword : keyword.kind = .keyword .namespaceKw := by
      have hnext := hn (beq_iff_eq.mp hf)
      rwa [Tokens.nextKind, ht] at hnext
    rw [ht] at hr hfront ⊢
    have hbehind := (hfront.pass_of_kind hk hkeyword (by decide)).skipTrivia htrivia
    dsimp only [List.cons_append] at hr ⊢
    rw [(hfront.pass_of_kind hk hkeyword (by decide)).skipTrivia_append htrivia,
      readName_append hk hbehind] at hr ⊢
    exact readEnd_swap hk (ahead_readName hk hbehind _ _) hr
  · next hf =>
    rw [if_neg hf, ha.skipTrivia_append htrivia, readName_append hk hfront]
    rw [ha.skipTrivia_append htrivia, readName_append hk hfront] at hr
    exact readEnd_swap hk (ahead_readName hk hfront _ _) hr

end Namespace

/-! ## Templates -/

namespace Template

/-- The parameter lists that end before other tokens. -/
theorem clauses_swap (hk : k ∈ lookEnds) (hg : Guarded k p r) (ha : Ahead k p)
    {texts parameters : List Text} {c : Clauses}
    (hc : clauses texts parameters (p ++ x) = .ok c) (hr : r ++ x <:+ c.rest) :
    ∃ m, m <:+ p ∧ Ahead k m ∧ c.rest = m ++ x ∧
      clauses texts parameters (p ++ y) = .ok { c with rest := m ++ y } := by
  have htrivia := Ahead.isTrivia_of_lookEnds hk
  have hgap : (k.isTrivia || k.isComment) = false := by
    simp only [lookEnds, List.mem_cons, List.not_mem_nil, or_false] at hk
    rcases hk with rfl | rfl <;> rfl
  induction hn : p.length using Nat.strongRecOn generalizing p texts parameters with
  | ind n ih =>
    subst hn
    obtain ⟨t, ts, rfl⟩ := List.exists_cons_of_ne_nil ha.ne_nil
    rw [List.cons_append, clauses] at hc ⊢
    split at hc
    · next ht =>
      have hts := ha.pass_of_kind hk (beq_iff_eq.mp ht) (by decide)
      have hfront := hts.skipTrivia htrivia
      rw [if_pos ht]
      simp only [hts.skipTrivia_append htrivia, hfront.headKind_append] at hc ⊢
      split at hc
      · cases hc
      · next hlist =>
        rw [if_neg hlist]
        split at hc
        · cases hc
        · next taken after hangles =>
          rw [hts.skipTrivia_append htrivia] at hangles
          have hsuffix := clauses_suffix (texts ++ ["template ".toList ++ Token.textOf taken])
            (parameters ++ params (Token.textOf taken)) (Tokens.skipGap after)
          rw [hc] at hsuffix
          obtain ⟨m, rfl, hm⟩ := exists_of_suffix
            (hr.trans (hsuffix.trans (Tokens.skipGap_suffix after)))
          have hfp : Tokens.skipTrivia ts <:+ t :: ts :=
            (Tokens.skipTrivia_suffix ts).trans (List.suffix_cons t ts)
          have hahead := hg.angles? hangles hfp hm
          have hmp : m <:+ ts := (suffix_append_self_iff.mp (Tokens.angles?_suffix hangles)).trans
            (Tokens.skipTrivia_suffix ts)
          have hsame := Tokens.angles?_swap (y := y) hangles
          rw [← hts.skipTrivia_append htrivia] at hsame
          have hback : Ahead k (Tokens.skipGap m) := hahead.dropWhile fun u hu => by
            rintro rfl
            cases hgap.symm.trans hu
          rw [hahead.skipGap_append hgap] at hc
          split
          · next hnone => cases hsame.symm.trans hnone
          · next hsome =>
            obtain ⟨rfl, rfl⟩ := Prod.mk.inj (Option.some.inj (hsame.symm.trans hsome))
            rw [hahead.skipGap_append hgap]
            have hlt : (Tokens.skipGap m).length < (t :: ts).length :=
              Nat.lt_succ_of_le ((Tokens.skipGap_suffix m).trans hmp).length_le
            have hsp : Tokens.skipGap m <:+ t :: ts :=
              ((Tokens.skipGap_suffix m).trans hmp).trans (List.suffix_cons t ts)
            obtain ⟨m', hm', hrest⟩ := ih _ hlt (hg.suffix hsp) hback hc rfl
            exact ⟨m', hm'.trans hsp, hrest⟩
    · next ht =>
      obtain rfl := Except.ok.inj hc
      rw [if_neg ht]
      exact ⟨t :: ts, List.suffix_rfl, ha, rfl, rfl⟩

theorem readDeclaration_swap (hk : k ∈ lookEnds) (hg : Guarded k q r) (ha : Ahead k q)
    (hp : Declaration.ProbedAlike q r x y) (hx : x = [] ∨ r ≠ [])
    (hr : readDeclaration ds lead (q ++ x) = .read item (r ++ x)) :
    readDeclaration ds lead (q ++ y) = .read item (r ++ y) := by
  obtain ⟨t, rest, rfl⟩ := List.exists_cons_of_ne_nil ha.ne_nil
  simp only [readDeclaration, List.cons_append] at hr ⊢
  split at hr
  · next hc =>
    rw [if_pos hc]
    have hclass : t.kind = .keyword .classKw ∨ t.kind = .keyword .structKw ∨
        t.kind = .keyword .unionKw := by
      simpa [or_assoc] using hc
    have hrest : r <:+ rest := by
      have hs := @Class.read_rest_suffix ds lead t (rest ++ x)
        (by rcases hclass with h | h | h <;> simp [h])
        (by rcases hclass with h | h | h <;> simp [h])
      rw [hr] at hs
      exact suffix_append_self_iff.mp hs
    have hahead : Ahead k rest := by
      rcases hclass with h | h | h
      · exact hg.behind List.suffix_rfl hrest h (by decide)
      · exact hg.behind List.suffix_rfl hrest h (by decide)
      · exact hg.behind List.suffix_rfl hrest h (by decide)
    exact Class.read_swap hk hg hahead hp hx hr
  · next hc =>
    rw [if_neg hc]
    split at hr
    · next hu =>
      rw [if_pos hu]
      exact Using.read_swap hr
    · next hu =>
      rw [if_neg hu]
      -- a function and a variable are read as any declaration is
      have hsame : Declaration.read ds lead (t :: rest ++ x) = .read item (r ++ x) →
          Declaration.isFunction (t :: (rest ++ y)) = Declaration.isFunction (t :: (rest ++ x)) :=
        fun h => hp (t :: rest) ds lead item r List.suffix_rfl h List.suffix_rfl
      split at hr
      · next hf =>
        rw [if_pos ((hsame ((if_pos hf).trans hr)).trans hf)]
        exact Function.read_swap (p := t :: rest) hk hg hr
      · next hf =>
        split at hr
        · next hv =>
          rw [hsame ((if_neg hf).trans hr), if_neg hf, if_pos hv]
          exact Variable.read_swap (p := t :: rest) hk hg hr
        · cases hr

theorem read_swap (hk : k ∈ lookEnds) (hg : Guarded k (keyword :: p) r) (ha : Ahead k p)
    (hp : Declaration.ProbedAlike (keyword :: p) r x y) (hx : x = [] ∨ r ≠ [])
    (hr : read ds keyword (p ++ x) = .read item (r ++ x)) :
    read ds keyword (p ++ y) = .read item (r ++ y) := by
  unfold read at hr ⊢
  cases hc : clauses [] [] (keyword :: (p ++ x)) with
  | error o =>
    rw [hc] at hr
    obtain ⟨_, _, _, rfl⟩ := clauses_fails hc
    cases hr
  | ok c =>
    rw [hc] at hr
    have hsuffix : r ++ x <:+ c.rest := by
      have hs := readDeclaration_rest_suffix ds
        ⟨keyword, Text.joinWith [' '] c.texts, some c.params⟩ c.rest
      rwa [show readDeclaration ds _ c.rest = _ from hr] at hs
    obtain ⟨m, hm, hahead, hrest, hsame⟩ := clauses_swap (p := keyword :: p) (y := y) hk hg
      (ha.of_suffix (List.suffix_cons keyword p)) hc hsuffix
    rw [show clauses [] [] (keyword :: (p ++ y)) = _ from hsame]
    dsimp only at hr ⊢
    rw [hrest] at hr
    exact readDeclaration_swap hk (hg.suffix hm) hahead (hp.suffix hm) hx hr

end Template
end HeaderOutline.Construct
