import HeaderOutline.Proofs.Known
import HeaderOutline.Proofs.Parameters.Cut
import HeaderOutline.Proofs.Template.Lead
import HeaderOutline.Text.Unicode

/-! # The parameters of an entity

A template keeps the parameters of all lists in front of its declaration, in their order.  Those of
a list whose brackets pair up are the pieces between the commas that no bracket encloses
(`parse_template_parameters`).  Otherwise they need not be: in parentheses a comparison is taken
for a bracket (`parse_comparison_hides_comma`).
-/
namespace HeaderOutline

namespace Construct.Template

/-- The parameter lists that some tokens start with, each behind its keyword. -/
def lists : List Token → List (List Token)
  | [] => []
  | t :: ts =>
    if t.kind = .keyword .templateKw then
      match _h : Tokens.angles? (Tokens.skipTrivia ts) with
      | none => []
      | some (list, after) => list :: lists (Tokens.skipGap after)
    else []
termination_by ts => ts.length
decreasing_by
  exact Nat.lt_succ_of_le (((Tokens.skipGap_suffix after).trans
    (Tokens.angles?_suffix _h)).trans (Tokens.skipTrivia_suffix ts)).length_le

variable {texts parameters : List Text} {ts : List Token} {c : Clauses}

/-- **Each list contributes its own parameters**, behind those of the lists before it. -/
theorem params_of_clauses (h : clauses texts parameters ts = .ok c) :
    c.params = parameters ++ (lists ts).flatMap fun list => params (Token.textOf list) := by
  fun_induction clauses texts parameters ts with
  | case1 =>
    obtain rfl := Except.ok.inj h
    simp [lists]
  | case2 | case3 => cases h
  | case4 texts parameters t ts hk list hl taken after ha text ih =>
    rw [lists, if_pos (eq_of_beq hk), ih h, List.append_assoc]
    split
    · next hn => cases ha.symm.trans hn
    · next hs =>
      obtain ⟨rfl, rfl⟩ := Prod.mk.inj (Option.some.inj (ha.symm.trans hs))
      rfl
  | case5 texts parameters t ts hk =>
    obtain rfl := Except.ok.inj h
    rw [lists, if_neg (by simpa using hk), List.flatMap_nil, List.append_nil]

/-- The lists that are read start with an angle bracket and end where it is closed. -/
theorem angles?_of_mem_lists (h : clauses texts parameters ts = .ok c) {list : List Token}
    (hl : list ∈ lists ts) :
    ∃ us after, us <:+ ts ∧ Tokens.headKind us = .punct .lt ∧
      Tokens.angles? us = some (list, after) := by
  fun_induction clauses texts parameters ts with
  | case1 =>
    rw [lists] at hl
    cases hl
  | case2 | case3 => cases h
  | case4 texts parameters t ts hk inner hlt taken after ha text ih =>
    have hs := (Tokens.skipTrivia_suffix ts).trans (List.suffix_cons t ts)
    rw [lists, if_pos (eq_of_beq hk)] at hl
    split at hl
    · cases hl
    · next hsome =>
      obtain ⟨rfl, rfl⟩ := Prod.mk.inj (Option.some.inj (ha.symm.trans hsome))
      rcases List.mem_cons.mp hl with rfl | hl
      · exact ⟨_, _, hs, by simpa using hlt, ha⟩
      · obtain ⟨us, behind, hus, hhead, hangles⟩ := ih h hl
        exact ⟨us, behind, hus.trans (((Tokens.skipGap_suffix after).trans
          (Tokens.angles?_suffix ha)).trans hs), hhead, hangles⟩
  | case5 texts parameters t ts hk =>
    rw [lists, if_neg (by simpa using hk)] at hl
    cases hl

/-- **A list whose brackets pair up** contributes the pieces between its commas. -/
theorem params_of_mem_lists (h : clauses texts parameters ts = .ok c)
    (hspelled : ∀ t ∈ ts, ∀ p, t.kind = .punct p → t.text = p.spelling) {list : List Token}
    (hl : list ∈ lists ts) (hp : Paired list) :
    params (Token.textOf list) = parametersOf list := by
  obtain ⟨us, after, hus, hlt, hangles⟩ := angles?_of_mem_lists h hl
  refine params_eq_parametersOf hangles hlt (fun t ht => hspelled t (hus.mem ?_)) hp
  exact Tokens.angles?_append hangles ▸ List.mem_append_left after ht

/-- A template keeps the parameters of its lists. -/
theorem draft_template {ds : Definitions} {keyword : Token} {behind rest : List Token}
    {item : Item} {d : Draft} (hk : keyword.kind = .keyword .templateKw)
    (h : read ds keyword behind = .read item rest) (hd : item.draft? = some d) :
    ∃ c, clauses [] [] (keyword :: behind) = .ok c ∧ d.template = some c.params := by
  unfold read at h
  cases hc : clauses [] [] (keyword :: behind) with
  | error o =>
    rw [hc] at h
    obtain ⟨_, _, _, rfl⟩ := clauses_fails hc
    cases h
  | ok c =>
    rw [hc] at h
    obtain ⟨s, more, htexts⟩ := exists_texts hc hk
    have hempty := isEmpty_joinWith htexts
    obtain ⟨item', -, hled⟩ := readDeclaration_led
      ⟨keyword, Text.joinWith [' '] c.texts, some c.params⟩ hempty h
      fun he => absurd (hempty.symm.trans he) Bool.false_ne_true
    refine ⟨c, rfl, ?_⟩
    cases hled with
    | entity hled =>
      obtain rfl := Option.some.inj hd
      exact hled.template
    | scope hled =>
      obtain rfl := Option.some.inj hd
      exact hled.template

end Construct.Template

/-- Documentation was found where a documentation comment stands. -/
def DocComment.IsFound (ts : List Token) (c : DocComment) : Prop :=
  ∃ t behind, t :: behind <:+ ts ∧ t.kind = .docComment ∧ (c.span.getD .origin).start = t.start

/-- Documentation that nothing follows starts with a documentation comment. -/
theorem Building.isFound_of_run {policy : Recovery.Policy} {merge : Bool} {size : Nat}
    {b done : Building} {ts : List Token} (hb : b.pending = none)
    (hr : run policy merge size b ts = .ok done) : ∀ c ∈ done.pending, c.IsFound ts := by
  have hstart : ∀ c ∈ b.pending, c.IsFound ts := by
    intro c hc
    cases hb.symm.trans hc
  refine pending_of_run hstart (fun ds t behind c rest hs ho => ?_) hr
  have hcovers := Construct.read_covers ds merge t behind
  rw [ho] at hcovers
  obtain ⟨hk, last, -, hspan⟩ := hcovers
  exact ⟨t, behind, hs, hk, by rw [hspan]; rfl⟩

open Construct.Template in
/-- **Template parameters are the pieces between commas.**  An entity that starts with a template
clause keeps the parameters of all lists in front of its declaration, one list after the other.
If the brackets of a list pair up to its last comma, its parameters are the pieces of its tokens
between the commas that stand in no bracket, each on one line, without the empty ones. -/
theorem parse_template_parameters [Alphabet] {options : Options} {file : String} {source : Text}
    {o : Outline} {i : EntityId} {e : Entity} (h : parse options file source = .ok o) (hi : 0 < i)
    (he : o.get? i = some e) :
    let us := Tokens.since e.sourceRange.start.offset (Token.scan options.limits source).dropLast
    Tokens.headKind us = .keyword .templateKw →
      e.template = some ((lists us).flatMap fun list => params (Token.textOf list)) ∧
      ∀ list ∈ lists us, Paired list → params (Token.textOf list) = parametersOf list := by
  intro us htemplate
  obtain ⟨hany, done, hrun, rfl⟩ := parse_eq_ok_iff.mp h
  have hord : Span.Ordered ((Token.scan options.limits source).dropLast.map Token.span) :=
    Token.ordered_scan hany
  rcases Building.get?_of_finish he with ⟨q, children, hq, rfl⟩ | ⟨c, hc, -, -, _, _, rfl⟩
  · obtain ⟨b, ts, t, behind, item, rest, d, hreach, -, hmakes⟩ :=
      Building.exists_made_of_run hrun hq hi
    have hsuffix := hmakes.suffix hreach.suffix
    have hus : us = t :: behind := hmakes.since_start hord hsuffix
    rw [hus] at htemplate ⊢
    have hread : read b.definitions t behind = .read item rest := by
      have hread := hmakes.read
      unfold Construct.read at hread
      rwa [show t.kind = .keyword .templateKw from htemplate] at hread
    obtain ⟨c, hclauses, hd⟩ := draft_template htemplate hread hmakes.draft
    refine ⟨?_, fun list hl hp => params_of_mem_lists hclauses (fun u hu p hk => ?_) hl hp⟩
    · exact (hmakes.becomes.template.trans hd).trans
        (congrArg some ((params_of_clauses hclauses).trans (List.nil_append _)))
    · exact Token.text_of_scan (List.dropLast_subset _ (hsuffix.mem hu)) hk
  · -- what nothing follows is a comment
    obtain ⟨t, behind, ⟨front, hfront⟩, hk, hstart⟩ :=
      Building.isFound_of_run rfl hrun c hc
    have hus : us = t :: behind := by
      have hplace : us = Tokens.since t.start.offset (front ++ t :: behind) :=
        congrArg₂ (fun (p : Position) ts => Tokens.since p.offset ts) hstart hfront.symm
      rw [← hfront] at hord
      rw [hplace, hord.since_start]
    rw [hus] at htemplate
    cases hk.symm.trans htemplate

open Construct.Template in
/-- Parameters of two lists, of which one ends together with a list in it. -/
theorem parse_template_parameters_nested :
    let source : Text :=
      "template <class K, class V = M<K, int>> template <int N = f(1, 2)> void g();".toList
    ∃ o e, parse .standard "a.h" source = .ok o ∧ o.get? 1 = some e ∧
      (∀ list ∈ lists (Tokens.since e.sourceRange.start.offset
        (Token.scan Options.standard.limits source).dropLast), Paired list) ∧
      e.template = some ["class K".toList, "class V = M<K, int>".toList, "int N = f(1, 2)".toList] ∧
      e.template = some ((lists (Tokens.since e.sourceRange.start.offset
        (Token.scan Options.standard.limits source).dropLast)).flatMap parametersOf) := by
  intro source
  obtain ⟨o, h, hread⟩ := exists_of_toOption_any (x := parse .standard "a.h" source)
    (p := fun o => (o.get? 1).any fun e =>
      let us := Tokens.since e.sourceRange.start.offset
        (Token.scan Options.standard.limits source).dropLast
      Tokens.headKind us == .keyword .templateKw && (lists us).all (fun l => decide (Paired l)) &&
        e.template == some ["class K".toList, "class V = M<K, int>".toList,
          "int N = f(1, 2)".toList])
    (by unfold source; decide +kernel)
  obtain ⟨e, he, hread⟩ := (Option.any_eq_true ..).mp hread
  simp only [Bool.and_eq_true, beq_iff_eq, List.all_eq_true, decide_eq_true_eq] at hread
  obtain ⟨⟨hhead, hpaired⟩, htemplate⟩ := hread
  obtain ⟨hparams, hlists⟩ := parse_template_parameters h (by decide : 0 < 1) he hhead
  refine ⟨o, e, h, he, hpaired, htemplate, hparams.trans (congrArg some ?_)⟩
  exact List.flatMap_congr fun list hl => hlists list hl (hpaired list hl)

open Construct.Template in
/-- In parentheses a comparison is taken for a bracket that stays open, so that the comma behind
them is not seen. -/
theorem parse_comparison_hides_comma :
    let source : Text := "template <bool B = (a < b), typename T> void f();".toList
    ∃ o e, parse .standard "a.h" source = .ok o ∧ o.get? 1 = some e ∧
      e.template = some ["bool B = (a < b), typename T".toList] ∧
      (lists (Tokens.since e.sourceRange.start.offset
        (Token.scan Options.standard.limits source).dropLast)).flatMap parametersOf
          = ["bool B = (a < b)".toList, "typename T".toList] := by
  intro source
  obtain ⟨o, h, hread⟩ := exists_of_toOption_any (x := parse .standard "a.h" source)
    (p := fun o => (o.get? 1).any fun e =>
      e.template == some ["bool B = (a < b), typename T".toList] &&
      (lists (Tokens.since e.sourceRange.start.offset
        (Token.scan Options.standard.limits source).dropLast)).flatMap parametersOf
          == ["bool B = (a < b)".toList, "typename T".toList])
    (by unfold source; decide +kernel)
  obtain ⟨e, he, hread⟩ := (Option.any_eq_true ..).mp hread
  simp only [Bool.and_eq_true, beq_iff_eq] at hread
  exact ⟨o, e, h, he, hread⟩

end HeaderOutline
