import HeaderOutline.Proofs.Bodies
import HeaderOutline.Proofs.Known
import HeaderOutline.Text.Unicode

/-! # Signatures

The signature of a function or a variable is the text of its header with the macros replaced that
are known where it is made (`Draft.Signs`), as long as nothing is put in front of it.  A type
definition and a using declaration keep the text that they cover.  So the signature of an entity
can be told from the outline, the source and its tokens alone (`parse_signatures`).
-/
namespace HeaderOutline

/-- With no macro at all nothing is replaced. -/
theorem Tokens.substituted_empty (ts : List Token) :
    substituted .empty ts = Token.textOf ts := by
  have hkeep : (fun t : Token => if t.kind == .ident then Definitions.resolve .empty t.text
      else t.text) = Token.text := by
    funext t
    split
    · rfl
    · rfl
  rw [substituted, hkeep]
  rfl

/-- The header of an entity is the front of some tokens, and its signature is the text of the
header with macros replaced. -/
def Draft.Signs (d : Draft) (ds : Definitions) (us : List Token) : Prop :=
  ∃ head after first last, us = head ++ after ∧ head.head? = some first ∧
    head.getLast? = some last ∧ d.headerRange = .between first last ∧
    d.signature = (Tokens.substituted ds head).trimEnd

/-- The text that an entity covers is its signature. -/
def Draft.Quotes (d : Draft) (us : List Token) : Prop :=
  ∃ taken after first last, us = taken ++ after ∧ taken.head? = some first ∧
    taken.getLast? = some last ∧ d.sourceRange = .between first last ∧
    d.signature = Token.textOf taken

/-- With no text in front a signature stays as it is. -/
theorem Lead.onto_of_text_nil {lead : Lead} (h : lead.text = []) (signature : Text) :
    lead.onto signature = signature := by
  simp [onto, h]

namespace Construct

variable {ds : Definitions} {lead : Lead} {keyword t : Token} {us ts rest behind : List Token}
  {item : Item} {d : Draft}

/-- What opens some tokens opens the front of them, unless that is empty. -/
theorem head?_of_append {head after : List Token} {last : Token} (h : us = head ++ after)
    (hus : us.head? = some t) (hlast : head.getLast? = some last) : head.head? = some t := by
  cases head with
  | nil => cases hlast
  | cons u more =>
    rw [h] at hus
    exact hus

/-- A function whose name nothing precedes signs with its header. -/
theorem Function.draft_signs (hfirst : ts.head? = some lead.first) (htext : lead.text = [])
    (h : read ds lead ts = .read item rest) (hd : item.draft? = some d) : d.Signs ds ts := by
  obtain ⟨p, name, head, last, stop, body, rfl, hlast, hcut⟩ := exists_of_read h
  obtain rfl := Option.some.inj hd
  obtain ⟨after, happ⟩ : ∃ after, ts = head ++ after := by
    rcases hcut with ⟨hts, -⟩ | ⟨_, _, _, hts, -⟩
    · exact ⟨_, hts⟩
    · exact ⟨_, hts⟩
  refine ⟨head, after, lead.first, last, happ, head?_of_append happ hfirst hlast, hlast, ?_,
    Lead.onto_of_text_nil htext _⟩
  rw [draft, List.getLastD_eq_getLast?, hlast, Option.getD_some]

theorem Variable.draft_signs (hfirst : ts.head? = some lead.first) (htext : lead.text = [])
    (h : read ds lead ts = .read item rest) (hd : item.draft? = some d) : d.Signs ds ts := by
  obtain ⟨flags, name, taken, last, happ, hlast, rfl⟩ := exists_of_read h
  obtain rfl := Option.some.inj hd
  exact ⟨taken, rest, lead.first, last, happ, head?_of_append happ hfirst hlast, hlast, rfl,
    Lead.onto_of_text_nil htext _⟩

theorem Typedef.draft_quotes (h : read keyword behind = .read item rest)
    (hd : item.draft? = some d) : d.Quotes (keyword :: behind) := by
  obtain ⟨name, taken, last, happ, hlast, rfl⟩ := exists_of_read h
  obtain rfl := Option.some.inj hd
  exact ⟨taken, rest, keyword, last, happ, head?_of_append happ rfl hlast, hlast, rfl, rfl⟩

theorem Using.draft_quotes (hfirst : lead.first = keyword) (htext : lead.text = [])
    (h : read lead keyword behind = .read item rest) (hd : item.draft? = some d) :
    d.Quotes (keyword :: behind) := by
  obtain ⟨name, taken, last, happ, hlast, rfl⟩ := exists_of_read h
  obtain rfl := Option.some.inj hd
  exact ⟨taken, rest, keyword, last, happ, head?_of_append happ rfl hlast, hlast,
    hfirst ▸ rfl, Lead.onto_of_text_nil htext _⟩

/-- A using declaration keeps the template parameters of what it stands behind. -/
theorem Using.draft_template (h : read lead keyword behind = .read item rest)
    (hd : item.draft? = some d) : d.template = lead.template := by
  obtain ⟨_, _, _, -, -, rfl⟩ := exists_of_read h
  obtain rfl := Option.some.inj hd
  rfl

theorem Function.draft_template (h : read ds lead ts = .read item rest)
    (hd : item.draft? = some d) : d.template = lead.template := by
  obtain ⟨_, _, _, _, _, _, rfl, -⟩ := exists_of_read h
  obtain rfl := Option.some.inj hd
  rfl

theorem Variable.draft_template (h : read ds lead ts = .read item rest)
    (hd : item.draft? = some d) : d.template = lead.template := by
  obtain ⟨_, _, _, _, -, -, rfl⟩ := exists_of_read h
  obtain rfl := Option.some.inj hd
  rfl

/-- **Signatures of functions and variables** without template parameters, unless a macro comes
first that a class or an enum may stand behind. -/
theorem read_signs {merge : Bool} {scope : Entity}
    (h : read ds merge t behind = .read item rest) (hd : item.draft? = some d)
    (hk : (d.form.kindIn scope d.name).isDeclared = true) (ht : d.template = none)
    (hx : Exports ds (t :: behind) = false) : d.Signs ds (t :: behind) := by
  have hplain : ∀ {kind : EntityKind}, d.form = .plain kind → kind.isDeclared = true := by
    intro kind hform
    rwa [hform] at hk
  have hbare : ∀ {lead : Lead} {ts : List Token}, LeadsTo ds (t :: behind) lead ts →
      d.template = lead.template → ts = t :: behind ∧ ts.head? = some lead.first ∧
        lead.text = [] := by
    intro lead ts hl htemplate
    obtain ⟨htext, hts | hexports⟩ := hl.bare (htemplate ▸ ht)
    · exact ⟨hts, hts ▸ hl.first, htext⟩
    · cases hx.symm.trans hexports
  cases read_source ds merge t behind with
  | plain hp =>
    obtain ⟨kind, hform, hkind⟩ := (hp.2 item rest h d hd).form
    cases (EntityKind.isDeclared_of_isPlain hkind).symm.trans (hplain hform)
  | definition hash _ _ _ hdef =>
    obtain ⟨name, after, -, ho⟩ := hdef
    obtain ⟨rfl, -⟩ := Outcome.read.inj (h.symm.trans ho)
    obtain rfl := Option.some.inj hd
    cases hplain rfl
  | typedefDecl keyword _ _ ho => cases hplain (Typedef.draft_form (ho ▸ h) hd)
  | usingDecl lead keyword _ _ _ ho => cases hplain (Using.draft_form (ho ▸ h) hd)
  | function lead ts hl ho =>
    obtain ⟨rfl, hfirst, htext⟩ := hbare hl (Function.draft_template (ho ▸ h) hd)
    exact Function.draft_signs hfirst htext (ho ▸ h) hd
  | variableDecl lead ts hl ho =>
    obtain ⟨rfl, hfirst, htext⟩ := hbare hl (Variable.draft_template (ho ▸ h) hd)
    exact Variable.draft_signs hfirst htext (ho ▸ h) hd

/-- **Signatures of type definitions and using declarations** without template parameters. -/
theorem read_quotes {merge : Bool} {scope : Entity}
    (h : read ds merge t behind = .read item rest) (hd : item.draft? = some d)
    (hk : d.form.kindIn scope d.name = .typedefDecl ∨
      d.form.kindIn scope d.name = .usingDecl ∧ d.template = none) :
    d.Quotes (t :: behind) := by
  have hplain : ∀ {kind : EntityKind}, d.form = .plain kind →
      kind = .typedefDecl ∨ kind = .usingDecl := by
    intro kind hform
    rw [hform] at hk
    exact hk.imp_right And.left
  have hdeclared : d.form.isDeclared ≠ true := by
    intro hform
    have hdec := Form.isDeclared_kindIn hform scope d.name
    rcases hk with hk | ⟨hk, -⟩
    · rw [hk] at hdec
      cases hdec
    · rw [hk] at hdec
      cases hdec
  cases read_source ds merge t behind with
  | plain hp =>
    obtain ⟨kind, hform, hkind⟩ := (hp.2 item rest h d hd).form
    rcases hplain hform with rfl | rfl
    · cases hkind
    · cases hkind
  | definition hash _ _ _ hdef =>
    obtain ⟨name, after, -, ho⟩ := hdef
    obtain ⟨rfl, -⟩ := Outcome.read.inj (h.symm.trans ho)
    obtain rfl := Option.some.inj hd
    rcases hplain rfl with hk | hk
    · cases hk
    · cases hk
  | typedefDecl keyword behind hus ho =>
    rw [hus]
    exact Typedef.draft_quotes (ho ▸ h) hd
  | usingDecl lead keyword behind hl hus ho =>
    have hform := Using.draft_form (ho ▸ h) hd
    have htemplate : lead.template = none := by
      rw [hform] at hk
      rcases hk with hk | ⟨-, hk⟩
      · cases hk
      · exact (Using.draft_template (ho ▸ h) hd).symm.trans hk
    have hfirst := hl.first
    rw [hus htemplate] at hfirst ⊢
    exact Using.draft_quotes (Option.some.inj hfirst).symm (hl.bare htemplate).1 (ho ▸ h) hd
  | function lead ts _ ho => exact absurd (Function.draft_isDeclared (ho ▸ h) hd) hdeclared
  | variableDecl lead ts _ ho => exact absurd (Variable.draft_isDeclared (ho ▸ h) hd) hdeclared

end Construct

/-- **Signatures are the text of the tokens, macros replaced.**  Let `M` be the macros known before
an entity is made.  If the entity is a function or a variable, in whatever scope, that stands
behind no template clause and starts with no macro in front of a class or an enum, then its
signature is the text of the tokens of its header, in which `M` replaces the identifiers, without
the white space at the end; with no macros, it is what the source holds there.  The signature of a
type definition, and that of a using declaration behind no template clause, is what the source
holds in its range, whatever the macros. -/
theorem parse_signatures [Alphabet] {options : Options} {file : String} {source : Text}
    {o : Outline} {i : EntityId} {e : Entity} (h : parse options file source = .ok o) (hi : 0 < i)
    (he : o.get? i = some e) :
    let ts := (Token.scan options.limits source).dropLast
    let M := o.definitionsBefore ts options.definitions i
    (e.kind.isDeclared = true → e.template = none →
      Construct.Exports M (Tokens.since e.sourceRange.start.offset ts) = false →
      e.signature = (Tokens.substituted M (e.headerRange.tokens ts)).trimEnd ∧
      (M = .empty → e.signature = (e.headerRange.slice source).trimEnd)) ∧
    (e.kind = .typedefDecl → e.signature = e.sourceRange.slice source) ∧
    (e.kind = .usingDecl → e.template = none → e.signature = e.sourceRange.slice source) := by
  intro ts M
  obtain ⟨hany, -⟩ := parse_eq_ok_iff.mp h
  have hord : Span.Ordered (ts.map Token.span) := Token.ordered_scan hany
  rcases exists_made_of_parse h hi he with
    ⟨-, c, full, htrailing⟩ | ⟨b, us, t, behind, item, rest, d, hreach, hkeeps, hnext, hmakes⟩
  · -- documentation that nothing follows is a comment
    obtain rfl := Option.some.inj (he.symm.trans htrailing)
    exact ⟨fun hk => (by cases hk), fun hk => (by cases hk), fun hk => (by cases hk)⟩
  · -- what is known in the state that makes the entity can be told from the outline
    have hM : M = b.definitions := by
      have hstart : Building.Knows ts options.definitions
          (.start file source options.definitions) := rfl
      subst hnext
      exact (hstart.reaches hord List.suffix_rfl hreach).definitionsBefore hkeeps
    have hbecomes := hmakes.becomes
    obtain ⟨scope, hkind⟩ := hbecomes.kind
    have hstart := hmakes.since_start hord (hmakes.suffix hreach.suffix)
    obtain ⟨front, hfront⟩ := hmakes.suffix hreach.suffix
    have hquotes : d.Quotes (t :: behind) → e.signature = e.sourceRange.slice source := by
      rintro ⟨taken, after, first, last, hsplit, hfirst, hlast, hrange, hsignature⟩
      rw [hbecomes.signature, hsignature, hbecomes.sourceRange, hrange]
      exact (Token.slice_stretch hany (hsplit ▸ hfront.symm) hfirst hlast).symm
    refine ⟨fun hdeclared htemplate hexports => ?_, fun hk => ?_, fun hk htemplate => ?_⟩
    · rw [hM, hstart] at hexports
      rw [hkind] at hdeclared
      obtain ⟨head, after, first, last, hsplit, hfirst, hlast, hrange, hsignature⟩ :=
        Construct.read_signs hmakes.read hmakes.draft hdeclared
          (hbecomes.template.symm.trans htemplate) hexports
      have hts : ts = front ++ (head ++ after) := hsplit ▸ hfront.symm
      rw [hbecomes.signature, hsignature, hbecomes.headerRange, hrange]
      constructor
      · rw [hM, hts, Span.Ordered.tokens_between (hts ▸ hord) hfirst hlast]
      · intro hempty
        rw [← hM, hempty, Tokens.substituted_empty, Token.slice_stretch hany hts hfirst hlast]
    · rw [hkind] at hk
      exact hquotes (Construct.read_quotes hmakes.read hmakes.draft (.inl hk))
    · rw [hkind] at hk
      exact hquotes (Construct.read_quotes hmakes.read hmakes.draft
        (.inr ⟨hk, hbecomes.template.symm.trans htemplate⟩))

/-- A function behind the definition of a macro that its header uses. -/
theorem parse_signatures_macro :
    let source : Text := "#define API int\nAPI f() ;".toList
    let ts := (Token.scan Options.standard.limits source).dropLast
    ∃ o e, parse .standard "a.h" source = .ok o ∧ o.get? 2 = some e ∧
      e.signature = "int f() ;".toList ∧
      e.signature = (Tokens.substituted (o.definitionsBefore ts Options.standard.definitions 2)
        (e.headerRange.tokens ts)).trimEnd := by
  intro source ts
  have hread : (match parse .standard "a.h" source with
      | .ok o => (o.get? 2).any fun e => e.kind.isDeclared && e.template.isNone &&
          e.signature == "int f() ;".toList &&
          !Construct.Exports (o.definitionsBefore ts Options.standard.definitions 2)
            (Tokens.since e.sourceRange.start.offset ts)
      | .error _ => false) = true := by
    unfold ts source
    decide +kernel
  cases h : parse .standard "a.h" source with
  | error e =>
    rw [h] at hread
    cases hread
  | ok o =>
    rw [h] at hread
    obtain ⟨e, he, hread⟩ := (Option.any_eq_true ..).mp hread
    simp only [Bool.and_eq_true, Option.isNone_iff_eq_none, beq_iff_eq, Bool.not_eq_true'] at hread
    obtain ⟨⟨⟨hkind, htemplate⟩, hsignature⟩, hexports⟩ := hread
    obtain ⟨hdeclared, -⟩ := parse_signatures h (by decide : 0 < 2) he
    exact ⟨o, e, rfl, he, hsignature, (hdeclared hkind htemplate hexports).1⟩

end HeaderOutline
