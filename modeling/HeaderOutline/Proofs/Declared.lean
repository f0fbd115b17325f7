import HeaderOutline.Proofs.Regular
import HeaderOutline.Proofs.Sole

/-! # Which routine makes an entity

The routines for functions, variables, type definitions and using declarations give an entity a
signature that is cut from the tokens, and a function may have a body.  All other constructs make
entities of their own kinds, whose header is all that they cover (`Outcome.Plain`).

`Construct.read_source` tells the routines apart: whatever starts a construct, its outcome is
plain, or it is that of one of the other routines, run on the tokens of the construct or on those
behind a template clause or a macro.
-/
namespace HeaderOutline

namespace EntityKind

/-- The kinds of functions and variables. -/
def isDeclared : EntityKind → Bool
  | .function | .method | .constructor | .destructor | .variableDecl | .field => true
  | _ => false

/-- The kinds of entities that are neither declared nor other names for something. -/
def isPlain : EntityKind → Bool
  | .namespaceDecl | .classDecl | .structDecl | .enumDecl | .accessSpecifier | .directive
  | .comment => true
  | _ => false

theorem isDeclared_of_isPlain {k : EntityKind} (h : k.isPlain = true) : k.isDeclared = false := by
  cases k with
  | function | method | constructor | destructor | variableDecl | field => cases h
  | _ => rfl

end EntityKind

/-- An entity of a kind of its own that is nothing but its header. -/
structure Draft.IsPlain (d : Draft) : Prop where
  form : ∃ kind, d.form = .plain kind ∧ kind.isPlain = true
  header : d.headerRange = d.sourceRange
  body : d.body = none

theorem Draft.isPlain_simple {kind : EntityKind} (h : kind.isPlain = true) (name signature : Text)
    (range : Span) : (Draft.simple (.plain kind) name signature range).IsPlain :=
  ⟨⟨kind, rfl, h⟩, rfl, rfl⟩

/-- What is read, if it makes an entity, makes a plain one, and it defines no macro. -/
def Outcome.Plain (o : Outcome) : Prop :=
  o.definition? = none ∧ ∀ item rest, o = .read item rest → ∀ d ∈ item.draft?, d.IsPlain

namespace Outcome

theorem plain_failed (fault : Fault) (ended : Bool) (rest : List Token) :
    (Outcome.failed fault ended rest).Plain :=
  ⟨rfl, fun _ _ h => by cases h⟩

theorem Fails.plain {o : Outcome} (h : o.Fails) : o.Plain := by
  obtain ⟨fault, ended, rest, rfl⟩ := h
  exact plain_failed fault ended rest

/-- What makes no entity is plain. -/
theorem plain_of_draft? {item : Item} (h : item.draft? = none) (rest : List Token) :
    (Outcome.read item rest).Plain := by
  constructor
  · cases item with
    | definition => cases h
    | _ => rfl
  · intro _ _ ho d hd
    obtain ⟨rfl, rfl⟩ := Outcome.read.inj ho
    rw [h] at hd
    cases hd

theorem plain_entity {d : Draft} (h : d.IsPlain) (rest : List Token) :
    (Outcome.read (.entity d) rest).Plain := by
  refine ⟨rfl, fun _ _ ho d' hd => ?_⟩
  obtain ⟨rfl, rfl⟩ := Outcome.read.inj ho
  exact Option.some.inj hd ▸ h

theorem plain_scope {d : Draft} (h : d.IsPlain) (access : Access) (rest : List Token) :
    (Outcome.read (.scope d access) rest).Plain := by
  refine ⟨rfl, fun _ _ ho d' hd => ?_⟩
  obtain ⟨rfl, rfl⟩ := Outcome.read.inj ho
  exact Option.some.inj hd ▸ h

theorem plain_access {d : Draft} (h : d.IsPlain) (level : Access) (rest : List Token) :
    (Outcome.read (.access level d) rest).Plain := by
  refine ⟨rfl, fun _ _ ho d' hd => ?_⟩
  obtain ⟨rfl, rfl⟩ := Outcome.read.inj ho
  exact Option.some.inj hd ▸ h

theorem plain_suspect {d : Draft} (h : d.IsPlain) (w : Warning) (rest : List Token) :
    (Outcome.read (.suspect w d) rest).Plain := by
  refine ⟨rfl, fun _ _ ho d' hd => ?_⟩
  obtain ⟨rfl, rfl⟩ := Outcome.read.inj ho
  exact Option.some.inj hd ▸ h

end Outcome

namespace Construct

open Outcome

/-! ## Plain constructs -/

theorem Comment.read_plain (merge : Bool) (t : Token) (rest : List Token) :
    (read merge t rest).Plain := by
  unfold read
  split
  · split
    · exact plain_of_draft? rfl _
    · exact plain_of_draft? rfl _
  · exact plain_entity (Draft.isPlain_simple rfl ..) _

/-- A directive is plain unless it defines a macro. -/
theorem Directive.read_plain (hash : Token) (rest : List Token) :
    (read hash rest).Plain ∨ ∃ name behind, name :: behind <:+ rest ∧
      read hash rest = readDefinition hash name behind := by
  have hdraft : ∀ kept, (draft hash kept).IsPlain := fun _ => Draft.isPlain_simple rfl ..
  unfold read
  dsimp only
  split
  · exact .inl (plain_entity (hdraft _) _)
  · next t ts ht =>
    split
    · split
      · next name behind hn =>
        split
        · refine .inr ⟨name, behind, ?_, rfl⟩
          exact (hn ▸ Tokens.skipSpace_suffix ts).trans (Tokens.tail_suffix_of_skipSpace ht)
        · exact .inl (plain_suspect (hdraft _) _ _)
      · exact .inl (plain_suspect (hdraft _) _ _)
    · exact .inl (plain_entity (hdraft _) _)

theorem Namespace.read_plain (first : Token) (rest : List Token) : (read first rest).Plain := by
  have hend : ∀ isInline h, (readEnd isInline first rest h).Plain := by
    intro isInline h
    unfold readEnd
    dsimp only
    split
    · unfold readAlias
      dsimp only
      split
      · split
        · exact plain_entity (Draft.isPlain_simple rfl ..) _
        · exact plain_failed ..
      · exact plain_failed ..
    · split
      · exact plain_scope ⟨⟨_, rfl, rfl⟩, rfl, rfl⟩ _ _
      · split
        · exact plain_failed ..
        · exact plain_entity ⟨⟨_, rfl, rfl⟩, rfl, rfl⟩ _
  unfold read
  split
  · split
    · exact hend ..
    · exact plain_failed ..
  · exact hend ..

theorem readAccess_plain (keyword : Token) (level : Access) (rest : List Token) :
    (readAccess keyword level rest).Plain := by
  unfold readAccess
  dsimp only
  split
  · exact plain_access (Draft.isPlain_simple rfl ..) _ _
  · exact plain_failed ..

theorem Class.readEnd_plain (lead : Lead) {kind : EntityKind} (access : Access) (h : Head)
    (hk : kind.isPlain = true) : (readEnd lead kind access h).Plain := by
  have hdraft : ∀ signature name last, (draft lead kind signature name last).IsPlain :=
    fun _ _ _ => ⟨⟨kind, rfl, hk⟩, rfl, rfl⟩
  unfold readEnd
  split
  · split
    · exact plain_failed ..
    · exact plain_entity (hdraft ..) _
  · split
    · exact plain_scope (hdraft ..) _ _
    · split
      · exact plain_entity (hdraft ..) _
      · split
        · exact plain_failed ..
        · exact plain_entity (hdraft ..) _

/-- A class is plain unless it is a declaration that uses one. -/
theorem Class.read_plain_or_declaration (ds : Definitions) (lead : Lead) (keyword : Token)
    (rest : List Token) :
    (read ds lead keyword rest).Plain ∨ (lead.text = [] ∧
      read ds lead keyword rest = Declaration.read ds lead (keyword :: rest)) := by
  unfold read
  split
  · next h =>
    simp only [Bool.and_eq_true, List.isEmpty_iff] at h
    exact .inr ⟨h.1.1, rfl⟩
  · left
    split
    · next he => exact (head_fails he).plain
    · split
      · exact readEnd_plain _ _ _ rfl
      · exact readEnd_plain _ _ _ rfl

theorem Enum.readEnd_plain (lead : Lead) (h : Head) : (readEnd lead h).Plain := by
  have hitem : ∀ signature name last rest,
      (Outcome.read (item lead signature name last) rest).Plain :=
    fun _ _ _ _ => plain_entity (Draft.isPlain_simple rfl ..) _
  unfold readEnd
  split
  · split
    · exact plain_failed ..
    · exact hitem ..
  · split
    · split
      · exact plain_failed ..
      · dsimp only
        split
        · split
          · exact hitem ..
          · exact hitem ..
        · exact hitem ..
    · split
      · exact hitem ..
      · split
        · exact plain_failed ..
        · exact hitem ..

/-- An enum is plain unless it is a declaration that uses one. -/
theorem Enum.read_plain_or_declaration (ds : Definitions) (lead : Lead) (keyword : Token)
    (rest : List Token) :
    (read ds lead keyword rest).Plain ∨ (lead.text = [] ∧
      read ds lead keyword rest = Declaration.read ds lead (keyword :: rest)) := by
  unfold read
  split
  · next h =>
    simp only [Bool.and_eq_true, List.isEmpty_iff] at h
    exact .inr ⟨h.1, rfl⟩
  · left
    split
    · next outcome he =>
      obtain ⟨_, _, _, _, _, rfl⟩ := Head.readClause_eq_error he
      exact plain_failed ..
    · exact readEnd_plain ..

/-! ## All constructs -/

/-- A known macro comes first, and behind it, on the same line, what starts a class or an
enum. -/
def Exports (ds : Definitions) : List Token → Bool
  | word :: rest => word.kind == .ident && ds.contains word.text && (exportedHead? rest).isSome
  | [] => false

/-- A declaration is read from some tokens of a construct: from all of them or, with the first
one remembered, from those behind a template clause or behind a macro that puts nothing in
front. -/
structure LeadsTo (ds : Definitions) (us : List Token) (lead : Lead) (ts : List Token) : Prop where
  first : us.head? = some lead.first
  suffix : ts <:+ us
  bare : lead.template = none → lead.text = [] ∧ (ts = us ∨ Exports ds us = true)

/-- The routine that an outcome comes from. -/
inductive Source (ds : Definitions) (us : List Token) (o : Outcome) : Prop
  | plain (h : o.Plain)
  | definition (hash : Token) (behind : List Token) (hus : us = hash :: behind)
    (ho : o = Directive.read hash behind)
    (hd : ∃ name rest, name :: rest <:+ behind ∧ o = Directive.readDefinition hash name rest)
  | typedefDecl (keyword : Token) (behind : List Token) (hus : us = keyword :: behind)
    (ho : o = Typedef.read keyword behind)
  | usingDecl (lead : Lead) (keyword : Token) (behind : List Token)
    (hl : LeadsTo ds us lead (keyword :: behind)) (hus : lead.template = none →
      us = keyword :: behind) (ho : o = Using.read lead keyword behind)
  | function (lead : Lead) (ts : List Token) (hl : LeadsTo ds us lead ts)
    (ho : o = Function.read ds lead ts)
  | variableDecl (lead : Lead) (ts : List Token) (hl : LeadsTo ds us lead ts)
    (ho : o = Variable.read ds lead ts)

variable {ds : Definitions} {t : Token} {us behind : List Token}

theorem leadsTo_self (ds : Definitions) (t : Token) (behind : List Token) :
    LeadsTo ds (t :: behind) (.none t) (t :: behind) :=
  ⟨rfl, List.suffix_rfl, fun _ => ⟨rfl, .inl rfl⟩⟩

theorem Declaration.read_source {lead : Lead} {ts : List Token} (hl : LeadsTo ds us lead ts) :
    Source ds us (read ds lead ts) := by
  unfold read
  split
  · exact .function lead ts hl rfl
  · exact .variableDecl lead ts hl rfl

theorem Class.read_source (ds : Definitions) (t : Token) (behind : List Token) :
    Source ds (t :: behind) (read ds (.none t) t behind) := by
  rcases read_plain_or_declaration ds (.none t) t behind with hplain | ⟨-, heq⟩
  · exact .plain hplain
  · rw [heq]
    exact Declaration.read_source (leadsTo_self ds t behind)

theorem Enum.read_source (ds : Definitions) (t : Token) (behind : List Token) :
    Source ds (t :: behind) (read ds (.none t) t behind) := by
  rcases read_plain_or_declaration ds (.none t) t behind with hplain | ⟨-, heq⟩
  · exact .plain hplain
  · rw [heq]
    exact Declaration.read_source (leadsTo_self ds t behind)

theorem Template.read_source (ds : Definitions) (keyword : Token) (rest : List Token) :
    Source ds (keyword :: rest) (read ds keyword rest) := by
  have hs := clauses_suffix [] [] (keyword :: rest)
  unfold read
  split
  · next he => exact .plain (clauses_fails he).plain
  · next c hc =>
    rw [hc] at hs
    replace hs : c.rest <:+ keyword :: rest := hs
    have hlead : LeadsTo ds (keyword :: rest)
        ⟨keyword, Text.joinWith [' '] c.texts, some c.params⟩ c.rest := ⟨rfl, hs, nofun⟩
    unfold readDeclaration
    split
    · exact .plain (plain_failed ..)
    · next t behind ht =>
      rw [ht] at hlead
      split
      · rcases Class.read_plain_or_declaration ds
          ⟨keyword, Text.joinWith [' '] c.texts, some c.params⟩ t behind with hplain | ⟨-, heq⟩
        · exact .plain hplain
        · rw [heq]
          exact Declaration.read_source hlead
      · split
        · exact .usingDecl _ t behind hlead nofun rfl
        · split
          · exact .function _ _ hlead rfl
          · split
            · exact .variableDecl _ _ hlead rfl
            · exact .plain (plain_failed ..)

theorem readWord_source (ds : Definitions) {word : Token} (rest : List Token)
    (hk : word.kind = .ident) : Source ds (word :: rest) (readWord ds word rest) := by
  unfold readWord
  split
  · next t behind he =>
    split at he
    · next hknown =>
      have hlead : ∀ text : Text, text = [] →
          LeadsTo ds (word :: rest) ⟨word, text, none⟩ (t :: behind) := by
        refine fun text htext =>
          ⟨rfl, (cons_suffix_of_exportedHead? he).trans (List.suffix_cons word rest), fun _ =>
            ⟨htext, .inr ?_⟩⟩
        simp [Exports, hk, hknown, he]
      dsimp only
      split
      · rcases Enum.read_plain_or_declaration ds ⟨word, (ds.resolve word.text).trim, none⟩ t
          behind with hplain | ⟨htext, heq⟩
        · exact .plain hplain
        · rw [heq]
          exact Declaration.read_source (hlead _ htext)
      · rcases Class.read_plain_or_declaration ds ⟨word, (ds.resolve word.text).trim, none⟩ t
          behind with hplain | ⟨htext, heq⟩
        · exact .plain hplain
        · rw [heq]
          exact Declaration.read_source (hlead _ htext)
    · cases he
  · exact Declaration.read_source (leadsTo_self ds word rest)

/-- **The routine that a construct is read by**: one of the routines for functions, variables,
type definitions, using declarations and macros, or one that makes plain entities at most. -/
theorem read_source (ds : Definitions) (merge : Bool) (t : Token) (behind : List Token) :
    Source ds (t :: behind) (read ds merge t behind) := by
  have hdeclaration : Source ds (t :: behind) (Declaration.read ds (.none t) (t :: behind)) :=
    Declaration.read_source (leadsTo_self ds t behind)
  unfold read
  split
  · rcases Directive.read_plain t behind with hplain | hdef
    · exact .plain hplain
    · exact .definition t behind rfl rfl hdef
  · exact .plain (Comment.read_plain ..)
  · exact .plain (Comment.read_plain ..)
  · exact .plain (Comment.read_plain ..)
  · exact Template.read_source ds t behind
  · exact .plain (Namespace.read_plain ..)
  · split
    · exact .plain (Namespace.read_plain ..)
    · exact hdeclaration
  · exact Class.read_source ds t behind
  · exact Class.read_source ds t behind
  · exact Class.read_source ds t behind
  · exact Enum.read_source ds t behind
  · exact .typedefDecl t behind rfl rfl
  · exact .usingDecl _ t behind (leadsTo_self ds t behind) (fun _ => rfl) rfl
  · exact .plain (readAccess_plain ..)
  · exact .plain (readAccess_plain ..)
  · exact .plain (readAccess_plain ..)
  · exact .plain (plain_of_draft? rfl _)
  · exact .plain (plain_of_draft? rfl _)
  · split
    · exact .plain (plain_of_draft? rfl _)
    · exact hdeclaration
  · next hk => exact readWord_source ds behind hk
  · exact hdeclaration

end Construct
end HeaderOutline
