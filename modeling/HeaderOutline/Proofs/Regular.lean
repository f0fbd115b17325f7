import HeaderOutline.Parse
import HeaderOutline.Proofs.Cover

/-! # What constructs amount to

Most of what a construct may amount to is fixed by the routine that reads it, whatever the tokens
are: only an access specifier has the kind of one, and it is named for the level that it sets; a
scope that is opened starts with the level of its kind; and no fault says that a closing brace
closes nothing, since only the reading as a whole can tell (`Item.Regular`,
`Outcome.Regular`).

The main result is `Construct.read_regular`: **every construct is regular**, but for a block of
declarations with a linkage, which opens a scope that belongs to no entity of its own.
-/
namespace HeaderOutline

/-- The access level in a scope of a kind before any specifier. -/
def EntityKind.firstAccess (k : EntityKind) : Access := if k = .classDecl then .priv else .pub

/-- Whether a draft is one of an access specifier. -/
def Draft.IsSpecifier (d : Draft) : Prop := d.form = .plain .accessSpecifier

/-- What is fixed about an item: access specifiers say which level they set, scopes start with the
level of their kind, and no warning is about a brace. -/
def Item.Regular : Item → Prop
  | .entity d | .definition _ d => ¬d.IsSpecifier
  | .suspect w d => ¬d.IsSpecifier ∧ ∀ size, (w.diagnostic size).code ≠ .unexpectedCloser
  | .scope d first =>
    ∃ kind, d.form = .plain kind ∧ kind ≠ .accessSpecifier ∧ first = kind.firstAccess
  | .access level d => d.IsSpecifier ∧ d.name = level.label.toList
  | .linkage => False
  | .close _ | .documentation _ | .nothing => True

/-- What is fixed about an outcome: its item is regular, or its fault is not about a closing brace
that closes nothing. -/
def Outcome.Regular : Outcome → Prop
  | .read item _ => item.Regular
  | .failed fault _ _ => fault.code ≠ .unexpectedCloser

/-- The macro that a construct defines. -/
def Outcome.definition? : Outcome → Option Definition
  | .read (.definition m _) _ => some m
  | _ => none

theorem Outcome.Fails.definition? {o : Outcome} (h : o.Fails) : o.definition? = none := by
  obtain ⟨_, _, _, rfl⟩ := h
  rfl

/-- An entity of its kind is none of another kind. -/
theorem Draft.not_isSpecifier {d : Draft} {kind : EntityKind} (h : d.form = .plain kind)
    (hk : kind ≠ .accessSpecifier) : ¬d.IsSpecifier := by
  intro hs
  rw [IsSpecifier, h] at hs
  exact hk (Form.plain.inj hs)

theorem Outcome.regular_unexpected (context : Context) {code : Code} (rest : List Token)
    (h : code ≠ .unexpectedCloser) : (Outcome.unexpected context code rest).Regular := h

namespace Construct

variable {ds : Definitions} {lead : Lead} {t : Token} {ts rest : List Token}

/-! ## Declarations -/

theorem Typedef.read_regular (keyword : Token) (rest : List Token) :
    (read keyword rest).Regular := by
  unfold read
  split
  · exact Outcome.regular_unexpected _ _ (by decide)
  · split
    · exact fun h => by cases h
    · exact Draft.not_isSpecifier rfl (by decide)

theorem Using.read_regular (lead : Lead) (keyword : Token) (rest : List Token) :
    (read lead keyword rest).Regular := by
  unfold read
  split
  · exact Outcome.regular_unexpected _ _ (by decide)
  · split
    · exact fun h => by cases h
    · exact Draft.not_isSpecifier rfl (by decide)

theorem Variable.read_regular (ds : Definitions) (lead : Lead) (ts : List Token) :
    (read ds lead ts).Regular := by
  unfold read
  split
  · exact Outcome.regular_unexpected _ _ (by decide)
  · dsimp only
    split
    · exact fun h => by cases h
    · exact fun h => by cases h

/-- A function is a function, a destructor or a variable. -/
theorem Function.draft_not_isSpecifier (p : Progress) (name : Text) (head : List Token)
    (last : Token) (body : Option Body) : ¬(draft ds lead p name head last body).IsSpecifier := by
  intro h
  change p.form = .plain .accessSpecifier at h
  unfold Progress.form at h
  by_cases hp : p.pointer = true
  · rw [if_pos hp] at h
    cases h
  · rw [if_neg hp] at h
    by_cases hd : p.destructor = true
    · rw [if_pos hd] at h
      cases h
    · rw [if_neg hd] at h
      cases h

theorem Function.read_regular (ds : Definitions) (lead : Lead) (ts : List Token) :
    (read ds lead ts).Regular := by
  unfold read
  split
  · exact Outcome.regular_unexpected _ _ (by decide)
  · exact fun h => by cases h
  · split
    · exact fun h => by cases h
    · exact draft_not_isSpecifier _ _ _ _ _
  · split
    · exact fun h => by cases h
    · split
      · exact fun h => by cases h
      · exact draft_not_isSpecifier _ _ _ _ _

theorem Declaration.read_regular (ds : Definitions) (lead : Lead) (ts : List Token) :
    (read ds lead ts).Regular := by
  unfold read
  split
  · exact Function.read_regular ds lead ts
  · exact Variable.read_regular ds lead ts

/-! ## Comments and directives -/

theorem Comment.read_regular (merge : Bool) (t : Token) (rest : List Token) :
    (read merge t rest).Regular := by
  unfold read
  split
  · split
    · trivial
    · trivial
  · exact Draft.not_isSpecifier rfl (by decide)

theorem Directive.read_regular (hash : Token) (rest : List Token) :
    (read hash rest).Regular := by
  unfold read
  dsimp only
  split
  · exact Draft.not_isSpecifier rfl (by decide)
  · split
    · split
      · split
        · exact Draft.not_isSpecifier rfl (by decide)
        · exact ⟨Draft.not_isSpecifier rfl (by decide), fun _ h => by cases h⟩
      · exact ⟨Draft.not_isSpecifier rfl (by decide), fun _ h => by cases h⟩
    · exact Draft.not_isSpecifier rfl (by decide)

/-! ## Scopes -/

theorem Head.readClause_error {context : Context} {h : Head} {o : Outcome}
    (he : h.readClause context = .error o) : o.Regular := by
  unfold readClause at he
  split at he
  · split at he
    · split at he
      · obtain rfl := Except.error.inj he
        exact Outcome.regular_unexpected _ _ (by decide)
      · cases he
    · cases he
  · cases he

namespace Class

theorem readArguments_error {h : Head} {o : Outcome} (he : readArguments h = .error o) :
    o.Regular := by
  unfold readArguments at he
  split at he
  · split at he
    · split at he
      · obtain rfl := Except.error.inj he
        exact fun h => by cases h
      · cases he
    · cases he
  · cases he

theorem head_error {keyword : Token} {o : Outcome} (he : head ds keyword rest = .error o) :
    o.Regular := by
  unfold head at he
  dsimp only at he
  generalize readName ds _ = named at he
  cases ha : readArguments named with
  | error o' =>
    rw [ha] at he
    obtain rfl := Except.error.inj he
    exact readArguments_error ha
  | ok h =>
    rw [ha] at he
    exact Head.readClause_error he

theorem readEnd_regular {kind : EntityKind} {access : Access} (h : Head)
    (hk : kind ≠ .accessSpecifier) (ha : access = kind.firstAccess) :
    (readEnd lead kind access h).Regular := by
  unfold readEnd
  split
  · split
    · exact Outcome.regular_unexpected _ _ (by decide)
    · exact Draft.not_isSpecifier rfl hk
  · split
    · exact ⟨kind, rfl, hk, ha⟩
    · split
      · exact Draft.not_isSpecifier rfl hk
      · split
        · exact Outcome.regular_unexpected _ _ (by decide)
        · exact Draft.not_isSpecifier rfl hk

theorem read_regular (ds : Definitions) (lead : Lead) (keyword : Token) (rest : List Token) :
    (read ds lead keyword rest).Regular := by
  unfold read
  split
  · exact Declaration.read_regular ds lead _
  · split
    · next o he => exact head_error he
    · split
      · exact readEnd_regular _ (by decide) rfl
      · exact readEnd_regular _ (by decide) rfl

end Class

theorem Enum.read_regular (ds : Definitions) (lead : Lead) (keyword : Token)
    (rest : List Token) : (read ds lead keyword rest).Regular := by
  have hitem : ∀ signature name last, (item lead signature name last).Regular :=
    fun _ _ _ => Draft.not_isSpecifier rfl (by decide)
  unfold read
  split
  · exact Declaration.read_regular ds lead _
  · split
    · next o he =>
      obtain ⟨t, behind, after, -, -, rfl⟩ := Head.readClause_eq_error he
      exact Outcome.regular_unexpected _ _ (by decide)
    · unfold readEnd
      split
      · split
        · exact Outcome.regular_unexpected _ _ (by decide)
        · exact hitem _ _ _
      · split
        · split
          · exact fun h => by cases h
          · dsimp only
            split
            · split
              · exact hitem _ _ _
              · exact hitem _ _ _
            · exact hitem _ _ _
        · split
          · exact hitem _ _ _
          · split
            · exact Outcome.regular_unexpected _ _ (by decide)
            · exact hitem _ _ _

namespace Namespace

theorem readAlias_regular (name : Text) (first : Token) (rest : List Token) :
    (readAlias name first rest).Regular := by
  unfold readAlias
  dsimp only
  split
  · split
    · exact Draft.not_isSpecifier rfl (by decide)
    · exact Outcome.regular_unexpected _ _ (by decide)
  · exact Outcome.regular_unexpected _ _ (by decide)

theorem readEnd_regular (isInline : Bool) (first : Token) (rest : List Token) (h : Head) :
    (readEnd isInline first rest h).Regular := by
  unfold readEnd
  dsimp only
  split
  · exact readAlias_regular ..
  · split
    · exact ⟨.namespaceDecl, rfl, by decide, rfl⟩
    · split
      · exact Outcome.regular_unexpected _ _ (by decide)
      · exact Draft.not_isSpecifier rfl (by decide)

theorem read_regular (first : Token) (rest : List Token) : (read first rest).Regular := by
  unfold read
  split
  · split
    · exact readEnd_regular ..
    · exact Outcome.regular_unexpected _ _ (by decide)
  · exact readEnd_regular ..

end Namespace

namespace Template

theorem clauses_error {texts parameters : List Text} {o : Outcome}
    (h : clauses texts parameters ts = .error o) : o.Regular := by
  fun_induction clauses texts parameters ts with
  | case1 => cases h
  | case2 =>
    obtain rfl := Except.error.inj h
    exact fun h => by cases h
  | case3 =>
    obtain rfl := Except.error.inj h
    exact fun h => by cases h
  | case4 _ _ _ _ _ _ _ _ _ _ _ ih => exact ih h
  | case5 => cases h

theorem read_regular (ds : Definitions) (keyword : Token) (rest : List Token) :
    (read ds keyword rest).Regular := by
  unfold read
  split
  · next o he => exact clauses_error he
  · unfold readDeclaration
    split
    · exact Outcome.regular_unexpected _ _ (by decide)
    · split
      · exact Class.read_regular ..
      · split
        · exact Using.read_regular ..
        · split
          · exact Function.read_regular ..
          · split
            · exact Variable.read_regular ..
            · exact Outcome.regular_unexpected _ _ (by decide)

end Template

theorem readAccess_regular (keyword : Token) (level : Access) (rest : List Token) :
    (readAccess keyword level rest).Regular := by
  unfold readAccess
  dsimp only
  split
  · exact ⟨rfl, rfl⟩
  · exact Outcome.regular_unexpected _ _ (by decide)

theorem readWord_regular (ds : Definitions) (word : Token) (rest : List Token) :
    (readWord ds word rest).Regular := by
  unfold readWord
  split
  · dsimp only
    split
    · exact Enum.read_regular ..
    · exact Class.read_regular ..
  · exact Declaration.read_regular ..

/-- **Every construct is regular**, unless it opens a block of declarations with a linkage. -/
theorem read_regular (ds : Definitions) (merge : Bool) (t : Token) (rest : List Token) :
    (read ds merge t rest).Regular ∨
      t.kind = .keyword .externKw ∧ ∃ members, Namespace.afterLinkage? rest = some members ∧
        read ds merge t rest = .read .linkage members := by
  unfold read
  split
  · exact .inl (Directive.read_regular ..)
  · exact .inl (Comment.read_regular ..)
  · exact .inl (Comment.read_regular ..)
  · exact .inl (Comment.read_regular ..)
  · exact .inl (Template.read_regular ..)
  · exact .inl (Namespace.read_regular ..)
  · split
    · exact .inl (Namespace.read_regular ..)
    · exact .inl (Declaration.read_regular ..)
  · exact .inl (Class.read_regular ..)
  · exact .inl (Class.read_regular ..)
  · exact .inl (Class.read_regular ..)
  · exact .inl (Enum.read_regular ..)
  · exact .inl (Typedef.read_regular ..)
  · exact .inl (Using.read_regular ..)
  · exact .inl (readAccess_regular ..)
  · exact .inl (readAccess_regular ..)
  · exact .inl (readAccess_regular ..)
  · exact .inl trivial
  · exact .inl trivial
  · next hk =>
    split
    · next members hm => exact .inr ⟨hk, members, hm, rfl⟩
    · exact .inl (Declaration.read_regular ..)
  · exact .inl (readWord_regular ..)
  · exact .inl (Declaration.read_regular ..)

/-! ## Macros -/

theorem Function.read_definition? (ds : Definitions) (lead : Lead) (ts : List Token) :
    (read ds lead ts).definition? = none := by
  unfold read
  split
  · rfl
  · rfl
  · split <;> rfl
  · split
    · rfl
    · split <;> rfl

theorem Variable.read_definition? (ds : Definitions) (lead : Lead) (ts : List Token) :
    (read ds lead ts).definition? = none := by
  unfold read
  split
  · rfl
  · dsimp only
    split <;> rfl

theorem Declaration.read_definition? (ds : Definitions) (lead : Lead) (ts : List Token) :
    (read ds lead ts).definition? = none := by
  unfold read
  split
  · exact Function.read_definition? ..
  · exact Variable.read_definition? ..

theorem Class.readEnd_definition? (lead : Lead) (kind : EntityKind) (access : Access) (h : Head) :
    (readEnd lead kind access h).definition? = none := by
  unfold readEnd
  split
  · split <;> rfl
  · split
    · rfl
    · split
      · rfl
      · split <;> rfl

theorem Class.read_definition? (ds : Definitions) (lead : Lead) (keyword : Token)
    (rest : List Token) : (read ds lead keyword rest).definition? = none := by
  unfold read
  split
  · exact Declaration.read_definition? ..
  · split
    · next he => exact (head_fails he).definition?
    · split
      · exact readEnd_definition? ..
      · exact readEnd_definition? ..

theorem Enum.read_definition? (ds : Definitions) (lead : Lead) (keyword : Token)
    (rest : List Token) : (read ds lead keyword rest).definition? = none := by
  unfold read
  split
  · exact Declaration.read_definition? ..
  · split
    · next he =>
      obtain ⟨_, _, _, _, _, rfl⟩ := Head.readClause_eq_error he
      rfl
    · unfold readEnd
      split
      · split <;> rfl
      · split
        · split
          · rfl
          · dsimp only
            split
            · split <;> rfl
            · rfl
        · split
          · rfl
          · split <;> rfl

theorem Namespace.read_definition? (first : Token) (rest : List Token) :
    (read first rest).definition? = none := by
  have hend : ∀ isInline h, (readEnd isInline first rest h).definition? = none := by
    intro isInline h
    unfold readEnd
    dsimp only
    split
    · unfold readAlias
      dsimp only
      split
      · split <;> rfl
      · rfl
    · split
      · rfl
      · split <;> rfl
  unfold read
  split
  · split
    · exact hend ..
    · rfl
  · exact hend ..

theorem Using.read_definition? (lead : Lead) (keyword : Token) (rest : List Token) :
    (read lead keyword rest).definition? = none := by
  unfold read
  split
  · rfl
  · split <;> rfl

theorem Typedef.read_definition? (keyword : Token) (rest : List Token) :
    (read keyword rest).definition? = none := by
  unfold read
  split
  · rfl
  · split <;> rfl

theorem Comment.read_definition? (merge : Bool) (t : Token) (rest : List Token) :
    (read merge t rest).definition? = none := by
  unfold read
  split
  · split <;> rfl
  · rfl

theorem readAccess_definition? (keyword : Token) (level : Access) (rest : List Token) :
    (readAccess keyword level rest).definition? = none := by
  unfold readAccess
  dsimp only
  split <;> rfl

theorem Template.read_definition? (ds : Definitions) (keyword : Token) (rest : List Token) :
    (read ds keyword rest).definition? = none := by
  unfold read
  split
  · next he => exact (clauses_fails he).definition?
  · unfold readDeclaration
    split
    · rfl
    · split
      · exact Class.read_definition? ..
      · split
        · exact Using.read_definition? ..
        · split
          · exact Function.read_definition? ..
          · split
            · exact Variable.read_definition? ..
            · rfl

theorem readWord_definition? (ds : Definitions) (word : Token) (rest : List Token) :
    (readWord ds word rest).definition? = none := by
  unfold readWord
  split
  · dsimp only
    split
    · exact Enum.read_definition? ..
    · exact Class.read_definition? ..
  · exact Declaration.read_definition? ..

/-- **Only a directive defines a macro.** -/
theorem read_definition? (ds : Definitions) (merge : Bool) {t : Token} (rest : List Token)
    (hh : t.kind ≠ .punct .hash) : (read ds merge t rest).definition? = none := by
  unfold read
  split
  · next hk => exact absurd hk hh
  · exact Comment.read_definition? ..
  · exact Comment.read_definition? ..
  · exact Comment.read_definition? ..
  · exact Template.read_definition? ..
  · exact Namespace.read_definition? ..
  · split
    · exact Namespace.read_definition? ..
    · exact Declaration.read_definition? ..
  · exact Class.read_definition? ..
  · exact Class.read_definition? ..
  · exact Class.read_definition? ..
  · exact Enum.read_definition? ..
  · exact Typedef.read_definition? ..
  · exact Using.read_definition? ..
  · exact readAccess_definition? ..
  · exact readAccess_definition? ..
  · exact readAccess_definition? ..
  · rfl
  · rfl
  · split
    · rfl
    · exact Declaration.read_definition? ..
  · exact readWord_definition? ..
  · exact Declaration.read_definition? ..

end Construct
end HeaderOutline
