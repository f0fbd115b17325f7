import HeaderOutline.Proofs.Cover

/-! # Where macros are looked up

A construct looks macros up in four places: in front of a class or an enum, in the head of a class,
where it tells a class from a declaration that uses one, and in the text of a signature.  It looks
up identifiers among its own tokens only, and all that it asks is whether there is such a macro and
what it stands for.  So two tables that give the same answers there (`Definitions.SameOn`) make no
difference to what is read (`Construct.read_congr`).
-/
namespace HeaderOutline

/-- Two tables say the same of the identifiers among some tokens: which are macros, and what these
stand for. -/
def Definitions.SameOn (ds ds' : Definitions) (ts : List Token) : Prop :=
  ∀ t ∈ ts, t.kind = .ident →
    ds.contains t.text = ds'.contains t.text ∧ ds.resolve t.text = ds'.resolve t.text

variable {ds ds' : Definitions} {us ts rest : List Token} {t : Token}

theorem Definitions.SameOn.of_subset (h : ds.SameOn ds' us) (hs : ts ⊆ us) : ds.SameOn ds' ts :=
  fun t ht => h t (hs ht)

theorem Definitions.SameOn.of_suffix (h : ds.SameOn ds' us) (hs : ts <:+ us) :
    ds.SameOn ds' ts := h.of_subset hs.subset

theorem Tokens.substituted_congr (h : ds.SameOn ds' ts) :
    substituted ds ts = substituted ds' ts := by
  induction ts with
  | nil => rfl
  | cons t ts ih =>
    have ih := ih (h.of_suffix (List.suffix_cons t ts))
    simp only [substituted, List.flatMap_cons] at ih ⊢
    rw [ih]
    by_cases hk : t.kind = .ident
    · rw [(h t List.mem_cons_self hk).2]
    · simp [hk]

namespace Construct

variable {lead : Lead} {keyword : Token}

theorem Function.draft_congr (lead : Lead) (p : Progress) (name : Text) {head : List Token}
    (last : Token) (body : Option Body) (h : ds.SameOn ds' head) :
    draft ds lead p name head last body = draft ds' lead p name head last body := by
  unfold draft
  rw [Tokens.substituted_congr h]

theorem Function.read_congr (lead : Lead) (h : ds.SameOn ds' ts) :
    read ds lead ts = read ds' lead ts := by
  unfold read
  split
  · rfl
  · rfl
  · next p taken rest he =>
    have happ : taken ++ rest = ts := (extent_append.1 he).1
    have htaken : ds.SameOn ds' taken :=
      h.of_subset (happ ▸ List.subset_append_left taken rest)
    split
    · rfl
    · rw [draft_congr _ _ _ _ _ htaken]
  · next p taken rest he =>
    have happ : taken ++ rest = ts := extent_append.2 he
    have hhead : ds.SameOn ds' (withoutTrailingTrivia taken) := by
      refine h.of_subset fun t ht => happ ▸ List.mem_append_left rest ?_
      have hmem := (List.dropWhile_sublist _).mem (List.mem_reverse.mp ht)
      exact List.mem_reverse.mp hmem
    split
    · rfl
    · split
      · rfl
      · dsimp only
        rw [draft_congr _ _ _ _ _ hhead]

theorem Variable.read_congr (lead : Lead) (h : ds.SameOn ds' ts) :
    read ds lead ts = read ds' lead ts := by
  unfold read
  split
  · rfl
  · next p taken rest he =>
    have happ : taken ++ rest = ts := (extent_append he).1
    rw [Tokens.substituted_congr (h.of_subset (happ ▸ List.subset_append_left taken rest))]

theorem Declaration.read_congr (lead : Lead) (h : ds.SameOn ds' ts) :
    read ds lead ts = read ds' lead ts := by
  unfold read
  split
  · exact Function.read_congr lead h
  · exact Variable.read_congr lead h

namespace Class

theorem startsWithMacro_congr (h : ds.SameOn ds' rest) :
    startsWithMacro ds rest = startsWithMacro ds' rest := by
  unfold startsWithMacro
  split
  · next t behind ht =>
    have hmem : t ∈ rest := (Tokens.skipTrivia_suffix rest).mem (ht ▸ List.mem_cons_self)
    by_cases hk : t.kind = .ident
    · rw [(h t hmem hk).1]
    · rw [beq_false_of_ne hk, Bool.false_and, Bool.false_and]
  · rfl

theorem exported?_congr {first : Token} (h : ds.contains first.text = ds'.contains first.text)
    (rest : List Token) : exported? ds first rest = exported? ds' first rest := by
  unfold exported?
  rw [h]

theorem readName_congr {h : Head} (hs : ds.SameOn ds' h.rest) :
    (readName ds h) = (readName ds' h) := by
  unfold readName
  split
  · next first rest ht =>
    split
    · next hk =>
      have hcontains := (hs first (ht ▸ List.mem_cons_self) (eq_of_beq hk)).1
      rw [exported?_congr hcontains]
    · rfl
  · rfl

theorem head_congr (keyword : Token) (h : ds.SameOn ds' rest) :
    head ds keyword rest = head ds' keyword rest := by
  unfold head
  dsimp only
  rw [readName_congr]
  exact h.of_suffix ((Tokens.skipAttributes_suffix _).trans (Tokens.skipTrivia_suffix rest))

theorem read_congr (lead : Lead) (h : ds.SameOn ds' (keyword :: rest)) :
    read ds lead keyword rest = read ds' lead keyword rest := by
  have hrest := h.of_suffix (List.suffix_cons keyword rest)
  unfold read
  rw [startsWithMacro_congr hrest, Declaration.read_congr lead h, head_congr keyword hrest]

end Class

theorem Enum.read_congr (lead : Lead) (h : ds.SameOn ds' (keyword :: rest)) :
    read ds lead keyword rest = read ds' lead keyword rest := by
  unfold read
  rw [Declaration.read_congr lead h]

theorem Template.readDeclaration_congr (lead : Lead) (h : ds.SameOn ds' ts) :
    readDeclaration ds lead ts = readDeclaration ds' lead ts := by
  unfold readDeclaration
  split
  · rfl
  · rw [Class.read_congr lead h, Function.read_congr lead h, Variable.read_congr lead h]

theorem Template.read_congr (h : ds.SameOn ds' (keyword :: rest)) :
    read ds keyword rest = read ds' keyword rest := by
  have hs := clauses_suffix [] [] (keyword :: rest)
  unfold read
  split
  · rfl
  · next c hc =>
    rw [hc] at hs
    exact readDeclaration_congr _ (h.of_suffix hs)

theorem readWord_congr {word : Token} (hk : word.kind = .ident)
    (h : ds.SameOn ds' (word :: rest)) : readWord ds word rest = readWord ds' word rest := by
  obtain ⟨hcontains, hresolve⟩ := h word List.mem_cons_self hk
  unfold readWord
  rw [hcontains, hresolve, Declaration.read_congr (.none word) h]
  split
  · next t behind he =>
    have hexported : exportedHead? rest = some (t, behind) := by
      split at he
      · exact he
      · cases he
    have hbehind := h.of_suffix
      ((cons_suffix_of_exportedHead? hexported).trans (List.suffix_cons word rest))
    dsimp only
    rw [Enum.read_congr _ hbehind, Class.read_congr _ hbehind]
  · rfl

/-- **A construct is read alike** with any two tables that say the same of its identifiers. -/
theorem read_congr (merge : Bool) (h : ds.SameOn ds' (t :: rest)) :
    read ds merge t rest = read ds' merge t rest := by
  have hdeclaration := Declaration.read_congr (.none t) h
  unfold read
  split
  · rfl
  · rfl
  · rfl
  · rfl
  · exact Template.read_congr h
  · rfl
  · rw [hdeclaration]
  · exact Class.read_congr _ h
  · exact Class.read_congr _ h
  · exact Class.read_congr _ h
  · exact Enum.read_congr _ h
  · rfl
  · rfl
  · rfl
  · rfl
  · rfl
  · rfl
  · rfl
  · rw [hdeclaration]
  · next hk => exact readWord_congr hk h
  · exact hdeclaration

end Construct
end HeaderOutline
