import HeaderOutline.Proofs.Respaced.Reading
import HeaderOutline.Proofs.Sole

/-! # Declarations behind parameter lists

What precedes a declaration only shows in its entity, and not in how the declaration is read
(`Draft.Led`).  So a declaration is read behind one more parameter list as it is read without
it (`Construct.Template.exists_read_of_read`), if it can be the declaration of a template at
all: one that starts like a class must be a class, and one that is read as a variable must
start with a name, a type or a specifier.
-/
namespace HeaderOutline

open Tokens

/-! ## Two leads -/

/-- Drafts of one declaration, which different things precede. -/
structure Draft.Led (l l' : Lead) (d d' : Draft) : Prop where
  form : d'.form = d.form
  name : d'.name = d.name
  flags : d'.flags = d.flags
  signature : ∃ s, d.signature = l.onto s ∧ d'.signature = l'.onto s
  template : d.template = l.template
  template' : d'.template = l'.template

/-- Items of one declaration, which different things precede. -/
inductive Item.Led (l l' : Lead) : Item → Item → Prop
  | entity {d d' : Draft} (h : Draft.Led l l' d d') : Led l l' (.entity d) (.entity d')
  | scope {d d' : Draft} (h : Draft.Led l l' d d') (access : Access) :
    Led l l' (.scope d access) (.scope d' access)

/-- A declaration that is read behind one lead is read behind another one. -/
def Outcome.Led (l l' : Lead) (o o' : Outcome) : Prop :=
  ∀ item rest, o = .read item rest → ∃ item', o' = .read item' rest ∧ Item.Led l l' item item'

namespace Outcome.Led

variable {l l' : Lead}

theorem failed {f : Fault} {ended : Bool} {rest : List Token} {o' : Outcome} :
    Outcome.Led l l' (.failed f ended rest) o' := by
  rintro _ _ ⟨⟩

theorem entity {d d' : Draft} {rest : List Token} (h : Draft.Led l l' d d') :
    Outcome.Led l l' (.read (.entity d) rest) (.read (.entity d') rest) := by
  rintro _ _ ⟨⟩
  exact ⟨_, rfl, .entity h⟩

theorem scope {d d' : Draft} {access : Access} {rest : List Token} (h : Draft.Led l l' d d') :
    Outcome.Led l l' (.read (.scope d access) rest) (.read (.scope d' access) rest) := by
  rintro _ _ ⟨⟩
  exact ⟨_, rfl, .scope h access⟩

end Outcome.Led

namespace Construct

variable {l l' : Lead}

theorem Using.read_led (keyword : Token) (rest : List Token) :
    Outcome.Led l l' (read l keyword rest) (read l' keyword rest) := by
  unfold read
  split
  · exact .failed
  · split
    · exact .failed
    · exact .entity ⟨rfl, rfl, rfl, ⟨_, rfl, rfl⟩, rfl, rfl⟩

theorem Variable.read_led (ds : Definitions) (ts : List Token) :
    Outcome.Led l l' (read ds l ts) (read ds l' ts) := by
  unfold read
  split
  · exact .failed
  · dsimp only
    split
    · exact .failed
    · exact .entity ⟨rfl, rfl, rfl, ⟨_, rfl, rfl⟩, rfl, rfl⟩

theorem Function.read_led (ds : Definitions) (ts : List Token) :
    Outcome.Led l l' (read ds l ts) (read ds l' ts) := by
  unfold read
  split
  · exact .failed
  · exact .failed
  · split
    · exact .failed
    · exact .entity ⟨rfl, rfl, rfl, ⟨_, rfl, rfl⟩, rfl, rfl⟩
  · split
    · exact .failed
    · split
      · exact .failed
      · exact .entity ⟨rfl, rfl, rfl, ⟨_, rfl, rfl⟩, rfl, rfl⟩

theorem Class.readEnd_led (kind : EntityKind) (access : Access) (h : Head) :
    Outcome.Led l l' (readEnd l kind access h) (readEnd l' kind access h) := by
  have hdraft : ∀ signature name last, Draft.Led l l' (draft l kind signature name last)
      (draft l' kind signature name last) :=
    fun _ _ _ => ⟨rfl, rfl, rfl, ⟨_, rfl, rfl⟩, rfl, rfl⟩
  unfold readEnd
  split
  · split
    · exact .failed
    · exact .entity (hdraft ..)
  · split
    · exact .scope (hdraft ..)
    · split
      · exact .entity (hdraft ..)
      · split
        · exact .failed
        · exact .entity (hdraft ..)

/-- Functions and variables are known as such only where they stand. -/
theorem Declaration.form_ne_plain {ds : Definitions} {ts rest : List Token} {item : Item}
    {d : Draft} (h : read ds l ts = .read item rest) (hd : item.draft? = some d)
    (kind : EntityKind) : d.form ≠ .plain kind := by
  unfold read at h
  split at h
  · unfold Function.read at h
    have hform : ∀ p : Function.Progress, p.form ≠ .plain kind := by
      intro p
      unfold Function.Progress.form
      split
      · simp
      · split <;> simp
    split at h
    · cases h
    · cases h
    · split at h
      · cases h
      · cases h
        cases hd
        exact hform _
    · split at h
      · cases h
      · split at h
        · cases h
        · cases h
          cases hd
          exact hform _
  · unfold Variable.read at h
    split at h
    · cases h
    · dsimp only at h
      split at h
      · cases h
      · cases h
        cases hd
        exact fun h => by cases h

theorem Class.read_led {ds : Definitions} {keyword : Token} {rest after : List Token} {item : Item}
    (hl' : l'.text.isEmpty = false) (h : read ds l keyword rest = .read item after)
    (hp : l.text.isEmpty = true → ∃ d ∈ item.draft?, ∃ kind, d.form = .plain kind) :
    ∃ item', read ds l' keyword rest = .read item' after ∧ Item.Led l l' item item' := by
  have hhead : (l.text.isEmpty && !startsWithMacro ds rest && Declaration.isElaborated rest)
      = false := by
    rw [← Bool.not_eq_true]
    intro he
    have hempty : l.text.isEmpty = true := by
      simp only [Bool.and_eq_true] at he
      exact he.1.1
    rw [read, if_pos he] at h
    obtain ⟨d, hd, kind, hform⟩ := hp hempty
    exact Declaration.form_ne_plain h hd kind hform
  rw [read, hhead, if_neg Bool.false_ne_true] at h
  rw [read, hl', Bool.false_and, Bool.false_and, if_neg Bool.false_ne_true]
  revert h
  split
  · rename_i o he
    exact fun h => absurd h (by
      obtain ⟨_, _, _, rfl⟩ := head_fails he
      simp)
  · split
    · exact fun h => readEnd_led _ _ _ _ _ h
    · exact fun h => readEnd_led _ _ _ _ _ h

end Construct

/-! ## One more parameter list -/

/-- Drafts of a declaration by itself and behind one more parameter list. -/
structure Draft.Listed (text param : Text) (d d' : Draft) : Prop where
  form : d'.form = d.form
  name : d'.name = d.name
  flags : d'.flags = d.flags
  signature : d'.signature = text ++ ' ' :: d.signature
  template : d'.template = some (param :: d.template.getD [])

/-- Items of a declaration by itself and behind one more parameter list. -/
inductive Item.Listed (text param : Text) : Item → Item → Prop
  | entity {d d' : Draft} (h : Draft.Listed text param d d') :
    Listed text param (.entity d) (.entity d')
  | scope {d d' : Draft} (h : Draft.Listed text param d d') (access : Access) :
    Listed text param (.scope d access) (.scope d' access)

/-- Leads that differ by one parameter list. -/
structure Lead.Lists (text param : Text) (l l' : Lead) : Prop where
  onto (s : Text) : l'.onto s = text ++ ' ' :: l.onto s
  template : l'.template = some (param :: l.template.getD [])

theorem Draft.Led.listed {text param : Text} {l l' : Lead} {d d' : Draft}
    (h : Draft.Led l l' d d') (hl : Lead.Lists text param l l') :
    Draft.Listed text param d d' := by
  obtain ⟨s, hs, hs'⟩ := h.signature
  refine ⟨h.form, h.name, h.flags, ?_, ?_⟩
  · rw [hs', hs, hl.onto]
  · rw [h.template', hl.template, h.template]

theorem Item.Led.listed {text param : Text} {l l' : Lead} {i i' : Item}
    (h : Item.Led l l' i i') (hl : Lead.Lists text param l l') : Item.Listed text param i i' := by
  cases h with
  | entity h => exact .entity (h.listed hl)
  | scope h access => exact .scope (h.listed hl) access

namespace Construct

theorem Namespace.readEnd_declares (isInline : Bool) (first : Token) (rest : List Token)
    (h : Head) : (readEnd isInline first rest h).Declares [.namespaceDecl] := by
  unfold readEnd
  dsimp only
  split
  · unfold readAlias
    dsimp only
    split
    · split
      · exact ⟨_, rfl, _, List.mem_singleton_self _, rfl⟩
      · trivial
    · trivial
  · split
    · exact ⟨_, rfl, _, List.mem_singleton_self _, rfl⟩
    · split
      · trivial
      · exact ⟨_, rfl, _, List.mem_singleton_self _, rfl⟩

theorem Namespace.read_declares (first : Token) (rest : List Token) :
    (read first rest).Declares [.namespaceDecl] := by
  unfold read
  split
  · split
    · exact readEnd_declares ..
    · trivial
  · exact readEnd_declares ..

theorem Typedef.read_declares (keyword : Token) (rest : List Token) :
    (read keyword rest).Declares [.typedefDecl] := by
  unfold read
  split
  · trivial
  · split
    · trivial
    · exact ⟨_, rfl, _, List.mem_singleton_self _, rfl⟩

theorem readAccess_declares (keyword : Token) (level : Access) (rest : List Token) :
    (readAccess keyword level rest).Declares [.accessSpecifier] := by
  unfold readAccess
  dsimp only
  split
  · exact ⟨_, rfl, _, List.mem_singleton_self _, rfl⟩
  · trivial

end Construct

namespace Construct.Template

variable {ds : Definitions} {merge : Bool} {l l' : Lead} {t : Token} {behind ts rest : List Token}
  {item : Item} {text param : Text}

/-- What has been read of parameter lists stays in front. -/
theorem clauses_append (texts₀ parameters₀ texts parameters : List Text) (ts : List Token) :
    clauses (texts₀ ++ texts) (parameters₀ ++ parameters) ts =
      (clauses texts parameters ts).map fun c =>
        ⟨texts₀ ++ c.texts, parameters₀ ++ c.params, c.rest⟩ := by
  fun_induction clauses texts parameters ts with
  | case1 => rw [clauses]; rfl
  | case2 texts parameters t ts hk list hl =>
    rw [clauses_cons, if_pos hk]
    exact if_pos hl
  | case3 texts parameters t ts hk list hl ha =>
    rw [clauses_cons, if_pos hk, ha]
    exact if_neg hl
  | case4 texts parameters t ts hk list hl taken after ha text ih =>
    rw [clauses_cons, if_pos hk, ha, ← ih, ← List.append_assoc, ← List.append_assoc]
    exact if_neg hl
  | case5 texts parameters t ts hk =>
    rw [clauses_cons, if_neg hk]
    rfl

/-- Parameter lists and a declaration are kept apart by what they start with. -/
theorem clauses_of_ne (texts parameters : List Text) (h : t.kind ≠ .keyword .templateKw) :
    clauses texts parameters (t :: ts) = .ok ⟨texts, parameters, t :: ts⟩ := by
  rw [clauses_cons, if_neg (by simpa using h)]

variable (l') in
/-- A declaration is read behind any lead that is not empty, if it is no declaration of
something that has the type of a class. -/
theorem readDeclaration_led (hl' : l'.text.isEmpty = false)
    (h : readDeclaration ds l ts = .read item rest)
    (hp : l.text.isEmpty = true →
      headKind ts ∈ [.keyword .classKw, .keyword .structKw, .keyword .unionKw] →
      ∃ d ∈ item.draft?, ∃ kind, d.form = .plain kind) :
    ∃ item', readDeclaration ds l' ts = .read item' rest ∧ Item.Led l l' item item' := by
  revert h
  unfold readDeclaration
  split
  · exact fun h => by cases h
  · next t behind =>
    split
    · next hk =>
      intro h
      refine Class.read_led hl' h fun he => hp he ?_
      simpa [headKind, or_assoc] using hk
    · split
      · exact fun h => Using.read_led _ _ _ _ h
      · split
        · exact fun h => Function.read_led _ _ _ _ h
        · split
          · exact fun h => Variable.read_led _ _ _ _ h
          · exact fun h => by cases h

/-- The kinds of what a template may declare at the top of a header. -/
def kinds : List EntityKind := [.classDecl, .structDecl, .usingDecl, .function, .variableDecl]

/-- The forms of what a template may declare. -/
def forms : List Form := .function :: .variableDecl :: kinds.map .plain

theorem mem_forms_of_kindIn {form : Form} {name : Text}
    (h : form.kindIn (Outline.rootEntity []) name ∈ kinds) : form ∈ forms := by
  cases form with
  | plain kind => exact List.mem_cons_of_mem _ (List.mem_cons_of_mem _ (List.mem_map_of_mem h))
  | function => decide
  | variableDecl => decide
  | destructor => exact absurd h (by decide : EntityKind.destructor ∉ kinds)

/-- Something can be the declaration of a template, going by its first token: with the
keyword of a class it is one, and it is a variable only behind a name, a type or a
specifier. -/
def Suits (k : Kind) (form : Form) : Prop :=
  (k ∈ [.keyword .classKw, .keyword .structKw, .keyword .unionKw] →
    form = .plain .classDecl ∨ form = .plain .structDecl) ∧
  (form = .variableDecl → opensVariable k = true)

/-- What it is for entities at the top of a header. -/
def Takes (k : Kind) (kind : EntityKind) : Prop :=
  (k ∈ [.keyword .classKw, .keyword .structKw, .keyword .unionKw] →
    kind = .classDecl ∨ kind = .structDecl) ∧
  (kind = .variableDecl → opensVariable k = true)

theorem suits_of_takes {k : Kind} {form : Form} {name : Text}
    (h : Takes k (form.kindIn (Outline.rootEntity []) name)) : Suits k form := by
  refine ⟨fun hk => ?_, fun hform => h.2 (hform ▸ rfl)⟩
  cases form with
  | plain kind => exact (h.1 hk).imp (congrArg Form.plain) (congrArg Form.plain)
  | function | variableDecl | destructor => exact (h.1 hk).elim nofun nofun

theorem readDeclaration_of_declaration {d : Draft}
    (hk : t.kind ∉ [.keyword .classKw, .keyword .structKw, .keyword .unionKw, .keyword .usingKw])
    (h : Declaration.read ds l (t :: behind) = .read item rest) (hd : item.draft? = some d)
    (hs : Suits t.kind d.form) :
    readDeclaration ds l (t :: behind) = .read item rest := by
  simp only [List.mem_cons, List.not_mem_nil, or_false, not_or] at hk
  unfold readDeclaration
  dsimp only
  rw [if_neg (by simp [hk]), if_neg (by simp [hk])]
  unfold Declaration.read at h
  split at h
  · next hf => rw [if_pos hf, h]
  · next hf =>
    have hform : d.form = .variableDecl := by
      unfold Variable.read at h
      split at h
      · cases h
      · dsimp only at h
        split at h
        · cases h
        · cases h
          cases hd
          rfl
    rw [if_neg hf, if_pos (hs.2 hform), h]

/-- A declaration that suits a template is read as the declaration of one. -/
theorem readDeclaration_of_read {d : Draft}
    (h : Construct.read .empty merge t behind = .read item rest) (hd : item.draft? = some d)
    (hform : d.form ∈ forms) (hs : Suits t.kind d.form) (hh : t.kind ≠ .punct .hash)
    (hc : t.kind.isComment = false) (ht : t.kind ≠ .keyword .templateKw) :
    readDeclaration .empty (.none t) (t :: behind) = .read item rest := by
  have hdeclares : ∀ {o : Outcome} {kinds : List EntityKind}, o.Declares kinds →
      o = .read item rest → (∀ k ∈ kinds, .plain k ∉ forms) → False := by
    rintro _ kinds ho rfl hno
    obtain ⟨d', hd', k, hk, hd''⟩ := ho
    obtain rfl : d = d' := Option.some.inj (hd.symm.trans hd')
    exact hno k hk (hd'' ▸ hform)
  have hdeclaration : t.kind ∉ [.keyword .classKw, .keyword .structKw, .keyword .unionKw,
        .keyword .usingKw] → Declaration.read .empty (.none t) (t :: behind) = .read item rest →
      readDeclaration .empty (.none t) (t :: behind) = .read item rest :=
    fun hk h => readDeclaration_of_declaration hk h hd hs
  have hclass : t.kind ∈ [.keyword .classKw, .keyword .structKw, .keyword .unionKw] →
      Class.read .empty (.none t) t behind = .read item rest →
      readDeclaration .empty (.none t) (t :: behind) = .read item rest := by
    intro hk h
    unfold readDeclaration
    dsimp only
    rw [if_pos (by simpa [or_assoc] using hk), h]
  unfold Construct.read at h
  split at h
  · next hk => exact absurd hk hh
  · next hk => cases hc.symm.trans (by rw [hk])
  · next hk => cases hc.symm.trans (by rw [hk])
  · next hk => cases hc.symm.trans (by rw [hk])
  · next hk => exact absurd hk ht
  · exact (hdeclares (Namespace.read_declares t behind) h (by decide)).elim
  · next hk =>
    split at h
    · exact (hdeclares (Namespace.read_declares t behind) h (by decide)).elim
    · exact hdeclaration (by simp [hk]) h
  · next hk => exact hclass (by simp [hk]) h
  · next hk => exact hclass (by simp [hk]) h
  · next hk => exact hclass (by simp [hk]) h
  · next hk =>
    rcases Enum.read_declaration_or_declares .empty (.none t) t behind
      (List.mem_singleton_self _) with he | he
    · exact hdeclaration (by simp [hk]) (he ▸ h)
    · exact (hdeclares he h (by decide)).elim
  · exact (hdeclares (Typedef.read_declares t behind) h (by decide)).elim
  · next hk =>
    unfold readDeclaration
    dsimp only
    rw [if_neg (by simp [hk]), if_pos (by simp [hk]), h]
  · exact (hdeclares (readAccess_declares t _ behind) h (by decide)).elim
  · exact (hdeclares (readAccess_declares t _ behind) h (by decide)).elim
  · exact (hdeclares (readAccess_declares t _ behind) h (by decide)).elim
  · cases h
    cases hd
  · cases h
    cases hd
  · next hk =>
    split at h
    · cases h
      cases hd
    · exact hdeclaration (by simp [hk]) h
  · next hk => exact hdeclaration (by simp [hk]) h
  · refine hdeclaration ?_ h
    simp only [List.mem_cons, List.not_mem_nil, or_false, not_or]
    exact ⟨‹_›, ‹_›, ‹_›, ‹_›⟩

/-- Behind the keyword of a template a parameter list has been read. -/
theorem exists_texts {c : Clauses} (h : clauses [] [] (t :: behind) = .ok c)
    (ht : t.kind = .keyword .templateKw) : ∃ s more, c.texts = ('t' :: s) :: more := by
  rw [clauses_cons, if_pos (by simp [ht])] at h
  split at h
  · cases h
  · split at h
    · cases h
    · next taken after _ =>
      have happ := clauses_append ["template ".toList ++ Token.textOf taken]
        (params (Token.textOf taken)) [] [] (skipGap after)
      rw [List.append_nil, List.append_nil] at happ
      rw [List.nil_append, List.nil_append, happ] at h
      cases hc : clauses [] [] (skipGap after) with
      | error o =>
        rw [hc] at h
        cases h
      | ok c' =>
        rw [hc] at h
        cases h
        exact ⟨_, _, rfl⟩

theorem isEmpty_joinWith {texts more : List Text} {s : Text} (h : texts = ('t' :: s) :: more) :
    (Text.joinWith [' '] texts).isEmpty = false := by
  subst h
  cases more with
  | nil => simp [Text.joinWith]
  | cons s' more =>
    rw [Text.joinWith_cons _ _ (List.cons_ne_nil s' more)]
    rfl

/-- A parameter list in front of other ones. -/
theorem lists_of_texts {c : Clauses} {s : Text} {more : List Text}
    (hc : c.texts = ('t' :: s) :: more) (first first' : Token) :
    Lead.Lists text param ⟨first, Text.joinWith [' '] c.texts, some c.params⟩
      ⟨first', Text.joinWith [' '] (text :: c.texts), some (param :: c.params)⟩ where
  onto signature := by
    have hne : c.texts ≠ [] := by
      rw [hc]
      exact List.cons_ne_nil _ _
    have hlong : (text ++ [' '] ++ Text.joinWith [' '] c.texts).isEmpty = false := by simp
    simp only [Lead.onto, Text.joinWith_cons _ _ hne, hlong, isEmpty_joinWith hc,
      Bool.false_eq_true, if_false]
    simp
  template := rfl

/-- A parameter list in front of a declaration. -/
theorem lists_none (hne : text ≠ []) (first first' : Token) :
    Lead.Lists text param (.none first) ⟨first', Text.joinWith [' '] [text], some [param]⟩ where
  onto s := by
    have hjoin : Text.joinWith [' '] [text] = text := by simp [Text.joinWith]
    rw [hjoin, Lead.onto, if_neg (by simpa using hne)]
    rfl
  template := rfl

variable (param) in
/-- **A declaration behind one more parameter list** is read as it is without that list, if it
suits a template. -/
theorem exists_read_of_read {d : Draft} (hne : text ≠ [])
    (h : Construct.read .empty merge t behind = .read item rest) (hd : item.draft? = some d)
    (hform : d.form ∈ forms) (hs : t.kind ≠ .keyword .templateKw → Suits t.kind d.form)
    (hh : t.kind ≠ .punct .hash) (hc : t.kind.isComment = false) (first : Token) :
    ∃ c item', clauses [text] [param] (t :: behind) = .ok c ∧
      readDeclaration .empty ⟨first, Text.joinWith [' '] c.texts, some c.params⟩ c.rest
        = .read item' rest ∧ Item.Listed text param item item' := by
  by_cases ht : t.kind = .keyword .templateKw
  · have happ := clauses_append [text] [param] [] [] (t :: behind)
    have hread : read .empty t behind = .read item rest := by
      unfold Construct.read at h
      rwa [ht] at h
    unfold read at hread
    cases hclauses : clauses [] [] (t :: behind) with
    | error o =>
      rw [hclauses] at hread
      obtain ⟨_, _, _, rfl⟩ := clauses_fails hclauses
      cases hread
    | ok c =>
      rw [hclauses] at happ hread
      obtain ⟨s, more, htexts⟩ := exists_texts hclauses ht
      have hempty : (Text.joinWith [' '] (text :: c.texts)).isEmpty = false := by
        rw [Text.joinWith_cons _ _ (by rw [htexts]; exact List.cons_ne_nil _ _)]
        simp
      obtain ⟨item', hread', hled⟩ := readDeclaration_led
        ⟨first, Text.joinWith [' '] (text :: c.texts), some (param :: c.params)⟩ hempty hread
        fun he => by cases he.symm.trans (isEmpty_joinWith htexts)
      exact ⟨_, item', happ, hread', hled.listed (lists_of_texts htexts _ _)⟩
  · have hread := readDeclaration_of_read h hd hform (hs ht) hh hc ht
    have hplain : t.kind ∈ [.keyword .classKw, .keyword .structKw, .keyword .unionKw] →
        ∃ d ∈ item.draft?, ∃ kind, d.form = .plain kind := by
      intro hk
      rcases (hs ht).1 hk with hf | hf
      · exact ⟨d, hd, _, hf⟩
      · exact ⟨d, hd, _, hf⟩
    obtain ⟨item', hread', hled⟩ := readDeclaration_led
      ⟨first, Text.joinWith [' '] [text], some [param]⟩ (by simp [Text.joinWith, hne]) hread
      fun _ => hplain
    exact ⟨_, item', clauses_of_ne _ _ ht, hread', hled.listed (lists_none hne t first)⟩

end Construct.Template
end HeaderOutline
