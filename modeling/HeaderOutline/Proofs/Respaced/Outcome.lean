import HeaderOutline.Proofs.Respaced.Probe
import HeaderOutline.Recovery

/-! # Constructs of respaced tokens

What constructs amount to counts as the same if kinds, names and flags agree and texts count
as the same; the places of tokens do not matter.  A construct that is read leaves tokens at a
plain place, so that the next one can be compared in turn.
-/
namespace HeaderOutline

namespace Tokens

variable {S : Respacing} {b : Trail} {ts us : List Token}

/-- Respaced tokens behind trivia that do not matter. -/
def RespacedBehind (S : Respacing) (b : Trail) (ts us : List Token) : Prop :=
  ∃ vs ws, skipTrivia ts = skipTrivia vs ∧ skipTrivia us = skipTrivia ws ∧ Respaced S b vs ws

/-- Respaced tokens from which constructs can be read. -/
def RespacedOn (S : Respacing) (ts us : List Token) : Prop :=
  ∃ b, S.IsPlain b ∧ RespacedBehind S b ts us

theorem Respaced.behind (h : Respaced S b ts us) : RespacedBehind S b ts us :=
  ⟨ts, us, rfl, rfl, h⟩

theorem Respaced.on (h : Respaced S b ts us) (hb : S.IsPlain b) : RespacedOn S ts us :=
  ⟨b, hb, h.behind⟩

theorem RespacedNext.on (h : RespacedNext S ts us) : RespacedOn S ts us := by
  obtain ⟨b, hb, h⟩ := h
  exact ⟨b, hb, _, _, (skipTrivia_skipTrivia ts).symm, (skipTrivia_skipTrivia us).symm, h.respaced⟩

theorem RespacedOn.exists_behind (h : RespacedOn S ts us) : ∃ b, RespacedBehind S b ts us := by
  obtain ⟨b, -, h⟩ := h
  exact ⟨b, h⟩

theorem RespacedNext.exists_behind (h : RespacedNext S ts us) : ∃ b, RespacedBehind S b ts us :=
  h.on.exists_behind

theorem RespacedNext.nil : RespacedNext S [] [] := RespacedCalmly.nil.next

end Tokens

variable {S : Respacing}

/-- What precedes declarations counts as the same. -/
structure Lead.Respaced (S : Respacing) (l l' : Lead) : Prop where
  onto {s s' : Text} (h : S.same s s') : S.same (l.onto s) (l'.onto s')
  template : S.template l.template l'.template

theorem Lead.respaced_none (t u : Token) : Lead.Respaced S (.none t) (.none u) where
  onto h := h
  template := S.template_none

/-- Texts that are both empty, or none of them is, precede declarations alike. -/
theorem Lead.respaced_of_text {l l' : Lead} (he : l'.text.isEmpty = l.text.isEmpty)
    (ht : S.same l.text l'.text) (hp : S.template l.template l'.template) :
    Lead.Respaced S l l' where
  onto {s s'} h := by
    unfold Lead.onto
    rw [he]
    split
    · exact h
    · exact S.same_append ht (S.same_append (S.same_refl [' ']) h)
  template := hp

/-- Drafts of the same entity, up to texts that count as the same.  Only a directive is named
for all of its text. -/
structure Draft.Respaced (S : Respacing) (d d' : Draft) : Prop where
  form : d'.form = d.form
  name : S.name d.name d'.name
  name_eq : d.form ≠ .plain .directive → d'.name = d.name
  isEmpty : d'.name.isEmpty = d.name.isEmpty
  signature : S.same d.signature d'.signature
  flags : d'.flags = d.flags
  template : S.template d.template d'.template
  body : Option.Rel (fun x y : Body => S.same x.text y.text) d.body d'.body

/-- Drafts that have their names in common. -/
theorem Draft.respaced_of_name {d d' : Draft} (form : d'.form = d.form) (name : d'.name = d.name)
    (signature : S.same d.signature d'.signature) (flags : d'.flags = d.flags)
    (template : S.template d.template d'.template)
    (body : Option.Rel (fun x y : Body => S.same x.text y.text) d.body d'.body) :
    Draft.Respaced S d d' :=
  ⟨form, name ▸ S.name_refl d.name, fun _ => name, by rw [name], signature, flags, template, body⟩

theorem Draft.respaced_simple {form : Form} {name s s' : Text} {range range' : Span}
    (h : S.same s s') :
    Draft.Respaced S (.simple form name s range) (.simple form name s' range') :=
  Draft.respaced_of_name rfl rfl h rfl S.template_none .none

/-- Items that count as the same. -/
inductive Item.Respaced (S : Respacing) : Item → Item → Prop
  | entity {d d' : Draft} (h : Draft.Respaced S d d') : Respaced S (.entity d) (.entity d')
  | scope {d d' : Draft} (h : Draft.Respaced S d d') (access : Access) :
    Respaced S (.scope d access) (.scope d' access)
  | linkage : Respaced S .linkage .linkage
  | close (brace brace' : Token) : Respaced S (.close brace) (.close brace')
  | access {d d' : Draft} (level : Access) (h : Draft.Respaced S d d') :
    Respaced S (.access level d) (.access level d')
  /-- Macros may be told from other words where line ends are kept. -/
  | definition {d d' : Draft} (definition : Definition) (firm : ∀ b k, S.firm b k)
    (h : Draft.Respaced S d d') : Respaced S (.definition definition d) (.definition definition d')
  | suspect {d d' : Draft} (found found' : Option Token) (h : Draft.Respaced S d d') :
    Respaced S (.suspect (.namelessMacro found) d) (.suspect (.namelessMacro found') d')
  /-- Documentation is a comment, among which no others are put. -/
  | documentation {c c' : Option DocComment} (strict : S.IsStrict) (h : Option.Rel S.doc c c') :
    Respaced S (.documentation c) (.documentation c')
  | nothing : Respaced S .nothing .nothing

/-- Readings that end alike. -/
inductive Outcome.Respaced (S : Respacing) : Outcome → Outcome → Prop
  | read {i i' : Item} {rest rest' : List Token} (item : Item.Respaced S i i')
    (more : Tokens.RespacedOn S rest rest') : Respaced S (.read i rest) (.read i' rest')
  | failed {f f' : Fault} {ended : Bool} {rest rest' : List Token} (code : f'.code = f.code)
    (more : ∃ b, Tokens.RespacedBehind S b rest rest') :
    Respaced S (.failed f ended rest) (.failed f' ended rest')

namespace Outcome.Respaced

theorem unexpected (context : Context) (code : Code) {rest rest' : List Token}
    (h : ∃ b, Tokens.RespacedBehind S b rest rest') :
    Outcome.Respaced S (.unexpected context code rest) (.unexpected context code rest') :=
  .failed rfl h

/-- An entity is read, and what is left starts at a plain place. -/
theorem entity {d d' : Draft} {rest rest' : List Token} (h : Draft.Respaced S d d')
    (more : Tokens.RespacedOn S rest rest') :
    Outcome.Respaced S (.read (.entity d) rest) (.read (.entity d') rest') :=
  .read (.entity h) more

end Outcome.Respaced

end HeaderOutline
