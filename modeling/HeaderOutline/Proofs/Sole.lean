import HeaderOutline.Proofs.Core.Reading
import HeaderOutline.Proofs.Fills
import HeaderOutline.Proofs.Order
import HeaderOutline.Proofs.Policy

/-! # Headers of one declaration

Without directives and comments, few constructs make no entity: semicolons, and what opens and
closes a linkage block.  Tokens of which only these are read are idle (`Tokens.Idle`): reading
them adds nothing (`Building.exists_run_of_idle`), and nothing is added only by idle tokens
(`Building.idle_of_run`).
-/
namespace HeaderOutline

open Token (Alike)

/-- Tokens from which only semicolons, linkage openings and closing braces are read; so many
braces close a scope that is open before the tokens. -/
inductive Tokens.Idle : Nat → List Token → Prop
  | done {n : Nat} {ts : List Token} (front : skipTrivia ts = []) : Idle n ts
  | semicolon {n : Nat} {ts behind : List Token} {t : Token} (front : skipTrivia ts = t :: behind)
    (ht : t.kind = .punct .semicolon) (more : Idle n behind) : Idle n ts
  | linkage {n : Nat} {ts behind members : List Token} {t : Token}
    (front : skipTrivia ts = t :: behind) (ht : t.kind = .keyword .externKw)
    (hm : Construct.Namespace.afterLinkage? behind = some members) (more : Idle (n + 1) members) :
    Idle n ts
  | close {n : Nat} {ts behind : List Token} {t : Token} (front : skipTrivia ts = t :: behind)
    (ht : t.kind = .punct .rBrace)
    (more : Idle n ((eat? (.punct .semicolon) behind).getD behind)) : Idle (n + 1) ts

/-- Tokens like idle ones are idle. -/
theorem Tokens.Idle.map {n : Nat} {ts : List Token} (h : Idle n ts) (f : Token → Token)
    [Alike f] : Idle n (ts.map f) := by
  have hfront : ∀ {ts us : List Token}, skipTrivia ts = us →
      skipTrivia (ts.map f) = us.map f := fun h => by rw [skipTrivia_map, h]
  induction h with
  | done front => exact .done (hfront front)
  | semicolon front ht _ ih => exact .semicolon (hfront front) ((Alike.kind _).trans ht) ih
  | linkage front ht hm _ ih =>
    refine .linkage (hfront front) ((Alike.kind _).trans ht) ?_ ih
    rw [Construct.Namespace.afterLinkage?_map, hm]
    rfl
  | @close n ts behind t front ht _ ih =>
    refine .close (hfront front) ((Alike.kind _).trans ht) ?_
    rw [eat?_map]
    cases he : eat? (.punct .semicolon) behind with
    | none =>
      rw [he] at ih
      exact ih
    | some rest =>
      rw [he] at ih
      exact ih

namespace Construct

/-- **What makes no entity** is a semicolon or belongs to a linkage block, apart from
directives and comments. -/
theorem cases_of_read {ds : Definitions} {merge : Bool} {t : Token} {behind rest : List Token}
    {item : Item} (h : read ds merge t behind = .read item rest) (hd : item.draft? = none)
    (hh : t.kind ≠ .punct .hash) (hc : t.kind.isComment = false) :
    (t.kind = .punct .semicolon ∧ item = .nothing ∧ rest = behind) ∨
    (t.kind = .keyword .externKw ∧ item = .linkage ∧
      Namespace.afterLinkage? behind = some rest) ∨
    (t.kind = .punct .rBrace ∧ item = .close t ∧
      rest = (Tokens.eat? (.punct .semicolon) behind).getD behind) := by
  rcases fills_or_of_read ds merge behind hh with
    hfills | ⟨hk, -⟩ | ⟨hk, hread⟩ | ⟨hk, hread⟩ | ⟨hk, members, hm, hread⟩
  · rw [h] at hfills
    obtain ⟨d, hdraft, -⟩ := hfills
    rw [hd] at hdraft
    cases hdraft
  · rw [hc] at hk
    cases hk
  · obtain ⟨rfl, rfl⟩ := Outcome.read.inj (h.symm.trans hread)
    exact .inr (.inr ⟨hk, rfl, rfl⟩)
  · obtain ⟨rfl, rfl⟩ := Outcome.read.inj (h.symm.trans hread)
    exact .inl ⟨hk, rfl, rfl⟩
  · obtain ⟨rfl, rfl⟩ := Outcome.read.inj (h.symm.trans hread)
    exact .inr (.inl ⟨hk, rfl, hm⟩)

end Construct

/-! ## What starts like a function -/

/-- The entity that is read, if there is one, is of one of some kinds wherever it stands. -/
def Outcome.Declares (kinds : List EntityKind) : Outcome → Prop
  | .read item _ => ∃ d ∈ item.draft?, ∃ kind ∈ kinds, d.form = .plain kind
  | .failed _ _ _ => True

theorem Outcome.Fails.declares {o : Outcome} (h : o.Fails) (kinds : List EntityKind) :
    o.Declares kinds := by
  obtain ⟨_, _, _, rfl⟩ := h
  trivial

namespace Construct

theorem Class.readEnd_declares {lead : Lead} {kind : EntityKind} {access : Access} {h : Head}
    {kinds : List EntityKind} (hk : kind ∈ kinds) :
    (readEnd lead kind access h).Declares kinds := by
  unfold readEnd
  split
  · split
    · trivial
    · exact ⟨_, rfl, kind, hk, rfl⟩
  · split
    · exact ⟨_, rfl, kind, hk, rfl⟩
    · split
      · exact ⟨_, rfl, kind, hk, rfl⟩
      · split
        · trivial
        · exact ⟨_, rfl, kind, hk, rfl⟩

theorem Enum.readEnd_declares {lead : Lead} {h : Head} {kinds : List EntityKind}
    (hk : .enumDecl ∈ kinds) : (readEnd lead h).Declares kinds := by
  unfold readEnd
  split
  · split
    · trivial
    · exact ⟨_, rfl, _, hk, rfl⟩
  · split
    · split
      · trivial
      · dsimp only
        split
        · split <;> exact ⟨_, rfl, _, hk, rfl⟩
        · exact ⟨_, rfl, _, hk, rfl⟩
    · split
      · exact ⟨_, rfl, _, hk, rfl⟩
      · split
        · trivial
        · exact ⟨_, rfl, _, hk, rfl⟩

/-- The kinds of the entities that open with the keyword of a type. -/
def typeKinds : List EntityKind := [.classDecl, .structDecl, .enumDecl]

variable {ds : Definitions} {merge : Bool} {t : Token} {behind : List Token}

theorem Class.read_declaration_or_declares (ds : Definitions) (lead : Lead) (keyword : Token)
    (rest : List Token) :
    read ds lead keyword rest = Declaration.read ds lead (keyword :: rest) ∨
      (read ds lead keyword rest).Declares typeKinds := by
  unfold read
  split
  · exact .inl rfl
  · right
    split
    · next he => exact (head_fails he).declares _
    · split <;> exact readEnd_declares (by decide)

theorem Enum.read_declaration_or_declares (ds : Definitions) (lead : Lead) (keyword : Token)
    (rest : List Token) {kinds : List EntityKind} (hk : .enumDecl ∈ kinds) :
    read ds lead keyword rest = Declaration.read ds lead (keyword :: rest) ∨
      (read ds lead keyword rest).Declares kinds := by
  unfold read
  split
  · exact .inl rfl
  · right
    split
    · next outcome he =>
      obtain ⟨_, _, _, _, _, rfl⟩ := Head.readClause_eq_error he
      trivial
    · exact readEnd_declares hk

/-- What starts like a function is read as one, if it does not open with the keyword of a
type. -/
theorem read_function_of_isFunction (merge : Bool)
    (h : Declaration.isFunction (t :: behind) = true)
    (ht : t.kind ∉ [.keyword .classKw, .keyword .structKw, .keyword .unionKw, .keyword .enumKw]) :
    read .empty merge t behind = Function.read .empty (.none t) (t :: behind) := by
  have hfunction : ∀ lead, Declaration.read .empty lead (t :: behind)
      = Function.read .empty lead (t :: behind) := fun lead => if_pos h
  have hother : t.kind ∉ _ := fun hm =>
    Bool.false_ne_true ((Declaration.isFunction_of_other hm).symm.trans h)
  simp only [List.mem_cons, List.not_mem_nil, or_false, not_or] at hother ht
  unfold read
  split
  -- what starts like another construct starts like no function
  all_goals try (next hk => simp [hk] at hother; done)
  all_goals try (next hk => simp [hk] at ht; done)
  · next hk =>
    split
    · next hn =>
      rw [Declaration.isFunction_of_inline_namespace hk (eq_of_beq hn)] at h
      cases h
    · exact hfunction _
  · next hk =>
    split
    · next hm =>
      rw [Declaration.isFunction_of_linkage hk hm] at h
      cases h
    · exact hfunction _
  · exact hfunction _
  · exact hfunction _

/-- **What starts like a function** is read as one, unless it turns out to be a type. -/
theorem read_of_isFunction (merge : Bool) (h : Declaration.isFunction (t :: behind) = true) :
    read .empty merge t behind = Function.read .empty (.none t) (t :: behind) ∨
      (read .empty merge t behind).Declares typeKinds := by
  by_cases ht : t.kind ∈
      [.keyword .classKw, .keyword .structKw, .keyword .unionKw, .keyword .enumKw]
  · have hfunction : Declaration.read .empty (.none t) (t :: behind)
        = Function.read .empty (.none t) (t :: behind) := if_pos h
    simp only [List.mem_cons, List.not_mem_nil, or_false] at ht
    rw [← hfunction]
    rcases ht with hk | hk | hk | hk
    · simp only [read, hk]
      exact Class.read_declaration_or_declares ..
    · simp only [read, hk]
      exact Class.read_declaration_or_declares ..
    · simp only [read, hk]
      exact Class.read_declaration_or_declares ..
    · simp only [read, hk]
      exact Enum.read_declaration_or_declares _ _ _ _ (by decide)
  · exact .inl (read_function_of_isFunction merge h ht)

end Construct

namespace Building

variable {policy : Recovery.Policy} {merge : Bool} {size n : Nat} {b done : Building}
  {ts : List Token}

/-- **Reading idle tokens** adds nothing. -/
theorem exists_run_of_idle (h : Tokens.Idle n ts) (hb : b.scopes.inner.length = n) :
    ∃ done, run policy merge size b ts = .ok done ∧ done.outline = b.outline ∧
      done.pending = b.pending := by
  induction h generalizing b with
  | done front => exact ⟨b, run_of_nil front, rfl, rfl⟩
  | @semicolon n ts behind t front ht _ ih =>
    have hread : Construct.read b.definitions merge t behind = .read .nothing behind := by
      simp only [Construct.read, ht]
    rw [run_of_cons front, hread]
    exact ih hb
  | @linkage n ts behind members t front ht hm _ ih =>
    have hread : Construct.read b.definitions merge t behind = .read .linkage members := by
      simp only [Construct.read, ht, hm]
    rw [run_of_cons front, hread]
    exact @ih (b.withScopes b.scopes.pushTransparent) (by rw [← hb]; rfl)
  | @close n ts behind t front ht _ ih =>
    rw [run_of_cons front, Construct.read_close b.definitions merge ht]
    cases hi : b.scopes.inner with
    | nil =>
      rw [hi] at hb
      cases hb
    | cons frame frames =>
      have hadd : b.add size (.close t) = b.withScopes ⟨frames, b.scopes.outermost⟩ := by
        simp only [add, Scopes.pop?, hi]
      have hlength : frames.length = n := by
        rw [hi] at hb
        exact Nat.succ.inj hb
      show ∃ done, run policy merge size (b.add size (.close t)) _ = .ok done ∧ _
      rw [hadd]
      exact @ih (b.withScopes ⟨frames, b.scopes.outermost⟩) hlength

theorem size_add (b : Building) (size : Nat) (item : Item) :
    (b.add size item).outline.entities.size
      = b.outline.entities.size + (item.draft?.map fun _ => 1).getD 0 := by
  cases item with
  | close brace =>
    simp only [add]
    split <;> simp [Item.draft?, withScopes, report, Outline.report]
  | _ => simp [add, emit, Item.draft?, withScopes, report, Outline.report]

/-- Entities are only ever added. -/
theorem size_le_of_run (hr : run policy merge size b ts = .ok done) :
    b.outline.entities.size ≤ done.outline.entities.size := by
  refine related_of_run (R := fun b b' => b.outline.entities.size ≤ b'.outline.entities.size)
    (fun _ => Nat.le_refl _) Nat.le_trans (fun b item => ?_) (fun _ _ => Nat.le_refl _) hr
  rw [size_add]
  exact Nat.le_add_right _ _

theorem size_finish (b : Building) :
    b.finish.entities.size
      = b.outline.entities.size + (b.pending.map fun _ => 1).getD 0 := by
  unfold finish
  cases b.pending <;> simp

/-- **Tokens from which nothing is added** are idle. -/
theorem idle_of_run (hr : run policy merge size b ts = .ok done)
    (hd : done.outline.diagnostics = #[])
    (hs : done.outline.entities.size = b.outline.entities.size)
    (hk : ∀ t ∈ ts, t.kind ≠ .punct .hash ∧ t.kind.isComment = false) :
    Tokens.Idle b.scopes.inner.length ts := by
  induction b, ts using run_induction merge with
  | nil b ts hnil => exact .done hnil
  | cons b ts t behind front ih =>
    obtain ⟨item, rest, ho, hmore⟩ := exists_read_of_run front hr hd
    have hsize := size_add b size item
    have hle := size_le_of_run hmore
    have hdraft : item.draft? = none := by
      cases hi : item.draft? with
      | none => rfl
      | some d =>
        rw [hi] at hsize
        simp only [Option.map_some, Option.getD_some] at hsize
        omega
    have hfront : t :: behind <:+ ts := front ▸ Tokens.skipTrivia_suffix ts
    have hrest : rest <:+ t :: behind := by
      have hsuffix := Construct.read_rest_suffix b.definitions merge t behind
      rw [ho] at hsuffix
      exact hsuffix.trans (List.suffix_cons t behind)
    obtain ⟨hhash, hcomment⟩ := hk t (hfront.mem List.mem_cons_self)
    rw [hdraft] at hsize
    have hidle := ih (b.add size item)
    rw [ho] at hidle
    have hidle := hidle hmore (hs.trans hsize.symm)
      fun u hu => hk u ((hrest.trans hfront).mem hu)
    rcases Construct.cases_of_read ho hdraft hhash hcomment with
      ⟨ht, rfl, rfl⟩ | ⟨ht, rfl, hm⟩ | ⟨ht, rfl, rfl⟩
    · exact .semicolon front ht hidle
    · exact .linkage front ht hm hidle
    · cases hi : b.scopes.inner with
      | nil =>
        -- a brace that closes no scope is reported
        have hreport : (b.add size (.close t)).outline.diagnostics.toList ≠ [] := by
          simp [add, Scopes.pop?, hi, report, Outline.report]
        have hprefix := diagnostics_prefix_of_run hmore
        rw [hd] at hprefix
        exact absurd (List.prefix_nil.mp hprefix) hreport
      | cons frame frames =>
        have hadd : b.add size (.close t) = b.withScopes ⟨frames, b.scopes.outermost⟩ := by
          simp only [add, Scopes.pop?, hi]
        rw [hadd] at hidle
        exact .close front ht hidle

end Building

/-! ## One entity -/

/-- An outline without diagnostics has a single entity below the root. -/
structure Outline.HasOnly (o : Outline) (e : Entity) : Prop where
  diagnostics : o.diagnostics = #[]
  size : o.size = 1
  entity : o.get? 1 = some e

/-- An entity is what a draft amounts to at the top of a header, as far as its kind, its name
and its flags go. -/
structure Draft.Makes (d : Draft) (e : Entity) : Prop where
  kind : e.kind = d.form.kindIn (Outline.rootEntity []) d.name
  name : e.name = d.name
  flags : e.flags = d.flags

namespace Building

/-- The first entity that is added is made at the top of the header. -/
theorem first_entity (file : String) (source : Text) (ds : Definitions) (size : Nat) {item : Item}
    {d : Draft} (hd : item.draft? = some d) :
    ∃ e, ((start file source ds).add size item).outline.get? 1 = some e ∧ d.Makes e := by
  have hemit : ∀ b : Building, b.outline.entities = #[Outline.rootEntity source] →
      b.scopes.current.entity = Outline.root →
      ∃ e, (b.emit d).outline.get? 1 = some e ∧ d.Makes e := by
    intro b he hs
    have hsize : b.outline.entities.size = 1 := by rw [he]; rfl
    have hget := Outline.get?_attach_size b.outline b.scopes.current.entity
      (d.toEntity b.enclosing b.scopes.current.access b.pending)
    rw [hsize] at hget
    have henclosing : b.enclosing = Outline.rootEntity source := by
      rw [enclosing, Outline.get?, he, hs]
      rfl
    refine ⟨_, hget, ?_, rfl, rfl⟩
    show d.form.kindIn b.enclosing d.name = _
    rw [henclosing]
    cases d.form <;> rfl
  cases item with
  | entity d' =>
    obtain rfl := Option.some.inj hd
    exact hemit _ rfl rfl
  | scope d' access =>
    obtain rfl := Option.some.inj hd
    exact hemit _ rfl rfl
  | access level d' =>
    obtain rfl := Option.some.inj hd
    exact hemit _ rfl rfl
  | definition definition d' =>
    obtain rfl := Option.some.inj hd
    exact hemit _ rfl rfl
  | suspect warning d' =>
    obtain rfl := Option.some.inj hd
    exact hemit _ rfl rfl
  | _ => cases hd

end Building

section

variable {options : Options} {file : String} {source : Text} {o : Outline} {e : Entity}
  {t : Token} {behind rest : List Token} {d : Draft}

theorem Options.definitions_of_nil (h : options.predefined = []) :
    options.definitions = .empty := by
  rw [definitions, h]
  rfl

/-- **A header of one entity** starts with the construct that makes it, if that makes one at
all, and adds nothing afterwards. -/
theorem exists_read_of_hasOnly [Alphabet] (hm : options.predefined = [])
    (h : parse options file source = .ok o) (ho : o.HasOnly e)
    (hk : ∀ t ∈ Token.scan options.limits source,
      t.kind ≠ .punct .hash ∧ t.kind.isComment = false) :
    ∃ t behind item rest,
      Tokens.skipTrivia (Token.scan options.limits source).dropLast = t :: behind ∧
      Construct.read .empty options.mergeLineComments t behind = .read item rest ∧
      (∀ d ∈ item.draft?, d.Makes e) ∧ ∀ d, item = .entity d → Tokens.Idle 0 rest := by
  obtain ⟨-, done, hrun, rfl⟩ := parse_eq_ok_iff.mp h
  rw [Options.definitions_of_nil hm] at hrun
  have hd : done.outline.diagnostics = #[] := done.diagnostics_finish ▸ ho.diagnostics
  cases hfront : Tokens.skipTrivia (Token.scan options.limits source).dropLast with
  | nil =>
    -- a header of trivia has no entity
    obtain rfl := Except.ok.inj ((Building.run_of_nil hfront).symm.trans hrun)
    cases ho.size
  | cons t behind =>
    obtain ⟨item, rest, hread, hmore⟩ := Building.exists_read_of_run hfront hrun hd
    have hrest : rest <:+ (Token.scan options.limits source).dropLast := by
      have hsuffix := Construct.read_rest_suffix .empty options.mergeLineComments t behind
      rw [show Construct.read .empty _ t behind = .read item rest from hread] at hsuffix
      exact hsuffix.trans (Tokens.tail_suffix_of_skipTrivia hfront)
    have hadded : ∀ d, item.draft? = some d →
        Tokens.Idle ((Building.start file source .empty).add source.size item).scopes.inner.length
          rest ∧
        done.finish = ((Building.start file source .empty).add source.size item).outline := by
      intro d hdraft
      have hsize := Building.size_add (.start file source .empty) source.size item
      rw [hdraft] at hsize
      have hle := Building.size_le_of_run hmore
      have hfinish := Building.size_finish done
      have htotal : done.finish.entities.size - 1 = 1 := ho.size
      have hone : (Building.start file source .empty).outline.entities.size = 1 := rfl
      simp only [Option.map_some, Option.getD_some, hone] at hsize
      have hpending : done.pending = none := by
        cases hp : done.pending with
        | none => rfl
        | some c =>
          rw [hp] at hfinish
          simp only [Option.map_some, Option.getD_some] at hfinish
          omega
      rw [hpending] at hfinish
      simp only [Option.map_none, Option.getD_none] at hfinish
      have hidle := Building.idle_of_run hmore hd (by omega)
        fun u hu => hk u (List.dropLast_subset _ (hrest.mem hu))
      obtain ⟨done', hrun', hdone', -⟩ := Building.exists_run_of_idle hidle rfl
      obtain rfl := Except.ok.inj (hrun'.symm.trans hmore)
      refine ⟨hidle, ?_⟩
      rw [Building.finish, hpending, hdone']
    refine ⟨t, behind, item, rest, rfl, hread, fun d hdraft => ?_, ?_⟩
    · obtain ⟨e', he', hmakes⟩ := Building.first_entity file source .empty source.size hdraft
      rw [← (hadded d hdraft).2, ho.entity] at he'
      exact Option.some.inj he' ▸ hmakes
    · rintro d rfl
      exact (hadded d rfl).1

/-- A header of one construct that makes an entity has the outline that this entity makes. -/
theorem parse_of_read [Alphabet] (hm : options.predefined = [])
    (hs : (Token.scan options.limits source).any Token.isError = false)
    (hfront : Tokens.skipTrivia (Token.scan options.limits source).dropLast = t :: behind)
    (hread : Construct.read .empty options.mergeLineComments t behind = .read (.entity d) rest)
    (hidle : Tokens.Idle 0 rest) :
    parse options file source
      = .ok ((Building.start file source .empty).add source.size (.entity d)).outline := by
  obtain ⟨done, hrun, houtline, hpending⟩ : ∃ done,
      Building.run options.recovery options.mergeLineComments source.size
        ((Building.start file source .empty).add source.size (.entity d)) rest = .ok done ∧ _ :=
    Building.exists_run_of_idle hidle rfl
  have hfinish : done.finish
      = ((Building.start file source .empty).add source.size (.entity d)).outline := by
    rw [Building.finish, hpending, ← houtline]
    rfl
  refine parse_eq_ok_iff.mpr ⟨hs, done, ?_, hfinish.symm⟩
  have hfirst : Construct.read (Building.start file source .empty).definitions
      options.mergeLineComments t behind = .read (.entity d) rest := hread
  rw [Options.definitions_of_nil hm, Building.run_of_cons hfront, hfirst]
  exact hrun

/-- The outline that one entity makes has only this entity. -/
theorem hasOnly_of_add (file : String) (source : Text) (ds : Definitions) (size : Nat)
    (he : ((Building.start file source ds).add size (.entity d)).outline.get? 1 = some e) :
    ((Building.start file source ds).add size (.entity d)).outline.HasOnly e :=
  ⟨rfl, by rw [Outline.size, Building.size_add]; rfl, he⟩

/-- **A header of one construct** that makes an entity has only this entity. -/
theorem hasOnly_of_read [Alphabet] (hm : options.predefined = [])
    (hs : (Token.scan options.limits source).any Token.isError = false)
    (hfront : Tokens.skipTrivia (Token.scan options.limits source).dropLast = t :: behind)
    (hread : Construct.read .empty options.mergeLineComments t behind = .read (.entity d) rest)
    (hidle : Tokens.Idle 0 rest) :
    ∃ o e, parse options file source = .ok o ∧ o.HasOnly e ∧ d.Makes e := by
  obtain ⟨e, he, hmakes⟩ :=
    Building.first_entity file source .empty source.size (show (Item.entity d).draft? = d from rfl)
  exact ⟨_, e, parse_of_read hm hs hfront hread hidle, hasOnly_of_add _ _ _ _ he, hmakes⟩

end

end HeaderOutline
