import HeaderOutline.Proofs.Known
import HeaderOutline.Proofs.Nesting
import HeaderOutline.Proofs.Values
import HeaderOutline.Text.Unicode

/-! # Kinds agree with nesting

The kind of a function or a variable is decided when it is put into the innermost open scope: there
it is a member if the scope is a class, and a constructor if it has the name of the class.  A new
entity therefore fits the one that it belongs to (`Draft.Formed.fitsIn`); and since kinds and names
never change, it still fits it in the end (`Outline.Fitting`).

Only what opens a scope gets children, and that is a namespace, a class or a struct whose signature
ends with a brace (`Outline.Nested`).  Together these facts are `parse_kinds`.
-/
namespace HeaderOutline

/-- An entity fits the one that it belongs to: it is a member of it exactly if that is a class,
and a constructor exactly if it has the name of that class, too. -/
structure Entity.FitsIn (e scope : Entity) : Prop where
  member : e.kind = .method ∨ e.kind = .constructor ∨ e.kind = .field →
    scope.kind.isClassLike = true
  free : e.kind = .function ∨ e.kind = .variableDecl → scope.kind.isClassLike = false
  named : e.kind = .constructor → e.name = scope.name ∧ e.name ≠ []
  other : e.kind = .method → e.name ≠ scope.name
  used : e.kind ≠ .root ∧ e.kind ≠ .template

/-- Only kinds and names count. -/
theorem Entity.FitsIn.of_eq {e e' scope scope' : Entity} (h : e.FitsIn scope)
    (hkind : e'.kind = e.kind) (hname : e'.name = e.name) (hscope : scope'.kind = scope.kind)
    (hscopeName : scope'.name = scope.name) : e'.FitsIn scope' := by
  constructor
  · rw [hkind, hscope]
    exact h.member
  · rw [hkind, hscope]
    exact h.free
  · rw [hkind, hname, hscopeName]
    exact h.named
  · rw [hkind, hname, hscopeName]
    exact h.other
  · rw [hkind]
    exact h.used

/-! ## Drafts -/

/-- A draft of which an entity can be made that fits its scope: what is no function or variable is
of a kind of its own, and a function has a name. -/
structure Draft.Formed (d : Draft) : Prop where
  plain : ∀ kind, d.form = .plain kind →
    kind.isDeclared = false ∧ kind ≠ .root ∧ kind ≠ .template
  named : d.form = .function → d.name ≠ []

/-- **A new entity fits its scope.** -/
theorem Draft.Formed.fitsIn {d : Draft} (h : d.Formed) (scope : Entity) (access : Access)
    (comment : Option DocComment) : (d.toEntity scope access comment).FitsIn scope := by
  have hkind : (d.toEntity scope access comment).kind = d.form.kindIn scope d.name := rfl
  have hname : (d.toEntity scope access comment).name = d.name := rfl
  generalize d.toEntity scope access comment = e at hkind hname
  cases hform : d.form with
  | plain kind =>
    obtain ⟨hdeclared, hused⟩ := h.plain kind hform
    rw [hform] at hkind
    obtain rfl : e.kind = kind := hkind
    -- a kind that depends on the scope is none of its own
    have hnot : ∀ k : EntityKind, k.isDeclared = true → e.kind ≠ k := by
      rintro k hk rfl
      cases hdeclared.symm.trans hk
    refine ⟨?_, ?_, fun hc => absurd hc (hnot _ rfl), fun hm => absurd hm (hnot _ rfl), hused⟩
    · rintro (hm | hc | hf)
      · exact absurd hm (hnot _ rfl)
      · exact absurd hc (hnot _ rfl)
      · exact absurd hf (hnot _ rfl)
    · rintro (hf | hv)
      · exact absurd hf (hnot _ rfl)
      · exact absurd hv (hnot _ rfl)
  | destructor =>
    rw [hform] at hkind
    constructor <;> simp [hkind, Form.kindIn]
  | variableDecl =>
    rw [hform] at hkind
    by_cases hclass : scope.kind.isClassLike = true
    · constructor <;> simp [hkind, Form.kindIn, hclass]
    · constructor <;> simp [hkind, Form.kindIn, hclass]
  | function =>
    have hne := h.named hform
    rw [hform] at hkind
    by_cases hclass : scope.kind.isClassLike = true
    · by_cases hself : scope.name = d.name
      · constructor <;> simp [hkind, hname, Form.kindIn, hclass, hself, hne]
      · constructor <;> simp [hkind, hname, Form.kindIn, hclass, hself, Ne.symm hself]
    · constructor <;> simp [hkind, Form.kindIn, hclass]

namespace Construct

variable {ds : Definitions} {lead : Lead} {t : Token} {ts behind rest : List Token}
  {item : Item} {d : Draft}

namespace Function

/-- What has been read of a function up to its semicolon or its body. -/
def Extent.progress? : Extent → Option Progress
  | .declared p _ _ | .defined p _ _ => some p
  | .broken _ | .unclosed _ => none

/-- A token leaves the name of a function as it is, unless it is an identifier and becomes it. -/
theorem Progress.name_read (p : Progress) (t : Token) (rest : List Token) :
    (p.read t rest).name = p.name ∨ (p.read t rest).name = some t.text := by
  have hread : (p.read t rest).name = (p.note t rest).name := by
    unfold read
    split <;> rfl
  rw [hread]
  unfold note
  dsimp only
  split
  case h_1 =>
    left
    unfold openParen
    split
    · split <;> rfl
    · rfl
  case h_2 =>
    left
    unfold closeParen
    dsimp only
    split
    · rfl
    · split <;> rfl
  case h_3 =>
    split
    · exact .inr rfl
    · exact .inl rfl
  case h_10 => exact .inl rfl
  all_goals
    left
    split <;> rfl

/-- The name of an operator starts with its keyword. -/
theorem join_operatorTokens_ne_nil {op : Token} (hk : op.kind = .keyword .operatorKw)
    (hne : op.text ≠ []) (rest : List Token) : Tokens.join (operatorTokens op rest).1 ≠ [] := by
  rw [operatorTokens, Tokens.join, List.cons_append, Tokens.joinFrom, hk]
  simp [Kind.isTrivia, Kind.isComment, hne]

/-- A name is not empty if no token is. -/
theorem name_extent_ne_nil {done : List Token} {p q : Progress} (hts : ∀ t ∈ ts, t.text ≠ [])
    (hp : p.name ≠ some []) (hq : (extent done p ts).progress? = some q) : q.name ≠ some [] := by
  fun_induction extent done p ts with
  | case1 | case2 | case4 => cases hq
  | case3 => exact Option.some.inj hq ▸ hp
  | case5 _ _ _ _ _ _ _ _ _ _ hblock ih =>
    exact ih (fun u hu => hts u ((Tokens.block?_suffix hblock).subset hu)) hp hq
  | case6 => exact Option.some.inj hq ▸ hp
  | case7 done p t ts _ _ _ hop ih =>
    simp only [Bool.and_eq_true, beq_iff_eq] at hop
    have htail := (operatorTokens_suffix t ts).trans (List.suffix_cons t ts)
    refine ih (fun u hu => hts u (htail.subset hu)) (fun hname => ?_) hq
    exact join_operatorTokens_ne_nil hop.2 (hts t List.mem_cons_self) ts (Option.some.inj hname)
  | case8 done p t ts _ _ _ _ ih =>
    refine ih (fun u hu => hts u (List.mem_cons_of_mem t hu)) (fun hname => ?_) hq
    rcases p.name_read t ts with hkept | hset
    · exact hp (hkept ▸ hname)
    · exact hts t List.mem_cons_self (Option.some.inj (hset.symm.trans hname))

theorem read_name_ne_nil (hts : ∀ t ∈ ts, t.text ≠ []) (h : read ds lead ts = .read item rest)
    (hd : item.draft? = some d) : d.name ≠ [] := by
  have hextent : ∀ q, (extent [] .start ts).progress? = some q → q.name ≠ some [] :=
    fun q hq => name_extent_ne_nil hts (by simp [Progress.start]) hq
  unfold read at h
  split at h
  · cases h
  · cases h
  · next p taken after he =>
    split at h
    · cases h
    · next name hname =>
      obtain ⟨rfl, -⟩ := Outcome.read.inj h
      obtain rfl := Option.some.inj hd
      rintro rfl
      exact hextent p (by rw [he]; rfl) hname
  · next p taken behind he =>
    split at h
    · cases h
    · next name hname =>
      split at h
      · cases h
      · obtain ⟨rfl, -⟩ := Outcome.read.inj h
        obtain rfl := Option.some.inj hd
        rintro rfl
        exact hextent p (by rw [he]; rfl) hname

end Function

theorem formed_of_plain {kind : EntityKind} (hform : d.form = .plain kind)
    (hd : kind.isDeclared = false) (hr : kind ≠ .root) (ht : kind ≠ .template) : d.Formed := by
  constructor
  · intro k hk
    obtain rfl := Form.plain.inj (hform.symm.trans hk)
    exact ⟨hd, hr, ht⟩
  · intro hf
    cases hform.symm.trans hf

/-- **What a construct makes an entity of** can fit its scope. -/
theorem read_formed {merge : Bool} (hts : ∀ u ∈ t :: behind, u.text ≠ [])
    (h : read ds merge t behind = .read item rest) (hd : item.draft? = some d) : d.Formed := by
  cases read_source ds merge t behind with
  | plain hplain =>
    obtain ⟨kind, hform, hk⟩ := (hplain.2 item rest h d hd).form
    refine formed_of_plain hform (EntityKind.isDeclared_of_isPlain hk) ?_ ?_
    · rintro rfl
      cases hk
    · rintro rfl
      cases hk
  | definition hash _ _ _ hdef =>
    obtain ⟨name, after, -, hread⟩ := hdef
    obtain ⟨rfl, -⟩ := Outcome.read.inj (h.symm.trans hread)
    obtain rfl := Option.some.inj hd
    exact formed_of_plain rfl rfl nofun nofun
  | typedefDecl keyword _ _ ho =>
    exact formed_of_plain (Typedef.draft_form (ho ▸ h) hd) rfl nofun nofun
  | usingDecl lead keyword _ _ _ ho =>
    exact formed_of_plain (Using.draft_form (ho ▸ h) hd) rfl nofun nofun
  | function lead ts hl ho =>
    have hname := Function.read_name_ne_nil (fun u hu => hts u (hl.suffix.subset hu)) (ho ▸ h) hd
    have hdeclared := Function.draft_isDeclared (ho ▸ h) hd
    refine ⟨fun kind hform => ?_, fun _ => hname⟩
    rw [hform] at hdeclared
    cases hdeclared
  | variableDecl lead ts hl ho =>
    obtain ⟨_, _, _, _, -, -, rfl⟩ := Variable.exists_of_read (ho ▸ h)
    obtain rfl := Option.some.inj hd
    exact ⟨nofun, nofun⟩

end Construct

/-! ## The whole reading -/

/-- All entities fit the ones that they belong to. -/
def Outline.Fitting (o : Outline) : Prop :=
  ∀ i p e q, o.get? i = some e → e.parent = some p → o.get? p = some q → e.FitsIn q

namespace Outline

variable {o : Outline} {p : EntityId} {e q : Entity}

theorem Fitting.ofSource (file : String) (source : Text) :
    (Outline.ofSource file source).Fitting := by
  intro i p e q he hp _
  have hlt := lt_size_of_get? he
  obtain rfl : i = 0 := Nat.lt_one_iff.mp hlt
  obtain rfl : rootEntity source = e := Option.some.inj he
  cases hp

/-- A new entity that fits its scope leaves the others as they are. -/
theorem Fitting.attach (h : o.Fitting) (hl : o.Parented) (hq : o.get? p = some q)
    (he : e.FitsIn q) : (o.attach p e).Fitting := by
  intro i r x y hx hr hy
  have hhost : o.hostOf p = p := if_pos (lt_size_of_get? hq)
  have hlt := ((hl.attach p e).parent_lt (i := i) (p := r) (by rw [parent?, hx]; exact hr))
  rw [size_entities_attach] at hlt
  have hold : ∀ {j z}, j < o.entities.size → (o.attach p e).get? j = some z →
      ∃ z', o.get? j = some z' ∧ z.kind = z'.kind ∧ z.name = z'.name ∧ z.parent = z'.parent := by
    intro j z hj hz
    obtain ⟨z', hz'⟩ := exists_get? hj
    obtain ⟨w, hw, hkind, hname, -, hparent, -⟩ := exists_get?_attach p e hz'
    obtain rfl := Option.some.inj (hw.symm.trans hz)
    exact ⟨z', hz', hkind, hname, hparent⟩
  rcases Nat.lt_succ_iff_lt_or_eq.mp hlt.2 with hi | rfl
  · obtain ⟨x', hx', hkind, hname, hparent⟩ := hold hi hx
    obtain ⟨y', hy', hkind', hname', -⟩ := hold (Nat.lt_trans hlt.1 hi) hy
    exact (h i r x' y' hx' (hparent ▸ hr) hy').of_eq hkind hname hkind' hname'
  · rw [get?_attach_size] at hx
    obtain rfl := Option.some.inj hx
    obtain rfl : p = r := hhost ▸ Option.some.inj hr
    obtain ⟨y', hy', hkind', hname', -⟩ := hold (lt_size_of_get? hq) hy
    obtain rfl := Option.some.inj (hy'.symm.trans hq)
    exact he.of_eq rfl rfl hkind' hname'

end Outline

namespace Building

variable {b : Building} {policy : Recovery.Policy} {merge : Bool} {size : Nat}

/-- A building whose scopes nest and whose entities fit. -/
structure Fitting (b : Building) : Prop where
  nested : b.Nested
  outline : b.outline.Fitting

/-- Only the entities, the innermost scope and what waits count for what is added next. -/
theorem Fitting.emit (h : b.Fitting) {d : Draft} (hd : d.Formed) :
    (b.emit d).outline.Fitting := by
  obtain ⟨others, hopened⟩ := exists_opened b.scopes
  obtain ⟨hlt, -⟩ := h.nested.outline.scopes b.scopes.current.entity
    (by rw [hopened]; exact List.mem_cons_self)
  obtain ⟨q, hq⟩ := Outline.exists_get? hlt
  have henclosing : b.enclosing = q := by rw [enclosing, hq, Option.getD_some]
  exact h.outline.attach h.nested.outline.linked.toParented hq
    (henclosing ▸ hd.fitsIn b.enclosing _ _)

theorem Fitting.of_eq {b' : Building} (h : b.Fitting)
    (he : b'.outline.entities = b.outline.entities) (hn : b'.Nested) : b'.Fitting := by
  refine ⟨hn, fun i p e q => ?_⟩
  rw [Outline.get?, Outline.get?, he]
  exact h.outline i p e q

/-- **One construct keeps the entities fitting.** -/
theorem Fitting.add (h : b.Fitting) (size : Nat) {item : Item} {rest : List Token}
    (ho : (Outcome.read item rest).Opens) (hd : ∀ d ∈ item.draft?, d.Formed) :
    (b.add size item).Fitting := by
  have hn := h.nested.add size ho
  cases item with
  | entity d => exact ⟨hn, h.emit (hd d rfl)⟩
  | scope d access => exact ⟨hn, h.emit (hd d rfl)⟩
  | access level d =>
    have hset := opened_setAccess b.scopes level
    have hb : (b.withScopes (b.scopes.setAccess level)).Fitting :=
      h.of_eq rfl (h.nested.of_eq rfl hset.1 hset.2)
    exact ⟨hn, hb.emit (hd d rfl)⟩
  | definition definition d =>
    have hb : ({ b with definitions := b.definitions.define definition } : Building).Fitting :=
      h.of_eq rfl (h.nested.of_eq rfl rfl rfl)
    exact ⟨hn, hb.emit (hd d rfl)⟩
  | suspect warning d =>
    have hb : (b.report (warning.diagnostic size)).Fitting :=
      h.of_eq rfl (h.nested.of_eq rfl rfl rfl)
    exact ⟨hn, hb.emit (hd d rfl)⟩
  | close brace =>
    refine h.of_eq ?_ hn
    simp only [Building.add]
    split <;> rfl
  | linkage | documentation | nothing => exact h.of_eq rfl hn

/-- **A whole reading keeps the entities fitting.** -/
theorem Fitting.run [Alphabet] {done : Building} {ts : List Token} (h : b.Fitting)
    (hw : Token.Words ts)
    (hts : ∀ t ∈ ts, t.text ≠ []) (hr : run policy merge size b ts = .ok done) :
    done.Fitting := by
  induction b, ts using run_induction merge with
  | nil b ts hnil =>
    obtain rfl := Except.ok.inj ((run_of_nil hnil).symm.trans hr)
    exact h
  | cons b ts t behind front ih =>
    obtain ⟨b', ha, hr⟩ := exists_after_of_run front hr
    have hfront : t :: behind <:+ ts := front ▸ Tokens.skipTrivia_suffix ts
    have hnext := next_suffix_of_front b.definitions merge front
    refine ih b' ?_ (hw.suffix hnext) (fun u hu => hts u (hnext.subset hu)) hr
    have hopens := Construct.read_opens b.definitions merge (hw.suffix hfront)
    obtain ⟨item, rest, ho, rfl⟩ | ⟨_, _, _, -, -, rfl⟩ := after_eq_ok ha
    · rw [ho] at hopens
      exact h.add size hopens fun d hd =>
        Construct.read_formed (fun u hu => hts u (hfront.subset hu)) ho hd
    · exact h.of_eq rfl (h.nested.of_eq rfl rfl rfl)

/-- The comment that the header ends with fits the root. -/
theorem Fitting.finish (h : b.Fitting) : b.finish.Fitting := by
  have hl := h.nested.outline.linked.toParented
  unfold Building.finish
  split
  · next comment _ =>
    obtain ⟨r, hr⟩ := Outline.exists_get? hl.size_pos
    refine h.outline.attach hl hr ?_
    constructor <;> simp [trailing, Entity.bare]
  · exact h.outline

end Building

/-- **Kinds agree with nesting.**  In the outline of a header, let an entity lie below the root.  It
belongs to another one, and if it has children itself, it is a namespace, a class or a struct whose
signature ends with a brace.  A method, a constructor or a field belongs to a class or a struct, a
function or a variable to neither; a constructor has the name of its class, which is not empty, and
a method never has it.  The kinds of the root and of templates do not occur. -/
theorem parse_kinds [Alphabet] {options : Options} {file : String} {source : Text} {o : Outline}
    {i : EntityId} {e : Entity} (h : parse options file source = .ok o) (hi : 0 < i)
    (he : o.get? i = some e) :
    ∃ p scope, e.parent = some p ∧ o.get? p = some scope ∧
      (e.children ≠ #[] → (e.kind = .namespaceDecl ∨ e.kind = .classDecl ∨ e.kind = .structDecl) ∧
        " \x7b".toList <:+ e.signature) ∧
      (e.kind = .method ∨ e.kind = .constructor ∨ e.kind = .field →
        scope.kind = .classDecl ∨ scope.kind = .structDecl) ∧
      (e.kind = .function ∨ e.kind = .variableDecl →
        scope.kind ≠ .classDecl ∧ scope.kind ≠ .structDecl) ∧
      (e.kind = .constructor → e.name = scope.name ∧ scope.name ≠ []) ∧
      (e.kind = .method → e.name ≠ scope.name) ∧
      e.kind ≠ .root ∧ e.kind ≠ .template := by
  have hnested := parse_nested h
  have hl := hnested.linked
  have hfitting : o.Fitting := by
    obtain ⟨hany, b, hr, rfl⟩ := parse_eq_ok_iff.mp h
    have hstart : (Building.start file source options.definitions).Fitting :=
      ⟨⟨Outline.Nested.ofSource file source, rfl⟩, Outline.Fitting.ofSource file source⟩
    refine (hstart.run ?_ (Token.whole_scan hany).text_ne_nil hr).finish
    intro t ht hk
    exact Token.isWord_of_scan (List.dropLast_subset _ ht) hk
  obtain ⟨p, scope, hp, -, hscope, -⟩ := hl.parent i e hi he
  have hfits := hfitting i p e scope he hp hscope
  have hclass : ∀ {k : EntityKind}, k.isClassLike = true ↔ k = .classDecl ∨ k = .structDecl := by
    intro k
    cases k <;> simp [EntityKind.isClassLike]
  refine ⟨p, scope, hp, hscope, fun hchildren => ?_, fun hk => hclass.mp (hfits.member hk),
    fun hk => ?_, fun hk => ?_, hfits.other, hfits.used⟩
  · -- what has a child is a scope
    obtain ⟨c, hc⟩ := Array.exists_mem_of_ne_empty _ hchildren
    have hchild : c ∈ o.children i := by
      rw [Outline.children, he]
      exact Array.mem_toList_iff.mpr hc
    rcases hnested.parents c i (hl.mem_children_iff.mp hchild) with rfl | ⟨q, hq, hkind, -, hs⟩
    · exact absurd hi (Nat.lt_irrefl _)
    · obtain rfl := Option.some.inj (hq.symm.trans he)
      refine ⟨?_, hs⟩
      revert hkind
      cases q.kind <;> simp [EntityKind.isTransparent]
  · have hfree := hfits.free hk
    constructor
    · intro hc
      rw [hc] at hfree
      cases hfree
    · intro hs
      rw [hs] at hfree
      cases hfree
  · obtain ⟨hname, hne⟩ := hfits.named hk
    exact ⟨hname, hname ▸ hne⟩

/-- A constructor in a class which is not closed. -/
theorem parse_kinds_constructor :
    ∃ o e p scope,
      parse .standard "a.h" "namespace n \x7b class A \x7b int x; A();".toList = .ok o ∧
      o.get? 4 = some e ∧ e.kind = .constructor ∧ e.parent = some p ∧ o.get? p = some scope ∧
      (scope.kind = .classDecl ∨ scope.kind = .structDecl) ∧ e.name = scope.name ∧
      scope.name ≠ [] := by
  obtain ⟨o, h, hread⟩ := exists_of_toOption_any
    (p := fun o => (o.get? 4).any (·.kind == .constructor))
    (show (parse .standard "a.h"
      "namespace n \x7b class A \x7b int x; A();".toList).toOption.any _ = true by decide +kernel)
  rw [Option.any_eq_true] at hread
  obtain ⟨e, he, hk⟩ := hread
  have hkind : e.kind = .constructor := eq_of_beq hk
  obtain ⟨p, scope, hp, hscope, -, hmember, -, hnamed, -⟩ := parse_kinds h (by decide) he
  obtain ⟨hname, hne⟩ := hnamed hkind
  exact ⟨o, e, p, scope, h, he, hkind, hp, hscope, hmember (.inr (.inl hkind)), hname, hne⟩

end HeaderOutline
