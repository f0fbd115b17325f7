import HeaderOutline.Proofs.Core.Reading
import HeaderOutline.Proofs.Core.Spelling
import HeaderOutline.Proofs.Nesting
import HeaderOutline.Text.Unicode

/-! # The outline of a core header

Reading some declarations of a core header adds their rows to the outline and leaves the open
scopes as they were, up to the access level of the innermost one (`Building.Extends`).  By
induction on the declarations this holds however they are nested (`Core.Decls.run_spell`),
and so a core header has the outline that its declarations make up (`parse_render`).
-/
namespace HeaderOutline

open HeaderOutline.Core

/-! ## What an entity adds -/

/-- A new entity is the last row, and changes no other one. -/
theorem Outline.rows_attach {o : Outline} {parent : EntityId} (h : parent < o.entities.size)
    (e : Entity) :
    (o.attach parent e).rows = o.rows ++ [⟨e.kind, e.name,
      qualify (((o.get? parent).map (·.fullName)).getD []) e.name, e.access, some parent⟩] := by
  have hhost : o.hostOf parent = parent := if_pos h
  have hlinked := map_modify_eq (g := Entity.row)
    (f := fun p => { p with children := p.children.push o.entities.size }) (fun _ => rfl)
    o.entities.toList parent
  simp only [rows, attach, hhost, Array.toList_push, Array.toList_modify, List.map_append, hlinked]
  rfl

namespace Scopes

theorem setAccess_current (s : Scopes) : s.setAccess s.current.access = s := by
  obtain ⟨_ | ⟨f, fs⟩, outermost⟩ := s <;> rfl

theorem setAccess_setAccess (s : Scopes) (a b : Access) :
    (s.setAccess a).setAccess b = s.setAccess b := by
  obtain ⟨_ | ⟨f, fs⟩, outermost⟩ := s <;> rfl

end Scopes

namespace Building

variable {b b' b'' : Building} {w : Place} {access access' : Access} {rs rs' : List Row}

/-- The innermost open scope is a given one, and a given access level holds there. -/
structure At (b : Building) (w : Place) (access : Access) : Prop where
  entity : b.scopes.current.entity = w.id
  access : b.scopes.current.access = access
  scope : ∃ q, b.outline.rows[w.id]? = some q ∧ q.fullName = Text.joinWith Text.colons w.path ∧
    q.kind.isClassLike = w.record.isSome ∧ ∀ own ∈ w.record, q.name = own
  named : ∀ n ∈ w.path, n ≠ []

/-- What is built has some rows more and another access level in the innermost scope, and is
otherwise the same. -/
structure Extends (b b' : Building) (rs : List Row) (access : Access) : Prop where
  rows : b'.outline.rows = b.outline.rows ++ rs
  diagnostics : b'.outline.diagnostics = b.outline.diagnostics
  scopes : b'.scopes = b.scopes.setAccess access
  pending : b'.pending = b.pending
  definitions : b'.definitions = b.definitions

theorem Extends.trans (h : b.Extends b' rs access) (h' : b'.Extends b'' rs' access') :
    b.Extends b'' (rs ++ rs') access' where
  rows := by rw [h'.rows, h.rows, List.append_assoc]
  diagnostics := h'.diagnostics.trans h.diagnostics
  scopes := by rw [h'.scopes, h.scopes, Scopes.setAccess_setAccess]
  pending := h'.pending.trans h.pending
  definitions := h'.definitions.trans h.definitions

theorem Extends.refl (h : b.At w access) : b.Extends b [] access where
  rows := (List.append_nil _).symm
  diagnostics := rfl
  scopes := by rw [← h.access, Scopes.setAccess_current]
  pending := rfl
  definitions := rfl

theorem Extends.nextId (h : b.Extends b' rs access) : b'.nextId = b.nextId + rs.length := by
  have hlength := congrArg List.length h.rows
  simpa [Outline.rows, Building.nextId] using hlength

/-- The innermost scope stays what it is. -/
theorem Extends.at (h : b.Extends b' rs access') (ha : b.At w access) : b'.At w access' := by
  obtain ⟨q, hq, hspec⟩ := ha.scope
  refine ⟨?_, ?_, ⟨q, ?_, hspec⟩, ha.named⟩
  · rw [h.scopes, Scopes.current_setAccess]
    exact ha.entity
  · rw [h.scopes, Scopes.current_setAccess]
  · rw [h.rows]
    rwa [List.getElem?_append_left (List.getElem?_eq_some_iff.mp hq).1]

theorem At.fullName (h : b.At w access) {name : Text} (hn : name ≠ []) :
    qualify (Text.joinWith Text.colons w.path) name = w.fullName name := by
  rw [Place.fullName]
  by_cases hw : w.path = []
  · rw [hw, List.nil_append, Text.joinWith_nil, Text.joinWith_singleton, qualify_nil_left]
  · rw [Text.joinWith_append _ hw (List.cons_ne_nil _ _), Text.joinWith_singleton,
      qualify_of_ne_nil (Text.joinWith_ne_nil _ hw h.named) hn]

/-- The entity of the innermost scope. -/
theorem At.exists_enclosing (h : b.At w access) :
    b.outline.get? w.id = some b.enclosing ∧
      b.enclosing.fullName = Text.joinWith Text.colons w.path ∧
      b.enclosing.kind.isClassLike = w.record.isSome ∧
      ∀ own ∈ w.record, b.enclosing.name = own := by
  obtain ⟨q, hq, hfull, hkind, hname⟩ := h.scope
  obtain ⟨e, he, rfl⟩ := List.getElem?_map .. ▸ hq |> Option.map_eq_some_iff.mp
  have hget : b.outline.get? w.id = some e := by
    rw [Outline.get?, ← Array.getElem?_toList]
    exact he
  have henclosing : b.enclosing = e := by
    rw [enclosing, h.entity, hget]
    rfl
  rw [henclosing]
  exact ⟨hget, hfull, hkind, hname⟩

/-- **One entity more**: it gets a row in the innermost scope. -/
theorem At.emit (h : b.At w access) (hp : b.pending = none) {d : Draft} (hn : d.name ≠ []) :
    b.Extends (b.emit d)
      [⟨d.form.kindIn b.enclosing d.name, d.name, w.fullName d.name, access, some w.id⟩]
      access := by
  obtain ⟨hget, hfull, -⟩ := h.exists_enclosing
  refine ⟨?_, rfl, by rw [← h.access, Scopes.setAccess_current]; rfl, hp.symm, rfl⟩
  show (b.outline.attach b.scopes.current.entity _).rows = _
  rw [h.entity, Outline.rows_attach (Outline.lt_size_of_get? hget), hget]
  simp only [Option.map_some, Option.getD_some, hfull]
  rw [show (d.toEntity b.enclosing b.scopes.current.access b.pending).name = d.name from rfl,
    h.fullName hn, ← h.access]
  rfl

theorem At.variableKind (h : b.At w access) (name : Text) :
    Form.variableDecl.kindIn b.enclosing name = w.variableKind := by
  obtain ⟨-, -, hkind, -⟩ := h.exists_enclosing
  simp only [Form.kindIn, hkind, Place.variableKind]

theorem At.functionKind (h : b.At w access) (name : Text) :
    Form.function.kindIn b.enclosing name = w.functionKind name := by
  obtain ⟨-, -, hkind, hown⟩ := h.exists_enclosing
  simp only [Form.kindIn, hkind, Place.functionKind]
  cases hr : w.record with
  | none => rfl
  | some own => simp [hown own hr]

/-- An access specifier gets its row with the level that it sets. -/
theorem At.extends_access (h : b.At w access) (hp : b.pending = none) {d : Draft}
    (hf : d.form = .plain .accessSpecifier) (hn : d.name ≠ []) (size : Nat) (level : Access) :
    b.Extends (b.add size (.access level d))
      [⟨.accessSpecifier, d.name, w.fullName d.name, level, some w.id⟩] level := by
  have hset : b.Extends (b.withScopes (b.scopes.setAccess level)) [] level :=
    ⟨(List.append_nil _).symm, rfl, rfl, rfl, rfl⟩
  have hemit := (hset.at h).emit hp hn
  rw [hf] at hemit
  exact hset.trans hemit

section

variable {d : Draft} {kind : EntityKind} {size : Nat} {level level' : Access}

/-- A scope that is opened is the innermost one. -/
theorem At.scope_add (h : b.At w access) (hp : b.pending = none) (hf : d.form = .plain kind)
    (hn : d.name ≠ []) :
    (b.add size (.scope d level)).At (w.inside b.nextId d.name kind.isClassLike) level := by
  have hemit := (h.emit hp hn).rows
  rw [hf] at hemit
  have hlength : b.outline.rows.length = b.nextId := by simp [Outline.rows, nextId]
  refine ⟨rfl, rfl, ⟨⟨kind, d.name, w.fullName d.name, access, some w.id⟩, ?_, rfl, ?_, ?_⟩, ?_⟩
  · show (b.emit d).outline.rows[b.nextId]? = _
    rw [hemit, ← hlength, List.getElem?_append_right (Nat.le_refl _), Nat.sub_self]
    rfl
  · show kind.isClassLike = _
    cases kind.isClassLike <;> rfl
  · cases kind.isClassLike <;> simp [Place.inside]
  · intro n hm
    rcases List.mem_append.mp hm with hm | hm
    · exact h.named n hm
    · exact List.mem_singleton.mp hm ▸ hn

/-- **A scope that is closed**: its entity and those in it have been added. -/
theorem At.extends_close (h : b.At w access) (hp : b.pending = none) (hf : d.form = .plain kind)
    (hn : d.name ≠ []) (he : (b.add size (.scope d level)).Extends b' rs level') (brace : Token) :
    b.Extends (b'.add size (.close brace))
      (⟨kind, d.name, w.fullName d.name, access, some w.id⟩ :: rs) access := by
  have hemit := h.emit hp hn
  rw [hf] at hemit
  have hpop : b'.scopes.pop? = some (⟨b.nextId, level, level'⟩, b.scopes) := by
    rw [he.scopes]
    rfl
  have hadd : b'.add size (.close brace) = b'.withScopes b.scopes := by
    simp only [add, hpop]
  rw [hadd]
  refine ⟨?_, he.diagnostics, by rw [← h.access, Scopes.setAccess_current]; rfl, ?_, he.definitions⟩
  · show b'.outline.rows = _
    rw [he.rows]
    show (b.emit d).outline.rows ++ rs = _
    rw [hemit.rows, List.append_assoc]
    rfl
  · show b'.pending = _
    rw [he.pending]
    exact hemit.pending

end

/-! ## Reading declarations -/

section

variable {policy : Recovery.Policy} {merge : Bool} {size : Nat} {t : Token}
  {ts behind rest : List Token} {item : Item}

theorem run_of_read (ht : t.kind.isTrivia = false)
    (hr : Construct.read b.definitions merge t behind = .read item rest) :
    run policy merge size b (t :: behind) = run policy merge size (b.add size item) rest := by
  rw [run_of_cons (Tokens.skipTrivia_of_not ht), hr]
  rfl

theorem run_of_blank (h : t.kind = .whitespace) :
    run policy merge size b (t :: ts) = run policy merge size b ts := by
  have hskip : Tokens.skipTrivia (t :: ts) = Tokens.skipTrivia ts :=
    Tokens.skipTrivia_of_whitespace h
  cases hs : Tokens.skipTrivia ts with
  | nil => rw [run_of_nil hs, run_of_nil (hskip.trans hs)]
  | cons u us => rw [run_of_cons hs, run_of_cons (hskip.trans hs)]

/-- **A scope**, read from its head to its closing brace. -/
theorem At.run_scope (h : b.At w access) (hp : b.pending = none) {d : Draft} {kind : EntityKind}
    {level level' : Access} {brace : Token} (hf : d.form = .plain kind) (hn : d.name ≠ [])
    (ht : t.kind.isTrivia = false)
    (hr : Construct.read b.definitions merge t behind = .read (.scope d level) rest)
    (he : (b.add size (.scope d level)).Extends b' rs level')
    (hbody : run policy merge size (b.add size (.scope d level)) rest
      = run policy merge size b' (brace :: ts)) (hc : brace.kind = .punct .rBrace) :
    run policy merge size b (t :: behind) = run policy merge size (b'.add size (.close brace))
        ((Tokens.eat? (.punct .semicolon) ts).getD ts) ∧
      b.Extends (b'.add size (.close brace))
        (⟨kind, d.name, w.fullName d.name, access, some w.id⟩ :: rs) access := by
  refine ⟨?_, h.extends_close hp hf hn he brace⟩
  rw [run_of_read ht hr, hbody, run_of_read (by rw [hc]; rfl)
    (Construct.read_close b'.definitions merge hc)]

end
end Building

/-- Some tokens are made of some lexemes, wherever they stand. -/
inductive Token.Spells : List Token → List Lexeme → Prop
  | nil : Spells [] []
  | cons {t : Token} {x : Lexeme} {ts : List Token} {xs : List Lexeme} (kind : t.kind = x.kind)
    (text : t.text = x.text) (more : Spells ts xs) : Spells (t :: ts) (x :: xs)

theorem Token.spells_placed (p : Position) (xs : List Lexeme) : Spells (placed p xs) xs := by
  induction xs generalizing p with
  | nil => exact .nil
  | cons x xs ih => exact .cons rfl rfl (ih _)

namespace Building

/-- Reading from some tokens on adds some rows, and comes to tokens made of given lexemes. -/
def Adds (policy : Recovery.Policy) (merge : Bool) (size : Nat) (b : Building) (ts : List Token)
    (xs : List Lexeme) (rs : List Row) (access : Access) : Prop :=
  ∃ b' us, run policy merge size b ts = run policy merge size b' us ∧ Token.Spells us xs ∧
    b.Extends b' rs access

variable {policy : Recovery.Policy} {merge : Bool} {size : Nat} {b b' : Building}
  {ts us : List Token} {xs : List Lexeme} {rs rs' : List Row} {access access' : Access}

theorem Adds.after (h : Adds policy merge size b' us xs rs' access') (he : b.Extends b' rs access)
    (hr : run policy merge size b ts = run policy merge size b' us) :
    Adds policy merge size b ts xs (rs ++ rs') access' := by
  obtain ⟨b'', vs, hrun, hs, he'⟩ := h
  exact ⟨b'', vs, hr.trans hrun, hs, he.trans he'⟩

end Building

namespace Core.Decls

open Building

variable {r : Region} {policy : Recovery.Policy} {merge : Bool} {size : Nat} {b : Building}
  {w : Place} {access : Access} {ts : List Token} {xs : List Lexeme}

theorem kind_gap [Alphabet] (tail : Nat) (d : Decls r) : (d.gap tail).kind = .whitespace := by
  cases d <;> rfl

/-- **Reading some declarations** adds their rows, however they are nested. -/
theorem adds_spell [Alphabet] (d : Decls r) (pad tail : Nat) (h : b.At w access)
    (hp : b.pending = none) (hs : Token.Spells ts (d.spell pad tail ++ xs)) :
    Adds policy merge size b ts xs (d.rows w access b.nextId) (d.lastAccess access) := by
  induction d generalizing tail b w access ts xs with
  | nil => exact ⟨b, ts, rfl, hs, .refl h⟩
  | namespaceDecl name body rest ihb ihr =>
    simp only [spell, List.cons_append, List.append_assoc] at hs
    obtain _ | ⟨hf, -, _ | ⟨hb, -, _ | ⟨hn, htext, _ | ⟨hg, -, _ | ⟨ho, -, hs⟩⟩⟩⟩⟩ := hs
    obtain _ | ⟨hgap, -, hs⟩ := hs
    obtain ⟨d, hread, hform, hname⟩ := Construct.read_namespace b.definitions merge hf hb hn hg ho
    have hnamed : d.name = name.text := hname.trans htext
    have hne : d.name ≠ [] := hnamed ▸ name.spelled.1.ne_nil
    have hnext : (b.add size (.scope d .pub)).nextId = b.nextId + 1 := (h.emit hp hne).nextId
    obtain ⟨b₁, us, hrun, hs, he⟩ := ihb pad (h.scope_add hp hform hne) rfl hs
    obtain _ | ⟨hc, -, _ | ⟨hgap', -, hs⟩⟩ := hs
    rw [← run_of_blank (hgap.trans (kind_gap _ _))] at hrun
    obtain ⟨hscope, hextends⟩ := h.run_scope hp hform hne (by rw [hf]; rfl) hread he hrun hc
    -- no semicolon stands behind the brace
    rw [Tokens.eat?_of_ne (by simp [hgap', kind_gap]), Option.getD_none,
      run_of_blank (hgap'.trans (kind_gap _ _))] at hscope
    have hall := (ihr tail (hextends.at h) (hextends.pending.trans hp) hs).after hextends hscope
    rw [hextends.nextId, List.length_cons, length_rows, hnext, hnamed, Nat.add_comm body.count 1,
      ← Nat.add_assoc] at hall
    exact hall
  | record key name body rest ihb ihr =>
    have hrecord : key.kind.isClassLike = true := by cases key <;> rfl
    simp only [spell, List.cons_append, List.append_assoc] at hs
    obtain _ | ⟨hf, -, _ | ⟨hb, -, _ | ⟨hn, htext, _ | ⟨hg, -, _ | ⟨ho, -, hs⟩⟩⟩⟩⟩ := hs
    obtain _ | ⟨hgap, -, hs⟩ := hs
    obtain ⟨d, hread, hform, hname⟩ := Construct.read_record b.definitions merge hf hb hn hg ho
    have hnamed : d.name = name.text := hname.trans htext
    have hne : d.name ≠ [] := hnamed ▸ name.spelled.1.ne_nil
    have hnext : (b.add size (.scope d key.access)).nextId = b.nextId + 1 := (h.emit hp hne).nextId
    obtain ⟨b₁, us, hrun, hs, he⟩ := ihb pad (h.scope_add hp hform hne) rfl hs
    obtain _ | ⟨hc, -, _ | ⟨hsemicolon, -, _ | ⟨hgap', -, hs⟩⟩⟩ := hs
    rw [← run_of_blank (hgap.trans (kind_gap _ _))] at hrun
    obtain ⟨hscope, hextends⟩ := h.run_scope hp hform hne (by rw [hf]; rfl) hread he hrun hc
    rw [Tokens.eat?_of_kind (show _ = Kind.punct .semicolon from hsemicolon), Option.getD_some,
      run_of_blank (hgap'.trans (kind_gap _ _))] at hscope
    have hall := (ihr tail (hextends.at h) (hextends.pending.trans hp) hs).after hextends hscope
    rw [hextends.nextId, List.length_cons, length_rows, hnext, hnamed, hrecord,
      Nat.add_comm body.count 1, ← Nat.add_assoc] at hall
    exact hall
  | variableDecl name rest ih =>
    simp only [spell, List.cons_append] at hs
    obtain _ | ⟨hf, -, _ | ⟨hb, -, _ | ⟨hn, htext, _ | ⟨hsemicolon, -, _ | ⟨hgap, -, hs⟩⟩⟩⟩⟩ := hs
    obtain ⟨d, hread, hform, hname⟩ :=
      Construct.read_variableDecl b.definitions merge hf hb hn hsemicolon
    have hnamed : d.name = name.text := hname.trans htext
    have hadd := h.emit hp (d := d) (hnamed ▸ name.spelled.1.ne_nil)
    have hall := (ih tail (hadd.at h) (hadd.pending.trans hp) hs).after hadd
      ((run_of_read (by rw [hf]; rfl) hread).trans (run_of_blank (hgap.trans (kind_gap _ _))))
    rw [hadd.nextId, hnamed, hform, h.variableKind] at hall
    exact hall
  | function name rest ih =>
    simp only [spell, List.cons_append] at hs
    obtain _ | ⟨hf, -, _ | ⟨hb, -, _ | ⟨hn, htext, _ | ⟨hl, -, _ | ⟨hr, -, hs⟩⟩⟩⟩⟩ := hs
    obtain _ | ⟨hsemicolon, -, _ | ⟨hgap, -, hs⟩⟩ := hs
    obtain ⟨d, hread, hform, hname⟩ :=
      Construct.read_function b.definitions merge hf hb hn hl hr hsemicolon
    have hnamed : d.name = name.text := hname.trans htext
    have hadd := h.emit hp (d := d) (hnamed ▸ name.spelled.1.ne_nil)
    have hall := (ih tail (hadd.at h) (hadd.pending.trans hp) hs).after hadd
      ((run_of_read (by rw [hf]; rfl) hread).trans (run_of_blank (hgap.trans (kind_gap _ _))))
    rw [hadd.nextId, hnamed, hform, h.functionKind] at hall
    exact hall
  | specifier level rest ih =>
    simp only [spell, List.cons_append] at hs
    obtain _ | ⟨hf, -, _ | ⟨hc, -, _ | ⟨hgap, -, hs⟩⟩⟩ := hs
    obtain ⟨d, hread, hform, hname⟩ := Construct.read_specifier b.definitions merge hf hc
    have hne : d.name ≠ [] := by
      rw [hname]
      cases level <;> decide
    have hadd := h.extends_access hp hform hne size level
    have hall := (ih tail (hadd.at h) (hadd.pending.trans hp) hs).after hadd
      ((run_of_read (by rw [hf]; rfl) hread).trans (run_of_blank (hgap.trans (kind_gap _ _))))
    rw [hadd.nextId, hname] at hall
    exact hall

end Core.Decls

/-! ## Parsing a core header -/

/-- A reading starts in the outermost scope. -/
theorem Building.at_start (file : String) (source : Text) (ds : Definitions) :
    (Building.start file source ds).At .root .pub :=
  ⟨rfl, rfl, ⟨_, rfl, rfl, rfl, nofun⟩, nofun⟩

/-- The row of the header as a whole. -/
def Core.rootRow : Row := ⟨.root, [], [], .pub, none⟩

/-- **Core headers are read as they are meant.**  However its declarations are nested and
whatever their names are, a core header that stays within the limits has an outline without
diagnostics: one entity for each declaration, in the order in which they are written, with
its kind, its name, its full name, its access level and the declaration around it as parent;
and the children of each entity are those that have it for a parent, in order. -/
theorem parse_render [Alphabet] {options : Options} (file : String) (pad : Nat) (d : Decls .items)
    (h : options.limits.Admits (d.render pad)) :
    ∃ o, parse options file (d.render pad) = .ok o ∧ o.diagnostics = #[] ∧
      o.rows = rootRow :: d.rows .root .pub 1 ∧
      ∀ p e, o.get? p = some e → e.children.toList =
        (List.range o.entities.size).filter (o.parent? · == some p) := by
  obtain ⟨hany, hscan⟩ := Token.scan_of_cuts (d.cuts_spell pad) (d.all_sound pad 0) h
  have hstart := Building.at_start file (d.render pad) options.definitions
  have hspells := Token.spells_placed .origin (d.spell pad 0)
  rw [← List.append_nil (d.spell pad 0)] at hspells
  obtain ⟨b, us, hrun, hus, he⟩ : Building.Adds options.recovery options.mergeLineComments
      (d.render pad).size _ _ [] _ _ := d.adds_spell pad 0 hstart rfl hspells
  cases hus
  rw [List.append_nil, ← hscan] at hrun
  replace hrun := hrun.trans (Building.run_of_nil rfl)
  have hparse : parse options file (d.render pad) = .ok b.finish :=
    parse_eq_ok_iff.mpr ⟨hany, b, hrun, rfl⟩
  have hfinish : b.finish = b.outline := by
    rw [Building.finish, he.pending]
    rfl
  exact ⟨b.finish, hparse, hfinish ▸ he.diagnostics, hfinish ▸ he.rows,
    (parse_nested hparse).linked.children⟩

/-- A class in a namespace, with a constructor behind an access specifier. -/
theorem parse_render_class :
    ∃ o, parse .standard "a.h"
        "namespace a \x7b class b \x7b public: void b(); int c; \x7d; \x7d ".toList = .ok o ∧
      o.diagnostics = #[] ∧ o.rows =
      [rootRow,
       ⟨.namespaceDecl, "a".toList, "a".toList, .pub, some 0⟩,
       ⟨.classDecl, "b".toList, "a::b".toList, .pub, some 1⟩,
       ⟨.accessSpecifier, "public".toList, "a::b::public".toList, .pub, some 2⟩,
       ⟨.constructor, "b".toList, "a::b::b".toList, .pub, some 2⟩,
       ⟨.field, "c".toList, "a::b::c".toList, .pub, some 2⟩] := by
  let a : Name := ⟨['a'], .standard, by decide +kernel⟩
  let b : Name := ⟨['b'], .standard, by decide +kernel⟩
  let c : Name := ⟨['c'], .standard, by decide +kernel⟩
  let d : Decls .items := .namespaceDecl a
    (.record .classKey b (.specifier .pub (.function b (.variableDecl c .nil))) .nil) .nil
  have hrender : d.render 0
      = "namespace a \x7b class b \x7b public: void b(); int c; \x7d; \x7d ".toList := by
    decide +kernel
  have hadmits : Options.standard.limits.Admits (d.render 0) := by
    rw [hrender]
    unfold Limits.Admits
    decide +kernel
  obtain ⟨o, hparse, hdiagnostics, hrows, -⟩ := parse_render "a.h" 0 d hadmits
  exact ⟨o, hrender ▸ hparse, hdiagnostics, hrows.trans (by decide +kernel)⟩

end HeaderOutline
