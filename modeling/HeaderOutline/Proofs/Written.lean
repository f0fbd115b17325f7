import HeaderOutline.Proofs.Written.Heads
import HeaderOutline.Text.Unicode

/-! # Functions and constructors as they are written

A function that is written with blanks between its parts, and nothing else around it, is read as
what it says (`parse_written_function`): its flags tell which keywords stand in front of its type
and what stands behind its parameters, and neither the parameters nor the body disturb them.  So is
the constructor of a class with any member initializers (`parse_written_constructor`), which
neither the parentheses nor the braces of these end.
-/
namespace HeaderOutline

open Construct
open Token (Spells)

/-- What a draft of a function makes of an entity, its kind apart. -/
theorem Draft.IsFunction.becomes {d : Draft} {e : Entity} {name signature : Text} {flags : Flags}
    {body : Option Text} (h : d.IsFunction name flags signature body) (he : d.Becomes e) :
    e.name = name ∧ e.signature = signature ∧ e.hasBody = body.isSome ∧
      e.bodyText = body.getD [] := by
  obtain ⟨-, rfl, -, rfl, rfl⟩ := h
  refine ⟨he.name, he.signature, ?_, ?_⟩
  · rw [Entity.hasBody, he.body, Option.isSome_map]
  · rw [Entity.bodyText, he.body]

/-- **Function heads are read correctly.**  However many specifiers a function has, whatever its
parameters and its body hold as long as their brackets are nested, and whether or not it is
constant or pure: without predefined macros and within the limits, its header holds this one
function and nothing else, under the name that it has there.  The function is static, inline and
virtual if the keyword is among the specifiers, and constant and pure if this is written behind
the parameters.  The signature and the body are those that are written. -/
theorem parse_written_function [Alphabet] {options : Options} (file : String) (f : Written.Function)
    (hm : options.predefined = []) (hl : options.limits.Admits f.text) :
    ∃ o e, parse options file f.text = .ok o ∧ o.HasOnly e ∧ e.kind = .function ∧
      e.name = f.name.text ∧ e.flags = f.flags ∧ e.signature = f.signature ∧
      e.hasBody = f.body.isSome ∧ e.bodyText = f.bodyText := by
  obtain ⟨hany, hscan⟩ := Token.scan_of_cuts f.cuts_lexemes f.all_sound hl
  have hspells : Spells (Token.placed .origin f.lexemes) (f.lexemes ++ []) := by
    rw [List.append_nil]
    exact Token.spells_placed .origin f.lexemes
  obtain ⟨t, behind, d, rest, hts, htrivia, hread, ⟨⟩, hd⟩ :=
    read_written options.mergeLineComments f hspells
  have hfront : Tokens.skipTrivia (Token.scan options.limits f.text).dropLast = t :: behind := by
    rw [hscan, hts, Tokens.skipTrivia_of_not htrivia]
  have hparse : parse options file f.text = .ok _ := parse_of_read hm hany hfront hread (.done rfl)
  have hdraft : (Item.entity d).draft? = some d := rfl
  obtain ⟨e, he, hmakes⟩ := Building.first_entity file f.text .empty f.text.size hdraft
  obtain ⟨e', he', hbecomes⟩ :=
    Building.exists_becomes_of_add (.start file f.text .empty) f.text.size hdraft
  obtain rfl : e' = e := Option.some.inj (he'.symm.trans he)
  obtain ⟨hname, hsignature, hhas, hbody⟩ := hd.becomes hbecomes
  refine ⟨_, e', hparse, hasOnly_of_add _ _ _ _ he, ?_, hname, hmakes.flags.trans hd.flags,
    hsignature, ?_, ?_⟩
  · rw [hmakes.kind, hd.form]
    rfl
  · rw [hhas, Option.isSome_map]
  · rw [hbody, Written.Function.bodyText]
    cases f.body <;> rfl

/-- A static function with a default argument in parentheses and a block in its body. -/
theorem parse_written_function_static :
    ∃ o e, parse .standard "a.h"
        "static inline int f(int n = (1)) const \x7b \x7b return n; \x7d \x7d".toList = .ok o ∧
      o.HasOnly e ∧ e.kind = .function ∧ e.name = "f".toList ∧
      e.flags = ⟨true, true, false, false, true⟩ ∧
      e.signature = "static inline int f(int n = (1)) const".toList ∧
      e.bodyText = "\x7b \x7b return n; \x7d \x7d".toList := by
  let params : Written.Inner Written.IsParams := .ofKinds "int n = (1)".toList .standard
    ([.keyword .intKw, .whitespace, .ident, .whitespace, .punct .eq, .whitespace]
      ++ .punct .lParen :: ([.number] ++ .punct .rParen :: [])) (by decide +kernel) (by decide)
    ⟨.append (.of_plain (by decide)) (.group (by decide) (.of_plain (by decide)) .nil), by decide⟩
  let body : Written.Inner (Kind.NestedBy [Written.braces]) :=
    .ofKinds " \x7b return n; \x7d ".toList .standard
    (.whitespace :: .punct .lBrace :: ([.whitespace, .keyword .returnKw, .whitespace, .ident,
      .punct .semicolon, .whitespace] ++ .punct .rBrace :: [.whitespace]))
    (by decide +kernel) (by decide)
    (.plain (by decide) (.group (by decide) (.of_plain (by decide)) (.of_plain (by decide))))
  let f : Written.Function := {
    specifiers := [.staticKw, .inlineKw]
    isSpecifier := by decide
    returns := .builtin .intKw rfl
    name := ⟨['f'], .standard, by decide +kernel⟩
    params := params
    isConst := true
    isPure := false
    body := some body }
  have htext : f.text
      = "static inline int f(int n = (1)) const \x7b \x7b return n; \x7d \x7d".toList := by
    decide +kernel
  have hadmits : Options.standard.limits.Admits f.text := by
    rw [htext]
    unfold Limits.Admits
    decide +kernel
  obtain ⟨o, e, hparse, honly, hkind, hname, hflags, hsignature, -, hbody⟩ :=
    parse_written_function "a.h" f rfl hadmits
  rw [htext] at hparse
  exact ⟨o, e, hparse, honly, hkind, hname, hflags, hsignature.trans (by decide +kernel),
    hbody.trans (by decide +kernel)⟩

/-- The row of an entity says what it is. -/
theorem Outline.exists_of_rows {o : Outline} {i : EntityId} {r : Row} (h : o.rows[i]? = some r) :
    ∃ e, o.get? i = some e ∧ e.row = r := by
  obtain ⟨e, he, hr⟩ := List.getElem?_map .. ▸ h |> Option.map_eq_some_iff.mp
  rw [Array.getElem?_toList] at he
  exact ⟨e, he, hr⟩

theorem Outline.parent?_of_rows {o : Outline} {i : EntityId} {r : Row}
    (h : o.rows[i]? = some r) : o.parent? i = r.parent := by
  obtain ⟨e, he, rfl⟩ := exists_of_rows h
  rw [parent?, he]
  rfl

section

variable {policy : Recovery.Policy} {merge : Bool} {file : String} {source : Text} {size : Nat}

/-- The row of the class. -/
def Written.Constructor.classRow [Alphabet] (c : Written.Constructor) : Row :=
  ⟨.classDecl, c.name.text, Core.Place.root.fullName c.name.text, .pub, some Outline.root⟩

/-- The row of the constructor. -/
def Written.Constructor.row [Alphabet] (c : Written.Constructor) : Row :=
  ⟨.constructor, c.name.text,
    (Core.Place.root.inside 1 c.name.text true).fullName c.name.text, .priv, some 1⟩

open Building in
/-- **Reading a class with a constructor** adds the two of them. -/
theorem Written.Constructor.exists_run [Alphabet] (c : Written.Constructor) {ts : List Token}
    (hs : Spells ts c.lexemes) :
    ∃ done e, run policy merge size (start file source .empty) ts = .ok done ∧
      (start file source .empty).Extends done [c.classRow, c.row] .pub ∧
      done.outline.get? 2 = some e ∧ e.signature = c.signature ∧ e.hasBody = true ∧
      e.bodyText = c.bodyText := by
  have hstart := at_start file source .empty
  obtain _ | @⟨first, _, _, _, hf, -, _ | @⟨blank, _, _, _, hb, -, hs⟩⟩ := hs
  obtain _ | @⟨name, _, _, _, hn, htext, _ | @⟨gap, _, _, _, hg, -, hs⟩⟩ := hs
  obtain _ | @⟨brace, _, _, _, ho, -, _ | @⟨inner, _, us, _, hinner, -, hs⟩⟩ := hs
  -- the class opens its scope
  obtain ⟨d, hread, hform, hname⟩ : ∃ d, Construct.read .empty merge first
      (blank :: name :: gap :: brace :: inner :: us) = .read (.scope d .priv) (inner :: us) ∧
      d.form = .plain .classDecl ∧ d.name = name.text :=
    read_record .empty merge (show first.kind = .keyword Core.RecordKey.classKey.keyword from hf)
      hb hn hg ho
  have hnamed : d.name = c.name.text := hname.trans htext
  have hne : d.name ≠ [] := hnamed ▸ c.name.spelled.1.ne_nil
  let opened := (start file source .empty).add size (.scope d .priv)
  have hopened : opened.At (Core.Place.root.inside 1 d.name true) .priv :=
    hstart.scope_add rfl hform hne
  -- the constructor is the only member
  obtain ⟨t, behind, d', rest, rfl, htrivia, hread', hrest, hd⟩ := read_constructor merge c hs
  have hne' : d'.name ≠ [] := hd.name ▸ c.name.spelled.1.ne_nil
  have hadded : opened.Extends (opened.add size (.entity d')) _ .priv := hopened.emit rfl hne'
  obtain ⟨e, he, hbecomes⟩ := exists_becomes_of_add opened size
    (show (Item.entity d').draft? = some d' from rfl)
  -- the class is closed
  obtain _ | @⟨gap', _, _, _, hg', -, _ | @⟨close, _, _, _, hc, -, hs⟩⟩ := hrest
  obtain _ | @⟨semicolon, _, _, _, hs, -, _ | _⟩ := hs
  have hmember : Construct.read opened.definitions merge t behind
      = .read (.entity d') [gap', close, semicolon] := hread'
  have hbody : run policy merge size opened (inner :: t :: behind)
      = run policy merge size (opened.add size (.entity d')) [close, semicolon] := by
    rw [run_of_blank hinner, run_of_read htrivia hmember, run_of_blank hg']
  obtain ⟨hrun, hextends⟩ := hstart.run_scope rfl hform hne (by rw [hf]; rfl) hread hadded hbody hc
  rw [Tokens.eat?_of_kind (show semicolon.kind = .punct .semicolon from hs),
    Option.getD_some] at hrun
  rw [hd.form, hopened.functionKind, hd.name, hnamed] at hextends
  have hkind : (Core.Place.root.inside 1 c.name.text true).functionKind c.name.text
      = .constructor := if_pos rfl
  rw [hkind] at hextends
  obtain ⟨children, hkept⟩ := keeps_add (opened.add size (.entity d')) size (.close close) _ e he
  obtain ⟨-, hsignature, hhas, hbodyText⟩ := hd.becomes hbecomes
  exact ⟨_, _, hrun.trans (run_of_nil rfl), hextends, hkept, hsignature, hhas, hbodyText⟩

end

/-- **Member initializers never end a constructor early.**  Whatever the parameters of the
constructor, the arguments of its member initializers and its body hold as long as their brackets
are nested: without predefined macros and within the limits, the header holds the class, and in it
the constructor as the only child, without diagnostics.  The signature of the constructor goes up
to the last member initializer, and its body is the text in braces behind that. -/
theorem parse_written_constructor [Alphabet] {options : Options} (file : String)
    (c : Written.Constructor) (hm : options.predefined = []) (hl : options.limits.Admits c.text) :
    ∃ o k e, parse options file c.text = .ok o ∧ o.diagnostics = #[] ∧ o.size = 2 ∧
      o.get? 1 = some k ∧ k.kind = .classDecl ∧ k.name = c.name.text ∧
      k.parent = some Outline.root ∧ k.children = #[2] ∧
      o.get? 2 = some e ∧ e.kind = .constructor ∧ e.name = c.name.text ∧ e.parent = some 1 ∧
      e.signature = c.signature ∧ e.hasBody = true ∧ e.bodyText = c.bodyText := by
  obtain ⟨hany, hscan⟩ := Token.scan_of_cuts c.cuts_lexemes c.all_sound hl
  obtain ⟨done, e, hrun, hextends, he, hsignature, hhas, hbody⟩ :=
    c.exists_run (Token.spells_placed .origin c.lexemes)
  have hparse : parse options file c.text = .ok done.finish := by
    refine parse_eq_ok_iff.mpr ⟨hany, done, ?_, rfl⟩
    rw [Options.definitions_of_nil hm, hscan]
    exact hrun
  have hfinish : done.finish = done.outline := by
    rw [Building.finish, hextends.pending]
    rfl
  rw [hfinish] at hparse
  have hrows : done.outline.rows = [Core.rootRow, c.classRow, c.row] := hextends.rows
  have hsize : done.outline.entities.size = 3 := by
    simpa [Outline.rows] using congrArg List.length hrows
  obtain ⟨k, hk, hkrow⟩ := Outline.exists_of_rows (i := 1) (by rw [hrows]; rfl)
  obtain ⟨e', he', herow⟩ := Outline.exists_of_rows (i := 2) (by rw [hrows]; rfl)
  obtain rfl : e' = e := Option.some.inj (he'.symm.trans he)
  obtain ⟨hkind, hname, -, -, hparent⟩ := Row.mk.inj hkrow
  obtain ⟨hkind', hname', -, -, hparent'⟩ := Row.mk.inj herow
  have hchildren := (parse_nested hparse).linked.children 1 k hk
  refine ⟨_, k, e', hparse, hextends.diagnostics, ?_, hk, hkind, hname, hparent, ?_, he, hkind',
    hname', hparent', hsignature, hhas, hbody⟩
  · rw [Outline.size, hsize]
  · have hparents : ∀ i r, [Core.rootRow, c.classRow, c.row][i]? = some r →
        done.outline.parent? i = r.parent := fun i r hr => Outline.parent?_of_rows (hrows ▸ hr)
    have hrange : List.range 3 = [0, 1, 2] := rfl
    rw [hsize, hrange, List.filter_cons, List.filter_cons, List.filter_cons,
      hparents 0 _ rfl, hparents 1 _ rfl, hparents 2 _ rfl] at hchildren
    exact Array.toList_inj.mp hchildren

/-- A constructor with member initializers of both forms, one with a block among its arguments. -/
theorem parse_written_constructor_members :
    ∃ o k e, parse .standard "a.h"
        "class A \x7b A(int n) : a(n), b\x7b(1), \x7b2\x7d\x7d \x7b n; \x7d \x7d;".toList = .ok o ∧
      o.diagnostics = #[] ∧ o.size = 2 ∧ o.get? 1 = some k ∧ k.kind = .classDecl ∧
      k.name = "A".toList ∧ k.children = #[2] ∧ o.get? 2 = some e ∧ e.kind = .constructor ∧
      e.signature = "A(int n) : a(n), b\x7b(1), \x7b2\x7d\x7d".toList ∧
      e.bodyText = "\x7b n; \x7d".toList := by
  let params : Written.Inner Written.IsParams := .ofKinds "int n".toList .standard
    [.keyword .intKw, .whitespace, .ident] (by decide +kernel) (by decide)
    ⟨.of_plain (by decide), by decide⟩
  let first : Written.Inner (Kind.NestedBy Written.brackets) := .ofKinds ['n'] .standard [.ident]
    (by decide +kernel) (by decide) (.of_plain (by decide))
  let second : Written.Inner (Kind.NestedBy Written.brackets) :=
    .ofKinds "(1), \x7b2\x7d".toList .standard
    (.punct .lParen :: ([.number] ++ .punct .rParen :: .punct .comma :: .whitespace
      :: .punct .lBrace :: ([.number] ++ .punct .rBrace :: [])))
    (by decide +kernel) (by decide)
    (.group (by decide) (.of_plain (by decide)) (.plain (by decide) (.plain (by decide)
      (.group (by decide) (.of_plain (by decide)) .nil))))
  let body : Written.Inner (Kind.NestedBy [Written.braces]) := .ofKinds " n; ".toList .standard
    [.whitespace, .ident, .punct .semicolon, .whitespace] (by decide +kernel) (by decide)
    (.of_plain (by decide))
  let c : Written.Constructor := {
    name := ⟨['A'], .standard, by decide +kernel⟩
    params := params
    first := ⟨⟨['a'], .standard, by decide +kernel⟩, .round, first⟩
    others := [⟨⟨['b'], .standard, by decide +kernel⟩, .curly, second⟩]
    body := body }
  have htext : c.text
      = "class A \x7b A(int n) : a(n), b\x7b(1), \x7b2\x7d\x7d \x7b n; \x7d \x7d;".toList := by
    decide +kernel
  have hadmits : Options.standard.limits.Admits c.text := by
    rw [htext]
    unfold Limits.Admits
    decide +kernel
  obtain ⟨o, k, e, hparse, hdiagnostics, hsize, hk, hkind, hname, -, hchildren, he, hkind', -, -,
    hsignature, -, hbody⟩ := parse_written_constructor "a.h" c rfl hadmits
  rw [htext] at hparse
  exact ⟨o, k, e, hparse, hdiagnostics, hsize, hk, hkind, hname, hchildren, he, hkind',
    hsignature.trans (by decide +kernel), hbody.trans (by decide +kernel)⟩

end HeaderOutline
