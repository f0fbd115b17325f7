import HeaderOutline.Proofs.Known
import HeaderOutline.Proofs.Normal.Params
import HeaderOutline.Text.Unicode

/-! # The normal form of macros

The signature of a macro is its definition in normal form: what stands between the name and the
value is kept as it is, and the value is written with single spaces for the gaps in it.  Read by
itself, the signature defines the same macro, and the signature of that is the same
(`Construct.Directive.exists_normal`, `parse_signature`).
-/
namespace HeaderOutline

namespace Lexeme

variable {n : Lexeme} {xs zs : List Lexeme}

/-- The word behind the hash sign of a directive that defines a macro. -/
def define : Lexeme := sound .ident "define".toList

/-- The definition of a macro, with one space in front of its name. -/
def defines (n : Lexeme) (xs : List Lexeme) : List Lexeme :=
  punct .hash :: define :: blanks 1 :: n :: xs

theorem textOf_defines (n : Lexeme) (xs : List Lexeme) :
    textOf (defines n xs) = "#define ".toList ++ n.text ++ textOf xs := by
  simp [defines, textOf, define, punct, blanks, sound, Punct.spelling]

theorem Faithful.defines [Alphabet] (h : Faithful (n :: xs)) (hn : n.kind ≠ .whitespace) :
    Faithful (Lexeme.defines n xs) := by
  have hword : Text.IsWord "define".toList := .of_letters (by decide) (by decide)
  have hdefine := (h.blanks 0 (h.stops_isSpace hn)).word hword (.cons rfl)
  exact hdefine.cons ⟨'#', _, rfl, rfl⟩

/-- The name of a macro is a word, behind which anything stands that does not continue it. -/
theorem Faithful.name [Alphabet] (h : Faithful (n :: zs))
    (hn : n.kind = .ident ∨ n.kind.isKeyword = true) (hxs : Faithful xs)
    (hstops : Stops Text.continuesIdentifier (textOf xs)) : Faithful (n :: xs) := by
  obtain ⟨c, cs, hnext⟩ := h.mem List.mem_cons_self
  have hform := form_next c cs
  rw [← hnext] at hform
  obtain ⟨hword, heq⟩ := hform.eq_word hn
  rw [heq]
  exact hxs.word hword hstops

theorem Faithful.endsSolid_name [Alphabet] (h : Faithful (n :: zs))
    (hn : n.kind = .ident ∨ n.kind.isKeyword = true) : EndsSolid (Lexeme.defines n []) := by
  obtain ⟨c, cs, hnext⟩ := h.mem List.mem_cons_self
  have hform := form_next c cs
  rw [← hnext] at hform
  exact (hform.endsSolid (.of_word hn)).append
    [punct .hash, define, Lexeme.blanks 1]

end Lexeme

namespace Construct.Directive

open Lexeme (Faithful textOf Stops)

variable {hash : Token} {rest after : List Token} {m : Definition} {d : Draft} {n : Lexeme}
  {ls us ws xs zs : List Lexeme} {p q : Position} {names : Option (List Text)}

/-! ## Reading definitions -/

/-- A directive that defines a macro has a word for its name. -/
theorem exists_name_of_read (h : read hash rest = .read (.definition m d) after) :
    ∃ name behind, name :: behind <:+ rest ∧
      (name.kind = .ident ∨ name.kind.isKeyword = true) ∧
      readDefinition hash name behind = .read (.definition m d) after := by
  unfold read at h
  dsimp only at h
  split at h
  · cases h
  · next t ts ht =>
    split at h
    · split at h
      · next name behind hname =>
        split at h
        · next hword =>
          have hts := Tokens.tail_suffix_of_skipSpace ht
          exact ⟨name, behind, (hname ▸ Tokens.skipSpace_suffix ts).trans hts, by simpa using hword,
            h⟩
        · cases h
      · cases h
    · cases h

theorem read_of_define {t name : Token} {ts behind : List Token}
    (ht : Tokens.skipSpace rest = t :: ts) (hk : t.kind = .ident) (htext : t.text = "define".toList)
    (hn : Tokens.skipSpace ts = name :: behind)
    (hword : name.kind = .ident ∨ name.kind.isKeyword = true) (hash : Token) :
    read hash rest = readDefinition hash name behind := by
  unfold read
  rw [ht]
  dsimp only
  rw [if_pos (by simp [hk, htext]), hn]
  exact if_pos (by simpa using hword)

/-- A definition with one space in front of the name is read behind that. -/
theorem exists_read_defines (hn : n.kind = .ident ∨ n.kind.isKeyword = true) (hash : Token)
    (p : Position) :
    ∃ q r, read hash (Token.placed p (.define :: .blanks 1 :: n :: xs))
      = readDefinition hash (.ofLexeme n q) (Token.placed r xs) := by
  let q := (p.advance Lexeme.define.text).advance (Lexeme.blanks 1).text
  have hspace : n.kind ≠ .whitespace := (Lexeme.Counts.of_word hn).not_whitespace
  have hname : Tokens.skipSpace (Token.placed (p.advance Lexeme.define.text) (.blanks 1 :: n :: xs))
      = .ofLexeme n q :: Token.placed (q.advance n.text) xs :=
    (List.dropWhile_cons_of_pos rfl).trans
      (List.dropWhile_cons_of_neg (by simpa [Token.ofLexeme] using hspace))
  exact ⟨q, q.advance n.text,
    read_of_define (t := .ofLexeme .define p) rfl rfl rfl hname hn hash⟩

/-- The signature of a macro, from the texts of its name, its list of parameters and its value. -/
def signature (name list value : Text) : Text :=
  Text.trimEnd ("#define ".toList ++ name ++ list ++ ' ' :: value)

/-- What is read behind the name of a macro, with a list of parameters and what is behind it. -/
theorem exists_readDefinition {list behind : List Token}
    (hl : paramList rest = (names, list, behind)) (hash name : Token) :
    ∃ range, readDefinition hash name rest =
      .read (.definition ⟨name.text, (value .start behind).1.text, names⟩
        (.simple (.plain .macroDecl) name.text
          (signature name.text (Token.textOf list) (value .start behind).1.text) range))
        (value .start behind).2 := by
  unfold readDefinition
  rw [hl]
  exact ⟨_, rfl⟩

/-! ## The normal form -/

/-- Behind the name of a macro, some lexemes are a definition with a signature and are read
whole. -/
structure Normal [Alphabet] (n : Lexeme) (m : Definition) (text : Text) (xs : List Lexeme) :
    Prop where
  faithful : Faithful (n :: xs)
  sound : ∀ x ∈ xs, x.kind ≠ .error
  text_eq : textOf (Lexeme.defines n xs) = text
  reads (hash : Token) (p q : Position) : ∃ range,
    readDefinition hash (.ofLexeme n p) (Token.placed q xs)
      = .read (.definition m (.simple (.plain .macroDecl) m.name text range)) []

/-- Without a value a list of parameters stands alone, and loses the blanks behind it. -/
theorem Listed.normal_of_nil [Alphabet] (h : Listed names us ls ws) (hf : Faithful (n :: zs))
    (hn : n.kind = .ident ∨ n.kind.isKeyword = true) :
    Normal n ⟨n.text, [], names⟩ (signature n.text (textOf us) []) ls := by
  have htrim : ∀ us : List Lexeme, signature n.text (textOf us) []
      = "#define ".toList ++ n.text ++ (textOf us).trimEnd := by
    intro us
    have hfront := Text.trimEnd_append (hf.endsSolid_name hn).trimEnd (textOf us ++ [' '])
    rw [Text.trimEnd_append_blank _ (by decide), Lexeme.textOf_defines, Lexeme.textOf_nil,
      List.append_nil, ← List.append_assoc] at hfront
    exact hfront
  have hstops : Stops Text.continuesIdentifier (textOf ls) := by
    rcases h.opens with rfl | ⟨ys, rfl⟩
    · exact .nil
    · exact .cons rfl
  refine ⟨hf.name hn h.faithful hstops, h.sound, ?_, fun hash p q => ?_⟩
  · rw [Lexeme.textOf_defines, htrim, h.trimmed]
  · obtain ⟨range, hdef⟩ := exists_readDefinition (h.reads q) hash (.ofLexeme n p)
    rw [value, Token.textOf_placed] at hdef
    have hsame : signature n.text (textOf ls) [] = signature n.text (textOf us) [] := by
      rw [htrim, htrim, h.trimmed, Text.trimEnd_trimEnd]
    exact ⟨range, hsame ▸ hdef⟩

/-- A list of parameters stands in front of a value, with one space between them. -/
theorem Listed.normal_of_joined [Alphabet] (h : Listed names us ls ws) (hf : Faithful (n :: zs))
    (hn : n.kind = .ident ∨ n.kind.isKeyword = true) {vs : List Lexeme} (hv : Lexeme.Joined vs)
    (hvs : Faithful vs) (hne : vs ≠ []) {r : Position}
    (hws : (value .start (Token.placed r ws)).1.text = textOf vs) :
    Normal n ⟨n.text, textOf vs, names⟩ (signature n.text (textOf us) (textOf vs))
      (us ++ .blanks 1 :: vs) := by
  rcases h.behind with hempty | ⟨rfl, hbehind⟩
  case inl => exact absurd (hws.symm.trans (hempty r)) (hvs.textOf_ne_nil hne)
  case inr =>
    have hstops : Stops Text.continuesIdentifier (textOf (ls ++ .blanks 1 :: vs)) := by
      rcases h.opens with rfl | ⟨ys, rfl⟩
      · exact .cons rfl
      · exact .cons rfl
    obtain ⟨hfaithful, hreads⟩ := hbehind vs (hvs.blanks 0 (hv.stops_isSpace hvs))
    refine ⟨hf.name hn hfaithful hstops, fun x hx => ?_, ?_, fun hash p q => ?_⟩
    · simp only [List.mem_append, List.mem_cons] at hx
      rcases hx with hx | rfl | hx
      · exact h.sound x hx
      · exact nofun
      · exact (hv.plain x hx).1
    · -- the value ends in no blank, and so does all
      have hsolid : Lexeme.EndsSolid (Lexeme.defines n (ls ++ .blanks 1 :: vs)) :=
        (((hv.endsSolid hne hvs).cons (.blanks 1)).append ls).append (Lexeme.defines n [])
      have htext : textOf (Lexeme.defines n (ls ++ .blanks 1 :: vs))
          = "#define ".toList ++ n.text ++ textOf ls ++ ' ' :: textOf vs := by
        rw [Lexeme.textOf_defines, Lexeme.textOf_append, ← List.append_assoc]
        rfl
      rw [← hsolid.trimEnd, htext]
      rfl
    · obtain ⟨hvalue, hrest⟩ := value_joined hv hvs (q.advance (textOf ls))
      obtain ⟨range, hdef⟩ := exists_readDefinition (hreads q) hash (.ofLexeme n p)
      rw [hvalue, hrest, Token.textOf_placed] at hdef
      exact ⟨range, hdef⟩

/-- **The normal form of a definition** is its signature: read behind the same name, that defines
the same macro, with the same signature. -/
theorem exists_normal [Alphabet] (hf : Faithful (n :: zs)) (hs : ∀ z ∈ zs, z.kind ≠ .error)
    (hn : n.kind = .ident ∨ n.kind.isKeyword = true)
    (h : readDefinition hash (.ofLexeme n p) (Token.placed q zs)
      = .read (.definition m d) after) : d.name = m.name ∧ ∃ xs, Normal n m d.signature xs := by
  have hzs : Faithful zs := hf.tail
  obtain ⟨names, us, ls, ws, r, rfl, hread, hlisted⟩ := exists_listed hzs hs q
  have hws : Faithful ws := hzs.append_right
  obtain ⟨left, vs, hvalue⟩ := exists_joins_value hws
    (fun y hy => hs y (List.mem_append_right us hy)) (.start _) r
  obtain ⟨range, hdef⟩ := exists_readDefinition hread hash (.ofLexeme n p)
  obtain ⟨hitem, -⟩ := Outcome.read.inj (h.symm.trans hdef)
  obtain ⟨rfl, rfl⟩ := Item.definition.inj hitem
  refine ⟨rfl, ?_⟩
  rw [hvalue.text, Token.textOf_placed]
  by_cases hne : vs = []
  · subst hne
    exact ⟨ls, hlisted.normal_of_nil hf hn⟩
  · exact ⟨_, hlisted.normal_of_joined hf hn hvalue.joined hvalue.faithful hne hvalue.text⟩

end Construct.Directive

open Construct.Directive (Normal)

variable {options options' : Options} {file file' : String} {source text : Text} {o : Outline}
  {i : EntityId} {e : Entity} {m : Definition} {n : Lexeme} {xs : List Lexeme}

/-- **A macro of a header** has its signature for its normal form. -/
theorem exists_normal_of_parse [Alphabet] (h : parse options file source = .ok o)
    (he : o.get? i = some e) (hk : e.kind = .macroDecl) :
    ∃ m n xs, Records options file source i m ∧
      Entity.definition? (Token.scan options.limits source).dropLast e = some m ∧
      e.name = m.name ∧ (n.kind = .ident ∨ n.kind.isKeyword = true) ∧
      Normal n m e.signature xs := by
  obtain ⟨hany, -⟩ := parse_eq_ok_iff.mp h
  obtain ⟨b, us, hash, rest, m, d, after, hreach, rfl, hmakes, -, hread, -, hsince⟩ :=
    exists_directive_of_parse h he hk
  have hsuffix : hash :: rest <:+ (Token.scan options.limits source).dropLast :=
    hmakes.suffix hreach.suffix
  have hdef : Entity.definition? (Token.scan options.limits source).dropLast e = some m := by
    rw [Entity.definition?, if_pos hk, hsince, Construct.Directive.definition?, hread]
    rfl
  obtain ⟨name, behind, hname, hword, hread⟩ := Construct.Directive.exists_name_of_read hread
  -- the name and what is behind it are cut from the header
  obtain ⟨ws, hcuts, hsound, hscan⟩ := Token.exists_cuts_of_scan hany
  obtain ⟨front, hfront⟩ := (hname.trans (List.suffix_cons hash rest)).trans hsuffix
  obtain ⟨ys, zs, rfl, -, hzs⟩ := Token.exists_of_placed_eq_append (hscan.symm.trans hfront.symm)
  cases zs with
  | nil => cases hzs
  | cons n zs =>
    obtain ⟨rfl, rfl⟩ := List.cons.inj hzs
    have hfaithful : Lexeme.Faithful (n :: zs) := hcuts.faithful.append_right
    have hplain : ∀ z ∈ zs, z.kind ≠ .error := fun z hz =>
      bne_iff_ne.mp (List.all_eq_true.mp hsound z (by simp [hz]))
    obtain ⟨hdname, xs, hxs⟩ := Construct.Directive.exists_normal hfaithful hplain hword hread
    rw [hmakes.becomes.name, hmakes.becomes.signature]
    exact ⟨m, n, xs, hmakes.records hreach, hdef, hdname, hword, hxs⟩

namespace Construct.Directive.Normal

theorem scan_eq [Alphabet] (h : Normal n m text xs) (hn : n.kind = .ident ∨ n.kind.isKeyword = true)
    (hl : options.limits.Admits text) :
    (Token.scan options.limits text).any Token.isError = false ∧
      (Token.scan options.limits text).dropLast = Token.placed .origin (Lexeme.defines n xs) := by
  have hcounts : n.Counts := .of_word hn
  have hfaithful := h.faithful.defines hcounts.not_whitespace
  obtain ⟨ws, hcuts, hscan⟩ := Token.exists_cuts_of_admits hl
  obtain rfl : ws = Lexeme.defines n xs := by
    unfold Lexeme.Faithful at hfaithful
    rw [h.text_eq] at hfaithful
    exact hcuts.unique hfaithful
  rw [hscan, List.dropLast_concat]
  refine ⟨List.any_eq_false.mpr fun t ht => ?_, rfl⟩
  rw [Token.isError, beq_iff_eq]
  rcases List.mem_append.mp ht with ht | ht
  · obtain ⟨x, hx, q, rfl⟩ := Token.exists_of_mem_placed ht
    simp only [Lexeme.defines, List.mem_cons] at hx
    rcases hx with rfl | rfl | rfl | rfl | hx
    · rintro ⟨⟩
    · rintro ⟨⟩
    · rintro ⟨⟩
    · exact hcounts.sound
    · exact h.sound x hx
  · rw [List.mem_singleton.mp ht]
    rintro ⟨⟩

/-- **A definition in normal form** is a header of one macro, which is all that the reading adds to
the macros known from the start. -/
theorem exists_parse [Alphabet] (h : Normal n m text xs)
    (hn : n.kind = .ident ∨ n.kind.isKeyword = true)
    (hl : options.limits.Admits text) (file : String) :
    ∃ o e, parse options file text = .ok o ∧ o.diagnostics = #[] ∧ o.entities.toList.tail = [e] ∧
      e.kind = .macroDecl ∧ e.name = m.name ∧ e.signature = text ∧
      Entity.definition? (Token.scan options.limits text).dropLast e = some m ∧
      ∃ done, (Building.start file text options.definitions).run options.recovery
          options.mergeLineComments text.size (Token.scan options.limits text).dropLast = .ok done ∧
        o = done.finish ∧ options.definitions.Gains m done.definitions := by
  obtain ⟨hany, htokens⟩ := h.scan_eq hn hl
  let hash := Token.ofLexeme (.punct .hash) .origin
  let behind := Token.placed (Position.origin.advance (Lexeme.punct .hash).text)
    (.define :: .blanks 1 :: n :: xs)
  obtain ⟨q, r, hread⟩ : ∃ q r, read hash behind = _ := exists_read_defines hn hash
    (Position.origin.advance (Lexeme.punct .hash).text)
  obtain ⟨range, hdefinition⟩ := h.reads hash q r
  have hone : read hash behind = _ := hread.trans hdefinition
  let b := Building.start file text options.definitions
  let d : Draft := .simple (.plain .macroDecl) m.name text range
  have hmacro : Construct.read b.definitions options.mergeLineComments hash behind
      = .read (.definition m d) [] := hone
  have hrun : b.run options.recovery options.mergeLineComments text.size (hash :: behind)
      = .ok (b.add text.size (.definition m d)) := by
    rw [Building.run_of_cons (show Tokens.skipTrivia (hash :: behind) = hash :: behind from rfl),
      hmacro]
    exact Building.run_of_nil rfl
  have hdraft : (Item.definition m d).draft? = some d := rfl
  obtain ⟨e, he, hbecomes⟩ := Building.exists_becomes_of_add b text.size hdraft
  have hmakes : Building.Makes options.mergeLineComments b (hash :: behind) e hash behind
      (.definition m d) [] d := ⟨rfl, hmacro, rfl, hbecomes⟩
  obtain ⟨_, hform⟩ := hbecomes.kind
  have hkind : e.kind = .macroDecl := hform
  refine ⟨(b.add text.size (.definition m d)).outline, e,
    parse_eq_ok_iff.mpr ⟨hany, _, by rw [htokens]; exact hrun, rfl⟩, rfl, ?_, hkind, hbecomes.name,
    hbecomes.signature, ?_, _, by rw [htokens]; exact hrun, rfl,
    Definitions.gains_define options.definitions m⟩
  · -- besides the root there is this entity
    have htwo : (b.add text.size (.definition m d)).outline.entities.toList.length = 2 :=
      Outline.size_entities_attach ..
    rw [Outline.get?, ← Array.getElem?_toList] at he
    obtain ⟨root, last, hboth⟩ := List.length_eq_two.mp htwo
    rw [hboth] at he ⊢
    exact congrArg (fun x => [x]) (Option.some.inj he)
  · have hord := Token.ordered_scan hany
    rw [htokens] at hord ⊢
    rw [Entity.definition?, if_pos hkind, hmakes.since_start hord List.suffix_rfl, definition?,
      hone]
    rfl

end Construct.Directive.Normal

/-- **The signature of a macro is its definition in normal form.**  A header that is nothing but
the signature of a macro, and stays within the limits, is read without diagnostics, whatever macros
are known from the start, and it has one entity: a macro of the same name and the same signature.
The table of the known macros ends up with the macro that was recorded with the entity in its own
header, and with nothing else that was not known from the start. -/
theorem parse_signature [Alphabet] (h : parse options file source = .ok o) (he : o.get? i = some e)
    (hk : e.kind = .macroDecl) (hl : options'.limits.Admits e.signature) :
    ∃ m o' e', m.name = e.name ∧ Records options file source i m ∧
      Entity.definition? (Token.scan options.limits source).dropLast e = some m ∧
      parse options' file' e.signature = .ok o' ∧ o'.diagnostics = #[] ∧
      o'.entities.toList.tail = [e'] ∧ e'.kind = .macroDecl ∧ e'.name = e.name ∧
      e'.signature = e.signature ∧
      Entity.definition? (Token.scan options'.limits e.signature).dropLast e' = some m ∧
      ∃ done, (Building.start file' e.signature options'.definitions).run options'.recovery
          options'.mergeLineComments e.signature.size
          (Token.scan options'.limits e.signature).dropLast = .ok done ∧
        o' = done.finish ∧ options'.definitions.Gains m done.definitions := by
  obtain ⟨m, n, xs, hrecords, hdef, hname, hword, hnormal⟩ := exists_normal_of_parse h he hk
  obtain ⟨o', e', hparse, hdiagnostics, htail, hkind, hname', hsignature, hdef', hdone⟩ :=
    hnormal.exists_parse hword hl file'
  exact ⟨m, o', e', hname.symm, hrecords, hdef, hparse, hdiagnostics, htail, hkind,
    hname'.trans hname.symm, hsignature, hdef', hdone⟩

/-- A macro with a parameter list, and a continuation and comments in its value. -/
theorem parse_signature_continued :
    let source := "#define  F( a ,... ) (a \\\n + /*b*/ 'c') // d\n".toList
    let m : Definition := ⟨"F".toList, "(a + 'c')".toList, some ["a".toList, "...".toList]⟩
    ∃ o e o' e', parse .standard "a.h" source = .ok o ∧ o.get? 1 = some e ∧
      e.signature = "#define F( a ,... ) (a + 'c')".toList ∧ Records .standard "a.h" source 1 m ∧
      Entity.definition? (Token.scan .standard source).dropLast e = some m ∧
      parse .standard "b.h" e.signature = .ok o' ∧ o'.diagnostics = #[] ∧
      o'.entities.toList.tail = [e'] ∧ e'.signature = e.signature ∧
      Entity.definition? (Token.scan .standard e.signature).dropLast e' = some m ∧
      ∃ done, (Building.start "b.h" e.signature .empty).run .resync true e.signature.size
          (Token.scan .standard e.signature).dropLast = .ok done ∧
        o' = done.finish ∧ done.definitions.get? "F".toList = some m := by
  intro source m
  have hread : (match parse .standard "a.h" source with
      | .ok o => (o.get? 1).map fun e =>
        (e.kind, e.signature, Entity.definition? (Token.scan .standard source).dropLast e)
      | .error _ => none)
      = some (.macroDecl, "#define F( a ,... ) (a + 'c')".toList, some m) := by decide +kernel
  cases h : parse .standard "a.h" source with
  | error e =>
    rw [h] at hread
    cases hread
  | ok o =>
    rw [h] at hread
    obtain ⟨e, he, hmacro⟩ := Option.map_eq_some_iff.mp hread
    simp only [Prod.mk.injEq] at hmacro
    obtain ⟨hk, hsignature, hdef⟩ := hmacro
    have hl : Options.standard.limits.Admits e.signature := by
      rw [hsignature]
      unfold Limits.Admits
      decide +kernel
    obtain ⟨m', o', e', -, hrecords, hdef', hparse, hdiagnostics, htail, -, -, hsame, hagain, done,
      hrun, hfinish, hgains⟩ := @parse_signature _ .standard _ "b.h" _ _ _ _ _ h he hk hl
    obtain rfl : m = m' := Option.some.inj (hdef.symm.trans hdef')
    exact ⟨o, e, o', e', rfl, he, hsignature, hrecords, hdef, hparse, hdiagnostics, htail, hsame,
      hagain, done, hrun, hfinish, hgains "F".toList⟩

end HeaderOutline
