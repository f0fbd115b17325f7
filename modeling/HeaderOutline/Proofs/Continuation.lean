import HeaderOutline.Proofs.Continuation.Value
import HeaderOutline.Proofs.Replacement
import HeaderOutline.Proofs.Respaced.Moved
import HeaderOutline.Proofs.Swap.Run
import HeaderOutline.Text.Unicode

/-! # Continued lines

In the value of a macro a line end behind a backslash is as good as white space: a header in which
it takes the place of that has the same entities, and the macro is defined as before
(`parse_continued`).  Up to the directive nothing looks at what stands behind the hash sign
(`Building.Reaches.run_swap`), and behind the gap the tokens move (`Edit.relocation`).
-/
namespace HeaderOutline

open Construct.Directive (AnyGap Gap)

namespace Lexeme

/-- A line end that a backslash takes away. -/
def continued : List Lexeme := [punct .backslash, sound .newline ['\n']]

theorem cuts_continued [Alphabet] (t : Text) : Cuts ('\\' :: '\n' :: t) continued t :=
  .next (.next (.none t))

/-- A line is continued where there was white space. -/
theorem Cuts.continued [Alphabet] {v : Text} {x : Lexeme} {xs ys : List Lexeme}
    (h : Cuts v (xs ++ x :: ys) [])
    (hx : x.kind = .whitespace) (hs : (xs ++ x :: ys).all (·.kind != .error) = true) :
    Cuts (textOf xs ++ ('\\' :: '\n' :: textOf ys)) (xs ++ Lexeme.continued ++ ys) [] ∧
      (xs ++ Lexeme.continued ++ ys).all (·.kind != .error) = true := by
  have hxs : ∀ v ∈ xs, v.kind ≠ .error := fun v hv =>
    bne_iff_ne.mp (List.all_eq_true.mp hs v (List.mem_append_left _ hv))
  refine ⟨h.replace_blank (t := ['\n']) hx hxs breaks_backslash fun _ => cuts_continued _, ?_⟩
  simp only [List.all_append, List.all_cons, Bool.and_eq_true] at hs ⊢
  exact ⟨⟨hs.1, rfl⟩, hs.2.2⟩

end Lexeme

namespace Construct.Directive

theorem gap_continued (p : Position) : Gap (Token.placed p Lexeme.continued) :=
  .continued rfl rfl

end Construct.Directive

/-- The tokens of the value of a macro, among those of its header. -/
def Entity.valueTokens (ts : List Token) (e : Entity) : List Token :=
  match Tokens.since e.sourceRange.start.offset ts with
  | _ :: rest => Construct.Directive.valueTokens rest
  | [] => []

namespace Edit

variable {r : Edit} {xs ys : List Lexeme}

/-- A blank that is nothing, in front of what is replaced. -/
def mark (r : Edit) : Token := ⟨.whitespace, [], Position.origin.advance r.before, none⟩

/-- **The tokens around what is replaced**, with a mark for it, move and are kept. -/
theorem map_marked (hx : Lexeme.textOf xs = r.before) (hy : Lexeme.textOf ys = r.behind) :
    (∀ t ∈ Token.placed .origin xs ++
        r.mark :: Token.placed (Position.origin.advance (r.before ++ r.old)) ys,
      r.relocation.Keeps t) ∧
      (Token.placed .origin xs ++
          r.mark :: Token.placed (Position.origin.advance (r.before ++ r.old)) ys).map
          r.relocation.token
        = Token.placed .origin xs ++
          r.mark :: Token.placed (Position.origin.advance (r.before ++ r.new)) ys := by
  obtain ⟨hfront, hmapfront⟩ := placed_before hx
  obtain ⟨hback, hmapback⟩ := placed_behind hy
  have hplace : r.place (Position.origin.advance r.before) = Position.origin.advance r.before :=
    r.place_before List.prefix_rfl
  have hmark : r.relocation.token r.mark = r.mark := by
    show { r.mark with start := r.place (Position.origin.advance r.before) } = _
    rw [hplace]
    rfl
  have hkeep : r.relocation.Keeps r.mark := ⟨rfl, rfl⟩
  constructor
  · intro t ht
    rcases List.mem_append.mp ht with ht | ht
    · exact hfront t ht
    · rcases List.mem_cons.mp ht with rfl | ht
      · exact hkeep
      · exact hback t ht
  · rw [List.map_append, List.map_cons, hmapfront, hmapback, hmark]

/-- Offsets move as those behind the token that is replaced. -/
theorem offset_eq_shift (r : Edit) {x : Lexeme} (hx : x.text = r.old) :
    r.offset = (Token.ofLexeme x (Position.origin.advance r.before)).range.shift r.new.size := by
  have hrange : (Token.ofLexeme x (Position.origin.advance r.before)).range
      = ⟨r.before.size, r.before.size + r.old.size⟩ := by
    rw [← Position.origin_advance_offset r.before, ← hx]
    rfl
  funext n
  rw [hrange, ByteRange.shift, Nat.add_sub_cancel_left]
  rfl

/-- **A line is continued at a gap.**  The header in which the line end behind a backslash takes the
place of white space has the same tokens around it, as the edit moves them. -/
theorem exists_continued [Alphabet] {l : Limits} {source : Text} {w t : Token}
    {front behind : List Token} (hany : (Token.scan l source).any Token.isError = false)
    (hw : (Token.scan l source).dropLast = front ++ w :: t :: behind) (hk : w.kind = .whitespace)
    (ht : t.kind.isTrivia = false)
    (hl : l.Admits (Token.textOf front ++ '\\' :: '\n' :: Token.textOf (t :: behind))) :
    ∃ (r : Edit) (g : List Token) (t' : Token) (behind' : List Token), r.source = source ∧
      r.edited = Token.textOf front ++ '\\' :: '\n' :: Token.textOf (t :: behind) ∧
      r.offset = w.range.shift 2 ∧ Gap g ∧ t'.kind.isTrivia = false ∧
      (∀ u ∈ front ++ r.mark :: t :: behind, r.relocation.Keeps u) ∧
      (front ++ r.mark :: t :: behind).map r.relocation.token = front ++ r.mark :: t' :: behind' ∧
      (Token.scan l r.edited).any Token.isError = false ∧
      (Token.scan l r.edited).dropLast = front ++ (g ++ t' :: behind') := by
  obtain ⟨xs, x, ys, hcuts, hsound, rfl, rfl, hback⟩ := Token.exists_cuts_around hany hw
  obtain ⟨u, -, hrest⟩ := hcuts.split
  obtain ⟨c, cs, hx, -⟩ := hrest.isSpace_of_whitespace hk
  let r : Edit := ⟨Lexeme.textOf xs, x.text, ['\\', '\n'], Lexeme.textOf ys,
    hx ▸ List.cons_ne_nil c cs⟩
  have hsource : r.source = source := by
    rw [← hcuts.append_eq, List.append_nil, Lexeme.textOf_append, Lexeme.textOf_cons,
      ← List.append_assoc]
    rfl
  have hedited : r.edited = Lexeme.textOf xs ++ '\\' :: '\n' :: Lexeme.textOf ys :=
    List.append_assoc ..
  have htext : Token.textOf (t :: behind) = Lexeme.textOf ys := by
    rw [hback, Token.textOf_placed]
  rw [htext, Token.textOf_placed, ← hedited] at hl ⊢
  obtain ⟨hnew, hsound'⟩ := hcuts.continued hk hsound
  obtain ⟨hany', hscan⟩ := Token.scan_of_cuts (hedited ▸ hnew) hsound' hl
  obtain ⟨hkeeps, hmap⟩ := map_marked (show Lexeme.textOf xs = r.before from rfl)
    (show Lexeme.textOf ys = r.behind from rfl)
  cases ys with
  | nil => cases hback
  | cons y ys =>
    obtain ⟨rfl, rfl⟩ := List.cons.inj hback
    have hgap := Construct.Directive.gap_continued (Position.origin.advance r.before)
    refine ⟨r, _, .ofLexeme y (Position.origin.advance (r.before ++ r.new)), _, hsource, rfl,
      r.offset_eq_shift rfl, hgap, ht, hkeeps, hmap, hany', ?_⟩
    have hfront : Lexeme.textOf (xs ++ Lexeme.continued) = r.before ++ r.new :=
      Lexeme.textOf_append xs Lexeme.continued
    rw [hscan, Token.placed_append, Token.placed_append, List.append_assoc, hfront]
    rfl

end Edit

section

variable {options : Options} {policy : Recovery.Policy} {merge : Bool} {file : String}
  {source : Text} {ds : Definitions} {o : Outline} {b done : Building} {i : EntityId} {e : Entity}
  {hash w t t' : Token} {front behind behind' rest us head body g g' : List Token}

/-- **A gap in the value of a macro**, from the hash sign of its directive on: read with any other
gap, the directive is the same. -/
theorem exists_gap_of_valueTokens [Alphabet]
    (hn : (Token.scan options.limits source).dropLast.Nodup)
    (hsuffix : hash :: rest <:+ (Token.scan options.limits source).dropLast)
    (hsince : Tokens.since e.sourceRange.start.offset (Token.scan options.limits source).dropLast
      = hash :: rest)
    (hw : (Token.scan options.limits source).dropLast = front ++ w :: t :: behind)
    (hk : w.kind = .whitespace) (ht : t.kind.isTrivia = false)
    (hvalue : ∀ u ∈ [w, t], u ∈ e.valueTokens (Token.scan options.limits source).dropLast) :
    ∃ head body, front = head ++ hash :: body ∧ rest = body ++ w :: t :: behind ∧
      AnyGap hash body := by
  have hmem : ∀ u ∈ [w, t], u ∈ Construct.Directive.valueTokens rest := by
    intro u hu
    have hm := hvalue u hu
    rwa [Entity.valueTokens, hsince] at hm
  obtain ⟨head, hhead⟩ := hsuffix
  -- the gap stands behind the hash sign
  have hrest : w :: t :: behind <:+ rest := by
    obtain ⟨a, b, rfl⟩ := List.append_of_mem (Construct.Directive.mem_of_mem_valueTokens
      (hmem w (by simp)))
    have hb : w :: b <:+ (Token.scan options.limits source).dropLast :=
      hhead ▸ (List.suffix_append a _).trans
        ((List.suffix_cons hash _).trans (List.suffix_append head _))
    have hsame := Tokens.eq_of_cons_suffix hn (hw ▸ List.suffix_append front _) hb
    exact hsame ▸ List.suffix_append a _
  have hrestnodup : rest.Nodup :=
    (hhead ▸ (List.suffix_cons hash rest).trans (List.suffix_append head _) :
      rest <:+ _).sublist.nodup hn
  obtain ⟨us, hus, hend⟩ := Construct.Directive.exists_of_mem_valueTokens hrestnodup hrest
    (hmem w (by simp)) (hmem t (by simp))
  obtain ⟨body, hbody, hgap⟩ := Construct.Directive.anyGap_of_value hus (.space hk) ht hend
  refine ⟨head, body, ?_, hbody, hgap hash⟩
  rw [← hhead, hbody, List.singleton_append, ← List.cons_append, ← List.append_assoc] at hw
  exact (List.append_cancel_right hw).symm

/-! ## The reading -/

/-- **A gap behind a hash sign is edited.**  A clean reading comes to the hash sign in the same way
whatever stands behind it, and with a mark for the gap the tokens of the edited header are those of
the header at other places. -/
theorem Building.Reaches.run_edited {r : Edit}
    (hreach : Building.Reaches policy merge r.source.size (.start file r.source ds)
      (head ++ hash :: body ++ (g ++ t :: behind)) b us)
    (hus : Tokens.skipTrivia us = hash :: (body ++ (g ++ t :: behind)))
    (hh : hash.kind = .punct .hash) (hplain : Tokens.PlainAttributes head)
    (hrun : Building.run policy merge r.source.size (.start file r.source ds)
      (head ++ hash :: body ++ (g ++ t :: behind)) = .ok done)
    (hd : done.outline.diagnostics = #[]) (hgap : AnyGap hash body) (hg : Gap g) (hg' : Gap g')
    (ht : t.kind.isTrivia = false) (ht' : t'.kind.isTrivia = false)
    (hkeeps : ∀ u ∈ head ++ hash :: body ++ r.mark :: t :: behind, r.relocation.Keeps u)
    (hmap : (head ++ hash :: body ++ r.mark :: t :: behind).map r.relocation.token
      = head ++ hash :: body ++ r.mark :: t' :: behind') :
    Building.run policy merge r.edited.size (.start file r.edited ds)
      (head ++ hash :: body ++ (g' ++ t' :: behind'))
        = .ok ((r.relocation.transfer r.edited).building done) := by
  have hassoc : ∀ vs : List Token, head ++ hash :: body ++ vs = head ++ [hash] ++ (body ++ vs) := by
    intro vs
    simp
  have hmark : Gap [r.mark] := .space rfl
  have hprobed := Construct.Declaration.probedAlike_of_plainAttributes hplain [hash]
    (body ++ (g ++ t :: behind))
  have hstart : Building.run policy merge r.source.size (.start file r.source ds)
      (head ++ hash :: body ++ r.mark :: t :: behind) = .ok done := by
    rw [hassoc] at hreach hrun
    rw [hassoc, ← hrun]
    exact hreach.run_swap hus hh hrun hd hprobed rfl (hgap hmark hg ht)
  have hmoved := Transfer.run_building (T := r.relocation.transfer r.edited) hkeeps
    (Outline.hasRoot_ofSource file r.source) hstart
  rw [Relocation.building_start r.place_origin r.place_end] at hmoved
  change Building.run policy merge (r.offset r.source.size) _
    ((head ++ hash :: body ++ r.mark :: t :: behind).map r.relocation.token) = _ at hmoved
  rw [r.offset_end, hmap] at hmoved
  rw [← hmoved, hassoc, hassoc]
  rw [hassoc] at hreach hrun
  exact hreach.run_swap hus hh hrun hd hprobed rfl (hgap hg' hmark ht')

/-- What a directive defines does not depend on where it stands. -/
theorem Relocation.definition?_outcome (r : Relocation) (out : Outcome) :
    (r.outcome out).definition? = out.definition? := by
  cases out with
  | failed => rfl
  | read item rest => cases item <;> rfl

/-- The directive stays where it is and defines what it defined. -/
theorem Construct.Directive.definition?_edited {r : Edit} (hgap : AnyGap hash body) (hg : Gap g)
    (hg' : Gap g') (ht : t.kind.isTrivia = false) (ht' : t'.kind.isTrivia = false)
    (hkeeps : ∀ u ∈ head ++ hash :: body ++ r.mark :: t :: behind, r.relocation.Keeps u)
    (hmap : (head ++ hash :: body ++ r.mark :: t :: behind).map r.relocation.token
      = head ++ hash :: body ++ r.mark :: t' :: behind') :
    r.place hash.start = hash.start ∧ (read hash (body ++ (g' ++ t' :: behind'))).definition?
      = (read hash (body ++ (g ++ t :: behind))).definition? := by
  have hmark : Gap [r.mark] := .space rfl
  rw [List.append_assoc, List.append_assoc, List.map_append] at hmap
  obtain ⟨hhash, hrest⟩ := List.cons.inj (List.append_inj_right hmap (List.length_map ..))
  have hmoved : read (r.relocation.token hash)
      ((body ++ r.mark :: t :: behind).map r.relocation.token)
        = r.relocation.outcome (read hash (body ++ r.mark :: t :: behind)) :=
    read_relocated fun u hu => hkeeps u (by
      rw [List.append_assoc]
      exact List.mem_append_right _ hu.mem)
  rw [hhash, show (body ++ r.mark :: t :: behind).map r.relocation.token = _ from hrest] at hmoved
  refine ⟨congrArg Token.start hhash, ?_⟩
  calc (read hash (body ++ (g' ++ t' :: behind'))).definition?
      = (read hash (body ++ ([r.mark] ++ t' :: behind'))).definition? := by
        rw [hgap hg' hmark ht']
    _ = (read hash (body ++ ([r.mark] ++ t :: behind))).definition? :=
        (congrArg Outcome.definition? hmoved).trans (r.relocation.definition?_outcome _)
    _ = (read hash (body ++ (g ++ t :: behind))).definition? := by
        rw [hgap hmark hg ht]

/-- A macro is the one that the directive defines which starts where its entity does. -/
theorem Entity.definition?_of_since {ts : List Token} (hk : e.kind = .macroDecl)
    (hs : Tokens.since e.sourceRange.start.offset ts = hash :: rest) :
    e.definition? ts = (Construct.Directive.read hash rest).definition? := by
  rw [definition?, if_pos hk, hs, Construct.Directive.definition?]

/-- What is built of the edited header is its outline. -/
theorem Edit.parse_edited [Alphabet] {r : Edit}
    (hrun : Building.run options.recovery options.mergeLineComments r.source.size
      (.start file r.source options.definitions) us = .ok done)
    (hany : (Token.scan options.limits r.edited).any Token.isError = false)
    (hrun' : Building.run options.recovery options.mergeLineComments r.edited.size
      (.start file r.edited options.definitions) (Token.scan options.limits r.edited).dropLast
        = .ok ((r.relocation.transfer r.edited).building done)) :
    parse options file r.edited = .ok (r.relocation.outline r.edited done.finish) := by
  have hfinish := Transfer.finish_building (T := r.relocation.transfer r.edited)
    (Building.hasRoot_run (Outline.hasRoot_ofSource file r.source) hrun)
    (Building.PendingPlaced.run (fun c hc => by cases hc) hrun)
  exact parse_eq_ok_iff.mpr ⟨hany, _, hrun', hfinish.symm⟩

/-- The entities of an outline that is carried over are those that were there, at other places. -/
theorem Relocation.exists_get?_outline (r : Relocation) (s : Text) {j : EntityId} {d : Entity}
    (hj : o.get? j = some d) :
    ∃ d', (r.outline s o).get? j = some d' ∧ d.MovesTo r.offset d' ∧
      Option.Rel (DocComment.MovesTo r.offset) d.comment d'.comment := by
  refine ⟨r.entity d, ?_, r.entity_movesTo d d.comment,
    Revision.rel_map r.doc_movesTo d.comment⟩
  rw [get?_outline, hj, Option.map_some]

/-- **A line may be continued in the value of a macro.**  In a header that is read without a
complaint, let white space stand in front of a token in the value of a macro, and let no attribute
in front of the macro hold the end of a statement.  Where a backslash and the end of a line take the
place of the white space, the header is read without a complaint: the macro has the name, the
parameters and the value that it had, and all entities are what they were; those behind have moved
by the difference in size. -/
theorem parse_continued [Alphabet] (h : parse options file source = .ok o)
    (hd : o.diagnostics = #[]) (he : o.get? i = some e) (hkind : e.kind = .macroDecl)
    (hw : (Token.scan options.limits source).dropLast = front ++ w :: t :: behind)
    (hk : w.kind = .whitespace) (ht : t.kind.isTrivia = false)
    (hvalue : ∀ u ∈ [w, t], u ∈ e.valueTokens (Token.scan options.limits source).dropLast)
    (hplain : Tokens.PlainAttributes (Tokens.before e.sourceRange.start.offset
      (Token.scan options.limits source).dropLast))
    (hl : options.limits.Admits
      (Token.textOf front ++ '\\' :: '\n' :: Token.textOf (t :: behind))) :
    ∃ o' e' m, parse options file
        (Token.textOf front ++ '\\' :: '\n' :: Token.textOf (t :: behind)) = .ok o' ∧
      o'.diagnostics = #[] ∧ o'.entities.size = o.entities.size ∧
      (∀ j d, o.get? j = some d → ∃ d', o'.get? j = some d' ∧ d.MovesTo (w.range.shift 2) d' ∧
        Option.Rel (DocComment.MovesTo (w.range.shift 2)) d.comment d'.comment) ∧
      o'.get? i = some e' ∧
      e.definition? (Token.scan options.limits source).dropLast = some m ∧
      e'.definition? (Token.scan options.limits
        (Token.textOf front ++ '\\' :: '\n' :: Token.textOf (t :: behind))).dropLast = some m := by
  obtain ⟨b, us, hash, rest, m, d, after, hreach, -, ⟨hus, -⟩, hhash, hread, hstart, hsince⟩ :=
    exists_directive_of_parse h he hkind
  obtain ⟨hany, done, hrun, rfl⟩ := parse_eq_ok_iff.mp h
  have hsuffix : hash :: rest <:+ (Token.scan options.limits source).dropLast :=
    (hus ▸ Tokens.skipTrivia_suffix us).trans hreach.suffix
  obtain ⟨head, body, rfl, rfl, hgap⟩ := exists_gap_of_valueTokens
    (Token.nodup_of_ordered (Token.ordered_scan hany)) hsuffix hsince hw hk ht hvalue
  obtain ⟨r, g, t', behind', rfl, hedited, hoffset, hg, ht', hkeeps, hmap, hany', hscan⟩ :=
    Edit.exists_continued hany hw hk ht hl
  rw [← hedited, ← hoffset]
  have hclean : done.outline.diagnostics = #[] := by rwa [Building.diagnostics_finish] at hd
  have hblank : Gap [w] := .space hk
  have hbefore : Tokens.before e.sourceRange.start.offset
      (Token.scan options.limits r.source).dropLast = head := by
    have hord := Token.ordered_scan hany
    rw [hw, List.append_assoc, List.cons_append] at hord ⊢
    rw [hstart]
    exact hord.before_start
  rw [hbefore] at hplain
  -- the edited header is read to what is carried over
  rw [hw] at hreach hrun
  have hrun' := hreach.run_edited (g := [w]) hus hhash hplain hrun hclean hgap hblank hg ht ht'
    hkeeps hmap
  rw [← hscan] at hrun'
  have hparse := Edit.parse_edited hrun hany' hrun'
  -- its directive starts where it did
  obtain ⟨hplace, hdefinition⟩ :=
    Construct.Directive.definition?_edited hgap hblank hg ht ht' hkeeps hmap
  have hsince' : Tokens.since (r.relocation.entity e).sourceRange.start.offset
      (Token.scan options.limits r.edited).dropLast = hash :: (body ++ (g ++ t' :: behind')) := by
    have hord := Token.ordered_scan hany'
    rw [hscan, List.append_assoc, List.cons_append] at hord ⊢
    rw [show (r.relocation.entity e).sourceRange.start = r.place e.sourceRange.start from rfl,
      hstart, hplace]
    exact hord.since_start
  refine ⟨_, r.relocation.entity e, m, hparse, ?_, Relocation.size_entities_outline ..,
    fun j d hj => Relocation.exists_get?_outline r.relocation r.edited hj, ?_, ?_, ?_⟩
  · show done.finish.diagnostics.map _ = #[]
    rw [hd, Array.map_empty]
  · rw [Relocation.get?_outline, he, Option.map_some]
  · exact (Entity.definition?_of_since hkind hsince).trans (congrArg Outcome.definition? hread)
  · rw [Entity.definition?_of_since (e := r.relocation.entity e) hkind hsince']
    exact hdefinition.trans (congrArg Outcome.definition? hread)

/-- The two numbers of a value stand on two lines. -/
theorem parse_continued_two_numbers :
    ∃ o o' e e' m, parse .standard "a.h" "#define A 1 2\nint x;".toList = .ok o ∧
      parse .standard "a.h" "#define A 1\\\n2\nint x;".toList = .ok o' ∧ o'.diagnostics = #[] ∧
      o'.entities.size = o.entities.size ∧ o.get? 1 = some e ∧ o'.get? 1 = some e' ∧
      e.definition? (Token.scan .standard "#define A 1 2\nint x;".toList).dropLast = some m ∧
      e'.definition? (Token.scan .standard "#define A 1\\\n2\nint x;".toList).dropLast
        = some m := by
  obtain ⟨o, h, hread⟩ := exists_of_toOption_any (p := fun o => o.diagnostics == #[] &&
      (o.get? 1).any fun e => e.kind == .macroDecl &&
        [⟨.whitespace, [' '], ⟨1, 12, 11⟩, none⟩, ⟨.number, ['2'], ⟨1, 13, 12⟩, none⟩].all
          (e.valueTokens (Token.scan .standard "#define A 1 2\nint x;".toList).dropLast).contains)
    (x := parse .standard "a.h" "#define A 1 2\nint x;".toList) (by decide +kernel)
  simp only [Bool.and_eq_true, beq_iff_eq, Option.any_eq_true, List.all_eq_true,
    List.contains_iff_mem] at hread
  obtain ⟨hd, e, he, hkind, hvalue⟩ := hread
  have hsplit : (Token.scan .standard "#define A 1 2\nint x;".toList).dropLast
      = (Token.scan .standard "#define A 1 2\nint x;".toList).take 6 ++
        ⟨.whitespace, [' '], ⟨1, 12, 11⟩, none⟩ :: ⟨.number, ['2'], ⟨1, 13, 12⟩, none⟩ ::
        (Token.scan .standard "#define A 1 2\nint x;".toList).dropLast.drop 8 := by decide +kernel
  have htext : Token.textOf ((Token.scan .standard "#define A 1 2\nint x;".toList).take 6) ++
      '\\' :: '\n' :: Token.textOf (⟨.number, ['2'], ⟨1, 13, 12⟩, none⟩ ::
        (Token.scan .standard "#define A 1 2\nint x;".toList).dropLast.drop 8)
      = "#define A 1\\\n2\nint x;".toList := by decide +kernel
  have hsquares : ∀ t ∈ (Token.scan .standard "#define A 1 2\nint x;".toList).dropLast,
      t.kind ≠ .punct .lBracket := by decide +kernel
  obtain ⟨o', e', m, h', hd', hsize, -, he', hm, hm'⟩ := parse_continued h hd he hkind hsplit rfl
    rfl hvalue (Tokens.plainAttributes_of_forall fun t ht => hsquares t (List.mem_of_mem_filter ht))
    (by
      unfold Limits.Admits
      decide +kernel)
  rw [htext] at h' hm'
  exact ⟨o, o', e, e', m, h, h', hd', hsize, he, he', hm, hm'⟩

/-- A list of parameters ends where its line is continued. -/
theorem parse_continued_parameters_fails :
    ∃ o e front w t behind, parse .standard "a.h" "#define F(a, b) a\nint x;".toList = .ok o ∧
      o.diagnostics = #[] ∧ o.get? 1 = some e ∧ e.kind = .macroDecl ∧
      (Token.scan .standard "#define F(a, b) a\nint x;".toList).dropLast
        = front ++ w :: t :: behind ∧
      w.kind = .whitespace ∧ t.kind.isTrivia = false ∧
      Tokens.PlainAttributes (Tokens.before e.sourceRange.start.offset
        (Token.scan .standard "#define F(a, b) a\nint x;".toList).dropLast) ∧
      Limits.standard.Admits (Token.textOf front ++ '\\' :: '\n' :: Token.textOf (t :: behind)) ∧
      ¬∃ o' e', parse .standard "a.h"
          (Token.textOf front ++ '\\' :: '\n' :: Token.textOf (t :: behind)) = .ok o' ∧
        o'.get? 1 = some e' ∧ e'.definition? (Token.scan .standard (Token.textOf front ++
            '\\' :: '\n' :: Token.textOf (t :: behind))).dropLast
          = e.definition? (Token.scan .standard "#define F(a, b) a\nint x;".toList).dropLast := by
  obtain ⟨o, h, hread⟩ := exists_of_toOption_any (p := fun o => o.diagnostics == #[] &&
      (o.get? 1).any fun e => e.kind == .macroDecl &&
        e.definition? (Token.scan .standard "#define F(a, b) a\nint x;".toList).dropLast
          == some ⟨['F'], ['a'], some [['a'], ['b']]⟩)
    (x := parse .standard "a.h" "#define F(a, b) a\nint x;".toList) (by decide +kernel)
  obtain ⟨o₁, h₁, hread₁⟩ := exists_of_toOption_any (p := fun o => (o.get? 1).any fun e =>
      e.definition? (Token.scan .standard "#define F(a,\\\nb) a\nint x;".toList).dropLast
        == some ⟨['F'], [], some [['a']]⟩)
    (x := parse .standard "a.h" "#define F(a,\\\nb) a\nint x;".toList) (by decide +kernel)
  simp only [Bool.and_eq_true, beq_iff_eq, Option.any_eq_true] at hread hread₁
  obtain ⟨hd, e, he, hkind, hm⟩ := hread
  obtain ⟨e₁, he₁, hm₁⟩ := hread₁
  have hsplit : (Token.scan .standard "#define F(a, b) a\nint x;".toList).dropLast
      = (Token.scan .standard "#define F(a, b) a\nint x;".toList).take 7 ++
        ⟨.whitespace, [' '], ⟨1, 13, 12⟩, none⟩ :: ⟨.ident, ['b'], ⟨1, 14, 13⟩, none⟩ ::
        (Token.scan .standard "#define F(a, b) a\nint x;".toList).dropLast.drop 9 := by
    decide +kernel
  have htext : Token.textOf ((Token.scan .standard "#define F(a, b) a\nint x;".toList).take 7) ++
      '\\' :: '\n' :: Token.textOf (⟨.ident, ['b'], ⟨1, 14, 13⟩, none⟩ ::
        (Token.scan .standard "#define F(a, b) a\nint x;".toList).dropLast.drop 9)
      = "#define F(a,\\\nb) a\nint x;".toList := by decide +kernel
  have hsquares : ∀ t ∈ (Token.scan .standard "#define F(a, b) a\nint x;".toList).dropLast,
      t.kind ≠ .punct .lBracket := by decide +kernel
  refine ⟨o, e, _, _, _, _, h, hd, he, hkind, hsplit, rfl, rfl,
    Tokens.plainAttributes_of_forall fun t ht => hsquares t (List.mem_of_mem_filter ht), ?_, ?_⟩
  · rw [htext]
    unfold Limits.Admits
    decide +kernel
  · rw [htext]
    rintro ⟨o', e', h', he', hsame⟩
    obtain rfl : o₁ = o' := Except.ok.inj (h₁.symm.trans h')
    obtain rfl : e₁ = e' := Option.some.inj (he₁.symm.trans he')
    rw [hm, hm₁] at hsame
    exact absurd hsame (by decide)

end

end HeaderOutline
