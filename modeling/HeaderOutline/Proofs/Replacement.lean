import HeaderOutline.Proofs.Origin
import HeaderOutline.Proofs.Revision.Scan
import HeaderOutline.Text.Unicode

/-! # Documentation can be replaced

Where the comment of an entity is a block, another block can take its place in the header
(`parse_replace_comment`).  The reading comes to the comment through the same states, up to
places, since it has not passed it before (`Revision.reaches_revised`); it takes the new
block for documentation as it took the old one; and what it reads afterwards does not
depend on the documentation that waits (`Building.comment_origin`).
-/
namespace HeaderOutline

/-! ## What moves -/

/-- A text with the bytes of a stretch replaced. -/
def Span.replace (s : Span) (t new : Text) : Text :=
  (t.slice? ⟨0, s.range.start⟩).getD [] ++ new ++ (t.slice? ⟨s.range.stop, t.size⟩).getD []

/-- The offset to which one moves if a number of bytes takes the place of a range. -/
def ByteRange.shift (b : ByteRange) (width n : Nat) : Nat :=
  if n ≤ b.start then n else n + width - (b.stop - b.start)

/-- A range whose ends move. -/
def ByteRange.moved (move : Nat → Nat) (b : ByteRange) : ByteRange := ⟨move b.start, move b.stop⟩

/-- A diagnostic all of whose ranges move. -/
def Diagnostic.moved (move : Nat → Nat) (d : Diagnostic) : Diagnostic :=
  { d with
    range := d.range.moved move
    related := d.related.map fun x => { x with range := x.range.moved move } }

/-- The ends of a stretch move. -/
structure Span.MovesTo (move : Nat → Nat) (s s' : Span) : Prop where
  start : s'.start.offset = move s.start.offset
  stop : s'.stop.offset = move s.stop.offset

/-- Documentation moves, and says what it said. -/
structure DocComment.MovesTo (move : Nat → Nat) (c c' : DocComment) : Prop where
  content : { c' with span := none } = { c with span := none }
  place : Option.Rel (Span.MovesTo move) c.span c'.span

/-- A body moves. -/
structure Body.MovesTo (move : Nat → Nat) (b b' : Body) : Prop where
  text : b'.text = b.text
  range : b.range.MovesTo move b'.range

/-- An entity moves, and is what it was but for its comment. -/
structure Entity.MovesTo (move : Nat → Nat) (e e' : Entity) : Prop where
  kind : e'.kind = e.kind
  name : e'.name = e.name
  fullName : e'.fullName = e.fullName
  signature : e'.signature = e.signature
  access : e'.access = e.access
  flags : e'.flags = e.flags
  template : e'.template = e.template
  parent : e'.parent = e.parent
  children : e'.children = e.children
  sourceRange : e.sourceRange.MovesTo move e'.sourceRange
  headerRange : e.headerRange.MovesTo move e'.headerRange
  body : Option.Rel (Body.MovesTo move) e.body e'.body

/-! ## The comment as documentation -/

/-- A block of documentation is read by itself, whether or not lines are taken together. -/
theorem Construct.read_block {t : Token} (h : t.IsBlockDoc) (ds : Definitions) (merge : Bool)
    (rest : List Token) :
    read ds merge t rest = .read (.documentation (Comment.documentation t.text t t)) rest := by
  obtain ⟨hk, ho⟩ := h
  obtain ⟨cs, hcs⟩ := ho.exists_eq
  have hmark : Comment.lineMark? t.text = none := by
    rw [hcs]
    rfl
  have hcomment : read ds merge t rest = Comment.read merge t rest := by
    unfold read
    rw [hk]
  rw [hcomment, Comment.read, if_pos (by simp [hk]), hmark, ite_self]

/-- Only documentation makes documentation, and covers what it is read from. -/
theorem Construct.of_read_documentation {ds : Definitions} {merge : Bool} {t : Token}
    {behind rest : List Token} {c : DocComment}
    (h : read ds merge t behind = .read (.documentation (some c)) rest) :
    t.kind = .docComment ∧
      ∃ last, Passed (t :: behind) rest last ∧ c.span = some (.between t last) := by
  have hcovers := read_covers ds merge t behind
  rw [h] at hcovers
  exact hcovers

/-- The comment of an entity is there before the outline is finished, unless it is the one
with which the header ends. -/
theorem Building.comment?_of_finish {b : Building} {id : EntityId} {e : Entity}
    (h : b.finish.get? id = some e) (ht : ¬ b.finish.IsTrailing id) :
    b.outline.comment? id = e.comment := by
  unfold finish at h ht
  cases hp : b.pending with
  | none =>
    rw [hp] at h
    rw [Outline.comment?, show b.outline.get? id = some e from h, Option.bind_some]
  | some c =>
    rw [hp] at h ht
    have hlt : id < b.outline.entities.size + 1 := by
      rw [← Outline.size_entities_attach b.outline Outline.root (trailing c)]
      exact (Array.getElem?_eq_some_iff.mp h).1
    rcases Nat.lt_succ_iff_lt_or_eq.mp hlt with hlt | rfl
    · rw [← Outline.comment?_attach hlt Outline.root (trailing c), Outline.comment?]
      exact congrArg (Option.bind · _) h
    · exact (ht (Outline.isTrailing_attach b.outline c)).elim

/-- The comment of an entity of a header comes from documentation: the reading comes to it,
and with other documentation in its place it leads to the same but for that comment. -/
theorem parse_comment_origin [Alphabet] {options : Options} {file : String} {source : Text}
    {done : Building} {id : EntityId} {c : DocComment}
    (hr : (Building.start file source options.definitions).run options.recovery
      options.mergeLineComments source.size (Token.scan options.limits source).dropLast = .ok done)
    (hany : (Token.scan options.limits source).any Token.isError = false)
    (hc : done.outline.comment? id = some c) :
    ∃ b us t behind rest,
      (Building.start file source options.definitions).Reaches options.recovery
        options.mergeLineComments source.size (Token.scan options.limits source).dropLast b us ∧
      Tokens.skipTrivia us = t :: behind ∧
      Construct.read b.definitions options.mergeLineComments t behind
        = .read (.documentation (some c)) rest ∧
      ∀ q, (b.await q).run options.recovery options.mergeLineComments source.size rest
        = .ok (done.setComment id q) := by
  rcases Building.comment_origin hr hc with hlt | ⟨hp, -⟩ | h
  · -- the root has no comment
    have hstart := Building.inOrder_start file source options.definitions (Token.ordered_scan hany)
    obtain rfl : id = Outline.root := Nat.lt_one_iff.mp hlt
    obtain ⟨root, hroot, hcomment⟩ := Option.bind_eq_some_iff.mp hc
    cases ((hstart.run hr).rooted.comment_eq_none hroot).symm.trans hcomment
  · cases hp
  · exact h

/-- Documentation with which a text starts that starts like a block is one. -/
theorem Token.isBlockDoc_of_prefix [Alphabet] {l : Limits} {source text : Text} {t : Token}
    (hany : (scan l source).any isError = false) (hm : t ∈ (scan l source).dropLast)
    (hk : t.kind = .docComment) (hp : t.text <+: text) (ho : Lexeme.OpensBlock text) :
    t.IsBlockDoc := by
  refine ⟨hk, (docComment_of_scan hany hm hk).2.resolve_left fun hslashes => ?_⟩
  obtain ⟨cs, rfl⟩ := ho.exists_eq
  obtain ⟨ds, hds⟩ := hslashes.trans hp
  exact absurd (List.cons.inj (List.cons.inj hds).2).1 (by decide)

namespace Revision

variable {r : Revision}

theorem token_comment_isBlockDoc (r : Revision) : (r.token r.comment).IsBlockDoc := by
  rw [token_comment]
  exact ⟨rfl, r.new_opens⟩

/-- The new comment takes the place of the old one. -/
theorem between_comment (r : Revision) :
    Span.between (r.token r.comment) (r.token r.comment)
      = r.relocation.span (.between r.comment r.comment) := by
  have hstart : r.place (Position.origin.advance r.before) = Position.origin.advance r.before :=
    r.place_before List.prefix_rfl
  have hstop : r.place ((Position.origin.advance r.before).advance r.old)
      = (Position.origin.advance r.before).advance r.new := by
    have := r.place_behind (u := []) List.nil_prefix
    simpa only [List.append_nil, Position.advance_append] using this
  rw [token_comment]
  show (⟨_, (Position.origin.advance r.before).advance r.new⟩ : Span)
    = ⟨r.place (Position.origin.advance r.before),
      r.place ((Position.origin.advance r.before).advance r.old)⟩
  rw [hstart, hstop]
  rfl

theorem building_start (r : Revision) (file : String) (ds : Definitions) :
    r.building (.start file r.source ds) = .start file r.revised ds := by
  rw [← building_transfer]
  exact Relocation.building_start r.place_origin r.place_end file ds

/-- **One pass over the comment**: what waits afterwards is the new documentation, and
nothing else is another than it was. -/
theorem reaches_comment {policy : Recovery.Policy} {merge : Bool} {size : Nat} {b : Building}
    {us behind : List Token} (h : Tokens.skipTrivia us = r.comment :: behind) :
    (r.building b).Reaches policy merge size (us.map r.token)
      (r.building (b.await (Construct.Comment.documentation r.new r.comment r.comment)))
      (behind.map r.token) := by
  have hread := Construct.read_block r.token_comment_isBlockDoc (r.building b).definitions merge
    (behind.map r.token)
  have htext : (r.token r.comment).text = r.new := by rw [token_comment]
  have hdoc : Construct.Comment.documentation (r.token r.comment).text (r.token r.comment)
      (r.token r.comment)
        = (Construct.Comment.documentation r.new r.comment r.comment).map r.relocation.doc := by
    simp only [Construct.Comment.documentation, htext, between_comment, Option.map_map]
    rfl
  have hskip : Tokens.skipTrivia (us.map r.token) = r.token r.comment :: behind.map r.token := by
    rw [Tokens.skipTrivia_map, h]
    rfl
  have hafter : (r.building b).after policy size (Construct.read (r.building b).definitions merge
      (r.token r.comment) (behind.map r.token))
        = .ok (r.building
          (b.await (Construct.Comment.documentation r.new r.comment r.comment))) := by
    rw [hread, hdoc]
    rfl
  have hnext : (Construct.read (r.building b).definitions merge (r.token r.comment)
      (behind.map r.token)).next = behind.map r.token := by
    rw [hread]
    rfl
  refine .pass hskip hafter ?_
  rw [hnext]
  exact .refl _ _

variable {options : Options} {file : String} {o : Outline} {id : EntityId} {e : Entity}
  {comment : DocComment}

/-- The outline of a header in which one block of documentation is replaced. -/
theorem exists_revised [Alphabet] {source c : Text} {s : Span} {l : Limits}
    (h : parse options file source = .ok o) (he : o.get? id = some e) (ht : ¬ o.IsTrailing id)
    (hc : e.comment = some comment) (hs : comment.span = some s)
    (hblock : Lexeme.OpensBlock (s.slice source)) (hopens : Lexeme.OpensBlock c)
    (hscan : (Token.scan l c).map (·.kind) = [.docComment, .eof]) :
    ∃ r : Revision, r.source = source ∧ r.new = c ∧ s = .between r.comment r.comment ∧
      ((Token.scan options.limits r.revised).any Token.isError = false →
        parse options file r.revised = .ok (r.outline (o.setComment id
          (Construct.Comment.documentation c r.comment r.comment)))) := by
  obtain ⟨hany, done, hr, rfl⟩ := parse_eq_ok_iff.mp h
  have hdone := (Building.comment?_of_finish he ht).trans hc
  obtain ⟨b, us, t, behind, rest, hreach, hskip, hread, hother⟩ :=
    parse_comment_origin hr hany hdone
  obtain ⟨hk, last, hpassed, hspan⟩ := Construct.of_read_documentation hread
  have hsuffix : t :: behind <:+ (Token.scan options.limits source).dropLast :=
    (hskip ▸ Tokens.skipTrivia_suffix us).trans hreach.suffix
  -- the documentation is a block, so it has been read by itself
  have hdoc : t.IsBlockDoc := by
    refine Token.isBlockDoc_of_prefix hany (hsuffix.subset List.mem_cons_self) hk ?_ hblock
    rw [Option.some.inj (hs.symm.trans hspan)]
    exact Token.slice_between hany hsuffix hpassed
  rw [Construct.read_block hdoc] at hread
  obtain ⟨hcomment, rfl⟩ := Outcome.read.inj hread
  obtain ⟨d, -, rfl⟩ := Option.map_eq_some_iff.mp (Item.documentation.inj hcomment)
  obtain rfl : .between t t = s := Option.some.inj hs
  obtain ⟨r, xs, ys, hsplits, rfl, rfl, rfl, hcuts, hplaced⟩ :=
    exists_of_scan hany hsuffix hdoc hopens
  refine ⟨r, rfl, rfl, rfl, fun hrevised => ?_⟩
  have hnodup := Token.nodup_of_ordered (Token.ordered_scan hany)
  obtain ⟨hall, hmap⟩ := map_token_placed hsplits (hplaced ▸ hnodup)
  rw [← hplaced] at hall hmap
  have htokens := scan_revised hsplits hcuts (Token.cuts_of_scan hscan) hrevised
  rw [← hmap] at htokens
  -- the comment stands at one place only
  have hbehind : r.comment ∉ behind := (List.nodup_cons.mp (hsuffix.sublist.nodup hnodup)).1
  have hleft : ¬ Passed (Token.scan options.limits r.source).dropLast us r.comment := by
    rintro ⟨taken, htaken, hm⟩
    rw [htaken] at hnodup
    have hmem : r.comment ∈ us :=
      (hskip ▸ Tokens.skipTrivia_suffix us : _ <:+ us).subset List.mem_cons_self
    exact (List.nodup_append.mp hnodup).2.2 _ hm _ hmem rfl
  refine parse_eq_ok_iff.mpr ⟨hrevised, r.building (done.setComment id
    (Construct.Comment.documentation r.new r.comment r.comment)), ?_, ?_⟩
  · have hstart := Outline.hasRoot_ofSource file r.source
    have hroot := Building.hasRoot_reaches hstart hreach
    rw [← building_start, htokens, (reaches_revised hstart hreach hall hleft).run_eq,
      (reaches_comment hskip).run_eq]
    exact run_revised hroot (hall.leave ((List.suffix_cons _ _).trans hsuffix)) hbehind (hother _)
  · rw [outline_finish, Building.finish_setComment _ (Outline.lt_size_of_comment? hdone)]

/-- The bytes of the comment. -/
theorem range_comment (r : Revision) :
    (Span.between r.comment r.comment).range = ⟨r.before.size, (r.before ++ r.old).size⟩ := by
  have hstop : r.comment.stop.offset = (r.before ++ r.old).size := by
    rw [Token.stop_offset, Text.size_append]
    exact congrArg (· + r.old.size) (Position.origin_advance_offset r.before)
  rw [Span.range, Span.between, hstop,
    show r.comment.start.offset = r.before.size from Position.origin_advance_offset r.before,
    Nat.max_eq_left (by simp)]

/-- Offsets move as the revision moves them. -/
theorem shift_comment (r : Revision) :
    (Span.between r.comment r.comment).range.shift r.new.size = r.offset := by
  funext n
  rw [range_comment, ByteRange.shift, offset, Text.size_append, Nat.add_sub_cancel_left]

/-- The header with the stretch of the comment replaced is the revised header. -/
theorem replace_comment (r : Revision) :
    (Span.between r.comment r.comment).replace r.source r.new = r.revised := by
  have hfront : r.source.slice? ⟨0, r.before.size⟩ = some r.before := by
    have := Text.slice?_append [] r.before (r.old ++ r.behind)
    rwa [List.nil_append, ← List.append_assoc] at this
  have hback : r.source.slice? ⟨(r.before ++ r.old).size, r.source.size⟩ = some r.behind := by
    have := Text.slice?_append (r.before ++ r.old) r.behind []
    rwa [List.append_nil] at this
  rw [Span.replace, range_comment, hfront, hback]
  rfl

theorem rel_map {α : Type} {R : α → α → Prop} {f : α → α} (h : ∀ a, R a (f a)) (o : Option α) :
    Option.Rel R o (o.map f) := by
  cases o with
  | none => exact .none
  | some a => exact .some (h a)

end Revision

namespace Relocation

theorem span_movesTo (r : Relocation) (s : Span) : s.MovesTo r.offset (r.span s) :=
  ⟨r.place_offset s.start, r.place_offset s.stop⟩

theorem doc_movesTo (r : Relocation) (c : DocComment) : c.MovesTo r.offset (r.doc c) :=
  ⟨rfl, Revision.rel_map r.span_movesTo c.span⟩

theorem entity_movesTo (r : Relocation) (e : Entity) (q : Option DocComment) :
    e.MovesTo r.offset (r.entity { e with comment := q }) where
  kind := rfl
  name := rfl
  fullName := rfl
  signature := rfl
  access := rfl
  flags := rfl
  template := rfl
  parent := rfl
  children := rfl
  sourceRange := r.span_movesTo _
  headerRange := r.span_movesTo _
  body := Revision.rel_map (fun b => ⟨rfl, r.span_movesTo b.range⟩) e.body

end Relocation

namespace Revision

theorem span_movesTo (r : Revision) (s : Span) : s.MovesTo r.offset (r.relocation.span s) :=
  r.relocation.span_movesTo s

theorem doc_movesTo (r : Revision) (c : DocComment) : c.MovesTo r.offset (r.relocation.doc c) :=
  r.relocation.doc_movesTo c

theorem entity_movesTo (r : Revision) (e : Entity) (q : Option DocComment) :
    e.MovesTo r.offset (r.relocation.entity { e with comment := q }) :=
  r.relocation.entity_movesTo e q

end Revision

/-- **Documentation can be replaced.**  In a header with an outline, let the comment of an
entity, which is not the comment that the header ends with, be a block of documentation.
Any text that is a block of documentation by itself can take its place: if there are no
mistakes among the tokens of the new header, it has an outline with the same entities.  The
entity carries what the new block says, and the others what they carried; all places and
diagnostics behind the block have moved by the difference in size. -/
theorem parse_replace_comment [Alphabet] {options : Options} {file : String} {source c : Text}
    {o : Outline} {id : EntityId} {e : Entity} {comment : DocComment} {s : Span} {l : Limits}
    (h : parse options file source = .ok o) (he : o.get? id = some e) (ht : ¬ o.IsTrailing id)
    (hc : e.comment = some comment) (hs : comment.span = some s)
    (hblock : "/**".toList <+: s.slice source ∨ "/*!".toList <+: s.slice source)
    (hopens : "/*".toList <+: c) (hscan : (Token.scan l c).map (·.kind) = [.docComment, .eof])
    (hany : (Token.scan options.limits (s.replace source c)).any Token.isError = false) :
    ∃ o', parse options file (s.replace source c) = .ok o' ∧
      o'.entities.size = o.entities.size ∧
      (∀ j e, o.get? j = some e → ∃ e', o'.get? j = some e' ∧
        e.MovesTo (s.range.shift c.size) e' ∧
        if j = id then ∃ s', s.MovesTo (s.range.shift c.size) s' ∧
          e'.comment = (DocComment.read? c).map ({ · with span := some s' })
        else Option.Rel (DocComment.MovesTo (s.range.shift c.size)) e.comment e'.comment) ∧
      o'.diagnostics = o.diagnostics.map (·.moved (s.range.shift c.size)) := by
  have hold : Lexeme.OpensBlock (s.slice source) := by
    rcases hblock with hp | hp
    · exact List.IsPrefix.trans ⟨['*'], rfl⟩ hp
    · exact List.IsPrefix.trans ⟨['!'], rfl⟩ hp
  obtain ⟨r, rfl, rfl, rfl, hparse⟩ := Revision.exists_revised h he ht hc hs hold hopens hscan
  rw [r.replace_comment] at hany ⊢
  rw [r.shift_comment]
  refine ⟨_, hparse hany, ?_, fun j e he => ?_, rfl⟩
  · rw [Revision.size_entities_outline, Outline.size_entities_setComment]
  · rw [Revision.get?_outline, Outline.get?_setComment, he]
    by_cases hj : j = id
    · subst hj
      refine ⟨_, congrArg (Option.map r.relocation.entity) (if_pos rfl), r.entity_movesTo e _, ?_⟩
      rw [if_pos rfl]
      refine ⟨_, r.span_movesTo (.between r.comment r.comment), ?_⟩
      show (Construct.Comment.documentation r.new r.comment r.comment).map r.relocation.doc = _
      rw [Construct.Comment.documentation, Option.map_map]
      rfl
    · refine ⟨_, congrArg (Option.map r.relocation.entity) (if_neg (Ne.symm hj)),
        r.entity_movesTo e e.comment, ?_⟩
      rw [if_neg hj]
      exact Revision.rel_map r.doc_movesTo e.comment

/-- A header of two variables, of which the first one gets another comment. -/
theorem parse_replace_comment_two_variables :
    ∃ o o' e e', parse .standard "a.h" "/** A. */\nint a;\nint b;".toList = .ok o ∧
      parse .standard "a.h" "/*! Not A. */\nint a;\nint b;".toList = .ok o' ∧
      o'.entities.size = o.entities.size ∧ o.get? 2 = some e ∧ o'.get? 2 = some e' ∧
      e'.signature = e.signature := by
  have hread : (match parse .standard "a.h" "/** A. */\nint a;\nint b;".toList with
      | .ok o => o.size == 2 && (o.get? 2).isSome &&
          (((o.get? 1).bind (·.comment)).bind (·.span)).any fun s =>
            "/**".toList.isPrefixOf (s.slice "/** A. */\nint a;\nint b;".toList) &&
            s.replace "/** A. */\nint a;\nint b;".toList "/*! Not A. */".toList
              == "/*! Not A. */\nint a;\nint b;".toList
      | .error _ => false) = true := by decide +kernel
  have hscan : (Token.scan .standard "/*! Not A. */".toList).map (·.kind)
      = [.docComment, .eof] := by
    decide +kernel
  have hany : (Token.scan Options.standard.limits
      "/*! Not A. */\nint a;\nint b;".toList).any Token.isError = false := by
    decide +kernel
  cases h : parse .standard "a.h" "/** A. */\nint a;\nint b;".toList with
  | error e =>
    rw [h] at hread
    cases hread
  | ok o =>
    rw [h] at hread
    simp only [Bool.and_eq_true, beq_iff_eq, Option.any_eq_true, List.isPrefixOf_iff_prefix]
      at hread
    obtain ⟨⟨hsize, hsecond⟩, s, hs, hblock, hreplace⟩ := hread
    obtain ⟨c, hcomment, hspan⟩ := Option.bind_eq_some_iff.mp hs
    obtain ⟨e₁, he₁, hc⟩ := Option.bind_eq_some_iff.mp hcomment
    obtain ⟨e, he⟩ := Option.isSome_iff_exists.mp hsecond
    have htrailing : ¬ o.IsTrailing 1 := by
      rintro ⟨hlast, -⟩
      have hsize : o.entities.size - 1 = 2 := hsize
      rw [← hlast] at hsize
      exact absurd hsize (by decide)
    obtain ⟨o', ho', hentities, hall, -⟩ := parse_replace_comment h he₁ htrailing hc hspan
      (.inl hblock) ⟨"! Not A. */".toList, rfl⟩ hscan (hreplace ▸ hany)
    obtain ⟨e', he', hmoves, -⟩ := hall 2 e he
    exact ⟨o, o', e, e', rfl, hreplace ▸ ho', hentities, he, he', hmoves.signature⟩

end HeaderOutline
