import HeaderOutline.Proofs.Respaced.Scan
import HeaderOutline.Proofs.Revision.Scan
import HeaderOutline.Proofs.Sole

/-! # One gap changed

In a header without directives and comments, white space between two tokens may be replaced by
other blanks; all that is seen of it is where its place is firm or loose (`Respacing.moving`).
If the header is read without a complaint, so is the one with the gap changed, and its outline is
the same (`parse_of_gap`).
-/
namespace HeaderOutline

open Tokens

/-! ## Tokens at other places -/

/-- A token that is neither trivia nor a comment nor the mark of a directive, at another
place. -/
structure Token.Moved (t u : Token) : Prop where
  kind : u.kind = t.kind
  text : u.text = t.text
  not_trivia : t.kind.isTrivia = false
  not_comment : t.kind.isComment = false
  not_hash : t.kind ≠ .punct .hash

/-- Tokens without directives and comments need no reading of these. -/
theorem Respacing.reads_of_moved {S : Respacing} (h : ∀ t u, S.token t u → t.Moved u)
    (merge : Bool) : S.Reads merge where
  directive _ _ ht hk _ := absurd hk (h _ _ ht).not_hash
  comment _ _ ht hk _ := by cases (h _ _ ht).not_comment.symm.trans hk

/-- Tokens keep their texts, and kinds and names count of what is read. -/
def Respacing.moving (firm loose : Trail → Kind → Prop)
    (hfirm : ∀ b k, Trail.keepsLines b k = true → firm b k)
    (hloose : ∀ b k, loose b k → Trail.admitsComment b k = true) : Respacing :=
  { keeping with
    token := Token.Moved
    firm := firm
    loose := loose
    same := fun _ _ => True
    params := fun _ _ => True
    template := fun ps ps' => ps'.isSome = ps.isSome
    doc := fun _ _ => True
    kind_of_token := fun h => h.kind
    text_of_token := fun h _ => h.text
    not_trivia := fun h => h.not_trivia
    firm_of_keepsLines := fun h => hfirm _ _ h
    admits_of_loose := fun h => hloose _ _ h
    same_of_loose := fun _ _ _ => trivial
    not_loose_of_comment := fun h hc => by cases h.not_comment.symm.trans hc
    same_of_token := fun _ => trivial
    same_refl := fun _ => trivial
    same_append := fun _ _ => trivial
    same_trim := fun _ => trivial
    same_trimEnd := fun _ => trivial
    same_of_doc := fun _ => trivial
    params_nil := trivial
    params_append := fun _ _ => trivial
    template_none := rfl
    template_some := fun _ => rfl
    params_of_list := fun _ _ _ _ => trivial }

/-! ## Entities that are the same -/

/-- Entities that agree in what is known of them without regard to places and texts. -/
structure Entity.Resembles (e e' : Entity) : Prop where
  kind : e'.kind = e.kind
  name : e'.name = e.name
  access : e'.access = e.access
  flags : e'.flags = e.flags
  isTemplate : e'.isTemplate = e.isTemplate

/-! ## Headers -/

section

variable {firm loose : Trail → Kind → Prop} {hfirm : ∀ b k, Trail.keepsLines b k = true → firm b k}
  {hloose : ∀ b k, loose b k → Trail.admitsComment b k = true}
  {options : Options} {file : String} {source : Text} {o : Outline}
  {front behind : List Token} {w : Token}

theorem Entity.Respaced.resembles {m : Numbering} {e e' : Entity}
    (h : Entity.Respaced (.moving firm loose hfirm hloose) m e e') : e.Resembles e' :=
  ⟨h.kind, h.name, h.access, h.flags, h.template⟩

theorem Token.exists_mem_placed {xs : List Lexeme} {x : Lexeme} (h : x ∈ xs) (p : Position) :
    ∃ q, ofLexeme x q ∈ placed p xs := by
  induction xs generalizing p with
  | nil => cases h
  | cons y xs ih =>
    rcases List.mem_cons.mp h with rfl | h
    · exact ⟨p, List.mem_cons_self⟩
    · obtain ⟨q, hq⟩ := ih h (p.advance y.text)
      exact ⟨q, List.mem_cons_of_mem _ hq⟩

/-- The tokens of a text in front of one of them, and those behind it. -/
theorem Token.split_at [Alphabet] {l : Limits} (n : Nat) (h : n < (scan l source).dropLast.length) :
    (scan l source).dropLast = (scan l source).dropLast.take n ++
      (scan l source).dropLast[n] :: (scan l source).dropLast.drop (n + 1) := by
  rw [List.getElem_cons_drop, List.take_append_drop]

/-- The lexemes around a token of a text without mistakes. -/
theorem Token.exists_cuts_around [Alphabet] {l : Limits}
    (hany : (scan l source).any isError = false)
    (hw : (scan l source).dropLast = front ++ w :: behind) :
    ∃ xs x ys, Lexeme.Cuts source (xs ++ x :: ys) [] ∧
      (xs ++ x :: ys).all (·.kind != .error) = true ∧ front = placed .origin xs ∧
      w = ofLexeme x (Position.origin.advance (Lexeme.textOf xs)) ∧
      behind = placed (Position.origin.advance (Lexeme.textOf xs ++ x.text)) ys := by
  obtain ⟨zs, hcuts, hsound, hscan⟩ := exists_cuts_of_scan hany
  obtain ⟨xs, rest, rfl, rfl, hrest⟩ := exists_of_placed_eq_append (hscan.symm.trans hw)
  cases rest with
  | nil => cases hrest
  | cons x ys =>
    obtain ⟨rfl, rfl⟩ := List.cons.inj hrest
    exact ⟨xs, x, ys, hcuts, hsound, rfl, rfl, by rw [Position.advance_append]⟩

/-- A text without mistakes is read from its tokens. -/
theorem parse_eq_outlineOf [Alphabet]
    (h : (Token.scan options.limits source).any Token.isError = false) : parse options file source
      = outlineOf options file source (Token.scan options.limits source).dropLast := by
  rw [parse_eq, ParseError.ofTokens?_scan.mpr h]

/-- Without complaints about one of two outlines that are the same, there are none about the
other. -/
theorem Outline.Respaced.diagnostics {S : Respacing} {m : Numbering} {o' : Outline}
    (h : Outline.Respaced S m o o') (hd : o.diagnostics = #[]) : o'.diagnostics = #[] := by
  have hcodes := h.codes
  rw [hd] at hcodes
  simpa using hcodes

/-- Lexemes that are no comments and no marks of directives are the same at two places. -/
theorem Tokens.respaced_of_plain {b : Trail} {ts us : List Token} {xs : List Lexeme} {p : Position}
    (h : ∀ x ∈ xs, x.kind.isComment = false ∧ x.kind ≠ .punct .hash) (q : Position)
    (more : Respaced (.moving firm loose hfirm hloose) (trail (Token.placed p xs) ++ b) ts us) :
    Respaced (.moving firm loose hfirm hloose) b (Token.placed p xs ++ ts)
      (Token.placed q xs ++ us) :=
  respaced_placed (S := .moving firm loose hfirm hloose) (fun _ => trivial)
    (fun _ _ => trivial) (fun x hx ht _ _ => ⟨rfl, rfl, ht, (h x hx).1, (h x hx).2⟩) q more

/-- **A gap of a header is changed** as far as its place allows: the header is read as before. -/
theorem parse_of_gap [Alphabet] (hm : options.predefined = [])
    (h : parse options file source = .ok o) (hd : o.diagnostics = #[])
    (hs : ∀ t ∈ Token.scan options.limits source, t.kind ≠ .punct .hash ∧ t.kind.isComment = false)
    (hw : (Token.scan options.limits source).dropLast = front ++ w :: behind)
    (hk : w.kind = .whitespace) {d : Char} {t : Text} {zs : List Lexeme} (hblank : Lexeme.IsBlank d)
    (hg : Lexeme.Stops Lexeme.isSpace (Token.textOf behind) →
      Lexeme.Cuts (d :: t ++ Token.textOf behind) zs (Token.textOf behind))
    (hz : zs.all (·.kind != .error) = true)
    (hgap : ∀ p, Respacing.Gap (.moving firm loose hfirm hloose) (trail front) (nextKind behind)
      [w] (Token.placed p zs))
    (hl : options.limits.Admits (Token.textOf front ++ (d :: t ++ Token.textOf behind))) :
    ∃ o' m, parse options file (Token.textOf front ++ (d :: t ++ Token.textOf behind)) = .ok o' ∧
      o'.diagnostics = #[] ∧ Outline.Respaced (.moving firm loose hfirm hloose) m o o' := by
  obtain ⟨hany, done, hrun, rfl⟩ := parse_eq_ok_iff.mp h
  obtain ⟨xs, x, ys, hcuts, hsound, rfl, rfl, hback⟩ := Token.exists_cuts_around hany hw
  generalize Position.origin.advance (Lexeme.textOf xs ++ x.text) = p at hback
  subst hback
  have hplain : ∀ {vs : List Lexeme} {q}, Token.placed q vs ⊆ Token.scan options.limits source →
      ∀ v ∈ vs, v.kind.isComment = false ∧ v.kind ≠ .punct .hash := by
    intro vs q hvs v hv
    obtain ⟨r, hr⟩ := Token.exists_mem_placed hv q
    exact ⟨(hs _ (hvs hr)).2, (hs _ (hvs hr)).1⟩
  have hfront : Token.placed .origin xs ⊆ Token.scan options.limits source := fun u hu =>
    List.dropLast_subset _ (hw ▸ List.mem_append_left _ hu)
  have hbehind : Token.placed p ys ⊆ Token.scan options.limits source := fun u hu =>
    List.dropLast_subset _ (hw ▸ List.mem_append_right _ (List.mem_cons_of_mem _ hu))
  have hxs : ∀ v ∈ xs, v.kind ≠ .error ∧ v.kind.isComment = false := fun v hv =>
    ⟨bne_iff_ne.mp (List.all_eq_true.mp hsound v (List.mem_append_left _ hv)),
      (hplain hfront v hv).1⟩
  rw [Token.textOf_placed, Token.textOf_placed] at hl ⊢
  rw [Token.textOf_placed] at hg
  -- the lexemes of the new text
  have hnew := hcuts.replace_blank hk (fun v hv => (hxs v hv).1) hblank.ends.breaks hg
  have hall : (xs ++ zs ++ ys).all (·.kind != .error) = true := by
    simp only [List.all_append, List.all_cons, Bool.and_eq_true] at hsound ⊢
    exact ⟨⟨hsound.1, hz⟩, hsound.2.2⟩
  obtain ⟨hany', hscan⟩ := Token.scan_of_cuts hnew hall hl
  have hback : Respaced (.moving firm loose hfirm hloose) (trail (Token.placed .origin xs))
      (Token.placed p ys ++ [])
      (Token.placed (Position.origin.advance (Lexeme.textOf (xs ++ zs))) ys ++ []) :=
    respaced_of_plain (hplain hbehind) _ .nil
  rw [List.append_nil, List.append_nil] at hback
  have hrespaced : Respaced (.moving firm loose hfirm hloose) []
      (Token.scan options.limits source).dropLast (Token.placed .origin (xs ++ zs ++ ys)) := by
    rw [hw, Token.placed_append, Token.placed_append, List.append_assoc]
    refine respaced_of_plain (hplain hfront) _ ?_
    rw [List.append_nil]
    exact Respaced.gap (hgap _) hback
  have hheeds : Respacing.Heeds (.moving firm loose hfirm hloose) options.definitions := by
    rw [Options.definitions_of_nil hm]
    exact .inl fun _ => rfl
  have hrel : ExceptRel _ _ (outlineOf options file source _)
      (outlineOf options file (Lexeme.textOf xs ++ (d :: t ++ Lexeme.textOf ys)) _) :=
    outlineOf_respaced (Respacing.reads_of_moved (fun _ _ h => h) _) hheeds
      (hrespaced.on (.inl rfl)) (.inr ⟨_, outlineOf_of_ok hrun, hd⟩)
  rw [outlineOf_of_ok hrun, ← hscan, ← parse_eq_outlineOf hany'] at hrel
  generalize parse options file _ = r at hrel ⊢
  cases hrel with
  | ok hrel =>
    obtain ⟨m, hrel⟩ := hrel
    exact ⟨_, m, rfl, hrel.diagnostics hd, hrel⟩

end

end HeaderOutline
