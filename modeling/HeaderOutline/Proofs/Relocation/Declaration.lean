import HeaderOutline.Construct.Alias
import HeaderOutline.Proofs.Alike.Declaration
import HeaderOutline.Proofs.Relocation.Front

/-! # Relocated declarations

What a construct amounts to, and the tokens that it leaves, are relocated as the tokens are
that it is read from.  Declarations read the words of their tokens and keep the text of
those that they take; so they read relocated tokens as they read the old ones, as long as
the tokens that they pass are kept.
-/
namespace HeaderOutline

namespace Relocation

variable (r : Relocation)

/-! ## Relocated constructs -/

/-- A body at its new place. -/
def body (b : Body) : Body := { b with range := r.span b.range }

/-- A draft at its new place. -/
def draft (d : Draft) : Draft :=
  { d with
    sourceRange := r.span d.sourceRange
    headerRange := r.span d.headerRange
    body := d.body.map r.body }

/-- Documentation at its new place. -/
def doc (c : DocComment) : DocComment := { c with span := c.span.map r.span }

/-- What a lead becomes. -/
def lead (l : Lead) : Lead := { l with first := r.token l.first }

/-- A warning about relocated tokens. -/
def warning : Warning → Warning
  | .strayBrace brace => .strayBrace (r.token brace)
  | .namelessMacro found => .namelessMacro (found.map r.token)

/-- What an item becomes. -/
def item : Item → Item
  | .entity d => .entity (r.draft d)
  | .scope d access => .scope (r.draft d) access
  | .linkage => .linkage
  | .close brace => .close (r.token brace)
  | .access level d => .access level (r.draft d)
  | .definition definition d => .definition definition (r.draft d)
  | .suspect w d => .suspect (r.warning w) (r.draft d)
  | .documentation comment => .documentation (comment.map r.doc)
  | .nothing => .nothing

/-- The cause of a fault in relocated tokens. -/
def cause : Cause → Cause
  | .templateWithoutList keyword => .templateWithoutList (r.token keyword)
  | c => c

/-- A fault in relocated tokens. -/
def fault (f : Fault) : Fault := ⟨r.cause f.cause, f.token.map r.token⟩

/-- The outcome of a reading of relocated tokens. -/
def outcome : Outcome → Outcome
  | .read item rest => .read (r.item item) (rest.map r.token)
  | .failed fault ended rest => .failed (r.fault fault) ended (rest.map r.token)

@[simp] theorem outcome_unexpected (context : Context) (code : Code) (rest : List Token) :
    r.outcome (.unexpected context code rest)
      = .unexpected context code (rest.map r.token) := by
  simp only [outcome, Outcome.unexpected, fault, Fault.unexpected, cause, List.head?_map]

@[simp] theorem draft_simple (form : Form) (name signature : Text) (range : Span) :
    r.draft (.simple form name signature range) = .simple form name signature (r.span range) :=
  rfl

@[simp] theorem lead_onto (l : Lead) (signature : Text) :
    (r.lead l).onto signature = l.onto signature := rfl

end Relocation

namespace Construct

variable {r : Relocation}

/-- A name and its last token. -/
def NameReading.relocate (r : Relocation) (n : NameReading) : NameReading :=
  ⟨n.name, r.token n.last, n.rest.map r.token⟩

@[simp] theorem qualifiedName_map (r : Relocation) (name : Text) (last : Token)
    (ts : List Token) :
    qualifiedName name (r.token last) (ts.map r.token)
      = (qualifiedName name last ts).relocate r := by
  fun_induction qualifiedName name last ts with
  | case1 name last c i rest h ih =>
    obtain ⟨hc, hi⟩ : c.kind = .punct .colonColon ∧ i.kind = .ident := by simpa using h
    rw [List.map_cons, List.map_cons, qualifiedName, Relocation.kind_token, Relocation.kind_token,
      if_pos h, r.text_token (by simp [hc]), r.text_token (by simp [hi])]
    exact ih
  | case2 name last c i rest h =>
    rw [List.map_cons, List.map_cons, qualifiedName, Relocation.kind_token, Relocation.kind_token,
      if_neg h]
    rfl
  | case3 name last ts h =>
    rcases ts with _ | ⟨c, _ | ⟨i, rest⟩⟩
    · rfl
    · rfl
    · exact (h c i rest rfl).elim

namespace Typedef

@[simp] theorem holdsDeclarator_map (r : Relocation) (depth : Nat) (ts : List Token) :
    holdsDeclarator depth (ts.map r.token) = holdsDeclarator depth ts := by
  induction ts generalizing depth with
  | nil => rfl
  | cons t ts ih => simp only [List.map_cons, holdsDeclarator, Relocation.kind_token, ih,
      Tokens.nextKind_map]

@[simp] theorem Progress.read_token (r : Relocation) (p : Progress) (t : Token)
    (rest : List Token) : p.read (r.token t) (rest.map r.token) = p.read t rest :=
  p.read_congr (r.kind_token t) r.text_token_ident (holdsDeclarator_map r 1 rest)

/-- The tokens of a definition. -/
def Extent.relocate (r : Relocation) : Extent → Extent
  | .closed p taken last rest =>
    .closed p (taken.map r.token) (r.token last) (rest.map r.token)
  | .broken rest => .broken (rest.map r.token)

@[simp] theorem extent_map (r : Relocation) (done : List Token) (p : Progress)
    (ts : List Token) :
    extent (done.map r.token) p (ts.map r.token) = (extent done p ts).relocate r := by
  induction ts generalizing done p with
  | nil => rfl
  | cons t ts ih =>
    rw [List.map_cons, extent, extent, Relocation.kind_token, Progress.read_token]
    split
    · simp [Extent.relocate]
    · split
      · rfl
      · exact ih (t :: done) (p.read t ts)

theorem read_relocated {keyword : Token} {rest : List Token}
    (h : r.KeepsTo (keyword :: rest) (read keyword rest).rest) :
    read (r.token keyword) (rest.map r.token) = r.outcome (read keyword rest) := by
  have hstart : [r.token keyword] = [keyword].map r.token := rfl
  unfold read at h ⊢
  rw [hstart, extent_map]
  cases he : extent [keyword] .start rest with
  | broken after => simp [Extent.relocate]
  | closed p taken last after =>
    obtain ⟨happ, hlast⟩ := extent_append he
    rw [he] at h
    simp only [Extent.relocate]
    cases hn : p.declaratorName.or p.plainName with
    | none => rfl
    | some name =>
      simp only [hn, Outcome.rest_read] at h
      have hs : taken ++ after <:+ keyword :: rest := by simp [happ]
      have hkeeps := h.mem hs
      simp only [Relocation.outcome, Relocation.item, Relocation.draft_simple,
        Relocation.textOf_map hkeeps, (hkeeps last (List.mem_of_getLast? hlast)).between]

end Typedef

namespace Using

/-- The tokens of a declaration. -/
def Extent.relocate (r : Relocation) : Extent → Extent
  | .closed name taken last rest =>
    .closed name (taken.map r.token) (r.token last) (rest.map r.token)
  | .broken rest => .broken (rest.map r.token)

theorem directive_map (r : Relocation) (done : List Token) (name : Text) (ts : List Token) :
    directive (done.map r.token) name (ts.map r.token) = (directive done name ts).relocate r := by
  induction ts generalizing done name with
  | nil => rfl
  | cons t ts ih =>
    rw [List.map_cons, directive, directive, Relocation.kind_token]
    split
    · simp [Extent.relocate]
    · rfl
    · rfl
    · next hk _ _ =>
      have hname : (if t.kind.isTrivia || t.kind.isComment then name
            else name ++ (r.token t).text)
          = if t.kind.isTrivia || t.kind.isComment then name else name ++ t.text := by
        split
        · rfl
        · next hc => rw [r.text_token (by rintro hd; simp [hd, Kind.isComment] at hc)]
      rw [hname]
      exact ih (t :: done) _

@[simp] theorem Progress.read_token (r : Relocation) (p : Progress) (t : Token) :
    p.read (r.token t) = p.read t := p.read_congr (r.kind_token t) r.text_token_ident

theorem declaration_map (r : Relocation) (done : List Token) (p : Progress) (ts : List Token) :
    declaration (done.map r.token) p (ts.map r.token) = (declaration done p ts).relocate r := by
  induction ts generalizing done p with
  | nil => rfl
  | cons t ts ih =>
    rw [List.map_cons, declaration, declaration, Relocation.kind_token, Progress.read_token]
    split
    · simp [Extent.relocate]
    · split
      · rfl
      · exact ih (t :: done) (p.read t)

@[simp] theorem extent_map (r : Relocation) (keyword : Token) (ts : List Token) :
    extent (r.token keyword) (ts.map r.token) = (extent keyword ts).relocate r := by
  unfold extent
  rw [Tokens.takeTrivia_map, Tokens.skipTrivia_map]
  cases Tokens.skipTrivia ts with
  | nil => rfl
  | cons t us =>
    have hdone : (r.token keyword :: (ts.takeWhile (·.kind.isTrivia)).map r.token).reverse
        = (keyword :: ts.takeWhile (·.kind.isTrivia)).reverse.map r.token := by simp
    simp only [List.map_cons, Relocation.kind_token, hdone]
    split
    · exact directive_map r (t :: _) [] us
    · exact declaration_map r _ .start (t :: us)

theorem read_relocated {lead : Lead} {keyword : Token} {rest : List Token}
    (h : r.KeepsTo (keyword :: rest) (read lead keyword rest).rest) :
    read (r.lead lead) (r.token keyword) (rest.map r.token)
      = r.outcome (read lead keyword rest) := by
  unfold read at h ⊢
  rw [extent_map]
  cases he : extent keyword rest with
  | broken after => simp [Extent.relocate]
  | closed name taken last after =>
    obtain ⟨happ, hlast⟩ := extent_append he
    rw [he] at h
    simp only [Extent.relocate]
    split
    · rfl
    · next hn =>
      simp only [if_neg hn, Outcome.rest_read] at h
      have hs : taken ++ after <:+ keyword :: rest := by simp [happ]
      have hkeeps := h.mem hs
      simp only [Relocation.textOf_map hkeeps, Relocation.lead_onto]
      rw [Relocation.lead, (hkeeps last (List.mem_of_getLast? hlast)).between]
      rfl

end Using

namespace Variable

@[simp] theorem Progress.read_token (r : Relocation) (p : Progress) (t : Token) :
    p.read (r.token t) = p.read t := p.read_congr (r.kind_token t) r.text_token_ident

@[simp] theorem Progress.endsWith_map (r : Relocation) (p : Progress) (k : Kind)
    (rest : List Token) : p.endsWith k (rest.map r.token) = p.endsWith k rest := by
  simp only [endsWith, continuesAfterBlock, Tokens.nextKind_map]

/-- The tokens of a declaration. -/
def Extent.relocate (r : Relocation) : Extent → Extent
  | .closed p taken rest => .closed p (taken.map r.token) (rest.map r.token)
  | .broken rest => .broken (rest.map r.token)

theorem extent_map (r : Relocation) (done : List Token) (p : Progress) (ts : List Token) :
    extent (done.map r.token) p (ts.map r.token) = (extent done p ts).relocate r := by
  induction ts generalizing done p with
  | nil => rfl
  | cons t ts ih =>
    rw [List.map_cons, extent, extent, Relocation.kind_token, Progress.read_token,
      Progress.endsWith_map]
    split
    · rfl
    · split
      · simp [Extent.relocate]
      · exact ih (t :: done) (p.read t)

theorem read_relocated (ds : Definitions) {lead : Lead} {ts : List Token}
    (h : r.KeepsTo ts (read ds lead ts).rest) :
    read ds (r.lead lead) (ts.map r.token) = r.outcome (read ds lead ts) := by
  unfold read at h ⊢
  rw [show extent [] .start (ts.map r.token) = _ from extent_map r [] .start ts]
  cases he : extent [] .start ts with
  | broken rest => simp [Extent.relocate]
  | closed p taken rest =>
    obtain ⟨happ, hne⟩ := extent_append he
    rw [he] at h
    simp only [Extent.relocate, Relocation.lead, Relocation.getLastD_map, Relocation.kind_token,
      List.head?_map]
    cases hn : p.name with
    | none => rfl
    | some name =>
      simp only [hn, Outcome.rest_read] at h
      have hs : taken ++ rest <:+ ts := by simp [happ]
      have hkeeps := h.mem hs
      have hlast : r.Keeps (taken.getLastD lead.first) := h _ (.getLastD hs hne _)
      rw [Tokens.substituted_map ds hkeeps, hlast.between]
      rfl

end Variable

namespace Function

@[simp] theorem withoutTrailingTrivia_map (r : Relocation) (ts : List Token) :
    withoutTrailingTrivia (ts.map r.token) = (withoutTrailingTrivia ts).map r.token := by
  unfold withoutTrailingTrivia
  rw [← List.map_reverse, Tokens.dropWhile_kind_map r.token (·.isTrivia), List.map_reverse]

/-- The entity of a function is the relocated one if its tokens are kept. -/
theorem draft_relocated (ds : Definitions) (p : Progress) (name : Text) (body : Option Body)
    {lead : Lead} {head : List Token} {last : Token} (hhead : ∀ t ∈ head, r.Keeps t)
    (hfirst : r.Keeps lead.first) (hlast : r.Keeps last) :
    draft ds (r.lead lead) p name (head.map r.token) (r.token last) (body.map r.body)
      = r.draft (draft ds lead p name head last body) := by
  have hend := Relocation.keeps_getLastD hhead hfirst
  simp only [draft, Relocation.draft, Relocation.lead_onto, Tokens.substituted_map ds hhead]
  simp only [Relocation.lead, Relocation.getLastD_map, hlast.between, hend.between]

theorem read_relocated (ds : Definitions) {lead : Lead} {ts : List Token}
    (hfirst : r.Keeps lead.first) (h : r.KeepsTo ts (read ds lead ts).rest) :
    read ds (r.lead lead) (ts.map r.token) = r.outcome (read ds lead ts) := by
  unfold read at h ⊢
  rw [show extent [] .start (ts.map r.token) = _ from extent_map r.token [] .start ts]
  cases he : extent [] .start ts with
  | broken rest => simp [Extent.map]
  | unclosed brace => rfl
  | declared p taken rest =>
    obtain ⟨happ, _⟩ := extent_append.1 he
    rw [he] at h
    simp only [Extent.map, List.head?_map]
    cases hn : p.name with
    | none => rfl
    | some name =>
      simp only [hn, Outcome.rest_read] at h
      have hs : taken ++ rest <:+ ts := by simp [happ]
      have hkeeps := h.mem hs
      have hdraft := draft_relocated ds p name none hkeeps hfirst
        (Relocation.keeps_getLastD hkeeps hfirst)
      rw [← Relocation.getLastD_map] at hdraft
      simp only [Relocation.outcome, Relocation.item, ← hdraft]
      rfl
  | defined p taken rest =>
    have happ := extent_append.2 he
    rw [he] at h
    simp only [Extent.map, List.head?_map, Tokens.block?_map]
    cases hn : p.name with
    | none => rfl
    | some name =>
      cases hb : Tokens.block? rest with
      | none => rfl
      | some m =>
        obtain ⟨block, after⟩ := m
        simp only [hn, hb, Outcome.rest_read] at h
        have hblock := Tokens.block?_append hb
        have hkeeps : ∀ t ∈ taken ++ block, r.Keeps t := by
          refine h.mem ?_
          rw [List.append_assoc, hblock, happ]
          exact List.suffix_rfl
        have hhead : ∀ t ∈ withoutTrailingTrivia taken, r.Keeps t := by
          intro t ht
          refine hkeeps t (List.mem_append_left _ ?_)
          exact List.mem_reverse.mp
            ((List.dropWhile_suffix _).subset (List.mem_reverse.mp ht))
        have hbody : ∀ t ∈ block, r.Keeps t := fun t ht => hkeeps t (List.mem_append_right _ ht)
        have hlast := Relocation.keeps_getLastD hbody hfirst
        have hdraft := draft_relocated ds p name
          (some ⟨.between (block.headD lead.first) (block.getLastD lead.first),
            Token.textOf block⟩) hhead hfirst hlast
        simp only [Relocation.outcome, Relocation.item, ← hdraft, Option.map_some, Prod.map,
          withoutTrailingTrivia_map, Relocation.textOf_map hbody]
        simp only [Relocation.lead, Relocation.body, Relocation.headD_map, Relocation.getLastD_map,
          hlast.between]

end Function

namespace Declaration

@[simp] theorem afterQualifiers?_map (r : Relocation) (ts : List Token) :
    afterQualifiers? (ts.map r.token) = (afterQualifiers? ts).map (·.map r.token) := by
  fun_induction afterQualifiers? ts with
  | case1 c i rest hc hi ih => simp only [List.map_cons, afterQualifiers?, Relocation.kind_token,
      if_pos hc, if_pos hi, ih]
  | case2 c i rest hc hi => simp [afterQualifiers?, hc, hi]
  | case3 c i rest hc => simp [afterQualifiers?, hc]
  | case4 c hc => simp [afterQualifiers?, hc]
  | case5 c hc => simp [afterQualifiers?, hc]
  | case6 => rfl

@[simp] theorem isElaborated_map (r : Relocation) (ts : List Token) :
    isElaborated (ts.map r.token) = isElaborated ts := by
  unfold isElaborated
  rw [Tokens.skipTrivia_map]
  cases Tokens.skipTrivia ts with
  | nil => rfl
  | cons t rest =>
    simp only [List.map_cons, Relocation.kind_token, afterQualifiers?_map]
    cases afterQualifiers? rest with
    | none => rfl
    | some after =>
      simp only [Option.map_some, Tokens.skipTrivia_map]
      cases Tokens.skipTrivia after with
      | nil => rfl
      | cons u behind => simp only [List.map_cons, Relocation.kind_token, Tokens.nextKind_map]

theorem read_relocated (ds : Definitions) {lead : Lead} {ts : List Token}
    (hfirst : r.Keeps lead.first) (h : r.KeepsTo ts (read ds lead ts).rest) :
    read ds (r.lead lead) (ts.map r.token) = r.outcome (read ds lead ts) := by
  unfold read at h ⊢
  rw [isFunction_map]
  split
  · next hf =>
    rw [if_pos hf] at h
    exact Function.read_relocated ds hfirst h
  · next hf =>
    rw [if_neg hf] at h
    exact Variable.read_relocated ds h

end Declaration
end Construct
end HeaderOutline
