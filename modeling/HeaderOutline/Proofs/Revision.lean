import HeaderOutline.Proofs.Edit

/-! # Revising a comment

A revision replaces the text of one documentation comment of a header (`Revision`).  The
tokens stay what they are but for the text of the comment and for the places behind it,
which move; a token is kept if it is not the comment, and if its end moves as its start
does (`Revision.Keeps`).
-/
namespace HeaderOutline

open Lexeme (OpensBlock)

/-- A block of documentation, the text around it, and the text that takes its place. -/
structure Revision where
  before : Text
  old : Text
  new : Text
  behind : Text
  old_opens : OpensBlock old
  new_opens : OpensBlock new

namespace Revision

variable (r : Revision)

/-- The header. -/
def source : Text := r.before ++ r.old ++ r.behind

/-- The header with the new text. -/
def revised : Text := r.before ++ r.new ++ r.behind

/-- The offset to which one of the header moves: those behind the start of the comment
move by the difference of the two texts. -/
def offset (n : Nat) : Nat := if n ≤ r.before.size then n else n + r.new.size - r.old.size

/-- The place to which one of the header moves. -/
def place (p : Position) : Position :=
  if p.offset ≤ r.before.size then p
  else
    let passed := (r.behind.slice? ⟨0, p.offset - (r.before ++ r.old).size⟩).getD []
    { Position.origin.advance (r.before ++ r.new ++ passed) with offset := r.offset p.offset }

/-- The comment as a token. -/
def comment : Token := ⟨.docComment, r.old, Position.origin.advance r.before, none⟩

/-- What a token of the header becomes. -/
def token (t : Token) : Token :=
  { t with
    text := if t = r.comment then r.new else t.text
    start := r.place t.start }

/-! ## Places -/

/-- A revision is an edit. -/
def edit : Edit where
  before := r.before
  old := r.old
  new := r.new
  behind := r.behind
  old_ne_nil := by
    obtain ⟨cs, h⟩ := r.old_opens.exists_eq
    rw [h]
    exact List.cons_ne_nil _ _

theorem place_offset (p : Position) : (r.place p).offset = r.offset p.offset :=
  r.edit.place_offset p

@[simp] theorem place_origin : r.place .origin = .origin := r.edit.place_origin

/-- In front of the comment nothing moves. -/
theorem place_before {u : Text} (h : u <+: r.before) :
    r.place (Position.origin.advance u) = Position.origin.advance u :=
  r.edit.place_before h

/-- Behind the comment, a place comes behind the new text. -/
theorem place_behind {u : Text} (h : u <+: r.behind) :
    r.place (Position.origin.advance (r.before ++ r.old ++ u))
      = Position.origin.advance (r.before ++ r.new ++ u) :=
  r.edit.place_behind h

/-! ## Tokens -/

@[simp] theorem kind_token (t : Token) : (r.token t).kind = t.kind := rfl

@[simp] theorem start_token (t : Token) : (r.token t).start = r.place t.start := rfl

/-- The comment stays where it is and has the new text. -/
theorem token_comment : r.token r.comment = { r.comment with text := r.new } := by
  have hstart : r.place r.comment.start = r.comment.start := r.place_before List.prefix_rfl
  unfold token
  rw [if_pos rfl, hstart]

/-- Only documentation changes its text. -/
theorem text_token {t : Token} (h : t.kind ≠ .docComment) : (r.token t).text = t.text :=
  if_neg (by rintro rfl; exact h rfl)

/-- A comment stays one that runs to the end of its line, or none. -/
theorem isPrefixOf_text_token (mark : Text) (t : Token) :
    ('/' :: '/' :: mark).isPrefixOf (r.token t).text = ('/' :: '/' :: mark).isPrefixOf t.text := by
  by_cases h : t = r.comment
  · obtain ⟨cs, hold⟩ := r.old_opens.exists_eq
    obtain ⟨ds, hnew⟩ := r.new_opens.exists_eq
    subst h
    rw [show (r.token r.comment).text = r.new from if_pos rfl, hnew,
      show r.comment.text = r.old from rfl, hold]
    rfl
  · rw [show (r.token t).text = t.text from if_neg h]

/-- A token that is not the comment has another place and nothing else. -/
theorem token_eq {t : Token} (h : t ≠ r.comment) :
    r.token t = { t with start := r.place t.start } := by
  unfold token
  rw [if_neg h]

/-- A revision puts tokens at other places. -/
def relocation : Relocation where
  token := r.token
  place := r.place
  offset := r.offset
  kind_token := r.kind_token
  start_token := r.start_token
  text_token := r.text_token
  isPrefixOf_text_token := r.isPrefixOf_text_token
  place_offset := r.place_offset

@[simp] theorem place_relocation (p : Position) : r.relocation.place p = r.place p := rfl

instance alike_token : Token.Alike r.token := inferInstanceAs (Token.Alike r.relocation.token)

end Revision
end HeaderOutline
