import HeaderOutline.Construct.Comment
import HeaderOutline.Construct.Template
import Mathlib.Data.List.Forall2

/-! # Texts with carriage returns

Lines that end in a carriage return and a line feed have the same text as lines that end in a
line feed alone, but for the carriage returns (`Text.Returned`).  Since a carriage return is a
blank, it goes away where blanks at the ends are removed; and since another blank follows it, it
parts no words (`Text.Returned.words_eq`).
-/
namespace HeaderOutline

namespace Text

/-- A text with a carriage return in front of every line feed. -/
def withReturns (t : Text) : Text := t.flatMap fun c => if c == '\n' then ['\r', '\n'] else [c]

/-- A text without its carriage returns. -/
def withoutReturns (t : Text) : Text := t.filter (· != '\r')

/-- A text and one with carriage returns put into it. -/
inductive Returned : Text → Text → Prop
  | nil : Returned [] []
  | cons {s s' : Text} (c : Char) (h : Returned s s') : Returned (c :: s) (c :: s')
  | insert {s s' : Text} (h : Returned s s') : Returned s ('\r' :: s')

/-- Behind every carriage return comes a blank. -/
def EndsLines (t : Text) : Prop := ∀ d, ['\r', d] <:+: t → isBlank d = true

variable {s s' t t' : Text} {c : Char}

@[simp] theorem withReturns_nil : withReturns [] = [] := rfl

theorem withReturns_cons (c : Char) (t : Text) :
    withReturns (c :: t) = (if c == '\n' then ['\r', '\n'] else [c]) ++ withReturns t := rfl

theorem withReturns_newline (t : Text) :
    withReturns ('\n' :: t) = '\r' :: '\n' :: withReturns t := rfl

theorem withReturns_cons_of_ne (h : c ≠ '\n') (t : Text) :
    withReturns (c :: t) = c :: withReturns t := by
  rw [withReturns_cons, if_neg (by simpa using h)]
  rfl

@[simp] theorem withReturns_append (s t : Text) :
    withReturns (s ++ t) = withReturns s ++ withReturns t :=
  List.flatMap_append

theorem withReturns_of_notMem (h : '\n' ∉ t) : withReturns t = t := by
  induction t with
  | nil => rfl
  | cons c t ih =>
    obtain ⟨hc, ht⟩ := by simpa using h
    rw [withReturns_cons_of_ne (Ne.symm hc), ih ht]

theorem isBlank_return : isBlank '\r' = true := by decide +kernel

theorem isBlank_newline : isBlank '\n' = true := by decide +kernel

namespace Returned

theorem refl (t : Text) : Returned t t := by
  induction t with
  | nil => exact .nil
  | cons c t ih => exact .cons c ih

theorem append (h : Returned s s') (h' : Returned t t') : Returned (s ++ t) (s' ++ t') := by
  induction h with
  | nil => exact h'
  | cons c _ ih => exact .cons c ih
  | insert _ ih => exact .insert ih

theorem withReturns (t : Text) : Returned t t.withReturns := by
  induction t with
  | nil => exact .nil
  | cons c t ih =>
    rw [withReturns_cons]
    split
    · next hc =>
      obtain rfl := eq_of_beq hc
      exact .insert (.cons '\n' ih)
    · exact .cons c ih

theorem withoutReturns_eq (h : Returned s s') : s'.withoutReturns = s.withoutReturns := by
  unfold withoutReturns
  induction h with
  | nil => rfl
  | cons c _ ih => rw [List.filter_cons, List.filter_cons, ih]
  | insert _ ih => exact ih

theorem reverse (h : Returned s s') : Returned s.reverse s'.reverse := by
  induction h with
  | nil => exact .nil
  | cons c _ ih =>
    rw [List.reverse_cons, List.reverse_cons]
    exact ih.append (.refl [c])
  | @insert s s' _ ih =>
    rw [List.reverse_cons, ← List.append_nil s.reverse]
    exact ih.append (.insert .nil)

/-- Where nothing of the class is left in front, a carriage return is no longer in front. -/
theorem dropWhile (h : Returned s s') {p : Char → Bool} (hp : p '\r' = true) :
    Returned (s.dropWhile p) (s'.dropWhile p) := by
  induction h with
  | nil => exact .nil
  | cons c h ih =>
    rw [List.dropWhile_cons, List.dropWhile_cons]
    split
    · exact ih
    · exact .cons c h
  | insert _ ih => rwa [List.dropWhile_cons, if_pos hp]

theorem trim (h : Returned s s') : Returned s.trim s'.trim :=
  ((h.dropWhile isBlank_return).reverse.dropWhile isBlank_return).reverse

theorem trimEnd (h : Returned s s') : Returned s.trimEnd s'.trimEnd :=
  (h.reverse.dropWhile isBlank_return).reverse

end Returned

/-! ## Words -/

theorem EndsLines.part (h : EndsLines s) (ht : t <:+: s) : EndsLines t :=
  fun d hd => h d (hd.trans ht)

theorem EndsLines.tail (h : EndsLines (c :: s)) : EndsLines s :=
  h.part (List.suffix_cons c s).isInfix

theorem endsLines_nil : EndsLines [] := fun _ hd => nomatch List.infix_nil.mp hd

theorem EndsLines.cons (h : EndsLines t) (hc : c ≠ '\r') : EndsLines (c :: t) := by
  intro d hd
  rcases List.infix_cons_iff.mp hd with hd | hd
  · exact absurd (List.cons_prefix_cons.mp hd).1 (Ne.symm hc)
  · exact h d hd

theorem EndsLines.carriage (h : EndsLines ('\n' :: t)) : EndsLines ('\r' :: '\n' :: t) := by
  intro d hd
  rcases List.infix_cons_iff.mp hd with hd | hd
  · obtain ⟨rfl, -⟩ := List.cons_prefix_cons.mp (List.cons_prefix_cons.mp hd).2
    exact isBlank_newline
  · exact h d hd

theorem endsLines_withReturns (h : '\r' ∉ t) : EndsLines t.withReturns := by
  induction t with
  | nil => exact endsLines_nil
  | cons c t ih =>
    obtain ⟨hc, ht⟩ := by simpa using h
    by_cases hn : c = '\n'
    · subst hn
      exact ((ih ht).cons (by decide)).carriage
    · rw [withReturns_cons_of_ne hn]
      exact (ih ht).cons (Ne.symm hc)

/-- The words of a text with carriage returns: the first piece is the same, and so are the words
behind it. -/
theorem Returned.pieces (h : Returned s s') (he : EndsLines s') :
    ∃ piece pieces pieces', s.splitOnP isBlank = piece :: pieces ∧
      s'.splitOnP isBlank = piece :: pieces' ∧
      pieces'.filter (!·.isEmpty) = pieces.filter (!·.isEmpty) := by
  induction h with
  | nil => exact ⟨[], [], [], rfl, rfl, rfl⟩
  | @cons s s' c h ih =>
    obtain ⟨piece, pieces, pieces', hs, hs', hwords⟩ := ih he.tail
    rw [List.splitOnP_cons_eq_if_modifyHead, List.splitOnP_cons_eq_if_modifyHead, hs, hs']
    split
    · exact ⟨[], _, _, rfl, rfl, by rw [List.filter_cons, List.filter_cons, hwords]⟩
    · exact ⟨c :: piece, pieces, pieces', rfl, rfl, hwords⟩
  | @insert s s' h ih =>
    obtain ⟨piece, pieces, pieces', hs, hs', hwords⟩ := ih he.tail
    -- a blank follows, so that the piece in front is empty
    have hempty : piece = [] := by
      cases s' with
      | nil => exact (List.cons.inj hs').1.symm
      | cons d s' =>
        have hd := he d ⟨[], s', rfl⟩
        rw [List.splitOnP_cons_eq_if_modifyHead, if_pos hd] at hs'
        exact (List.cons.inj hs').1.symm
    subst hempty
    refine ⟨[], pieces, [] :: pieces', hs, ?_, hwords⟩
    rw [List.splitOnP_cons_eq_if_modifyHead, if_pos isBlank_return, hs']

/-- **A carriage return parts no words**, if a blank follows it. -/
theorem Returned.words_eq (h : Returned s s') (he : EndsLines s') : s'.words = s.words := by
  obtain ⟨piece, pieces, pieces', hs, hs', hwords⟩ := h.pieces he
  rw [words, words, hs, hs', List.filter_cons, List.filter_cons, hwords]

theorem Returned.collapse_eq (h : Returned s s') (he : EndsLines s') :
    s'.collapse = s.collapse := by
  rw [collapse, collapse, h.words_eq he]

theorem endsLines_append_return (h : '\r' ∉ t) : EndsLines (t ++ ['\r']) := by
  induction t with
  | nil =>
    intro d hd
    have hlength := hd.length_le
    simp at hlength
  | cons c t ih =>
    obtain ⟨hc, ht⟩ := by simpa using h
    exact (ih ht).cons (Ne.symm hc)

/-! ## Pieces -/

theorem suffix_of_after? {lead rest : Text} (h : t.after? lead = some rest) : rest <:+ t := by
  unfold after? at h
  split at h
  · exact Option.some.inj h ▸ List.drop_suffix _ _
  · cases h

theorem dropLead_suffix (t lead : Text) : t.dropLead lead <:+ t := by
  unfold Text.dropLead
  cases h : t.after? lead with
  | none => exact List.suffix_rfl
  | some rest => exact suffix_of_after? h

theorem dropTail_isPrefix (t tail : Text) : t.dropTail tail <+: t := by
  unfold dropTail before?
  split
  · exact List.take_prefix _ _
  · exact List.prefix_rfl

theorem trim_isInfix (t : Text) : t.trim <:+: t := by
  unfold trim strip
  refine (List.reverse_prefix.mpr (List.dropWhile_suffix _)).isInfix.trans ?_
  rw [List.reverse_reverse]
  exact (List.dropWhile_suffix _).isInfix

/-! ## Template parameters -/

/-- A mark in front of both texts is removed, or of none of them. -/
theorem Returned.dropLead (h : Returned s s') (hs : ∀ d ∈ s'.head?, isBlank d = false) (c : Char) :
    Returned (s.dropLead [c]) (s'.dropLead [c]) := by
  have hcons : ∀ (d : Char) (t : Text),
      Text.dropLead (d :: t) [c] = if c == d then t else d :: t := by
    intro d t
    simp only [Text.dropLead, Text.after?, List.isPrefixOf, Bool.and_true]
    split <;> rfl
  cases h with
  | nil => exact .refl _
  | cons d h =>
    rw [hcons, hcons]
    split
    · exact h
    · exact .cons d h
  | insert h => cases isBlank_return.symm.trans (hs '\r' rfl)

theorem dropTail_eq (t tail : Text) :
    t.dropTail tail = (Text.dropLead t.reverse tail.reverse).reverse := by
  unfold dropTail dropLead before? after? List.isSuffixOf
  split
  · rw [Option.getD_some, Option.getD_some, List.drop_reverse, List.reverse_reverse,
      List.length_reverse]
  · rw [Option.getD_none, Option.getD_none, List.reverse_reverse]

theorem Returned.dropTail (h : Returned s s') (hs : ∀ d ∈ s'.getLast?, isBlank d = false)
    (c : Char) : Returned (s.dropTail [c]) (s'.dropTail [c]) := by
  rw [dropTail_eq, dropTail_eq]
  exact (h.reverse.dropLead (List.head?_reverse ▸ hs) c).reverse

theorem trim_tight (t : Text) : (∀ d ∈ t.trim.head?, isBlank d = false) ∧
    ∀ d ∈ t.trim.getLast?, isBlank d = false := by
  have hfront : ∀ u : Text, ∀ d ∈ (u.dropWhile isBlank).head?, isBlank d = false := by
    intro u d hd
    have hhead := List.head?_dropWhile_not isBlank u
    rw [Option.mem_def.mp hd] at hhead
    simpa using hhead
  unfold trim strip
  refine ⟨fun d hd => hfront t d ?_, fun d hd => hfront _ d (List.getLast?_reverse ▸ hd)⟩
  -- the blanks at the end are cut off behind what comes first
  obtain ⟨blanks, hblanks⟩ := List.reverse_prefix.mpr
    (List.dropWhile_suffix (l := (t.dropWhile isBlank).reverse) isBlank)
  rw [List.reverse_reverse] at hblanks
  rw [← hblanks, Option.mem_def, List.head?_append, Option.mem_def.mp hd, Option.some_or]

open Construct.Template in
/-- The pieces of a text between commas, with carriage returns and without. -/
theorem Returned.splitCommas (h : Returned s s') (depth : Int) {piece piece' : Text}
    (hp : Returned piece.reverse piece'.reverse) (he : EndsLines (piece'.reverse ++ s')) :
    List.Forall₂ (fun x y => Returned x y ∧ EndsLines y) (splitCommas depth piece s)
      (splitCommas depth piece' s') := by
  have hpush : ∀ {c : Char} {piece piece' : Text}, Returned piece.reverse piece'.reverse →
      Returned (c :: piece).reverse (c :: piece').reverse := by
    intro c piece piece' hp
    rw [List.reverse_cons, List.reverse_cons]
    exact hp.append (.refl [c])
  have hmove : ∀ {c : Char} {piece s : Text}, EndsLines (piece.reverse ++ c :: s) →
      EndsLines ((c :: piece).reverse ++ s) := by
    intro c piece s he
    rwa [List.reverse_cons, List.append_assoc, List.singleton_append]
  induction h generalizing depth piece piece' with
  | nil => exact .cons ⟨hp, by simpa using he⟩ .nil
  | @cons s s' c h ih =>
    unfold Construct.Template.splitCommas
    split
    · refine .cons ⟨hp, he.part (List.prefix_append _ _).isInfix⟩ (ih _ .nil ?_)
      exact (he.part (List.suffix_append _ _).isInfix).tail
    · split
      · exact ih _ (hpush hp) (hmove he)
      · split
        · exact ih _ (hpush hp) (hmove he)
        · exact ih _ (hpush hp) (hmove he)
  | @insert s s' h ih =>
    have hskip : Construct.Template.splitCommas depth piece' ('\r' :: s')
        = Construct.Template.splitCommas depth ('\r' :: piece') s' := by
      rw [Construct.Template.splitCommas]
      rfl
    rw [hskip]
    refine ih _ ?_ (hmove he)
    rw [List.reverse_cons, ← List.append_nil piece.reverse]
    exact hp.append (.insert .nil)

/-- **The parameters of a template** do not show how their lines end. -/
theorem Returned.params_eq (h : Returned s s') (he : EndsLines s') :
    Construct.Template.params s' = Construct.Template.params s := by
  have htight := trim_tight s'
  have hlead := dropLead_suffix s'.trim ['<']
  have hinner : Returned ((s.trim.dropLead ['<']).dropTail ['>'])
      ((s'.trim.dropLead ['<']).dropTail ['>']) := by
    refine (h.trim.dropLead htight.1 '<').dropTail (fun d hd => htight.2 d ?_) '>'
    obtain ⟨front, hfront⟩ := hlead
    rw [← hfront, Option.mem_def, List.getLast?_append, Option.mem_def.mp hd, Option.some_or]
  have hends : EndsLines ((s'.trim.dropLead ['<']).dropTail ['>']) :=
    he.part ((dropTail_isPrefix _ _).isInfix.trans (hlead.isInfix.trans (trim_isInfix s')))
  have hstart : Returned ([] : Text).reverse ([] : Text).reverse := .nil
  have hpieces := hinner.splitCommas 0 hstart hends
  unfold Construct.Template.params
  dsimp only
  congr 1
  generalize Construct.Template.splitCommas 0 [] ((s.trim.dropLead ['<']).dropTail ['>']) = xs,
    Construct.Template.splitCommas 0 [] ((s'.trim.dropLead ['<']).dropTail ['>']) = ys at hpieces
  induction hpieces with
  | nil => rfl
  | cons hx _ ih => rw [List.map_cons, List.map_cons, hx.1.collapse_eq hx.2, ih]

end Text
end HeaderOutline
