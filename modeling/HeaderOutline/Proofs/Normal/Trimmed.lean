import HeaderOutline.Proofs.Normal.Lexemes
import Mathlib.Data.List.DropRight

/-! # Lexemes without the blanks behind them

If the text of some lexemes loses the blanks that it ends in, all of them are cut from it as before
but the last one: white space may become shorter or be lost, and a comment that runs to the end of
its line may become shorter (`Lexeme.Faithful.exists_trimmed`).
-/
namespace HeaderOutline

namespace Text

variable {p : Char → Bool} {s t : Text} {c : Char}

theorem trimEnd_eq_rdropWhile (t : Text) : t.trimEnd = t.rdropWhile isBlank := rfl

/-- Behind a text that ends in no blank, what follows is trimmed by itself. -/
theorem trimEnd_append (h : s.trimEnd = s) (t : Text) : (s ++ t).trimEnd = s ++ t.trimEnd := by
  have hrest : t.reverse.dropWhile isBlank = t.trimEnd.reverse := by simp [trimEnd]
  unfold trimEnd at h ⊢
  rw [List.reverse_append, List.dropWhile_append]
  split
  · next hnil =>
    rw [List.isEmpty_iff.mp hnil, h]
    simp
  · simp

theorem trimEnd_append_blank (t : Text) (h : isBlank c = true) :
    (t ++ [c]).trimEnd = t.trimEnd :=
  List.rdropWhile_concat_pos isBlank t c h

theorem trimEnd_trimEnd (t : Text) : t.trimEnd.trimEnd = t.trimEnd :=
  List.rdropWhile_idempotent isBlank t

theorem trimEnd_prefix (t : Text) : t.trimEnd <+: t := List.rdropWhile_prefix isBlank t

/-! ## Removing at both ends -/

theorem strip_eq_rdropWhile (p : Char → Bool) (t : Text) :
    t.strip p = (t.dropWhile p).rdropWhile p := rfl

theorem rdropWhile_cons_of_neg (hc : ¬p c = true) (t : Text) :
    List.rdropWhile p (c :: t) = c :: t.rdropWhile p := by
  induction t using List.reverseRecOn with
  | nil => exact List.rdropWhile_concat_neg p [] c hc
  | append_singleton t d ih =>
    rw [← List.cons_append]
    by_cases hd : p d = true
    · rw [List.rdropWhile_concat_pos p _ d hd, List.rdropWhile_concat_pos p _ d hd, ih]
    · rw [List.rdropWhile_concat_neg p _ d hd, List.rdropWhile_concat_neg p _ d hd,
        List.cons_append]

/-- It makes no difference at which end the characters of a class are removed first. -/
theorem dropWhile_rdropWhile (p : Char → Bool) (t : Text) :
    (t.rdropWhile p).dropWhile p = (t.dropWhile p).rdropWhile p := by
  induction t using List.reverseRecOn with
  | nil => rfl
  | append_singleton t c ih =>
    rw [List.dropWhile_append]
    by_cases hc : p c = true
    · rw [List.rdropWhile_concat_pos p t c hc, ih]
      split
      · next hnil =>
        rw [List.isEmpty_iff.mp hnil, List.dropWhile_cons_of_pos hc]
        rfl
      · rw [List.rdropWhile_concat_pos p _ c hc]
    · rw [List.rdropWhile_concat_neg p t c hc, List.dropWhile_append]
      have hone : List.dropWhile p [c] = [c] := List.dropWhile_cons_of_neg hc
      split
      · rw [hone]
        exact (List.rdropWhile_concat_neg p [] c hc).symm
      · exact (List.rdropWhile_concat_neg p _ c hc).symm

end Text

namespace Lexeme

variable {xs ys : List Lexeme} {x y z : Lexeme} {c : Char} {cs us : Text}

/-- White space within a line or a comment. -/
def IsGap (x : Lexeme) : Prop := x.kind = .whitespace ∨ x.kind.isComment = true

theorem IsGap.sound (h : x.IsGap) : x.kind ≠ .error := by
  rintro hk
  rcases h with h | h
  · cases hk.symm.trans h
  · rw [hk] at h
    cases h

/-- A text of white space is one lexeme. -/
theorem next_of_forall_isSpace [Alphabet] (h : ∀ d ∈ c :: cs, isSpace d = true) :
    next c cs = (sound .whitespace (c :: cs), []) := by
  have hc := h c List.mem_cons_self
  have hline : (c == '\n') = false := beq_false_of_ne fun hn => by
    rw [hn] at hc
    cases hc
  have hcs : ∀ d ∈ cs, isSpace d = true := fun d hd => h d (List.mem_cons_of_mem c hd)
  have htake : cs.takeWhile isSpace = cs := List.takeWhile_eq_self_iff.mpr hcs
  have hdrop : cs.dropWhile isSpace = [] := List.dropWhile_eq_nil_iff.mpr hcs
  simp only [next, hline, hc, htake, hdrop, Bool.false_eq_true, if_false, if_true]

/-- A text without line ends that begins like a comment of a line is one. -/
theorem next_of_slashes [Alphabet] (h : '\n' ∉ cs) :
    next '/' ('/' :: cs) = (sound (lineCommentKind ('/' :: '/' :: cs)) ('/' :: '/' :: cs), []) := by
  have hcs : ∀ d ∈ '/' :: cs, (d != '\n') = true := by
    intro d hd
    rw [bne_iff_ne]
    rintro rfl
    rcases List.mem_cons.mp hd with hd | hd
    · cases hd
    · exact h hd
  have htake : ('/' :: cs).takeWhile (· != '\n') = '/' :: cs := List.takeWhile_eq_self_iff.mpr hcs
  have hdrop : ('/' :: cs).dropWhile (· != '\n') = [] := List.dropWhile_eq_nil_iff.mpr hcs
  have hno : isSpace '/' = false := rfl
  simp only [next, hno, show ('/' == '\n') = false from rfl, htake, hdrop, List.head?_cons,
    Bool.false_eq_true, if_false]
  rfl

/-- A last lexeme is replaced by one that starts with the same character. -/
theorem Faithful.replace_last [Alphabet] (hf : Faithful (ys ++ [z])) (hz : z.text = c :: cs)
    (hc : Apart c) (hx : next c us = (x, [])) : Faithful (ys ++ [x]) := by
  obtain ⟨u, hys, hlast⟩ := (show Cuts (textOf (ys ++ [z])) (ys ++ [z]) [] from hf).split
  obtain rfl : c :: cs = u := by
    have heq := hlast.append_eq
    rw [textOf_cons, textOf_nil, List.append_nil, List.append_nil, hz] at heq
    exact heq
  have hcut : Cuts (c :: us) [x] [] := by
    have hone : Cuts (c :: us) [(next c us).1] [] := .next (by rw [hx]; exact .none [])
    rwa [hx] at hone
  have hall := (hys.change hc us).append hcut
  unfold Faithful
  have htext : textOf [x] = c :: us := by
    rw [← hcut.append_eq, List.append_nil]
  rw [textOf_append, htext]
  exact hall

theorem Faithful.exists_next [Alphabet] (h : Faithful [z]) :
    ∃ c cs, z.text = c :: cs ∧ next c cs = (z, []) := by
  unfold Faithful at h
  generalize ht : textOf [z] = t at h
  cases h with
  | @next c cs _ _ more =>
    have hrest : (next c cs).2 = [] := by simpa using more.append_eq.symm
    exact ⟨c, cs, by simpa using ht, Prod.ext rfl hrest⟩

/-- In front of white space stands nothing that ends in a blank, but for a line end. -/
theorem Faithful.endsSolid_before [Alphabet] (hf : Faithful (ys ++ [z])) (hz : z.kind = .whitespace)
    (hne : ys ≠ []) (hy : ∀ y ∈ ys, y.kind ≠ .error ∧ y.kind ≠ .newline) : EndsSolid ys := by
  obtain ⟨init, y, rfl⟩ : ∃ init y, ys = init ++ [y] :=
    ⟨_, _, (List.dropLast_append_getLast hne).symm⟩
  obtain ⟨hk, hn⟩ := hy y (by simp)
  have hpair : Cuts (textOf [y, z]) [y, z] [] := by
    rw [List.append_assoc] at hf
    exact hf.append_right
  generalize textOf [y, z] = t at hpair
  cases hpair with
  | @next c cs _ _ more =>
    have happ := next_append c cs
    have hform := form_next c cs
    generalize hrest : (next c cs).2 = rest at more happ
    cases more with
    | @next d ds _ _ _ =>
      have hd : isSpace d = true := (next_whitespace hz).1
      have hsolid : (next c cs).1.kind.isTrivia = false := by
        have hspace : (next c cs).1.kind ≠ .whitespace := by
          intro hspace
          have hstops := stops_dropWhile isSpace cs
          rw [← (next_whitespace hspace).2, hrest] at hstops
          cases (hstops d rfl).symm.trans hd
        cases hk : (next c cs).1.kind <;> first | rfl | exact absurd hk hspace | exact absurd hk hn
      rcases hform.endsSolid_or_isLine hk hsolid with hends | hline
      · exact hends.append init
      · -- a comment that goes on to the line end leaves that and no white space
        rcases hline.stops with hstop | ⟨more, hstop⟩
        · rw [← happ] at hstop
          simp at hstop
        · rw [← happ] at hstop
          obtain ⟨rfl, -⟩ := List.cons.inj (List.append_cancel_left hstop)
          cases hd

/-- **Without the blanks at the end** lexemes are cut as before, but for the last one. -/
theorem Faithful.exists_trimmed [Alphabet] (hf : Faithful (ys ++ [z])) (hne : ys ≠ [])
    (hy : ∀ y ∈ ys ++ [z], y.kind ≠ .error ∧ y.kind ≠ .newline) :
    ∃ zs, Faithful (ys ++ zs) ∧ textOf (ys ++ zs) = (textOf (ys ++ [z])).trimEnd ∧
      (zs = [z] ∨ z.IsGap ∧ (zs = [] ∨ ∃ x, zs = [x] ∧ x.IsGap)) := by
  obtain ⟨hk, hn⟩ := hy z (by simp)
  obtain ⟨c, cs, hz, hnext⟩ := hf.append_right.exists_next
  have hform : Form (c :: cs) z := by
    have hform := form_next c cs
    rwa [hnext] at hform
  have hall : textOf (ys ++ [z]) = textOf ys ++ (c :: cs) := by simp [hz]
  by_cases hspace : z.kind = .whitespace
  · have hends := hf.endsSolid_before hspace hne fun y hmem => hy y (by simp [hmem])
    have htrim := Text.trimEnd_append hends.trimEnd (c :: cs)
    rw [hall, htrim]
    have hpre := Text.trimEnd_prefix (c :: cs)
    cases hshort : Text.trimEnd (c :: cs) with
    | nil => exact ⟨[], by simpa using hf.append_left, by simp, .inr ⟨.inl hspace, .inl rfl⟩⟩
    | cons d us =>
      rw [hshort] at hpre
      obtain ⟨rfl, hus⟩ := List.cons_prefix_cons.mp hpre
      have hinside : ∀ e ∈ d :: us, isSpace e = true := fun e he =>
        hform.forall_isSpace hspace e (hz ▸ hpre.subset he)
      have hapart : Apart d := by
        have hblank : IsBlank d := .inl (hinside d List.mem_cons_self)
        have hends := hblank.ends
        exact ⟨hends.number, fun hd => hends.marks (List.mem_append_right ['/', '*'] hd)⟩
      have hlast := next_of_forall_isSpace hinside
      exact ⟨_, hf.replace_last hz hapart hlast, by simp [sound],
        .inr ⟨.inl hspace, .inr ⟨_, rfl, .inl rfl⟩⟩⟩
  · have hsolid : z.kind.isTrivia = false := by
      cases hkind : z.kind <;> first | rfl | exact absurd hkind hspace | exact absurd hkind hn
    rcases hform.endsSolid_or_isLine hk hsolid with hends | hline
    · exact ⟨[z], hf, (hends.append ys).trimEnd.symm, .inl rfl⟩
    · obtain ⟨(r : Text), hr⟩ := hline.opens
      have hr : z.text = '/' :: '/' :: r := hr.symm
      -- the mark of the comment does not end in a blank
      have hmark : (textOf ys ++ "//".toList).trimEnd = textOf ys ++ "//".toList := by
        have htight := List.rdropWhile_concat_neg Text.isBlank (textOf ys ++ ['/']) '/' (by decide)
        rwa [List.append_assoc] at htight
      have htrim := Text.trimEnd_append hmark r
      have hinside : '\n' ∉ r.trimEnd := fun hmem => hline.inside
        (hr ▸ List.mem_cons_of_mem _ (List.mem_cons_of_mem _ ((Text.trimEnd_prefix r).subset hmem)))
      have hgap : z.IsGap := .inr (by rw [hline.shape]; exact lineCommentKind_isComment _)
      refine ⟨_, hf.replace_last hr apart_slash (next_of_slashes hinside), ?_,
        .inr ⟨hgap, .inr ⟨_, rfl, .inr (lineCommentKind_isComment _)⟩⟩⟩
      rw [List.append_assoc, List.append_assoc] at htrim
      rw [textOf_append, textOf_append, textOf_cons, textOf_cons, hr, textOf_nil, List.append_nil,
        List.append_nil]
      exact htrim.symm

end Lexeme
end HeaderOutline
