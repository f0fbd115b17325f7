import HeaderOutline.Proofs.Lexemes

/-! # Words

A word opens with a character that may open an identifier and goes on with characters that
may continue one.  Identifiers are words (`Token.isWord_of_scan`), and hold no colon; and a
word is read as one, if what follows it does not continue it (`Text.IsWord.next_append`).
Operators and delimiters are spelled in one way each (`Token.text_of_scan`).
-/
namespace HeaderOutline

/-- A text that reads as an identifier or a keyword. -/
structure Text.IsWord [Alphabet] (t : Text) : Prop where
  opens : ∃ c cs, t = c :: cs ∧ Text.opensIdentifier c = true
  continues : ∀ c ∈ t, Text.continuesIdentifier c = true

namespace Text.IsWord

variable {t : Text}

theorem ne_nil [Alphabet] (h : t.IsWord) : t ≠ [] := by
  obtain ⟨c, cs, rfl, -⟩ := h.opens
  exact List.cons_ne_nil c cs

theorem colon_notMem [Alphabet] (h : t.IsWord) : ':' ∉ t :=
  fun hm => Bool.false_ne_true (h.continues ':' hm)

/-- Letters of ASCII make up a word. -/
theorem of_letters [Alphabet] (hne : t ≠ []) (h : t.all Char.isAlpha = true) : t.IsWord := by
  rw [List.all_eq_true] at h
  have hopens : ∀ c ∈ t, Text.opensIdentifier c = true := fun c hc =>
    Text.opensIdentifier_of_isAlpha (h c hc)
  obtain ⟨c, cs, rfl⟩ := List.exists_cons_of_ne_nil hne
  exact ⟨⟨c, cs, rfl, hopens c List.mem_cons_self⟩, fun d hd =>
    Text.continuesIdentifier_of_opens (hopens d hd)⟩

end Text.IsWord

/-! ## Reading a word -/

namespace Text

variable {c d : Char}

theorem ne_of_opens [Alphabet] (h : opensIdentifier c = true) (hd : opensIdentifier d = false) :
    c ≠ d := by
  rintro rfl
  cases h.symm.trans hd

theorem not_isDigit_of_opens [Alphabet] (h : opensIdentifier c = true) : c.isDigit = false := by
  rw [← Bool.not_eq_true]
  intro hd
  have hdigit : 48 ≤ c.toNat ∧ c.toNat ≤ 57 := by
    simp only [Char.isDigit, Bool.and_eq_true, decide_eq_true_eq] at hd
    exact ⟨UInt32.le_iff_toNat_le.mp hd.1, UInt32.le_iff_toNat_le.mp hd.2⟩
  have hn : c.toNat = c.val.toNat := rfl
  unfold opensIdentifier at h
  rw [if_pos (by omega)] at h
  have hletter : (decide (c.val ≥ 'A'.val ∧ c.val ≤ 'Z'.val) ||
      (decide (c.val ≥ 'a'.val) && decide (c.val ≤ 'z'.val)) || c == '_') = true := h
  simp only [Bool.or_eq_true, Bool.and_eq_true, decide_eq_true_eq, beq_iff_eq,
    UInt32.le_iff_toNat_le, ge_iff_le] at hletter
  rcases hletter with (⟨hlow, -⟩ | ⟨hlow, -⟩) | rfl
  · simp at hlow
    omega
  · simp at hlow
    omega
  · simp at hdigit

theorem not_isSpace_of_opens [Alphabet] (h : opensIdentifier c = true) :
    Lexeme.isSpace c = false := by
  rw [← Bool.not_eq_true]
  intro hs
  simp only [Lexeme.isSpace, Bool.or_eq_true, beq_iff_eq] at hs
  rcases hs with ((((hs | hs) | hs) | hs) | hs) | hs
  · exact ne_of_opens h rfl hs
  · exact ne_of_opens h rfl hs
  · exact ne_of_opens h rfl hs
  · exact ne_of_opens h rfl hs
  · exact ne_of_opens h rfl hs
  · exact ne_of_opens h opensIdentifier_mark hs

end Text

namespace Lexeme

/-- Where an identifier may open, a word is read. -/
theorem next_of_opens [Alphabet] {c : Char} (h : Text.opensIdentifier c = true) (cs : Text) :
    next c cs =
      (sound (wordKind (c :: cs.takeWhile Text.continuesIdentifier))
        (c :: cs.takeWhile Text.continuesIdentifier), cs.dropWhile Text.continuesIdentifier) := by
  have hne : ∀ {d : Char}, Text.opensIdentifier d = false → (c == d) = false :=
    fun hd => beq_false_of_ne (Text.ne_of_opens h hd)
  have hline : (c == '\n') = false := hne rfl
  have hslash : (c == '/') = false := hne rfl
  have hstring : (c == '"') = false := hne rfl
  have hchar : (c == '\'') = false := hne rfl
  simp only [next, hline, hslash, hstring, hchar, Text.not_isSpace_of_opens h,
    Text.not_isDigit_of_opens h, h, Bool.false_and, if_true, Bool.false_eq_true, if_false]

/-- Texts that start with a character of which something does not hold, or are empty. -/
def Stops (p : Char → Bool) (w : Text) : Prop := ∀ c ∈ w.head?, p c = false

theorem Stops.nil {p : Char → Bool} : Stops p [] := by
  simp [Stops]

theorem Stops.cons {p : Char → Bool} {c : Char} {w : Text} (h : p c = false) :
    Stops p (c :: w) := by
  intro d hd
  obtain rfl := Option.some.inj hd
  exact h

theorem Stops.takeWhile {p : Char → Bool} {w : Text} (h : Stops p w) : w.takeWhile p = [] := by
  cases w with
  | nil => rfl
  | cons c w => exact List.takeWhile_cons_of_neg (by rw [h c rfl]; exact nofun)

theorem Stops.dropWhile {p : Char → Bool} {w : Text} (h : Stops p w) : w.dropWhile p = w := by
  cases w with
  | nil => rfl
  | cons c w => exact List.dropWhile_cons_of_neg (by rw [h c rfl]; exact nofun)

end Lexeme

/-- A word is cut off what does not continue it. -/
theorem Text.IsWord.next_append [Alphabet] {t w : Text} (h : t.IsWord)
    (hw : Lexeme.Stops Text.continuesIdentifier w) :
    ∃ c cs, t ++ w = c :: cs ∧ Lexeme.next c cs = (.sound (Lexeme.wordKind t) t, w) := by
  obtain ⟨c, cs, rfl, hc⟩ := h.opens
  have hcs : ∀ d ∈ cs, Text.continuesIdentifier d = true :=
    fun d hd => h.continues d (List.mem_cons_of_mem c hd)
  refine ⟨c, cs ++ w, rfl, ?_⟩
  rw [Lexeme.next_of_opens hc, List.takeWhile_append_of_pos hcs, List.dropWhile_append_of_pos hcs,
    hw.takeWhile, hw.dropWhile, List.append_nil]

namespace Lexeme

theorem kind_literal (quote : Char) (kind : Kind) (unclosed : Flaw) (cs : Text) :
    (literal quote kind unclosed cs).1.kind = kind ∨
      (literal quote kind unclosed cs).1.kind = .error := by
  unfold literal
  split
  · exact .inl rfl
  · exact .inr rfl

theorem kind_symbol (c : Char) (cs : Text) :
    (∃ p, (symbol c cs).1.kind = .punct p) ∨ (symbol c cs).1.kind = .error := by
  unfold symbol
  split
  · next p _ => exact .inl ⟨p, rfl⟩
  · exact .inr rfl

/-- Identifiers, operators and delimiters are words and symbols. -/
theorem next_eq_of_kind [Alphabet] {c : Char} {cs : Text}
    (h : (next c cs).1.kind = .ident ∨ ∃ p, (next c cs).1.kind = .punct p) :
    Text.opensIdentifier c = true ∨ next c cs = symbol c cs := by
  have hno : ∀ {k : Kind}, (k.isTrivia || k.isComment || k.isLiteral || k == .error) = true →
      ¬(k = .ident ∨ ∃ p, k = .punct p) := by
    rintro _ hk (rfl | ⟨p, rfl⟩) <;> cases hk
  have hliteral : ∀ {quote kind unclosed}, kind.isLiteral = true →
      ¬((literal quote kind unclosed cs).1.kind = .ident ∨
        ∃ p, (literal quote kind unclosed cs).1.kind = .punct p) := by
    intro quote kind unclosed hk
    rcases kind_literal quote kind unclosed cs with he | he
    · exact hno (by rw [he, hk, Bool.or_true, Bool.true_or])
    · exact hno (by rw [he]; rfl)
  revert h
  unfold next
  split
  · exact fun h => absurd h (hno rfl)
  split
  · exact fun h => absurd h (hno rfl)
  split
  · exact fun h => absurd h (hno (by simp [sound, lineCommentKind_isComment]))
  split
  · split
    · exact fun h => absurd h (hno (by simp [sound, blockCommentKind_isComment]))
    · exact fun h => absurd h (hno rfl)
  split
  · exact fun h => absurd h (hliteral rfl)
  split
  · exact fun h => absurd h (hliteral rfl)
  split
  · exact fun h => absurd h (hno rfl)
  split
  · next ho => exact fun _ => .inl ho
  · exact fun _ => .inr rfl

/-- What is read as an identifier is a word. -/
theorem isWord_of_next [Alphabet] {c : Char} {cs : Text} (h : (next c cs).1.kind = .ident) :
    (next c cs).1.text.IsWord := by
  rcases next_eq_of_kind (.inl h) with ho | hsymbol
  · rw [next_of_opens ho]
    refine ⟨⟨c, _, rfl, ho⟩, fun d hd => ?_⟩
    rcases List.mem_cons.mp hd with rfl | hd
    · exact Text.continuesIdentifier_of_opens ho
    · exact List.all_eq_true.mp List.all_takeWhile d hd
  · rw [hsymbol] at h
    rcases kind_symbol c cs with ⟨p, hk⟩ | hk <;> cases hk.symm.trans h

/-- What is read as an operator or a delimiter is its spelling. -/
theorem text_of_next [Alphabet] {c : Char} {cs : Text} {p : Punct}
    (h : (next c cs).1.kind = .punct p) : (next c cs).1.text = p.spelling := by
  rcases next_eq_of_kind (.inr ⟨p, h⟩) with ho | hsymbol
  · rw [next_of_opens ho] at h
    simp only [sound, wordKind] at h
    split at h <;> cases h
  · rw [hsymbol] at h ⊢
    unfold symbol at h ⊢
    split
    · next q hq =>
      rw [hq] at h
      exact congrArg Punct.spelling (Kind.punct.inj h)
    · next hq =>
      rw [hq] at h
      cases h

end Lexeme

/-- A lexeme that is not flagged stays as it is. -/
theorem Limits.flag_eq_of_kind {l : Limits} {x : Lexeme} (h : (l.flag x).kind ≠ .error) :
    l.flag x = x := by
  revert h
  unfold flag
  split
  · exact fun h => absurd rfl h
  · exact fun _ => rfl

namespace Token

/-- A token that is neither a mistake nor the end of the input is a lexeme as it is read. -/
theorem exists_next_of_scanFrom [Alphabet] {l : Limits} {n : Nat} {p : Position} {cs : Text}
    {t : Token} (ht : t ∈ scanFrom l n p cs) (hflaw : t.kind ≠ .error) (hend : t.kind ≠ .eof) :
    ∃ c rest, t.kind = (Lexeme.next c rest).1.kind ∧ t.text = (Lexeme.next c rest).1.text := by
  induction n, p, cs using scan_induction l with
  | nil n p =>
    rw [scanFrom_nil] at ht
    obtain rfl := List.mem_singleton.mp ht
    exact absurd rfl hend
  | halt n p c cs f h =>
    rw [scanFrom_halt h] at ht
    rcases List.mem_cons.mp ht with rfl | ht
    · exact absurd rfl hflaw
    · obtain rfl := List.mem_singleton.mp ht
      exact absurd rfl hend
  | cons n p c cs h ih =>
    rw [scanFrom_cons h] at ht
    rcases List.mem_cons.mp ht with rfl | ht
    · have hflag : l.flag (Lexeme.next c cs).1 = (Lexeme.next c cs).1 :=
        Limits.flag_eq_of_kind hflaw
      exact ⟨c, cs, congrArg Lexeme.kind hflag, first_text⟩
    · exact ih ht

theorem exists_next_of_scan [Alphabet] {l : Limits} {source : Text} {t : Token}
    (ht : t ∈ scan l source) (hflaw : t.kind ≠ .error) (hend : t.kind ≠ .eof) :
    ∃ c rest, t.kind = (Lexeme.next c rest).1.kind ∧ t.text = (Lexeme.next c rest).1.text := by
  rw [scan_eq] at ht
  exact exists_next_of_scanFrom ht hflaw hend

/-- **Operators and delimiters are spelled as such.** -/
theorem text_of_scan [Alphabet] {l : Limits} {source : Text} {t : Token} {p : Punct}
    (ht : t ∈ scan l source) (hk : t.kind = .punct p) : t.text = p.spelling := by
  obtain ⟨c, cs, hkind, htext⟩ :=
    exists_next_of_scan ht (by rw [hk]; exact nofun) (by rw [hk]; exact nofun)
  rw [htext]
  exact Lexeme.text_of_next (hkind.symm.trans hk)

/-- **The identifiers of a text are words.** -/
theorem isWord_of_scan [Alphabet] {l : Limits} {source : Text} {t : Token} (ht : t ∈ scan l source)
    (hk : t.kind = .ident) : t.text.IsWord := by
  obtain ⟨c, cs, hkind, htext⟩ :=
    exists_next_of_scan ht (by rw [hk]; exact nofun) (by rw [hk]; exact nofun)
  rw [htext]
  exact Lexeme.isWord_of_next (hkind.symm.trans hk)

end Token
end HeaderOutline
