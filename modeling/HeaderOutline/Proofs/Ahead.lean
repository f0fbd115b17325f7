import HeaderOutline.Proofs.Front
import Mathlib.Data.List.TakeWhile

/-! # A kind ahead

What looks at the front of a list of tokens passes over white space, line ends and comments, and
then asks for the kinds of the next tokens.  So it comes to an end at the first token of a kind that
it neither passes over nor asks for: while such a token is ahead (`Tokens.Ahead`), it makes no
difference which tokens stand behind the list.
-/
namespace HeaderOutline.Tokens

/-- The kinds of tokens that end every look ahead: no name holds one, and none is asked for behind
another token and then passed. -/
def lookEnds : List Kind := [.punct .semicolon, .punct .hash]

theorem semicolon_mem_lookEnds : .punct .semicolon ∈ lookEnds := List.mem_cons_self

theorem hash_mem_lookEnds : .punct .hash ∈ lookEnds := by decide

/-- A token of a kind is ahead. -/
def Ahead (k : Kind) (ts : List Token) : Prop := ∃ t ∈ ts, t.kind = k

namespace Ahead

variable {k : Kind} {t : Token} {ts rest : List Token}

theorem of_suffix (h : Ahead k rest) (hs : rest <:+ ts) : Ahead k ts := by
  obtain ⟨t, ht, hk⟩ := h
  exact ⟨t, hs.mem ht, hk⟩

theorem ne_nil (h : Ahead k ts) : ts ≠ [] := by
  rintro rfl
  obtain ⟨t, ht, -⟩ := h
  cases ht

/-- It is ahead until it is passed. -/
theorem tail (h : Ahead k (t :: ts)) (ht : t.kind ≠ k) : Ahead k ts := by
  obtain ⟨u, hu, hk⟩ := h
  rcases List.mem_cons.mp hu with rfl | hu
  · exact absurd hk ht
  · exact ⟨u, hu, hk⟩

/-- A token whose kind is not among some is passed while one of these is ahead. -/
theorem pass {ks : List Kind} (hk : k ∈ ks) (h : Ahead k (t :: ts)) (ht : t.kind ∉ ks) :
    Ahead k ts := by
  refine h.tail ?_
  rintro rfl
  exact ht hk

/-- A token of a known kind is passed. -/
theorem pass_of_kind {ks : List Kind} {i : Kind} (hk : k ∈ ks) (h : Ahead k (t :: ts))
    (ht : t.kind = i) (hi : i ∉ ks) : Ahead k ts :=
  h.pass hk (ht ▸ hi)

section

variable {q : Token → Bool} (hq : ∀ t, q t = true → t.kind ≠ k)
include hq

theorem dropWhile (h : Ahead k ts) : Ahead k (ts.dropWhile q) := by
  induction ts with
  | nil => exact absurd rfl h.ne_nil
  | cons t ts ih =>
    by_cases ht : q t = true
    · rw [List.dropWhile_cons_of_pos ht]
      exact ih (h.tail (hq t ht))
    · rwa [List.dropWhile_cons_of_neg ht]

theorem dropWhile_append (h : Ahead k ts) (us : List Token) :
    (ts ++ us).dropWhile q = ts.dropWhile q ++ us := by
  rw [List.dropWhile_append, if_neg (by simpa using (h.dropWhile hq).ne_nil)]

theorem takeWhile_append (h : Ahead k ts) (us : List Token) :
    (ts ++ us).takeWhile q = ts.takeWhile q := by
  obtain ⟨t, ht, hk⟩ := h
  have hne : (ts.takeWhile q).length ≠ ts.length := by
    intro hall
    have heq := (List.takeWhile_sublist q).eq_of_length hall
    rw [← heq] at ht
    exact hq t (List.mem_takeWhile_imp ht) hk
  rw [List.takeWhile_append, if_neg hne]

end

section

variable (hk : k.isTrivia = false)
include hk

theorem ne_of_space (ht : (t.kind == .whitespace) = true) : t.kind ≠ k := by
  rintro rfl
  rw [beq_iff_eq.mp ht] at hk
  cases hk

theorem ne_of_trivia (ht : t.kind.isTrivia = true) : t.kind ≠ k := by
  rintro rfl
  cases hk.symm.trans ht

theorem skipSpace (h : Ahead k ts) : Ahead k (skipSpace ts) :=
  h.dropWhile fun _ => ne_of_space hk

theorem skipSpace_append (h : Ahead k ts) (us : List Token) :
    Tokens.skipSpace (ts ++ us) = Tokens.skipSpace ts ++ us :=
  h.dropWhile_append (fun _ => ne_of_space hk) us

theorem takeSpace_append (h : Ahead k ts) (us : List Token) :
    (ts ++ us).takeWhile (·.kind == .whitespace) = ts.takeWhile (·.kind == .whitespace) :=
  h.takeWhile_append (fun _ => ne_of_space hk) us

theorem skipTrivia (h : Ahead k ts) : Ahead k (skipTrivia ts) :=
  h.dropWhile fun _ => ne_of_trivia hk

theorem skipTrivia_append (h : Ahead k ts) (us : List Token) :
    Tokens.skipTrivia (ts ++ us) = Tokens.skipTrivia ts ++ us :=
  h.dropWhile_append (fun _ => ne_of_trivia hk) us

theorem takeTrivia_append (h : Ahead k ts) (us : List Token) :
    (ts ++ us).takeWhile (·.kind.isTrivia) = ts.takeWhile (·.kind.isTrivia) :=
  h.takeWhile_append (fun _ => ne_of_trivia hk) us

/-- Something is ahead that is no trivia. -/
theorem exists_skipTrivia (h : Ahead k ts) : ∃ t rest, Tokens.skipTrivia ts = t :: rest :=
  List.exists_cons_of_ne_nil (h.skipTrivia hk).ne_nil

theorem exists_skipSpace (h : Ahead k ts) : ∃ t rest, Tokens.skipSpace ts = t :: rest :=
  List.exists_cons_of_ne_nil (h.skipSpace hk).ne_nil

end

theorem isTrivia_of_lookEnds (hk : k ∈ lookEnds) : k.isTrivia = false := by
  simp only [lookEnds, List.mem_cons, List.not_mem_nil, or_false] at hk
  rcases hk with rfl | rfl <;> rfl

theorem skipGap_append (hk : (k.isTrivia || k.isComment) = false) (h : Ahead k ts)
    (us : List Token) : skipGap (ts ++ us) = skipGap ts ++ us := by
  refine h.dropWhile_append (fun t ht => ?_) us
  rintro rfl
  cases hk.symm.trans ht

theorem headKind_append (h : Ahead k ts) (us : List Token) :
    headKind (ts ++ us) = headKind ts := by
  obtain ⟨t, rest, rfl⟩ := List.exists_cons_of_ne_nil h.ne_nil
  rfl

theorem nextKind_append (hk : k.isTrivia = false) (h : Ahead k ts) (us : List Token) :
    nextKind (ts ++ us) = nextKind ts := by
  rw [nextKind, h.skipTrivia_append hk, (h.skipTrivia hk).headKind_append, nextKind]

/-- The kinds of the first two tokens, where the first one is not what is ahead. -/
theorem headKinds_append {i j : Kind} (h : Ahead k ts) (hi : i ≠ k) (us : List Token) :
    (headKind (ts ++ us) == i && headKind (ts ++ us).tail == j)
      = (headKind ts == i && headKind ts.tail == j) := by
  obtain ⟨t, behind, rfl⟩ := List.exists_cons_of_ne_nil h.ne_nil
  by_cases ht : t.kind = i
  · have hbehind := h.tail (ht ▸ hi)
    rw [h.headKind_append, List.cons_append, List.tail_cons, hbehind.headKind_append,
      List.tail_cons]
  · have hne : (headKind (t :: behind) == i) = false := beq_false_of_ne ht
    rw [h.headKind_append, hne, Bool.false_and, Bool.false_and]

theorem eat?_append (h : Ahead k ts) (kind : Kind) (us : List Token) :
    eat? kind (ts ++ us) = (eat? kind ts).map (· ++ us) := by
  obtain ⟨t, rest, rfl⟩ := List.exists_cons_of_ne_nil h.ne_nil
  by_cases ht : t.kind = kind
  · rw [List.cons_append, eat?_of_kind ht, eat?_of_kind ht]
    rfl
  · rw [List.cons_append, eat?_of_ne ht, eat?_of_ne ht]
    rfl

/-- What is eaten is not what is ahead. -/
theorem eat? {ks : List Kind} {kind : Kind} (hk : k ∈ ks) (h : Ahead k ts)
    (he : eat? kind ts = some rest) (hkind : kind ∉ ks) : Ahead k rest := by
  obtain ⟨t, rfl, rfl⟩ := eat?_eq_some_iff.mp he
  exact h.pass hk hkind

end Ahead
end HeaderOutline.Tokens
