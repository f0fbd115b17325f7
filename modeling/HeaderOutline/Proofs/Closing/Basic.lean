import HeaderOutline.Proofs.Lasting
import HeaderOutline.Recovery

/-! # Braces that are still to be closed

Behind some place of a header stand the closers of all brackets that are open there, innermost
first, with nested brackets in between (`Tokens.Balances`).  What matters for the scopes is how many
braces are among them at most (`Tokens.Closes`): a part of a construct may leave any brackets open,
but no brace.

Each loop over tokens counts brackets in its own way, some of them all and others only those of one
form.  Such a counter says less than the brackets that are open, but enough: while it is not zero,
the tokens are inside a bracket that it counts, and when it comes back to zero just that bracket
has been closed, together with all that were opened in it (`Within`).  So wherever the counter is
zero no more braces are open than at the start, unless one is passed there that the counter does
not count (`Tokens.Counts.next`).
-/
namespace HeaderOutline

namespace Kind

/-- What closes the bracket that a kind opens. -/
def closer? : Kind → Option Kind
  | .punct .lParen => some (.punct .rParen)
  | .punct .lBrace => some (.punct .rBrace)
  | .punct .lBracket => some (.punct .rBracket)
  | _ => none

/-- Whether a kind closes a bracket. -/
def isCloser (k : Kind) : Bool :=
  k == .punct .rParen || k == .punct .rBrace || k == .punct .rBracket

/-- The number of open brackets behind a kind, if those with certain closers are counted. -/
def count (p : Kind → Bool) (depth : Nat) (k : Kind) : Nat :=
  if k.closer?.any p then depth + 1 else if k.isCloser && p k then depth - 1 else depth

theorem closer?_eq_some_iff {k c : Kind} :
    k.closer? = some c ↔ (k, c) ∈ [(.punct .lParen, .punct .rParen),
      (.punct .lBrace, .punct .rBrace), (.punct .lBracket, .punct .rBracket)] := by
  unfold closer?
  split
  · simp [eq_comm]
  · simp [eq_comm]
  · simp [eq_comm]
  · next hp hb hs =>
    simp only [reduceCtorEq, List.mem_cons, Prod.mk.injEq, List.not_mem_nil, or_false, false_iff]
    rintro (⟨rfl, -⟩ | ⟨rfl, -⟩ | ⟨rfl, -⟩)
    · exact hp rfl
    · exact hb rfl
    · exact hs rfl

/-- A bracket closes those of one form only. -/
theorem closer?_inj {k o c : Kind} (h : k.closer? = some c) (ho : o.closer? = some c) : k = o := by
  rw [closer?_eq_some_iff] at h ho
  simp only [List.mem_cons, Prod.mk.injEq, List.not_mem_nil, or_false] at h ho
  rcases h with ⟨rfl, rfl⟩ | ⟨rfl, rfl⟩ | ⟨rfl, rfl⟩
  · simpa [eq_comm] using ho
  · simpa [eq_comm] using ho
  · simpa [eq_comm] using ho

theorem isCloser_of_closer? {o c : Kind} (h : o.closer? = some c) : c.isCloser = true := by
  rw [closer?_eq_some_iff] at h
  simp only [List.mem_cons, Prod.mk.injEq, List.not_mem_nil, or_false] at h
  rcases h with ⟨-, rfl⟩ | ⟨-, rfl⟩ | ⟨-, rfl⟩ <;> rfl

theorem closer?_of_isCloser {k : Kind} (h : k.isCloser = true) : k.closer? = none := by
  simp only [isCloser, Bool.or_eq_true, beq_iff_eq] at h
  rcases h with (rfl | rfl) | rfl <;> rfl

/-- A kind that is no bracket. -/
theorem not_bracket_iff {k : Kind} :
    k ∉ [.punct .lParen, .punct .rParen, .punct .lBrace, .punct .rBrace, .punct .lBracket,
      .punct .rBracket] ↔ k.closer? = none ∧ k.isCloser = false := by
  constructor
  · intro h
    simp only [List.mem_cons, List.not_mem_nil, or_false, not_or] at h
    obtain ⟨hp, hp', hb, hb', hs, hs'⟩ := h
    constructor
    · simp [closer?]
    · simp [isCloser, hp', hb', hs']
  · rintro ⟨ho, hc⟩ hk
    simp only [List.mem_cons, List.not_mem_nil, or_false] at hk
    rcases hk with rfl | rfl | rfl | rfl | rfl | rfl
    · cases ho
    · cases hc
    · cases ho
    · cases hc
    · cases ho
    · cases hc

/-- No bracket is opened or closed. -/
theorem count_of_not_bracket {p : Kind → Bool} {k : Kind} (h : k ∉ [.punct .lParen,
    .punct .rParen, .punct .lBrace, .punct .rBrace, .punct .lBracket, .punct .rBracket])
    (depth : Nat) : k.count p depth = depth := by
  simp [count, not_bracket_iff.mp h]

/-- Counting the brackets of one form. -/
theorem count_of_closer? {o c : Kind} (pair : o.closer? = some c) (depth : Nat) (k : Kind) :
    k.count (· == c) depth
      = if k == o then depth + 1 else if k == c then depth - 1 else depth := by
  by_cases ho : k = o
  · simp [count, ho, pair]
  · have hany : k.closer?.any (· == c) = false := by
      cases hk : k.closer? with
      | none => rfl
      | some d => simpa using fun hd : d = c => ho (closer?_inj (hd ▸ hk) pair)
    by_cases hc : k = c
    · obtain rfl := hc
      simp [count, hany, ho, isCloser_of_closer? pair]
    · simp [count, hany, ho, hc]

end Kind

/-- Where a reading is that counts the brackets with certain closers: outside of all of them, or
inside `depth` of them.  The list holds the closers that are still to come, and `n` bounds the
braces among those of the brackets around the ones counted. -/
inductive Within (p : Kind → Bool) (n : Nat) : Nat → List Kind → Prop
  | outside {awaited : List Kind} (few : awaited.count (.punct .rBrace) ≤ n) : Within p n 0 awaited
  | inside (inner : List Kind) {k : Kind} {around : List Kind} (counted : p k = true)
      (few : around.count (.punct .rBrace) ≤ n) :
      Within p n (inner.countP p + 1) (inner ++ k :: around)

namespace Within

variable {p : Kind → Bool} {n depth : Nat} {k c : Kind} {awaited : List Kind}

theorem outside_iff : Within p n 0 awaited ↔ awaited.count (.punct .rBrace) ≤ n := by
  constructor
  · intro h
    generalize hd : 0 = depth at h
    rcases h with few | ⟨_, _⟩
    · exact few
    · omega
  · exact .outside

/-- A bracket is opened that counts. -/
theorem push (h : Within p n depth awaited) (hp : p c = true) :
    Within p n (depth + 1) (c :: awaited) := by
  rcases h with few | @⟨inner, k, around, counted, few⟩
  · exact .inside [] hp few
  · rw [← List.countP_cons_of_pos hp]
    exact .inside (c :: inner) counted few

/-- A bracket is opened that does not count; outside of those that do, it is no brace. -/
theorem skip (h : Within p n depth awaited) (hp : ¬p c = true)
    (hb : depth = 0 → c ≠ .punct .rBrace) : Within p n depth (c :: awaited) := by
  rcases h with few | @⟨inner, k, around, counted, few⟩
  · refine .outside ?_
    rwa [List.count_cons_of_ne (hb rfl)]
  · rw [← List.countP_cons_of_neg hp]
    exact .inside (c :: inner) counted few

/-- A bracket is closed. -/
theorem pop (h : Within p n depth (c :: awaited)) :
    Within p n (if p c then depth - 1 else depth) awaited := by
  generalize hl : c :: awaited = closers at h
  rcases h with few | @⟨inner, k, around, counted, few⟩
  · have hle := (List.sublist_cons_self c awaited).count_le (.punct .rBrace)
    rw [hl] at hle
    have hzero : (if p c then 0 - 1 else 0) = 0 := by split <;> rfl
    rw [hzero]
    exact .outside (Nat.le_trans hle few)
  · cases inner with
    | nil =>
      obtain ⟨rfl, rfl⟩ := List.cons.inj hl
      rw [if_pos counted]
      exact .outside few
    | cons d inner =>
      obtain ⟨rfl, rfl⟩ := List.cons.inj hl
      by_cases hp : p c = true
      · rw [if_pos hp, List.countP_cons_of_pos hp]
        exact .inside inner counted few
      · rw [if_neg hp, List.countP_cons_of_neg hp]
        exact .inside inner counted few

end Within

namespace Tokens

/-- All brackets among some tokens are nested, those included that have been opened before and whose
closers are awaited, innermost first. -/
inductive Balances : List Kind → List Token → Prop
  | nil : Balances [] []
  | pass {awaited : List Kind} {t : Token} {ts : List Token} (hc : t.kind.isCloser = false)
      (more : Balances (t.kind.closer?.toList ++ awaited) ts) : Balances awaited (t :: ts)
  | close {awaited : List Kind} {t : Token} {ts : List Token} (hc : t.kind.isCloser = true)
      (more : Balances awaited ts) : Balances (t.kind :: awaited) (t :: ts)

/-- Some tokens close the brackets that have been opened before, at most `n` braces among them. -/
def Closes (n : Nat) (ts : List Token) : Prop :=
  ∃ awaited, Balances awaited ts ∧ awaited.count (.punct .rBrace) ≤ n

/-- Some tokens close the brackets that have been opened before, `depth` of which count. -/
def Counts (p : Kind → Bool) (n depth : Nat) (ts : List Token) : Prop :=
  ∃ awaited, Balances awaited ts ∧ Within p n depth awaited

variable {p : Kind → Bool} {n depth : Nat} {t : Token} {ts rest : List Token}

theorem counts_zero : Counts p n 0 ts ↔ Closes n ts := by
  simp only [Counts, Closes, Within.outside_iff]

theorem Closes.nil (n : Nat) : Closes n [] := ⟨[], .nil, Nat.zero_le n⟩

/-- **A counter goes on over one token**, unless that is a brace that opens outside of the brackets
that are counted. -/
theorem Counts.next (h : Counts p n depth (t :: ts))
    (hb : depth = 0 → t.kind = .punct .lBrace → p (.punct .rBrace) = true) :
    Counts p n (t.kind.count p depth) ts := by
  obtain ⟨awaited, hbalances, hwithin⟩ := h
  rcases hbalances with _ | ⟨hc, more⟩ | ⟨hc, more⟩
  · refine ⟨_, more, ?_⟩
    cases ho : t.kind.closer? with
    | none => simpa [Kind.count, ho, hc] using hwithin
    | some c =>
      by_cases hp : p c = true
      · simpa [Kind.count, ho, hp] using hwithin.push hp
      · have hskip := hwithin.skip hp fun hd hbrace => by
          rw [hbrace] at ho hp
          exact hp (hb hd (Kind.closer?_inj ho rfl))
        simpa [Kind.count, ho, hp, hc] using hskip
  · refine ⟨_, more, ?_⟩
    have ho := Kind.closer?_of_isCloser hc
    simpa [Kind.count, ho, hc] using hwithin.pop

/-- A counter of the brackets of one form goes on. -/
theorem Counts.next_of_closer? {o c : Kind} (h : Counts (· == c) n depth (t :: ts))
    (pair : o.closer? = some c) (hb : depth = 0 → t.kind = .punct .lBrace → c = .punct .rBrace) :
    Counts (· == c) n
      (if t.kind == o then depth + 1 else if t.kind == c then depth - 1 else depth) ts := by
  rw [← Kind.count_of_closer? pair]
  exact h.next fun hd hk => beq_iff_eq.mpr (hb hd hk).symm

/-- A token is passed that is no brace that opens. -/
theorem Closes.tail (h : Closes n (t :: ts)) (hb : t.kind ≠ .punct .lBrace) : Closes n ts := by
  have hcount : t.kind.count (fun _ => false) 0 = 0 := by
    simp [Kind.count]
  have hnext := (counts_zero (p := fun _ => false).mpr h).next fun _ hk => absurd hk hb
  rw [hcount] at hnext
  exact counts_zero.mp hnext

/-- One more brace is open behind one that opens. -/
theorem Closes.opened (h : Closes n (t :: ts)) (hk : t.kind = .punct .lBrace) :
    Closes (n + 1) ts := by
  obtain ⟨awaited, hbalances, hfew⟩ := h
  rcases hbalances with _ | ⟨-, more⟩ | ⟨hc, -⟩
  · rw [hk] at more
    exact ⟨_, more, by simpa [Kind.closer?] using hfew⟩
  · rw [hk] at hc
    cases hc

/-- A brace that closes is one of those that are awaited. -/
theorem Closes.closed (h : Closes n (t :: ts)) (hk : t.kind = .punct .rBrace) :
    0 < n ∧ Closes (n - 1) ts := by
  obtain ⟨awaited, hbalances, hfew⟩ := h
  rcases hbalances with _ | ⟨hc, -⟩ | ⟨-, more⟩
  · rw [hk] at hc
    cases hc
  · rw [hk, List.count_cons_self] at hfew
    exact ⟨by omega, _, more, by omega⟩

theorem lasting_closes (n : Nat) : Lasting (Closes n) := fun _ _ h _ hb => h.tail hb

/-! ## What is taken up to a closing bracket -/

/-- Behind the brace that closes the outermost of those that are counted. -/
theorem Counts.closeBraces {done taken : List Token} {depth : Nat}
    (h : Counts (· == .punct .rBrace) n depth ts)
    (hb : closeBraces done depth ts = some (taken, rest)) : Closes n rest := by
  fun_induction Tokens.closeBraces done depth ts with
  | case1 => cases hb
  | case2 done depth t ts ho ih =>
    have hnext := h.next_of_closer? (o := .punct .lBrace) rfl fun _ _ => rfl
    rw [if_pos ho] at hnext
    exact ih hnext hb
  | case3 done depth t ts ho hc hd =>
    have hnext := h.next_of_closer? (o := .punct .lBrace) rfl fun _ _ => rfl
    rw [if_neg ho, if_pos hc, Nat.sub_eq_zero_of_le hd] at hnext
    obtain ⟨-, rfl⟩ := Prod.mk.inj (Option.some.inj hb)
    exact counts_zero.mp hnext
  | case4 done depth t ts ho hc hd ih =>
    have hnext := h.next_of_closer? (o := .punct .lBrace) rfl fun _ _ => rfl
    rw [if_neg ho, if_pos hc] at hnext
    exact ih hnext hb
  | case5 done depth t ts ho hc ih =>
    have hnext := h.next_of_closer? (o := .punct .lBrace) rfl fun _ _ => rfl
    rw [if_neg ho, if_neg hc] at hnext
    exact ih hnext hb

theorem Closes.block? {taken : List Token} (h : Closes n ts)
    (hb : block? ts = some (taken, rest)) : Closes n rest :=
  (counts_zero.mpr h).closeBraces hb

/-- Behind the square bracket that closes the outermost of those that are counted. -/
theorem Counts.afterSquares {depth : Nat} (h : Counts (· == .punct .rBracket) n depth ts)
    (hd : depth ≠ 0) : Closes n (afterSquares depth ts) := by
  fun_induction Tokens.afterSquares depth ts with
  | case1 => exact .nil n
  | case2 depth t ts ho ih =>
    have hnext := h.next_of_closer? (o := .punct .lBracket) rfl fun h0 => absurd h0 hd
    rw [if_pos ho] at hnext
    exact ih hnext (Nat.succ_ne_zero depth)
  | case3 depth t ts ho hc hle =>
    have hnext := h.next_of_closer? (o := .punct .lBracket) rfl fun h0 => absurd h0 hd
    rw [if_neg ho, if_pos hc, Nat.sub_eq_zero_of_le hle] at hnext
    exact counts_zero.mp hnext
  | case4 depth t ts ho hc hle ih =>
    have hnext := h.next_of_closer? (o := .punct .lBracket) rfl fun h0 => absurd h0 hd
    rw [if_neg ho, if_pos hc] at hnext
    exact ih hnext (by omega)
  | case5 depth t ts ho hc ih =>
    have hnext := h.next_of_closer? (o := .punct .lBracket) rfl fun h0 => absurd h0 hd
    rw [if_neg ho, if_neg hc] at hnext
    exact ih hnext hd

/-- An attribute is passed as a whole, whatever braces it holds. -/
theorem Closes.afterAttribute? (h : Closes n ts) (ha : afterAttribute? ts = some rest) :
    Closes n rest := by
  unfold Tokens.afterAttribute? at ha
  split at ha
  · next hk =>
    obtain rfl := Option.some.inj ha
    cases ts with
    | nil => exact .nil n
    | cons t ts =>
      have ho : (t.kind == .punct .lBracket) = true := by
        simp only [headKind, Bool.and_eq_true] at hk
        exact hk.1
      have hne : t.kind ≠ .punct .lBrace := by
        rw [beq_iff_eq.mp ho]
        decide
      have hnext := (counts_zero.mpr h).next_of_closer? (o := .punct .lBracket)
        (c := .punct .rBracket) rfl fun _ hk => absurd hk hne
      rw [if_pos ho] at hnext
      rw [Tokens.afterSquares, if_pos ho]
      exact hnext.afterSquares (Nat.succ_ne_zero 0)
  · cases ha

theorem Closes.skipAttributes (h : Closes n ts) : Closes n (skipAttributes ts) := by
  fun_induction Tokens.skipAttributes ts with
  | case1 _ rest ha ih => exact ih ((lasting_closes n).skipTrivia (h.afterAttribute? ha))
  | case2 => exact h

/-- Where the reading goes on after a fault: it passes over blocks in braces, and at any other
brace that closes it stops. -/
theorem Counts.resume {depth : Nat} (h : Counts (· == .punct .rBrace) n depth ts) :
    Closes n (Recovery.resume depth ts) := by
  fun_induction Recovery.resume depth ts with
  | case1 => exact .nil n
  | case2 depth t ts ho ih =>
    have hnext := h.next_of_closer? (o := .punct .lBrace) rfl fun _ _ => rfl
    rw [if_pos ho] at hnext
    exact ih hnext
  | case3 depth t ts ho hd ih =>
    have hnext := h.next_of_closer? (o := .punct .lBrace) rfl fun _ _ => rfl
    rw [if_neg ho] at hnext
    exact ih hnext
  | case4 depth t ts ho hd hs =>
    obtain rfl : depth = 0 := by simpa using hd
    exact (counts_zero.mp h).tail fun hk => ho (beq_iff_eq.mpr hk)
  | case5 depth t ts ho hd =>
    obtain rfl : depth = 0 := by simpa using hd
    exact counts_zero.mp h
  | case6 depth t ts ho hd hs hstop ih =>
    obtain rfl : depth = 0 := by simpa using hd
    exact ih (counts_zero.mpr ((counts_zero.mp h).tail fun hk => ho (beq_iff_eq.mpr hk)))

end Tokens
end HeaderOutline
