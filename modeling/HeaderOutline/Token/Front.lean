import HeaderOutline.Definitions
import HeaderOutline.Token.Basic

/-! # The front of a list of tokens

What is read is always at the front of a list of tokens: each function here looks
at the front, or takes a piece from it.  What is left is always a suffix of the
list, so that a reading never loses its place and never goes back.
-/
namespace HeaderOutline.Tokens

/-- The kind of the first token; at the end, that of the end of the input. -/
def headKind (ts : List Token) : Kind := (ts.head?.map (·.kind)).getD .eof

/-- The tokens after the first one, if that is of the kind. -/
def eat? (kind : Kind) : List Token → Option (List Token)
  | t :: ts => if t.kind == kind then some ts else none
  | [] => none

/-- The tokens after white space. -/
def skipSpace (ts : List Token) : List Token := ts.dropWhile (·.kind == .whitespace)

/-- The tokens after white space and line ends. -/
def skipTrivia (ts : List Token) : List Token := ts.dropWhile (·.kind.isTrivia)

/-- The tokens after white space, line ends and comments. -/
def skipGap (ts : List Token) : List Token :=
  ts.dropWhile fun t => t.kind.isTrivia || t.kind.isComment

/-- The kind of the first token that is no trivia. -/
def nextKind (ts : List Token) : Kind := headKind (skipTrivia ts)

/-- The tokens up to the first one of some kinds, and those from there on. -/
def upTo (kinds : List Kind) (ts : List Token) : List Token × List Token :=
  (ts.takeWhile (!kinds.contains ·.kind), ts.dropWhile (!kinds.contains ·.kind))

/-- A clause of the head of a class or an enum, from behind its colon: its text without
surrounding blanks, and the tokens after it.  It ends before a brace that opens or a
semicolon; if it ends otherwise, only the tokens are given. -/
def clause (ts : List Token) : Except (List Token) (Text × List Token) :=
  let (taken, rest) := upTo [.punct .lBrace, .punct .semicolon, .punct .rBrace] (skipTrivia ts)
  if rest.isEmpty || headKind rest == .punct .rBrace then .error rest
  else .ok ((Token.textOf taken).trim, rest)

/-- The text of some tokens, macros among the identifiers replaced. -/
def substituted (ds : Definitions) (ts : List Token) : Text :=
  ts.flatMap fun t => if t.kind == .ident then ds.resolve t.text else t.text

/-- The texts of some tokens without trivia and comments, a space between each two
words and nothing else between others; `afterWord` says whether a word precedes. -/
def joinFrom (afterWord : Bool) : List Token → Text
  | [] => []
  | t :: ts =>
    if t.kind.isTrivia || t.kind.isComment then joinFrom afterWord ts
    else
      (if t.kind.isWord && afterWord then ' ' :: t.text else t.text)
        ++ joinFrom t.kind.isWord ts

/-- The texts of some tokens, a space between each two words. -/
def join (ts : List Token) : Text := joinFrom false ts

theorem eat?_eq_some_iff {kind : Kind} {ts rest : List Token} :
    eat? kind ts = some rest ↔ ∃ t : Token, t.kind = kind ∧ ts = t :: rest := by
  cases ts with
  | nil => simp [eat?]
  | cons t ts =>
    by_cases h : t.kind = kind
    · rw [eat?, if_pos (by simp [h])]
      simp only [Option.some.injEq, List.cons.injEq]
      exact ⟨fun e => ⟨t, h, rfl, e⟩, fun ⟨_, _, _, e⟩ => e⟩
    · rw [eat?, if_neg (by simp [h])]
      simp only [reduceCtorEq, List.cons.injEq, false_iff]
      rintro ⟨u, hu, rfl, _⟩
      exact h hu

theorem eat?_length_lt {kind : Kind} {ts rest : List Token} (h : eat? kind ts = some rest) :
    rest.length < ts.length := by
  obtain ⟨t, _, rfl⟩ := eat?_eq_some_iff.mp h
  exact Nat.lt_succ_self _

theorem eat?_suffix {kind : Kind} {ts rest : List Token} (h : eat? kind ts = some rest) :
    rest <:+ ts := by
  obtain ⟨t, _, rfl⟩ := eat?_eq_some_iff.mp h
  exact List.suffix_cons ..

theorem skipSpace_suffix (ts : List Token) : skipSpace ts <:+ ts := List.dropWhile_suffix _

theorem skipTrivia_suffix (ts : List Token) : skipTrivia ts <:+ ts := List.dropWhile_suffix _

theorem skipGap_suffix (ts : List Token) : skipGap ts <:+ ts := List.dropWhile_suffix _

theorem upTo_suffix (kinds : List Kind) (ts : List Token) : (upTo kinds ts).2 <:+ ts :=
  List.dropWhile_suffix _

theorem upTo_cons_snd {kinds : List Kind} {t : Token} (ts : List Token)
    (h : kinds.contains t.kind = false) : (upTo kinds (t :: ts)).2 = (upTo kinds ts).2 := by
  unfold upTo
  dsimp only
  rw [List.dropWhile_cons_of_pos (by rw [h]; rfl)]

theorem skipTrivia_length_le (ts : List Token) : (skipTrivia ts).length ≤ ts.length :=
  (skipTrivia_suffix ts).length_le

theorem clause_error_suffix {ts rest : List Token} (h : clause ts = .error rest) :
    rest <:+ ts := by
  unfold clause at h
  dsimp only at h
  split at h
  · rw [← Except.error.inj h]
    exact (upTo_suffix _ _).trans (skipTrivia_suffix ts)
  · cases h

theorem clause_ok_suffix {ts rest : List Token} {text : Text} (h : clause ts = .ok (text, rest)) :
    rest <:+ ts := by
  unfold clause at h
  dsimp only at h
  split at h
  · cases h
  · rw [← (Prod.mk.inj (Except.ok.inj h)).2]
    exact (upTo_suffix _ _).trans (skipTrivia_suffix ts)

theorem tail_suffix_of_skipTrivia {ts rest : List Token} {t : Token}
    (h : skipTrivia ts = t :: rest) : rest <:+ ts :=
  (List.suffix_cons t rest).trans (h ▸ skipTrivia_suffix ts)

theorem tail_suffix_of_skipSpace {ts rest : List Token} {t : Token}
    (h : skipSpace ts = t :: rest) : rest <:+ ts :=
  (List.suffix_cons t rest).trans (h ▸ skipSpace_suffix ts)

end HeaderOutline.Tokens
