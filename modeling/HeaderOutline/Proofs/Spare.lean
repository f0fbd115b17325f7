import HeaderOutline.Proofs.Passed

/-! # Tokens of no entity

Every token that is read belongs to an entity, unless it is one of a few that belong to
none wherever they stand (`Spare`): trivia, documentation, semicolons and closing braces,
what opens a linkage block, and a double colon with which the name of a namespace breaks
off.  Behind the last token that a construct has passed there are only such tokens
(`LastPassed`).
-/
namespace HeaderOutline

/-- A double colon in the name of a namespace, and the `inline` behind it if there is one,
with white space. -/
inductive Qualifier : List Token → Prop
  | plain {c : Token} (hc : c.kind = .punct .colonColon) : Qualifier [c]
  | behindInline {c k : Token} {gap : List Token} (hc : c.kind = .punct .colonColon)
      (hk : k.kind = .keyword .inlineKw) (hgap : ∀ t ∈ gap, t.kind = .whitespace) :
      Qualifier (c :: k :: gap)

/-- What stands in front of a part of the name of a namespace: the keyword, and the parts
before it, each with the double colon that qualifies the next one. -/
inductive NameFront : List Token → Prop
  | keyword {k : Token} {gap : List Token} (hk : k.kind = .keyword .namespaceKw)
      (hgap : ∀ t ∈ gap, t.kind.isTrivia) : NameFront (k :: gap)
  | part {ts qualifier : List Token} {i : Token} (front : NameFront ts) (hi : i.kind = .ident)
      (hq : Qualifier qualifier) : NameFront (ts ++ i :: qualifier)

/-- A token of a list that need not lie in any entity. -/
inductive Spare (us : List Token) (t : Token) : Prop
  | trivia (h : t.kind.isTrivia)
  | documentation (h : t.kind = .docComment)
  | semicolon (h : t.kind = .punct .semicolon)
  | brace (h : t.kind = .punct .rBrace)
  /-- One of the three tokens that open a linkage block, with trivia between them. -/
  | linkage {front opening behind : List Token} (split : us = front ++ (opening ++ behind))
      (kinds : (opening.filter (!·.kind.isTrivia)).map (·.kind)
        = [.keyword .externKw, .string, .punct .lBrace])
      (mem : t ∈ opening)
  /-- The double colon, or the `inline` behind it, that the name of a namespace ends with
  because no further part follows. -/
  | dangling {front name qualifier behind : List Token} {i : Token}
      (split : us = front ++ (name ++ i :: (qualifier ++ behind))) (hname : NameFront name)
      (hi : i.kind = .ident) (hq : Qualifier qualifier)
      (unfinished : Tokens.headKind behind ≠ .ident) (mem : t ∈ qualifier)

namespace Spare

variable {us vs : List Token} {t : Token}

theorem within (h : Spare us t) (hs : us <:+ vs) : Spare vs t := by
  obtain ⟨more, rfl⟩ := hs
  cases h with
  | trivia h => exact .trivia h
  | documentation h => exact .documentation h
  | semicolon h => exact .semicolon h
  | brace h => exact .brace h
  | @linkage front opening behind split kinds mem =>
    have hsplit : more ++ us = (more ++ front) ++ (opening ++ behind) := by
      rw [split, List.append_assoc]
    exact .linkage hsplit kinds mem
  | @dangling front name qualifier behind i split hname hi hq unfinished mem =>
    have hsplit : more ++ us = (more ++ front) ++ (name ++ i :: (qualifier ++ behind)) := by
      rw [split, List.append_assoc]
    exact .dangling hsplit hname hi hq unfinished mem

/-- No identifier, literal other than a string, nor anything else but a few kinds is spare. -/
theorem kind_mem (h : Spare us t) :
    t.kind ∈ [.whitespace, .newline, .docComment, .punct .semicolon, .punct .rBrace,
      .keyword .externKw, .string, .punct .lBrace, .punct .colonColon, .keyword .inlineKw] := by
  have htrivia : t.kind.isTrivia = true → t.kind = .whitespace ∨ t.kind = .newline := by
    intro h
    unfold Kind.isTrivia at h
    split at h
    · next hk => exact .inl hk
    · next hk => exact .inr hk
    · cases h
  cases h with
  | trivia h => rcases htrivia h with h | h <;> simp [h]
  | documentation h | semicolon h | brace h => simp [h]
  | linkage split kinds mem =>
    by_cases h : t.kind.isTrivia = true
    · rcases htrivia h with h | h <;> simp [h]
    · have hf : t ∈ List.filter (!·.kind.isTrivia) _ :=
        List.mem_filter.mpr ⟨mem, by simpa using h⟩
      have hm := List.mem_map_of_mem hf (f := Token.kind)
      rw [kinds] at hm
      simp only [List.mem_cons, List.not_mem_nil, or_false] at hm
      rcases hm with h | h | h <;> simp [h]
  | dangling split hname hi hq unfinished mem =>
    cases hq with
    | plain hc => simp [List.mem_singleton.mp mem ▸ hc]
    | behindInline hc hk hgap =>
      simp only [List.mem_cons] at mem
      rcases mem with rfl | rfl | h
      · simp [hc]
      · simp [hk]
      · simp [hgap t h]

/-- A token stays spare where another one is put at the end, unless that one would go on
with a name. -/
theorem append {e : Token} (h : Spare us t) (he : e.kind ≠ .ident) : Spare (us ++ [e]) t := by
  cases h with
  | trivia h => exact .trivia h
  | documentation h => exact .documentation h
  | semicolon h => exact .semicolon h
  | brace h => exact .brace h
  | @linkage front opening behind split kinds mem =>
    have hsplit : us ++ [e] = front ++ (opening ++ (behind ++ [e])) := by simp [split]
    exact .linkage hsplit kinds mem
  | @dangling front name qualifier behind i split hname hi hq unfinished mem =>
    have hsplit : us ++ [e] = front ++ (name ++ i :: (qualifier ++ (behind ++ [e]))) := by
      simp [split]
    refine .dangling hsplit hname hi hq ?_ mem
    cases behind with
    | nil => exact he
    | cons u us => exact unfinished

end Spare

/-- A token is passed, and nothing but spare tokens stands between it and what is left. -/
def LastPassed (us rest : List Token) (last : Token) : Prop :=
  ∃ kept loose, us = kept ++ last :: (loose ++ rest) ∧ ∀ t ∈ loose, Spare us t

namespace LastPassed

variable {us vs ts rest taken : List Token} {t last : Token}

theorem of_cons (h : t :: rest <:+ us) : LastPassed us rest t := by
  obtain ⟨front, rfl⟩ := h
  exact ⟨front, [], rfl, by simp⟩

/-- The last of the tokens that are taken is passed last. -/
theorem of_getLast? (h : taken ++ rest <:+ us) (hl : taken.getLast? = some last) :
    LastPassed us rest last := by
  obtain ⟨front, rfl⟩ := List.getLast?_eq_some_iff.mp hl
  obtain ⟨more, rfl⟩ := h
  exact ⟨more ++ front, [], by simp, by simp⟩

theorem of_getLastD (h : taken ++ rest <:+ us) (hne : taken ≠ []) (x : Token) :
    LastPassed us rest (taken.getLastD x) := by
  refine of_getLast? h ?_
  rw [List.getLastD_eq_getLast?, List.getLast?_eq_some_getLast hne]
  rfl

theorem within (h : LastPassed us rest last) (hs : us <:+ vs) : LastPassed vs rest last := by
  obtain ⟨kept, loose, rfl, hloose⟩ := h
  obtain ⟨front, rfl⟩ := hs
  exact ⟨front ++ kept, loose, by simp, fun t ht => (hloose t ht).within (List.suffix_append ..)⟩

theorem skipTrivia (h : LastPassed us ts last) : LastPassed us (Tokens.skipTrivia ts) last := by
  obtain ⟨kept, loose, hus, hloose⟩ := h
  obtain ⟨gap, hgap, hts⟩ := Tokens.exists_trivia ts
  refine ⟨kept, loose ++ gap, ?_, ?_⟩
  · rw [hus, List.append_assoc, ← hts]
  · intro t ht
    rcases List.mem_append.mp ht with ht | ht
    · exact hloose t ht
    · exact .trivia (hgap t ht)

theorem suffix (h : LastPassed us rest last) : rest <:+ us := by
  obtain ⟨kept, loose, rfl, _⟩ := h
  exact ⟨kept ++ last :: loose, by simp⟩

end LastPassed

end HeaderOutline
