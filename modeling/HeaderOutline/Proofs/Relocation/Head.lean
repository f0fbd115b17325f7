import HeaderOutline.Construct.Template
import HeaderOutline.Proofs.Cover
import HeaderOutline.Proofs.Relocation.Declaration

/-! # Relocated heads

The heads of classes, enums, namespaces and templates are read part by part.  Each part
reads relocated tokens as it reads the old ones; where it takes their text, they have to be
kept.
-/
namespace HeaderOutline

/-- What a part of a reading comes to with relocated tokens. -/
def Relocation.part {α : Type} (r : Relocation) (f : α → α) : Except Outcome α → Except Outcome α
  | .ok a => .ok (f a)
  | .error o => .error (r.outcome o)

namespace Construct

variable {r : Relocation} {us : List Token}

/-- The head of a class or an enum. -/
def Head.relocate (r : Relocation) (h : Head) : Head :=
  ⟨h.signature, h.name, r.token h.last, h.rest.map r.token⟩

theorem Head.readClause_relocate {context : Context} {h : Head} (hs : h.rest <:+ us)
    (hk : r.KeepsTo us (Outcome.leftBy (·.rest) (h.readClause context))) :
    (h.relocate r).readClause context = r.part (relocate r) (h.readClause context) := by
  obtain ⟨signature, name, last, ts⟩ := h
  simp only [readClause, relocate] at hk ⊢
  cases ts with
  | nil => rfl
  | cons t rest =>
    have hrest := (List.suffix_cons t rest).trans hs
    simp only [List.map_cons, Relocation.kind_token]
    by_cases hc : (t.kind == .punct .colon) = true
    · simp only [hc, ↓reduceIte] at hk ⊢
      cases hcl : Tokens.clause rest with
      | error after =>
        rw [Tokens.clause_map_error hcl]
        simp [Relocation.part]
      | ok m =>
        obtain ⟨clause, after⟩ := m
        simp only [hcl] at hk
        rw [Tokens.clause_map_ok hcl hk hrest]
        rfl
    · simp only [hc]
      rfl

namespace Class

@[simp] theorem namesClass_map (r : Relocation) (rest : List Token) :
    namesClass (rest.map r.token) = namesClass rest := by
  simp only [namesClass, Tokens.nextKind_map]

theorem exported?_map (r : Relocation) (ds : Definitions) {first : Token} (rest : List Token)
    (hk : first.kind = .ident) :
    exported? ds (r.token first) (rest.map r.token)
      = (exported? ds first rest).map (Prod.map r.token (·.map r.token)) := by
  unfold exported?
  rw [Tokens.skipTrivia_map, r.text_token (by simp [hk])]
  cases Tokens.skipTrivia rest with
  | nil => rfl
  | cons second behind =>
    simp only [List.map_cons, Relocation.kind_token, namesClass_map]
    split <;> rfl

@[simp] theorem readName_relocate (r : Relocation) (ds : Definitions) (h : Head) :
    readName ds (h.relocate r) = (readName ds h).relocate r := by
  obtain ⟨signature, name, last, ts⟩ := h
  unfold readName
  cases ts with
  | nil => rfl
  | cons first rest =>
    simp only [Head.relocate, List.map_cons, Relocation.kind_token]
    split
    · next hi =>
      have hk : first.kind = .ident := by simpa using hi
      rw [exported?_map r ds rest hk, r.text_token (by simp [hk])]
      cases he : exported? ds first rest with
      | none => simp [NameReading.relocate]
      | some m =>
        obtain ⟨second, behind⟩ := m
        have hsecond : second.kind = .ident := by
          unfold exported? at he
          split at he
          · split at he
            · next hc =>
              obtain ⟨rfl, rfl⟩ := by simpa using he
              simp only [Bool.and_eq_true, beq_iff_eq] at hc
              exact hc.1
            · cases he
          · cases he
        simp [NameReading.relocate, r.text_token (t := second) (by simp [hsecond])]
    · rfl

theorem readArguments_relocate {h : Head} (hs : h.rest <:+ us)
    (hk : r.KeepsTo us (Outcome.leftBy (·.rest) (readArguments h))) :
    readArguments (h.relocate r) = r.part (Head.relocate r) (readArguments h) := by
  obtain ⟨signature, name, last, ts⟩ := h
  have htrivia := (Tokens.skipTrivia_suffix ts).trans hs
  simp only [readArguments, Head.relocate, Tokens.skipTrivia_map] at hk ⊢
  cases ht : Tokens.skipTrivia ts with
  | nil => rfl
  | cons t rest =>
    rw [ht] at htrivia hk
    simp only [List.map_cons, Relocation.kind_token]
    rw [← List.map_cons, Tokens.angles?_map]
    by_cases hc : (!name.isEmpty && t.kind == .punct .lt) = true
    · simp only [hc, ↓reduceIte] at hk ⊢
      cases ha : Tokens.angles? (t :: rest) with
      | none => rfl
      | some m =>
        obtain ⟨list, after⟩ := m
        simp only [ha] at hk
        have hlist : list ++ after <:+ us := Tokens.angles?_append ha ▸ htrivia
        simp only [Option.map_some, Prod.map, Relocation.textOf_map (hk.mem hlist),
          Relocation.getLastD_map]
        rfl
    · simp only [hc]
      rfl

@[simp] theorem readFinal_relocate (r : Relocation) (h : Head) :
    readFinal (h.relocate r) = (readFinal h).relocate r := by
  obtain ⟨signature, name, last, ts⟩ := h
  simp only [readFinal, Head.relocate, Tokens.skipTrivia_map]
  cases Tokens.skipTrivia ts with
  | nil => rfl
  | cons t rest =>
    simp only [List.map_cons, Relocation.kind_token]
    by_cases hc : (t.kind == .keyword .finalKw) = true
    · simp only [hc, ↓reduceIte, Tokens.skipTrivia_map]
    · simp only [hc]
      rfl

/-- The head of a class is the relocated one if its tokens are kept. -/
theorem head_relocated {ds : Definitions} {keyword : Token} {rest : List Token}
    (hk : r.KeepsTo (keyword :: rest) (Outcome.leftBy (·.rest) (head ds keyword rest))) :
    head ds (r.token keyword) (rest.map r.token)
      = r.part (Head.relocate r) (head ds keyword rest) := by
  have hkeyword := (hk.head (head_suffix ds keyword rest)).text
  have hstart : (⟨keyword.text, [], r.token keyword,
        (Tokens.skipAttributes (Tokens.skipTrivia rest)).map r.token⟩ : Head)
      = Head.relocate r ⟨keyword.text, [], keyword,
        Tokens.skipAttributes (Tokens.skipTrivia rest)⟩ := rfl
  have hleft : Tokens.skipAttributes (Tokens.skipTrivia rest) <:+ rest :=
    (Tokens.skipAttributes_suffix _).trans (Tokens.skipTrivia_suffix rest)
  unfold head at hk ⊢
  simp only [hkeyword, Tokens.skipTrivia_map, Tokens.skipAttributes_map, hstart,
    readName_relocate] at hk ⊢
  generalize hn : readName ds _ = named at hk ⊢
  have hnamed : named.rest <:+ keyword :: rest := by
    rw [← hn]
    exact (readName_rest_suffix ds _).trans (hleft.trans (List.suffix_cons keyword rest))
  have hargs := readArguments_suffix named
  cases ha : readArguments named with
  | error o =>
    rw [ha] at hk
    rw [readArguments_relocate hnamed (by rw [ha]; exact hk), ha]
    rfl
  | ok h₁ =>
    rw [ha] at hk hargs
    have hbases : Outcome.leftBy (·.rest) ((readFinal h₁).readClause .classHead) <:+ h₁.rest :=
      ((readFinal h₁).readClause_suffix _).trans (readFinal_rest_suffix h₁)
    have hkargs : r.KeepsTo (keyword :: rest) h₁.rest := hk.part List.suffix_rfl hbases
    rw [readArguments_relocate hnamed (by rw [ha]; exact hkargs), ha]
    show (readFinal (h₁.relocate r)).readClause .classHead = _
    rw [readFinal_relocate,
      Head.readClause_relocate (((readFinal_rest_suffix h₁).trans hargs).trans hnamed) hk]
    rfl

theorem draft_relocated (lead : Lead) (kind : EntityKind) (signature name : Text) {last : Token}
    (hlast : r.Keeps last) :
    draft (r.lead lead) kind signature name (r.token last)
      = r.draft (draft lead kind signature name last) := by
  simp only [draft, Relocation.lead_onto, Relocation.draft, Draft.simple]
  simp only [Relocation.lead, hlast.between]
  rfl

theorem readEnd_relocated {lead : Lead} {kind : EntityKind} {access : Access} {h : Head}
    (hp : Passed us h.rest h.last) (hk : r.KeepsTo us (readEnd lead kind access h).rest) :
    readEnd (r.lead lead) kind access (h.relocate r) = r.outcome (readEnd lead kind access h) := by
  have hlast : r.Keeps h.last := hk _ (hp.leave (readEnd_rest_suffix lead kind access h))
  obtain ⟨signature, name, last, ts⟩ := h
  simp only [readEnd, Head.relocate] at hk ⊢
  cases ts with
  | nil =>
    by_cases hn : name.isEmpty = true
    · simp [hn]
    · simp only [List.map_nil, hn, draft_relocated lead kind signature name hlast]
      rfl
  | cons t rest =>
    have hnext : Passed us rest t := hp.next
    simp only [List.map_cons, Relocation.kind_token]
    by_cases hb : (t.kind == .punct .lBrace) = true
    · simp only [hb, ↓reduceIte] at hk ⊢
      rw [draft_relocated lead kind _ name (hk t hnext)]
      rfl
    · by_cases hs : (t.kind == .punct .semicolon) = true
      · simp only [hb, hs, ↓reduceIte, Bool.false_eq_true] at hk ⊢
        rw [draft_relocated lead kind _ name (hk t hnext)]
        rfl
      · by_cases hn : name.isEmpty = true
        · simp [hb, hs, hn]
        · simp only [hb, hs, hn, draft_relocated lead kind signature name hlast]
          rfl

@[simp] theorem startsWithMacro_map (r : Relocation) (ds : Definitions) (rest : List Token) :
    startsWithMacro ds (rest.map r.token) = startsWithMacro ds rest := by
  unfold startsWithMacro
  rw [Tokens.skipTrivia_map]
  cases Tokens.skipTrivia rest with
  | nil => rfl
  | cons t ts =>
    by_cases hk : t.kind = .ident
    · simp [r.text_token (t := t) (by simp [hk])]
    · simp [beq_false_of_ne hk]

theorem read_relocated {ds : Definitions} {lead : Lead} {keyword : Token} {rest : List Token}
    (hfirst : r.Keeps lead.first)
    (hk : r.KeepsTo (keyword :: rest) (read ds lead keyword rest).rest) :
    read ds (r.lead lead) (r.token keyword) (rest.map r.token)
      = r.outcome (read ds lead keyword rest) := by
  unfold read at hk ⊢
  rw [startsWithMacro_map, Declaration.isElaborated_map,
    show (r.lead lead).text = lead.text from rfl]
  split
  · next hc =>
    rw [if_pos hc] at hk
    exact Declaration.read_relocated ds hfirst hk
  · next hc =>
    rw [if_neg hc] at hk
    cases hh : head ds keyword rest with
    | error o =>
      rw [hh] at hk
      rw [head_relocated (by rw [hh]; exact hk), hh]
      rfl
    | ok h =>
      rw [hh] at hk
      have hlast := head_last hh
      have hkend : ∀ kind access, r.KeepsTo (keyword :: rest) (readEnd lead kind access h).rest →
          r.KeepsTo (keyword :: rest) h.rest :=
        fun kind access hk => hk.part List.suffix_rfl (readEnd_rest_suffix lead kind access h)
      simp only at hk
      have hhead : r.KeepsTo (keyword :: rest) h.rest := by
        split at hk
        · exact hkend _ _ hk
        · exact hkend _ _ hk
      rw [head_relocated (by rw [hh]; exact hhead), hh]
      simp only [Relocation.part, Relocation.kind_token]
      by_cases hc : (keyword.kind == .keyword .classKw) = true
      · simp only [hc, ↓reduceIte] at hk ⊢
        exact readEnd_relocated hlast hk
      · simp only [hc] at hk ⊢
        exact readEnd_relocated hlast hk

end Class

namespace Enum

@[simp] theorem readScoped_relocate (r : Relocation) (h : Head) :
    readScoped (h.relocate r) = (readScoped h).relocate r := by
  obtain ⟨signature, name, last, ts⟩ := h
  simp only [readScoped, Head.relocate]
  cases ts with
  | nil => rfl
  | cons t rest =>
    simp only [List.map_cons, Relocation.kind_token]
    by_cases hc : (t.kind == .keyword .classKw || t.kind == .keyword .structKw) = true
    · have hk : t.kind ≠ .docComment := by
        rintro hd
        simp [hd] at hc
      simp only [hc, ↓reduceIte, Tokens.skipTrivia_map, r.text_token hk]
    · simp only [hc]
      rfl

@[simp] theorem readName_relocate (r : Relocation) (h : Head) :
    readName (h.relocate r) = (readName h).relocate r := by
  obtain ⟨signature, name, last, ts⟩ := h
  simp only [readName, Head.relocate]
  cases ts with
  | nil => rfl
  | cons t rest =>
    simp only [List.map_cons, Relocation.kind_token]
    by_cases hc : (t.kind == .ident) = true
    · have hk : t.kind ≠ .docComment := by
        rintro hd
        simp [hd] at hc
      simp only [hc, ↓reduceIte, r.text_token hk, qualifiedName_map, NameReading.relocate,
        Tokens.skipTrivia_map]
    · simp only [hc]
      rfl

@[simp] theorem head_map (r : Relocation) (keyword : Token) (rest : List Token) :
    head (r.token keyword) (rest.map r.token) = (head keyword rest).relocate r := by
  have hstart : (⟨"enum".toList, [], r.token keyword,
        (Tokens.skipTrivia rest).map r.token⟩ : Head)
      = Head.relocate r ⟨"enum".toList, [], keyword, Tokens.skipTrivia rest⟩ := rfl
  have hattributes : ∀ h : Head,
      { h.relocate r with rest := Tokens.skipAttributes (h.relocate r).rest }
        = Head.relocate r { h with rest := Tokens.skipAttributes h.rest } := by
    intro h
    simp [Head.relocate]
  simp only [head, Tokens.skipTrivia_map, hstart, readScoped_relocate, hattributes,
    readName_relocate]

theorem item_relocated (lead : Lead) (signature name : Text) {last : Token}
    (hlast : r.Keeps last) :
    item (r.lead lead) signature name (r.token last) = r.item (item lead signature name last) := by
  simp only [item, Relocation.lead_onto, Relocation.item, Relocation.draft_simple]
  simp only [Relocation.lead, hlast.between]

theorem readEnd_relocated {lead : Lead} {h : Head} (hp : Passed us h.rest h.last)
    (hk : r.KeepsTo us (readEnd lead h).rest) :
    readEnd (r.lead lead) (h.relocate r) = r.outcome (readEnd lead h) := by
  have hlast : r.Keeps h.last := hk _ (hp.leave (readEnd_rest_suffix lead h))
  obtain ⟨signature, name, last, ts⟩ := h
  simp only [readEnd, Head.relocate] at hk ⊢
  cases ts with
  | nil =>
    by_cases hn : name.isEmpty = true
    · simp [hn]
    · simp only [List.map_nil, hn, item_relocated lead signature name hlast]
      rfl
  | cons t rest =>
    have hnext : Passed us rest t := hp.next
    simp only [List.map_cons, Relocation.kind_token]
    rw [← List.map_cons, Tokens.block?_map]
    by_cases hb : (t.kind == .punct .lBrace) = true
    · simp only [hb, ↓reduceIte] at hk ⊢
      cases hblock : Tokens.block? (t :: rest) with
      | none => rfl
      | some m =>
        obtain ⟨block, after⟩ := m
        simp only [hblock] at hk
        have hs : block ++ after <:+ us := Tokens.block?_append hblock ▸ hp.suffix
        have hend : r.KeepsTo us after → r.Keeps (block.getLastD t) := fun h =>
          h _ (.getLastD hs (Tokens.block?_ne_nil hblock) t)
        cases after with
        | nil =>
          simp only [Option.map_some, Prod.map, List.map_nil, Relocation.getLastD_map,
            Relocation.textOf_map (hk.mem hs), item_relocated lead _ name (hend hk)]
          rfl
        | cons s behind =>
          have hbehind : block ++ [s] ++ behind <:+ us := by simpa using hs
          simp only [Option.map_some, Prod.map, List.map_cons, Relocation.kind_token,
            Relocation.getLastD_map]
          by_cases hsemi : (s.kind == .punct .semicolon) = true
          · simp only [hsemi, ↓reduceIte] at hk ⊢
            have hkeeps := hk.mem hbehind
            rw [Relocation.textOf_map fun u hu => hkeeps u (List.mem_append_left _ hu),
              item_relocated lead _ name (hkeeps s (by simp))]
            rfl
          · simp only [hsemi] at hk ⊢
            rw [Relocation.textOf_map (hk.mem hs), item_relocated lead _ name (hend hk)]
            rfl
    · by_cases hs : (t.kind == .punct .semicolon) = true
      · simp only [hb, hs, ↓reduceIte, Bool.false_eq_true] at hk ⊢
        rw [item_relocated lead _ name (hk t hnext)]
        rfl
      · by_cases hn : name.isEmpty = true
        · simp [hb, hs, hn]
        · simp only [hb, hs, hn, item_relocated lead signature name hlast]
          rfl

theorem read_relocated {ds : Definitions} {lead : Lead} {keyword : Token} {rest : List Token}
    (hfirst : r.Keeps lead.first)
    (hk : r.KeepsTo (keyword :: rest) (read ds lead keyword rest).rest) :
    read ds (r.lead lead) (r.token keyword) (rest.map r.token)
      = r.outcome (read ds lead keyword rest) := by
  unfold read at hk ⊢
  rw [Declaration.isElaborated_map, show (r.lead lead).text = lead.text from rfl, head_map]
  have hlast := head_last keyword rest
  have hs : (head keyword rest).rest <:+ keyword :: rest := hlast.suffix
  split
  · next hc =>
    rw [if_pos hc] at hk
    exact Declaration.read_relocated ds hfirst hk
  · next hc =>
    rw [if_neg hc] at hk
    cases ht : (head keyword rest).readClause .enumHead with
    | error o =>
      rw [ht] at hk
      rw [Head.readClause_relocate hs (by rw [ht]; exact hk), ht]
      rfl
    | ok h =>
      rw [ht] at hk
      have htype : r.KeepsTo (keyword :: rest) h.rest :=
        hk.part List.suffix_rfl (readEnd_rest_suffix lead h)
      rw [Head.readClause_relocate hs (by rw [ht]; exact htype), ht]
      exact readEnd_relocated (Head.readClause_last hlast ht) hk

end Enum

/-! ## Namespaces -/

namespace Namespace

/-- The name of a namespace. -/
def Head.relocate (r : Relocation) (h : Head) : Head :=
  ⟨h.name, r.token h.last, h.rest.map r.token⟩

@[simp] theorem afterInline_map (r : Relocation) (ts : List Token) :
    afterInline (ts.map r.token) = (afterInline ts).map r.token := by
  unfold afterInline
  rw [Tokens.eat?_map]
  cases Tokens.eat? (.keyword .inlineKw) ts with
  | none => rfl
  | some rest => exact Tokens.skipSpace_map r.token rest

@[simp] theorem readName_map (r : Relocation) (name : Text) (last : Token) (ts : List Token) :
    readName name (r.token last) (ts.map r.token) = (readName name last ts).relocate r := by
  fun_induction readName name last ts with
  | case1 => simp [readName, Head.relocate]
  | case2 name last t ts hk rest h ih =>
    have hmap : Tokens.eat? (.punct .colonColon) (ts.map r.token) = some (rest.map r.token) := by
      rw [Tokens.eat?_map, h]
      rfl
    rw [List.map_cons, readName, Relocation.kind_token, if_pos hk]
    split
    · next us hu =>
      obtain rfl := Option.some.inj (hmap.symm.trans hu)
      rw [r.text_token (by simp [eq_of_beq hk]), afterInline_map]
      exact ih
    · next hn => cases hmap.symm.trans hn
  | case3 name last t ts hk h =>
    have hmap : Tokens.eat? (.punct .colonColon) (ts.map r.token) = none := by
      rw [Tokens.eat?_map, h]
      rfl
    rw [List.map_cons, readName, Relocation.kind_token, if_pos hk]
    split
    · next us hu => cases hmap.symm.trans hu
    · rw [r.text_token (by simp [eq_of_beq hk])]
      rfl
  | case4 name last t ts hk => simp [readName, hk, Head.relocate]

theorem draft_relocated (name signature : Text) (first : Token) {last : Token}
    (hlast : r.Keeps last) :
    draft name signature (r.token first) (r.token last)
      = r.draft (draft name signature first last) := by
  simp only [draft, Relocation.draft_simple, hlast.between]

theorem readAlias_relocated {name : Text} {first : Token} {rest : List Token}
    (hk : r.KeepsTo (first :: rest) (readAlias name first rest).rest) :
    readAlias name (r.token first) (rest.map r.token) = r.outcome (readAlias name first rest) := by
  have happ := Tokens.upTo_append aliasStops (first :: rest)
  unfold readAlias at hk ⊢
  rw [← List.map_cons, Tokens.upTo_map]
  dsimp only at hk ⊢
  generalize Tokens.upTo aliasStops (first :: rest) = parts at hk happ ⊢
  obtain ⟨taken, after⟩ := parts
  cases after with
  | nil => simp
  | cons t behind =>
    simp only [List.map_cons, Relocation.kind_token]
    by_cases hs : (t.kind == .punct .semicolon) = true
    · simp only [hs, ↓reduceIte] at hk ⊢
      have hsuffix : taken ++ [t] ++ behind <:+ first :: rest := by
        simpa using happ ▸ List.suffix_rfl
      have hkeeps := hk.mem hsuffix
      have htext : taken.map r.token ++ [r.token t] = (taken ++ [t]).map r.token := by simp
      rw [htext, Relocation.textOf_map hkeeps, draft_relocated name _ first (hkeeps t (by simp))]
      rfl
    · simp [hs]

theorem readEnd_relocated {isInline : Bool} {first : Token} {rest : List Token} {h : Head}
    (hp : Passed (first :: rest) h.rest h.last)
    (hk : r.KeepsTo (first :: rest) (readEnd isInline first rest h).rest) :
    readEnd isInline (r.token first) (rest.map r.token) (h.relocate r)
      = r.outcome (readEnd isInline first rest h) := by
  obtain ⟨name, last, ts⟩ := h
  have hs := (Tokens.skipTrivia_suffix ts).trans hp.suffix
  simp only [readEnd, Head.relocate, Tokens.skipTrivia_map, Tokens.headKind_map, Tokens.eat?_map,
    Relocation.headD_map] at hk ⊢
  by_cases hc : (Tokens.headKind (Tokens.skipTrivia ts) == .punct .eq && !name.isEmpty) = true
  · simp only [hc, ↓reduceIte] at hk ⊢
    exact readAlias_relocated hk
  · simp only [hc] at hk ⊢
    cases he : Tokens.eat? (.punct .lBrace) (Tokens.skipTrivia ts) with
    | some members =>
      simp only [he] at hk
      -- the brace is the first token that is no trivia
      obtain ⟨brace, _, hb⟩ := Tokens.eat?_eq_some_iff.mp he
      rw [hb] at hs
      simp only [Option.map_some, hb, List.headD_cons,
        draft_relocated name _ first (hk brace (.of_cons hs))]
      rfl
    | none =>
      simp only [he] at hk
      by_cases hn : name.isEmpty = true
      · simp [hn]
      · simp only [hn] at hk ⊢
        simp only [Option.map_none, draft_relocated name _ first (hk last hp)]
        rfl

theorem read_relocated {first : Token} {rest : List Token}
    (hk : r.KeepsTo (first :: rest) (read first rest).rest) :
    read (r.token first) (rest.map r.token) = r.outcome (read first rest) := by
  unfold read at hk ⊢
  rw [Relocation.kind_token]
  by_cases hc : (first.kind == .keyword .inlineKw) = true
  · simp only [hc, ↓reduceIte, Tokens.skipTrivia_map] at hk ⊢
    cases hs : Tokens.skipTrivia rest with
    | nil => simp
    | cons keyword behind =>
      simp only [hs] at hk
      have hkeyword : Passed (first :: rest) behind keyword :=
        .of_cons ((hs ▸ Tokens.skipTrivia_suffix rest).trans (List.suffix_cons first rest))
      simp only [List.map_cons, Tokens.skipTrivia_map, readName_map]
      exact readEnd_relocated (readName_last (hkeyword.leave (Tokens.skipTrivia_suffix behind))) hk
  · simp only [hc, Tokens.skipTrivia_map, readName_map] at hk ⊢
    exact readEnd_relocated (readName_last (.head (Tokens.skipTrivia_suffix rest))) hk

end Namespace

/-! ## Templates -/

namespace Template

/-- The parameter lists of a template. -/
def Clauses.relocate (r : Relocation) (c : Clauses) : Clauses :=
  ⟨c.texts, c.params, c.rest.map r.token⟩

/-- Parameter lists are the same if their tokens are kept. -/
theorem clauses_relocated {texts parameters : List Text} {ts : List Token} (hs : ts <:+ us)
    (hk : r.KeepsTo us (Outcome.leftBy (·.rest) (clauses texts parameters ts))) :
    clauses texts parameters (ts.map r.token)
      = r.part (Clauses.relocate r) (clauses texts parameters ts) := by
  have hhead : ∀ ts : List Token,
      (Tokens.headKind (Tokens.skipTrivia (ts.map r.token)) != .punct .lt)
        = (Tokens.headKind (Tokens.skipTrivia ts) != .punct .lt) := fun ts => by simp
  have hangles : ∀ ts : List Token, Tokens.angles? (Tokens.skipTrivia (ts.map r.token))
      = (Tokens.angles? (Tokens.skipTrivia ts)).map (Prod.map (·.map r.token) (·.map r.token)) :=
    fun ts => by simp
  fun_induction clauses texts parameters ts with
  | case1 => simp [clauses, Relocation.part, Clauses.relocate]
  | case2 texts parameters t ts ht list hlist =>
    rw [List.map_cons, clauses, Relocation.kind_token, if_pos ht]
    dsimp only
    rw [if_pos ((hhead ts).trans hlist)]
    simp [Relocation.part, Relocation.outcome, Relocation.fault, Relocation.cause, list]
  | case3 texts parameters t ts ht list hlist hnone =>
    have hmap := (hangles ts).trans (congrArg _ hnone)
    rw [List.map_cons, clauses, Relocation.kind_token, if_pos ht]
    dsimp only
    rw [if_neg (by rw [hhead]; exact hlist)]
    split
    · simp [Relocation.part, Relocation.outcome, Relocation.fault, Relocation.cause, list]
    · next hsome => cases hmap.symm.trans hsome
  | case4 texts parameters t ts ht list hlist taken after hsome text ih =>
    have hmap := (hangles ts).trans (congrArg _ hsome)
    have htail : taken ++ after <:+ us := by
      rw [Tokens.angles?_append hsome]
      exact (Tokens.skipTrivia_suffix ts).trans ((List.suffix_cons t ts).trans hs)
    have hafter := (List.suffix_append taken after).trans htail
    have hgap := Tokens.skipGap_suffix after
    -- the parameters of this list are passed with those of the later ones
    have hkeeps : ∀ u ∈ taken, r.Keeps u := fun u hu =>
      hk u ((Passed.of_append htail hu).leave ((clauses_suffix ..).trans hgap))
    rw [List.map_cons, clauses, Relocation.kind_token, if_pos ht]
    dsimp only
    rw [if_neg (by rw [hhead]; exact hlist)]
    split
    · next hnone => cases hmap.symm.trans hnone
    · next hsome' =>
      obtain ⟨rfl, rfl⟩ := Prod.mk.inj (Option.some.inj (hmap.symm.trans hsome'))
      simp only [Relocation.textOf_map hkeeps, Tokens.skipGap_map]
      exact ih (hgap.trans hafter) hk
  | case5 texts parameters t ts ht =>
    rw [List.map_cons, clauses, Relocation.kind_token, if_neg ht]
    rfl

theorem readDeclaration_relocated {ds : Definitions} {lead : Lead} {ts : List Token}
    (hfirst : r.Keeps lead.first) (hk : r.KeepsTo ts (readDeclaration ds lead ts).rest) :
    readDeclaration ds (r.lead lead) (ts.map r.token) = r.outcome (readDeclaration ds lead ts) := by
  cases ts with
  | nil => simp [readDeclaration]
  | cons t rest =>
    simp only [readDeclaration, List.map_cons, Relocation.kind_token] at hk ⊢
    rw [← List.map_cons, Declaration.isFunction_map]
    by_cases hc : (t.kind == .keyword .classKw || t.kind == .keyword .structKw
        || t.kind == .keyword .unionKw) = true
    · simp only [hc, ↓reduceIte] at hk ⊢
      exact Class.read_relocated hfirst hk
    · by_cases hu : (t.kind == .keyword .usingKw) = true
      · simp only [hc, hu, ↓reduceIte] at hk ⊢
        exact Using.read_relocated hk
      · by_cases hf : Declaration.isFunction (t :: rest) = true
        · simp only [hc, hu, hf, ↓reduceIte] at hk ⊢
          exact Function.read_relocated ds hfirst hk
        · by_cases hv : opensVariable t.kind = true
          · simp only [hc, hu, hf, hv, ↓reduceIte] at hk ⊢
            exact Variable.read_relocated ds hk
          · simp [hc, hu, hf, hv]

theorem read_relocated {ds : Definitions} {keyword : Token} {rest : List Token}
    (hkeyword : r.Keeps keyword) (hk : r.KeepsTo (keyword :: rest) (read ds keyword rest).rest) :
    read ds (r.token keyword) (rest.map r.token) = r.outcome (read ds keyword rest) := by
  have hs := clauses_suffix [] [] (keyword :: rest)
  unfold read at hk ⊢
  rw [← List.map_cons]
  cases hc : clauses [] [] (keyword :: rest) with
  | error o =>
    rw [hc] at hk
    rw [clauses_relocated List.suffix_rfl (by rw [hc]; exact hk), hc]
    rfl
  | ok c =>
    rw [hc] at hk hs
    have hclauses : r.KeepsTo (keyword :: rest) c.rest :=
      hk.part List.suffix_rfl (readDeclaration_rest_suffix ..)
    rw [clauses_relocated List.suffix_rfl (by rw [hc]; exact hclauses), hc]
    exact readDeclaration_relocated hkeyword (hk.part hs List.suffix_rfl)

end Template
end Construct
end HeaderOutline
