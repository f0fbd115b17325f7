import HeaderOutline.Proofs.Normal.Trimmed
import HeaderOutline.Proofs.Normal.Value
import HeaderOutline.Proofs.Relocation.Construct

/-! # The parameter lists of macros as lexemes

The tokens of a list of parameters up to the one that ends it give the names that they give by
themselves (`Construct.Directive.params_split`), and where they stand does not matter.  So the list
is read again from its own text: with the parenthesis that closes it, whatever value is written
behind it, and without one if nothing but the end of the text follows it and the blanks behind it
are gone (`Construct.Directive.Listed`).
-/
namespace HeaderOutline.Construct.Directive

open Lexeme (Cuts Faithful textOf Stops)

variable {names : List Text} {done front tail ts : List Token} {t : Token} {p q : Position}
  {xs us ws zs : List Lexeme} {x : Lexeme}

/-! ## Reading a list in two parts -/

/-- Whether the list of parameters of a macro ends at a token of a kind. -/
def endsParams (k : Kind) : Bool := k == .punct .rParen || k == .newline

theorem dots?_append (h : ∀ t ∈ tail.head?, t.kind ≠ .punct .dot) (ts : List Token) :
    dots? (ts ++ tail) = (dots? ts).map fun d => (d.1, d.2.1, d.2.2 ++ tail) := by
  rcases ts with _ | ⟨u, _ | ⟨v, ts⟩⟩
  · cases tail with
    | nil => rfl
    | cons t tail => exact dots?_of_ne (h t rfl) tail
  · cases tail with
    | nil => rfl
    | cons t tail => simp [dots?, h t rfl]
  · simp only [List.cons_append, dots?]
    split <;> rfl

theorem eq_of_dots? {u v : Token} {rest : List Token} (h : dots? ts = some (u, v, rest)) :
    ts = u :: v :: rest := by
  unfold dots? at h
  split at h
  · split at h
    · obtain ⟨rfl, rfl, rfl⟩ := by simpa using h
      rfl
    · cases h
  · cases h

/-- **A list is read in two parts**, of which the first one does not end it and the second one does
not start with a dot. -/
theorem params_split (names : List Text) (done : List Token)
    (hf : ∀ t ∈ front, endsParams t.kind = false) (ht : ∀ t ∈ tail.head?, t.kind ≠ .punct .dot) :
    params names done (front ++ tail)
      = params (params names done front).1 (front.reverse ++ done) tail := by
  induction hn : front.length using Nat.strongRecOn generalizing front names done with
  | ind n ih =>
    subst hn
    cases front with
    | nil => simp [params]
    | cons t front =>
      have hmore : ∀ u ∈ front, endsParams u.kind = false := fun u hu =>
        hf u (List.mem_cons_of_mem t hu)
      have hnext : ∀ names : List Text, params names (t :: done) (front ++ tail)
          = params (params names (t :: done) front).1 ((t :: front).reverse ++ done) tail := by
        intro names
        rw [ih _ (Nat.lt_succ_self _) names (t :: done) hmore rfl]
        simp
      have hno := hf t List.mem_cons_self
      rw [List.cons_append, params_cons, params_cons]
      split
      · next hk => simp [endsParams, hk] at hno
      · next hk => simp [endsParams, hk] at hno
      · exact hnext _
      · rw [dots?_append ht]
        cases hdots : dots? front with
        | none => exact hnext _
        | some d =>
          obtain ⟨u, v, rest⟩ := d
          obtain rfl := eq_of_dots? hdots
          have hrest : ∀ t ∈ rest, endsParams t.kind = false := fun w hw =>
            hmore w (List.mem_cons_of_mem u (List.mem_cons_of_mem v hw))
          have hlt : rest.length < (t :: u :: v :: rest).length := by
            simp only [List.length_cons]
            omega
          dsimp only [Option.map_some]
          rw [ih _ hlt _ (v :: u :: t :: done) hrest rfl]
          simp
      · exact hnext _

/-- A list that does not end takes all tokens. -/
theorem params_of_open (names : List Text) (done : List Token)
    (hf : ∀ t ∈ front, endsParams t.kind = false) :
    params names done front = ((params names done front).1, done.reverse ++ front, []) := by
  have hsplit : params names done (front ++ []) = _ := params_split names done hf (by simp)
  rw [List.append_nil] at hsplit
  rw [hsplit, params]
  simp

/-- A list ends at the parenthesis that closes it. -/
theorem params_of_closed (hf : ∀ t ∈ front, endsParams t.kind = false)
    (ht : t.kind = .punct .rParen) (ts : List Token) :
    params [] [] (front ++ t :: ts) = ((params [] [] front).1, front ++ [t], ts) := by
  rw [params_split [] [] hf (by simp [ht]), params_cons, ht]
  simp

/-- A list ends in front of a line end. -/
theorem params_of_line (hf : ∀ t ∈ front, endsParams t.kind = false)
    (ht : t.kind = .newline) (ts : List Token) :
    params [] [] (front ++ t :: ts) = ((params [] [] front).1, front, t :: ts) := by
  rw [params_split [] [] hf (by simp [ht]), params_cons, ht]
  simp

/-- White space and comments give no names. -/
theorem params_gap {x : Lexeme} (hx : x.IsGap) (hf : ∀ t ∈ front, endsParams t.kind = false)
    (p : Position) :
    (params [] [] (front ++ [.ofLexeme x p])).1 = (params [] [] front).1 := by
  have hcases : x.kind = .whitespace ∨ x.kind = .lineComment ∨ x.kind = .blockComment ∨
      x.kind = .docComment := by
    rcases hx with hk | hk
    · exact .inl hk
    · cases hkind : x.kind <;> rw [hkind] at hk <;> simp [Kind.isComment] at hk ⊢
  have hkind : (Token.ofLexeme x p).kind = x.kind := rfl
  have hdot : x.kind ≠ .punct .dot := by
    rintro hk
    simp [hk] at hcases
  rw [params_split [] [] hf (by simpa [hkind] using hdot), params_cons, hkind]
  rcases hcases with hk | hk | hk | hk <;> rw [hk] <;> simp [params]

/-- The names do not depend on the places of the tokens. -/
theorem params_placed (p q : Position) (xs : List Lexeme) :
    (params [] [] (Token.placed p xs)).1 = (params [] [] (Token.placed q xs)).1 := by
  obtain ⟨f, hf, hmap⟩ := Token.exists_alike_placed p q xs
  rw [← hmap]
  exact (congrArg Prod.fst (params_map f [] [] (Token.placed p xs))).symm

/-! ## Writing a list again -/

theorem paramList_of_open (h : Tokens.headKind ts = .punct .lParen) :
    paramList ts = (some (params [] [] ts).1, (params [] [] ts).2) := by
  unfold paramList
  rw [if_pos (beq_iff_eq.mpr h)]

theorem paramList_of_none (h : Tokens.headKind ts ≠ .punct .lParen) :
    paramList ts = (none, [], ts) := by
  unfold paramList
  rw [if_neg (by simpa using h)]

/-- Some lexemes start with an opening parenthesis. -/
def Opens (xs : List Lexeme) : Prop := ∃ ys, xs = Lexeme.punct .lParen :: ys

/-- A list of parameters, which some lexemes are behind the name of a macro, and the lexemes that it
is written with without the blanks at its end.  They give the same names, and so they do in front of
a value, unless what follows the list in the header has no value. -/
structure Listed [Alphabet] (names : Option (List Text)) (us ls ws : List Lexeme) : Prop where
  trimmed : textOf ls = (textOf us).trimEnd
  opens : ls = [] ∨ Opens ls
  faithful : Faithful ls
  sound : ∀ x ∈ ls, x.kind ≠ .error
  reads (p : Position) : paramList (Token.placed p ls) = (names, Token.placed p ls, [])
  behind : (∀ q, (value .start (Token.placed q ws)).1.text = []) ∨
    ls = us ∧ ∀ tail, Faithful (Lexeme.blanks 1 :: tail) →
      Faithful (ls ++ Lexeme.blanks 1 :: tail) ∧
        ∀ p, paramList (Token.placed p (ls ++ Lexeme.blanks 1 :: tail))
          = (names, Token.placed p ls,
            Token.placed (p.advance (textOf ls)) (Lexeme.blanks 1 :: tail))

/-- Without a parenthesis there is no list. -/
theorem listed_none [Alphabet] (ws : List Lexeme) : Listed none [] [] ws where
  trimmed := rfl
  opens := .inl rfl
  faithful := .nil
  sound := nofun
  reads _ := rfl
  behind := .inr ⟨rfl, fun _ h => ⟨h, fun _ => rfl⟩⟩

theorem endsParams_placed (h : ∀ x ∈ xs, endsParams x.kind = false) (p : Position) :
    ∀ t ∈ Token.placed p xs, endsParams t.kind = false := by
  intro t ht
  obtain ⟨x, hx, q, rfl⟩ := Token.exists_of_mem_placed ht
  exact h x hx

theorem Opens.headKind (h : Opens xs) (q : Position) (ys : List Lexeme) :
    Tokens.headKind (Token.placed q (xs ++ ys)) = .punct .lParen := by
  obtain ⟨xs, rfl⟩ := h
  rfl

/-- A list that is closed is read to its parenthesis. -/
theorem paramList_of_closed (ho : Opens xs) (hx : ∀ x ∈ xs, endsParams x.kind = false)
    (p q : Position) (ys : List Lexeme) :
    paramList (Token.placed q (xs ++ Lexeme.punct .rParen :: ys))
      = (some (params [] [] (Token.placed p xs)).1,
        Token.placed q (xs ++ [Lexeme.punct .rParen]),
        Token.placed (q.advance (textOf (xs ++ [Lexeme.punct .rParen]))) ys) := by
  rw [paramList_of_open (ho.headKind q _), List.append_cons, Token.placed_append q,
    Token.placed_append q, List.append_assoc]
  rw [show ∀ r, Token.placed r [Lexeme.punct .rParen] = [.ofLexeme (.punct .rParen) r] from
      fun _ => rfl, List.singleton_append, params_of_closed (endsParams_placed hx q) rfl,
    params_placed q p]

/-- **A list that is closed** is written as it stands. -/
theorem listed_closed [Alphabet] (hf : Faithful (xs ++ Lexeme.punct .rParen :: ws)) (ho : Opens xs)
    (hs : ∀ x ∈ xs, x.kind ≠ .error) (hx : ∀ x ∈ xs, endsParams x.kind = false) (p : Position) :
    Listed (some (params [] [] (Token.placed p xs)).1) (xs ++ [Lexeme.punct .rParen])
      (xs ++ [Lexeme.punct .rParen]) ws where
  trimmed := ((Lexeme.endsSolid_closer (by decide)).append xs).trimEnd.symm
  opens := by
    obtain ⟨ys, rfl⟩ := ho
    exact .inr ⟨_, rfl⟩
  faithful := by
    rw [List.append_cons] at hf
    exact hf.append_left
  sound x hmem := by
    rcases List.mem_append.mp hmem with hmem | hmem
    · exact hs x hmem
    · rw [List.mem_singleton.mp hmem]
      exact nofun
  reads q := paramList_of_closed ho hx p q []
  behind := by
    refine .inr ⟨rfl, fun tail htail => ⟨?_, fun q => ?_⟩⟩
    · obtain ⟨u, hxs, hrest⟩ :=
        (show Cuts (textOf (xs ++ Lexeme.punct .rParen :: ws)) _ [] from hf).split
      have hu := hrest.append_eq
      rw [List.append_nil] at hu
      obtain rfl : ')' :: textOf ws = u := hu
      have hbehind := htail.delimiter (p := .rParen) (by decide)
      have hall := (hxs.change ⟨by decide, by decide⟩ _).append hbehind
      rw [List.append_assoc]
      unfold Faithful
      rw [Lexeme.textOf_append]
      exact hall
    · rw [List.append_assoc]
      exact paramList_of_closed ho hx p q _

theorem endsParams_of_isGap {x : Lexeme} (h : x.IsGap) : endsParams x.kind = false := by
  rcases h with hk | hk
  · rw [hk]
    rfl
  · cases hkind : x.kind <;> rw [hkind] at hk <;> first | rfl | cases hk

/-- **A list that is not closed** is written without the blanks at its end. -/
theorem exists_listed_open [Alphabet] (hf : Faithful xs) (ho : Opens xs)
    (hs : ∀ x ∈ xs, x.kind ≠ .error) (hx : ∀ x ∈ xs, endsParams x.kind = false) (p : Position)
    (hv : ∀ q, (value .start (Token.placed q ws)).1.text = []) :
    ∃ ls, Listed (some (params [] [] (Token.placed p xs)).1) xs ls ws := by
  obtain ⟨init, z, rfl⟩ : ∃ init z, xs = init ++ [z] := by
    obtain ⟨ys, rfl⟩ := ho
    exact ⟨_, _, (List.dropLast_append_getLast (List.cons_ne_nil _ ys)).symm⟩
  obtain ⟨zs, hfaithful, htrim, hlast⟩ : ∃ zs, Faithful (init ++ zs) ∧
      textOf (init ++ zs) = (textOf (init ++ [z])).trimEnd ∧
      (zs = [z] ∨ init ≠ [] ∧ z.IsGap ∧ (zs = [] ∨ ∃ x, zs = [x] ∧ x.IsGap)) := by
    by_cases hne : init = []
    · subst hne
      obtain ⟨ys, hys⟩ := ho
      obtain ⟨rfl, -⟩ := List.cons.inj hys
      exact ⟨_, hf, rfl, .inl rfl⟩
    · obtain ⟨zs, hfaithful, htrim, hlast⟩ := hf.exists_trimmed hne fun y hy =>
        ⟨hs y hy, fun hn => by simpa [endsParams, hn] using hx y hy⟩
      exact ⟨zs, hfaithful, htrim, hlast.imp_right fun h => ⟨hne, h⟩⟩
  have hinit : ∀ x ∈ init, endsParams x.kind = false := fun x hmem =>
    hx x (List.mem_append_left _ hmem)
  have hgap : ∀ {x : Lexeme}, x.IsGap → ∀ q,
      (params [] [] (Token.placed q (init ++ [x]))).1
        = (params [] [] (Token.placed p init)).1 := by
    intro x hgap q
    rw [Token.placed_append, params_placed p q]
    exact params_gap hgap (endsParams_placed hinit q) _
  -- what is left of the last lexeme gives no names if it is not that lexeme
  have hrest : Opens (init ++ zs) ∧
      (∀ x ∈ init ++ zs, x.kind ≠ .error ∧ endsParams x.kind = false) ∧
      ∀ q, (params [] [] (Token.placed q (init ++ zs))).1
        = (params [] [] (Token.placed p (init ++ [z]))).1 := by
    rcases hlast with rfl | ⟨hne, hz, hzs⟩
    · exact ⟨ho, fun x hmem => ⟨hs x hmem, hx x hmem⟩, fun q => params_placed q p _⟩
    · have hopens : Opens (init ++ zs) := by
        obtain ⟨ys, hys⟩ := ho
        obtain ⟨y, init, rfl⟩ := List.exists_cons_of_ne_nil hne
        obtain ⟨rfl, -⟩ := List.cons.inj hys
        exact ⟨init ++ zs, rfl⟩
      rw [hgap hz p]
      rcases hzs with rfl | ⟨x, rfl, hgapped⟩
      · rw [List.append_nil] at hopens ⊢
        exact ⟨hopens, fun x hmem => ⟨hs x (List.mem_append_left _ hmem), hinit x hmem⟩,
          fun q => params_placed q p _⟩
      · refine ⟨hopens, fun y hy => ?_, hgap hgapped⟩
        rcases List.mem_append.mp hy with hy | hy
        · exact ⟨hs y (List.mem_append_left _ hy), hinit y hy⟩
        · exact List.mem_singleton.mp hy ▸ ⟨hgapped.sound, endsParams_of_isGap hgapped⟩
  obtain ⟨hopens, hends, hnames⟩ := hrest
  refine ⟨init ++ zs, htrim, .inr hopens, hfaithful, fun x hmem => (hends x hmem).1,
    fun q => ?_, .inl hv⟩
  have hhead := hopens.headKind q []
  rw [List.append_nil] at hhead
  rw [paramList_of_open hhead, params_of_open [] []
    (endsParams_placed (fun x hmem => (hends x hmem).2) q), hnames q]
  rfl

/-- **The list of parameters behind the name of a macro,** if there is one, and how it is written
again. -/
theorem exists_listed [Alphabet] (hf : Faithful zs) (hs : ∀ z ∈ zs, z.kind ≠ .error)
    (p : Position) : ∃ names us ls ws q, zs = us ++ ws ∧
      paramList (Token.placed p zs) = (names, Token.placed p us, Token.placed q ws) ∧
      Listed names us ls ws := by
  by_cases hopen : Tokens.headKind (Token.placed p zs) = .punct .lParen
  case neg => exact ⟨none, [], [], zs, p, rfl, paramList_of_none hopen, listed_none zs⟩
  case pos =>
    have hsplit := List.takeWhile_append_dropWhile (p := fun x : Lexeme => !endsParams x.kind)
      (l := zs)
    have hfront : ∀ x ∈ zs.takeWhile (fun x => !endsParams x.kind), endsParams x.kind = false := by
      intro x hx
      simpa using List.all_eq_true.mp List.all_takeWhile x hx
    have hstop := List.head?_dropWhile_not (fun x : Lexeme => !endsParams x.kind) zs
    have ho : Opens (zs.takeWhile fun x => !endsParams x.kind) := by
      cases zs with
      | nil => cases hopen
      | cons x zs =>
        obtain rfl := hf.eq_punct List.mem_cons_self (p := .lParen) hopen
        exact ⟨_, List.takeWhile_cons_of_pos rfl⟩
    generalize zs.takeWhile (fun x => !endsParams x.kind) = is, zs.dropWhile _ = rest
      at hsplit hfront hstop ho
    subst hsplit
    have hsound : ∀ x ∈ is, x.kind ≠ .error := fun x hx => hs x (List.mem_append_left _ hx)
    cases rest with
    | nil =>
      rw [List.append_nil] at hf hopen ⊢
      have hvalue (q : Position) : (value .start (Token.placed q [])).1.text = [] := by
        rw [Token.placed, value]
        rfl
      obtain ⟨ls, hls⟩ := exists_listed_open hf ho hsound hfront p hvalue
      refine ⟨_, is, ls, [], p, (List.append_nil is).symm, ?_, hls⟩
      rw [paramList_of_open hopen, params_of_open [] [] (endsParams_placed hfront p)]
      rfl
    | cons y ws =>
      have hy : y.kind = .punct .rParen ∨ y.kind = .newline := by
        refine or_iff_not_imp_left.mpr ?_
        simpa [endsParams] using hstop
      rcases hy with hy | hy
      · obtain rfl := hf.eq_punct (by simp) hy
        exact ⟨_, _, _, ws, _, List.append_cons .., paramList_of_closed ho hfront p p ws,
          listed_closed hf ho hsound hfront p⟩
      · have hvalue (q : Position) :
            (value .start (Token.placed q (y :: ws))).1.text = [] := by
          rw [Token.placed, value_of_ends hy rfl]
          rfl
        obtain ⟨ls, hls⟩ := exists_listed_open hf.append_left ho hsound hfront p hvalue
        refine ⟨_, is, ls, y :: ws, p.advance (textOf is), rfl, ?_, hls⟩
        rw [paramList_of_open hopen, Token.placed_append, Token.placed,
          params_of_line (endsParams_placed hfront p) hy]

end HeaderOutline.Construct.Directive
