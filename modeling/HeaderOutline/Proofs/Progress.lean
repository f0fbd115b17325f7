import HeaderOutline.Proofs.Account
import HeaderOutline.Proofs.Lexemes
import HeaderOutline.Proofs.Links
import HeaderOutline.Proofs.Sole
import HeaderOutline.Text.Unicode

/-! # The progress of a reading

What is left at some point of a reading is a suffix of the tokens, and the index at which it
starts (`Tokens.LeftAt`) is the place of the reading.  A construct moves that place behind its
first token, going on after a fault never moves it back, and neither moves it beyond the last
token.  So every pass moves it forward, and the passes that a reading makes
(`Building.ReachesIn`) are at most as many as there are tokens.  A pass adds one entity at most, so
these are as few (`size_entities_of_parse`), and their numbers fit into 32 bits wherever the places
in the header do (`id_lt_of_parse`).
-/
namespace HeaderOutline

/-- Of some tokens, those from an index on are left; the index is at most the one behind the
last token, where the end of the input stands. -/
def Tokens.LeftAt (ts : List Token) (k : Nat) (us : List Token) : Prop :=
  k ≤ ts.length ∧ ts.drop k = us

namespace Tokens

variable {ts us vs : List Token} {t : Token} {k : Nat}

theorem leftAt_zero (ts : List Token) : LeftAt ts 0 ts := ⟨Nat.zero_le _, rfl⟩

/-- A suffix of what is left is left at the same place or at a later one. -/
theorem LeftAt.forward (h : LeftAt ts k us) (hs : vs <:+ us) : ∃ m, k ≤ m ∧ LeftAt ts m vs := by
  obtain ⟨hk, rfl⟩ := h
  obtain ⟨taken, ht⟩ := hs
  have hlen := congrArg List.length ht
  rw [List.length_append, List.length_drop] at hlen
  refine ⟨k + taken.length, Nat.le_add_right .., by omega, ?_⟩
  rw [← List.drop_drop, ← ht, List.drop_left]

/-- A suffix of what is behind the first token that is left is left at a later place. -/
theorem LeftAt.forward_lt (h : LeftAt ts k (t :: us)) (hs : vs <:+ us) :
    ∃ m, k < m ∧ LeftAt ts m vs := by
  obtain ⟨m, hm, hl⟩ := h.forward (hs.trans (List.suffix_cons t us))
  refine ⟨m, Nat.lt_of_le_of_ne hm ?_, hl⟩
  rintro rfl
  have hlen := hs.length_le
  rw [← hl.2, h.2, List.length_cons] at hlen
  exact Nat.not_succ_le_self _ hlen

end Tokens

/-- A construct moves the place of the reading behind its first token, and not beyond the last
one, whether it can be read or not. -/
theorem Construct.read_forward {ts behind : List Token} {t : Token} {k : Nat} (ds : Definitions)
    (merge : Bool) (h : Tokens.LeftAt ts k (t :: behind)) :
    ∃ m, k < m ∧ Tokens.LeftAt ts m (read ds merge t behind).rest :=
  h.forward_lt (read_rest_suffix ds merge t behind)

namespace Building

variable {policy : Recovery.Policy} {merge : Bool} {size : Nat}

/-- A pass moves the place of the reading forward. -/
theorem next_forward {ts us behind : List Token} {t : Token} {k : Nat} (ds : Definitions)
    (merge : Bool) (h : Tokens.LeftAt ts k us) (front : Tokens.skipTrivia us = t :: behind) :
    ∃ m, k < m ∧ Tokens.LeftAt ts m (Construct.read ds merge t behind).next := by
  obtain ⟨j, hj, hl⟩ := h.forward (Tokens.skipTrivia_suffix us)
  rw [front] at hl
  obtain ⟨m, hm, hr⟩ := Construct.read_forward ds merge hl
  obtain ⟨n, hn, hnext⟩ := hr.forward (Outcome.next_suffix _)
  exact ⟨n, by omega, hnext⟩

/-- A reading comes from one state to another in a number of passes, none of which ends it. -/
inductive ReachesIn (policy : Recovery.Policy) (merge : Bool) (size : Nat) :
    Nat → Building → List Token → Building → List Token → Prop
  | refl (b : Building) (ts : List Token) : ReachesIn policy merge size 0 b ts b ts
  | pass {n : Nat} {b b₁ b₂ : Building} {ts behind us : List Token} {t : Token}
      (front : Tokens.skipTrivia ts = t :: behind)
      (added : b.after policy size (Construct.read b.definitions merge t behind) = .ok b₁)
      (more : ReachesIn policy merge size n b₁ (Construct.read b.definitions merge t behind).next
        b₂ us) :
      ReachesIn policy merge size (n + 1) b ts b₂ us

/-- As many passes as a reading makes, so many tokens at least does it leave behind. -/
theorem ReachesIn.forward {n k : Nat} {b b' : Building} {all ts us : List Token}
    (h : ReachesIn policy merge size n b ts b' us) (hk : Tokens.LeftAt all k ts) :
    ∃ m, k + n ≤ m ∧ Tokens.LeftAt all m us := by
  induction h generalizing k with
  | refl b ts => exact ⟨k, Nat.le_refl k, hk⟩
  | @pass n b _ _ _ _ _ _ front _ _ ih =>
    obtain ⟨j, hj, hl⟩ := next_forward b.definitions merge hk front
    obtain ⟨m, hm, hr⟩ := ih hl
    exact ⟨m, by omega, hr⟩

/-- A reading ends at the end of the tokens, or under the strict policy with a pass that starts
from a construct which cannot be read. -/
theorem exists_reachesIn (policy : Recovery.Policy) (merge : Bool) (size : Nat)
    (b : Building) (ts : List Token) :
    ∃ n b' us, ReachesIn policy merge size n b ts b' us ∧
      ((Tokens.skipTrivia us = [] ∧ run policy merge size b ts = .ok b') ∨
        ∃ t behind fault ended rest, Tokens.skipTrivia us = t :: behind ∧ policy = .strict ∧
          Construct.read b'.definitions merge t behind = .failed fault ended rest ∧
          run policy merge size b ts = .error fault) := by
  induction b, ts using run_induction merge with
  | nil b ts hnil => exact ⟨0, b, ts, .refl b ts, .inl ⟨hnil, run_of_nil hnil⟩⟩
  | cons b ts t behind front ih =>
    have hrun : run policy merge size b ts = _ := run_of_cons front
    cases ha : b.after policy size (Construct.read b.definitions merge t behind) with
    | ok b₁ =>
      obtain ⟨n, b', us, hp, hend⟩ := ih b₁
      rw [ha] at hrun
      refine ⟨n + 1, b', us, .pass front ha hp, ?_⟩
      rw [hrun]
      exact hend
    | error fault =>
      -- no pass is made: this one would end the reading
      rw [ha] at hrun
      obtain ⟨hstrict, ended, rest, ho⟩ := after_eq_error ha
      exact ⟨0, b, ts, .refl b ts,
        .inr ⟨t, behind, fault, ended, rest, front, hstrict, ho, hrun⟩⟩

end Building

open Building in
/-- **The reading of a header always makes progress.**  Among the tokens of a source without
mistakes, the last of which is the end of the input, a construct leaves the reading behind its
first token and no further than the end, whether it is read or fails; going on after a fault does
not move it back; and each pass moves it forward.  So the reading ends after at most as many
passes as there are tokens: with nothing but trivia left, or under the strict policy in a pass
whose construct cannot be read. -/
theorem parse_progress [Alphabet] (options : Options) (file : String) (source : Text)
    (hs : (Token.scan options.limits source).any Token.isError = false) :
    ∃ ts stop, Token.scan options.limits source = ts ++ [stop] ∧ stop.kind = .eof ∧
      (∀ ds k t behind, Tokens.LeftAt ts k (t :: behind) →
        ∃ m, k < m ∧ Tokens.LeftAt ts m
          (Construct.read ds options.mergeLineComments t behind).rest) ∧
      (∀ depth k us, Tokens.LeftAt ts k us →
        ∃ m, k ≤ m ∧ Tokens.LeftAt ts m (Recovery.resume depth us)) ∧
      (∀ ds k us t behind, Tokens.LeftAt ts k us → Tokens.skipTrivia us = t :: behind →
        ∃ m, k < m ∧ Tokens.LeftAt ts m
          (Construct.read ds options.mergeLineComments t behind).next) ∧
      ∃ n k b us,
        ReachesIn options.recovery options.mergeLineComments source.size n
          (start file source options.definitions) ts b us ∧
        n ≤ k ∧ Tokens.LeftAt ts k us ∧
        ((Tokens.skipTrivia us = [] ∧ parse options file source = .ok b.finish) ∨
          ∃ t behind fault ended rest, Tokens.skipTrivia us = t :: behind ∧ k < ts.length ∧
            options.recovery = .strict ∧
            Construct.read b.definitions options.mergeLineComments t behind =
              .failed fault ended rest ∧
            parse options file source =
              .error (.construct file (fault.diagnostic source.size))) := by
  obtain ⟨p, hts⟩ := Token.scan_eq_dropLast_append options.limits source
  refine ⟨_, .eof p, hts, rfl, fun ds k t behind h => Construct.read_forward ds _ h,
    fun depth k us h => h.forward (Recovery.resume_suffix depth us),
    fun ds k us t behind h front => next_forward ds _ h front, ?_⟩
  have hparse : parse options file source =
      outlineOf options file source (Token.scan options.limits source).dropLast := by
    rw [parse_eq, ParseError.ofTokens?_scan.mpr hs]
  obtain ⟨n, b, us, hp, hend⟩ := exists_reachesIn options.recovery options.mergeLineComments
    source.size (start file source options.definitions) (Token.scan options.limits source).dropLast
  obtain ⟨k, hk, hl⟩ := hp.forward (Tokens.leftAt_zero _)
  refine ⟨n, k, b, us, hp, by omega, hl, ?_⟩
  rcases hend with ⟨hnil, hrun⟩ | ⟨t, behind, fault, ended, rest, front, hpol, hread, hrun⟩
  · exact .inl ⟨hnil, hparse.trans (outlineOf_of_ok hrun)⟩
  · refine .inr ⟨t, behind, fault, ended, rest, front, Nat.lt_of_le_of_ne hl.1 ?_, hpol, hread,
      hparse.trans (outlineOf_of_error hrun)⟩
    rintro rfl
    rw [← hl.2, List.drop_length] at front
    cases front

open Building in
/-- The head of this class breaks off, and the reading of its ten tokens goes on to their end. -/
theorem parse_progress_broken :
    let source : Text := "class \x7d int f();".toList
    (Token.scan Options.standard.limits source).any Token.isError = false ∧
      ∃ n b us, n ≤ 10 ∧ Tokens.skipTrivia us = [] ∧
        ReachesIn .resync true source.size n (start "a.h" source .empty)
          (Token.scan Options.standard.limits source).dropLast b us ∧
        parse .standard "a.h" source = .ok b.finish := by
  intro source
  have hs : (Token.scan Options.standard.limits source).any Token.isError = false := by
    unfold source
    decide +kernel
  have hlen : (Token.scan Options.standard.limits source).length = 11 := by
    unfold source
    decide +kernel
  obtain ⟨ts, stop, hts, -, -, -, -, n, k, b, us, hreach, hn, hl, hend⟩ :=
    parse_progress .standard "a.h" source hs
  rw [hts, List.length_append, List.length_singleton] at hlen
  have hk := hl.1
  rw [hts, List.dropLast_concat]
  rcases hend with ⟨hnil, hparse⟩ | ⟨_, _, _, _, _, _, _, hstrict, _⟩
  · exact ⟨hts ▸ hs, n, b, us, by omega, hnil, hreach, hparse⟩
  · cases hstrict

/-! ## The number of entities -/

theorem Lexeme.Cuts.length_le [Alphabet] {s w : Text} {xs : List Lexeme} (h : Cuts s xs w) :
    xs.length + w.length ≤ s.length := by
  induction h with
  | none => exact Nat.le_of_eq (Nat.zero_add _)
  | @next c cs _ _ _ ih =>
    have hlt := next_rest_length_lt c cs
    simp only [List.length_cons] at hlt ⊢
    omega

namespace Building

variable {b b' : Building}

/-- What one construct adds is one entity at most: documentation waits for an entity, which takes
it, or becomes one in the end. -/
theorem size_finish_add (b : Building) (item : Item) :
    (b.add size item).finish.entities.size ≤ b.finish.entities.size + 1 := by
  simp only [size_finish]
  cases item with
  | documentation comment =>
    cases comment <;> simp [add]
    omega
  | close brace =>
    simp only [add]
    split <;> simp [withScopes, report, Outline.report]
  | _ => simp [add, emit, withScopes, report, Outline.report]

/-- As many entities as a reading makes, so many passes at least does it make. -/
theorem ReachesIn.size_finish_le {n : Nat} {ts us : List Token}
    (h : ReachesIn policy merge size n b ts b' us) :
    b'.finish.entities.size ≤ b.finish.entities.size + n := by
  induction h with
  | refl => exact Nat.le_refl _
  | @pass n b b₁ _ _ _ _ _ _ added _ ih =>
    have hpass : b₁.finish.entities.size ≤ b.finish.entities.size + 1 := by
      obtain ⟨item, _, -, rfl⟩ | ⟨_, _, _, -, -, rfl⟩ := after_eq_ok added
      · exact size_finish_add b item
      · simp only [size_finish]
        exact Nat.le_succ _
    omega

end Building

section

variable [Alphabet] {options : Options} {file : String} {source : Text} {o : Outline}
  {i : EntityId} {e : Entity}

/-- **A header has no more entities than tokens**, where the root counts as one and so does the end
of the input. -/
theorem size_entities_of_parse (h : parse options file source = .ok o) :
    o.entities.size ≤ (Token.scan options.limits source).length := by
  obtain ⟨hs, done, hrun, rfl⟩ := parse_eq_ok_iff.mp h
  obtain ⟨n, b, us, hp, hend⟩ := Building.exists_reachesIn options.recovery
    options.mergeLineComments source.size (.start file source options.definitions)
    (Token.scan options.limits source).dropLast
  obtain ⟨k, hk, hl⟩ := hp.forward (Tokens.leftAt_zero _)
  obtain ⟨p, hts⟩ := Token.scan_eq_dropLast_append options.limits source
  have hlength := congrArg List.length hts
  rw [List.length_append, List.length_singleton] at hlength
  rcases hend with ⟨-, hb⟩ | ⟨_, _, _, _, _, _, _, _, hb⟩
  · obtain rfl := Except.ok.inj (hrun.symm.trans hb)
    have hsize : done.finish.entities.size ≤ 1 + n := hp.size_finish_le
    have hle := hl.1
    omega
  · cases hrun.symm.trans hb

/-- **The numbers of the entities** of a header fit into 32 bits if its places do. -/
theorem id_lt_of_parse (h : parse options file source = .ok o) (he : o.get? i = some e)
    (hs : source.size < UInt32.size) : i < UInt32.size := by
  obtain ⟨hany, -⟩ := parse_eq_ok_iff.mp h
  obtain ⟨xs, hcuts, hscan⟩ := Token.scan_eq_placed hany
  have hlength : (Token.scan options.limits source).length ≤ source.size + 1 := by
    have hle : xs.length ≤ source.length := hcuts.length_le
    have hsize := source.length_le_size
    rw [hscan, List.length_append, Token.length_placed, List.length_singleton]
    omega
  have hentities := Nat.le_trans (size_entities_of_parse h) hlength
  have hi : i < source.size + 1 := Nat.lt_of_lt_of_le (Outline.lt_size_of_get? he) hentities
  exact Nat.lt_of_le_of_lt (Nat.le_of_lt_succ hi) hs

end

end HeaderOutline
