import HeaderOutline.Proofs.Policy
import HeaderOutline.Proofs.Regular
import HeaderOutline.Proofs.Sequel.Declaration
import HeaderOutline.Proofs.Swap.Construct

/-! # Constructs that others follow

All constructs but directives: what is read from tokens that end with a semicolon, trivia aside, is
read as well when other tokens follow (`Construct.read_sequel`).  So a header of such tokens that is
read without a fault is read just so at the front of a longer one (`Building.run_sequel`).
-/
namespace HeaderOutline

open Tokens (Ahead Sealed)

variable {t : Token} {ts us rest after : List Token} {ds : Definitions} {merge : Bool}
  {item : Item}

/-- **What is read is read as well when other tokens follow** those that end with a semicolon,
trivia aside. -/
theorem Construct.read_sequel (hs : Sealed (t :: rest)) (ht : t.kind.isTrivia = false)
    (hh : t.kind ≠ .punct .hash) (hr : read ds merge t rest = .read item after)
    (us : List Token) : read ds merge t (rest ++ us) = .read item (after ++ us) := by
  have hr : read ds merge t (rest ++ []) = .read item (after ++ []) := by
    simpa only [List.append_nil] using hr
  exact read_swap Tokens.semicolon_mem_lookEnds ht (hs.guarded after)
    (Declaration.probedAlike hs after us) (.inl rfl) (fun h => absurd h hh) hr

/-! ## Whole readings -/

namespace Tokens

theorem Sealed.skipTrivia_cons {behind : List Token} (h : Sealed ts)
    (ht : skipTrivia ts = t :: behind) (us : List Token) :
    skipTrivia (ts ++ us) = t :: (behind ++ us) := by
  rw [Ahead.skipTrivia_append rfl (h.stopped_of_skipTrivia ht), ht, List.cons_append]

theorem skipTrivia_append_of_nil (h : skipTrivia ts = []) (us : List Token) :
    skipTrivia (ts ++ us) = skipTrivia us := by
  unfold skipTrivia at h ⊢
  rw [List.dropWhile_append, h]
  rfl

end Tokens

namespace Building

variable {policy : Recovery.Policy} {size size' : Nat} {b done : Building}

/-- The size of the header is only needed for a warning. -/
theorem add_of_clean (h : (b.add size item).outline.diagnostics = #[]) :
    b.add size' item = b.add size item := by
  cases item with
  | close brace =>
    simp only [add] at h ⊢
    split
    · rfl
    · next hpop =>
      rw [hpop] at h
      simp at h
  | suspect w d => simp [add] at h
  | _ => rfl

theorem definitions_add (h : (Outcome.read item rest).definition? = none) :
    (b.add size item).definitions = b.definitions := by
  cases item with
  | close brace =>
    simp only [add]
    split <;> rfl
  | definition m d => cases h
  | _ => rfl

/-- **A clean reading of tokens that end with a semicolon**, trivia aside, goes on with what follows
them as if that came by itself. -/
theorem run_sequel (hs : Sealed ts) (hh : ∀ t ∈ ts, t.kind ≠ .punct .hash)
    (hr : run policy merge size b ts = .ok done) (hd : done.outline.diagnostics = #[])
    (us : List Token) :
    done.definitions = b.definitions ∧
      run policy merge size' b (ts ++ us) = run policy merge size' done us := by
  induction b, ts using run_induction merge with
  | nil b ts hnil =>
    obtain rfl := Except.ok.inj ((run_of_nil hnil).symm.trans hr)
    refine ⟨rfl, ?_⟩
    rw [← run_skipTrivia, Tokens.skipTrivia_append_of_nil hnil, run_skipTrivia]
  | cons b ts t behind front ih =>
    obtain ⟨item, rest, ho, hmore⟩ := exists_read_of_run front hr hd
    have hfront : t :: behind <:+ ts := front ▸ Tokens.skipTrivia_suffix ts
    have hhash := hh t (hfront.mem List.mem_cons_self)
    have hplain := Construct.read_definition? b.definitions merge behind hhash
    have hrest := Construct.read_rest_suffix b.definitions merge t behind
    have hclean : (b.add size item).outline.diagnostics = #[] := by
      have hprefix := diagnostics_prefix_of_run hmore
      rw [hd] at hprefix
      simpa using List.prefix_nil.mp hprefix
    have hsame := Construct.read_sequel (hs.suffix hfront) (Tokens.isTrivia_of_skipTrivia front)
      hhash ho us
    rw [ho] at hplain hrest ih
    have hall : rest <:+ ts := hrest.trans ((List.suffix_cons t behind).trans hfront)
    obtain ⟨hdefinitions, hrun⟩ := ih (b.add size item) (hs.suffix hall)
      (fun u hu => hh u (hall.mem hu)) hmore
    refine ⟨hdefinitions.trans (definitions_add hplain), ?_⟩
    rw [run_of_cons (hs.skipTrivia_cons front us), hsame]
    show run policy merge size' (b.add size' item) (rest ++ us) = _
    rw [add_of_clean hclean]
    exact hrun

end Building

end HeaderOutline
