import HeaderOutline.Proofs.Lookups
import HeaderOutline.Proofs.Resolution
import HeaderOutline.Proofs.Values
import HeaderOutline.Text.Unicode

/-! # Macros that no token names

A macro known from the start, whose name no token of a header is, makes no difference to it.  The
reading never asks for the macro itself, since it looks up tokens only; and no chain of macros
leads to it, since the value of a macro of the header leads on only if it is a word, and then it is
the text of a token.  So with such macros and without them the tables of a reading agree
(`Definitions.Agree`) all along, and what is built is the same but for the tables
(`Building.run_withDefinitions`).
-/
namespace HeaderOutline

namespace Building

variable {policy : Recovery.Policy} {merge : Bool} {size : Nat} {b : Building}
  {all ts : List Token} {foreign : Text → Prop} {ds : Definitions}

/-- Replaces the macros that are known. -/
def withDefinitions (b : Building) (ds : Definitions) : Building := { b with definitions := ds }

/-- What an item adds does not depend on the macros; and if it defines one, it does so in any
table. -/
theorem add_withDefinitions (size : Nat) (item : Item)
    (h : b.definitions.Agree foreign ds)
    (hvalue : ∀ m d, item = .definition m d → ¬foreign m.value) :
    ∃ ds', (b.withDefinitions ds).add size item = (b.add size item).withDefinitions ds' ∧
      (b.add size item).definitions.Agree foreign ds' := by
  cases item with
  | definition m d => exact ⟨ds.define m, rfl, h.define (hvalue m d rfl)⟩
  | close brace =>
    cases hp : b.scopes.pop? with
    | none =>
      have hpop : (b.withDefinitions ds).scopes.pop? = none := hp
      refine ⟨ds, ?_, ?_⟩
      · simp only [add, hp, hpop]
        rfl
      · simp only [add, hp]
        exact h
    | some popped =>
      have hpop : (b.withDefinitions ds).scopes.pop? = some popped := hp
      refine ⟨ds, ?_, ?_⟩
      · simp only [add, hp, hpop]
        rfl
      · simp only [add, hp]
        exact h
  | _ => exact ⟨ds, rfl, h⟩

/-- **A reading with another table** that agrees on all but foreign names leads to the same
outline, if no token is foreign and every foreign name is a word. -/
theorem run_withDefinitions [Alphabet] (hw : Tokens.Whole all)
    (hforeign : ∀ n, foreign n → n.IsWord)
    (htokens : ∀ t ∈ all, ¬foreign t.text) (h : b.definitions.Agree foreign ds)
    (hs : ts <:+ all) :
    (run policy merge size (b.withDefinitions ds) ts).map finish
      = (run policy merge size b ts).map finish := by
  induction b, ts using run_induction merge generalizing ds with
  | nil b ts hnil =>
    rw [run_of_nil hnil, run_of_nil hnil]
    rfl
  | cons b ts t behind front ih =>
    have hfront : t :: behind <:+ all := (front ▸ Tokens.skipTrivia_suffix ts).trans hs
    have hnext := (next_suffix_of_front b.definitions merge front).trans hs
    -- a construct looks up nothing but its own tokens, and none of these is foreign
    have hsame : b.definitions.SameOn ds (t :: behind) := fun u hu _ =>
      have hu := htokens u (hfront.mem hu)
      ⟨h.contains_eq hu, h.resolve_eq hu⟩
    have hread : Construct.read (b.withDefinitions ds).definitions merge t behind
        = Construct.read b.definitions merge t behind :=
      (Construct.read_congr merge hsame).symm
    rw [run_of_cons front, run_of_cons front, hread]
    cases ho : Construct.read b.definitions merge t behind with
    | failed fault ended rest =>
      rw [ho] at hnext ih
      cases policy with
      | strict => rfl
      | resync => exact ih (b.report (fault.diagnostic size)) h hnext
    | read item rest =>
      rw [ho] at hnext ih
      -- a macro leads on to a foreign name only if that is a token, being a word
      have hvalue : ∀ m d, item = .definition m d → ¬foreign m.value := by
        rintro m d rfl hm
        obtain ⟨x, hx, htext⟩ :=
          Construct.exists_of_isWord_definition hw hfront ho (hforeign _ hm)
        exact htokens x hx (htext ▸ hm)
      obtain ⟨ds', hadd, hagree⟩ := add_withDefinitions size item h hvalue
      show (run policy merge size ((b.withDefinitions ds).add size item) _).map finish = _
      rw [hadd]
      exact ih (b.add size item) hagree hnext

end Building

/-- Macros with foreign names are as good as none. -/
theorem Options.agree_definitions (options : Options) (foreign : Text → Prop)
    (h : ∀ m ∈ options.predefined, foreign m.1) :
    options.definitions.Agree foreign .empty := by
  have hfold : ∀ (ms : List (Text × Text)) (ds : Definitions), (∀ m ∈ ms, foreign m.1) →
      ds.Agree foreign .empty →
      (ms.foldl (fun ds d => ds.define (.object d.1 d.2)) ds).Agree foreign .empty := by
    intro ms
    induction ms with
    | nil => exact fun ds _ hds => hds
    | cons m ms ih =>
      intro ds hms hds
      exact ih _ (fun x hx => hms x (List.mem_cons_of_mem m hx))
        (hds.define_foreign (hms m List.mem_cons_self))
  exact hfold options.predefined .empty h (.empty foreign)

/-- The outline of a header depends on the options through the reading alone. -/
theorem outlineOf_eq_map (options : Options) (file : String) (source : Text) (ts : List Token) :
    outlineOf options file source ts
      = (((Building.start file source options.definitions).run options.recovery
          options.mergeLineComments source.size ts).map Building.finish).mapError
            fun fault => .construct file (fault.diagnostic source.size) := by
  unfold outlineOf
  cases (Building.start file source options.definitions).run options.recovery
      options.mergeLineComments source.size ts <;> rfl

/-- **Macros known from the start that no token names have no effect**: if their names are words,
none of which is the text of a token of the source, then a header has the same outline with them
and without any, all entities and diagnostics included, or it ends with the same error. -/
theorem parse_predefined_unused [Alphabet] (options : Options) (file : String) (source : Text)
    (hwords : ∀ m ∈ options.predefined, m.1.IsWord)
    (hunused : ∀ m ∈ options.predefined, ∀ t ∈ Token.scan options.limits source, t.text ≠ m.1) :
    parse options file source = parse { options with predefined := [] } file source := by
  rw [parse_eq, parse_eq]
  dsimp only
  split
  · rfl
  · next hany =>
    rw [ParseError.ofTokens?_scan] at hany
    have hagree := options.agree_definitions (fun n => ∃ m ∈ options.predefined, m.1 = n)
      fun m hm => ⟨m, hm, rfl⟩
    have hforeign : ∀ n, (∃ m ∈ options.predefined, m.1 = n) → n.IsWord := by
      rintro n ⟨m, hm, rfl⟩
      exact hwords m hm
    have htokens : ∀ t ∈ (Token.scan options.limits source).dropLast,
        ¬∃ m ∈ options.predefined, m.1 = t.text := by
      rintro t ht ⟨m, hm, hname⟩
      exact hunused m hm t (List.dropLast_subset _ ht) hname.symm
    rw [outlineOf_eq_map, outlineOf_eq_map]
    have hrun : ((Building.start file source options.definitions).withDefinitions .empty |>.run
        options.recovery options.mergeLineComments source.size _).map Building.finish = _ :=
      Building.run_withDefinitions (Token.whole_scan hany) hforeign htokens hagree List.suffix_rfl
    exact congrArg _ hrun.symm

/-- The known macro does not come up, although the value of the one that the header defines is the
beginning of its name. -/
theorem parse_predefined_unused_api :
    let source : Text := "#define API API_\nAPI f();".toList
    parse { Options.standard with predefined := [("API_2".toList, "int".toList)] } "a.h" source
      = parse .standard "a.h" source := by
  intro source
  have hword : Text.IsWord "API_2".toList :=
    ⟨⟨'A', "PI_2".toList, rfl, by decide⟩, List.all_eq_true.mp (by decide +kernel)⟩
  have hunused : ∀ t ∈ Token.scan .standard source, t.text ≠ "API_2".toList := by
    unfold source
    decide +kernel
  refine parse_predefined_unused
    { Options.standard with predefined := [("API_2".toList, "int".toList)] } "a.h" source ?_ ?_
  · intro m hm
    cases List.mem_singleton.mp hm
    exact hword
  · intro m hm
    cases List.mem_singleton.mp hm
    exact hunused

end HeaderOutline
