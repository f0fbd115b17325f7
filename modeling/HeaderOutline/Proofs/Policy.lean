import HeaderOutline.Proofs.Run

/-! # The two policies

The tolerant policy turns every fault into a diagnostic and reads on; the strict one
stops at the first fault.  Up to there both do the same.  Faults are the only errors
among the diagnostics, since what is reported beside a construct that was read is a
warning (`Warning.severity_diagnostic`).  So the strict reading fails exactly with the
first error that the tolerant one records, and comes to the same outline where there is
none (`Building.run_strict`).
-/
namespace HeaderOutline

/-- A fault is an error. -/
theorem Fault.severity_diagnostic (size : Nat) (f : Fault) :
    (f.diagnostic size).severity = .error := rfl

/-- A warning is no error. -/
theorem Warning.severity_diagnostic (size : Nat) (w : Warning) :
    (w.diagnostic size).severity = .warning := by
  cases w <;> rfl

namespace Building

variable (merge : Bool) (size : Nat)

@[simp] theorem diagnostics_report (b : Building) (d : Diagnostic) :
    (b.report d).outline.diagnostics = b.outline.diagnostics.push d := rfl

@[simp] theorem diagnostics_emit (b : Building) (d : Draft) :
    (b.emit d).outline.diagnostics = b.outline.diagnostics := rfl

@[simp] theorem diagnostics_withScopes (b : Building) (scopes : Scopes) :
    (b.withScopes scopes).outline.diagnostics = b.outline.diagnostics := rfl

/-- What is built last leaves the diagnostics as they are. -/
@[simp] theorem diagnostics_finish (b : Building) :
    b.finish.diagnostics = b.outline.diagnostics := by
  unfold finish
  split <;> rfl

/-- A construct that could be read adds warnings at most. -/
theorem diagnostics_add (b : Building) (item : Item) :
    ∃ ws : List Diagnostic, (∀ w ∈ ws, w.severity = .warning) ∧
      (b.add size item).outline.diagnostics.toList = b.outline.diagnostics.toList ++ ws := by
  cases item with
  | close brace =>
    simp only [add]
    split
    · exact ⟨[], by simp, by simp⟩
    · exact ⟨[(Warning.strayBrace brace).diagnostic size],
        by simp [Warning.severity_diagnostic], by simp⟩
  | suspect warning d =>
    exact ⟨[warning.diagnostic size], by simp [Warning.severity_diagnostic], by simp [add]⟩
  | entity | scope | linkage | access | definition | documentation | nothing =>
    exact ⟨[], by simp, by simp [add]⟩

/-- Diagnostics are only ever added. -/
theorem diagnostics_prefix_of_run {policy : Recovery.Policy} {merge : Bool} {size : Nat}
    {b done : Building} {ts : List Token} (h : run policy merge size b ts = .ok done) :
    b.outline.diagnostics.toList <+: done.outline.diagnostics.toList := by
  refine related_of_run (R := fun b b' =>
      b.outline.diagnostics.toList <+: b'.outline.diagnostics.toList)
    (fun _ => List.prefix_rfl) List.IsPrefix.trans (fun b item => ?_) (fun b d => ?_) h
  · obtain ⟨ws, -, hadd⟩ := b.diagnostics_add size item
    exact ⟨ws, hadd.symm⟩
  · exact ⟨[d], by simp⟩

/-- **A clean pass** is that of a construct that can be read. -/
theorem exists_read_of_run {policy : Recovery.Policy} {merge : Bool} {size : Nat}
    {b done : Building} {ts behind : List Token} {t : Token}
    (front : Tokens.skipTrivia ts = t :: behind) (hr : run policy merge size b ts = .ok done)
    (hd : done.outline.diagnostics = #[]) :
    ∃ item rest, Construct.read b.definitions merge t behind = .read item rest ∧
      run policy merge size (b.add size item) rest = .ok done := by
  obtain ⟨b', ha, hmore⟩ := exists_after_of_run front hr
  cases ho : Construct.read b.definitions merge t behind with
  | read item rest =>
    rw [ho] at ha hmore
    obtain rfl := Except.ok.inj ha
    exact ⟨item, rest, rfl, hmore⟩
  | failed fault ended rest =>
    rw [ho] at ha
    -- the diagnostic of a fault would still be there at the end
    cases policy with
    | strict => cases ha
    | resync =>
      obtain rfl := Except.ok.inj ha
      have hprefix := diagnostics_prefix_of_run hmore
      rw [hd] at hprefix
      simp at hprefix

/-- **The strict reading follows the tolerant one.**  The tolerant reading succeeds; of
the diagnostics that it adds, the first error is the fault of the strict reading, and
without one the strict reading builds the same. -/
theorem run_strict (b : Building) (ts : List Token) :
    ∃ done added, run .resync merge size b ts = .ok done ∧
      done.outline.diagnostics.toList = b.outline.diagnostics.toList ++ added ∧
      (run .strict merge size b ts).mapError (Fault.diagnostic size) =
        match added.find? (·.severity.isError) with
        | some d => .error d
        | none => .ok done := by
  induction b, ts using run_induction merge with
  | nil b ts h => exact ⟨b, [], run_of_nil h, by simp, by rw [run_of_nil h]; rfl⟩
  | cons b ts t behind h ih =>
    rw [run_of_cons h, run_of_cons h]
    generalize Construct.read b.definitions merge t behind = o at ih ⊢
    cases o with
    | read item rest =>
      obtain ⟨done, added, hrun, hd, hstrict⟩ := ih (b.add size item)
      obtain ⟨ws, hws, hadd⟩ := b.diagnostics_add size item
      -- the warnings of this pass come first, and none of them is an error
      have hfind : (ws ++ added).find? (·.severity.isError)
          = added.find? (·.severity.isError) := by
        have hnone : ws.find? (·.severity.isError) = none :=
          List.find?_eq_none.mpr fun w hw => by simp [hws w hw, Severity.isError]
        rw [List.find?_append, hnone, Option.none_or]
      refine ⟨done, ws ++ added, hrun, by rw [hd, hadd, List.append_assoc], ?_⟩
      rw [hfind]
      exact hstrict
    | failed fault ended rest =>
      obtain ⟨done, added, hrun, hd, _⟩ := ih (b.report (fault.diagnostic size))
      refine ⟨done, fault.diagnostic size :: added, hrun, by rw [hd]; simp, ?_⟩
      rw [List.find?_cons_of_pos (by rw [Fault.severity_diagnostic]; rfl)]
      rfl

end Building

/-- An error of tokens is a lexical one. -/
theorem ParseError.lexical_of_ofTokens? {ts : List CountedToken} {e : ParseError}
    (h : ParseError.ofTokens? ts = some e) :
    ∃ flaw line column offset count, e = .lexical flaw line column offset count := by
  unfold ofTokens? at h
  split at h
  · cases h
  · exact ⟨_, _, _, _, _, (Option.some.inj h).symm⟩

/-- **What the two policies make of one header.**  If there are mistakes among the tokens,
both give the same error.  Otherwise the tolerant policy always gives an outline, and the
strict one gives the same outline if no diagnostic of it is an error, and else the first
error among them. -/
theorem parse_strict_eq_first_error [Alphabet] (options : Options) (file : String) (source : Text) :
    let tolerant := parse { options with recovery := .resync } file source
    let strict := parse { options with recovery := .strict } file source
    if (Token.scan options.limits source).any Token.isError then
      ∃ flaw line column offset count,
        tolerant = .error (.lexical flaw line column offset count) ∧ strict = tolerant
    else
      ∃ outline, tolerant = .ok outline ∧
        strict = match outline.diagnostics.toList.find? (·.severity.isError) with
          | some d => .error (.construct file d)
          | none => .ok outline := by
  simp only [parse_eq]
  cases hs : ParseError.ofTokens? (Token.tokenize options.limits source) with
  | some e =>
    have hany : (Token.scan options.limits source).any Token.isError = true := by
      rw [← Bool.not_eq_false, ← ParseError.ofTokens?_scan, hs]
      exact nofun
    obtain ⟨flaw, line, column, offset, count, rfl⟩ := ParseError.lexical_of_ofTokens? hs
    simp only [hany, if_true]
    exact ⟨flaw, line, column, offset, count, rfl, trivial⟩
  | none =>
    simp only [ParseError.ofTokens?_scan.mp hs, Bool.false_eq_true, if_false]
    obtain ⟨done, added, hrun, hd, hstrict⟩ := Building.run_strict options.mergeLineComments
      source.size (Building.start file source options.definitions)
      (Token.scan options.limits source).dropLast
    have hd' : done.finish.diagnostics.toList = added := by
      rw [Building.diagnostics_finish, hd]
      rfl
    refine ⟨done.finish, outlineOf_of_ok hrun, ?_⟩
    rw [hd']
    cases hr : (Building.start file source options.definitions).run .strict
        options.mergeLineComments source.size (Token.scan options.limits source).dropLast with
    | ok b =>
      rw [outlineOf_of_ok hr]
      rw [hr] at hstrict
      cases hf : added.find? (·.severity.isError) with
      | some d =>
        rw [hf] at hstrict
        cases hstrict
      | none =>
        rw [hf] at hstrict
        obtain rfl : b = done := Except.ok.inj hstrict
        rfl
    | error fault =>
      rw [outlineOf_of_error hr]
      rw [hr] at hstrict
      cases hf : added.find? (·.severity.isError) with
      | some d =>
        rw [hf] at hstrict
        obtain rfl : fault.diagnostic source.size = d := Except.error.inj hstrict
        rfl
      | none =>
        rw [hf] at hstrict
        cases hstrict

end HeaderOutline
