import HeaderOutline.Proofs.Attribute.Head
import HeaderOutline.Proofs.Closing.Construct
import HeaderOutline.Proofs.Policy
import HeaderOutline.Proofs.Regular
import HeaderOutline.Text.Unicode

/-! # Scopes are not closed too early

In a header whose brackets are nested a brace that closes always ends a scope that a brace before it
has opened.  For behind each pass of the reading the tokens that are left close at most as many
braces as there are scopes inside the outermost one (`Building.InScope`): a construct opens a scope
where it leaves a brace open, and leaves none open otherwise (`Construct.read_closes`), and the
reading goes on behind a fault without leaving a block in braces half way (`Tokens.Counts.resume`).

The main result is `parse_closes_in_scope`: **in a header without directives whose brackets are
nested, no brace is reported that closes nothing**, and whenever a pass starts with a brace that
closes, a scope is open inside the outermost one.
-/
namespace HeaderOutline

namespace Tokens

/-- Nested tokens leave the brackets as they are. -/
theorem Nested.balances {ts us : List Token} (h : Nested ts) {awaited : List Kind}
    (more : Balances awaited us) : Balances awaited (ts ++ us) := by
  induction h generalizing awaited us with
  | nil => exact more
  | plain ht _ ih =>
    obtain ⟨ho, hc⟩ := Kind.not_bracket_iff.mp ht
    refine .pass hc ?_
    rw [ho]
    exact ih more
  | @group o c inside behind pair _ _ ihi ihm =>
    have hcloser : o.kind.closer? = some c.kind := Kind.closer?_eq_some_iff.mpr pair
    have hopens : o.kind.isCloser = false := by
      rw [← Bool.not_eq_true]
      intro ho
      rw [Kind.closer?_of_isCloser ho] at hcloser
      cases hcloser
    rw [List.cons_append, List.append_assoc, List.cons_append]
    refine .pass hopens ?_
    rw [hcloser]
    exact ihi (.close (Kind.isCloser_of_closer? hcloser) (ihm more))

theorem Nested.balances_nil {ts : List Token} (h : Nested ts) : Balances [] ts := by
  have hall := h.balances .nil
  rwa [List.append_nil] at hall

/-- Nested tokens close nothing that has been opened before. -/
theorem Nested.closes {ts : List Token} (h : Nested ts) : Closes 0 ts :=
  ⟨[], h.balances_nil, Nat.le_refl 0⟩

/-- Nested tokens in front of each of the closers that are awaited, and behind the last one. -/
def Interleaved : List Kind → List Token → Prop
  | [], ts => Nested ts
  | k :: awaited, ts => ∃ inside c behind, ts = inside ++ c :: behind ∧ Nested inside ∧ c.kind = k ∧
      Interleaved awaited behind

/-- What keeps tokens nested in front of them does so for the first of the nested parts. -/
theorem Interleaved.cons {front : List Token} (hfront : ∀ ts, Nested ts → Nested (front ++ ts))
    {awaited : List Kind} {ts : List Token} (h : Interleaved awaited ts) :
    Interleaved awaited (front ++ ts) := by
  cases awaited with
  | nil => exact hfront ts h
  | cons k awaited =>
    obtain ⟨inside, c, behind, rfl, hinside, hk, hbehind⟩ := h
    exact ⟨front ++ inside, c, behind, by simp, hfront inside hinside, hk, hbehind⟩

theorem Balances.interleaved {awaited : List Kind} {ts : List Token} (h : Balances awaited ts) :
    Interleaved awaited ts := by
  induction h with
  | nil => exact .nil
  | @pass awaited t ts hc _ ih =>
    cases ho : t.kind.closer? with
    | none =>
      rw [ho] at ih
      have hplain : ∀ us, Nested us → Nested ([t] ++ us) := by
        intro us hus
        exact .plain (Kind.not_bracket_iff.mpr ⟨ho, hc⟩) hus
      exact ih.cons hplain
    | some k =>
      rw [ho] at ih
      obtain ⟨inside, c, behind, rfl, hinside, rfl, hbehind⟩ := ih
      have hgroup : ∀ us, Nested us → Nested (t :: (inside ++ [c]) ++ us) := by
        intro us hus
        rw [List.cons_append, List.append_assoc]
        exact .group (Kind.closer?_eq_some_iff.mp ho) hinside hus
      simpa using hbehind.cons hgroup
  | @close awaited t ts hc _ ih => exact ⟨[], t, ts, rfl, .nil, rfl, ih⟩

/-- Whether tokens close all brackets, those included whose closers are awaited. -/
def closeAll : List Kind → List Token → Bool
  | awaited, [] => awaited.isEmpty
  | awaited, t :: ts =>
    if t.kind.isCloser then awaited.head? == some t.kind && closeAll awaited.tail ts
    else closeAll (t.kind.closer?.toList ++ awaited) ts

theorem closeAll_iff {awaited : List Kind} {ts : List Token} :
    closeAll awaited ts = true ↔ Balances awaited ts := by
  induction ts generalizing awaited with
  | nil =>
    rw [closeAll, List.isEmpty_iff]
    constructor
    · rintro rfl
      exact .nil
    · rintro ⟨⟩
      rfl
  | cons t ts ih =>
    by_cases hc : t.kind.isCloser = true
    · rw [closeAll, if_pos hc, Bool.and_eq_true, ih, beq_iff_eq]
      constructor
      · rintro ⟨hk, hts⟩
        cases awaited with
        | nil => cases hk
        | cons k awaited =>
          obtain rfl := Option.some.inj hk
          exact .close hc hts
      · rintro (_ | ⟨hc', -⟩ | ⟨-, hts⟩)
        · rw [hc] at hc'
          cases hc'
        · exact ⟨rfl, hts⟩
    · rw [closeAll, if_neg hc, ih]
      constructor
      · exact .pass (by simpa using hc)
      · rintro (_ | ⟨-, hts⟩ | ⟨hc', -⟩)
        · exact hts
        · exact absurd hc' hc

/-- Whether brackets are nested can be checked with the closers that are awaited. -/
instance (ts : List Token) : Decidable (Nested ts) :=
  decidable_of_iff (closeAll [] ts = true)
    (closeAll_iff.trans ⟨fun h => h.interleaved, fun h => h.balances_nil⟩)

end Tokens

namespace Building

variable {policy : Recovery.Policy} {merge : Bool} {size : Nat} {b b' : Building}

/-- The tokens that are left close at most as many braces as there are scopes inside the outermost
one, and no brace has been reported that closes nothing. -/
structure InScope (b : Building) (ts : List Token) : Prop where
  closes : Tokens.Closes b.scopes.inner.length ts
  sound : ∀ d ∈ b.outline.diagnostics.toList, d.code ≠ .unexpectedCloser

/-- What is added keeps the scopes in step with the braces. -/
theorem InScope.add {ts rest : List Token} {item : Item} (h : b.InScope ts)
    (hitem : item.Regular ∨ item = .linkage)
    (hrest : (Outcome.read item rest).Closes b.scopes.inner.length) :
    (b.add size item).InScope rest := by
  cases item with
  | entity d | scope d access | linkage | definition m d | documentation c | nothing =>
    exact ⟨hrest, h.sound⟩
  | access level d =>
    refine ⟨?_, h.sound⟩
    change Tokens.Closes (b.scopes.setAccess level).inner.length rest
    have hdepth := b.scopes.depth_setAccess level
    rw [Nat.succ.inj hdepth]
    exact hrest
  | suspect w d =>
    refine ⟨hrest, fun e he => ?_⟩
    have hregular : Item.Regular (.suspect w d) := hitem.resolve_right fun hi => by cases hi
    simp only [Building.add, diagnostics_emit, diagnostics_report, Array.toList_push,
      List.mem_append, List.mem_singleton] at he
    rcases he with he | rfl
    · exact h.sound e he
    · exact hregular.2 size
  | close brace =>
    obtain ⟨hpos, hcloses⟩ := hrest
    obtain ⟨frame, frames, hinner⟩ : ∃ frame frames, b.scopes.inner = frame :: frames :=
      List.exists_cons_of_length_pos hpos
    have hpop : b.scopes.pop? = some (frame, ⟨frames, b.scopes.outermost⟩) := by
      rw [Scopes.pop?, hinner]
    have hadd : b.add size (.close brace) = b.withScopes ⟨frames, b.scopes.outermost⟩ := by
      rw [Building.add, hpop]
    rw [hinner] at hcloses
    rw [hadd]
    exact ⟨hcloses, h.sound⟩

/-- **One pass** keeps the scopes in step with the braces, also where a construct cannot be read. -/
theorem InScope.after {ts behind : List Token} {t : Token} (h : b.InScope ts)
    (front : Tokens.skipTrivia ts = t :: behind) (hh : t.kind ≠ .punct .hash)
    (ha : b.after policy size (Construct.read b.definitions merge t behind) = .ok b') :
    b'.InScope (Construct.read b.definitions merge t behind).next := by
  have hfront := (Tokens.lasting_closes _).skipTrivia h.closes
  rw [front] at hfront
  have hread := Construct.read_closes b.definitions merge hfront hh
  have hregular := Construct.read_regular b.definitions merge t behind
  obtain ⟨item, rest, ho, rfl⟩ | ⟨fault, ended, rest, ho, -, rfl⟩ := after_eq_ok ha
  · rw [ho] at hread hregular ⊢
    refine h.add (hregular.imp id ?_) hread
    rintro ⟨-, members, -, hlinkage⟩
    exact (Outcome.read.inj hlinkage).1
  · rw [ho] at hread hregular ⊢
    have hcode : fault.code ≠ .unexpectedCloser := by
      rcases hregular with hregular | ⟨-, _, -, hlinkage⟩
      · exact hregular
      · cases hlinkage
    refine ⟨?_, fun d hd => ?_⟩
    · cases ended with
      | true => exact hread
      | false => exact (Tokens.counts_zero.mpr hread).resume
    · simp only [diagnostics_report, Array.toList_push, List.mem_append,
        List.mem_singleton] at hd
      rcases hd with hd | rfl
      · exact h.sound d hd
      · exact hcode

/-- **A whole reading** keeps the scopes in step with the braces. -/
theorem InScope.reaches {ts us : List Token} (h : b.InScope ts)
    (hts : ∀ t ∈ ts, t.kind ≠ .punct .hash) (hr : Reaches policy merge size b ts b' us) :
    b'.InScope us := by
  induction hr with
  | refl => exact h
  | @pass b b₁ b₂ ts behind us t front added _ ih =>
    have hfront : t :: behind <:+ ts := front ▸ Tokens.skipTrivia_suffix ts
    have hnext := next_suffix_of_front b.definitions merge front
    exact ih (h.after front (hts t (hfront.subset List.mem_cons_self)) added)
      fun u hu => hts u (hnext.subset hu)

end Building

/-- **Scopes are not closed too early.**  In a header without directives whose brackets are nested,
no brace is reported that closes nothing; and whenever a pass starts with a brace that closes, a
scope is open inside the outermost one. -/
theorem parse_closes_in_scope [Alphabet] {options : Options} {file : String} {source : Text}
    (hhash : ∀ t ∈ Token.scan options.limits source, t.kind ≠ .punct .hash)
    (hnested : Tokens.Nested (Token.scan options.limits source).dropLast) :
    (∀ o, parse options file source = .ok o →
      ∀ d ∈ o.diagnostics.toList, d.code ≠ .unexpectedCloser) ∧
    ∀ b us t behind, (Building.start file source options.definitions).Reaches options.recovery
        options.mergeLineComments source.size (Token.scan options.limits source).dropLast b us →
      Tokens.skipTrivia us = t :: behind → t.kind = .punct .rBrace → b.scopes.inner ≠ [] := by
  have hstart : (Building.start file source options.definitions).InScope
      (Token.scan options.limits source).dropLast :=
    ⟨hnested.closes, fun d hd => absurd hd (by simp [Building.start, Outline.ofSource])⟩
  have hhash' : ∀ t ∈ (Token.scan options.limits source).dropLast, t.kind ≠ .punct .hash :=
    fun t ht => hhash t (List.dropLast_subset _ ht)
  constructor
  · intro o ho d hd
    obtain ⟨-, b, hr, rfl⟩ := parse_eq_ok_iff.mp ho
    obtain ⟨us, hreach, -⟩ := Building.reaches_of_run hr
    rw [Building.diagnostics_finish] at hd
    exact (hstart.reaches hhash' hreach).sound d hd
  · intro b us t behind hreach front hk hinner
    have hcloses := (Tokens.lasting_closes _).skipTrivia (hstart.reaches hhash' hreach).closes
    rw [front, hinner] at hcloses
    exact absurd (hcloses.closed hk).1 (Nat.lt_irrefl 0)

/-- A class in a namespace, whose member has a body. -/
theorem parse_closes_in_scope_member :
    ∃ o, parse .standard "a.h" "namespace a { class B { int f() { return 0; } }; }".toList = .ok o ∧
      o.entities.size = 4 ∧ ∀ d ∈ o.diagnostics.toList, d.code ≠ .unexpectedCloser := by
  have hread : (match parse .standard "a.h"
      "namespace a { class B { int f() { return 0; } }; }".toList with
      | .ok o => o.entities.size
      | .error _ => 0) = 4 := by decide +kernel
  have hcloses := (@parse_closes_in_scope _ .standard "a.h"
    "namespace a { class B { int f() { return 0; } }; }".toList
    (by decide +kernel) (by decide +kernel)).1
  cases h : parse .standard "a.h" "namespace a { class B { int f() { return 0; } }; }".toList with
  | error e =>
    rw [h] at hread
    cases hread
  | ok o =>
    rw [h] at hread
    exact ⟨o, rfl, hread, hcloses o h⟩

end HeaderOutline
