import HeaderOutline.Proofs.Blame
import HeaderOutline.Proofs.Relocation.Construct
import HeaderOutline.Proofs.Run

/-! # Relocated outcomes

What a pass leaves and reports moves with the tokens: the reading goes on with relocated tokens
(`Outcome.next_relocated`), and a fault or a warning says the same at other places, if it names only
tokens that are kept (`Relocation.fault_diagnostic`).
-/
namespace HeaderOutline

@[simp] theorem Recovery.resume_map (r : Relocation) (depth : Nat) (ts : List Token) :
    resume depth (ts.map r.token) = (resume depth ts).map r.token := by
  fun_induction resume depth ts with
  | case1 => rfl
  | case2 depth t ts h ih => rwa [List.map_cons, resume, Relocation.kind_token, if_pos h]
  | case3 depth t ts h hd ih =>
    rwa [List.map_cons, resume, Relocation.kind_token, if_neg h, if_pos hd]
  | case4 depth t ts h hd hs =>
    rw [List.map_cons, resume, Relocation.kind_token, if_neg h, if_neg hd, if_pos hs]
  | case5 depth t ts h hd hs hc =>
    rw [List.map_cons, resume, Relocation.kind_token, if_neg h, if_neg hd, if_neg hs, if_pos hc]
  | case6 depth t ts h hd hs hc ih =>
    rwa [List.map_cons, resume, Relocation.kind_token, if_neg h, if_neg hd, if_neg hs, if_neg hc]

/-- After relocated constructs the reading goes on with relocated tokens. -/
@[simp] theorem Outcome.next_relocated (r : Relocation) (o : Outcome) :
    (r.outcome o).next = o.next.map r.token := by
  cases o with
  | read => rfl
  | failed fault ended rest =>
    cases ended with
    | true => rfl
    | false => exact Recovery.resume_map r 0 rest

namespace Relocation

variable (r : Relocation)

/-- The bytes to which those of the header move. -/
def range (b : ByteRange) : ByteRange := ⟨r.offset b.start, r.offset b.stop⟩

/-- Another place that a diagnostic points to. -/
def related (x : Related) : Related := { x with range := r.range x.range }

/-- A diagnostic at its new place. -/
def diagnostic (d : Diagnostic) : Diagnostic :=
  { d with range := r.range d.range, related := d.related.map r.related }

/-- An entity at its new place. -/
def entity (e : Entity) : Entity :=
  { e with
    sourceRange := r.span e.sourceRange
    headerRange := r.span e.headerRange
    body := e.body.map r.body
    comment := e.comment.map r.doc }

/-! ## Faults and warnings -/

variable {r} {size size' : Nat}

theorem Keeps.range {t : Token} (h : r.Keeps t) : (r.token t).range = r.range t.range := by
  have hstop := congrArg Position.offset h.stop
  rw [Token.stop, place_offset, Position.advance_offset, Token.stop,
    Position.advance_offset] at hstop
  rw [Token.range, hstop, start_token, place_offset, Token.range, Relocation.range]

theorem foundText_map {found : Option Token} (h : ∀ t ∈ found, r.Keeps t) :
    foundText (found.map r.token) = foundText found := by
  cases found with
  | none => rfl
  | some t =>
    show foundText (some (r.token t)) = _
    rw [foundText, foundText, kind_token, (h t rfl).text]

theorem rangeOr_map (hsize : r.offset size = size') {found : Option Token}
    (h : ∀ t ∈ found, r.Keeps t) :
    rangeOr size' (found.map r.token) = r.range (rangeOr size found) := by
  cases found with
  | none => exact congrArg ByteRange.empty hsize.symm
  | some t => exact (h t rfl).range

/-- A fault in words says the same of tokens that are kept, at their new places. -/
theorem fault_diagnostic (hsize : r.offset size = size') {f : Fault}
    (h : ∀ t ∈ f.tokens, r.Keeps t) :
    (r.fault f).diagnostic size' = r.diagnostic (f.diagnostic size) := by
  obtain ⟨c, found⟩ := f
  have hfound : ∀ t ∈ found, r.Keeps t := fun t ht =>
    h t (List.mem_append_left _ (Option.mem_toList.mpr ht))
  cases c with
  | templateWithoutList keyword =>
    have hkeyword : r.Keeps keyword := h keyword (by simp [Fault.tokens])
    simp only [fault, cause, Fault.diagnostic, Fault.message, Fault.code, Fault.hint?,
      Fault.related, foundText_map hfound, rangeOr_map hsize hfound, diagnostic, related,
      hkeyword.range, List.map_cons, List.map_nil]
  | _ =>
    simp only [fault, cause, Fault.diagnostic, Fault.message, Fault.code, Fault.hint?,
      Fault.related, foundText_map hfound, rangeOr_map hsize hfound, diagnostic, List.map_nil]

theorem warning_diagnostic (hsize : r.offset size = size') {w : Warning}
    (h : ∀ t ∈ w.tokens, r.Keeps t) :
    (r.warning w).diagnostic size' = r.diagnostic (w.diagnostic size) := by
  cases w with
  | strayBrace brace =>
    simp only [warning, Warning.diagnostic, diagnostic, (h brace (by simp [Warning.tokens])).range,
      List.map_nil]
  | namelessMacro found =>
    have hfound : ∀ t ∈ found, r.Keeps t := fun t ht => h t (Option.mem_toList.mpr ht)
    simp only [warning, Warning.diagnostic, diagnostic, foundText_map hfound,
      rangeOr_map hsize hfound, List.map_nil]

end Relocation
end HeaderOutline
