import SqlBatch.Proofs.Script.Visible

/-!
# What options tell the lexemes

Some options say nothing of lexemes: the terminator that a script begins with, once its scan is under
way, how a block is judged that the script leaves open, and what statements keep. Under options that
differ in nothing else a scanner takes the same steps, up to the end of the script.
-/

namespace SqlBatch

open Text

/-- The options with everything set aside that says nothing of lexemes. -/
def SplitOptions.lexis (options : SplitOptions) : SplitOptions :=
  { options with
    terminator := ""
    strict := false
    keepTerminators := false
    keepComments := false
    keepEmptyStatements := false }

namespace Scanner

def under (options : SplitOptions) (s : Scanner) : Scanner := { s with options }

variable {options : SplitOptions} {s t : Scanner}

theorem lexeme_under (h : options.lexis = s.options.lexis) (c : Char) (cs : List Char) :
    (s.under options).lexeme c cs = s.lexeme c cs := by
  calc (s.under options).lexeme c cs
      = (s.under options.lexis).lexeme c cs := rfl
    _ = (s.under s.options.lexis).lexeme c cs := by rw [h]
    _ = s.lexeme c cs := rfl

private theorem step_under {e : Event} (h : options.lexis = s.options.lexis)
    (hstep : s.step = .event e t) : (s.under options).step = .event e (t.under options) := by
  obtain ⟨c, cs, n, hrest, hlexeme, -, he, rfl⟩ := lexeme_of_step hstep
  rw [← lexeme_under h] at hlexeme
  have hevent : (s.under options).event e.kind n = e := he.symm
  rw [step_of_lexeme (s := s.under options) hrest hlexeme, hevent]
  rfl

def endingAtEnd (s : Scanner) : Ending :=
  match s.openBlocks.getLast? with
  | some offset => if s.options.strict then .unbalanced .block offset else .complete
  | none => .complete

theorem ending?_of_rest_eq_nil (hrest : s.rest = []) : s.step.ending? = some s.endingAtEnd := by
  rw [step, hrest, endingAtEnd]
  cases s.openBlocks.getLast? with
  | none => rfl
  | some offset =>
      dsimp only
      split <;> rfl

theorem ending?_under_of_rest_ne_nil (h : options.lexis = s.options.lexis) (hrest : s.rest ≠ []) :
    (s.under options).step.ending? = s.step.ending? := by
  obtain ⟨c, cs, hcons⟩ := List.exists_cons_of_ne_nil hrest
  have hsame : (s.under options).rest = c :: cs := hcons
  rw [step, step, hsame, hcons]
  dsimp only
  rw [lexeme_under h]
  cases s.lexeme c cs <;> rfl

theorem ending?_under (h : options.lexis = s.options.lexis)
    (hstrict : options.strict = s.options.strict) :
    (s.under options).step.ending? = s.step.ending? := by
  by_cases hrest : s.rest = []
  · have hsame : (s.under options).endingAtEnd = s.endingAtEnd := by
      rw [endingAtEnd, endingAtEnd, under]
      dsimp only
      rw [hstrict]
    rw [ending?_of_rest_eq_nil hrest, ending?_of_rest_eq_nil (s := s.under options) hrest, hsame]
  · exact ending?_under_of_rest_ne_nil h hrest

theorem Walk.under {es : List Event} (hwalk : Walk s es t) (h : options.lexis = s.options.lexis) :
    Walk (s.under options) es (t.under options) := by
  induction hwalk with
  | nil s => exact .nil _
  | cons step _ ih =>
      refine .cons (step_under h step) (ih ?_)
      rw [advance_of_step step]
      exact h

end Scanner

end SqlBatch
