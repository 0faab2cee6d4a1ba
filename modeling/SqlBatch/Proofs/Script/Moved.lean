import SqlBatch.Proofs.Script.Visible

/-!
# Scanners moved to another place

What a scanner does next depends on what is left of the script, and of what is before it only on
whether a word, a dot or a line ends there. Two scanners that see the same go on in the same way;
their events and their errors are as far apart as they are.
-/

namespace SqlBatch

open Text

def Event.moved (d : Nat) (e : Event) : Event := { e with start := e.start + d }

def Ending.moved (d : Nat) : Ending → Ending
  | .complete => .complete
  | .unbalanced construct offset => .unbalanced construct (offset + d)
  | .capped => .capped

namespace Scanner

/-- A scanner that sees the same as another, further on in a script. -/
structure Moved (d : Nat) (s t : Scanner) : Prop where
  options : t.options = s.options
  rest : t.rest = s.rest
  offset : t.offset = s.offset + d
  terminator : t.terminator = s.terminator
  openBlocks : t.openBlocks = s.openBlocks.map (· + d)
  hasCode : t.hasCode = s.hasCode
  word : t.previous.any isWord = s.previous.any isWord
  dot : t.previous = some '.' ↔ s.previous = some '.'
  line : t.atLineStart = s.atLineStart

namespace Moved

variable {d : Nat} {s t : Scanner}

theorem depth_eq (h : Moved d s t) : t.depth = s.depth := by
  rw [depth, depth, h.openBlocks, List.length_map]

theorem atTerminator_eq (h : Moved d s t) : t.atTerminator = s.atTerminator :=
  atTerminator_congr h.options h.rest h.terminator h.depth_eq h.word

theorem wordLexeme_eq (h : Moved d s t) : t.wordLexeme = s.wordLexeme :=
  wordLexeme_congr h.options h.rest h.terminator h.depth_eq h.hasCode h.dot h.line

theorem lexeme_eq (h : Moved d s t) (c : Char) (cs : List Char) :
    t.lexeme c cs = s.lexeme c cs := by
  rw [Scanner.lexeme_eq, Scanner.lexeme_eq, h.atTerminator_eq, h.options, h.terminator,
    Lexeme.hidden?_congr_previous fun _ _ => h.word, visibleLexeme, visibleLexeme, h.wordLexeme_eq]

theorem advance (h : Moved d s t) (e : Event) : Moved d (s.advance e) (t.advance (e.moved d)) where
  options := h.options
  rest := congrArg (List.drop e.text.length) h.rest
  offset := by
    simp only [Scanner.advance, Event.moved, h.offset]
    omega
  terminator := by
    simp only [Scanner.advance, Event.moved, h.terminator]
  openBlocks := by
    simp only [Scanner.advance, Event.moved, h.openBlocks, h.offset]
    split
    · rfl
    · rw [List.map_tail]
    · rfl
  hasCode := by
    simp only [Scanner.advance, Event.moved, h.hasCode]
    rfl
  word := by
    have hword := h.word
    simp only [previous, Scanner.advance, Event.moved, List.head?_append] at hword ⊢
    cases e.text.reverse.head? with
    | none => exact hword
    | some c => rfl
  dot := by
    have hdot := h.dot
    simp only [previous, Scanner.advance, Event.moved, List.head?_append] at hdot ⊢
    cases e.text.reverse.head? with
    | none => exact hdot
    | some c => rfl
  line := by
    have hline := h.line
    simp only [atLineStart, Scanner.advance, Event.moved, List.takeWhile_append] at hline ⊢
    split
    · rw [List.all_append, List.all_append, hline]
    · rfl

theorem step_eq_event (h : Moved d s t) {e : Event} {s' : Scanner} (hstep : s.step = .event e s') :
    ∃ t', t.step = .event (e.moved d) t' ∧ Moved d s' t' := by
  obtain ⟨c, cs, n, hrest, hlexeme, -, he, rfl⟩ := lexeme_of_step hstep
  have hevent : t.event e.kind n = e.moved d := by
    rw [he]
    simp only [event, Event.moved, h.offset, h.rest]
  rw [← h.lexeme_eq] at hlexeme
  rw [step_of_lexeme (h.rest.trans hrest) hlexeme, hevent]
  exact ⟨_, rfl, h.advance e⟩

theorem ending?_eq (h : Moved d s t) {ending : Ending} (hstep : s.step.ending? = some ending) :
    t.step.ending? = some (ending.moved d) := by
  unfold step at hstep ⊢
  rw [h.rest]
  cases hrest : s.rest with
  | nil =>
      rw [hrest] at hstep
      simp only [h.openBlocks, List.getLast?_map, h.options] at hstep ⊢
      cases hlast : s.openBlocks.getLast? with
      | none =>
          rw [hlast] at hstep
          cases hstep
          rfl
      | some offset =>
          rw [hlast] at hstep
          simp only [Option.map_some] at hstep ⊢
          split at hstep
          · rename_i hstrict
            rw [if_pos hstrict]
            cases hstep
            rfl
          · rename_i hstrict
            rw [if_neg hstrict]
            cases hstep
            rfl
  | cons c cs =>
      rw [hrest] at hstep
      simp only [h.lexeme_eq] at hstep ⊢
      cases hlexeme : s.lexeme c cs with
      | ok found =>
          rw [hlexeme] at hstep
          cases hstep
      | error construct =>
          rw [hlexeme] at hstep
          cases hstep
          rw [h.offset]
          rfl

theorem walk (h : Moved d s t) {es : List Event} {s' : Scanner} (hwalk : Walk s es s') :
    ∃ t', Walk t (es.map (Event.moved d)) t' ∧ Moved d s' t' := by
  induction hwalk generalizing t with
  | nil s => exact ⟨t, .nil t, h⟩
  | cons step walk ih =>
      obtain ⟨u, hstep, hu⟩ := h.step_eq_event step
      obtain ⟨t', hwalk, ht'⟩ := ih hu
      exact ⟨t', .cons hstep hwalk, ht'⟩

end Moved

end Scanner

end SqlBatch
