import SqlBatch.Script.Cursor
import SqlBatch.Proofs.Script.Walk

/-!
# A scan covers its script

A scan ends by itself as long as the terminator is not empty. Its events follow each other without
gaps from the start of the script, none is empty, and together they are the script up to where the
scan ends: at the end of the script, or where a construct starts that is never closed. A reader who
asks for the items one at a time gets just these, then perhaps an error, and then nothing any more.
-/

namespace SqlBatch

open Text Scanner

namespace Scanner

/-- Every lexeme at the place covers some of the text that is left and no more than that, and so
does the marker of a dollar string before its text is looked at. -/
structure InRange (s : Scanner) : Prop where
  lexeme : ∀ {c : Char} {cs : List Char} {kind : EventKind} {n : Nat}, s.rest = c :: cs →
    s.lexeme c cs = .ok (kind, n) → 0 < n ∧ n ≤ s.rest.length
  marker : ∀ {c : Char} {cs : List Char} {n : Nat}, s.rest = c :: cs →
    Lexeme.dollarMarkerLength? s.previous cs = some n → n ≤ s.rest.length

theorem inRange {s : Scanner} (hterminator : s.terminator ≠ []) : s.InRange where
  lexeme hrest hlexeme :=
    ⟨(lexed_of_lexeme hlexeme).length_pos hrest fun _ => hterminator,
      (lexed_of_lexeme hlexeme).length_le hrest⟩
  marker hrest hmarker := by
    obtain ⟨-, tag, rest, rfl, -, rfl⟩ := Lexeme.dollarMarkerLength?_eq_some hmarker
    rw [hrest]
    simp only [List.length_cons, List.length_append]
    omega

end Scanner

namespace Cursor

theorem answer_finished (n : Nat) {c : Cursor} (h : c.finished = true) : c.answer n = none := by
  induction n generalizing c with
  | zero => simp [answer, next, h]
  | succ n ih => exact ih (by simp [next, h])

/-- A cursor gives the items of a scan that is not cut off, and nothing after them. -/
theorem answer_eq_items (script : List Char) {fuel : Nat} {s : Scanner}
    (h : (run fuel s).ending ≠ .capped) (n : Nat) :
    ({ script, scanner := s } : Cursor).answer n = ((run fuel s).items script)[n]? := by
  induction fuel generalizing s n with
  | zero => exact absurd rfl h
  | succ fuel ih =>
      cases hstep : s.step with
      | event e t =>
          simp only [run, hstep] at h ⊢
          cases n with
          | zero => simp [answer, next, hstep, Scan.items]
          | succ n =>
              have hnext : ({ script, scanner := s } : Cursor).next.2 =
                  { script, scanner := t } := by
                simp [next, hstep]
              rw [answer, hnext, ih h]
              simp [Scan.items, Scan.error?]
      | unbalanced construct offset =>
          cases n with
          | zero => simp [answer, next, run, hstep, Scan.items, Scan.error?]
          | succ n =>
              rw [answer, answer_finished n (by simp [next, hstep])]
              simp [run, hstep, Scan.items, Scan.error?]
      | complete =>
          cases n with
          | zero => simp [answer, next, run, hstep, Scan.items, Scan.error?]
          | succ n =>
              rw [answer, answer_finished n (by simp [next, hstep])]
              simp [run, hstep, Scan.items, Scan.error?]

end Cursor

/-! ### Places in the script -/

namespace Scanner

/-- The offsets that a scanner keeps are places between characters of the script, and what is left
to scan is the script from its own place on. -/
structure Placed (script : List Char) (s : Scanner) : Prop where
  here : ∃ scanned, script = scanned ++ s.rest ∧ byteLength scanned = s.offset
  blocks : ∀ offset ∈ s.openBlocks, StandsAt script offset []

theorem placed_start (options : SplitOptions) (script : List Char) :
    (start options script).Placed script where
  here := ⟨[], rfl, rfl⟩
  blocks _ hmem := absurd hmem List.not_mem_nil

theorem Placed.of_step {script : List Char} {s t : Scanner} {e : Event} (hs : s.Placed script)
    (h : s.step = .event e t) : t.Placed script := by
  obtain ⟨scanned, hscript, hoffset⟩ := hs.here
  constructor
  · -- The place moves on by the text of the event.
    refine ⟨scanned ++ e.text, ?_, ?_⟩
    · rw [hscript, rest_of_step h, List.append_assoc]
    · rw [byteLength_append, hoffset, advance_of_step h, advance]
  · intro offset hmem
    rw [advance_of_step h, advance] at hmem
    dsimp only at hmem
    split at hmem
    · rcases List.mem_cons.mp hmem with rfl | hmem
      · exact ⟨scanned, s.rest, hscript, hoffset⟩
      · exact hs.blocks offset hmem
    · exact hs.blocks offset (List.mem_of_mem_tail hmem)
    · exact hs.blocks offset hmem

end Scanner

theorem Scanner.Walk.standsAt {script : List Char} {s t : Scanner} {es : List Event}
    (h : Walk s es t) (hs : s.Placed script) : ∀ e ∈ es, StandsAt script e.start e.text := by
  induction h with
  | nil s => exact fun _ hmem => absurd hmem List.not_mem_nil
  | @cons s s' t e es step walk ih =>
      obtain ⟨scanned, hscript, hoffset⟩ := hs.here
      have hfirst : StandsAt script e.start e.text := by
        refine ⟨scanned, s'.rest, ?_, ?_⟩
        · rw [hscript, rest_of_step step]
        · rw [hoffset, start_of_step step]
      exact List.forall_mem_cons.mpr ⟨hfirst, ih (hs.of_step step)⟩

/-! ### What a scan covers -/

/-- How much of the script the events of a scan are, given how it ended: all of it, or what comes
before the construct that is never closed. -/
def Ending.Covers (script : List Char) (es : List Event) : Ending → Prop
  | .complete => Event.concat es = script
  | .unbalanced .block offset => Event.concat es = script ∧ StandsAt script offset []
  | .unbalanced _ offset => ∃ rest, rest ≠ [] ∧ script = Event.concat es ++ rest ∧
      byteLength (Event.concat es) = offset
  | .capped => False

private theorem Ending.covers_of_ne_block {script : List Char} {es : List Event}
    {construct : Construct} {offset : Nat} (hne : construct ≠ .block) (h : ∃ rest, rest ≠ [] ∧
      script = Event.concat es ++ rest ∧ byteLength (Event.concat es) = offset) :
    (Ending.unbalanced construct offset).Covers script es := by
  cases construct with
  | block => exact absurd rfl hne
  | _ => exact h

theorem scan_ending_covers {options : SplitOptions} (hterminator : options.terminator ≠ "")
    (script : List Char) :
    (scan options script).ending.Covers script (scan options script).events := by
  have hwalk := scan_walk options script
  have hplaced := hwalk.keeps Placed.of_step (placed_start options script)
  have hscript := hwalk.script_eq
  have hstops := scan_stops hterminator script
  generalize (scan options script).final = s at *
  generalize (scan options script).events = es at *
  generalize (scan options script).ending = ending at *
  cases hstep : s.step with
  | event e t => simp [hstep, Step.ending?] at hstops
  | complete =>
      rw [hstep] at hstops
      obtain rfl : Ending.complete = ending := Option.some.inj hstops
      rw [step_eq_complete hstep, List.append_nil] at hscript
      exact hscript.symm
  | unbalanced construct offset =>
      rw [hstep] at hstops
      obtain rfl : Ending.unbalanced construct offset = ending := Option.some.inj hstops
      rcases step_eq_unbalanced hstep with ⟨rfl, hrest, hlast, -⟩ | ⟨c, cs, hrest, hlexeme, rfl⟩
      · rw [hrest, List.append_nil] at hscript
        exact ⟨hscript.symm, hplaced.blocks offset (List.mem_of_getLast? hlast)⟩
      · refine Ending.covers_of_ne_block (ne_block_of_lexeme_eq_error hlexeme)
          ⟨s.rest, ?_, hscript, hwalk.offset_of_start.symm⟩
        rw [hrest]
        exact List.cons_ne_nil c cs

private theorem length_items_le {options : SplitOptions} (hterminator : options.terminator ≠ "")
    (script : List Char) :
    ((scan options script).items script).length ≤ byteLength script + 1 := by
  have hwalk := scan_walk options script
  have hevents := (hwalk.contiguous (by simpa [start] using hterminator)).length_le
  have hscript := congrArg List.length hwalk.script_eq
  have hbytes := length_le_byteLength script
  have herror : ((scan options script).error? script).toList.length ≤ 1 :=
    Option.length_toList_le
  rw [List.length_append] at hscript
  simp only [Scan.items, List.length_append, List.length_map]
  omega

/-- A scan loses nothing and invents nothing, and it ends. A reader gets the events, one after
another without gaps and each where its text stands, then at most one error, then nothing any more;
all in all at most one item for each byte, and one. At no point of the scan is the terminator empty,
a lexeme longer than what is left, or an offset inside a character. -/
theorem scan_covers {options : SplitOptions} (hterminator : options.terminator ≠ "")
    (script : List Char) :
    (∀ n, (Cursor.start options script).answer n = ((scan options script).items script)[n]?) ∧
    ((scan options script).items script).length ≤ byteLength script + 1 ∧
    Event.Contiguous 0 (scan options script).events ∧
    (∀ e ∈ (scan options script).events, StandsAt script e.start e.text) ∧
    (scan options script).ending.Covers script (scan options script).events ∧
    ∀ es s, Walk (start options script) es s →
      s.terminator ≠ [] ∧ s.InRange ∧ s.Placed script := by
  have hstart : (start options script).terminator ≠ [] := by simpa [start] using hterminator
  have hplaced := placed_start options script
  have hwalk := scan_walk options script
  have hcovers := scan_ending_covers hterminator script
  refine ⟨Cursor.answer_eq_items script fun hcapped => ?_, length_items_le hterminator script,
    hwalk.contiguous hstart, hwalk.standsAt hplaced, hcovers, fun es s hs => ?_⟩
  · change (scan options script).ending = .capped at hcapped
    rw [hcapped] at hcovers
    exact hcovers
  · have hne := hs.terminator_ne_nil hstart
    exact ⟨hne, inRange hne, hs.keeps Placed.of_step hplaced⟩

/-- A string that is never closed is an error, at the byte where it opens and after all that comes
before it, and nothing comes after the error. -/
theorem scan_covers_open_string :
    ({} : SplitOptions).terminator ≠ "" ∧
    (∀ n, (Cursor.start {} "é'b".toList).answer n =
      [.ok ⟨.code, 0, ['é']⟩, .error (.unbalanced .singleQuoted 2 1)][n]?) ∧
    ∃ rest, rest ≠ [] ∧ "é'b".toList = ['é'] ++ rest ∧ byteLength ['é'] = 2 := by
  have hterminator : ({} : SplitOptions).terminator ≠ "" := by decide
  obtain ⟨hitems, -, -, -, hcovers, -⟩ := scan_covers hterminator "é'b".toList
  exact ⟨hterminator, hitems, hcovers⟩

end SqlBatch
