import SqlBatch.Proofs.Script.Lexed

/-!
# Walks of a scanner

A walk is a number of steps that a scanner takes one after another, each giving an event. A scan is
the walk that cannot go on, so what holds at the start and is kept by each step holds at every point
of a scan.

At every point the text before and the text after it make up the script, and the offset is the
length of what is before.
-/

namespace SqlBatch

open Text

namespace Text

theorem byteLength_pos {cs : List Char} (h : cs ≠ []) : 0 < byteLength cs :=
  Nat.lt_of_lt_of_le (List.length_pos_iff.mpr h) (length_le_byteLength cs)

theorem append_eq_append_of_byteLength_le {xs ys xs' ys' : List Char} (h : xs ++ ys = xs' ++ ys')
    (hle : byteLength xs ≤ byteLength xs') : ∃ inner, xs' = xs ++ inner ∧ ys = inner ++ ys' := by
  rcases List.append_eq_append_iff.mp h with ⟨inner, hxs', hys⟩ | ⟨inner, hxs, hys'⟩
  · exact ⟨inner, hxs', hys⟩
  · obtain rfl : inner = [] := by
      rw [hxs, byteLength_append] at hle
      have := length_le_byteLength inner
      exact List.length_eq_zero_iff.mp (by omega)
    exact ⟨[], by simpa using hxs.symm, hys'.symm⟩

/-- A text that stands in a script at a byte offset, between two characters or at an end. -/
def StandsAt (script : List Char) (offset : Nat) (cs : List Char) : Prop :=
  ∃ before after, script = before ++ (cs ++ after) ∧ byteLength before = offset

theorem StandsAt.append {script xs ys : List Char} {offset : Nat}
    (h : StandsAt script offset (xs ++ ys)) :
    StandsAt script offset xs ∧ StandsAt script (offset + byteLength xs) ys := by
  obtain ⟨before, after, hscript, hoffset⟩ := h
  constructor
  · exact ⟨before, ys ++ after, by rw [hscript, List.append_assoc], hoffset⟩
  · refine ⟨before ++ xs, after, ?_, by rw [byteLength_append, hoffset]⟩
    rw [hscript, List.append_assoc, List.append_assoc]

end Text

theorem SplitOptions.ne_nil_of_isTerminator {cs : List Char} (h : isTerminator cs = true) :
    cs ≠ [] := by
  rintro rfl
  cases h

theorem SplitOptions.not_isBlank_of_isTerminator {cs : List Char} (h : isTerminator cs = true)
    {c : Char} (hc : c ∈ cs) : isBlank c = false := by
  simp only [isTerminator, Bool.and_eq_true, Bool.not_eq_true', List.any_eq_false] at h
  simpa using h.2 c hc

theorem SplitOptions.not_isSpace_of_isTerminator {cs : List Char} (h : isTerminator cs = true)
    {c : Char} (hc : c ∈ cs) : isSpace c = false := by
  have hblank := not_isBlank_of_isTerminator h hc
  rw [← Bool.not_eq_true] at hblank ⊢
  exact mt isBlank_of_isSpace hblank

theorem SplitOptions.terminator_ne_empty {options : SplitOptions}
    (h : isTerminator options.terminator.toList = true) : options.terminator ≠ "" := by
  intro hempty
  rw [hempty] at h
  cases h

namespace Event

def concat (es : List Event) : List Char := es.flatMap text

@[simp] theorem concat_nil : concat [] = [] := rfl

@[simp] theorem concat_cons (e : Event) (es : List Event) :
    concat (e :: es) = e.text ++ concat es := rfl

@[simp] theorem concat_append (es fs : List Event) : concat (es ++ fs) = concat es ++ concat fs :=
  List.flatMap_append

/-- Events without gaps from an offset on, none of which is empty. -/
def Contiguous : Nat → List Event → Prop
  | _, [] => True
  | offset, e :: es => e.start = offset ∧ e.text ≠ [] ∧ Contiguous e.stop es

end Event

namespace Scanner

/-! ### Steps -/

/-- A step that gives an event takes the lexeme at the place, cut out of the text. -/
theorem step_eq_event {s t : Scanner} {e : Event} (h : s.step = .event e t) :
    ∃ c cs, s.rest = c :: cs ∧ Lexed s c cs e.kind e.text.length ∧ s.rest = e.text ++ t.rest ∧
      e.start = s.offset ∧ t = s.advance e := by
  unfold step at h
  split at h
  · split at h
    · split at h <;> cases h
    · cases h
  · rename_i c cs hrest
    split at h
    · rename_i kind n hlexeme
      obtain ⟨rfl, rfl⟩ := Step.event.inj h
      have hlexed := lexed_of_lexeme hlexeme
      have hlength : (s.rest.take n).length = n :=
        List.length_take_of_le (hlexed.length_le hrest)
      refine ⟨c, cs, hrest, ?_, ?_, rfl, rfl⟩
      · change Lexed s c cs kind (s.rest.take n).length
        rwa [hlength]
      · change s.rest = s.rest.take n ++ s.rest.drop (s.rest.take n).length
        rw [hlength, List.take_append_drop]
    · cases h

theorem step_eq_unbalanced {s : Scanner} {construct : Construct} {offset : Nat}
    (h : s.step = .unbalanced construct offset) :
    (construct = .block ∧ s.rest = [] ∧ s.openBlocks.getLast? = some offset ∧
        s.options.strict = true) ∨
      ∃ c cs, s.rest = c :: cs ∧ s.lexeme c cs = .error construct ∧ offset = s.offset := by
  unfold step at h
  split at h
  · rename_i hrest
    split at h
    · rename_i hlast
      split at h
      · rename_i hstrict
        cases h
        exact .inl ⟨rfl, hrest, hlast, hstrict⟩
      · cases h
    · cases h
  · rename_i c cs hrest
    split at h
    · cases h
    · rename_i hlexeme
      cases h
      exact .inr ⟨c, cs, hrest, hlexeme, rfl⟩

theorem step_eq_complete {s : Scanner} (h : s.step = .complete) : s.rest = [] := by
  unfold step at h
  split at h
  · assumption
  · split at h <;> cases h

theorem ne_block_of_lexeme_eq_error {s : Scanner} {c : Char} {cs : List Char}
    {construct : Construct} (h : s.lexeme c cs = .error construct) : construct ≠ .block := by
  cases unclosed_of_lexeme h with
  | @quoted style first plain unclosed => cases style <;> exact Construct.noConfusion
  | blockComment | dollarQuoted => exact Construct.noConfusion

theorem rest_of_step {s t : Scanner} {e : Event} (h : s.step = .event e t) :
    s.rest = e.text ++ t.rest := by
  obtain ⟨-, -, -, -, hrest, -, -⟩ := step_eq_event h
  exact hrest

theorem start_of_step {s t : Scanner} {e : Event} (h : s.step = .event e t) :
    e.start = s.offset := by
  obtain ⟨-, -, -, -, -, hstart, -⟩ := step_eq_event h
  exact hstart

theorem advance_of_step {s t : Scanner} {e : Event} (h : s.step = .event e t) :
    t = s.advance e := by
  obtain ⟨-, -, -, -, -, -, hadvance⟩ := step_eq_event h
  exact hadvance

theorem text_ne_nil_of_step {s t : Scanner} {e : Event} (hterminator : s.terminator ≠ [])
    (h : s.step = .event e t) : e.text ≠ [] := by
  obtain ⟨c, cs, hrest, hlexed, -⟩ := step_eq_event h
  exact List.length_pos_iff.mp (hlexed.length_pos hrest fun _ => hterminator)

theorem text_ne_nil_of_kind_ne {s t : Scanner} {e : Event} (h : s.step = .event e t)
    (hkind : e.kind ≠ .terminator) : e.text ≠ [] := by
  obtain ⟨c, cs, hrest, hlexed, -⟩ := step_eq_event h
  exact List.length_pos_iff.mp (hlexed.length_pos hrest fun hterminator => absurd hterminator hkind)

/-- A step leaves the terminator as it is, or it is a directive that names one which options could
name. -/
theorem terminator_of_step {s t : Scanner} {e : Event} (h : s.step = .event e t) :
    t.terminator = s.terminator ∨ SplitOptions.isTerminator t.terminator = true := by
  obtain ⟨c, cs, hrest, hlexed, -, -, rfl⟩ := step_eq_event h
  unfold advance
  dsimp only
  split
  · rename_i delimiter hkind
    rw [hkind] at hlexed
    obtain ⟨m, hnamed⟩ := hlexed.named_of_delimiterChange
    exact .inr (Lexeme.directive?_eq_some (directive?_eq_some hnamed).2.2.2).2
  · exact .inl rfl

theorem isTerminator_of_step {s t : Scanner} {e : Event}
    (hs : SplitOptions.isTerminator s.terminator = true) (h : s.step = .event e t) :
    SplitOptions.isTerminator t.terminator = true := by
  rcases terminator_of_step h with heq | ht
  · rwa [heq]
  · exact ht

theorem terminator_ne_nil_of_step {s t : Scanner} {e : Event} (hs : s.terminator ≠ [])
    (h : s.step = .event e t) : t.terminator ≠ [] := by
  rcases terminator_of_step h with heq | ht
  · rwa [heq]
  · exact SplitOptions.ne_nil_of_isTerminator ht

/-! ### Walks -/

/-- From one scanner through events to another. -/
inductive Walk : Scanner → List Event → Scanner → Prop
  | nil (s : Scanner) : Walk s [] s
  | cons {s s' t : Scanner} {e : Event} {es : List Event} (step : s.step = .event e s')
      (walk : Walk s' es t) : Walk s (e :: es) t

namespace Walk

variable {s t u : Scanner} {es fs : List Event}

theorem append (h : Walk s es t) (h' : Walk t fs u) : Walk s (es ++ fs) u := by
  induction h with
  | nil s => exact h'
  | cons step _ ih => exact .cons step (ih h')

theorem split (h : Walk s (es ++ fs) u) : ∃ t, Walk s es t ∧ Walk t fs u := by
  induction es generalizing s with
  | nil => exact ⟨s, .nil s, h⟩
  | cons e es ih =>
      cases h with
      | cons step walk =>
          obtain ⟨t, hfirst, hsecond⟩ := ih walk
          exact ⟨t, .cons step hfirst, hsecond⟩

/-- What every step keeps is kept by every walk. -/
theorem keeps {P : Scanner → Prop} (hstep : ∀ {s t e}, P s → s.step = .event e t → P t)
    (h : Walk s es t) (hs : P s) : P t := by
  induction h with
  | nil s => exact hs
  | cons step _ ih => exact ih (hstep hs step)

theorem options_eq (h : Walk s es t) : t.options = s.options :=
  h.keeps (P := fun u => u.options = s.options) (fun hu step => by
    rw [advance_of_step step]
    exact hu) rfl

theorem rest_eq (h : Walk s es t) : s.rest = Event.concat es ++ t.rest := by
  induction h with
  | nil s => rfl
  | cons step _ ih => rw [rest_of_step step, ih, Event.concat_cons, List.append_assoc]

private theorem before_eq (h : Walk s es t) : t.before = (Event.concat es).reverse ++ s.before := by
  induction h with
  | nil s => rfl
  | cons step _ ih =>
      rw [ih, advance_of_step step, Event.concat_cons, List.reverse_append, List.append_assoc]
      rfl

private theorem offset_eq (h : Walk s es t) :
    t.offset = s.offset + byteLength (Event.concat es) := by
  induction h with
  | nil s => rfl
  | cons step _ ih =>
      rw [ih, advance_of_step step, Event.concat_cons, byteLength_append, ← Nat.add_assoc]
      rfl

theorem isTerminator (h : Walk s es t) (hs : SplitOptions.isTerminator s.terminator = true) :
    SplitOptions.isTerminator t.terminator = true :=
  h.keeps isTerminator_of_step hs

theorem terminator_ne_nil (h : Walk s es t) (hs : s.terminator ≠ []) : t.terminator ≠ [] :=
  h.keeps terminator_ne_nil_of_step hs

theorem contiguous (h : Walk s es t) (hs : s.terminator ≠ []) : Event.Contiguous s.offset es := by
  induction h with
  | nil s => trivial
  | @cons s s' t e es step walk ih =>
      have hoffset : e.stop = s'.offset := by
        rw [Event.stop, start_of_step step, advance_of_step step, advance]
      exact ⟨start_of_step step, text_ne_nil_of_step hs step,
        hoffset ▸ ih (terminator_ne_nil_of_step hs step)⟩

/-! ### Walks from the start of a script -/

variable {options : SplitOptions} {script : List Char}

theorem script_eq (h : Walk (start options script) es s) : script = Event.concat es ++ s.rest :=
  h.rest_eq

theorem before_of_start (h : Walk (start options script) es s) :
    s.before = (Event.concat es).reverse := by
  rw [h.before_eq, start, List.append_nil]

theorem offset_of_start (h : Walk (start options script) es s) :
    s.offset = byteLength (Event.concat es) := by
  rw [h.offset_eq, start, Nat.zero_add]

end Walk

/-! ### Scans -/

/-- How a scan ends whose scanner takes no other step. -/
def Step.ending? : Step → Option Ending
  | .event _ _ => none
  | .unbalanced construct offset => some (.unbalanced construct offset)
  | .complete => some .complete

theorem ending?_eq_complete_iff {s : Scanner} : s.step.ending? = some .complete ↔
    s.rest = [] ∧ (s.options.strict = true → s.openBlocks = []) := by
  have hnone : s.openBlocks = [] ↔ s.openBlocks.getLast? = none :=
    List.getLast?_eq_none_iff.symm
  unfold step
  split
  · rename_i hrest
    rw [hnone]
    cases s.openBlocks.getLast? with
    | none => simp [Step.ending?, hrest]
    | some offset => cases s.options.strict <;> simp [Step.ending?, hrest]
  · rename_i hrest
    refine iff_of_false ?_ fun h => ?_
    · split <;> simp [Step.ending?]
    · rw [hrest] at h
      cases h.1

theorem run_walk (n : Nat) (s : Scanner) : Walk s (run n s).events (run n s).final := by
  induction n generalizing s with
  | zero => exact .nil s
  | succ n ih =>
      unfold run
      split
      · rename_i e t hstep
        exact .cons hstep (ih t)
      · exact .nil s
      · exact .nil s

/-- A scan stops because it was allowed no more events, or because its scanner gives none. -/
theorem run_stops (n : Nat) (s : Scanner) :
    ((run n s).ending = .capped ∧ (run n s).events.length = n) ∨
      (run n s).final.step.ending? = some (run n s).ending := by
  induction n generalizing s with
  | zero => exact .inl ⟨rfl, rfl⟩
  | succ n ih =>
      unfold run
      split
      · rename_i e t hstep
        rcases ih t with ⟨hcapped, hlength⟩ | hstops
        · exact .inl ⟨hcapped, congrArg Nat.succ hlength⟩
        · exact .inr hstops
      · rename_i construct offset hstep
        exact .inr (congrArg Step.ending? hstep)
      · rename_i hstep
        exact .inr (congrArg Step.ending? hstep)

theorem step_of_run_unbalanced {n : Nat} {s : Scanner} {construct : Construct} {offset : Nat}
    (h : (run n s).ending = .unbalanced construct offset) :
    (run n s).final.step = .unbalanced construct offset := by
  rcases run_stops n s with ⟨hcapped, -⟩ | hstops
  · rw [hcapped] at h
    cases h
  · rw [h] at hstops
    cases hstep : (run n s).final.step <;> rw [hstep] at hstops <;> cases hstops
    rfl

/-- Of two walks from one scanner, one that cannot go on goes the whole way of the other. -/
theorem Walk.exists_append {s t u : Scanner} {es fs : List Event} (hfirst : Walk s es t)
    (hwhole : Walk s fs u) {ending : Ending} (hu : u.step.ending? = some ending) :
    ∃ gs, fs = es ++ gs ∧ Walk t gs u := by
  induction hfirst generalizing fs with
  | nil s => exact ⟨fs, rfl, hwhole⟩
  | cons step walk ih =>
      cases hwhole with
      | nil =>
          rw [step] at hu
          cases hu
      | cons step' walk' =>
          obtain ⟨rfl, rfl⟩ := Step.event.inj (step.symm.trans step')
          obtain ⟨gs, rfl, hrest⟩ := ih walk'
          exact ⟨gs, rfl, hrest⟩

end Scanner

theorem Event.Contiguous.length_le {offset : Nat} {es : List Event} (h : Contiguous offset es) :
    es.length ≤ (concat es).length := by
  induction es generalizing offset with
  | nil => exact Nat.le_refl _
  | cons e es ih =>
      have htext := List.length_pos_iff.mpr h.2.1
      have hrest := ih h.2.2
      rw [concat_cons, List.length_append, List.length_cons]
      omega

open Scanner in
theorem scan_walk (options : SplitOptions) (script : List Char) :
    Walk (start options script) (scan options script).events (scan options script).final :=
  run_walk _ _

theorem exists_step_of_scan_eq {options : SplitOptions} {script : List Char}
    {before after : List Event} {e : Event}
    (h : (scan options script).events = before ++ e :: after) :
    ∃ s t, Scanner.Walk (Scanner.start options script) before s ∧ s.step = .event e t := by
  obtain ⟨s, hbefore, hafter⟩ := (h ▸ scan_walk options script).split
  cases hafter with
  | @cons s t u e es step walk => exact ⟨s, t, hbefore, step⟩

/-- A scan with a terminator that is not empty is never cut off. -/
theorem scan_stops {options : SplitOptions} (hterminator : options.terminator ≠ "")
    (script : List Char) :
    (scan options script).final.step.ending? = some (scan options script).ending := by
  rcases Scanner.run_stops (script.length + 1) (Scanner.start options script) with
    ⟨-, hlength⟩ | hstops
  · have hwalk := scan_walk options script
    have hevents := (hwalk.contiguous (by simpa [Scanner.start] using hterminator)).length_le
    have hscript := congrArg List.length hwalk.script_eq
    rw [List.length_append] at hscript
    change (scan options script).events.length = script.length + 1 at hlength
    omega
  · exact hstops

theorem rest_of_scan_complete {options : SplitOptions} (hterminator : options.terminator ≠ "")
    {script : List Char} (h : (scan options script).ending = .complete) :
    (scan options script).final.rest = [] := by
  have hstops := scan_stops hterminator script
  rw [h] at hstops
  cases hstep : (scan options script).final.step with
  | complete => exact Scanner.step_eq_complete hstep
  | event | unbalanced => simp [hstep, Scanner.Step.ending?] at hstops

/-- A walk that cannot go on is the scan. -/
theorem scan_eq_of_walk {options : SplitOptions} (hterminator : options.terminator ≠ "")
    {script : List Char} {es : List Event} {t : Scanner} {ending : Ending}
    (h : Scanner.Walk (Scanner.start options script) es t)
    (ht : t.step.ending? = some ending) :
    scan options script = ⟨es, ending, t⟩ := by
  have hstops := scan_stops hterminator script
  have hscan := scan_walk options script
  generalize scan options script = found at hstops hscan
  obtain ⟨events, ending', final⟩ := found
  obtain ⟨gs, hevents, hrest⟩ := h.exists_append hscan hstops
  dsimp only at hevents hstops hrest
  cases hrest with
  | nil =>
      rw [List.append_nil] at hevents
      obtain rfl := Option.some.inj (ht.symm.trans hstops)
      rw [hevents]
  | cons step walk =>
      rw [step] at ht
      cases ht

end SqlBatch
