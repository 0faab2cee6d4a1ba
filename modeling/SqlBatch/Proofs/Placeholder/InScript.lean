import SqlBatch.Proofs.Placeholder.Kept
import SqlBatch.Proofs.Placeholder.Tally

/-!
# Placeholders where they stand in a script

The placeholders of a statement are looked for in its text alone, but they are those that stand in
the script as code: outside the literals, the comments and the terminators that the scan of the
whole script found. This holds as long as no terminator of the script can be taken for a part of a
literal, of a comment or of a placeholder. A terminator that is in effect from the beginning may well
be a marker of dollar strings: it is one in neither scan.
-/

namespace SqlBatch

open Text Scanner Lexeme

private theorem ends_of_directive {s t : Scanner} {e : Event} {delimiter : List Char}
    (h : s.step = .event e t) (hkind : e.kind = .delimiterChange delimiter) :
    t.rest = [] ∨ e.text.getLast? = some '\n' := by
  obtain ⟨c, cs, hrest, hlexed, htext, -, -⟩ := step_eq_event h
  rw [hkind] at hlexed
  generalize hn : e.text.length = n at hlexed
  cases hlexed with
  | @directive apart first _ m named =>
      obtain ⟨line, after, hafter, rfl, hends⟩ :=
        directive?_ends (directive?_eq_some named).2.2.2
      have happend : e.text ++ t.rest = s.word ++ line ++ after := by
        rw [← htext, List.append_assoc, ← hafter, ← rest_eq_word_append]
      obtain ⟨heq, hrest⟩ := List.append_inj happend (by rw [hn, List.length_append])
      rw [heq, hrest]
      refine hends.imp_right fun hlast => ?_
      rw [List.getLast?_append, hlast, Option.some_or]

namespace Script

variable {options : SplitOptions}

/-! ### The statements of a script and their events -/

/-- The statements of a list of events, each with the events between the cuts around it, given the
events of the current statement so far. -/
def pieces (options : SplitOptions) (pending : List Event) (hasCode : Bool) :
    List Event → List (Statement × List Event)
  | [] =>
    if hasCode ||
        (options.keepEmptyStatements && !(pending.flatMap (kept options)).all isBlank) then
      (close options (pending.flatMap (kept options)).reverse hasCode none).map (·, pending)
    else []
  | e :: es =>
    match e.kind with
    | .terminator =>
      (close options (pending.flatMap (kept options)).reverse hasCode (some e.text)).map
        (·, pending) ++ pieces options [] false es
    | .delimiterChange _ => pieces options [] false es
    | .code | .comment _ | .literal _ | .blockBegin _ | .blockEnd _ =>
      pieces options (pending ++ [e]) (hasCode || e.isCode) es

theorem map_fst_pieces (pending : List Event) (hasCode : Bool) (es : List Event) :
    (pieces options pending hasCode es).map Prod.fst =
      collect options (pending.flatMap (kept options)).reverse hasCode es := by
  have hclose (statements : List Statement) (pending : List Event) :
      (statements.map (·, pending)).map Prod.fst = statements := by
    rw [List.map_map]
    exact List.map_id _
  induction es generalizing pending hasCode with
  | nil =>
      rw [pieces, collect, List.all_reverse]
      split
      · rw [hclose]
      · rfl
  | cons e es ih =>
      have hnext : (pieces options (pending ++ [e]) (hasCode || e.isCode) es).map Prod.fst =
          collect options ((kept options e).reverse ++
            (pending.flatMap (kept options)).reverse) (hasCode || e.isCode) es := by
        rw [ih, List.flatMap_append, List.reverse_append, List.flatMap_cons, List.flatMap_nil,
          List.append_nil]
      cases hkind : e.kind with
      | terminator =>
          simp only [pieces, collect, hkind]
          rw [List.map_append, hclose, ih]
          rfl
      | delimiterChange =>
          simp only [pieces, collect, hkind]
          exact ih [] false
      | code | comment | literal | blockBegin | blockEnd =>
          simp only [pieces, collect, hkind]
          exact hnext

/-- What is asked of the terminators of a script, given the one in effect: where it is not the one
that scripts begin with, neither of them stands within a statement as a marker of a dollar string; no
dollar stands behind one as if it went on with a word; and one that statements keep is mute. -/
inductive TerminatorsApart (options : SplitOptions) : List Char → List Event → Prop
  | nil (terminator : List Char) : TerminatorsApart options terminator []
  | cons {terminator : List Char} {e : Event} {es : List Event}
      (marker : e.isCut = false → UnmarkedAt options terminator (Event.concat (e :: es)))
      (word : options.dollarQuotes = true → e.kind = .terminator →
        e.text.getLast?.any isWord = true → (Event.concat es).head? ≠ some '$')
      (kept : options.keepTerminators = true → e.kind = .terminator → e.text.all isMute = true)
      (rest : TerminatorsApart options (e.delimiter?.getD terminator) es) :
      TerminatorsApart options terminator (e :: es)

private theorem terminatorsApart_cons_iff {terminator : List Char} {e : Event} {es : List Event} :
    TerminatorsApart options terminator (e :: es) ↔
      (e.isCut = false → UnmarkedAt options terminator (Event.concat (e :: es))) ∧
      (options.dollarQuotes = true → e.kind = .terminator →
        e.text.getLast?.any isWord = true → (Event.concat es).head? ≠ some '$') ∧
      (options.keepTerminators = true → e.kind = .terminator → e.text.all isMute = true) ∧
      TerminatorsApart options (e.delimiter?.getD terminator) es where
  mp | .cons marker word kept rest => ⟨marker, word, kept, rest⟩
  mpr | ⟨marker, word, kept, rest⟩ => .cons marker word kept rest

instance (options : SplitOptions) : (terminator : List Char) → (es : List Event) →
    Decidable (TerminatorsApart options terminator es)
  | terminator, [] => isTrue (.nil terminator)
  | terminator, e :: es =>
    have := instDecidableTerminatorsApart options (e.delimiter?.getD terminator) es
    decidable_of_iff' _ terminatorsApart_cons_iff

theorem begins_of_cut {s t : Scanner} {e : Event} {es : List Event} (h : s.step = .event e t)
    (hcut : e.isCut = true) (hoptions : s.options = options)
    (hvalid : SplitOptions.isTerminator s.terminator = true)
    (hword : options.dollarQuotes = true → e.kind = .terminator →
      e.text.getLast?.any isWord = true → (Event.concat es).head? ≠ some '$')
    (hrest : t.rest = Event.concat es) : Begins options t := by
  have hadvance := advance_of_step h
  have hprevious := previous_of_step (SplitOptions.ne_nil_of_isTerminator hvalid) h
  refine ⟨isTerminator_of_step hvalid h, fun hon hdollar => ?_, hadvance ▸ hoptions⟩
  rw [hprevious]
  rw [hrest] at hdollar
  cases hkind : e.kind with
  | terminator =>
      rw [← Bool.not_eq_true]
      exact fun hlast => hword hon hkind hlast hdollar
  | delimiterChange delimiter =>
      rcases ends_of_directive h hkind with hnil | hlast
      · rw [← hrest, hnil] at hdollar
        cases hdollar
      · rw [hlast]
        rfl
  | _ => simp [Event.isCut, hkind] at hcut

theorem extract_of_mem_close {s t : Scanner} {pending : List Event} (hs : Begins options s)
    (h : Walk s pending t) (hwhole : ∀ e ∈ pending, e.isCut = false)
    (hunmarked : Unmarked options s.terminator pending t.rest)
    (hfirst : SplitOptions.isTerminator options.terminator.toList = true) (hasCode : Bool)
    {terminator : Option (List Char)} (hterminator : options.keepTerminators = true →
      ∀ cs ∈ terminator, cs.all isMute = true ∧ '\n' ∉ cs) :
    ∀ statement ∈ close options (pending.flatMap (kept options)).reverse hasCode terminator,
      Placeholders.Inert options statement.text.toList →
      Placeholders.extract options statement.text =
        Placeholders.ofTokens (Placeholders.tokens (pending.flatMap Placeholders.maskEvent)) := by
  intro statement hmem hinert
  have hextract {mutes : List Char} (hmutes : mutes.all isMute = true) (hline : '\n' ∉ mutes) :=
    extract_of_walk hs h hwhole hunmarked hfirst hmutes hline
  unfold close at hmem
  split at hmem
  · obtain rfl := List.mem_singleton.mp hmem
    rw [String.toList_ofList] at hinert
    rw [List.reverse_reverse] at hinert ⊢
    split at hinert
    · rename_i hkeep
      rw [if_pos hkeep]
      cases terminator with
      | none => exact hextract rfl List.not_mem_nil hinert
      | some cs =>
          obtain ⟨hmutes, hline⟩ := hterminator hkeep cs rfl
          exact hextract hmutes hline hinert
    · rename_i hdrop
      rw [if_neg hdrop]
      exact hextract rfl List.not_mem_nil hinert
  · cases hmem

/-- The placeholders of each statement stand in the script as code. -/
theorem extract_of_mem_pieces (hfirst : SplitOptions.isTerminator options.terminator.toList = true)
    {s t : Scanner} {es : List Event} (h : Walk s es t) (hend : t.rest = [])
    (hapart : TerminatorsApart options s.terminator es) {u : Scanner} {pending : List Event}
    (hu : Begins options u) (hpending : Walk u pending s) (hwhole : ∀ e ∈ pending, e.isCut = false)
    (hunmarked : Unmarked options u.terminator pending s.rest)
    (hterminator : s.terminator = u.terminator) (hasCode : Bool) :
    ∀ p ∈ pieces options pending hasCode es, Placeholders.Inert options p.1.text.toList →
      Placeholders.extract options p.1.text =
        Placeholders.ofTokens (Placeholders.tokens (p.2.flatMap Placeholders.maskEvent)) := by
  -- The walk goes on to the end of the script; what the statement has so far is the walk up to it.
  induction h generalizing u pending hasCode with
  | nil s =>
      intro p hp
      rw [pieces] at hp
      split at hp
      · obtain ⟨statement, hmem, rfl⟩ := List.mem_map.mp hp
        exact extract_of_mem_close hu hpending hwhole hunmarked hfirst hasCode
          (fun _ _ hnone => by cases hnone) statement hmem
      · cases hp
  | @cons s v t e es step walk ih =>
      have hoptions : s.options = options := hpending.options_eq.trans hu.options
      have hvalid := hterminator ▸ hu.isTerminator
      have hrest : v.rest = Event.concat es := by rw [walk.rest_eq, hend, List.append_nil]
      cases hapart with
      | cons marker word keeps apart =>
      rw [← terminator_eq_of_step step] at apart
      cases hcut : e.isCut with
      | false =>
          have hstep : pieces options pending hasCode (e :: es) =
              pieces options (pending ++ [e]) (hasCode || e.isCode) es := by
            cases hkind : e.kind with
            | terminator | delimiterChange => simp [Event.isCut, hkind] at hcut
            | code | comment | literal | blockBegin | blockEnd => simp only [pieces, hkind]
          have hmore : Unmarked options u.terminator (pending ++ [e]) v.rest := by
            refine .concat (rest_of_step step ▸ hunmarked) ?_
            rw [← hterminator, hrest]
            exact marker hcut
          rw [hstep]
          refine ih hend apart hu (hpending.append (.cons step (.nil v))) ?_ hmore
            ((terminator_eq_of_not_isCut step hcut).trans hterminator) _
          intro f hf
          rcases List.mem_append.mp hf with hf | hf
          · exact hwhole f hf
          · exact List.mem_singleton.mp hf ▸ hcut
      | true =>
          have hv : Begins options v := begins_of_cut step hcut hoptions hvalid word hrest
          have hmore := ih hend apart hv (.nil v) (fun _ hmem => absurd hmem List.not_mem_nil)
            (.nil _ _) rfl false
          cases hkind : e.kind with
          | code | comment | literal | blockBegin | blockEnd => simp [Event.isCut, hkind] at hcut
          | delimiterChange delimiter =>
              simp only [pieces, hkind]
              exact hmore
          | terminator =>
              simp only [pieces, hkind]
              intro p hp
              rcases List.mem_append.mp hp with hp | hp
              · obtain ⟨statement, hmem, rfl⟩ := List.mem_map.mp hp
                refine extract_of_mem_close hu hpending hwhole hunmarked hfirst hasCode ?_
                  statement hmem
                rintro hkeep cs ⟨⟩
                refine ⟨keeps hkeep hkind, ?_⟩
                rw [(visible_of_step step hkind).2.1]
                exact not_mem_of_isTerminator hvalid
              · exact hmore p hp

/-! ### The placeholders of a script -/

/-- The statements with the placeholders that stand in their events as code, the first statement at
a given index. -/
def withPlaceholdersOf : Nat → List (Statement × List Event) → Except SplitError (List Statement)
  | _, [] => .ok []
  | index, (statement, piece) :: rest =>
    match Placeholders.ofTokens (Placeholders.tokens (piece.flatMap Placeholders.maskEvent)) with
    | .error e => .error (e.atStatement index)
    | .ok found => do
      let others ← withPlaceholdersOf (index + 1) rest
      return statement.withPlaceholders found :: others

private theorem withPlaceholdersFrom_eq {found : List (Statement × List Event)}
    (h : ∀ p ∈ found, Placeholders.extract options p.1.text =
      Placeholders.ofTokens (Placeholders.tokens (p.2.flatMap Placeholders.maskEvent)))
    (index : Nat) :
    withPlaceholdersFrom options index (found.map Prod.fst) = withPlaceholdersOf index found := by
  induction found generalizing index with
  | nil => rfl
  | cons p found ih =>
      obtain ⟨hp, hfound⟩ := List.forall_mem_cons.mp h
      cases htokens : Placeholders.ofTokens
          (Placeholders.tokens (p.2.flatMap Placeholders.maskEvent)) with
      | error e =>
          simp only [List.map_cons, withPlaceholdersFrom, withPlaceholdersOf, hp, htokens]
      | ok placeholders =>
          simp only [List.map_cons, withPlaceholdersFrom, withPlaceholdersOf, hp, htokens,
            ih hfound]

theorem withPlaceholdersOf_cases (index : Nat) (found : List (Statement × List Event)) :
    (∃ statements, withPlaceholdersOf index found = .ok statements ∧
      statements.map (fun s => (s.text, s.terminator)) =
        found.map fun p => (p.1.text, p.1.terminator)) ∨
    ∃ i first second,
      withPlaceholdersOf index found = .error (.mixedPlaceholders i first second) := by
  induction found generalizing index with
  | nil => exact .inl ⟨[], rfl, rfl⟩
  | cons p found ih =>
      obtain ⟨statement, piece⟩ := p
      rw [withPlaceholdersOf]
      split
      · rename_i e htokens
        obtain ⟨first, same, other, after, -, -, -, rfl⟩ :=
          Placeholders.ofTokens_eq_error_iff.mp htokens
        exact .inr ⟨index, first.kind, other.kind, rfl⟩
      · rename_i placeholders htokens
        rcases ih (index + 1) with ⟨statements, hok, hsame⟩ | ⟨i, first, second, herror⟩
        · refine .inl ⟨statement.withPlaceholders placeholders :: statements, ?_, ?_⟩
          · rw [hok]
            rfl
          · rw [List.map_cons, List.map_cons, hsame]
            rfl
        · refine .inr ⟨i, first, second, ?_⟩
          rw [herror]
          rfl

/-- Where the terminators of a script are apart from literals, comments and placeholders, and its
statements can be told, so can their placeholders, unless a statement has them in two styles. They
are those that stand as code in the scan of the whole script, between the cuts around the statement.
The terminator that scripts begin with may stand within a statement where nothing opens in it. -/
theorem splitWithPlaceholders_in_script {script : String}
    (hapart : TerminatorsApart options options.terminator.toList
      (scan options script.toList).events)
    {statements : List Statement} (h : splitStatements options script = .ok statements)
    (hinert : ∀ statement ∈ statements, Placeholders.Inert options statement.text.toList) :
    let found := pieces options [] false (scan options script.toList).events
    found.map Prod.fst = statements ∧
    splitWithPlaceholders options script = withPlaceholdersOf 0 found ∧
    ((∃ statements', splitWithPlaceholders options script = .ok statements' ∧
        statements'.map (fun s => (s.text, s.terminator)) =
          statements.map fun s => (s.text, s.terminator)) ∨
      ∃ index first second,
        splitWithPlaceholders options script = .error (.mixedPlaceholders index first second)) := by
  intro found
  obtain ⟨hvalid, rfl⟩ := splitStatements_eq_ok h
  have hfirst : found.map Prod.fst =
      collect options [] false (scan options script.toList).events := map_fst_pieces [] false _
  have hbegins : Begins options (start options script.toList) :=
    ⟨hvalid.1, fun _ _ => rfl, rfl⟩
  have hend := rest_of_scan_complete (SplitOptions.terminator_ne_empty hvalid.1)
    (ending_of_splitStatements h)
  have hextract := extract_of_mem_pieces hvalid.1 (scan_walk options script.toList) hend
    hapart hbegins (.nil _) (fun _ hmem => absurd hmem List.not_mem_nil) (.nil _ _) rfl false
  have hwhole : splitWithPlaceholders options script = withPlaceholdersOf 0 found := by
    rw [splitWithPlaceholders, h, ← hfirst]
    refine withPlaceholdersFrom_eq (fun p hp => hextract p hp (hinert p.1 ?_)) 0
    rw [← hfirst]
    exact List.mem_map_of_mem hp
  refine ⟨hfirst, hwhole, ?_⟩
  rw [hwhole, ← hfirst, List.map_map]
  exact withPlaceholdersOf_cases 0 found

/-- After a directive the question mark in the string and the one in the comment do not count, also
where the terminator is a marker of dollar strings. A script that begins with that terminator may
have it inside a block. -/
theorem splitWithPlaceholders_in_script_after_directive :
    TerminatorsApart {} [';'] (scan {} "DELIMITER $$\na ?, '?' $$ b :c --?".toList).events ∧
    splitStatements {} "DELIMITER $$\na ?, '?' $$ b :c --?" =
      .ok [{ text := "a ?, '?'", terminator := some "$$" }, { text := "b :c --?" }] ∧
    (∀ text, Placeholders.Inert {} text) ∧
    splitWithPlaceholders {} "DELIMITER $$\na ?, '?' $$ b :c --?" =
      .ok [{ text := "a ?, '?'", terminator := some "$$", placeholderCount := some 1,
             placeholderKind := some .positional },
           { text := "b :c --?", placeholderCount := some 1, placeholderKind := some .named,
             placeholderNames := ["c"] }] ∧
    splitWithPlaceholders { terminator := "$$" } "BEGIN SELECT ?, '?'; $$ END $$" =
      .ok [{ text := "BEGIN SELECT ?, '?'; $$ END", terminator := some "$$",
             placeholderCount := some 1, placeholderKind := some .positional }] := by
  have hinert (text : List Char) : Placeholders.Inert {} text :=
    Placeholders.inert_of_opensNothing (by decide) text
  have hapart : TerminatorsApart {} [';']
      (scan {} "DELIMITER $$\na ?, '?' $$ b :c --?".toList).events := by decide
  have hsplit : splitStatements {} "DELIMITER $$\na ?, '?' $$ b :c --?" =
      .ok [{ text := "a ?, '?'", terminator := some "$$" }, { text := "b :c --?" }] := rfl
  obtain ⟨-, hwhole, -⟩ := splitWithPlaceholders_in_script hapart hsplit fun _ _ => hinert _
  have hapart' : TerminatorsApart { terminator := "$$" } ['$', '$']
      (scan { terminator := "$$" } "BEGIN SELECT ?, '?'; $$ END $$".toList).events := by decide
  have hsplit' : splitStatements { terminator := "$$" } "BEGIN SELECT ?, '?'; $$ END $$" =
      .ok [{ text := "BEGIN SELECT ?, '?'; $$ END", terminator := some "$$" }] := rfl
  have hinert' : Placeholders.Inert { terminator := "$$" }
      "BEGIN SELECT ?, '?'; $$ END".toList := by decide
  obtain ⟨-, hwhole', -⟩ := splitWithPlaceholders_in_script hapart' hsplit'
    (List.forall_mem_singleton.mpr hinert')
  refine ⟨hapart, hsplit, hinert, hwhole.trans ?_, hwhole'.trans ?_⟩
  · rfl
  · rfl

/-- Where a marker of dollar strings is the terminator, it is code inside a block. But a statement
by itself is scanned with the terminator that scripts begin with, and has an open string there. -/
theorem splitWithPlaceholders_of_marker :
    ({} : SplitOptions).Valid ∧
    splitStatements {} "DELIMITER $$\nBEGIN SELECT 1; $$ END $$" =
      .ok [{ text := "BEGIN SELECT 1; $$ END", terminator := some "$$" }] ∧
    splitWithPlaceholders {} "DELIMITER $$\nBEGIN SELECT 1; $$ END $$" =
      .error (.unbalanced .dollarQuoted 16 1) := by
  refine ⟨by decide, rfl, rfl⟩

end Script

end SqlBatch
