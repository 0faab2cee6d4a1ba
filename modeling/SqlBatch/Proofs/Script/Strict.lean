import SqlBatch.Proofs.Script.Blanked
import SqlBatch.Proofs.Script.Idempotent
import SqlBatch.Proofs.Script.Lexis

/-!
# Scripts that leave a block open

Whether a script is read strictly is asked only at its end. A scan goes the same way up to there,
and if all blocks are closed then, nothing is different. If a block is open, a strict scan fails and
names the outermost one, and a lenient scan lets the script end.

In that case nothing behind the opener of the outermost open block is a terminator or a directive,
for both are looked for outside blocks only. So the last statement has begun before the opener and
goes on to the end of the script.
-/

namespace SqlBatch

open Text

private theorem Text.trim_append_of_not_isBlank (xs : List Char) {c : Char} (hc : isBlank c = false)
    (cs : List Char) : ∃ pre, trim (xs ++ c :: cs) = pre ++ trimEnd (c :: cs) := by
  have hstart : trimStart (xs ++ c :: cs) = xs.dropWhile isBlank ++ c :: cs := by
    rw [trimStart, List.dropWhile_append]
    split
    · rename_i hnil
      rw [List.isEmpty_iff.mp hnil, List.dropWhile_cons_of_neg (by simp [hc]), List.nil_append]
    · rfl
  have hkept : (c :: cs).reverse.dropWhile isBlank ≠ [] := by
    intro hnil
    have hblank := List.dropWhile_eq_nil_iff.mp hnil c (by simp)
    rw [hc] at hblank
    cases hblank
  refine ⟨xs.dropWhile isBlank, ?_⟩
  rw [trim, hstart, trimEnd, trimEnd, List.reverse_append, List.dropWhile_append,
    if_neg (by simpa using hkept), List.reverse_append, List.reverse_reverse]

/-! ### Walks that stay inside a block -/

namespace Scanner

variable {s t : Scanner} {e : Event} {es : List Event}

private theorem not_isCut_of_openBlocks_ne_nil (hs : s.openBlocks ≠ []) (h : s.step = .event e t) :
    e.isCut = false := by
  obtain ⟨c, cs, hrest, hlexed, -, -, -⟩ := step_eq_event h
  obtain ⟨kind, start, text⟩ := e
  cases kind with
  | terminator => exact absurd (visible_of_step h rfl).1 hs
  | delimiterChange delimiter =>
      obtain ⟨m, hnamed⟩ := hlexed.named_of_delimiterChange
      exact absurd (directive?_eq_some hnamed).1 hs
  | _ => rfl

/-- The outermost open block stays the same from one place inside a block to the next. -/
theorem getLast?_openBlocks_of_step (hs : s.openBlocks ≠ []) (ht : t.openBlocks ≠ [])
    (h : s.step = .event e t) : t.openBlocks.getLast? = s.openBlocks.getLast? := by
  rw [advance_of_step h] at ht ⊢
  obtain ⟨outer, rest, hopen⟩ := List.exists_cons_of_ne_nil hs
  obtain ⟨kind, start, text⟩ := e
  cases kind with
  | blockBegin depth =>
      change (s.offset :: s.openBlocks).getLast? = _
      rw [hopen, List.getLast?_cons_cons]
  | blockEnd depth =>
      change s.openBlocks.tail ≠ [] at ht
      change s.openBlocks.tail.getLast? = _
      rw [hopen, List.tail_cons] at ht ⊢
      obtain ⟨inner, rest, rfl⟩ := List.exists_cons_of_ne_nil ht
      rw [List.getLast?_cons_cons]
  | _ => rfl

theorem opens_of_step (hs : s.openBlocks = []) (ht : t.openBlocks ≠ []) (h : s.step = .event e t) :
    e.kind = .blockBegin 1 ∧ t.openBlocks = [e.start] := by
  obtain ⟨c, cs, hrest, hlexed, -, hstart, rfl⟩ := step_eq_event h
  obtain ⟨kind, start, text⟩ := e
  generalize text.length = n at hlexed
  cases kind with
  | blockBegin depth =>
      cases hlexed with
      | blockBegin =>
          rw [advance, Scanner.depth, hs, hstart]
          exact ⟨rfl, rfl⟩
  | blockEnd depth => exact absurd hs hlexed.inside_of_blockEnd
  | _ => exact absurd hs ht

/-- A walk with a block open at each of its places. -/
inductive Inside : Scanner → List Event → Scanner → Prop
  | nil {s : Scanner} (inside : s.openBlocks ≠ []) : Inside s [] s
  | cons {s s' t : Scanner} {e : Event} {es : List Event} (inside : s.openBlocks ≠ [])
      (step : s.step = .event e s') (walk : Inside s' es t) : Inside s (e :: es) t

namespace Inside

theorem openBlocks_ne_nil (h : Inside s es t) : s.openBlocks ≠ [] := by
  cases h with
  | nil inside => exact inside
  | cons inside step walk => exact inside

private theorem not_isCut (h : Inside s es t) : ∀ e ∈ es, e.isCut = false := by
  induction h with
  | nil inside => exact fun _ hmem => absurd hmem List.not_mem_nil
  | cons inside step _ ih =>
      exact List.forall_mem_cons.mpr ⟨not_isCut_of_openBlocks_ne_nil inside step, ih⟩

theorem getLast?_openBlocks (h : Inside s es t) :
    t.openBlocks.getLast? = s.openBlocks.getLast? := by
  induction h with
  | nil inside => rfl
  | cons inside step walk ih =>
      rw [ih, getLast?_openBlocks_of_step inside walk.openBlocks_ne_nil step]

theorem exists_walk {done rest : List Event} (h : Inside s (done ++ rest) t) :
    ∃ u, Walk s done u ∧ u.openBlocks ≠ [] := by
  induction done generalizing s with
  | nil => exact ⟨s, .nil s, h.openBlocks_ne_nil⟩
  | cons e done ih =>
      cases h with
      | cons inside step walk =>
          obtain ⟨u, hwalk, hu⟩ := ih walk
          exact ⟨u, .cons step hwalk, hu⟩

end Inside

/-- A walk that ends inside a block is inside all along, or there is a last place outside, from
which the opener of a block leads in. -/
theorem Walk.inside_or_exists_opener (h : Walk s es t) (ht : t.openBlocks ≠ []) :
    Inside s es t ∨ ∃ before opener inside u v, es = before ++ opener :: inside ∧
      Walk s before u ∧ u.openBlocks = [] ∧ u.step = .event opener v ∧ Inside v inside t := by
  induction h with
  | nil s => exact .inl (.nil ht)
  | @cons s s' t e es step walk ih =>
      rcases ih ht with hinside | ⟨before, opener, inside, u, v, rfl, hbefore, hrest⟩
      · by_cases hs : s.openBlocks = []
        · exact .inr ⟨[], e, es, s, s', rfl, .nil s, hs, step, hinside⟩
        · exact .inl (.cons hs step hinside)
      · exact .inr ⟨e :: before, opener, inside, u, v, rfl, .cons step hbefore, hrest⟩

end Scanner

open Scanner

/-! ### Scans -/

variable {options : SplitOptions}

/-- The offset of the outermost block that is open where a scan has come to the end of its
script. -/
def Scan.leftOpen? (found : Scan) : Option Nat :=
  match found.ending with
  | .complete => found.final.openBlocks.getLast?
  | .unbalanced .. | .capped => none

private theorem Scan.leftOpen?_isSome_iff {found : Scan} :
    found.leftOpen?.isSome ↔ found.ending = .complete ∧ 0 < found.final.depth := by
  unfold leftOpen? Scanner.depth
  cases found.ending <;> simp [List.length_pos_iff]

/-- A strict scan is the lenient scan, except for its ending where a block is left open. -/
theorem scan_strict (hterminator : options.terminator ≠ "") (script : List Char) :
    let lenient := scan { options with strict := false } script
    let strict := scan { options with strict := true } script
    strict.events = lenient.events ∧ strict.ending = match lenient.leftOpen? with
      | some offset => .unbalanced .block offset
      | none => lenient.ending := by
  intro lenient strict
  have hne (strict : Bool) : ({ options with strict } : SplitOptions).terminator ≠ "" := hterminator
  have hwalk : Walk (start { options with strict := false } script) lenient.events lenient.final :=
    scan_walk _ script
  have hoptions : lenient.final.options = { options with strict := false } := hwalk.options_eq
  have hlexis : ({ options with strict := true } : SplitOptions).lexis =
      lenient.final.options.lexis := by
    rw [hoptions]
    rfl
  have hstops : lenient.final.step.ending? = some lenient.ending := scan_stops (hne false) script
  suffices hending : (lenient.final.under { options with strict := true }).step.ending? =
      some (match lenient.leftOpen? with
        | some offset => .unbalanced .block offset
        | none => lenient.ending) by
    have hstrict : Walk (start { options with strict := true } script) lenient.events
        (lenient.final.under { options with strict := true }) := hwalk.under rfl
    have hscan : strict = _ := scan_eq_of_walk (hne true) hstrict hending
    rw [hscan]
    exact ⟨rfl, rfl⟩
  by_cases hrest : lenient.final.rest = []
  · have hcomplete : lenient.ending = .complete := by
      rw [ending?_of_rest_eq_nil hrest, endingAtEnd, hoptions] at hstops
      cases hlast : lenient.final.openBlocks.getLast? <;> simp_all
    have hend : (lenient.final.under { options with strict := true }).rest = [] := hrest
    rw [ending?_of_rest_eq_nil hend, Scan.leftOpen?, hcomplete]
    rfl
  · have hnot : lenient.ending ≠ .complete := fun hcomplete =>
      hrest (rest_of_scan_complete (hne false) hcomplete)
    have hnone : lenient.leftOpen? = none := by
      unfold Scan.leftOpen?
      cases hending : lenient.ending with
      | complete => exact absurd hending hnot
      | _ => rfl
    rw [ending?_under_of_rest_ne_nil hlexis hrest, hstops, hnone]

namespace Script

/-! ### The statement at the end -/

/-- The text of events between cuts as a statement reports it. -/
def textOf (options : SplitOptions) (es : List Event) : List Char :=
  Event.concat (if options.keepComments then es else es.map Event.blanked)

theorem textOf_eq_flatMap_kept {es : List Event} (hes : ∀ e ∈ es, e.isCut = false) :
    textOf options es = es.flatMap (kept options) := by
  cases hcomments : options.keepComments with
  | true => rw [flatMap_kept hcomments hes, textOf, hcomments, if_pos rfl]
  | false =>
      rw [textOf, hcomments, if_neg Bool.false_ne_true, Event.concat, List.flatMap_map]
      refine List.flatMap_congr fun e he => ?_
      have hcut := hes e he
      obtain ⟨kind, start, text⟩ := e
      cases kind with
      | terminator | delimiterChange => cases hcut
      | comment style => simp [kept, hcomments, Event.blanked]
      | code | literal | blockBegin | blockEnd => rfl

theorem collect_append_of_isCut {cut : Event} (hcut : cut.isCut = true) (es : List Event)
    (pending : List Char) (hasCode : Bool) (fs : List Event) :
    collect options pending hasCode (es ++ cut :: fs) =
      collect options pending hasCode (es ++ [cut]) ++ collect options [] false fs := by
  have hnil : collect options [] false [] = [] := by simp [collect]
  induction es generalizing pending hasCode with
  | nil =>
      obtain ⟨kind, start, text⟩ := cut
      cases kind with
      | terminator =>
          change close options pending hasCode (some text) ++ collect options [] false fs =
            close options pending hasCode (some text) ++ collect options [] false [] ++ _
          rw [hnil, List.append_nil]
      | delimiterChange =>
          change collect options [] false fs = collect options [] false [] ++ _
          rw [hnil, List.nil_append]
      | code | comment | literal | blockBegin | blockEnd => cases hcut
  | cons e es ih =>
      obtain ⟨kind, start, text⟩ := e
      cases kind with
      | terminator =>
          change close options pending hasCode (some text) ++
              collect options [] false (es ++ cut :: fs) =
            close options pending hasCode (some text) ++
              collect options [] false (es ++ [cut]) ++ _
          rw [ih, List.append_assoc]
      | _ => exact ih _ _

private theorem whole_or_exists_cut (es : List Event) : (∀ e ∈ es, e.isCut = false) ∨
    ∃ init cut lead, es = init ++ cut :: lead ∧ cut.isCut = true ∧ ∀ e ∈ lead, e.isCut = false := by
  induction es with
  | nil => exact .inl fun _ hmem => absurd hmem List.not_mem_nil
  | cons e es ih =>
      rcases ih with hwhole | ⟨init, cut, lead, rfl, hcut, hlead⟩
      · cases he : e.isCut with
        | false => exact .inl (List.forall_mem_cons.mpr ⟨he, hwhole⟩)
        | true => exact .inr ⟨[], e, es, rfl, he, hwhole⟩
      · exact .inr ⟨e :: init, cut, lead, rfl, hcut, hlead⟩

/-- The last statement of a script that leaves a block open. It begins after the last cut and goes
on to the end of the script, and everything from the opener of the outermost open block on is in it,
up to the blanks at the end. -/
structure EndsInside (options : SplitOptions) (script : List Char) (before lead : List Event)
    (opener : Event) (inside : List Event) (last : Statement) : Prop where
  reaches : script = Event.concat before ++ Event.concat (lead ++ opener :: inside)
  begins : ∀ e ∈ before.getLast?, e.isCut = true
  whole : ∀ e ∈ lead ++ opener :: inside, e.isCut = false
  opens : opener.kind = .blockBegin 1 ∧ Event.depth (before ++ lead) = 0
  stays : ∀ done rest, inside = done ++ rest → 0 < Event.depth (before ++ lead ++ opener :: done)
  text : last.text.toList = trim (textOf options (lead ++ opener :: inside))
  contains : ∃ pre, last.text.toList = pre ++ trimEnd (textOf options (opener :: inside))
  terminator : last.terminator = none

private theorem collect_of_not_isCut_of_isCode {es : List Event} (hes : ∀ e ∈ es, e.isCut = false)
    (hcode : es.any Event.isCode = true) :
    collect options [] false es = [{ text := String.ofList (trim (textOf options es)) }] := by
  calc collect options [] false es
      = collect options [] false (es ++ []) := by rw [List.append_nil]
    _ = collect options (textOf options es).reverse true [] := by
        rw [collect_append_of_not_isCut hes, textOf_eq_flatMap_kept hes, List.append_nil,
          Bool.false_or, hcode]
    _ = _ := by simp [collect, close]

theorem exists_endsInside {script : List Char} {es : List Event} {t : Scanner}
    (h : Walk (start options script) es t) (hrest : t.rest = []) (ht : t.openBlocks ≠ []) :
    ∃ before lead opener inside statements last,
      es = before ++ (lead ++ opener :: inside) ∧
      t.openBlocks.getLast? = some opener.start ∧
      collect options [] false es = statements ++ [last] ∧
      EndsInside options script before lead opener inside last := by
  rcases h.inside_or_exists_opener ht with
    hinside | ⟨outside, opener, inside, u, v, rfl, houtside, hu, hstep, hinside⟩
  · exact absurd rfl hinside.openBlocks_ne_nil
  obtain ⟨hopener, hv⟩ := opens_of_step hu hinside.openBlocks_ne_nil hstep
  -- The last statement begins behind the last cut before the opener.
  obtain ⟨before, lead, rfl, hbegins, hlead⟩ : ∃ before lead, outside = before ++ lead ∧
      (before = [] ∨ ∃ init cut, before = init ++ [cut] ∧ cut.isCut = true) ∧
      ∀ e ∈ lead, e.isCut = false := by
    rcases whole_or_exists_cut outside with hwhole | ⟨init, cut, lead, rfl, hcut, hlead⟩
    · exact ⟨[], outside, rfl, .inl rfl, hwhole⟩
    · exact ⟨init ++ [cut], lead, by simp, .inr ⟨init, cut, rfl, hcut⟩, hlead⟩
  have hcut : opener.isCut = false := by rw [Event.isCut, hopener]
  have hcode : opener.isCode = true := by rw [Event.isCode, hopener]
  have hwhole : ∀ e ∈ lead ++ opener :: inside, e.isCut = false := by
    rw [List.forall_mem_append, List.forall_mem_cons]
    exact ⟨hlead, hcut, hinside.not_isCut⟩
  have hcollect : collect options [] false (before ++ (lead ++ opener :: inside)) =
      collect options [] false before ++
        [{ text := String.ofList (trim (textOf options (lead ++ opener :: inside))) }] := by
    rw [← collect_of_not_isCut_of_isCode hwhole (by simp [hcode])]
    rcases hbegins with rfl | ⟨init, cut, rfl, hcut⟩
    · simp [collect]
    · rw [List.append_assoc, List.singleton_append, collect_append_of_isCut hcut]
  have hscript := h.script_eq
  rw [hrest, List.append_nil, List.append_assoc] at hscript
  rw [List.append_assoc before lead]
  refine ⟨before, lead, opener, inside, _, _, rfl, ?_, hcollect, ?_⟩
  · rw [hinside.getLast?_openBlocks, hv, List.getLast?_singleton]
  refine ⟨?_, ?_, hwhole, ⟨hopener, ?_⟩, ?_, String.toList_ofList, ?_, rfl⟩
  · rw [hscript, Event.concat_append]
  · rcases hbegins with rfl | ⟨init, cut, rfl, hcut⟩
    · exact fun _ hmem => absurd hmem (by simp)
    · simpa using hcut
  · rw [← houtside.depth_eq, Scanner.depth, hu]
    rfl
  · rintro done rest rfl
    obtain ⟨w, hwalk, hw⟩ := hinside.exists_walk
    rw [← (houtside.append (.cons hstep hwalk)).depth_eq]
    exact List.length_pos_iff.mpr hw
  · obtain ⟨-, -, -, hlexed, -⟩ := step_eq_event hstep
    have hfirm : Firm opener.text := (Walk.cons hstep (.nil v)).firm opener (by simp) hcode
    obtain ⟨c, cs, hc, hblank⟩ := hfirm.first
    have hkept : (opener :: inside).flatMap (kept options) =
        c :: (cs ++ inside.flatMap (kept options)) := by
      rw [List.flatMap_cons, kept, hopener, hc]
      rfl
    have hinside : ∀ e ∈ opener :: inside, e.isCut = false :=
      (List.forall_mem_append.mp hwhole).2
    rw [String.toList_ofList, textOf_eq_flatMap_kept hwhole, textOf_eq_flatMap_kept hinside,
      List.flatMap_append, hkept]
    exact trim_append_of_not_isBlank _ hblank _

/-! ### Splitting -/

theorem withPlaceholdersFrom_strict (strict : Bool) (index : Nat) (statements : List Statement) :
    withPlaceholdersFrom { options with strict } index statements =
      withPlaceholdersFrom options index statements := by
  induction statements generalizing index with
  | nil => rfl
  | cons statement statements ih =>
      rw [withPlaceholdersFrom, withPlaceholdersFrom, ih]
      rfl

private theorem ending_ne_block (hvalid : options.Valid) (hstrict : options.strict = false)
    (script : List Char) (offset : Nat) :
    (scan options script).ending ≠ .unbalanced .block offset := by
  intro hending
  have hstops := scan_stops (SplitOptions.terminator_ne_empty hvalid.1) script
  rw [hending] at hstops
  have hstep : (scan options script).final.step = .unbalanced .block offset := by
    cases hstep : (scan options script).final.step <;> rw [hstep] at hstops <;> cases hstops
    rfl
  rcases step_eq_unbalanced hstep with ⟨-, -, -, hon⟩ | ⟨c, cs, -, hlexeme, -⟩
  · rw [(scan_walk options script).options_eq] at hon
    exact absurd (hstrict.symm.trans hon) (by decide)
  · exact ne_block_of_lexeme_eq_error hlexeme rfl

theorem splitStatements_eq_error_iff (hvalid : options.Valid) {script : String}
    {construct : Construct} {offset line : Nat} :
    splitStatements options script = .error (.unbalanced construct offset line) ↔
      (scan options script.toList).ending = .unbalanced construct offset ∧
        line = lineAt script.toList offset := by
  rw [splitStatements_eq hvalid, Scan.error?]
  cases (scan options script.toList).ending with
  | unbalanced construct' offset' =>
      simp only [Except.error.injEq, SplitError.unbalanced.injEq, Ending.unbalanced.injEq]
      constructor
      · rintro ⟨rfl, rfl, rfl⟩
        exact ⟨⟨rfl, rfl⟩, rfl⟩
      · rintro ⟨⟨rfl, rfl⟩, rfl⟩
        exact ⟨rfl, rfl, rfl⟩
  | complete | capped => simp

private theorem splitStatements_of_leftOpen?_eq_none (hvalid : options.Valid) {script : String}
    (h : (scan { options with strict := false } script.toList).leftOpen? = none) :
    splitStatements { options with strict := true } script =
      splitStatements { options with strict := false } script := by
  obtain ⟨hevents, hending⟩ :=
    scan_strict (SplitOptions.terminator_ne_empty hvalid.1) script.toList
  have hlenient : ({ options with strict := false } : SplitOptions).Valid := hvalid
  have hstrict : ({ options with strict := true } : SplitOptions).Valid := hvalid
  have hcollect (es : List Event) : collect { options with strict := true } [] false es =
      collect { options with strict := false } [] false es := by
    apply collect_congr <;> rfl
  rw [h] at hending
  rw [splitStatements_eq hstrict, splitStatements_eq hlenient, Scan.error?, Scan.error?, hevents,
    hending, hcollect]

/-- Where a block is left open, a strict scan fails at the opener of the outermost one, and the last
statement of a lenient scan has it. -/
theorem splitStatements_of_leftOpen (hvalid : options.Valid) {script : String}
    (hcomplete : (scan { options with strict := false } script.toList).ending = .complete)
    (hdepth : 0 < (scan { options with strict := false } script.toList).final.depth) :
    ∃ before lead opener inside statements last,
      (scan { options with strict := false } script.toList).events =
        before ++ (lead ++ opener :: inside) ∧
      splitStatements { options with strict := true } script =
        .error (.unbalanced .block opener.start (lineAt script.toList opener.start)) ∧
      splitStatements { options with strict := false } script = .ok (statements ++ [last]) ∧
      EndsInside { options with strict := false } script.toList before lead opener inside last := by
  have hlenient : ({ options with strict := false } : SplitOptions).Valid := hvalid
  have hstrict : ({ options with strict := true } : SplitOptions).Valid := hvalid
  have hne := SplitOptions.terminator_ne_empty hlenient.1
  obtain ⟨before, lead, opener, inside, statements, last, hevents, hopener, hcollect, hlast⟩ :=
    exists_endsInside (scan_walk { options with strict := false } script.toList)
      (rest_of_scan_complete hne hcomplete) (List.length_pos_iff.mp hdepth)
  refine ⟨before, lead, opener, inside, statements, last, hevents, ?_, ?_, hlast⟩
  · have hending := (scan_strict hne script.toList).2
    rw [Scan.leftOpen?, hcomplete, hopener] at hending
    exact (splitStatements_eq_error_iff hstrict).mpr ⟨hending, rfl⟩
  · rw [splitStatements_eq hlenient, Scan.error?, hcomplete, hcollect]

/-- **Strict and lenient splitting agree.** They give the same result for every script, except where
the lenient scan comes to the end of the script inside a block. There the strict one fails and names
the outermost open block, and the lenient one gives a last statement that goes on from before that
block to the end of the script. -/
theorem splitStatements_strict (hvalid : options.Valid) (script : String) :
    let lenient : SplitOptions := { options with strict := false }
    let strict : SplitOptions := { options with strict := true }
    let found := scan lenient script.toList
    let leftOpen := found.ending = .complete ∧ 0 < found.final.depth
    (¬leftOpen → splitStatements strict script = splitStatements lenient script ∧
      split strict script = split lenient script ∧
      splitWithPlaceholders strict script = splitWithPlaceholders lenient script) ∧
    (leftOpen ↔
      ∃ offset line, splitStatements strict script = .error (.unbalanced .block offset line)) ∧
    (leftOpen → ∃ before lead opener inside statements last,
      found.events = before ++ (lead ++ opener :: inside) ∧
      splitStatements strict script =
        .error (.unbalanced .block opener.start (lineAt script.toList opener.start)) ∧
      splitStatements lenient script = .ok (statements ++ [last]) ∧
      EndsInside lenient script.toList before lead opener inside last) ∧
    (∀ offset line, splitStatements lenient script ≠ .error (.unbalanced .block offset line)) ∧
    ∀ construct offset line, construct ≠ .block →
      (splitStatements strict script = .error (.unbalanced construct offset line) ↔
        splitStatements lenient script = .error (.unbalanced construct offset line)) := by
  intro lenient strict found leftOpen
  have hleft : leftOpen ↔ found.leftOpen?.isSome := Scan.leftOpen?_isSome_iff.symm
  have hsame (hnot : ¬leftOpen) :
      splitStatements strict script = splitStatements lenient script := by
    rw [hleft, Option.not_isSome_iff_eq_none] at hnot
    exact splitStatements_of_leftOpen?_eq_none hvalid hnot
  have hopen (h : leftOpen) := splitStatements_of_leftOpen hvalid h.1 h.2
  have hnever (offset line : Nat) :
      splitStatements lenient script ≠ .error (.unbalanced .block offset line) := by
    intro h
    have hlenient : lenient.Valid := hvalid
    exact ending_ne_block hlenient rfl script.toList offset
      ((splitStatements_eq_error_iff hlenient).mp h).1
  refine ⟨fun hnot => ⟨hsame hnot, ?_, ?_⟩, ⟨fun h => ?_, ?_⟩, hopen, hnever, ?_⟩
  · rw [split, split, hsame hnot]
  · rw [splitWithPlaceholders, splitWithPlaceholders, hsame hnot]
    have hfound (statements : List Statement) : withPlaceholdersFrom strict 0 statements =
        withPlaceholdersFrom lenient 0 statements :=
      (withPlaceholdersFrom_strict true 0 statements).trans
        (withPlaceholdersFrom_strict false 0 statements).symm
    simp only [hfound]
  · obtain ⟨-, -, opener, -, -, -, -, hstrict, -⟩ := hopen h
    exact ⟨_, _, hstrict⟩
  · rintro ⟨offset, line, hstrict⟩
    by_contra hnot
    exact hnever offset line (hsame hnot ▸ hstrict)
  · intro construct offset line hconstruct
    by_cases h : leftOpen
    · obtain ⟨_, _, opener, _, statements, last, -, hstrict, hlenient, -⟩ := hopen h
      rw [hstrict, hlenient]
      simp [hconstruct.symm]
    · rw [hsame h]

/-- The comment in the block is blanked, and the blank at the end of the script is trimmed. -/
theorem splitStatements_strict_open_block :
    ({ keepComments := false } : SplitOptions).Valid ∧
    (∃ offset line,
      splitStatements { keepComments := false, strict := true } "a; b BEGIN x; /*c*/ y " =
        .error (.unbalanced .block offset line)) ∧
    splitStatements { keepComments := false, strict := false } "a; b BEGIN x; /*c*/ y " =
      .ok [{ text := "a", terminator := some ";" }, { text := "b BEGIN x;   y" }] ∧
    ∃ before lead opener inside, EndsInside { keepComments := false, strict := false }
      "a; b BEGIN x; /*c*/ y ".toList before lead opener inside { text := "b BEGIN x;   y" } := by
  have hvalid : ({ keepComments := false } : SplitOptions).Valid := by decide
  obtain ⟨-, hiff, hopen, -, -⟩ := splitStatements_strict hvalid "a; b BEGIN x; /*c*/ y "
  have hleft : (scan { keepComments := false, strict := false }
        "a; b BEGIN x; /*c*/ y ".toList).ending = .complete ∧
      0 < (scan { keepComments := false, strict := false }
        "a; b BEGIN x; /*c*/ y ".toList).final.depth := by decide
  have hsplit : splitStatements { keepComments := false, strict := false }
      "a; b BEGIN x; /*c*/ y " =
      .ok [{ text := "a", terminator := some ";" }, { text := "b BEGIN x;   y" }] := rfl
  refine ⟨hvalid, hiff.mp hleft, hsplit, ?_⟩
  obtain ⟨before, lead, opener, inside, statements, last, -, -, hlenient, hends⟩ := hopen hleft
  have hlast : [({ text := "a", terminator := some ";" } : Statement)] ++
      [{ text := "b BEGIN x;   y" }] = statements ++ [last] :=
    Except.ok.inj (hsplit.symm.trans hlenient)
  obtain ⟨-, hlast⟩ := List.append_inj' hlast rfl
  cases hlast
  exact ⟨before, lead, opener, inside, hends⟩

end Script

end SqlBatch
