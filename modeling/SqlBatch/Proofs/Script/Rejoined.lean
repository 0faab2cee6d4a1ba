import SqlBatch.Proofs.Script.Closed
import SqlBatch.Proofs.Script.Idempotent

/-!
# Statements joined again

Statements that keep their semicolons are put together, a line feed after each, and split again.
Each of them is one statement by itself, and the scan of the whole goes through one after another:
the text of the statement, its semicolon, and the line feed in front of the next.

This fails where the text of a statement ends in a line comment, because its semicolon has become a
part of the comment. What follows on the next line then belongs to the same statement.
-/

namespace SqlBatch

open Text Scanner

/-- Options under which statements keep their comments and the semicolons that end them, and nothing
but a semicolon ends one. -/
structure SplitOptions.KeepsSemicolons (options : SplitOptions) : Prop where
  terminator : options.terminator = ";"
  delimiterKeyword : options.delimiterKeyword = none
  strict : options.strict = true
  keepTerminators : options.keepTerminators = true
  keepComments : options.keepComments = true
  keepEmptyStatements : options.keepEmptyStatements = false

namespace SplitOptions.KeepsSemicolons

variable {options : SplitOptions}

theorem toList_terminator (ho : options.KeepsSemicolons) : options.terminator.toList = [';'] := by
  rw [ho.terminator]
  rfl

theorem plain (ho : options.KeepsSemicolons) (script : List Char) :
    (start options script).Plain := by
  have hterminator : (start options script).terminator = [';'] := ho.toList_terminator
  refine ⟨?_, ho.delimiterKeyword, ?_, ?_⟩ <;> rw [hterminator]
  · decide
  · exact List.forall_mem_singleton.mpr (by decide)
  · decide

theorem valid (ho : options.KeepsSemicolons) : options.Valid := by
  refine ⟨(ho.plain []).isTerminator, ?_⟩
  rw [ho.delimiterKeyword]
  exact nofun

private theorem separates (ho : options.KeepsSemicolons) :
    Lexeme.Separates options.terminator.toList := by
  rw [ho.toList_terminator]
  exact ⟨by decide, by decide⟩

end SplitOptions.KeepsSemicolons

namespace Script

variable {options : SplitOptions}

/-! ### Single statements -/

/-- A text without blanks at its ends that is one statement up to its end. -/
structure IsStatement (options : SplitOptions) (body : List Char) : Prop where
  complete : (scan options body).ending = .complete
  whole : ∀ e ∈ (scan options body).events, e.isCut = false
  code : (scan options body).events.any Event.isCode = true
  trimmed : trim body = body

/-- Whether a text, read by itself, ends in a line comment. -/
def endsInLineComment (options : SplitOptions) (text : List Char) : Bool :=
  (scan options text).events.getLast?.any Event.isLineComment

/-- A statement with the semicolon that ended it. -/
def closed (body : List Char) : Statement where
  text := String.ofList (body ++ [';'])
  terminator := some ";"

/-- A statement that ended with its script. -/
def unclosed (body : List Char) : Statement := { text := String.ofList body }

theorem text_of_collect (hkeep : options.keepTerminators = true) {s t : Scanner} {es : List Event}
    (h : Walk s es t) (hs : s.Plain) {pending : List Char} {first : Statement}
    {statements : List Statement} (hcollect : collect options pending true es = first :: statements)
    (hterminator : first.terminator ≠ none) :
    ∃ x terminator, first.text = String.ofList (trim (pending.reverse ++ x) ++ terminator) ∧
      first.terminator = some (String.ofList terminator) := by
  induction h generalizing pending with
  | nil s =>
      rw [collect, Bool.true_or, if_pos rfl, close, Bool.true_or, if_pos rfl] at hcollect
      cases hcollect
      exact absurd rfl hterminator
  | @cons s u t e es step walk ih =>
      cases hkind : e.kind with
      | terminator =>
          simp only [collect, hkind, close, Bool.true_or, if_true, hkeep] at hcollect
          cases hcollect
          exact ⟨[], e.text, by rw [List.append_nil]; rfl, rfl⟩
      | delimiterChange delimiter =>
          have hnone := hs.delimiter?_of_step step
          rw [Event.delimiter?, hkind] at hnone
          cases hnone
      | _ =>
          simp only [collect, hkind, Bool.true_or] at hcollect
          obtain ⟨x, terminator, htext, hsome⟩ := ih (hs.of_step step) hcollect
          rw [List.reverse_append, List.reverse_reverse, List.append_assoc] at htext
          exact ⟨_, terminator, htext, hsome⟩

namespace IsStatement

variable {body : List Char} (h : IsStatement options body) (ho : options.KeepsSemicolons)

include h ho

theorem rest_final : (scan options body).final.rest = [] :=
  rest_of_scan_complete (SplitOptions.terminator_ne_empty ho.valid.1) h.complete

theorem concat_events : Event.concat (scan options body).events = body := by
  have hscript := (scan_walk options body).script_eq
  rwa [h.rest_final ho, List.append_nil, eq_comm] at hscript

theorem openBlocks_final : (scan options body).final.openBlocks = [] := by
  have hstops := scan_stops (SplitOptions.terminator_ne_empty ho.valid.1) body
  rw [h.complete] at hstops
  refine (ending?_eq_complete_iff.mp hstops).2 ?_
  rw [(scan_walk options body).options_eq]
  exact ho.strict

theorem collect_append (fs : List Event) :
    collect options [] false ((scan options body).events ++ fs) =
      collect options body.reverse true fs := by
  have hcollect := collect_append_of_whole ho.keepComments h.whole [] false fs
  rwa [Event.concat_nil, List.reverse_nil, List.nil_append, Bool.false_or, h.code,
    h.concat_events ho] at hcollect

theorem walk_to_semicolon (hline : endsInLineComment options body = false) (more : List Char) :
    ∃ t, Walk (start options (body ++ ';' :: more)) (scan options body).events t ∧
      t.rest = ';' :: more ∧ t.terminator = [';'] ∧ t.openBlocks = [] := by
  have hplain := ho.plain body
  have hwalk := (scan_walk options body).followedBy_semicolon more hplain ho.toList_terminator
    fun hlast => absurd (hline.symm.trans hlast) Bool.false_ne_true
  refine ⟨_, hwalk, ?_, ?_, h.openBlocks_final ho⟩
  · change (scan options body).final.rest ++ ';' :: more = _
    rw [h.rest_final ho, List.nil_append]
  · exact (hplain.terminator_of_walk (scan_walk options body)).trans ho.toList_terminator

/-- A scan in which the statement ends in a line comment takes the semicolon into the comment. -/
theorem walk_over_semicolon (hline : endsInLineComment options body = true) {more : List Char}
    (hmore : more = [] ∨ more.head? = some '\n') :
    ∃ es t, Walk (start options (body ++ ';' :: more)) es t ∧ t.rest = more ∧ t.Plain ∧
      t.openBlocks = [] ∧ (∀ e ∈ es, e.isCut = false) ∧ es.any Event.isCode = true ∧
      Event.concat es = body ++ [';'] ∧ es.getLast?.any Event.isLineComment = true := by
  have hplain := ho.plain body
  have hwalk := scan_walk options body
  have hwhole := h.whole
  have hcode := h.code
  have hconcat := h.concat_events ho
  have hend := h.rest_final ho
  have hblocks := h.openBlocks_final ho
  rw [endsInLineComment] at hline
  generalize (scan options body).events = es at *
  generalize (scan options body).final = u at *
  rcases List.eq_nil_or_concat es with rfl | ⟨init, e, rfl⟩
  · cases hline
  rw [List.concat_eq_append] at *
  rw [List.getLast?_concat, Option.any_some] at hline
  obtain ⟨v, hinit, hlast⟩ := hwalk.split
  cases hlast with
  | cons step walk =>
  cases walk
  have hkind : e.kind = .comment .line := of_decide_eq_true hline
  have hv := hplain.of_walk hinit
  have hvrest : v.rest ≠ [] := by
    rw [rest_of_step step]
    exact fun hnil => text_ne_nil_of_step hv.ne_nil step (List.append_eq_nil_iff.mp hnil).1
  have hbefore := hinit.followedBy_semicolon more hplain ho.toList_terminator fun _ => hvrest
  have hstep := step_followedBy_of_isLineComment more hv
    ((hplain.terminator_of_walk hinit).trans ho.toList_terminator) step hline hend hmore
  refine ⟨init ++ [{ e with text := e.text ++ [';'] }], _,
    hbefore.append (.cons hstep (.nil _)), ?_, (hv.followedBy _).of_step hstep, ?_, ?_, ?_, ?_, ?_⟩
  · have hbehind : v.rest ++ ';' :: more = (e.text ++ [';']) ++ more := by
      rw [rest_of_step step, hend, List.append_nil, List.append_assoc, List.singleton_append]
    change (v.rest ++ ';' :: more).drop (e.text ++ [';']).length = more
    rw [hbehind, List.drop_left]
  · rw [advance_of_step step] at hblocks
    simp only [advance, hkind] at hblocks ⊢
    exact hblocks
  · rw [List.forall_mem_append] at hwhole ⊢
    exact ⟨hwhole.1, List.forall_mem_singleton.mpr (by simp [Event.isCut, hkind])⟩
  · simpa [Event.isCode, hkind] using hcode
  · rw [Event.concat_append, Event.concat_cons, Event.concat_nil, List.append_nil] at hconcat ⊢
    rw [← List.append_assoc, hconcat]
  · rw [List.getLast?_concat]
    exact hline

/-! ### Statements that are joined -/

theorem close_semicolon :
    close options body.reverse true (some [';']) = [closed body] := by
  rw [close, Bool.true_or, if_pos rfl, if_pos ho.keepTerminators, List.reverse_reverse, h.trimmed]
  rfl

private theorem splitStatements_unclosed :
    splitStatements options (String.ofList body) = .ok [unclosed body] := by
  have hcollect := h.collect_append ho []
  rw [List.append_nil] at hcollect
  rw [splitStatements_eq ho.valid, String.toList_ofList, Scan.error?, h.complete, hcollect]
  simp only [collect, Bool.true_or, if_true, close, List.reverse_reverse, h.trimmed,
    Option.getD_none, ite_self, List.append_nil, Option.map_none]
  rfl

theorem scan_closed (hline : endsInLineComment options body = false) :
    ∃ e t, scan options (body ++ [';']) = ⟨(scan options body).events ++ [e], .complete, t⟩ ∧
      e.kind = .terminator ∧ e.text = [';'] := by
  obtain ⟨t, hwalk, hrest, hterminator, hblocks⟩ := h.walk_to_semicolon ho hline []
  have hplain := (ho.plain _).of_walk hwalk
  have hstep := step_of_semicolon [] hplain hterminator hblocks hrest
  refine ⟨_, _, scan_eq_of_walk (SplitOptions.terminator_ne_empty ho.valid.1)
    (hwalk.append (.cons hstep (.nil _))) ?_, rfl, rfl⟩
  refine ending?_eq_complete_iff.mpr ⟨?_, fun _ => hblocks⟩
  rw [advance, hrest]
  rfl

private theorem splitStatements_closed (hline : endsInLineComment options body = false) :
    splitStatements options (String.ofList (body ++ [';'])) = .ok [closed body] := by
  obtain ⟨e, t, hscan, hkind, htext⟩ := h.scan_closed ho hline
  rw [splitStatements_eq ho.valid, String.toList_ofList, hscan, Scan.error?]
  simp only [h.collect_append ho, collect, hkind, htext, h.close_semicolon ho,
    ho.keepEmptyStatements, Bool.false_and, Bool.or_false, Bool.false_eq_true, if_false,
    List.append_nil]

/-- A closed statement is the first of a script, and behind its line feed come the others. -/
theorem splitStatements_closed_lineFeed (hline : endsInLineComment options body = false)
    (following : List Char) (statements : List Statement) :
    splitStatements options (String.ofList (body ++ ';' :: '\n' :: following)) =
        .ok (closed body :: statements) ↔
      splitStatements options (String.ofList following) = .ok statements := by
  obtain ⟨t, hwalk, hrest, hterminator, hblocks⟩ :=
    h.walk_to_semicolon ho hline ('\n' :: following)
  have hsemicolon := ho.toList_terminator
  have hd : byteLength (body ++ [';', '\n']) + byteLength following =
      byteLength (body ++ ';' :: '\n' :: following) := by
    simp only [byteLength_append, byteLength]
    omega
  obtain ⟨e, fs, hkind, htext, hevents, hbehind, hending⟩ :=
    collect_of_walk_to_seam ho.keepEmptyStatements ho.separates hwalk (hsemicolon ▸ hrest)
      (hsemicolon ▸ hterminator) hblocks hd
  have hcollect : collect options [] false
      (scan options (body ++ ';' :: '\n' :: following)).events =
        closed body :: collect options [] false (scan options following).events := by
    rw [hevents, h.collect_append ho, collect, hkind]
    simp only [htext, hsemicolon, h.close_semicolon ho, List.singleton_append, hbehind]
  rw [splitStatements_eq ho.valid, splitStatements_eq ho.valid, String.toList_ofList,
    String.toList_ofList, Scan.error?, Scan.error?, hending, hcollect]
  cases (scan options following).ending <;> simp [Ending.moved]

theorem splitStatements_ne_of_endsInLineComment (hline : endsInLineComment options body = true)
    {more : List Char} (hmore : more = [] ∨ more.head? = some '\n') (statements : List Statement) :
    splitStatements options (String.ofList (body ++ ';' :: more)) ≠
      .ok (closed body :: statements) := by
  intro hok
  obtain ⟨-, hstatements⟩ := splitStatements_eq_ok hok
  rw [String.toList_ofList] at hstatements
  obtain ⟨es, t, hwalk, -, hplain, -, hwhole, hcode, hconcat, -⟩ :=
    h.walk_over_semicolon ho hline hmore
  obtain ⟨fs, hevents, hafter⟩ := hwalk.exists_append (scan_walk _ _)
    (scan_stops (SplitOptions.terminator_ne_empty ho.valid.1) _)
  have hcollect := collect_append_of_whole ho.keepComments hwhole [] false fs
  rw [Event.concat_nil, List.reverse_nil, List.nil_append, Bool.false_or, hcode, hconcat]
    at hcollect
  rw [hevents, hcollect] at hstatements
  obtain ⟨x, terminator, htext, hterminator⟩ :=
    text_of_collect ho.keepTerminators hafter hplain hstatements.symm nofun
  -- The text would be longer than it is.
  have hsame : body ++ [';'] = trim (body ++ [';'] ++ x) ++ [';'] := by
    have hterminator : terminator = [';'] := by
      rw [← String.toList_ofList (l := terminator), ← Option.some.inj hterminator]
      rfl
    rw [hterminator, List.reverse_reverse] at htext
    exact String.ofList_inj.mp htext
  have hfirm : Firm (body ++ [';']) := by
    refine ⟨?_, ';', body, rfl, by decide⟩
    cases hbody : body with
    | nil => exact ⟨';', [], rfl, by decide⟩
    | cons c rest =>
        refine ⟨c, rest ++ [';'], rfl, ?_⟩
        have hfirst := head?_trim body
        rwa [h.trimmed, hbody] at hfirst
  obtain ⟨pre, post, -, htrim⟩ := hfirm.within_trim [] x
  rw [List.nil_append] at htrim
  rw [htrim] at hsame
  have hlength := congrArg List.length hsame
  simp only [List.length_append, List.length_singleton] at hlength
  omega

private theorem endsInLineComment_closed :
    endsInLineComment options (body ++ [';']) = endsInLineComment options body := by
  cases hline : endsInLineComment options body with
  | false =>
      obtain ⟨e, t, hscan, hkind, -⟩ := h.scan_closed ho hline
      rw [endsInLineComment, hscan, List.getLast?_concat, Option.any_some, Event.isLineComment,
        hkind]
      rfl
  | true =>
      obtain ⟨es, t, hwalk, hrest, -, hblocks, -, -, -, hlast⟩ :=
        h.walk_over_semicolon ho hline (.inl rfl)
      have hscan := scan_eq_of_walk (SplitOptions.terminator_ne_empty ho.valid.1) hwalk
        (ending?_eq_complete_iff.mpr ⟨hrest, fun _ => hblocks⟩)
      rw [endsInLineComment, hscan]
      exact hlast

end IsStatement

/-! ### Statements of a script -/

/-- Statements one after another, of which only the last one may lack its semicolon. -/
inductive Separated (options : SplitOptions) : List Statement → Prop
  | nil : Separated options []
  | last {body : List Char} (statement : IsStatement options body) :
      Separated options [unclosed body]
  | cons {body : List Char} (statement : IsStatement options body) {rest : List Statement}
      (separated : Separated options rest) : Separated options (closed body :: rest)

theorem isStatement_of_walk {s v : Scanner} {pending : List Event} (hs : s.AtStart options)
    (h : Walk s pending v) (hwhole : ∀ e ∈ pending, e.isCut = false)
    (hend : v.rest = [] ∨ v.atTerminator = true) (hclosed : v.openBlocks = [])
    (hcode : pending.any Event.isCode = true) :
    IsStatement options (trim (Event.concat pending)) := by
  obtain ⟨es, b, hscan, hes, -, hsame⟩ := hs.scan_trim h hwhole hend fun _ => hclosed
  exact ⟨by rw [hscan], by rwa [hscan], by rw [hscan, hsame, hcode], trim_trim _⟩

section

variable (ho : options.KeepsSemicolons)

include ho

theorem separated_of_walk {s t : Scanner} {es : List Event} (h : Walk s es t)
    (ht : t.step.ending? = some .complete) {u : Scanner} {pending : List Event}
    (hu : u.AtStart options) (hpending : Walk u pending s)
    (hwhole : ∀ e ∈ pending, e.isCut = false) :
    Separated options
      (collect options (Event.concat pending).reverse (pending.any Event.isCode) es) := by
  induction h generalizing u pending with
  | nil s =>
      obtain ⟨hrest, hstrict⟩ := ending?_eq_complete_iff.mp ht
      rw [hpending.options_eq, hu.options] at hstrict
      rw [collect, ho.keepEmptyStatements, Bool.false_and, Bool.or_false]
      split
      · rename_i hcode
        rw [close, hcode, Bool.true_or, if_pos rfl, List.reverse_reverse]
        simp only [Option.getD_none, ite_self, List.append_nil, Option.map_none]
        exact .last (isStatement_of_walk hu hpending hwhole (.inl hrest) (hstrict ho.strict)
          hcode)
      · exact .nil
  | @cons s v t e es step walk ih =>
      have hs := hu.plain.of_walk hpending
      cases hcut : e.isCut with
      | false =>
          have hwhole' : ∀ f ∈ pending ++ [e], f.isCut = false :=
            List.forall_mem_append.mpr ⟨hwhole, List.forall_mem_singleton.mpr hcut⟩
          have hmore := ih ht hu (hpending.append (.cons step (.nil v))) hwhole'
          rw [List.any_append, List.any_cons, List.any_nil, Bool.or_false] at hmore
          rwa [collect_of_not_isCut ho.keepComments hcut]
      | true =>
          cases hkind : e.kind with
          | code | comment | literal | blockBegin | blockEnd => simp [Event.isCut, hkind] at hcut
          | delimiterChange delimiter =>
              have hnone := hs.delimiter?_of_step step
              rw [Event.delimiter?, hkind] at hnone
              cases hnone
          | terminator =>
              obtain ⟨c, cs, -, hlexed, -⟩ := step_eq_event step
              have hat : s.atTerminator = true := hlexed.kind_eq_terminator_iff.mp hkind
              have hterminator : s.terminator = options.terminator.toList :=
                (hu.plain.terminator_of_walk hpending).trans hu.terminator
              have htext : e.text = [';'] := by
                rw [(visible_of_step step hkind).2.1, hterminator, ho.toList_terminator]
              have hv : v.AtStart options :=
                .of_terminator hs (hpending.options_eq.trans hu.options) hterminator step hkind
              have hmore := ih ht hv (.nil v) fun _ hmem => absurd hmem List.not_mem_nil
              rw [Event.concat_nil, List.reverse_nil, List.any_nil] at hmore
              rw [collect, hkind, htext]
              cases hcode : pending.any Event.isCode with
              | false =>
                  rw [close, ho.keepEmptyStatements, Bool.or_false, if_neg Bool.false_ne_true,
                    List.nil_append]
                  exact hmore
              | true =>
                  have hstatement := isStatement_of_walk hu hpending hwhole (.inr hat)
                    (hs.atTerminator_iff.mp hat).1 hcode
                  rw [close, Bool.true_or, if_pos rfl, if_pos ho.keepTerminators,
                    List.reverse_reverse]
                  exact .cons hstatement hmore

theorem splitStatements_nil : splitStatements options "" = .ok [] := by
  have hcollect : collect options [] false [] = [] := by
    simp [collect]
  rw [splitStatements_eq ho.valid]
  exact congrArg Except.ok hcollect

/-- Separated statements are told again from their texts, unless a line comment takes a semicolon
in. -/
theorem splitStatements_intercalate_iff {statements : List Statement}
    (h : Separated options statements) :
    splitStatements options ("\n".intercalate (statements.map (·.text))) = .ok statements ↔
      ∀ s ∈ statements, s.terminator ≠ none →
        endsInLineComment options s.text.toList = false := by
  induction h with
  | nil =>
      rw [List.map_nil, String.intercalate_nil]
      exact iff_of_true (splitStatements_nil ho) fun _ hmem => absurd hmem List.not_mem_nil
  | last statement =>
      refine iff_of_true (statement.splitStatements_unclosed ho) fun s hmem hsome => ?_
      rw [List.mem_singleton.mp hmem] at hsome
      exact absurd rfl hsome
  | @cons body statement rest separated ih =>
      have hown : endsInLineComment options (closed body).text.toList =
          endsInLineComment options body := by
        rw [closed, String.toList_ofList, statement.endsInLineComment_closed ho]
      have hsome : (closed body).terminator ≠ none := nofun
      rw [List.forall_mem_cons, hown]
      obtain ⟨more, hmore, hjoined, hrest⟩ : ∃ more, (more = [] ∨ more.head? = some '\n') ∧
          "\n".intercalate ((closed body :: rest).map (·.text)) =
            String.ofList (body ++ ';' :: more) ∧
          (endsInLineComment options body = false →
            (splitStatements options (String.ofList (body ++ ';' :: more)) =
                .ok (closed body :: rest) ↔
              splitStatements options ("\n".intercalate (rest.map (·.text))) = .ok rest)) := by
        cases rest with
        | nil =>
            refine ⟨[], .inl rfl, rfl, fun hline => iff_of_true ?_ (splitStatements_nil ho)⟩
            exact statement.splitStatements_closed ho hline
        | cons second rest =>
            refine ⟨'\n' :: ("\n".intercalate ((second :: rest).map (·.text))).toList, .inr rfl,
              ?_, fun hline => ?_⟩
            · rw [List.map_cons, List.map_cons, String.intercalate_cons_cons, ← List.map_cons]
              exact String.toList_inj.mp (by simp [closed])
            · rw [statement.splitStatements_closed_lineFeed ho hline, String.ofList_toList]
      rw [hjoined]
      cases hline : endsInLineComment options body with
      | false => rw [hrest hline, ih]; simp
      | true =>
          have hne := statement.splitStatements_ne_of_endsInLineComment ho hline hmore rest
          exact iff_of_false hne fun h => Bool.false_ne_true (h.1 hsome).symm

/-- **Kept semicolons rebuild the script, except behind a line comment.** The statements of a
script, with their semicolons and a line feed between them, are split into the same statements with
the same terminators exactly when none of them that a semicolon ended is, with it, a text that ends
in a line comment. -/
theorem splitStatements_rejoined {script : String} {statements : List Statement}
    (h : splitStatements options script = .ok statements) :
    splitStatements options ("\n".intercalate (statements.map (·.text))) = .ok statements ↔
      ∀ s ∈ statements, s.terminator ≠ none →
        endsInLineComment options s.text.toList = false := by
  refine splitStatements_intercalate_iff ho ?_
  have hstops := scan_stops (SplitOptions.terminator_ne_empty ho.valid.1) script.toList
  rw [ending_of_splitStatements h] at hstops
  obtain ⟨-, rfl⟩ := splitStatements_eq_ok h
  exact separated_of_walk ho (scan_walk _ _) hstops (.start (ho.plain _)) (.nil _)
    fun _ hmem => absurd hmem List.not_mem_nil

end

/-- A line comment within a statement and one at the end of the script do no harm. -/
theorem splitStatements_rejoined_comments :
    let options : SplitOptions := { delimiterKeyword := none, keepTerminators := true }
    let statements : List Statement :=
      [closed "a --b\n'c;'".toList, closed "BEGIN d; END".toList, unclosed "e --;".toList]
    options.KeepsSemicolons ∧
    splitStatements options "a --b\n'c;' ;; BEGIN d; END; --f\n; e --;\n" = .ok statements ∧
    splitStatements options "a --b\n'c;';\nBEGIN d; END;\ne --;" = .ok statements := by
  intro options statements
  have ho : options.KeepsSemicolons := ⟨rfl, rfl, rfl, rfl, rfl, rfl⟩
  have hsplit : splitStatements { delimiterKeyword := none, keepTerminators := true }
      "a --b\n'c;' ;; BEGIN d; END; --f\n; e --;\n" =
    .ok [closed "a --b\n'c;'".toList, closed "BEGIN d; END".toList, unclosed "e --;".toList] := rfl
  refine ⟨ho, hsplit, (splitStatements_rejoined ho hsplit).mpr ?_⟩
  decide

/-- A semicolon behind a line comment is put back into the comment, and the next statement does not
come apart from it any more. -/
theorem splitStatements_rejoined_lineComment :
    let options : SplitOptions := { delimiterKeyword := none, keepTerminators := true }
    splitStatements options "SELECT 1 -- c\n; SELECT 2" =
      .ok [closed "SELECT 1 -- c".toList, unclosed "SELECT 2".toList] ∧
    "\n".intercalate [(closed "SELECT 1 -- c".toList).text, (unclosed "SELECT 2".toList).text] =
      "SELECT 1 -- c;\nSELECT 2" ∧
    splitStatements options "SELECT 1 -- c;\nSELECT 2" =
      .ok [unclosed "SELECT 1 -- c;\nSELECT 2".toList] := by
  refine ⟨rfl, ?_, rfl⟩
  decide

end Script

end SqlBatch
