import Mathlib.Data.List.DropRight
import SqlBatch.Proofs.Script.Composition
import SqlBatch.Proofs.Script.Excerpt

/-!
# Splitting a statement again

A statement that is split by itself is one statement, and the same one. A scan of the script begins
the statement as it begins a script, outside any block and with no word before it that goes on. It
passes the blanks that are trimmed off, and from there on it is the scan of the statement.
-/

namespace SqlBatch

open Text Scanner

namespace Text

theorem trimStart_append {xs ys : List Char} (hxs : xs.all isBlank = true)
    (hys : ys.head?.any isBlank = false) : trimStart (xs ++ ys) = ys := by
  rw [trimStart, List.dropWhile_append_of_pos (List.all_eq_true.mp hxs)]
  cases ys with
  | nil => rfl
  | cons c ys => exact List.dropWhile_cons_of_neg (by simpa using hys)

private theorem getLast?_trimEnd (cs : List Char) : (trimEnd cs).getLast?.any isBlank = false := by
  have hfirst := List.head?_dropWhile_not isBlank cs.reverse
  rw [trimEnd, List.getLast?_reverse]
  cases hhead : (cs.reverse.dropWhile isBlank).head? with
  | none => rfl
  | some c => simpa [hhead] using hfirst

theorem head?_trim (cs : List Char) : (trim cs).head?.any isBlank = false := by
  have hstart := List.head?_dropWhile_not isBlank cs
  have hends := eq_append_trimEnd (trimStart cs)
  rw [trimStart] at hends
  cases htrim : trim cs with
  | nil => rfl
  | cons c rest =>
      rw [trim, trimStart] at htrim
      rw [hends, htrim] at hstart
      simpa using hstart

theorem trim_trim (cs : List Char) : trim (trim cs) = trim cs := by
  have hagain : trimStart ([] ++ trim cs) = trim cs := trimStart_append rfl (head?_trim cs)
  rw [List.nil_append] at hagain
  rw [trim, hagain, trim, trimEnd, trimEnd, List.reverse_reverse, List.dropWhile_idempotent]

end Text

namespace Scanner

variable {options : SplitOptions} {s t v : Scanner} {e : Event} {es : List Event}

theorem all_isBlank_of_step (hterminator : s.terminator ≠ []) (h : s.step = .event e t)
    (hcut : e.isCut = false) (hfirst : e.text.head?.any isBlank = true) :
    e.kind = .code ∧ e.text.all isBlank = true := by
  obtain ⟨c, text, htext, -, -, hshown⟩ := lexeme_of_not_isCut hterminator h hcut
  rw [htext, List.head?_cons, Option.any_some] at hfirst
  rw [Lexeme.hidden?_eq_none_of_not_isOpener (Lexeme.not_isOpener_of_isBlank hfirst)] at hshown
  rw [htext]
  rcases hshown with ⟨-, hvisible⟩ | hhidden
  · rw [visibleLexeme, not_isWord_of_isBlank hfirst, if_neg Bool.false_ne_true] at hvisible
    split at hvisible
    · obtain ⟨hkind, hlength⟩ := Prod.mk.inj hvisible
      have hspaces := take_length_takeWhile isSpace (c :: (text ++ t.rest))
      rw [hlength, List.take_succ_cons, List.take_left] at hspaces
      refine ⟨hkind.symm, all_isBlank_of_all_isSpace ?_⟩
      rw [hspaces]
      exact List.all_takeWhile
    · obtain ⟨hkind, hlength⟩ := Prod.mk.inj hvisible
      obtain rfl : text = [] := List.length_eq_zero_iff.mp (Nat.succ.inj hlength).symm
      exact ⟨hkind.symm, by simp [hfirst]⟩
  · cases hhidden

/-- A statement begins at the place as one does at the start of a script: outside any block, and
with no word or name before it that goes on. -/
structure AtStart (options : SplitOptions) (s : Scanner) : Prop where
  plain : s.Plain
  terminator : s.terminator = options.terminator.toList
  options : s.options = options
  openBlocks : s.openBlocks = []
  word : s.previous.any isWord = false
  dot : s.previous ≠ some '.'

namespace AtStart

theorem start {script : List Char} (hplain : (start options script).Plain) :
    (start options script).AtStart options :=
  ⟨hplain, rfl, rfl, rfl, rfl, nofun⟩

theorem of_terminator (hs : s.Plain) (hoptions : s.options = options)
    (hterminator : s.terminator = options.terminator.toList) (h : s.step = .event e t)
    (hkind : e.kind = .terminator) : t.AtStart options := by
  obtain ⟨houtside, htext, -⟩ := visible_of_step h hkind
  have hprevious := previous_of_step hs.ne_nil h
  rw [htext] at hprevious
  refine ⟨hs.of_step h, (hs.terminator_of_step h).trans hterminator, ?_, ?_, ?_, ?_⟩
  · rw [advance_of_step h]
    exact hoptions
  · rw [advance_of_step h, advance, hkind]
    exact houtside
  · rw [hprevious, Option.any_eq_false_iff_get]
    exact fun hsome => hs.wordless _ (List.mem_of_mem_getLast? (Option.get_mem hsome))
  · rw [hprevious]
    exact hs.undotted

private theorem of_blanks (hs : s.AtStart options) (h : s.step = .event e t)
    (hkind : e.kind = .code) (hblanks : e.text.all isBlank = true) : t.AtStart options := by
  have hprevious := previous_of_step hs.plain.ne_nil h
  have hlast : ∀ c ∈ t.previous, isBlank c = true := fun c hc =>
    List.all_eq_true.mp hblanks c (List.mem_of_mem_getLast? (hprevious ▸ hc))
  refine ⟨hs.plain.of_step h, (hs.plain.terminator_of_step h).trans hs.terminator, ?_, ?_, ?_, ?_⟩
  · rw [advance_of_step h]
    exact hs.options
  · rw [advance_of_step h, advance, hkind]
    exact hs.openBlocks
  · rw [Option.any_eq_false_iff_get]
    exact fun hsome => not_isWord_of_isBlank (hlast _ (Option.get_mem hsome))
  · intro hdot
    have hblank := hlast '.' hdot
    revert hblank
    decide

theorem skip (hs : s.AtStart options) (h : Walk s es v) (hwhole : ∀ e ∈ es, e.isCut = false) :
    ∃ lead fs t, es = lead ++ fs ∧ Walk s lead t ∧ t.AtStart options ∧ Walk t fs v ∧
      (Event.concat lead).all isBlank = true ∧ (Event.concat fs).head?.any isBlank = false := by
  induction h with
  | nil s => exact ⟨[], [], s, rfl, .nil s, hs, .nil s, rfl, rfl⟩
  | @cons s u v e es step walk ih =>
      obtain ⟨hcut, hrest⟩ := List.forall_mem_cons.mp hwhole
      cases hfirst : e.text.head?.any isBlank with
      | false =>
          refine ⟨[], e :: es, s, rfl, .nil s, hs, .cons step walk, rfl, ?_⟩
          obtain ⟨c, text, htext⟩ :=
            List.exists_cons_of_ne_nil (text_ne_nil_of_step hs.plain.ne_nil step)
          rw [Event.concat_cons, htext]
          rwa [htext] at hfirst
      | true =>
          obtain ⟨hkind, hblanks⟩ := all_isBlank_of_step hs.plain.ne_nil step hcut hfirst
          obtain ⟨lead, fs, t, rfl, hlead, ht, hfs, hall, hhead⟩ :=
            ih (hs.of_blanks step hkind hblanks) hrest
          refine ⟨e :: lead, fs, t, rfl, .cons step hlead, ht, hfs, ?_, hhead⟩
          rw [Event.concat_cons, List.all_append, hblanks, hall]
          rfl

theorem excerpt (hs : s.AtStart options) {cs more : List Char} (hrest : s.rest = cs ++ more) :
    Excerpt more s (Scanner.start options cs) where
  options := hs.options.symm
  terminator := hs.terminator.symm
  rest := hrest
  depth := by rw [depth, depth, hs.openBlocks]; rfl
  word := hs.word.symm
  dot := iff_of_false nofun hs.dot

/-- The scan of the text of a statement finds no cut in it, and code where the scan of the script
found some. -/
theorem scan_trim (hs : s.AtStart options) (h : Walk s es v) (hwhole : ∀ e ∈ es, e.isCut = false)
    (hend : v.rest = [] ∨ v.atTerminator = true)
    (hclosed : options.strict = true → v.openBlocks = []) :
    ∃ es' b, scan options (trim (Event.concat es)) = ⟨es', .complete, b⟩ ∧
      (∀ e ∈ es', e.isCut = false) ∧ Event.concat es' = trim (Event.concat es) ∧
      es'.any Event.isCode = es.any Event.isCode := by
  have hne : options.terminator ≠ "" :=
    SplitOptions.terminator_ne_empty (hs.terminator ▸ hs.plain.isTerminator)
  obtain ⟨lead, fs, t, rfl, hlead, ht, hfs, hblank, hfirst⟩ := hs.skip h hwhole
  -- The first event behind the leading blanks begins the text, and blanks that follow the text are
  -- a part of the last events.
  have htext : trim (Event.concat (lead ++ fs)) = trimEnd (Event.concat fs) := by
    rw [Event.concat_append, trim, trimStart_append hblank hfirst]
  have hblanks : ((Event.concat fs).reverse.takeWhile isBlank).reverse.all isBlank = true := by
    rw [List.all_reverse]
    exact List.all_takeWhile
  have hrest := hfs.rest_eq
  rw [eq_append_trimEnd (Event.concat fs), List.append_assoc] at hrest
  obtain ⟨es', b, hwalk, hb, hdepth, hwhole', hcode⟩ :=
    Excerpt.walk hfs ht.plain (List.forall_mem_append.mp hwhole).2 hend hblanks (ht.excerpt hrest)
      (getLast?_trimEnd _)
  have hcomplete : b.step.ending? = some .complete := by
    refine ending?_eq_complete_iff.mpr ⟨hb, fun hstrict => ?_⟩
    rw [hwalk.options_eq] at hstrict
    rw [depth, depth, hclosed hstrict] at hdepth
    exact List.length_eq_zero_iff.mp (Nat.le_zero.mp hdepth)
  rw [htext]
  refine ⟨es', b, scan_eq_of_walk hne hwalk hcomplete, hwhole', ?_, ?_⟩
  · have hscript := hwalk.script_eq
    rw [hb, List.append_nil] at hscript
    exact hscript.symm
  · rw [hcode, List.any_append, hlead.not_isCode_of_isBlank hblank, Bool.false_or]

end AtStart

end Scanner

namespace Script

variable {options : SplitOptions}

theorem collect_append_of_whole (hcomments : options.keepComments = true) {es : List Event}
    (hes : ∀ e ∈ es, e.isCut = false) (pending : List Event) (hasCode : Bool) (fs : List Event) :
    collect options (Event.concat pending).reverse hasCode (es ++ fs) =
      collect options (Event.concat (pending ++ es)).reverse (hasCode || es.any Event.isCode)
        fs := by
  rw [collect_append_of_not_isCut hes, flatMap_kept hcomments hes, Event.concat_append,
    List.reverse_append]

/-! ### Statements split again -/

section

variable (hvalid : options.Valid) (hcomments : options.keepComments = true)
  (hterminators : options.keepTerminators = false) (hempty : options.keepEmptyStatements = false)

include hvalid hcomments hterminators hempty

theorem split_of_mem_close {s v : Scanner} {pending : List Event} (hs : s.AtStart options)
    (h : Walk s pending v) (hwhole : ∀ e ∈ pending, e.isCut = false)
    (hend : v.rest = [] ∨ v.atTerminator = true)
    (hclosed : options.strict = true → v.openBlocks = []) (terminator : Option (List Char)) :
    ∀ statement ∈ close options (Event.concat pending).reverse (pending.any Event.isCode)
      terminator, split options statement.text = .ok [statement.text] := by
  intro statement hmem
  rw [close_eq hterminators, hempty, Bool.or_false] at hmem
  split at hmem
  · rename_i hcode
    obtain rfl := List.mem_singleton.mp hmem
    obtain ⟨es, b, hscan, hes, hconcat, hsame⟩ := hs.scan_trim h hwhole hend hclosed
    have hcollect := collect_append_of_whole hcomments hes [] false []
    rw [List.append_nil, Event.concat_nil, List.reverse_nil, List.nil_append, Bool.false_or, hsame,
      hcode, hconcat] at hcollect
    rw [split_eq hvalid, statementOf, String.toList_ofList, hscan]
    simp only [Scan.error?]
    rw [hcollect, text_collect_nil hempty hterminators, if_pos rfl, List.reverse_reverse, trim_trim]
  · cases hmem

/-- Each statement that is collected on a walk to the end of a script is the only one of its own
text. -/
theorem split_of_mem_collect {s t : Scanner} {es : List Event} (h : Walk s es t)
    (ht : t.step.ending? = some .complete) {u : Scanner} {pending : List Event}
    (hu : u.AtStart options) (hpending : Walk u pending s)
    (hwhole : ∀ e ∈ pending, e.isCut = false) :
    ∀ statement ∈ collect options (Event.concat pending).reverse (pending.any Event.isCode) es,
      split options statement.text = .ok [statement.text] := by
  -- The walk goes on to the end of the script; what the statement has so far is the walk up to it.
  induction h generalizing u pending with
  | nil s =>
      intro statement hmem
      obtain ⟨hrest, hstrict⟩ := ending?_eq_complete_iff.mp ht
      rw [hpending.options_eq, hu.options] at hstrict
      rw [collect] at hmem
      split at hmem
      · exact split_of_mem_close hvalid hcomments hterminators hempty hu hpending hwhole
          (.inl hrest) hstrict none statement hmem
      · cases hmem
  | @cons s v t e es step walk ih =>
      have hs := hu.plain.of_walk hpending
      cases hcut : e.isCut with
      | false =>
          have hwhole' : ∀ f ∈ pending ++ [e], f.isCut = false :=
            List.forall_mem_append.mpr ⟨hwhole, List.forall_mem_singleton.mpr hcut⟩
          have hmore := ih ht hu (hpending.append (.cons step (.nil v))) hwhole'
          rw [List.any_append, List.any_cons, List.any_nil, Bool.or_false] at hmore
          rwa [collect_of_not_isCut hcomments hcut]
      | true =>
          cases hkind : e.kind with
          | code | comment | literal | blockBegin | blockEnd => simp [Event.isCut, hkind] at hcut
          | delimiterChange delimiter =>
              have hnone := hs.delimiter?_of_step step
              rw [Event.delimiter?, hkind] at hnone
              cases hnone
          | terminator =>
              obtain ⟨c, cs, -, hlexed, -⟩ := step_eq_event step
              have hat : s.atTerminator = true := hlexed.kind_eq_terminator_iff.mp hkind
              have hv : v.AtStart options :=
                .of_terminator hs (hpending.options_eq.trans hu.options)
                  ((hu.plain.terminator_of_walk hpending).trans hu.terminator) step hkind
              have hmore := ih ht hv (.nil v) fun _ hmem => absurd hmem List.not_mem_nil
              rw [collect, hkind]
              intro statement hmem
              rcases List.mem_append.mp hmem with hmem | hmem
              · exact split_of_mem_close hvalid hcomments hterminators hempty hu hpending hwhole
                  (.inr hat) (fun _ => (hs.atTerminator_iff.mp hat).1) _ statement hmem
              · exact hmore statement hmem

end

/-- **Splitting is idempotent, statement by statement.** Each statement of a script, comments
included, is the only statement of its own text, under the same options. This is so where no
directive changes the terminator, and where the terminator looks neither like a part of a word nor
like the dot before the last part of a name. -/
theorem split_idempotent (hvalid : options.Valid) (hkeyword : options.delimiterKeyword = none)
    (hcomments : options.keepComments = true) (hterminators : options.keepTerminators = false)
    (hempty : options.keepEmptyStatements = false)
    (hword : ∀ c ∈ options.terminator.toList, isWord c = false)
    (hdot : options.terminator.toList.getLast? ≠ some '.') {script : String} {texts : List String}
    (h : split options script = .ok texts) :
    ∀ text ∈ texts, split options text = .ok [text] := by
  have hplain : (start options script.toList).Plain := ⟨hvalid.1, hkeyword, hword, hdot⟩
  rw [split] at h
  cases hsplit : splitStatements options script with
  | error e =>
      rw [hsplit] at h
      cases h
  | ok statements =>
      rw [hsplit] at h
      cases h
      have hstops := scan_stops (SplitOptions.terminator_ne_empty hvalid.1) script.toList
      rw [ending_of_splitStatements hsplit] at hstops
      obtain ⟨-, rfl⟩ := splitStatements_eq_ok hsplit
      intro text hmem
      obtain ⟨statement, hstatement, rfl⟩ := List.mem_map.mp hmem
      exact split_of_mem_collect hvalid hcomments hterminators hempty (scan_walk _ _) hstops
        (.start hplain) (.nil _) (fun _ hmem => absurd hmem List.not_mem_nil) statement hstatement

/-- A comment without the blanks at its end is the same comment, and a block that is left open at
the end of a script is left open in its statement. -/
theorem split_idempotent_open_block :
    let options : SplitOptions := { delimiterKeyword := none, strict := false }
    options.Valid ∧ (∀ c ∈ options.terminator.toList, isWord c = false) ∧
    options.terminator.toList.getLast? ≠ some '.' ∧
    split options "c --d; \n; BEGIN x; CASE y END; z" = .ok ["c --d;", "BEGIN x; CASE y END; z"] ∧
    split options "c --d;" = .ok ["c --d;"] ∧
    split options "BEGIN x; CASE y END; z" = .ok ["BEGIN x; CASE y END; z"] := by
  intro options
  have hvalid : options.Valid := by decide
  have hterminator : options.terminator.toList = [';'] := by decide
  have hword : ∀ c ∈ options.terminator.toList, isWord c = false := by
    rw [hterminator]
    exact List.forall_mem_singleton.mpr (by decide)
  have hdot : options.terminator.toList.getLast? ≠ some '.' := by decide
  have hsplit : split { delimiterKeyword := none, strict := false }
    "c --d; \n; BEGIN x; CASE y END; z" = .ok ["c --d;", "BEGIN x; CASE y END; z"] := rfl
  have hagain := split_idempotent hvalid rfl rfl rfl rfl hword hdot hsplit
  exact ⟨hvalid, hword, hdot, hsplit, hagain _ List.mem_cons_self,
    hagain _ (List.mem_cons_of_mem _ List.mem_cons_self)⟩

end Script

end SqlBatch
