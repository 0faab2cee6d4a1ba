import SqlBatch.Proofs.Script.Composition
import SqlBatch.Proofs.Script.Lexis

/-!
# A directive is as good as an option

A script that begins with a directive is split as the script after the directive is under options
that name its terminator from the start. The scanner takes the whole line of the directive as one
event. Behind it stands what a scanner sees at the start of a script, further on; and which
terminator the options name is never asked again once a scan is under way.
-/

namespace SqlBatch

open Text Scanner

/-- The same error further on in a script, by a number of bytes and of lines. -/
def SplitError.moved (bytes lines : Nat) : SplitError → SplitError
  | .unbalanced construct offset line => .unbalanced construct (offset + bytes) (line + lines)
  | other => other

theorem Scan.error?_moved {found found' : Scan} {before : List Char}
    (h : found.ending = found'.ending.moved (byteLength before)) (following : List Char) :
    found.error? (before ++ following) = (found'.error? following).map
      (SplitError.moved (byteLength before) (before.count '\n')) := by
  rw [error?, error?, h]
  cases found'.ending with
  | unbalanced construct offset =>
      show some (SplitError.unbalanced construct (offset + byteLength before)
        (lineAt (before ++ following) (offset + byteLength before))) = _
      rw [lineAt_append]
      rfl
  | complete | capped => rfl

/-! ### The line of a directive -/

private theorem Text.sameWord_self (cs : List Char) : sameWord cs cs = true := beq_self_eq_true _

namespace Lexeme

theorem directive?_line {delimiter : List Char}
    (h : SplitOptions.isTerminator delimiter = true) (following : List Char) :
    directive? (' ' :: (delimiter ++ '\n' :: following)) =
      some (delimiter, delimiter.length + 2) := by
  have hspace {c : Char} (hc : c ∈ delimiter) : isSpace c = false :=
    SplitOptions.not_isSpace_of_isTerminator h hc
  have hgap : (' ' :: (delimiter ++ '\n' :: following)).takeWhile
      (fun c => c == ' ' || c == '\t') = [' '] := by
    obtain ⟨d, ds, rfl⟩ := List.exists_cons_of_ne_nil (SplitOptions.ne_nil_of_isTerminator h)
    have hd := hspace List.mem_cons_self
    simp only [isSpace, Bool.or_eq_false_iff] at hd
    rw [List.takeWhile_cons_of_pos (by decide), List.cons_append,
      List.takeWhile_cons_of_neg (by simp [hd])]
  have hnamed : (delimiter ++ '\n' :: following).takeWhile (fun c => !isSpace c) = delimiter := by
    rw [List.takeWhile_append_of_pos fun c hc => by rw [hspace hc]; rfl,
      List.takeWhile_cons_of_neg (by decide), List.append_nil]
  have htail : ('\n' :: following).takeWhile (· ≠ '\n') = [] :=
    List.takeWhile_cons_of_neg (by decide)
  simp only [SplitOptions.isTerminator, Bool.and_eq_true, Bool.not_eq_true'] at h
  simp only [directive?, hgap, List.length_singleton, List.drop_one, List.tail_cons, hnamed,
    List.drop_left, lineLength, htail]
  simp [h.1, h.2]
  omega

end Lexeme

def directiveLine (keyword delimiter : List Char) : List Char :=
  keyword ++ ' ' :: (delimiter ++ ['\n'])

private theorem count_lineFeed_directiveLine {keyword delimiter : List Char}
    (hkeyword : SplitOptions.isKeyword keyword = true)
    (hdelimiter : SplitOptions.isTerminator delimiter = true) :
    (directiveLine keyword delimiter).count '\n' = 1 := by
  simp only [SplitOptions.isKeyword, Bool.and_eq_true, List.all_eq_true] at hkeyword
  have hfirst : keyword.count '\n' = 0 :=
    List.count_eq_zero.mpr fun h => absurd (hkeyword.2 _ h) (by decide)
  have hsecond : delimiter.count '\n' = 0 :=
    List.count_eq_zero.mpr fun h =>
      absurd (SplitOptions.not_isSpace_of_isTerminator hdelimiter h) (by decide)
  simp [directiveLine, List.count_append, hfirst, hsecond]

namespace Scanner

variable {options : SplitOptions} {keyword : String} {delimiter : List Char}

/-- At the start of a script a directive is taken with its whole line. -/
theorem step_of_directiveLine (hvalid : options.Valid)
    (hkeyword : options.delimiterKeyword = some keyword)
    (hword : options.terminator.toList.head?.any isWord = false)
    (hdelimiter : SplitOptions.isTerminator delimiter = true) (script : List Char) :
    let s := start options (directiveLine keyword.toList delimiter ++ script)
    let e : Event := ⟨.delimiterChange delimiter, 0, directiveLine keyword.toList delimiter⟩
    s.step = .event e (s.advance e) := by
  intro s e
  have hwords := hvalid.2 keyword hkeyword
  simp only [SplitOptions.isKeyword, Bool.and_eq_true, Bool.not_eq_true',
    List.isEmpty_eq_false_iff] at hwords
  obtain ⟨hne, hwords⟩ := hwords
  -- What the scanner finds: the keyword, and what the line names.
  have hrest : s.rest = keyword.toList ++ ' ' :: (delimiter ++ '\n' :: script) := by
    change directiveLine keyword.toList delimiter ++ script = _
    simp [directiveLine]
  have hfound : s.word = keyword.toList := by
    rw [Scanner.word, hrest, List.takeWhile_append_of_pos (List.all_eq_true.mp hwords),
      List.takeWhile_cons_of_neg (by decide), List.append_nil]
  have hafter : s.afterWord = ' ' :: (delimiter ++ '\n' :: script) := by
    rw [afterWord, hfound, hrest, List.drop_left]
  have hdirective : s.directive? s.word s.afterWord = some (delimiter, delimiter.length + 2) := by
    have hkeyword : s.options.delimiterKeyword = some keyword := hkeyword
    rw [hfound, hafter]
    simp only [directive?, hkeyword, sameWord_self, Lexeme.directive?_line hdelimiter]
    rfl
  have hlexeme : s.wordLexeme =
      (.delimiterChange delimiter, (directiveLine keyword.toList delimiter).length) := by
    rw [wordLexeme_eq, hdirective, hfound]
    simp [directiveLine]
  -- Nothing else could stand where a word starts.
  obtain ⟨c, cs, hcons⟩ := List.exists_cons_of_ne_nil hne
  have hc : isWord c = true := List.all_eq_true.mp hwords c (hcons ▸ List.mem_cons_self)
  have hapart : s.atTerminator = false := by
    rw [← Bool.not_eq_true]
    intro here
    obtain ⟨-, following, hfollowing⟩ := rest_of_atTerminator here
    obtain ⟨d, ds, hterminator⟩ :=
      List.exists_cons_of_ne_nil (SplitOptions.ne_nil_of_isTerminator hvalid.1)
    change s.rest = options.terminator.toList ++ following at hfollowing
    rw [hrest, hcons, hterminator] at hfollowing
    obtain ⟨rfl, -⟩ := List.cons.inj hfollowing
    rw [hterminator, List.head?_cons, Option.any_some, hc] at hword
    cases hword
  have hline : directiveLine keyword.toList delimiter =
      c :: (cs ++ ' ' :: (delimiter ++ ['\n'])) := by
    rw [directiveLine, hcons]
    rfl
  have hwhole : s.rest = c :: (cs ++ ' ' :: (delimiter ++ ['\n']) ++ script) := by
    rw [← List.cons_append, ← hline]
    rfl
  rw [show e = ⟨.delimiterChange delimiter, s.offset, c :: (cs ++ ' ' :: (delimiter ++ ['\n']))⟩
    from hline ▸ rfl]
  apply step_of_lexeme_append hwhole
  rw [lexeme_eq, hapart, if_neg Bool.false_ne_true,
    Lexeme.hidden?_eq_none_of_not_isOpener (Lexeme.not_isOpener_of_isWord hc), Option.getD_none,
    visibleLexeme, if_pos hc, hlexeme, hline, List.length_cons]

/-! ### Options that name another terminator -/

/-- The scanner under options that name another terminator to begin with. -/
def renamed (terminator : String) (s : Scanner) : Scanner :=
  { s with options := { s.options with terminator } }

private theorem ending?_renamed (terminator : String) (s : Scanner) :
    (s.renamed terminator).step.ending? = s.step.ending? := ending?_under rfl rfl

theorem Walk.renamed {s t : Scanner} {es : List Event} (h : Walk s es t) (terminator : String) :
    Walk (s.renamed terminator) es (t.renamed terminator) := by
  rw [Scanner.renamed, Scanner.renamed, h.options_eq]
  exact h.under rfl

end Scanner

theorem moved_of_directiveLine (options : SplitOptions) (keyword : List Char) (delimiter : String)
    (script : List Char) :
    let line := directiveLine keyword delimiter.toList
    Moved (byteLength line)
      ((start { options with terminator := delimiter } script).renamed options.terminator)
      ((start options (line ++ script)).advance ⟨.delimiterChange delimiter.toList, 0, line⟩) := by
  intro line
  have hbefore :
      ((start options (line ++ script)).advance
        ⟨.delimiterChange delimiter.toList, 0, line⟩).before =
      '\n' :: (delimiter.toList.reverse ++ ' ' :: keyword.reverse) := by
    simp [advance, start, line, directiveLine]
  constructor
  · rfl
  · exact List.drop_left
  · rfl
  · rfl
  · rfl
  · rfl
  · rw [previous, hbefore]
    rfl
  · rw [previous, hbefore]
    simp [previous, renamed, start]
  · rw [atLineStart, hbefore]
    rfl

/-- The scan behind a directive is the scan of what stands there, further on. -/
theorem scan_directiveLine {options : SplitOptions} {keyword delimiter : String}
    (hvalid : options.Valid) (hkeyword : options.delimiterKeyword = some keyword)
    (hword : options.terminator.toList.head?.any isWord = false)
    (hdelimiter : SplitOptions.isTerminator delimiter.toList = true) (script : List Char) :
    let line := directiveLine keyword.toList delimiter.toList
    let alone := scan { options with terminator := delimiter } script
    let whole := scan options (line ++ script)
    whole.events = ⟨.delimiterChange delimiter.toList, 0, line⟩ ::
        alone.events.map (Event.moved (byteLength line)) ∧
      whole.ending = alone.ending.moved (byteLength line) := by
  intro line alone whole
  have hstep := step_of_directiveLine hvalid hkeyword hword hdelimiter script
  have halone := (scan_walk { options with terminator := delimiter } script).renamed
    options.terminator
  obtain ⟨t, hwalk, ht⟩ :=
    (moved_of_directiveLine options keyword.toList delimiter script).walk halone
  have hne : ({ options with terminator := delimiter } : SplitOptions).terminator ≠ "" :=
    SplitOptions.terminator_ne_empty hdelimiter
  have hstops := scan_stops hne script
  rw [← ending?_renamed options.terminator] at hstops
  have hscan := scan_eq_of_walk (SplitOptions.terminator_ne_empty hvalid.1) (.cons hstep hwalk)
    (ht.ending?_eq hstops)
  exact ⟨congrArg Scan.events hscan, congrArg Scan.ending hscan⟩

namespace Script

variable {options : SplitOptions} {keyword delimiter : String}

/-- **A directive is as good as an option.** A script behind a directive that names a terminator is
split into the same statements as under options that name it from the start, each with the
terminator that ended it. What such a script leaves open is told at its place, which is further on
by the line of the directive. -/
theorem splitStatements_directiveLine (hvalid : options.Valid)
    (hkeyword : options.delimiterKeyword = some keyword)
    (hword : options.terminator.toList.head?.any isWord = false)
    (hdelimiter : SplitOptions.isTerminator delimiter.toList = true) (script : String) :
    let line := keyword ++ " " ++ delimiter ++ "\n"
    splitStatements options (line ++ script) =
      (splitStatements { options with terminator := delimiter } script).mapError
        (SplitError.moved (byteLength line.toList) 1) := by
  intro line
  have hline : line.toList = directiveLine keyword.toList delimiter.toList := by
    simp [line, directiveLine]
  have hfeeds := count_lineFeed_directiveLine (hvalid.2 keyword hkeyword) hdelimiter
  obtain ⟨hevents, hending⟩ := scan_directiveLine hvalid hkeyword hword hdelimiter script.toList
  rw [← hline, ← String.toList_append] at hevents hending
  rw [← hline] at hfeeds
  have hvalid' : ({ options with terminator := delimiter } : SplitOptions).Valid :=
    ⟨hdelimiter, hvalid.2⟩
  have hcollect (es : List Event) : collect { options with terminator := delimiter } [] false es =
      collect options [] false es := by
    apply collect_congr <;> rfl
  rw [splitStatements_eq hvalid, splitStatements_eq hvalid', hevents,
    collect_cons_of_delimiterChange rfl, collect_moved, ← hcollect]
  simp only [Scan.error?, hending]
  cases (scan { options with terminator := delimiter } script.toList).ending with
  | unbalanced construct offset =>
      simp only [Ending.moved, String.toList_append, lineAt_append]
      rw [hfeeds]
      rfl
  | complete | capped => rfl

/-- A script behind a directive may have a directive of its own, and may leave a string open. -/
theorem splitStatements_directiveLine_go :
    ({} : SplitOptions).Valid ∧ ({} : SplitOptions).delimiterKeyword = some "DELIMITER" ∧
    (";".toList.head?.any isWord) = false ∧ SplitOptions.isTerminator "GO".toList = true ∧
    splitStatements {} "DELIMITER GO\nx;y GO\nDELIMITER ;\nz;" =
      .ok [{ text := "x;y", terminator := some "GO" }, { text := "z", terminator := some ";" }] ∧
    splitStatements {} "DELIMITER GO\nx GO\n'y" =
      .error (.unbalanced .singleQuoted (5 + 13) (2 + 1)) := by
  have hvalid : ({} : SplitOptions).Valid := by decide
  have hword : (";".toList.head?.any isWord) = false := by decide
  have hdelimiter : SplitOptions.isTerminator "GO".toList = true := by decide
  refine ⟨hvalid, rfl, hword, hdelimiter, ?_, ?_⟩
  · exact splitStatements_directiveLine hvalid rfl hword hdelimiter "x;y GO\nDELIMITER ;\nz;"
  · exact splitStatements_directiveLine hvalid rfl hword hdelimiter "x GO\n'y"

end Script

end SqlBatch
