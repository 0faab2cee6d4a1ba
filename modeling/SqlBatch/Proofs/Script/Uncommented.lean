import SqlBatch.Proofs.Script.Blanked

/-!
# Scripts without their comments

Comments do not tell where statements end, as long as no word is misled by them. With a space in the
place of each comment a script has the same statements, or leaves the same construct open.

A scan of the script without comments takes all the spaces around a comment at once, where a scan of
the script takes them one after another. So it stays behind by a run of spaces and catches up where
something else comes.
-/

namespace SqlBatch

open Text Scanner

namespace Scanner

/-! ### Spaces still to come -/

def passing (s : Scanner) (run : List Char) : Scanner :=
  { s with
    before := run.reverse ++ s.before
    rest := s.rest.drop run.length
    offset := s.offset + byteLength run }

variable {s t a : Scanner} {e : Event} {run following : List Char}

theorem rest_passing (hrest : a.rest = run ++ following) : (a.passing run).rest = following := by
  rw [passing, hrest]
  exact List.drop_left

theorem advance_of_isSpaces (he : e.isSpaces = true) (s : Scanner) :
    s.advance e = s.passing e.text := by
  obtain ⟨hkind, hspaces⟩ := Bool.and_eq_true_iff.mp he
  rw [decide_eq_true_eq] at hkind
  have hcode : e.isCode = false := by
    rw [Event.isCode, hkind]
    simp [all_isBlank_of_all_isSpace hspaces]
  simp only [advance, passing, hkind, hcode, Bool.or_false]

theorem passing_nil (s : Scanner) : s.passing [] = s := rfl

private theorem passing_passing (run more : List Char) :
    (a.passing run).passing more = a.passing (run ++ more) := by
  simp only [passing, List.reverse_append, List.append_assoc, List.drop_drop, List.length_append,
    byteLength_append, Nat.add_assoc]

theorem walk_passing (ha : SplitOptions.isTerminator a.terminator = true)
    (hrun : run.all isSpace = true) (hrest : a.rest = run ++ following)
    (hfollowing : ∀ c ∈ following.head?, isSpace c = false) :
    ∃ lead, Walk a lead (a.passing run) ∧ lead.all Event.isSpaces = true ∧
      Event.concat lead = run := by
  cases run with
  | nil => exact ⟨[], .nil a, rfl, rfl⟩
  | cons c cs =>
      rw [List.all_cons, Bool.and_eq_true] at hrun
      have hhead : following.head?.any isSpace = false := by
        rw [Option.any_eq_false]
        simpa using hfollowing
      have hcons : a.rest = c :: (cs ++ following) := hrest
      have htake : (c :: (cs ++ following)).takeWhile isSpace = c :: cs := by
        rw [← List.cons_append, takeWhile_append_of_head? hhead, List.takeWhile_eq_self_iff]
        exact List.forall_mem_cons.mpr ⟨hrun.1, List.all_eq_true.mp hrun.2⟩
      have hevent : a.event .code (c :: cs).length = ⟨.code, a.offset, c :: cs⟩ := by
        rw [event, hrest, List.take_left]
      have hspaces : Event.isSpaces ⟨.code, a.offset, c :: cs⟩ = true := by
        rw [Event.isSpaces, List.all_cons, hrun.1, hrun.2]
        rfl
      have hstep := step_of_isSpace ha hcons hrun.1
      rw [htake, hevent, advance_of_isSpaces hspaces] at hstep
      exact ⟨_, .cons hstep (.nil _), by rw [List.all_cons, hspaces]; rfl, List.append_nil _⟩

end Scanner

namespace Script

variable {options : SplitOptions}

private theorem collect_cons_of_isSpaces_blanked (hcomments : options.keepComments = false)
    {e : Event} (he : e.blanked.isSpaces = true) (pending : List Char) (hasCode : Bool)
    (es : List Event) :
    collect options pending hasCode (e :: es) =
      collect options (e.blanked.text.reverse ++ pending) hasCode es := by
  cases hcomment : e.isComment with
  | false =>
      rw [Event.blanked_eq hcomment] at he ⊢
      exact collect_cons_of_isSpaces he pending hasCode es
  | true =>
      obtain ⟨kind, start, text⟩ := e
      cases kind with
      | comment style =>
          rw [collect]
          simp [kept, hcomments, Event.isCode, Event.blanked]
      | _ => cases hcomment

private theorem collect_cons_congr {es es' : List Event}
    (h : ∀ pending hasCode,
      collect options pending hasCode es' = collect options pending hasCode es)
    (e : Event) (start : Nat) (pending : List Char) (hasCode : Bool) :
    collect options pending hasCode ({ e with start } :: es') =
      collect options pending hasCode (e :: es) := by
  obtain ⟨kind, start', text⟩ := e
  cases kind with
  | terminator =>
      change close options pending hasCode (some text) ++ collect options [] false es' = _
      rw [h]
      rfl
  | delimiterChange => exact h _ _
  | _ => exact h _ _

end Script

namespace Scanner

/-- Whether on a walk each word that looks around is the same piece in a script without comments,
given the scanner at the same place there. -/
def undisturbed : Scanner → Scanner → List Event → Bool
  | _, _, [] => true
  | s, b, e :: es =>
    (!s.looksAround || s.atTerminator || decide (b.wordLexeme = s.wordLexeme)) &&
      undisturbed (s.advance e) (b.advance e.blanked) es

variable {s t b : Scanner} {e : Event}

private theorem undisturbed_of_off (hblocks : s.options.blocks = false)
    (hkeyword : s.options.delimiterKeyword = none) (b : Scanner) (es : List Event) :
    undisturbed s b es = true := by
  induction es generalizing s b with
  | nil => rfl
  | cons e es ih =>
      have hplain : s.looksAround = false := by simp [looksAround, hblocks, hkeyword]
      have hmore : (s.advance e).undisturbed (b.advance e.blanked) es = true :=
        ih (s := s.advance e) hblocks hkeyword _
      rw [undisturbed, hplain, hmore]
      rfl

theorem shown_of_step (hs : SplitOptions.isTerminator s.terminator = true)
    (h : s.step = .event e t) (hblank : e.blanked.isSpaces = false) :
    e.isComment = false ∧ ∀ cs, ∀ d ∈ (e.text ++ cs).head?, isSpace d = false := by
  have hcomment : e.isComment = false := by
    rw [← Bool.not_eq_true]
    intro hcomment
    rw [Event.isSpaces_blanked hcomment] at hblank
    cases hblank
  obtain ⟨c, text, htext⟩ :=
    List.exists_cons_of_ne_nil (text_ne_nil_of_step (SplitOptions.ne_nil_of_isTerminator hs) h)
  refine ⟨hcomment, fun cs d hd => ?_⟩
  rw [htext, List.cons_append, List.head?_cons, Option.mem_some_iff] at hd
  subst hd
  rw [← Bool.not_eq_true]
  intro hspace
  rw [Event.blanked_eq hcomment, isSpaces_of_step hs h (by rw [htext]; rfl) hspace] at hblank
  cases hblank

private theorem Abreast.wordLexeme_eq_of_undisturbed (h : Abreast s b) {es : List Event}
    (hundisturbed : undisturbed s b (e :: es) = true) (hblanked : Blanked b.rest s.rest)
    (hshown : ∀ c ∈ s.rest.head?, isSpace c = false) (hne : s.rest ≠ [])
    (hat : s.atTerminator = false) : b.wordLexeme = s.wordLexeme := by
  rw [undisturbed, Bool.and_eq_true] at hundisturbed
  cases hlooks : s.looksAround with
  | true => simpa [hlooks, hat] using hundisturbed.1
  | false =>
      obtain ⟨c, cs, hcs⟩ := List.exists_cons_of_ne_nil hne
      have hc : c ∈ s.rest.head? := by rw [hcs]; rfl
      exact h.wordLexeme_eq hblanked.takeWhile_isWord (h.dot c hc (hshown c hc)) hlooks

/-- Where something else than spaces comes, a scanner that is a run of spaces behind catches up and
takes the same step. -/
theorem Abreast.catchUp {a : Scanner} {run : List Char} {es : List Event} {u : Scanner}
    (h : Abreast s (a.passing run)) (hs : SplitOptions.isTerminator s.terminator = true)
    (hstep : s.step = .event e t) (hwalk : Walk t es u) (hblank : e.blanked.isSpaces = false)
    (hrun : run.all isSpace = true)
    (hrest : a.rest = run ++ (e.text ++ (Event.concat (es.map Event.blanked) ++ u.rest)))
    (hundisturbed : undisturbed s (a.passing run) (e :: es) = true) :
    ∃ lead start, Walk a (lead ++ [{ e with start }]) ((a.passing run).advance e) ∧
      lead.all Event.isSpaces = true ∧ Event.concat lead = run := by
  obtain ⟨hcomment, hshown⟩ := shown_of_step hs hstep hblank
  have hfirst : ∀ d ∈ s.rest.head?, isSpace d = false := by
    rw [rest_of_step hstep]
    exact hshown t.rest
  have hne : s.rest ≠ [] := by
    obtain ⟨c, cs, hcs, -⟩ := step_eq_event hstep
    rw [hcs]
    exact List.cons_ne_nil c cs
  have hblanked : Blanked (a.passing run).rest s.rest := by
    rw [rest_passing hrest, rest_of_step hstep]
    exact hwalk.blanked.append e.text
  obtain ⟨lead, hlead, hspaces, hconcat⟩ :=
    walk_passing (h.terminator ▸ hs) hrun hrest (hshown _)
  have hsame := h.step hs hstep hcomment hfirst hwalk.blanked (rest_passing hrest)
    (h.wordLexeme_eq_of_undisturbed hundisturbed hblanked hfirst hne)
  exact ⟨lead, _, hlead.append (.cons hsame (.nil _)), hspaces, hconcat⟩

/-- A scanner that is a run of spaces behind, in a script without comments, comes to the same
statements and the same end. -/
theorem Walk.uncommented {options : SplitOptions} (hcomments : options.keepComments = false)
    {es : List Event} (h : Walk s es t) (hs : SplitOptions.isTerminator s.terminator = true)
    {ending : Ending} (ht : t.step.ending? = some ending) {a : Scanner} {run : List Char}
    (hrun : run.all isSpace = true)
    (hrest : a.rest = run ++ (Event.concat (es.map Event.blanked) ++ t.rest))
    (habreast : Abreast s (a.passing run))
    (hundisturbed : undisturbed s (a.passing run) es = true) :
    ∃ es' b ending', Walk a es' b ∧ b.step.ending? = some ending' ∧
      ending'.construct? = ending.construct? ∧ ∀ pending hasCode,
        Script.collect options pending hasCode es' =
          Script.collect options (run.reverse ++ pending) hasCode es := by
  induction h generalizing a run with
  | nil s =>
      have hplain : ∀ c ∈ s.rest.head?, isSpace c = false := by
        intro c hc
        obtain ⟨cs, hcs⟩ := List.head?_eq_some_iff.mp hc
        rw [← Bool.not_eq_true]
        intro hspace
        rw [step_of_isSpace hs hcs hspace] at ht
        cases ht
      obtain ⟨lead, hlead, hspaces, hconcat⟩ :=
        walk_passing (habreast.terminator ▸ hs) hrun hrest hplain
      obtain ⟨ending', hending, hconstruct⟩ := habreast.ending? hs (rest_passing hrest) ht
      refine ⟨lead, _, ending', hlead, hending, hconstruct, fun pending hasCode => ?_⟩
      rw [← List.append_nil lead, Script.collect_append_of_isSpaces hspaces, hconcat]
  | @cons s u t e es step walk ih =>
      rw [List.map_cons, Event.concat_cons, List.append_assoc] at hrest
      have hu := isTerminator_of_step hs step
      have hafter := habreast.advance (SplitOptions.ne_nil_of_isTerminator hs) step
      have hlater : undisturbed u ((a.passing run).advance e.blanked) es = true := by
        rw [advance_of_step step]
        exact (Bool.and_eq_true_iff.mp hundisturbed).2
      cases hblank : e.blanked.isSpaces with
      | true =>
          -- The run goes on.
          rw [advance_of_isSpaces hblank, passing_passing] at hlater hafter
          rw [← List.append_assoc] at hrest
          have hlonger : (run ++ e.blanked.text).all isSpace = true := by
            rw [List.all_append, hrun]
            exact (Bool.and_eq_true_iff.mp hblank).2
          obtain ⟨es', b, ending', hwalk, hending, hconstruct, hcollect⟩ :=
            ih hu ht hlonger hrest hafter hlater
          refine ⟨es', b, ending', hwalk, hending, hconstruct, fun pending hasCode => ?_⟩
          rw [hcollect, Script.collect_cons_of_isSpaces_blanked hcomments hblank,
            List.reverse_append, List.append_assoc]
      | false =>
          rw [Event.blanked_eq (shown_of_step hs step hblank).1] at hrest hlater hafter
          obtain ⟨lead, start, hfirst, hspaces, hconcat⟩ :=
            habreast.catchUp hs step walk hblank hrun hrest hundisturbed
          have hleft : ((a.passing run).advance e).rest =
              [] ++ (Event.concat (es.map Event.blanked) ++ t.rest) := by
            rw [Scanner.advance, rest_passing hrest]
            exact List.drop_left
          rw [← passing_nil ((a.passing run).advance e)] at hlater hafter
          obtain ⟨es', b, ending', hwalk, hending, hconstruct, hcollect⟩ :=
            ih hu ht rfl hleft hafter hlater
          refine ⟨_, b, ending', hfirst.append hwalk, hending, hconstruct,
            fun pending hasCode => ?_⟩
          rw [List.append_assoc, List.singleton_append, Script.collect_append_of_isSpaces hspaces,
            hconcat]
          exact Script.collect_cons_congr hcollect e start _ _

private theorem abreast_start (options : SplitOptions) (script script' : List Char) :
    Abreast (start options script) ((start options script').passing []) :=
  ⟨rfl, rfl, rfl, rfl, fun _ _ _ => rfl, fun _ _ _ => Iff.rfl⟩

end Scanner

/-! ### Statements -/

def SplitError.construct? : SplitError → Option Construct
  | unbalanced construct _ _ => some construct
  | mixedPlaceholders .. | invalidTerminator _ | invalidKeyword _ => none

namespace Script

/-- The script with a space in the place of each comment that its scan finds. -/
def stripComments (options : SplitOptions) (script : String) : String :=
  let found := scan options script.toList
  String.ofList (Event.concat (found.events.map Event.blanked) ++ found.final.rest)

/-- Whether each BEGIN, each END and each keyword of a directive in a script is the same piece
without comments: code, the edge of a block, or a directive. -/
def undisturbed (options : SplitOptions) (script : String) : Bool :=
  Scanner.undisturbed (.start options script.toList)
    (.start options (stripComments options script).toList) (scan options script.toList).events

variable {options : SplitOptions}

theorem mapError_splitStatements (hvalid : options.Valid) (script : String) :
    (splitStatements options script).mapError SplitError.construct? =
      match (scan options script.toList).ending.construct? with
      | some construct => .error (some construct)
      | none => .ok (collect options [] false (scan options script.toList).events) := by
  rw [splitStatements_eq hvalid, Scan.error?]
  cases (scan options script.toList).ending <;> rfl

/-- A script that is not disturbed has the statements that it has without comments, or leaves open
what it leaves open without them. -/
theorem splitStatements_stripComments (hvalid : options.Valid)
    (hcomments : options.keepComments = false) {script : String}
    (hundisturbed : undisturbed options script = true) :
    (splitStatements options (stripComments options script)).mapError SplitError.construct? =
      (splitStatements options script).mapError SplitError.construct? := by
  have hne := SplitOptions.terminator_ne_empty hvalid.1
  have hstripped : (Scanner.start options (stripComments options script).toList).rest =
      [] ++ (Event.concat ((scan options script.toList).events.map Event.blanked) ++
        (scan options script.toList).final.rest) := by
    rw [Scanner.start, stripComments, String.toList_ofList, List.nil_append]
  rw [undisturbed, ← passing_nil (.start options (stripComments options script).toList)]
    at hundisturbed
  obtain ⟨es, b, ending, hwalk, hending, hconstruct, hcollect⟩ :=
    (scan_walk options script.toList).uncommented hcomments hvalid.1 (scan_stops hne _) rfl
      hstripped (abreast_start ..) hundisturbed
  rw [mapError_splitStatements hvalid, mapError_splitStatements hvalid,
    scan_eq_of_walk hne hwalk hending, hconstruct, hcollect]
  rfl

/-- **Without its comments a script has the same statements.** Where statements keep no comments,
the script with a space in the place of each comment is split into the same texts, or fails with the
same construct left open. The one thing that comments may do is mislead a word that looks at what
stands around it: BEGIN looks for the end of the script, a terminator and the words of a
transaction, END for the words after it, and the keyword of the directive for the start of the line
and the terminator after it. They look past spaces and not past comments, so for each of them it is
asked that it is the same piece without comments. -/
theorem split_stripComments (hvalid : options.Valid) (hcomments : options.keepComments = false)
    {script : String} (hundisturbed : undisturbed options script = true) :
    (split options (stripComments options script)).mapError SplitError.construct? =
      (split options script).mapError SplitError.construct? := by
  have hsame := splitStatements_stripComments hvalid hcomments hundisturbed
  unfold split
  cases hstripped : splitStatements options (stripComments options script) <;>
    cases hscript : splitStatements options script <;> rw [hstripped, hscript] at hsame <;>
    simp_all [Except.mapError]

/-- Comments may stand at the ends of words, blocks and statements, and hold quotes and
terminators. -/
theorem split_stripComments_throughout :
    let options : SplitOptions := { keepComments := false }
    let script := "a/*b;*/;-- 'c\nBEGIN x;/*;*/ END--d\n;\nDELIMITER GO\n'/*'/*GO*/GO"
    options.Valid ∧ options.keepComments = false ∧ undisturbed options script = true ∧
    stripComments options script = "a ; \nBEGIN x;  END \n;\nDELIMITER GO\n'/*' GO" ∧
    (split options (stripComments options script)).mapError SplitError.construct? =
      (split options script).mapError SplitError.construct? ∧
    split options script = .ok ["a", "BEGIN x;  END", "'/*'"] := by
  intro options script
  have hvalid : options.Valid := by decide
  have hundisturbed : undisturbed options script = true := by decide +kernel
  refine ⟨hvalid, rfl, hundisturbed, ?_, split_stripComments hvalid rfl hundisturbed, ?_⟩
  · decide +kernel
  · decide +kernel

/-- A comment hides the word of a transaction from BEGIN, which opens a block that is never closed.
Without the comment there are two statements. -/
theorem split_stripComments_transaction :
    let options : SplitOptions := { keepComments := false }
    let script := "BEGIN /* c */ TRANSACTION; SELECT 1"
    options.Valid ∧ options.keepComments = false ∧
    stripComments options script = "BEGIN   TRANSACTION; SELECT 1" ∧
    split options script = .error (.unbalanced .block 0 1) ∧
    split options (stripComments options script) = .ok ["BEGIN   TRANSACTION", "SELECT 1"] := by
  decide +kernel

/-- Comments never matter where neither blocks nor directives are looked for. -/
theorem splitStatements_stripComments_of_off (hvalid : options.Valid)
    (hcomments : options.keepComments = false) (hblocks : options.blocks = false)
    (hkeyword : options.delimiterKeyword = none) (script : String) :
    (splitStatements options (stripComments options script)).mapError SplitError.construct? =
      (splitStatements options script).mapError SplitError.construct? :=
  splitStatements_stripComments hvalid hcomments (undisturbed_of_off hblocks hkeyword _ _)

end Script

end SqlBatch
