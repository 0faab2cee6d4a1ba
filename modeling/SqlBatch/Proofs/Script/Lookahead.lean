import SqlBatch.Proofs.Script.Excerpt

/-!
# What BEGIN sees in front of a terminator

A BEGIN outside any block looks over the spaces behind it, and where the terminator stands there it
opens no block. The scanner comes to the same place next and asks the same question, but it lets the
opener of a comment go first when that is longer than the terminator. So the two agree unless the
terminator is the beginning of such an opener: then BEGIN waits for a terminator, and a comment
comes.
-/

namespace SqlBatch

open Text Scanner

namespace Text

private theorem isWord_of_isWord_toLower {c : Char} (h : isWord c.toLower = true) :
    isWord c = true := by
  unfold Char.toLower at h
  split at h
  · rename_i hupper
    have hletter : c.isUpper = true := decide_eq_true hupper
    change (c.isUpper || c.isLower || c.isDigit || c == '_') = true
    rw [hletter]
    rfl
  · exact h

private theorem all_isWord_of_sameWord {word keyword : List Char} (h : sameWord word keyword = true)
    (hkeyword : (keyword.map Char.toLower).all isWord = true) : word.all isWord = true := by
  rw [sameWord, beq_iff_eq] at h
  rw [← h, List.all_map] at hkeyword
  rw [List.all_eq_true] at hkeyword ⊢
  exact fun c hc => isWord_of_isWord_toLower (hkeyword c hc)

private theorem all_isWord_of_begin {word : List Char} (h : isKeyword word ["BEGIN"] = true) :
    word.all isWord = true := by
  rw [isKeyword, List.any_cons, List.any_nil, Bool.or_false] at h
  exact all_isWord_of_sameWord h (by decide)

end Text

/-- Whether a comment begins a text whose opener is longer than the terminator. -/
def SplitOptions.PrefersComment (options : SplitOptions) (terminator cs : List Char) : Prop :=
  ∃ opener ∈ options.commentOpeners, opener <+: cs ∧ byteLength terminator < byteLength opener

theorem SplitOptions.head?_append_of_isTerminator {terminator : List Char}
    (h : isTerminator terminator = true) (post : List Char) :
    (terminator ++ post).head?.any isSpace = false := by
  obtain ⟨c, rest, rfl⟩ := List.exists_cons_of_ne_nil (ne_nil_of_isTerminator h)
  exact not_isSpace_of_isTerminator h List.mem_cons_self

private theorem Lexeme.beginOpensBlock_of_terminatorAt {terminator word gap next : List Char}
    (hgap : gap.all isSpace = true) (hnext : next.head?.any isSpace = false)
    (hat : terminatorAt terminator (word ++ gap).getLast? next = true) :
    beginOpensBlock terminator word (gap ++ next) = false := by
  have hspaces : (gap ++ next).takeWhile isSpace = gap := by
    rw [takeWhile_append_of_head? hnext]
    exact List.takeWhile_eq_self_iff.mpr (List.all_eq_true.mp hgap)
  simp only [beginOpensBlock, hspaces, List.drop_left, hat, Bool.not_true, Bool.and_false,
    Bool.false_and]

private theorem Lexeme.head?_of_terminatorAt {terminator word gap next : List Char}
    (hne : terminator ≠ []) (hword : word ≠ []) (hwhole : ∀ c ∈ word, isWord c = true)
    (hgap : gap.all isSpace = true)
    (hat : terminatorAt terminator (word ++ gap).getLast? next = true) :
    (gap ++ next).head?.any isWord = false := by
  cases gap with
  | nil =>
      obtain ⟨post, rfl, happart, -⟩ := terminatorAt_iff.mp hat
      obtain ⟨d, more, rfl⟩ := List.exists_cons_of_ne_nil hne
      rw [List.append_nil, List.getLast?_eq_some_getLast hword] at happart
      rw [← Bool.not_eq_true]
      exact fun hd => happart ⟨hwhole _ (List.getLast_mem hword), hd⟩
  | cons d gap => exact not_isWord_of_isSpace (List.all_eq_true.mp hgap d List.mem_cons_self)

namespace Scanner

variable {s t : Scanner} {e : Event}

/-- Where the terminator stands outside any block, the scanner takes it unless it prefers a
comment. -/
theorem atTerminator_iff_not_prefersComment (houtside : s.openBlocks = [])
    (hat : Lexeme.terminatorAt s.terminator s.previous s.rest = true) :
    s.atTerminator = true ↔ ¬s.options.PrefersComment s.terminator s.rest := by
  rw [atTerminator, houtside, hat, List.isEmpty_nil, Bool.true_and, Bool.true_and,
    decide_eq_true_eq, commentOpenerLength_le_iff]
  simp only [SplitOptions.PrefersComment, not_exists, not_and, Nat.not_lt]

private theorem lexeme_of_prefersComment (hapart : ¬s.atTerminator = true) {c : Char}
    {cs : List Char} (h : s.options.PrefersComment s.terminator (c :: cs)) :
    (∃ style n, s.lexeme c cs = .ok (.comment style, n)) ∨
      s.lexeme c cs = .error .blockComment := by
  obtain ⟨opener, hmem, hprefix, -⟩ := h
  rcases SplitOptions.mem_commentOpeners.mp hmem with ⟨henabled, rfl⟩ | ⟨henabled, rfl⟩
  · obtain ⟨following, hfollowing⟩ := hprefix
    obtain ⟨rfl, rfl⟩ := List.cons.inj hfollowing
    left
    rw [lexeme, if_neg hapart, if_pos (by simp [henabled])]
    exact ⟨_, _, rfl⟩
  · obtain ⟨following, hfollowing⟩ := hprefix
    obtain ⟨rfl, rfl⟩ := List.cons.inj hfollowing
    rw [lexeme, if_neg hapart, if_neg (by simp), if_pos (by simp [henabled])]
    cases Lexeme.blockCommentLength? s.options.nestedBlockComments 0
        (['*'] ++ following).tail with
    | none => exact .inr rfl
    | some n => exact .inl ⟨_, _, rfl⟩

private theorem keywordLexeme_of_begin_of_closed (hbegin : isKeyword s.word ["BEGIN"] = true)
    (hclosed : Lexeme.beginOpensBlock s.terminator s.word s.afterWord = false) :
    s.keywordLexeme = (.code, s.word.length) := by
  obtain ⟨hcase, hend⟩ := isKeyword_begin hbegin
  rw [keywordLexeme, hclosed, hcase, hend]
  simp

theorem kind_of_begin (hs : SplitOptions.isTerminator s.terminator = true)
    (h : s.step = .event e t) (hother : e.kind ≠ .terminator)
    (hbegin : isKeyword e.text ["BEGIN"] = true) {gap next : List Char}
    (hgap : gap.all isSpace = true) (hrest : t.rest = gap ++ next)
    (hat : Lexeme.terminatorAt s.terminator (e.text ++ gap).getLast? next = true) :
    e.kind = .code := by
  have hne := SplitOptions.ne_nil_of_isTerminator hs
  obtain ⟨post, rfl, -⟩ := terminatorAt_iff.mp hat
  have hwhole := List.all_eq_true.mp (all_isWord_of_begin hbegin)
  obtain ⟨c, text, htext, hcs, hlexeme⟩ := exists_lexeme_of_step hne h
  have hc : isWord c = true := hwhole c (htext ▸ List.mem_cons_self)
  have hstop : t.rest.head?.any isWord = false :=
    hrest ▸ Lexeme.head?_of_terminatorAt hne (htext ▸ List.cons_ne_nil c text) hwhole hgap hat
  have hword : s.word = e.text := by
    rw [Scanner.word, rest_of_step h, takeWhile_append_of_head? hstop]
    exact List.takeWhile_eq_self_iff.mpr hwhole
  have hafter : s.afterWord = gap ++ (s.terminator ++ post) := by
    rw [afterWord, hword, rest_of_step h, List.drop_left, hrest]
  have hkeyword : s.keywordLexeme = (.code, s.word.length) := by
    apply keywordLexeme_of_begin_of_closed (hword ▸ hbegin)
    rw [hafter, hword]
    exact Lexeme.beginOpensBlock_of_terminatorAt hgap
      (SplitOptions.head?_append_of_isTerminator hs post) hat
  rw [lexeme_eq] at hlexeme
  split at hlexeme
  · exact absurd (Prod.mk.inj (Except.ok.inj hlexeme)).1.symm hother
  rw [Lexeme.hidden?_eq_none_of_not_isOpener (Lexeme.not_isOpener_of_isWord hc), Option.getD_none,
    visibleLexeme, if_pos hc, wordLexeme_eq, hkeyword] at hlexeme
  cases hdirective : s.directive? s.word s.afterWord with
  | none =>
      rw [hdirective] at hlexeme
      exact (Prod.mk.inj (Except.ok.inj hlexeme)).1.symm
  | some found =>
      -- A directive would go on behind the word.
      obtain ⟨delimiter, n⟩ := found
      rw [hdirective] at hlexeme
      have hlength : s.word.length + n = text.length + 1 :=
        (Prod.mk.inj (Except.ok.inj hlexeme)).2
      obtain ⟨line, after, hline, hn, hend⟩ :=
        Lexeme.directive?_ends (directive?_eq_some hdirective).2.2.2
      rw [hword, htext, List.length_cons] at hlength
      obtain rfl : line = [] := List.length_eq_zero_iff.mp (by omega)
      rw [hafter] at hline
      rcases hend with rfl | hfeed
      · simp [hne] at hline
      · cases hfeed

/-! ### The step behind the spaces -/

private theorem Walk.previous_of_start {options : SplitOptions} {script pre text : List Char}
    {es : List Event} (h : Walk (start options script) es s)
    (hconcat : Event.concat es = pre ++ text) (htext : text ≠ []) : s.previous = text.getLast? := by
  rw [previous, h.before_of_start, hconcat, List.head?_reverse,
    List.getLast?_append_of_ne_nil _ htext]

private theorem openBlocks_of_depth_eq_zero (h : s.depth = 0) : s.openBlocks = [] :=
  List.length_eq_zero_iff.mp h

private theorem exists_walk_of_spaces (hs : SplitOptions.isTerminator s.terminator = true)
    {gap next : List Char} (hgap : gap.all isSpace = true) (hnext : next.head?.any isSpace = false)
    (hrest : s.rest = gap ++ next) :
    ∃ spaces t, Walk s spaces t ∧ Event.concat spaces = gap ∧ (∀ f ∈ spaces, f.kind = .code) ∧
      t.rest = next ∧ t.terminator = s.terminator ∧ t.openBlocks = s.openBlocks := by
  cases gap with
  | nil => exact ⟨[], s, .nil s, rfl, fun _ hmem => absurd hmem List.not_mem_nil, hrest, rfl, rfl⟩
  | cons c gap =>
      have hstep := step_of_spaces hs hgap hnext hrest
      refine ⟨_, _, .cons hstep (.nil _), List.append_nil _, List.forall_mem_singleton.mpr rfl,
        ?_, rfl, rfl⟩
      rw [advance, hrest]
      exact List.drop_left

/-- Outside any block, where the terminator stands, a scanner takes it or the comment it prefers. -/
theorem step_of_terminatorAt (hs : s.terminator ≠ []) (houtside : s.openBlocks = [])
    (hat : Lexeme.terminatorAt s.terminator s.previous s.rest = true) :
    (¬s.options.PrefersComment s.terminator s.rest →
      ∃ f t, s.step = .event f t ∧ f.kind = .terminator ∧ f.text = s.terminator) ∧
    (s.options.PrefersComment s.terminator s.rest →
      (∃ f t style, s.step = .event f t ∧ f.kind = .comment style) ∨
        s.step = .unbalanced .blockComment s.offset) := by
  obtain ⟨c, cs, hrest⟩ : ∃ c cs, s.rest = c :: cs := by
    refine List.exists_cons_of_ne_nil fun hnil => ?_
    unfold Lexeme.terminatorAt at hat
    obtain ⟨d, terminator, hterminator⟩ := List.exists_cons_of_ne_nil hs
    rw [hnil, hterminator] at hat
    cases hat
  constructor
  · intro hplain
    have here := (atTerminator_iff_not_prefersComment houtside hat).mpr hplain
    have hstep : s.step = .event (s.event .terminator s.terminator.length)
        (s.advance (s.event .terminator s.terminator.length)) :=
      step_of_lexeme hrest (by rw [lexeme, if_pos here])
    exact ⟨_, _, hstep, rfl, (visible_of_step hstep rfl).2.1⟩
  · intro hprefers
    have hapart : ¬s.atTerminator = true := fun here =>
      (atTerminator_iff_not_prefersComment houtside hat).mp here hprefers
    rw [hrest] at hprefers
    rcases lexeme_of_prefersComment hapart hprefers with ⟨style, n, hlexeme⟩ | hlexeme
    · exact .inl ⟨_, _, style, step_of_lexeme hrest hlexeme, rfl⟩
    · right
      rw [step, hrest]
      dsimp only
      rw [hlexeme]

/-- The same of a walk to the end of the scan: the terminator is its first event, or the comment is.
A comment that is not closed ends the scan where it begins. -/
theorem Walk.begins_of_terminatorAt {es : List Event} {ending : Ending} (hwalk : Walk s es t)
    (hstops : t.step.ending? = some ending) (hs : s.terminator ≠ []) (houtside : s.openBlocks = [])
    (hat : Lexeme.terminatorAt s.terminator s.previous s.rest = true) :
    (¬s.options.PrefersComment s.terminator s.rest →
      ∃ f more, es = f :: more ∧ f.kind = .terminator ∧ f.text = s.terminator) ∧
    (s.options.PrefersComment s.terminator s.rest →
      (∃ f more style, es = f :: more ∧ f.kind = .comment style) ∨
        es = [] ∧ ending = .unbalanced .blockComment s.offset) := by
  obtain ⟨hends, hcomments⟩ := step_of_terminatorAt hs houtside hat
  have hhead {f : Event} {v : Scanner} (hstep : s.step = .event f v) : ∃ more, es = f :: more := by
    obtain ⟨more, hmore, -⟩ := (Walk.cons hstep (.nil v)).exists_append hwalk hstops
    exact ⟨more, hmore⟩
  constructor
  · intro hplain
    obtain ⟨f, v, hstep, hkind, htext⟩ := hends hplain
    obtain ⟨more, rfl⟩ := hhead hstep
    exact ⟨f, more, rfl, hkind, htext⟩
  · intro hprefers
    rcases hcomments hprefers with ⟨f, v, style, hstep, hkind⟩ | hunclosed
    · obtain ⟨more, rfl⟩ := hhead hstep
      exact .inl ⟨f, more, style, rfl, hkind⟩
    · right
      cases hwalk with
      | nil =>
          rw [hunclosed] at hstops
          exact ⟨rfl, (Option.some.inj hstops).symm⟩
      | cons hstep _ =>
          rw [hunclosed] at hstep
          cases hstep

end Scanner

/-- **What BEGIN sees is what comes, unless a comment begins with the terminator.** A BEGIN outside
any block, behind which the terminator stands after spaces, is code. The first event after the
spaces is that terminator, unless the opener of a comment stands there and is longer: then it is the
comment, or the scan ends because the comment does not. -/
theorem scan_begin_before_terminator {options : SplitOptions} (hvalid : options.Valid)
    {script : List Char} {before after : List Event} {e : Event}
    (hevents : (scan options script).events = before ++ e :: after)
    (hbegin : isKeyword e.text ["BEGIN"] = true) (hother : e.kind ≠ .terminator)
    (houtside : Event.depth before = 0) {terminator : List Char}
    (hterminator : Event.terminatorAfter options.terminator.toList before = terminator)
    {gap next : List Char} (hscript : script = Event.concat before ++ (e.text ++ (gap ++ next)))
    (hgap : gap.all isSpace = true)
    (hat : Lexeme.terminatorAt terminator (e.text ++ gap).getLast? next = true) :
    e.kind = .code ∧ ∃ spaces later, after = spaces ++ later ∧ Event.concat spaces = gap ∧
      (∀ f ∈ spaces, f.kind = .code) ∧
      (¬options.PrefersComment terminator next →
        ∃ f more, later = f :: more ∧ f.kind = .terminator ∧ f.text = terminator) ∧
      (options.PrefersComment terminator next →
        (∃ f more style, later = f :: more ∧ f.kind = .comment style) ∨
          later = [] ∧ (scan options script).ending =
            .unbalanced .blockComment (byteLength (Event.concat before ++ (e.text ++ gap)))) := by
  obtain ⟨s, hbefore, hrest⟩ := (hevents ▸ scan_walk options script).split
  cases hrest with
  | @cons s t _ e after hstep hwalk =>
  have hs : SplitOptions.isTerminator s.terminator = true := hbefore.isTerminator hvalid.1
  obtain rfl : s.terminator = terminator := hbefore.terminator_eq.trans hterminator
  have hbehind : t.rest = gap ++ next := by
    have hwhole := hbefore.script_eq.symm.trans hscript
    rw [rest_of_step hstep] at hwhole
    exact List.append_cancel_left (List.append_cancel_left hwhole)
  have hkind := kind_of_begin hs hstep hother hbegin hgap hbehind hat
  refine ⟨hkind, ?_⟩
  obtain ⟨post, hpost, -⟩ := terminatorAt_iff.mp hat
  have hnext : next.head?.any isSpace = false := by
    rw [hpost]
    exact SplitOptions.head?_append_of_isTerminator hs post
  have hcut : e.isCut = false := by rw [Event.isCut, hkind]
  have hsame : t.terminator = s.terminator := terminator_eq_of_not_isCut hstep hcut
  obtain ⟨spaces, u, hspaces, hconcat, hcode, hurest, huterminator, hublocks⟩ :=
    exists_walk_of_spaces (hsame ▸ hs) hgap hnext hbehind
  have hstops := scan_stops (SplitOptions.terminator_ne_empty hvalid.1) script
  obtain ⟨later, rfl, hlater⟩ := hspaces.exists_append hwalk hstops
  refine ⟨spaces, later, rfl, hconcat, hcode, ?_⟩
  have hwhole := hbefore.append (.cons hstep hspaces)
  have hscanned : Event.concat (before ++ e :: spaces) =
      Event.concat before ++ (e.text ++ gap) := by
    rw [Event.concat_append, Event.concat_cons, hconcat]
  have htext : e.text ++ gap ≠ [] :=
    List.append_ne_nil_of_left_ne_nil (text_ne_nil_of_kind_ne hstep hother) gap
  have hprevious := hwhole.previous_of_start hscanned htext
  have hdepth : t.depth = 0 := by
    have hadd := depth_of_step hstep
    simp only [Event.closesBlock, Event.opensBlock, hkind] at hadd
    rw [hbefore.depth_eq, houtside] at hadd
    exact hadd
  have hoptions : u.options = options := hwhole.options_eq
  rw [openBlocks_of_depth_eq_zero hdepth] at hublocks
  rw [hsame] at huterminator
  have hfirst := hlater.begins_of_terminatorAt hstops
    (huterminator ▸ SplitOptions.ne_nil_of_isTerminator hs) hublocks
    (by rwa [huterminator, hprevious, hurest])
  rwa [huterminator, hoptions, hurest, hwhole.offset_of_start, hscanned] at hfirst

/-- The word BEGIN is code in front of the terminator that a directive names. -/
theorem scan_begin_before_terminator_named :
    let before : List Event := [⟨.delimiterChange ['/'], 0, "DELIMITER /\n".toList⟩]
    let after : List Event := [⟨.code, 17, [' ']⟩, ⟨.terminator, 18, ['/']⟩]
    ({} : SplitOptions).Valid ∧
    (scan {} "DELIMITER /\nBEGIN /".toList).events =
      before ++ ⟨.code, 12, "BEGIN".toList⟩ :: after ∧
    Event.depth before = 0 ∧ Event.terminatorAfter [';'] before = ['/'] ∧
    Lexeme.terminatorAt ['/'] (some ' ') ['/'] = true ∧
    ∃ spaces later, after = spaces ++ later ∧ Event.concat spaces = [' '] ∧
      ∃ f more, later = f :: more ∧ f.kind = .terminator ∧ f.text = ['/'] := by
  intro before after
  have hvalid : ({} : SplitOptions).Valid := by decide
  have hevents : (scan {} "DELIMITER /\nBEGIN /".toList).events =
      before ++ ⟨.code, 12, "BEGIN".toList⟩ :: after := by decide
  have hat : Lexeme.terminatorAt ['/'] (some ' ') ['/'] = true := by decide
  have hscript : "DELIMITER /\nBEGIN /".toList =
      Event.concat before ++ ("BEGIN".toList ++ ([' '] ++ ['/'])) := by decide
  obtain ⟨-, spaces, later, hafter, hconcat, -, hterminator, -⟩ :=
    scan_begin_before_terminator hvalid hevents (by decide) (by decide) rfl rfl hscript
      (by decide) hat
  have hplain : ¬({} : SplitOptions).PrefersComment ['/'] ['/'] := by
    rintro ⟨opener, hmem, hprefix, -⟩
    have hlength := hprefix.length_le
    rcases SplitOptions.mem_commentOpeners.mp hmem with ⟨-, rfl⟩ | ⟨-, rfl⟩ <;>
      exact absurd hlength (by decide)
  exact ⟨hvalid, hevents, rfl, rfl, hat, spaces, later, hafter, hconcat, hterminator hplain⟩

/-- Where a slash ends statements, BEGIN sees one in the opener of a comment and opens no block, but
the comment comes first. So a slash inside the block ends the statement, as it does not when the
comment is left out. -/
theorem scan_begin_before_comment :
    let options : SplitOptions := { terminator := "/" }
    let script := "BEGIN /* c */ SELECT 1 / 2; END /"
    options.Valid ∧
    (scan options script.toList).events.take 3 =
      [⟨.code, 0, "BEGIN".toList⟩, ⟨.code, 5, [' ']⟩,
        ⟨.comment .block, 6, "/* c */".toList⟩] ∧
    Lexeme.terminatorAt ['/'] (some ' ') "/* c */ SELECT 1 / 2; END /".toList = true ∧
    Script.split options script = .ok ["BEGIN /* c */ SELECT 1", "2; END"] ∧
    Script.split options "BEGIN SELECT 1 / 2; END /" = .ok ["BEGIN SELECT 1 / 2; END"] := by
  decide +kernel

end SqlBatch
