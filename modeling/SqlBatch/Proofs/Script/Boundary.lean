import SqlBatch.Proofs.Script.Walk

/-!
# Statements end at the terminators one can see

A scanner looks for the terminator only where an event starts. It misses none: an event that is not
sealed, and that starts outside any block, is a piece of a word, or spaces, or one character. A
terminator that starts inside a word splits that word, and no terminator holds a space.

What is in effect at a place is told from the events before it: the terminator that the last
directive names, and the blocks that were opened and not yet closed.
-/

namespace SqlBatch

open Text Scanner

namespace Text

/-- A text between two others that splits no word: where it starts or ends with a word character,
the text beside it does not go on with one. -/
def StandsApart (pre cs post : List Char) : Prop :=
  ¬(pre.getLast?.any isWord = true ∧ cs.head?.any isWord = true) ∧
    ¬(cs.getLast?.any isWord = true ∧ post.head?.any isWord = true)

end Text

/-- The openers of the comments that the options enable. -/
def SplitOptions.commentOpeners (options : SplitOptions) : List (List Char) :=
  (if options.lineComments then [['-', '-']] else []) ++
    if options.blockComments then [['/', '*']] else []

namespace SplitOptions

variable {options : SplitOptions} {opener : List Char}

theorem mem_commentOpeners : opener ∈ options.commentOpeners ↔
    options.lineComments = true ∧ opener = ['-', '-'] ∨
      options.blockComments = true ∧ opener = ['/', '*'] := by
  unfold commentOpeners
  split <;> split <;> simp_all

theorem byteLength_of_mem_commentOpeners (h : opener ∈ options.commentOpeners) :
    byteLength opener = 2 := by
  rcases mem_commentOpeners.mp h with ⟨-, rfl⟩ | ⟨-, rfl⟩ <;> decide

/-- What a text between two others must be to end a statement there: it stands apart, and no longer
opener of a comment starts with it. -/
def Visible (options : SplitOptions) (pre terminator post : List Char) : Prop :=
  StandsApart pre terminator post ∧ ∀ opener ∈ options.commentOpeners,
    opener <+: terminator ++ post → byteLength opener ≤ byteLength terminator

end SplitOptions

namespace Event

def delimiter? (e : Event) : Option (List Char) :=
  match e.kind with
  | .delimiterChange delimiter => some delimiter
  | _ => none

/-- The terminator in effect after events, given the one before them. -/
def terminatorAfter (terminator : List Char) (es : List Event) : List Char :=
  (es.filterMap delimiter?).getLast?.getD terminator

def opensBlock (e : Event) : Bool :=
  match e.kind with
  | .blockBegin _ => true
  | _ => false

def closesBlock (e : Event) : Bool :=
  match e.kind with
  | .blockEnd _ => true
  | _ => false

/-- The number of blocks that events open and do not close. -/
def depth (es : List Event) : Nat := es.countP opensBlock - es.countP closesBlock

/-- Whether no terminator counts inside an event. -/
def isSealed (e : Event) : Bool :=
  match e.kind with
  | .literal _ | .comment _ | .delimiterChange _ | .terminator => true
  | .code | .blockBegin _ | .blockEnd _ => false

end Event

namespace Scanner

/-! ### What events tell of the scanner after them -/

theorem terminator_eq_of_step {s t : Scanner} {e : Event} (h : s.step = .event e t) :
    t.terminator = e.delimiter?.getD s.terminator := by
  rw [advance_of_step h]
  obtain ⟨kind, start, text⟩ := e
  cases kind <;> rfl

theorem depth_of_step {s t : Scanner} {e : Event} (h : s.step = .event e t) :
    t.depth + (if e.closesBlock then 1 else 0) = s.depth + (if e.opensBlock then 1 else 0) := by
  obtain ⟨c, cs, hrest, hlexed, -, -, rfl⟩ := step_eq_event h
  obtain ⟨kind, start, text⟩ := e
  cases kind with
  | blockEnd depth =>
      have hinside := List.length_pos_iff.mpr hlexed.inside_of_blockEnd
      change s.openBlocks.tail.length + 1 = s.openBlocks.length
      rw [List.length_tail]
      omega
  | _ => rfl

namespace Walk

variable {s t : Scanner} {es : List Event}

theorem terminator_eq (h : Walk s es t) : t.terminator = Event.terminatorAfter s.terminator es := by
  induction h with
  | nil s => rfl
  | @cons s s' t e es step walk ih =>
      rw [ih, terminator_eq_of_step step, Event.terminatorAfter, Event.terminatorAfter,
        List.filterMap_cons]
      cases e.delimiter? with
      | none => rfl
      | some delimiter => simp [List.getLast?_cons]

private theorem depth_add (h : Walk s es t) :
    t.depth + es.countP Event.closesBlock = s.depth + es.countP Event.opensBlock := by
  induction h with
  | nil s => rfl
  | @cons s s' t e es step walk ih =>
      have hstep := depth_of_step step
      rw [List.countP_cons, List.countP_cons]
      omega

variable {options : SplitOptions} {script : List Char}

theorem depth_add_of_start (h : Walk (start options script) es s) :
    s.depth + es.countP Event.closesBlock = es.countP Event.opensBlock := by
  rw [h.depth_add]
  exact Nat.zero_add _

theorem depth_eq (h : Walk (start options script) es s) : s.depth = Event.depth es := by
  have hadd := h.depth_add_of_start
  rw [Event.depth]
  omega

end Walk

/-! ### Terminators at the place -/

theorem terminatorAt_iff {terminator pre cs : List Char} :
    Lexeme.terminatorAt terminator pre.getLast? cs = true ↔
      ∃ post, cs = terminator ++ post ∧ StandsApart pre terminator post := by
  unfold Lexeme.terminatorAt
  split
  · rename_i hafter
    refine ⟨fun h => absurd h Bool.false_ne_true, ?_⟩
    rintro ⟨post, hpost, -⟩
    rw [after?_eq_some_iff.mpr hpost] at hafter
    cases hafter
  · rename_i following hafter
    rw [after?_eq_some_iff] at hafter
    simp only [Bool.and_eq_true, Bool.not_eq_true', Bool.and_eq_false_iff, StandsApart, not_and,
      Bool.not_eq_true]
    constructor
    · rintro ⟨hhead, hlast⟩
      refine ⟨following, hafter, fun hpre => ?_, fun hterminator => ?_⟩
      · exact hhead.resolve_right (by simp [hpre])
      · exact hlast.resolve_left (by simp [hterminator])
    · rintro ⟨post, hpost, hhead, hlast⟩
      obtain rfl : following = post := List.append_cancel_left (hafter.symm.trans hpost)
      constructor
      · by_cases hpre : pre.getLast?.any isWord = true
        · exact .inl (hhead hpre)
        · exact .inr (by simpa using hpre)
      · by_cases hterminator : terminator.getLast?.any isWord = true
        · exact .inr (hlast hterminator)
        · exact .inl (by simpa using hterminator)

theorem commentOpenerLength_le_iff {s : Scanner} {n : Nat} :
    s.commentOpenerLength ≤ n ↔
      ∀ opener ∈ s.options.commentOpeners, opener <+: s.rest → byteLength opener ≤ n := by
  simp only [commentOpenerLength, Bool.or_eq_true, Bool.and_eq_true, List.isPrefixOf_iff_prefix]
  split
  · rename_i hopener
    constructor
    · intro hle opener hmem _
      rw [SplitOptions.byteLength_of_mem_commentOpeners hmem]
      exact hle
    · rintro hle
      rcases hopener with ⟨henabled, hprefix⟩ | ⟨henabled, hprefix⟩
      · exact hle _ (SplitOptions.mem_commentOpeners.mpr (.inl ⟨henabled, rfl⟩)) hprefix
      · exact hle _ (SplitOptions.mem_commentOpeners.mpr (.inr ⟨henabled, rfl⟩)) hprefix
  · rename_i hnone
    refine ⟨fun _ opener hmem hprefix => absurd ?_ hnone, fun _ => Nat.zero_le n⟩
    rcases SplitOptions.mem_commentOpeners.mp hmem with ⟨henabled, rfl⟩ | ⟨henabled, rfl⟩
    · exact .inl ⟨henabled, hprefix⟩
    · exact .inr ⟨henabled, hprefix⟩

theorem atTerminator_iff {s : Scanner} : s.atTerminator = true ↔
    s.openBlocks = [] ∧ ∃ post, s.rest = s.terminator ++ post ∧
      s.options.Visible s.before.reverse s.terminator post := by
  have hprevious : s.previous = s.before.reverse.getLast? := by
    rw [previous, List.getLast?_reverse]
  rw [atTerminator, Bool.and_eq_true, Bool.and_eq_true, List.isEmpty_iff, hprevious,
    terminatorAt_iff, decide_eq_true_eq, commentOpenerLength_le_iff]
  constructor
  · rintro ⟨⟨hblocks, post, hpost, hapart⟩, hopeners⟩
    exact ⟨hblocks, post, hpost, hapart, hpost ▸ hopeners⟩
  · rintro ⟨hblocks, post, hpost, hapart, hopeners⟩
    exact ⟨⟨hblocks, post, hpost, hapart⟩, hpost ▸ hopeners⟩

theorem Lexed.kind_eq_terminator_iff {s : Scanner} {c : Char} {cs : List Char} {kind : EventKind}
    {n : Nat} (h : Lexed s c cs kind n) : kind = .terminator ↔ s.atTerminator = true := by
  cases h with
  | terminator here => exact ⟨fun _ => here, fun _ => rfl⟩
  | _ => simp_all

/-! ### Terminators inside an event -/

/-- An event outside any block in which a terminator would count is a piece of a word, or spaces, or
one character. -/
theorem Lexed.text_of_not_isSealed {s : Scanner} {c : Char} {cs following : List Char} {e : Event}
    (h : Lexed s c cs e.kind e.text.length) (hrest : s.rest = c :: cs)
    (htext : s.rest = e.text ++ following) (hunsealed : e.isSealed = false)
    (houtside : s.openBlocks = []) :
    e.text.all isWord = true ∨ e.text.all isSpace = true ∨ e.text.length = 1 := by
  obtain ⟨kind, start, text⟩ := e
  dsimp only at h htext ⊢
  have hword : text.length = s.word.length → text.all isWord = true := by
    intro hlength
    obtain rfl : text = s.word :=
      (List.append_inj (htext.symm.trans (rest_eq_word_append s)) hlength).1
    exact List.all_takeWhile
  have hspaces : text.length = ((c :: cs).takeWhile isSpace).length →
      text.all isSpace = true := by
    intro hlength
    rw [hrest, ← List.takeWhile_append_dropWhile (p := isSpace) (l := c :: cs)] at htext
    rw [← (List.append_inj htext hlength.symm).1]
    exact List.all_takeWhile
  generalize text.length = n at *
  cases h with
  | terminator | lineComment | blockComment | quoted | dollarQuoted | directive => cases hunsealed
  | blockEnd apart first undirected enabled unqualified keyword inside closes =>
      exact absurd houtside inside
  | dollar | other => exact .inr (.inr rfl)
  | blockBegin | word => exact .inl (hword rfl)
  | spaces apart first => exact .inr (.inl (hspaces rfl))

theorem not_starts_inside {pre inner more terminator post following : List Char}
    (hterminator : SplitOptions.isTerminator terminator = true)
    (htext : (inner ++ more).all isWord = true ∨ (inner ++ more).all isSpace = true ∨
      (inner ++ more).length = 1)
    (hinner : inner ≠ []) (hmore : more ≠ []) (happend : terminator ++ post = more ++ following)
    (hapart : StandsApart (pre ++ inner) terminator post) : False := by
  simp only [SplitOptions.isTerminator, Bool.and_eq_true, Bool.not_eq_true',
    List.isEmpty_eq_false_iff] at hterminator
  obtain ⟨d, terminator', rfl⟩ := List.exists_cons_of_ne_nil hterminator.1
  obtain ⟨d', more', rfl⟩ := List.exists_cons_of_ne_nil hmore
  obtain rfl : d = d' := (List.cons.inj happend).1
  rcases htext with hword | hspace | hlength
  · obtain ⟨init, last, rfl⟩ : ∃ init last, inner = init ++ [last] :=
      ⟨_, _, (List.dropLast_concat_getLast hinner).symm⟩
    simp only [List.all_append, List.all_cons, Bool.and_eq_true] at hword
    exact hapart.1 ⟨by simp [hword.1.2.1], by simp [hword.2.1]⟩
  · simp only [List.all_append, List.all_cons, Bool.and_eq_true] at hspace
    have hblank := isBlank_of_isSpace hspace.2.1
    simp [hblank] at hterminator
  · have := List.length_pos_iff.mpr hinner
    simp only [List.length_append, List.length_cons] at hlength
    omega

/-! ### Steps at terminators -/

variable {s t : Scanner} {e : Event}

theorem visible_of_step (h : s.step = .event e t) (hkind : e.kind = .terminator) :
    s.openBlocks = [] ∧ e.text = s.terminator ∧
      s.options.Visible s.before.reverse e.text t.rest := by
  obtain ⟨c, cs, hrest, hlexed, htext, -, -⟩ := step_eq_event h
  obtain ⟨houtside, post, hpost, hvisible⟩ :=
    atTerminator_iff.mp (hlexed.kind_eq_terminator_iff.mp hkind)
  rw [hkind] at hlexed
  have hlength := hlexed.length_of_terminator
  obtain ⟨heq, hfollowing⟩ := List.append_inj (htext.symm.trans hpost) hlength
  rw [heq, hfollowing]
  exact ⟨houtside, rfl, hvisible⟩

/-- No step outside a block passes over a terminator: where one starts within the text of the step,
and the step is not sealed there, it starts with the step, and the step takes it. -/
theorem kind_of_visible {inner post : List Char} (h : s.step = .event e t)
    (hterminator : SplitOptions.isTerminator s.terminator = true) (houtside : s.openBlocks = [])
    (hrest : s.rest = inner ++ (s.terminator ++ post))
    (hlt : byteLength inner < byteLength e.text) (hsealed : e.isSealed = true → inner = [])
    (hvisible : s.options.Visible (s.before.reverse ++ inner) s.terminator post) :
    e.kind = .terminator ∧ inner = [] := by
  obtain ⟨c, cs, hcs, hlexed, htext, -, -⟩ := step_eq_event h
  by_cases hinner : inner = []
  · subst hinner
    rw [List.append_nil] at hvisible
    have hat : s.atTerminator = true := atTerminator_iff.mpr ⟨houtside, post, hrest, hvisible⟩
    exact ⟨hlexed.kind_eq_terminator_iff.mpr hat, rfl⟩
  · -- Inside the text the terminator would split a word, start at a space, or start too late.
    exfalso
    obtain ⟨more, hmore, happend⟩ :=
      append_eq_append_of_byteLength_le (hrest.symm.trans htext) (Nat.le_of_lt hlt)
    have hunsealed : e.isSealed = false := by
      rw [← Bool.not_eq_true]
      exact fun he => hinner (hsealed he)
    have hne : more ≠ [] := by
      rintro rfl
      rw [hmore, List.append_nil] at hlt
      exact Nat.lt_irrefl _ hlt
    have hshape := hlexed.text_of_not_isSealed hcs htext hunsealed houtside
    exact not_starts_inside hterminator (hmore ▸ hshape) hinner hne happend hvisible.1

end Scanner

/-- The terminators of a scan are those one can see. Each stands outside any block, is the text in
effect, splits no word and is not the beginning of a longer opener of a comment. In turn, where the
text in effect stands so, and not inside a literal, a comment, a directive or another terminator, a
terminator of the scan starts. -/
theorem scan_terminates_exactly {options : SplitOptions} (hvalid : options.Valid)
    {script : List Char} {before after : List Event} {e : Event}
    (hevents : (scan options script).events = before ++ e :: after) :
    let terminator := Event.terminatorAfter options.terminator.toList before
    (e.kind = .terminator →
      Event.depth before = 0 ∧ e.text = terminator ∧
      ∃ pre post, script = pre ++ (e.text ++ post) ∧ byteLength pre = e.start ∧
        options.Visible pre e.text post) ∧
    ∀ pre post, script = pre ++ (terminator ++ post) →
      e.start ≤ byteLength pre → byteLength pre < e.stop → Event.depth before = 0 →
      ¬(e.isSealed = true ∧ e.start < byteLength pre) → options.Visible pre terminator post →
      e.kind = .terminator ∧ e.start = byteLength pre := by
  intro terminator
  obtain ⟨s, t, hwalk, hstep⟩ := exists_step_of_scan_eq hevents
  have hscript := hwalk.script_eq
  have hbefore : s.before.reverse = Event.concat before := by
    rw [hwalk.before_of_start, List.reverse_reverse]
  have hstart : e.start = byteLength (Event.concat before) := by
    rw [start_of_step hstep, hwalk.offset_of_start]
  have hterminator : s.terminator = terminator := hwalk.terminator_eq
  have hdepth : Event.depth before = 0 ↔ s.openBlocks = [] := by
    rw [← hwalk.depth_eq, Scanner.depth, List.length_eq_zero_iff]
  have hoptions : s.options = options := hwalk.options_eq
  constructor
  · intro hkind
    obtain ⟨houtside, htext, hvisible⟩ := visible_of_step hstep hkind
    rw [hoptions, hbefore] at hvisible
    refine ⟨hdepth.mpr houtside, htext.trans hterminator, Event.concat before, t.rest, ?_,
      hstart.symm, hvisible⟩
    rw [hscript, rest_of_step hstep]
  · intro pre post hpre hge hlt houtside hsealed hvisible
    rw [hstart] at hge
    rw [Event.stop, hstart] at hlt
    obtain ⟨inner, rfl, hinner⟩ := append_eq_append_of_byteLength_le (hscript.symm.trans hpre) hge
    rw [hstart, byteLength_append] at hsealed
    rw [byteLength_append] at hlt
    have hat : e.isSealed = true → inner = [] := by
      intro he
      apply Classical.byContradiction
      intro hne
      have hpos := byteLength_pos hne
      exact hsealed ⟨he, by omega⟩
    rw [← hterminator] at hinner hvisible
    rw [← hoptions, ← hbefore] at hvisible
    obtain ⟨hkind, rfl⟩ := kind_of_visible hstep (hwalk.isTerminator hvalid.1)
      (hdepth.mp houtside) hinner (by omega) hat hvisible
    rw [List.append_nil]
    exact ⟨hkind, hstart⟩

/-- After a directive the word that it names ends a statement, by the space before it and at the end
of the script. -/
theorem scan_terminates_exactly_after_directive :
    let before : List Event :=
      [⟨.delimiterChange ['G', 'O'], 0, "DELIMITER GO\n".toList⟩, ⟨.code, 13, ['x']⟩,
        ⟨.code, 14, [' ']⟩]
    ({} : SplitOptions).Valid ∧
    (scan {} "DELIMITER GO\nx GO".toList).events = before ++ ⟨.terminator, 15, ['G', 'O']⟩ :: [] ∧
    Event.depth before = 0 ∧ Event.terminatorAfter [';'] before = ['G', 'O'] ∧
    ∃ pre post, "DELIMITER GO\nx GO".toList = pre ++ (['G', 'O'] ++ post) ∧
      byteLength pre = 15 ∧ ({} : SplitOptions).Visible pre ['G', 'O'] post := by
  intro before
  have hvalid : ({} : SplitOptions).Valid := by decide
  have hevents : (scan {} "DELIMITER GO\nx GO".toList).events =
      before ++ ⟨.terminator, 15, ['G', 'O']⟩ :: [] := by decide
  obtain ⟨hterminators, -⟩ := scan_terminates_exactly hvalid hevents
  obtain ⟨hdepth, htext, hplace⟩ := hterminators rfl
  exact ⟨hvalid, hevents, hdepth, htext.symm, hplace⟩

end SqlBatch
