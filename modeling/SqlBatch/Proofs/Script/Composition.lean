import SqlBatch.Script.Split
import SqlBatch.Proofs.Script.Moved
import SqlBatch.Proofs.Script.Seam
import SqlBatch.Proofs.Script.Trim

/-!
# Scripts put together

Two scripts with a line for the terminator between them are split as each of them is by itself, as
long as the first one leaves nothing open and the terminator as it was. The scan of the first script
comes to the terminator, and behind it the scan of the second one begins, further on in the script.
-/

namespace SqlBatch

open Text Scanner

/-! ### Lines -/

namespace Text

theorem lineFeedsBefore_append (before cs : List Char) (offset : Nat) :
    lineFeedsBefore (byteLength before + offset) (before ++ cs) =
      before.count '\n' + lineFeedsBefore offset cs := by
  induction before with
  | nil => simp [byteLength]
  | cons c before ih =>
      have hpos := c.utf8Size_pos
      have hoffset : byteLength (c :: before) + offset - c.utf8Size =
          byteLength before + offset := by
        rw [byteLength_cons]
        omega
      rw [List.cons_append, lineFeedsBefore, if_neg (by rw [byteLength_cons]; omega), hoffset, ih,
        List.count_cons]
      simp only [beq_iff_eq]
      omega

theorem lineAt_append (before cs : List Char) (offset : Nat) :
    lineAt (before ++ cs) (offset + byteLength before) = lineAt cs offset + before.count '\n' := by
  rw [lineAt, lineAt, Nat.add_comm offset, lineFeedsBefore_append]
  omega

end Text

/-! ### The second script -/

def Event.isSpaces (e : Event) : Bool := e.kind = .code && e.text.all isSpace

namespace Scanner

/-- A scanner with a script before it, where nothing of a statement has come yet but spaces on the
line. -/
structure Fresh (options : SplitOptions) (cs : List Char) (s : Scanner) : Prop where
  rest : s.rest = cs
  terminator : s.terminator = options.terminator.toList
  openBlocks : s.openBlocks = []
  hasCode : s.hasCode = false
  word : s.previous.any isWord = false
  dot : s.previous ≠ some '.'
  line : s.atLineStart = true
  options : s.options = options

private theorem fresh_start (options : SplitOptions) (script : List Char) :
    Fresh options script (start options script) :=
  ⟨rfl, rfl, rfl, rfl, rfl, nofun, rfl, rfl⟩

theorem Fresh.moved {options : SplitOptions} {cs : List Char} {s t : Scanner} {d : Nat}
    (hs : Fresh options cs s) (ht : Fresh options cs t) (hoffset : t.offset = s.offset + d) :
    Moved d s t where
  options := ht.options.trans hs.options.symm
  rest := ht.rest.trans hs.rest.symm
  offset := hoffset
  terminator := ht.terminator.trans hs.terminator.symm
  openBlocks := by rw [hs.openBlocks, ht.openBlocks, List.map_nil]
  hasCode := ht.hasCode.trans hs.hasCode.symm
  word := ht.word.trans hs.word.symm
  dot := iff_of_false ht.dot hs.dot
  line := ht.line.trans hs.line.symm

private theorem atLineStart_append {before : List Char} {spaces : List Char}
    (hspaces : spaces.all isSpace = true)
    (hline : (before.takeWhile (· ≠ '\n')).all isBlank = true ∨ '\n' ∈ spaces) :
    ((spaces.reverse ++ before).takeWhile (· ≠ '\n')).all isBlank = true := by
  have hblank : ∀ c ∈ spaces.reverse, isBlank c = true := fun c hc =>
    isBlank_of_isSpace (List.all_eq_true.mp hspaces c (List.mem_reverse.mp hc))
  rw [List.takeWhile_append]
  split
  · rename_i hall
    rcases hline with hline | hmem
    · rw [List.all_append, hline, Bool.and_true, List.all_eq_true]
      exact hblank
    · have htake := (List.takeWhile_prefix fun c => decide (c ≠ '\n')).eq_of_length hall
      have hfeed := List.takeWhile_eq_self_iff.mp htake '\n' (List.mem_reverse.mpr hmem)
      simp at hfeed
  · exact List.all_eq_true.mpr fun c hc => hblank c ((List.takeWhile_prefix _).mem hc)

/-- A scanner takes all the spaces in front of it at once. It is fresh behind them when they are at
the start of a line, or go on to the next. -/
theorem fresh_of_isSpace {options : SplitOptions} {s : Scanner} {c : Char} {cs : List Char}
    (hvalid : SplitOptions.isTerminator options.terminator.toList = true)
    (hoptions : s.options = options) (hterminator : s.terminator = options.terminator.toList)
    (hblocks : s.openBlocks = []) (hcode : s.hasCode = false) (hrest : s.rest = c :: cs)
    (hc : isSpace c = true)
    (hline : s.atLineStart = true ∨ '\n' ∈ (c :: cs).takeWhile isSpace) :
    ∃ e t, s.step = .event e t ∧ Fresh options ((c :: cs).dropWhile isSpace) t ∧
      e.isSpaces = true ∧ e.text = (c :: cs).takeWhile isSpace := by
  have hstep := step_of_isSpace (hterminator ▸ hvalid) hrest hc
  have hspaces : ((c :: cs).takeWhile isSpace).all isSpace = true := List.all_takeWhile
  have hne : (c :: cs).takeWhile isSpace ≠ [] := by
    rw [List.takeWhile_cons_of_pos hc]
    exact List.cons_ne_nil c _
  rw [← List.takeWhile_append_dropWhile (p := isSpace) (l := c :: cs)] at hrest
  generalize (c :: cs).takeWhile isSpace = spaces at hstep hspaces hne hrest hline
  generalize (c :: cs).dropWhile isSpace = following at hrest
  have htext : (s.event .code spaces.length).text = spaces := by
    rw [event, hrest, List.take_left]
  generalize he : s.event .code spaces.length = e at hstep htext
  have hkind : e.kind = .code := he ▸ rfl
  have hprevious : (s.advance e).previous = some (spaces.getLast hne) := by
    rw [previous_of_step (hterminator ▸ SplitOptions.ne_nil_of_isTerminator hvalid) hstep, htext,
      List.getLast?_eq_some_getLast hne]
  have hlast := List.all_eq_true.mp hspaces _ (List.getLast_mem hne)
  refine ⟨e, s.advance e, hstep, ⟨?_, ?_, ?_, ?_, ?_, ?_, ?_, hoptions⟩, ?_, htext⟩
  · rw [advance, htext, hrest]
    exact List.drop_left
  · rw [advance, hkind]
    exact hterminator
  · rw [advance, hkind]
    exact hblocks
  · have hblank := all_isBlank_of_all_isSpace hspaces
    rw [advance, hkind]
    simp [hcode, Event.isCode, hkind, htext, hblank]
  · rw [hprevious]
    exact not_isWord_of_isSpace hlast
  · rw [hprevious, Ne, Option.some.injEq]
    intro hdot
    rw [hdot] at hlast
    cases hlast
  · rw [atLineStart, advance, htext]
    exact atLineStart_append hspaces hline
  · rw [Event.isSpaces, hkind, htext, hspaces]
    rfl

theorem Fresh.skip {options : SplitOptions} {cs : List Char} {s : Scanner}
    (hs : Fresh options cs s)
    (hvalid : SplitOptions.isTerminator options.terminator.toList = true) :
    ∃ lead t, Walk s lead t ∧ Fresh options (cs.dropWhile isSpace) t ∧
      lead.all Event.isSpaces = true ∧ Event.concat lead = cs.takeWhile isSpace := by
  cases cs with
  | nil => exact ⟨[], s, .nil s, hs, rfl, rfl⟩
  | cons c cs =>
      cases hc : isSpace c with
      | false =>
          refine ⟨[], s, .nil s, ?_, rfl, ?_⟩
          · rwa [List.dropWhile_cons_of_neg (by simp [hc])]
          · rw [List.takeWhile_cons_of_neg (by simp [hc])]
            rfl
      | true =>
          obtain ⟨e, t, hstep, ht, he, htext⟩ := fresh_of_isSpace hvalid hs.options hs.terminator
            hs.openBlocks hs.hasCode hs.rest hc (.inl hs.line)
          refine ⟨[e], t, .cons hstep (.nil t), ht, by simp [he], ?_⟩
          rw [Event.concat_cons, Event.concat_nil, List.append_nil, htext]

theorem step_of_seam {s : Scanner} {following : List Char}
    (hseparates : Lexeme.Separates s.terminator) (hblocks : s.openBlocks = [])
    (hrest : s.rest = s.terminator ++ '\n' :: following) :
    s.step = .event (s.event .terminator s.terminator.length)
      (s.advance (s.event .terminator s.terminator.length)) := by
  obtain ⟨c, cs, hterminator, -, -⟩ := hseparates.exists_eq_cons
  have hat : s.atTerminator = true := by
    refine atTerminator_iff.mpr ⟨hblocks, _, hrest, ⟨?_, ?_⟩, ?_⟩
    · rw [hseparates.apart]
      exact fun h => Bool.false_ne_true h.2
    · exact fun h => Bool.false_ne_true h.2
    · -- Where one character is the terminator, a line feed comes after it.
      intro opener hmem hprefix
      rw [SplitOptions.byteLength_of_mem_commentOpeners hmem]
      have hpos := length_le_byteLength s.terminator
      rw [hterminator] at hprefix hpos ⊢
      cases cs with
      | nil =>
          rcases SplitOptions.mem_commentOpeners.mp hmem with ⟨-, rfl⟩ | ⟨-, rfl⟩
          all_goals simp at hprefix
      | cons d cs =>
          simp only [List.length_cons] at hpos
          omega
  have hcons : s.rest = c :: (cs ++ '\n' :: following) := by
    rw [hrest, hterminator]
    rfl
  apply step_of_lexeme hcons
  rw [lexeme, if_pos hat]

theorem walk_of_seam {options : SplitOptions} {s : Scanner} {following : List Char}
    (hseparates : Lexeme.Separates options.terminator.toList) (hoptions : s.options = options)
    (hterminator : s.terminator = options.terminator.toList) (hblocks : s.openBlocks = [])
    (hrest : s.rest = options.terminator.toList ++ '\n' :: following) :
    ∃ e lead t, Walk s (e :: lead) t ∧ e.kind = .terminator ∧
      Fresh options (following.dropWhile isSpace) t ∧ lead.all Event.isSpaces = true ∧
      Event.concat lead = '\n' :: following.takeWhile isSpace := by
  rw [← hterminator] at hseparates hrest
  have hstep := step_of_seam hseparates hblocks hrest
  have htext : (s.event .terminator s.terminator.length).text = s.terminator := by
    rw [event, hrest, List.take_left]
  have hpast : (s.advance (s.event .terminator s.terminator.length)).rest = '\n' :: following := by
    rw [advance, htext, hrest]
    exact List.drop_left
  have hfeed : isSpace '\n' = true := by decide
  have hmem : '\n' ∈ ('\n' :: following).takeWhile isSpace := by
    rw [List.takeWhile_cons_of_pos hfeed]
    exact List.mem_cons_self
  obtain ⟨e, t, hnext, ht, he, hspaces⟩ :=
    fresh_of_isSpace (s := s.advance (s.event .terminator s.terminator.length))
      (hterminator ▸ hseparates.isTerminator) hoptions hterminator hblocks rfl hpast hfeed
      (.inr hmem)
  rw [List.dropWhile_cons_of_pos hfeed] at ht
  rw [List.takeWhile_cons_of_pos hfeed] at hspaces
  refine ⟨_, [e], t, .cons hstep (.cons hnext (.nil t)), rfl, ht, by simp [he], ?_⟩
  rw [Event.concat_cons, Event.concat_nil, List.append_nil, hspaces]

end Scanner

/-- A scan that comes to a terminator with a line feed behind it goes on as the scan of the second
script, further on. The line feed is a space of the first event behind the terminator. -/
theorem scan_of_walk_to_seam {options : SplitOptions}
    (hseparates : Lexeme.Separates options.terminator.toList) {script second : List Char}
    {es : List Event} {t : Scanner} (hfirst : Walk (start options script) es t)
    (hrest : t.rest = options.terminator.toList ++ '\n' :: second)
    (hterminator : t.terminator = options.terminator.toList) (hblocks : t.openBlocks = [])
    {d : Nat} (hd : d + byteLength second = byteLength script) :
    ∃ e lead lead' fs, e.kind = .terminator ∧ e.text = options.terminator.toList ∧
      lead.all Event.isSpaces = true ∧ lead'.all Event.isSpaces = true ∧
      Event.concat lead' = '\n' :: Event.concat lead ∧
      (scan options second).events = lead ++ fs ∧
      (scan options script).events = es ++ e :: (lead' ++ fs.map (Event.moved d)) ∧
      (scan options script).ending = (scan options second).ending.moved d := by
  have hvalid := hseparates.isTerminator
  have hne := SplitOptions.terminator_ne_empty hvalid
  -- The terminator, and the spaces behind it.
  obtain ⟨e, lead', u, hseam, hkind, hu, hlead', hspaces'⟩ :=
    walk_of_seam hseparates hfirst.options_eq hterminator hblocks hrest
  have htext : e.text = options.terminator.toList := by
    cases hseam with
    | cons step _ => exact (visible_of_step step hkind).2.1.trans hterminator
  -- The second script by itself, and at its place behind the first.
  obtain ⟨lead, v, halone, hv, hlead, hspaces⟩ := (fresh_start options second).skip hvalid
  have hstops := scan_stops hne second
  obtain ⟨fs, hevents, hsecond⟩ := halone.exists_append (scan_walk options second) hstops
  have hbefore := hfirst.append hseam
  have hoffset : u.offset = v.offset + d := by
    have hwhole := congrArg byteLength hbefore.script_eq
    have hpart := congrArg byteLength halone.script_eq
    rw [byteLength_append _ u.rest, ← hbefore.offset_of_start, hu.rest] at hwhole
    rw [byteLength_append, ← halone.offset_of_start, hv.rest] at hpart
    omega
  obtain ⟨w, hlast, hw⟩ := (hv.moved hu hoffset).walk hsecond
  have hscan := scan_eq_of_walk hne (hbefore.append hlast) (hw.ending?_eq hstops)
  refine ⟨e, lead, lead', fs, hkind, htext, hlead, hlead', ?_, hevents, ?_, ?_⟩
  · rw [hspaces', hspaces]
  · rw [hscan, List.append_assoc]
    rfl
  · rw [hscan]

/-- A scan of two scripts with a line for the terminator between them is the scan of the first, the
terminator, and the scan of the second. The line feeds of the seam are spaces of the last event
before the terminator and of the first one after it. -/
theorem scan_append_seam {options : SplitOptions}
    (hseparates : Lexeme.Separates options.terminator.toList) {first : List Char}
    (hcomplete : (scan options first).ending = .complete)
    (hdepth : (scan options first).final.depth = 0)
    (hterminator : (scan options first).final.terminator = options.terminator.toList)
    (second : List Char) {d : Nat}
    (hd : d = byteLength (first ++ seam options.terminator.toList [])) :
    ∃ es e lead lead' fs, Resumed (scan options first).events es ∧ e.kind = .terminator ∧
      lead.all Event.isSpaces = true ∧ lead'.all Event.isSpaces = true ∧
      Event.concat lead' = '\n' :: Event.concat lead ∧
      (scan options second).events = lead ++ fs ∧
      (scan options (first ++ seam options.terminator.toList second)).events =
        es ++ e :: (lead' ++ fs.map (Event.moved d)) ∧
      (scan options (first ++ seam options.terminator.toList second)).ending =
        (scan options second).ending.moved d := by
  have hend := rest_of_scan_complete (SplitOptions.terminator_ne_empty hseparates.isTerminator)
    hcomplete
  obtain ⟨es, t, hfirst, hresumed, hrest, ht, hblocks⟩ :=
    (scan_walk options first).followedBy second hseparates hseparates.isTerminator hend hterminator
  have hlength : d + byteLength second =
      byteLength (first ++ seam options.terminator.toList second) := by
    rw [hd]
    simp only [seam, byteLength_append, byteLength]
    omega
  obtain ⟨e, lead, lead', fs, hkind, -, hscan⟩ := scan_of_walk_to_seam hseparates hfirst hrest ht
    (hblocks.trans (List.length_eq_zero_iff.mp hdepth)) hlength
  exact ⟨es, e, lead, lead', fs, hresumed, hkind, hscan⟩

/-! ### Statements -/

namespace Text

private theorem trim_cons_of_isBlank {c : Char} (hc : isBlank c = true) (cs : List Char) :
    trim (c :: cs) = trim cs := by
  rw [trim, trim, trimStart, trimStart, List.dropWhile_cons_of_pos hc]

private theorem trim_append_of_isBlank {c : Char} (hc : isBlank c = true) (cs : List Char) :
    trim (cs ++ [c]) = trim cs := by
  rw [trim, trim, trimStart, trimStart, List.dropWhile_append]
  split
  · rename_i hall
    rw [List.isEmpty_iff.mp hall, List.dropWhile_cons_of_pos hc]
    rfl
  · simp only [trimEnd, List.reverse_append, List.reverse_cons, List.reverse_nil, List.nil_append,
      List.singleton_append, List.dropWhile_cons_of_pos hc]

end Text

namespace Script

variable {options : SplitOptions}

theorem text_close (hempty : options.keepEmptyStatements = false)
    (hterminators : options.keepTerminators = false) (pending : List Char) (hasCode : Bool)
    (terminator : Option (List Char)) :
    (close options pending hasCode terminator).map (·.text) =
      if hasCode then [String.ofList (trim pending.reverse)] else [] := by
  unfold close
  rw [hempty, hterminators]
  cases hasCode <;> simp

theorem text_collect_nil (hempty : options.keepEmptyStatements = false)
    (hterminators : options.keepTerminators = false) (pending : List Char) (hasCode : Bool) :
    (collect options pending hasCode []).map (·.text) =
      if hasCode then [String.ofList (trim pending.reverse)] else [] := by
  rw [collect, hempty, Bool.false_and, Bool.or_false]
  split
  · rename_i hcode
    rw [text_close hempty hterminators, if_pos hcode]
  · rfl

theorem collect_cons_of_delimiterChange {e : Event} {delimiter : List Char}
    (he : e.kind = .delimiterChange delimiter) (pending : List Char) (hasCode : Bool)
    (es : List Event) :
    collect options pending hasCode (e :: es) = collect options [] false es := by
  rw [collect, he]

theorem collect_concat_lineFeed (hempty : options.keepEmptyStatements = false)
    (pending : List Char) (hasCode : Bool) (es : List Event) :
    collect options (pending ++ ['\n']) hasCode es = collect options pending hasCode es := by
  have hclose (pending : List Char) (hasCode : Bool) (terminator : Option (List Char)) :
      close options (pending ++ ['\n']) hasCode terminator =
        close options pending hasCode terminator := by
    simp only [close, List.reverse_append, List.reverse_cons, List.reverse_nil, List.nil_append,
      List.singleton_append, trim_cons_of_isBlank (show isBlank '\n' = true by decide)]
  induction es generalizing pending hasCode with
  | nil => simp only [collect, hclose, hempty, Bool.false_and]
  | cons e es ih =>
      unfold collect
      split
      · rw [hclose]
      · rfl
      all_goals rw [← List.append_assoc, ih]

theorem collect_moved (d : Nat) (pending : List Char) (hasCode : Bool) (es : List Event) :
    collect options pending hasCode (es.map (Event.moved d)) =
      collect options pending hasCode es := by
  induction es generalizing pending hasCode with
  | nil => rfl
  | cons e es ih =>
      obtain ⟨kind, start, text⟩ := e
      rw [List.map_cons]
      cases kind with
      | terminator =>
          change close options pending hasCode (some text) ++ collect options [] false _ = _
          rw [ih]
          rfl
      | delimiterChange =>
          change collect options [] false _ = _
          rw [ih]
          rfl
      | _ => exact ih _ _

theorem collect_cons_of_isSpaces {e : Event} (he : e.isSpaces = true) (pending : List Char)
    (hasCode : Bool) (es : List Event) :
    collect options pending hasCode (e :: es) =
      collect options (e.text.reverse ++ pending) hasCode es := by
  obtain ⟨hkind, hspaces⟩ := Bool.and_eq_true_iff.mp he
  rw [decide_eq_true_eq] at hkind
  have hblank := all_isBlank_of_all_isSpace hspaces
  have hcode : e.isCode = false := by
    rw [Event.isCode, hkind]
    simp [hblank]
  rw [collect, hkind]
  simp only [kept, hkind, hcode, Bool.or_false]

theorem collect_append_of_isSpaces {lead : List Event} (hlead : lead.all Event.isSpaces = true)
    (pending : List Char) (hasCode : Bool) (es : List Event) :
    collect options pending hasCode (lead ++ es) =
      collect options ((Event.concat lead).reverse ++ pending) hasCode es := by
  induction lead generalizing pending with
  | nil => rfl
  | cons e lead ih =>
      rw [List.all_cons, Bool.and_eq_true] at hlead
      rw [List.cons_append, collect_cons_of_isSpaces hlead.1, ih hlead.2, Event.concat_cons,
        List.reverse_append, List.append_assoc]

/-- A script of which a walk comes to a seam has the statements of the walk, and those of the second
script. -/
theorem collect_of_walk_to_seam (hempty : options.keepEmptyStatements = false)
    (hseparates : Lexeme.Separates options.terminator.toList) {script second : List Char}
    {es : List Event} {t : Scanner} (hfirst : Walk (start options script) es t)
    (hrest : t.rest = options.terminator.toList ++ '\n' :: second)
    (hterminator : t.terminator = options.terminator.toList) (hblocks : t.openBlocks = [])
    {d : Nat} (hd : d + byteLength second = byteLength script) :
    ∃ e fs, e.kind = .terminator ∧ e.text = options.terminator.toList ∧
      (scan options script).events = es ++ e :: fs ∧
      collect options [] false fs = collect options [] false (scan options second).events ∧
      (scan options script).ending = (scan options second).ending.moved d := by
  obtain ⟨e, lead, lead', fs, hkind, htext, hlead, hlead', hspaces, hsecond, hevents, hending⟩ :=
    scan_of_walk_to_seam hseparates hfirst hrest hterminator hblocks hd
  refine ⟨e, _, hkind, htext, hevents, ?_, hending⟩
  rw [collect_append_of_isSpaces hlead', hspaces, List.append_nil, List.reverse_cons,
    collect_concat_lineFeed hempty, collect_moved, hsecond, collect_append_of_isSpaces hlead,
    List.append_nil]

theorem text_collect_resumed (hempty : options.keepEmptyStatements = false)
    (hterminators : options.keepTerminators = false) {es es' : List Event}
    (h : Resumed es es') {e : Event} (he : e.kind = .terminator) (pending : List Char)
    (hasCode : Bool) (fs : List Event) :
    (collect options pending hasCode (es' ++ e :: fs)).map (·.text) =
      (collect options pending hasCode es).map (·.text) ++
        (collect options [] false fs).map (·.text) := by
  have hlast (pending : List Char) (hasCode : Bool) :
      (collect options pending hasCode (e :: fs)).map (·.text) =
        (collect options pending hasCode []).map (·.text) ++
          (collect options [] false fs).map (·.text) := by
    rw [text_collect_nil hempty hterminators, collect, he]
    simp only [List.map_append, text_close hempty hterminators]
  have htrim (pending : List Char) (hasCode : Bool) :
      (collect options ('\n' :: pending) hasCode []).map (·.text) =
        (collect options pending hasCode []).map (·.text) := by
    have hfeed : isBlank '\n' = true := by decide
    rw [text_collect_nil hempty hterminators, text_collect_nil hempty hterminators,
      List.reverse_cons, trim_append_of_isBlank hfeed]
  induction h generalizing pending hasCode with
  | apart start =>
      rw [List.singleton_append, collect_cons_of_isSpaces rfl, hlast]
      exact congrArg (· ++ _) (htrim pending hasCode)
  | @within last extensible =>
      rcases extensible with ⟨hkind, hspaces⟩ | ⟨delimiter, hkind⟩
      · have hshort : last.isSpaces = true := by
          rw [Event.isSpaces, hkind, hspaces]
          rfl
        have hlong : last.lengthened.isSpaces = true := by
          rw [Event.isSpaces, Event.lengthened, hkind, List.all_append, hspaces]
          rfl
        rw [List.singleton_append, collect_cons_of_isSpaces hlong, hlast,
          collect_cons_of_isSpaces hshort, Event.lengthened, List.reverse_append, List.append_assoc]
        exact congrArg (· ++ _) (htrim _ hasCode)
      · have hlong : last.lengthened.kind = .delimiterChange delimiter := hkind
        rw [List.singleton_append, collect_cons_of_delimiterChange hlong,
          collect_cons_of_delimiterChange hkind, hlast]
  | cons first more ih =>
      rw [List.cons_append, collect, collect]
      split
      · rw [List.map_append, List.map_append, ih, List.append_assoc]
      all_goals exact ih _ _

theorem split_eq (hvalid : options.Valid) (script : String) :
    split options script =
      match (scan options script.toList).error? script.toList with
      | some e => .error e
      | none =>
        .ok ((collect options [] false (scan options script.toList).events).map (·.text)) := by
  rw [split, splitStatements_eq hvalid]
  cases (scan options script.toList).error? script.toList with
  | some e => rfl
  | none => rfl

/-- Two scripts with a line for the terminator between them are split as each is by itself, provided
that the first one ends outside any block with the terminator it began with, which does not look
like a part of a word. An error in the second script is the same one, further on. -/
theorem split_append_seam (hvalid : options.Valid) (hempty : options.keepEmptyStatements = false)
    (hterminators : options.keepTerminators = false)
    (hword : options.terminator.toList.head?.any isWord = false) {first : String}
    (hcomplete : (scan options first.toList).ending = .complete)
    (hdepth : (scan options first.toList).final.depth = 0)
    (hterminator : (scan options first.toList).final.terminator = options.terminator.toList)
    (second : String) :
    let before := first ++ "\n" ++ options.terminator ++ "\n"
    (∀ texts', split options second = .ok texts' → ∃ texts, split options first = .ok texts ∧
      split options (before ++ second) = .ok (texts ++ texts')) ∧
    ∀ construct offset line,
      split options second = .error (.unbalanced construct offset line) →
      split options (before ++ second) = .error (.unbalanced construct
        (offset + byteLength before.toList) (line + before.toList.count '\n')) := by
  intro before
  have hbefore : before.toList = first.toList ++ seam options.terminator.toList [] := by
    simp [before, seam]
  have hwhole : (before ++ second).toList =
      first.toList ++ seam options.terminator.toList second.toList := by
    simp [before, seam]
  obtain ⟨es, e, lead, lead', fs, hresumed, hkind, hlead, hlead', hspaces, hsecond, hevents,
    hending⟩ := scan_append_seam ⟨hvalid.1, hword⟩ hcomplete hdepth hterminator second.toList
      (congrArg byteLength hbefore)
  have htexts : (collect options [] false (scan options (before ++ second).toList).events).map
      (·.text) = (collect options [] false (scan options first.toList).events).map (·.text) ++
        (collect options [] false (scan options second.toList).events).map (·.text) := by
    rw [hwhole, hevents, text_collect_resumed hempty hterminators hresumed hkind, hsecond,
      collect_append_of_isSpaces hlead', hspaces, List.append_nil, List.reverse_cons,
      collect_concat_lineFeed hempty, collect_moved, collect_append_of_isSpaces hlead,
      List.append_nil]
  have hfirst : split options first =
      .ok ((collect options [] false (scan options first.toList).events).map (·.text)) := by
    rw [split_eq hvalid, Scan.error?, hcomplete]
  rw [split_eq hvalid second, split_eq hvalid (before ++ second), htexts, hfirst]
  simp only [Scan.error?]
  rw [hwhole, hending]
  cases (scan options second.toList).ending with
  | unbalanced construct offset =>
      refine ⟨fun texts' hsplit => ?_, ?_⟩
      · cases hsplit
      rintro construct' offset' line ⟨⟩
      simp only [Ending.moved]
      rw [← lineAt_append, ← String.toList_append, hwhole]
  | complete | capped =>
      refine ⟨?_, fun construct offset line hsplit => ?_⟩
      · rintro texts' ⟨⟩
        exact ⟨_, rfl, rfl⟩
      · cases hsplit

/-- A comment that the first script ends in ends with it, and a string that the second one leaves
open is an error behind the seam. -/
theorem split_append_seam_open_string :
    ({} : SplitOptions).Valid ∧ (scan {} "a;b--c".toList).ending = .complete ∧
    (scan {} "a;b--c".toList).final.depth = 0 ∧
    (scan {} "a;b--c".toList).final.terminator = [';'] ∧
    (∃ texts, split {} "a;b--c" = .ok texts ∧
      split {} "a;b--c\n;\nBEGIN d;END" = .ok (texts ++ ["BEGIN d;END"])) ∧
    split {} "a;b--c\n;\n 'd" = .error (.unbalanced .singleQuoted (1 + 9) (1 + 2)) := by
  have hvalid : ({} : SplitOptions).Valid := by decide
  have hcomplete : (scan {} "a;b--c".toList).ending = .complete := rfl
  have hdepth : (scan {} "a;b--c".toList).final.depth = 0 := rfl
  have hterminator : (scan {} "a;b--c".toList).final.terminator = [';'] := rfl
  have hblock : split {} "BEGIN d;END" = .ok ["BEGIN d;END"] := rfl
  have hstring : split {} " 'd" = .error (.unbalanced .singleQuoted 1 1) := rfl
  exact ⟨hvalid, hcomplete, hdepth, hterminator,
    (split_append_seam hvalid rfl rfl (by decide) hcomplete hdepth hterminator _).1 _ hblock,
    (split_append_seam hvalid rfl rfl (by decide) hcomplete hdepth hterminator _).2 _ _ _ hstring⟩

end Script

end SqlBatch
