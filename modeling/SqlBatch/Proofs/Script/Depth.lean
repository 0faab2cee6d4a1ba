import SqlBatch.Proofs.Script.Composition
import SqlBatch.Proofs.Script.Strict

/-!
# How deep a scan is in blocks, and where a script is left open

The events of a scan tell at every place how many blocks are open there: an opener and an end have
the number behind them in their kind, and no block ends where none is open.

A script that is left open is told by where that begins. For a literal or a comment this is the
place that the scan has come to, and the text goes on with the opener. For blocks it is an event far
back: the last one that leads from outside all blocks into one.
-/

namespace SqlBatch

open Text Scanner

/-- What stands where a construct opens that has the given name in messages. -/
inductive OpenedBy : String → List Char → Prop
  | singleQuoted (cs : List Char) : OpenedBy "single-quoted string" ('\'' :: cs)
  | doubleQuoted (cs : List Char) : OpenedBy "double-quoted identifier" ('"' :: cs)
  | backtick (cs : List Char) : OpenedBy "backtick identifier" ('\x60' :: cs)
  | dollarQuoted {tag : List Char} (word : tag.all isWord = true)
      (name : tag ≠ [] → tag.head?.any isNameStart = true) (cs : List Char) :
      OpenedBy "dollar-quoted string" ('$' :: (tag ++ '$' :: cs))
  | blockComment (cs : List Char) : OpenedBy "block comment" ('/' :: '*' :: cs)
  | block {cs : List Char} (keyword : isKeyword (cs.takeWhile isWord) ["BEGIN", "CASE"] = true) :
      OpenedBy "BEGIN ... END block" cs

namespace Scanner

variable {s t : Scanner} {e : Event} {es : List Event}

theorem openedBy_of_lexeme {c : Char} {cs : List Char} {construct : Construct}
    (h : s.lexeme c cs = .error construct) : OpenedBy construct.description (c :: cs) := by
  cases unclosed_of_lexeme h with
  | blockComment first second unclosed =>
      obtain ⟨tail, rfl⟩ := List.head?_eq_some_iff.mp second
      rw [first]
      exact .blockComment tail
  | @quoted style first plain unclosed =>
      rw [first]
      cases style with
      | singleQuoted => exact .singleQuoted cs
      | doubleQuoted => exact .doubleQuoted cs
      | backtick => exact .backtick cs
      | dollar => exact absurd rfl plain
  | dollarQuoted first marker unclosed =>
      obtain ⟨-, tag, tail, rfl, hword, hname, -⟩ :=
        Lexeme.dollarMarkerLength?_eq_some_iff.mp marker
      rw [first]
      exact .dollarQuoted hword hname tail

private theorem openedBy_of_opensBlock (h : s.step = .event e t) (hopens : e.opensBlock = true) :
    OpenedBy Construct.block.description s.rest := by
  obtain ⟨c, cs, -, hlexed, -⟩ := step_eq_event h
  obtain ⟨kind, start, text⟩ := e
  cases kind with
  | blockBegin depth =>
      generalize text.length = n at hlexed
      cases hlexed with
      | blockBegin apart first undirected enabled unqualified opens =>
          apply OpenedBy.block
          rw [word] at opens
          simp only [isKeyword, List.any_cons, List.any_nil, Bool.or_false] at opens ⊢
          rcases opens with hcase | ⟨hbegin, -⟩
          · rw [hcase, Bool.or_true]
          · rw [hbegin, Bool.true_or]
  | _ => cases hopens

theorem depth_of_blockKind (h : s.step = .event e t) {depth : Nat}
    (hkind : e.kind = .blockBegin depth ∨ e.kind = .blockEnd depth) : depth = t.depth := by
  obtain ⟨c, cs, -, hlexed, -, -, rfl⟩ := step_eq_event h
  obtain ⟨kind, start, text⟩ := e
  generalize hlength : text.length = n at hlexed
  rcases hkind with rfl | rfl
  · cases hlexed with
    | blockBegin => rfl
  · cases hlexed with
    | blockEnd =>
        show s.openBlocks.length - 1 = s.openBlocks.tail.length
        rw [List.length_tail]

private theorem depth_pos_of_closesBlock (h : s.step = .event e t)
    (hcloses : e.closesBlock = true) : 0 < s.depth := by
  obtain ⟨c, cs, -, hlexed, -⟩ := step_eq_event h
  obtain ⟨kind, start, text⟩ := e
  cases kind with
  | blockEnd depth => exact List.length_pos_iff.mpr hlexed.inside_of_blockEnd
  | _ => cases hcloses

private theorem Inside.kind_ne_blockBegin_one (h : Inside s es t) :
    ∀ e ∈ es, e.kind ≠ .blockBegin 1 := by
  induction h with
  | nil inside => exact fun _ hmem => absurd hmem List.not_mem_nil
  | @cons s s' t e es inside step _ ih =>
      refine List.forall_mem_cons.mpr ⟨fun hkind => ?_, ih⟩
      have hdepth := depth_of_blockKind step (.inl hkind)
      have hadd := depth_of_step step
      have hpos : 0 < s.depth := List.length_pos_iff.mpr inside
      simp only [Event.closesBlock, Event.opensBlock, hkind] at hadd
      simp only [Bool.false_eq_true, if_false, if_true] at hadd
      omega

end Scanner

theorem Text.lineAt_byteLength (before after : List Char) :
    lineAt (before ++ after) (byteLength before) = 1 + before.count '\n' := by
  have hzero : lineFeedsBefore 0 after = 0 := by
    cases after <;> rfl
  have happend := lineFeedsBefore_append before after 0
  rw [hzero, Nat.add_zero, Nat.add_zero] at happend
  rw [lineAt, happend, Nat.add_comm]

/-! ### Scans of any length -/

section

variable {options : SplitOptions} {script : List Char} {es : List Event} {t : Scanner}

/-- A block that is open at the end of a walk and in no other block: its opener is the last event
that leads into a block from outside, and from there on a block is open all along. -/
structure Outermost (es lead : List Event) (opener : Event) (inside : List Event) : Prop where
  events : es = lead ++ opener :: inside
  opens : opener.kind = .blockBegin 1
  last : ∀ e ∈ inside, e.kind ≠ .blockBegin 1
  outside : lead.countP Event.closesBlock = lead.countP Event.opensBlock
  stays : ∀ done rest, inside = done ++ rest →
    (lead ++ opener :: done).countP Event.closesBlock <
      (lead ++ opener :: done).countP Event.opensBlock

theorem exists_outermost (h : Walk (start options script) es t) (ht : t.openBlocks ≠ []) :
    ∃ lead opener inside after, Outermost es lead opener inside ∧
      t.openBlocks.getLast? = some opener.start ∧
      opener.start = byteLength (Event.concat lead) ∧ script = Event.concat lead ++ after ∧
      OpenedBy Construct.block.description after := by
  rcases h.inside_or_exists_opener ht with
    hinside | ⟨lead, opener, inside, u, v, rfl, hlead, hu, hstep, hinside⟩
  · exact absurd rfl hinside.openBlocks_ne_nil
  obtain ⟨hkind, hv⟩ := opens_of_step hu hinside.openBlocks_ne_nil hstep
  refine ⟨lead, opener, inside, u.rest, ⟨rfl, hkind, hinside.kind_ne_blockBegin_one, ?_, ?_⟩, ?_,
    ?_, hlead.script_eq, openedBy_of_opensBlock hstep (by rw [Event.opensBlock, hkind])⟩
  · have hdepth : u.depth = 0 := List.length_eq_zero_iff.mpr hu
    have hadd := hlead.depth_add_of_start
    omega
  · rintro done rest rfl
    obtain ⟨w, hwalk, hw⟩ := hinside.exists_walk
    have hpos : 0 < w.depth := List.length_pos_iff.mpr hw
    have hadd := (hlead.append (.cons hstep hwalk)).depth_add_of_start
    omega
  · rw [hinside.getLast?_openBlocks, hv, List.getLast?_singleton]
  · rw [start_of_step hstep, hlead.offset_of_start]

private theorem countP_of_blockKind {before : List Event} {e : Event} {after : List Event}
    (h : Walk (start options script) (before ++ e :: after) t) :
    (∀ depth, e.kind = .blockBegin depth ∨ e.kind = .blockEnd depth →
      depth + (before ++ [e]).countP Event.closesBlock =
        (before ++ [e]).countP Event.opensBlock) ∧
    (e.closesBlock = true →
      before.countP Event.closesBlock < before.countP Event.opensBlock) := by
  obtain ⟨s, hbefore, hafter⟩ := h.split
  cases hafter with
  | @cons _ u _ _ _ step _ =>
      constructor
      · intro depth hkind
        rw [depth_of_blockKind step hkind]
        exact (hbefore.append (.cons step (.nil u))).depth_add_of_start
      · intro hcloses
        have hpos := depth_pos_of_closesBlock step hcloses
        have hadd := hbefore.depth_add_of_start
        omega

end

/-- **The depth of blocks is exact, and errors point at what was left open.** After any number of
events of a scan, the depth is the number of openers less the number of ends, every opener and end
has the depth behind it, and there is no end at depth zero. Where a scan fails, the error has the
number of bytes before the opener of what it names, and one line more than there are line feeds
before it. A literal or comment begins where the events end, and of the blocks it is the outermost
one that is open. -/
theorem run_blocks_exact (options : SplitOptions) (script : List Char) (n : Nat) :
    let found := (start options script).run n
    found.final.depth + found.events.countP Event.closesBlock =
      found.events.countP Event.opensBlock ∧
    (∀ before e after, found.events = before ++ e :: after →
      (∀ depth, e.kind = .blockBegin depth ∨ e.kind = .blockEnd depth →
        depth + (before ++ [e]).countP Event.closesBlock =
          (before ++ [e]).countP Event.opensBlock) ∧
      (e.closesBlock = true →
        before.countP Event.closesBlock < before.countP Event.opensBlock)) ∧
    ∀ error, found.error? script = some error →
      ∃ construct before after, script = before ++ after ∧
        error = .unbalanced construct (byteLength before) (1 + before.count '\n') ∧
        OpenedBy construct.description after ∧
        (construct ≠ .block → before = Event.concat found.events) ∧
        (construct = .block → script = Event.concat found.events ∧
          ∃ lead opener inside, Outermost found.events lead opener inside ∧
            before = Event.concat lead ∧ opener.start = byteLength before) := by
  intro found
  have hwalk : Walk (start options script) found.events found.final := run_walk n _
  refine ⟨hwalk.depth_add_of_start, fun before e after hevents => ?_, fun error herror => ?_⟩
  · rw [hevents] at hwalk
    exact countP_of_blockKind hwalk
  · unfold Scan.error? at herror
    split at herror
    · rename_i construct offset hending
      obtain rfl := Option.some.inj herror
      rcases step_eq_unbalanced (step_of_run_unbalanced hending) with
        ⟨rfl, hrest, hlast, -⟩ | ⟨c, cs, hrest, hlexeme, rfl⟩
      · have hopen : found.final.openBlocks ≠ [] := by
          intro hnil
          rw [hnil] at hlast
          cases hlast
        obtain ⟨lead, opener, inside, after, houtermost, hopener, hstart, hscript, hafter⟩ :=
          exists_outermost hwalk hopen
        obtain rfl : opener.start = offset := Option.some.inj (hopener.symm.trans hlast)
        refine ⟨.block, Event.concat lead, after, hscript, ?_, hafter, fun h => absurd rfl h,
          fun _ => ⟨?_, lead, opener, inside, houtermost, rfl, hstart⟩⟩
        · rw [hstart, hscript, lineAt_byteLength]
        · have hwhole := hwalk.script_eq
          rwa [hrest, List.append_nil] at hwhole
      · have hscript : script = Event.concat found.events ++ c :: cs := hrest ▸ hwalk.script_eq
        have hoffset : found.final.offset = byteLength (Event.concat found.events) :=
          hwalk.offset_of_start
        refine ⟨construct, Event.concat found.events, c :: cs, hscript, ?_,
          openedBy_of_lexeme hlexeme, fun _ => rfl,
          fun h => absurd h (ne_block_of_lexeme_eq_error hlexeme)⟩
        rw [hoffset]
        conv => lhs; rw [hscript, lineAt_byteLength]
    · cases herror

/-- The first CASE is closed, and behind the line feed there is a block with another one in it. -/
theorem run_blocks_exact_case :
    let script := "SELECT CASE 1 END;\n BEGIN a; CASE b".toList
    let found := scan {} script
    found.final.depth + found.events.countP Event.closesBlock =
      found.events.countP Event.opensBlock ∧
    found.events = found.events.take 6 ++ ⟨.blockEnd 0, 14, "END".toList⟩ :: found.events.drop 7 ∧
    (found.events.take 6).countP Event.closesBlock <
      (found.events.take 6).countP Event.opensBlock ∧
    found.error? script = some (.unbalanced .block 20 2) ∧
    ∃ lead opener inside, Outermost found.events lead opener inside ∧ opener.start = 20 := by
  intro script found
  have hend : found.events =
      found.events.take 6 ++ ⟨.blockEnd 0, 14, "END".toList⟩ :: found.events.drop 7 := by
    decide +kernel
  have herror : found.error? script = some (.unbalanced .block 20 2) := by decide +kernel
  obtain ⟨hdepth, hblock, hplace⟩ := run_blocks_exact {} script (script.length + 1)
  obtain ⟨construct, before, after, -, hsame, -, -, hopen⟩ := hplace _ herror
  obtain ⟨rfl, hoffset, -⟩ := SplitError.unbalanced.inj hsame
  obtain ⟨-, lead, opener, inside, houtermost, -, hstart⟩ := hopen rfl
  refine ⟨hdepth, hend, (hblock _ _ _ hend).2 rfl, herror, lead, opener, inside, houtermost, ?_⟩
  rw [hstart, ← hoffset]

/-- A quote that is not closed inside a block is named before the block is. -/
example : (scan {} "BEGIN a;\n'b".toList).error? "BEGIN a;\n'b".toList =
    some (.unbalanced .singleQuoted 9 2) := by decide +kernel

end SqlBatch
