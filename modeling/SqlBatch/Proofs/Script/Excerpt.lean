import SqlBatch.Proofs.Script.Seam

/-!
# Excerpts of a script

The text of a statement is an excerpt of its script. A scanner that sees no more than the excerpt
goes the way of the scan of the whole script. Behind the excerpt come only blanks, and then a
terminator or the end of the script, so no word goes on there and no look ahead finds one.

At the end of the excerpt two things may be different. A line comment loses the blanks at its end.
And a BEGIN at the very end opens no block, for nothing comes after it; in the whole script a blank
beyond ASCII may come there.
-/

namespace SqlBatch

open Text

namespace Text

theorem getLast?_any_of_append {p : Char → Bool} {xs ys : List Char}
    (h : (xs ++ ys).getLast?.any p = false) : ys.getLast?.any p = false := by
  rw [List.getLast?_append] at h
  cases hys : ys.getLast? with
  | none => rfl
  | some c => simpa [hys] using h

theorem eq_nil_of_all {p : Char → Bool} {cs : List Char} (h : cs.all p = true)
    (hlast : cs.getLast?.any p = false) : cs = [] := by
  rcases List.eq_nil_or_concat cs with rfl | ⟨init, c, rfl⟩
  · rfl
  · simp only [List.concat_eq_append, List.all_append, List.all_cons, Bool.and_eq_true] at h
    simp [h.2.1] at hlast

theorem straddles_of_prefix_append {xs ys zs : List Char} (h : xs <+: ys ++ zs)
    (hnot : ¬ xs <+: ys) : ∃ more post, more ≠ [] ∧ xs = ys ++ more ∧ zs = more ++ post := by
  obtain ⟨post, hpost⟩ := h
  rcases List.append_eq_append_iff.mp hpost with ⟨more, hys, -⟩ | ⟨more, hxs, hzs⟩
  · exact absurd ⟨more, hys.symm⟩ hnot
  · refine ⟨more, post, ?_, hxs, hzs⟩
    rintro rfl
    exact hnot ⟨[], by rw [hxs, List.append_nil, List.append_nil]⟩

theorem prefix_of_prefix_append {p : Char → Bool} {xs ys zs : List Char} (h : xs <+: ys ++ zs)
    (hxs : ∀ c ∈ xs, p c = false) (hzs : zs.head?.all p = true) : xs <+: ys := by
  refine Classical.byContradiction fun hnot => ?_
  obtain ⟨more, post, hmore, rfl, rfl⟩ := straddles_of_prefix_append h hnot
  obtain ⟨c, more, rfl⟩ := List.exists_cons_of_ne_nil hmore
  rw [List.cons_append, List.head?_cons, Option.all_some, hxs c (by simp)] at hzs
  cases hzs

private theorem head?_all_of_all {p : Char → Bool} {cs : List Char} (h : cs.all p = true) :
    cs.head?.all p = true := by
  cases cs with
  | nil => rfl
  | cons c cs => exact List.all_eq_true.mp h c List.mem_cons_self

theorem isKeyword_begin {word : List Char} (h : isKeyword word ["BEGIN"] = true) :
    isKeyword word ["CASE"] = false ∧ isKeyword word ["END"] = false := by
  simp only [isKeyword, List.any_cons, List.any_nil, Bool.or_false, sameWord, beq_iff_eq] at h ⊢
  rw [h]
  decide

end Text

theorem SplitOptions.not_isBlank_of_mem_commentOpeners {options : SplitOptions}
    {opener : List Char} (h : opener ∈ options.commentOpeners) :
    ∀ c ∈ opener, isBlank c = false := by
  rcases mem_commentOpeners.mp h with ⟨-, rfl⟩ | ⟨-, rfl⟩
  all_goals exact List.forall_mem_cons.mpr ⟨by decide, List.forall_mem_singleton.mpr (by decide)⟩

namespace Lexeme

theorem terminatorAt_of_wordless {terminator : List Char}
    (h : ∀ c ∈ terminator, isWord c = false) (previous : Option Char) (cs : List Char) :
    terminatorAt terminator previous cs = true ↔ terminator <+: cs := by
  have hhead : terminator.head?.any isWord = false := by
    cases terminator with
    | nil => rfl
    | cons c terminator => exact h c List.mem_cons_self
  have hlast : terminator.getLast?.any isWord = false := by
    rw [Option.any_eq_false_iff_get]
    exact fun hsome => h _ (List.mem_of_mem_getLast? (Option.get_mem hsome))
  unfold terminatorAt
  cases hafter : after? terminator cs with
  | none =>
      refine iff_of_false Bool.false_ne_true ?_
      rintro ⟨post, rfl⟩
      rw [after?_eq_some_iff.mpr rfl] at hafter
      cases hafter
  | some post =>
      exact iff_of_true (by simp [hhead, hlast]) ⟨post, (after?_eq_some_iff.mp hafter).symm⟩

end Lexeme

namespace Scanner

/-- A scanner that knows of no directive and whose terminator has nothing to do with words. -/
structure Plain (s : Scanner) : Prop where
  isTerminator : SplitOptions.isTerminator s.terminator = true
  undirected : s.options.delimiterKeyword = none
  wordless : ∀ c ∈ s.terminator, isWord c = false
  undotted : s.terminator.getLast? ≠ some '.'

namespace Plain

variable {s t : Scanner} {e : Event}

theorem ne_nil (hs : s.Plain) : s.terminator ≠ [] :=
  SplitOptions.ne_nil_of_isTerminator hs.isTerminator

theorem not_isBlank (hs : s.Plain) : ∀ c ∈ s.terminator, isBlank c = false :=
  fun _ => SplitOptions.not_isBlank_of_isTerminator hs.isTerminator

theorem directive?_eq_none (hs : s.Plain) (word following : List Char) :
    s.directive? word following = none := by
  rw [directive?, hs.undirected]

theorem delimiter?_of_step (hs : s.Plain) (h : s.step = .event e t) : e.delimiter? = none := by
  obtain ⟨c, cs, hrest, hlexed, -⟩ := step_eq_event h
  obtain ⟨kind, start, text⟩ := e
  cases kind with
  | delimiterChange delimiter =>
      obtain ⟨m, hnamed⟩ := hlexed.named_of_delimiterChange
      rw [hs.directive?_eq_none] at hnamed
      cases hnamed
  | _ => rfl

theorem terminator_of_step (hs : s.Plain) (h : s.step = .event e t) :
    t.terminator = s.terminator := by
  rw [terminator_eq_of_step h, hs.delimiter?_of_step h]
  rfl

theorem of_step (hs : s.Plain) (h : s.step = .event e t) : t.Plain := by
  have hoptions : t.options = s.options := by
    rw [advance_of_step h]
    rfl
  have hterminator := hs.terminator_of_step h
  exact ⟨hterminator ▸ hs.isTerminator, hoptions ▸ hs.undirected, hterminator ▸ hs.wordless,
    hterminator ▸ hs.undotted⟩

theorem atTerminator_iff (hs : s.Plain) : s.atTerminator = true ↔
    s.openBlocks = [] ∧ s.terminator <+: s.rest ∧
      s.commentOpenerLength ≤ byteLength s.terminator := by
  rw [atTerminator, Bool.and_eq_true, Bool.and_eq_true, List.isEmpty_iff,
    Lexeme.terminatorAt_of_wordless hs.wordless, decide_eq_true_eq, and_assoc]

theorem wordLexeme_eq (hs : s.Plain) : s.wordLexeme = s.keywordLexeme := by
  rw [Scanner.wordLexeme_eq, hs.directive?_eq_none]
  rfl

end Plain

/-! ### Words at the end of an excerpt -/

/-- A scanner in a script, and one in an excerpt behind which the script goes on. -/
structure Excerpt (more : List Char) (s a : Scanner) : Prop where
  options : a.options = s.options
  terminator : a.terminator = s.terminator
  rest : s.rest = a.rest ++ more
  depth : a.depth = s.depth
  word : a.previous.any isWord = s.previous.any isWord
  dot : a.previous = some '.' ↔ s.previous = some '.'

/-- Where BEGIN is at the place and the end of the excerpt is not, the terminator that BEGIN looks
for is not begun in the excerpt and ended behind it. -/
def Unstraddled (more : List Char) (s a : Scanner) : Prop :=
  isKeyword s.word ["BEGIN"] = true → a.afterWord.all isSpace = false →
    s.terminator <+: a.afterWord.dropWhile isSpace ++ more →
    s.terminator <+: a.afterWord.dropWhile isSpace

variable {s a t : Scanner} {e : Event} {more : List Char}

theorem keywordLexeme_of_begin (h : isKeyword s.word ["BEGIN"] = true) :
    s.keywordLexeme.2 = s.word.length := by
  obtain ⟨hcase, hend⟩ := isKeyword_begin h
  unfold keywordLexeme
  rw [hcase, hend]
  split
  · rfl
  split <;> rfl

namespace Excerpt

theorem plain (h : Excerpt more s a) (hs : s.Plain) : a.Plain :=
  ⟨h.terminator ▸ hs.isTerminator, h.options ▸ hs.undirected, h.terminator ▸ hs.wordless,
    h.terminator ▸ hs.undotted⟩

theorem word_eq (h : Excerpt more s a) (hmore : Lexeme.nextWord more = []) :
    a.word = s.word := by
  rw [Scanner.word, Scanner.word, h.rest,
    takeWhile_append_of_head? (Lexeme.head?_of_nextWord_eq_nil hmore)]

private theorem afterWord_eq (h : Excerpt more s a) (hmore : Lexeme.nextWord more = []) :
    s.afterWord = a.afterWord ++ more := by
  have hle : a.word.length ≤ a.rest.length := length_takeWhile_le isWord a.rest
  rw [afterWord, afterWord, ← h.word_eq hmore, h.rest, List.drop_append_of_le_length hle]

/-- A word is the same in the excerpt, unless it is a BEGIN at its end. -/
theorem keywordLexeme_eq (h : Excerpt more s a) (hmore : Lexeme.nextWord more = [])
    (hlast : a.rest.getLast?.any isBlank = false)
    (hwhole : Unstraddled more s a) (hs : s.Plain) :
    a.keywordLexeme = s.keywordLexeme ∨
      s.keywordLexeme = (.blockBegin (s.depth + 1), s.word.length) ∧
        a.keywordLexeme = (.code, s.word.length) ∧ a.afterWord = [] := by
  have hword := h.word_eq hmore
  have hafter := h.afterWord_eq hmore
  have hend : isKeyword s.word ["END"] = true →
      Lexeme.endClosesBlock? a.afterWord = Lexeme.endClosesBlock? s.afterWord := fun _ => by
    rw [hafter, Lexeme.endClosesBlock?_append hmore]
  cases hspaces : a.afterWord.all isSpace with
  | false =>
      refine .inl (keywordLexeme_congr h.options h.dot hword (fun hbegin => ?_) hend h.depth)
      rw [h.terminator, hword, hafter, Lexeme.beginOpensBlock_append hmore _ _ hspaces]
      intro previous
      rw [Bool.eq_iff_iff, Lexeme.terminatorAt_of_wordless hs.wordless,
        Lexeme.terminatorAt_of_wordless hs.wordless]
      exact ⟨hwhole hbegin hspaces, fun hstarts => hstarts.trans (List.prefix_append _ _)⟩
  | true =>
      -- No space ends the excerpt, so nothing at all comes after the word.
      rw [rest_eq_word_append] at hlast
      have hnil := eq_nil_of_all (all_isBlank_of_all_isSpace hspaces) (getLast?_any_of_append hlast)
      have hclosed : Lexeme.beginOpensBlock a.terminator a.word a.afterWord = false := by
        rw [hnil]
        rfl
      cases hopens : isKeyword s.word ["BEGIN"] &&
          Lexeme.beginOpensBlock s.terminator s.word s.afterWord with
      | false =>
          refine .inl (keywordLexeme_congr h.options h.dot hword (fun hbegin => ?_) hend h.depth)
          rw [hbegin, Bool.true_and] at hopens
          rw [hclosed, hopens]
      | true =>
          obtain ⟨hcase, hnotEnd⟩ := isKeyword_begin (Bool.and_eq_true_iff.mp hopens).1
          have hplain : a.keywordLexeme = (.code, s.word.length) := by
            rw [keywordLexeme, hclosed, hword, hcase, hnotEnd]
            simp
          cases hoff : !s.options.blocks || decide (s.previous = some '.') with
          | true =>
              refine .inl (hplain.trans ?_)
              rw [keywordLexeme, if_pos hoff]
          | false =>
              refine .inr ⟨?_, hplain, hnil⟩
              rw [keywordLexeme, hoff, hopens]
              rfl

theorem visibleLexeme_eq (h : Excerpt more s a) (hmore : Lexeme.nextWord more = [])
    (hlast : a.rest.getLast?.any isBlank = false)
    (hwhole : Unstraddled more s a) (hs : s.Plain) {c : Char} {cs : List Char}
    (hrest : a.rest = c :: cs) :
    a.visibleLexeme c cs = s.visibleLexeme c (cs ++ more) ∨
      s.visibleLexeme c (cs ++ more) = (.blockBegin (s.depth + 1), a.rest.length) ∧
        a.visibleLexeme c cs = (.code, a.rest.length) := by
  unfold visibleLexeme
  split
  · rw [hs.wordLexeme_eq, (h.plain hs).wordLexeme_eq]
    rcases h.keywordLexeme_eq hmore hlast hwhole hs with hsame | ⟨hopens, hplain, hnil⟩
    · exact .inl hsame
    · have hlength : s.word.length = a.rest.length := by
        rw [rest_eq_word_append a, hnil, List.append_nil, h.word_eq hmore]
      rw [← hlength]
      exact .inr ⟨hopens, hplain⟩
  refine .inl ?_
  split
  · have hspaces : (c :: cs).all isSpace = false := by
      rw [← Bool.not_eq_true]
      intro hall
      have hnil := eq_nil_of_all (all_isBlank_of_all_isSpace hall) (hrest ▸ hlast)
      cases hnil
    rw [← List.cons_append, takeWhile_append_of_not_all hspaces]
  · rfl

end Excerpt

/-! ### Steps in an excerpt -/

theorem opener_prefix_of_step (hterminator : s.terminator ≠ []) (h : s.step = .event e t)
    (hcut : e.isCut = false) {opener : List Char} (hmem : opener ∈ s.options.commentOpeners)
    (hstarts : opener <+: s.rest) : opener <+: e.text := by
  obtain ⟨c, text, htext, hrest, -, hshown⟩ := lexeme_of_not_isCut hterminator h hcut
  rw [hrest] at hstarts
  -- A comment opens here, and it is longer than one character.
  have hlong : text ≠ [] := by
    rintro rfl
    rw [List.nil_append] at hstarts hshown
    rcases SplitOptions.mem_commentOpeners.mp hmem with ⟨henabled, rfl⟩ | ⟨henabled, rfl⟩
    · obtain ⟨rfl, rest, hopener⟩ := List.cons_prefix_cons.mp hstarts
      rw [← hopener, (Lexeme.Hides.lineComment rfl rfl henabled).hidden?_eq,
        Lexeme.lineLength_cons (by decide)] at hshown
      simp [Lexeme.lineLength] at hshown
    · obtain ⟨rfl, rest, hopener⟩ := List.cons_prefix_cons.mp hstarts
      rw [← hopener] at hshown
      simp [Lexeme.hidden?, henabled] at hshown
      obtain ⟨-, m, -, hlength⟩ := closedBy_eq_ok hshown
      omega
  obtain ⟨d, rest, rfl⟩ := List.exists_cons_of_ne_nil hlong
  rw [htext]
  rcases SplitOptions.mem_commentOpeners.mp hmem with ⟨-, rfl⟩ | ⟨-, rfl⟩
  all_goals
    obtain ⟨rfl, hsecond⟩ := List.cons_prefix_cons.mp hstarts
    obtain ⟨rfl, -⟩ := List.cons_prefix_cons.mp hsecond
    exact ⟨rest, rfl⟩

namespace Excerpt

theorem not_atTerminator (h : Excerpt more s a) (hs : s.Plain) (hapart : s.atTerminator = false)
    (hopener : ∀ opener ∈ s.options.commentOpeners, opener <+: s.rest → opener <+: a.rest) :
    a.atTerminator = false := by
  rw [← Bool.not_eq_true] at hapart ⊢
  intro hat
  obtain ⟨houtside, hstarts, hle⟩ := (h.plain hs).atTerminator_iff.mp hat
  rw [h.terminator] at hstarts hle
  refine hapart (hs.atTerminator_iff.mpr ⟨?_, ?_, ?_⟩)
  · have hdepth := h.depth
    rw [Scanner.depth, houtside] at hdepth
    exact List.length_eq_zero_iff.mp hdepth.symm
  · rw [h.rest]
    exact hstarts.trans (List.prefix_append _ _)
  · refine commentOpenerLength_le_iff.mpr fun opener hmem hstarts => ?_
    refine commentOpenerLength_le_iff.mp hle opener ?_ (hopener opener hmem hstarts)
    rw [h.options]
    exact hmem

theorem advance (h : Excerpt more s a) {kind : EventKind} {text after : List Char} (start : Nat)
    (hne : text ≠ []) (hrest : a.rest = text ++ after) :
    Excerpt more (s.advance ⟨kind, start, text⟩) (a.advance ⟨kind, a.offset, text⟩) where
  options := h.options
  terminator := by
    have hterminator := h.terminator
    cases kind <;> first | exact hterminator | rfl
  rest := by
    change s.rest.drop text.length = a.rest.drop text.length ++ more
    rw [h.rest, hrest, List.append_assoc, List.drop_left, List.drop_left]
  depth := by
    have hdepth := h.depth
    simp only [Scanner.depth] at hdepth ⊢
    cases kind <;> simp [Scanner.advance, hdepth]
  word := by
    simp only [previous, Scanner.advance, List.head?_append, List.head?_reverse,
      List.getLast?_eq_some_getLast hne, Option.some_or]
  dot := by
    simp only [previous, Scanner.advance, List.head?_append, List.head?_reverse,
      List.getLast?_eq_some_getLast hne, Option.some_or]

theorem step_of_lexeme (h : Excerpt more s a) (hstep : s.step = .event e t) {c : Char}
    {text after : List Char} (htext : e.text = c :: text) (hrest : a.rest = c :: (text ++ after))
    (hlexeme : a.lexeme c (text ++ after) = .ok (e.kind, text.length + 1)) :
    ∃ b, a.step = .event { e with start := a.offset } b ∧ Excerpt more t b := by
  have hfirst := step_of_lexeme_append hrest hlexeme
  rw [← htext] at hfirst
  refine ⟨_, hfirst, ?_⟩
  rw [advance_of_step hstep]
  obtain ⟨kind, start, text'⟩ := e
  obtain rfl : text' = c :: text := htext
  exact h.advance start (List.cons_ne_nil c text) hrest

theorem exists_step_to_end {c : Char} {cs : List Char} {kind : EventKind} (hrest : a.rest = c :: cs)
    (hlexeme : a.lexeme c cs = .ok (kind, cs.length + 1))
    (hkind : kind = .code ∨ kind.hides = true) :
    ∃ b, a.step = .event ⟨kind, a.offset, a.rest⟩ b ∧ b.rest = [] ∧ b.depth = a.depth := by
  have hrest' : a.rest = c :: (cs ++ []) := by rw [List.append_nil, hrest]
  have hlexeme' : a.lexeme c (cs ++ []) = .ok (kind, cs.length + 1) := by
    rwa [List.append_nil]
  have hfirst := step_of_lexeme_append hrest' hlexeme'
  rw [← hrest] at hfirst
  refine ⟨_, hfirst, List.drop_length, ?_⟩
  have hdepth := depth_of_step hfirst
  rcases hkind with rfl | hhides
  · exact hdepth
  · cases kind with
    | comment | literal => exact hdepth
    | _ => cases hhides

/-- A scanner takes in the excerpt what it takes in the script, or less of it at the end. -/
def Takes (more : List Char) (a : Scanner) (e : Event) (t : Scanner) : Prop :=
  ∃ e' b, a.step = .event e' b ∧ e'.isCut = false ∧ e'.isCode = e.isCode ∧
    (e'.text = e.text ∧ Excerpt more t b ∨
      a.rest <+: e.text ∧ b.rest = [] ∧ b.depth ≤ t.depth)

theorem takes_of_visible (h : Excerpt more s a) (hs : s.Plain)
    (hmore : Lexeme.nextWord more = []) (hlast : a.rest.getLast?.any isBlank = false)
    (hwhole : Unstraddled more s a) (hstep : s.step = .event e t) (hcut : e.isCut = false)
    {c : Char} {cs text : List Char} (he : e.text = c :: text) (hcs : a.rest = c :: cs)
    (hsplit : cs ++ more = text ++ t.rest)
    (hvisible : s.visibleLexeme c (cs ++ more) = (e.kind, text.length + 1))
    (hlexeme : a.lexeme c cs = .ok (a.visibleLexeme c cs)) : Takes more a e t := by
  rcases h.visibleLexeme_eq hmore hlast hwhole hs hcs with hsame | ⟨hopens, hplain⟩
  · rw [hsame, hvisible] at hlexeme
    obtain ⟨text', after, rfl, hlength⟩ := exists_append_of_lexeme (h.plain hs).ne_nil hcs hlexeme
    rw [List.append_assoc] at hsplit
    obtain ⟨rfl, -⟩ := List.append_inj hsplit (by omega)
    obtain ⟨b, hfirst, hb⟩ := h.step_of_lexeme hstep he hcs hlexeme
    exact ⟨_, b, hfirst, hcut, rfl, .inl ⟨rfl, hb⟩⟩
  · -- BEGIN at the end of the excerpt.
    rw [hopens, Prod.mk.injEq, hcs, List.length_cons, Nat.add_right_cancel_iff] at hvisible
    rw [hplain, hcs, List.length_cons] at hlexeme
    obtain ⟨rfl, -⟩ := List.append_inj hsplit hvisible.2
    obtain ⟨b, hfirst, hb, hdepth⟩ := exists_step_to_end hcs hlexeme (.inl rfl)
    have hstarts : a.rest <+: e.text := ⟨[], by rw [List.append_nil, hcs, he]⟩
    refine ⟨_, b, hfirst, rfl, ?_, .inr ⟨hstarts, hb, ?_⟩⟩
    · have hsome : a.rest.all isBlank = false := by
        rw [← Bool.not_eq_true]
        exact fun hall => List.cons_ne_nil c cs (hcs.symm.trans (eq_nil_of_all hall hlast))
      simp [Event.isCode, hsome, ← hvisible.1]
    · have hdeeper := depth_of_step hstep
      rw [hdepth, h.depth]
      simp [Event.closesBlock, Event.opensBlock, ← hvisible.1] at hdeeper
      omega

theorem takes_of_hidden (h : Excerpt more s a) (hstep : s.step = .event e t)
    (hcut : e.isCut = false) {blanks : List Char} (hblanks : blanks.all isBlank = true)
    (htext : e.text <+: a.rest ++ blanks) {c : Char} {cs text : List Char}
    (he : e.text = c :: text) (hcs : a.rest = c :: cs) (hsplit : cs ++ more = text ++ t.rest)
    (hhidden : Lexeme.hidden? s.options s.terminator s.previous c (cs ++ more) =
      some (.ok (e.kind, text.length + 1)))
    (hlexeme : a.lexeme c cs = (Lexeme.hidden? s.options s.terminator s.previous c cs).getD
      (.ok (a.visibleLexeme c cs))) : Takes more a e t := by
  rcases List.append_eq_append_iff.mp hsplit with ⟨lost, rfl, -⟩ | ⟨after, rfl, hafter⟩
  · -- Blanks at the end of a comment.
    have hlost : lost.all isBlank = true := by
      rw [he, hcs, ← List.cons_append, List.prefix_append_right_inj] at htext
      exact List.all_eq_true.mpr fun d hd => List.all_eq_true.mp hblanks d (htext.subset hd)
    have hkind := (Lexeme.bounded_of_hidden? hhidden).hides
    rw [hsplit] at hhidden
    rw [Lexeme.hidden?_of_append_blanks hlost hhidden, Option.getD_some] at hlexeme
    obtain ⟨b, hfirst, hb, hdepth⟩ := exists_step_to_end hcs hlexeme (.inr hkind)
    have hstarts : a.rest <+: e.text := ⟨lost, by rw [hcs, he, List.cons_append]⟩
    have hlevel := depth_of_step hstep
    obtain ⟨kind, start, text⟩ := e
    refine ⟨_, b, hfirst, hcut, ?_, .inr ⟨hstarts, hb, ?_⟩⟩
    · cases kind <;> first | rfl | cases hkind
    · rw [hdepth, h.depth]
      cases kind <;> first | exact Nat.le_of_eq hlevel.symm | cases hkind
  · rw [List.append_assoc] at hhidden
    rw [Lexeme.hidden?_append_of_agrees hhidden (.of_isPrefix (List.prefix_append after more)) ?_,
      Option.getD_some] at hlexeme
    · obtain ⟨b, hfirst, hb⟩ := h.step_of_lexeme hstep he hcs hlexeme
      exact ⟨_, b, hfirst, hcut, rfl, .inl ⟨rfl, hb⟩⟩
    · rintro - (hnil | hhead)
      · exact .inl (List.append_eq_nil_iff.mp hnil).1
      · cases after with
        | nil => exact .inl rfl
        | cons d after => exact .inr hhead

theorem takes_of_step (h : Excerpt more s a) (hs : s.Plain) (hmore : Lexeme.nextWord more = [])
    (hlast : a.rest.getLast?.any isBlank = false) (hwhole : Unstraddled more s a)
    (hne : a.rest ≠ []) (hstep : s.step = .event e t) (hcut : e.isCut = false)
    {blanks : List Char} (hblanks : blanks.all isBlank = true)
    (htext : e.text <+: a.rest ++ blanks) : Takes more a e t := by
  obtain ⟨c, text, he, hrest, hapart, hshown⟩ := lexeme_of_not_isCut hs.ne_nil hstep hcut
  obtain ⟨c', cs, hcs⟩ := List.exists_cons_of_ne_nil hne
  rw [h.rest, hcs, List.cons_append] at hrest
  obtain ⟨rfl, hsplit⟩ := List.cons.inj hrest
  have hat : a.atTerminator = false := by
    refine h.not_atTerminator hs hapart fun opener hmem hstarts => ?_
    have hwithin := (opener_prefix_of_step hs.ne_nil hstep hcut hmem hstarts).trans htext
    exact prefix_of_prefix_append hwithin (SplitOptions.not_isBlank_of_mem_commentOpeners hmem)
      (head?_all_of_all hblanks)
  have hlexeme : a.lexeme c' cs = (Lexeme.hidden? s.options s.terminator s.previous c' cs).getD
      (.ok (a.visibleLexeme c' cs)) := by
    rw [lexeme_eq, hat, if_neg Bool.false_ne_true, h.options, h.terminator,
      Lexeme.hidden?_congr_previous fun _ _ => h.word]
  rw [← hsplit] at hshown
  rcases hshown with ⟨hnone, hvisible⟩ | hhidden
  · rw [Lexeme.hidden?_eq_none_of_agrees (.of_isPrefix (List.prefix_append cs more)) hnone,
      Option.getD_none] at hlexeme
    exact h.takes_of_visible hs hmore hlast hwhole hstep hcut he hcs hsplit hvisible hlexeme
  · exact h.takes_of_hidden hstep hcut hblanks htext he hcs hsplit hhidden hlexeme

end Excerpt

/-! ### Walks in an excerpt -/

theorem Plain.of_walk {es : List Event} (hs : s.Plain) (h : Walk s es t) : t.Plain :=
  h.keeps (fun hu step => hu.of_step step) hs

theorem Plain.terminator_of_walk {es : List Event} (hs : s.Plain) (h : Walk s es t) :
    t.terminator = s.terminator :=
  (h.keeps (P := fun u => u.Plain ∧ u.terminator = s.terminator)
    (fun hu step => ⟨hu.1.of_step step, (hu.1.terminator_of_step step).trans hu.2⟩)
    ⟨hs, rfl⟩).2

private theorem exists_isWord_of_closesBlock (hterminator : s.terminator ≠ [])
    (h : s.step = .event e t) (hcloses : e.closesBlock = true) : ∃ c ∈ e.text, isWord c = true := by
  obtain ⟨c, cs, hrest, hlexed, htext, -, -⟩ := step_eq_event h
  obtain ⟨d, text, hcons⟩ := List.exists_cons_of_ne_nil (text_ne_nil_of_step hterminator h)
  rw [hrest, hcons] at htext
  obtain ⟨rfl, -⟩ := List.cons.inj htext
  refine ⟨c, hcons ▸ List.mem_cons_self, ?_⟩
  cases hkind : e.kind with
  | blockEnd depth =>
      rw [hkind] at hlexed
      generalize e.text.length = n at hlexed
      cases hlexed with
      | blockEnd apart first => exact first
  | _ => simp [Event.closesBlock, hkind] at hcloses

theorem Walk.depth_le_of_wordless {es : List Event} (h : Walk s es t) (hs : s.Plain)
    (hes : ∀ c ∈ Event.concat es, isWord c = false) : s.depth ≤ t.depth := by
  induction h with
  | nil s => exact Nat.le_refl _
  | @cons s u t e es step walk ih =>
      rw [Event.concat_cons, List.forall_mem_append] at hes
      have hlevel := depth_of_step step
      have hopen : e.closesBlock = false := by
        rw [← Bool.not_eq_true]
        intro hcloses
        obtain ⟨c, hc, hword⟩ := exists_isWord_of_closesBlock hs.ne_nil step hcloses
        rw [hes.1 c hc] at hword
        cases hword
      have hmore := ih (hs.of_step step) hes.2
      rw [hopen] at hlevel
      simp only [Bool.false_eq_true, if_false] at hlevel
      omega

theorem Walk.eq_nil_of_terminator {es : List Event} (h : Walk s es t) (hs : s.Plain)
    (hwhole : ∀ e ∈ es, e.isCut = false) (houtside : s.openBlocks = [])
    (hlong : 2 ≤ byteLength s.terminator) (hrest : s.terminator <+: s.rest) : es = [] := by
  cases h with
  | nil s => rfl
  | @cons s u t e es step walk =>
      exfalso
      have hopener : s.commentOpenerLength ≤ 2 := by
        unfold commentOpenerLength
        split <;> omega
      have hat : s.atTerminator = true :=
        hs.atTerminator_iff.mpr ⟨houtside, hrest, Nat.le_trans hopener hlong⟩
      obtain ⟨c, cs, -, hlexed, -⟩ := step_eq_event step
      have hkind := hlexed.kind_eq_terminator_iff.mpr hat
      have hcut := hwhole e List.mem_cons_self
      simp [Event.isCut, hkind] at hcut

theorem step_of_spaces (hs : SplitOptions.isTerminator s.terminator = true) {c : Char}
    {gap post : List Char} (hgap : (c :: gap).all isSpace = true)
    (hpost : post.head?.any isSpace = false) (hrest : s.rest = (c :: gap) ++ post) :
    s.step = .event ⟨.code, s.offset, c :: gap⟩ (s.advance ⟨.code, s.offset, c :: gap⟩) := by
  have hspaces : (c :: (gap ++ post)).takeWhile isSpace = c :: gap := by
    rw [← List.cons_append, takeWhile_append_of_head? hpost,
      List.takeWhile_eq_self_iff.mpr (List.all_eq_true.mp hgap)]
  have hevent : s.event .code (c :: gap).length = ⟨.code, s.offset, c :: gap⟩ := by
    rw [event, hrest, List.take_left]
  have hc : isSpace c = true := List.all_eq_true.mp hgap c List.mem_cons_self
  have hstep := step_of_isSpace hs (hrest.trans (List.cons_append ..)) hc
  rwa [hspaces, hevent] at hstep

theorem Walk.length_le_of_terminator {es : List Event} (h : Walk s es t) (hs : s.Plain)
    (hwhole : ∀ e ∈ es, e.isCut = false) (houtside : s.openBlocks = [])
    (hlong : 2 ≤ byteLength s.terminator) {gap post : List Char} (hgap : gap.all isSpace = true)
    (hrest : s.rest = gap ++ (s.terminator ++ post)) :
    (Event.concat es).length ≤ gap.length := by
  cases gap with
  | nil =>
      rw [h.eq_nil_of_terminator hs hwhole houtside hlong ⟨post, hrest.symm⟩]
      exact Nat.le_refl 0
  | cons c gap =>
      cases h with
      | nil s => exact Nat.zero_le _
      | @cons s u t e es step walk =>
          have hpost : (s.terminator ++ post).head?.any isSpace = false := by
            obtain ⟨d, terminator, hterminator⟩ := List.exists_cons_of_ne_nil hs.ne_nil
            rw [hterminator, List.cons_append, List.head?_cons, Option.any_some]
            exact SplitOptions.not_isSpace_of_isTerminator hs.isTerminator
              (hterminator ▸ List.mem_cons_self)
          obtain ⟨rfl, rfl⟩ :=
            Step.event.inj (step.symm.trans (step_of_spaces hs.isTerminator hgap hpost hrest))
          have hnext : s.terminator <+: s.rest.drop (c :: gap).length := by
            rw [hrest, List.drop_left]
            exact List.prefix_append _ _
          rw [walk.eq_nil_of_terminator (hs.of_step step)
            (fun f hf => hwhole f (List.mem_cons_of_mem _ hf)) houtside hlong hnext]
          exact Nat.le_of_eq (congrArg List.length (List.append_nil _))

/-- No walk between cuts comes to a terminator over spaces and the beginning of another one. -/
theorem Walk.eq_nil_of_straddles {es : List Event} (h : Walk s es t) (hs : s.Plain)
    (hwhole : ∀ e ∈ es, e.isCut = false) (hat : t.atTerminator = true)
    {gap next more post : List Char} (hgap : gap.all isSpace = true)
    (hconcat : Event.concat es = gap ++ next) (hterminator : s.terminator = next ++ more)
    (hmore : more ≠ []) (hrest : t.rest = more ++ post) : next = [] := by
  refine Classical.byContradiction fun hsome => ?_
  have hlong : 2 ≤ byteLength s.terminator := by
    have hfirst := byteLength_pos hsome
    have hsecond := byteLength_pos hmore
    rw [hterminator, byteLength_append]
    omega
  have hwordless : ∀ c ∈ Event.concat es, isWord c = false := by
    rw [hconcat, List.forall_mem_append]
    exact ⟨fun c hc => not_isWord_of_isSpace (List.all_eq_true.mp hgap c hc),
      fun c hc => hs.wordless c (hterminator ▸ List.mem_append_left more hc)⟩
  have houtside : s.openBlocks = [] := by
    have hdepth := h.depth_le_of_wordless hs hwordless
    rw [Scanner.depth, Scanner.depth, ((hs.of_walk h).atTerminator_iff.mp hat).1] at hdepth
    exact List.length_eq_zero_iff.mp (Nat.le_zero.mp hdepth)
  have hbehind : s.rest = gap ++ (s.terminator ++ post) := by
    rw [h.rest_eq, hconcat, hrest, hterminator]
    simp only [List.append_assoc]
  have hlength := h.length_le_of_terminator hs hwhole houtside hlong hgap hbehind
  have hpos := List.length_pos_iff.mpr hsome
  rw [hconcat, List.length_append] at hlength
  omega

private theorem text_eq_word_of_begin (hs : s.Plain) (h : s.step = .event e t)
    (hcut : e.isCut = false) (hbegin : isKeyword s.word ["BEGIN"] = true) : e.text = s.word := by
  obtain ⟨c, text, htext, hrest, -, hshown⟩ := lexeme_of_not_isCut hs.ne_nil h hcut
  have hc : isWord c = true := by
    refine Classical.byContradiction fun hnot => ?_
    rw [Scanner.word, hrest, List.takeWhile_cons_of_neg hnot] at hbegin
    cases hbegin
  rw [Lexeme.hidden?_eq_none_of_not_isOpener (Lexeme.not_isOpener_of_isWord hc)] at hshown
  rcases hshown with ⟨-, hvisible⟩ | hhidden
  · rw [visibleLexeme, if_pos hc, hs.wordLexeme_eq] at hvisible
    have hlength : text.length + 1 = s.word.length :=
      (congrArg Prod.snd hvisible).symm.trans (keywordLexeme_of_begin hbegin)
    rw [← List.cons_append, ← htext, rest_eq_word_append] at hrest
    exact (List.append_inj hrest (by rw [htext, List.length_cons, hlength])).1.symm
  · cases hhidden

namespace Excerpt

/-- No terminator straddles the end of an excerpt behind a BEGIN. It would stand outside any block,
since no word comes between, and the walk would not have gone over its beginning. -/
theorem unstraddled {blanks : List Char} {v : Scanner} {es : List Event}
    (h : Excerpt (blanks ++ v.rest) s a) (hs : s.Plain) (hstep : s.step = .event e t)
    (hcut : e.isCut = false) (hwalk : Walk t es v) (hwhole : ∀ f ∈ es, f.isCut = false)
    (hblanks : blanks.all isBlank = true) (hmore : Lexeme.nextWord (blanks ++ v.rest) = [])
    (hend : v.rest = [] ∨ v.atTerminator = true) : Unstraddled (blanks ++ v.rest) s a := by
  intro hbegin hspaces hstarts
  refine Classical.byContradiction fun hnot => ?_
  have hgap : (a.afterWord.takeWhile isSpace).all isSpace = true := List.all_takeWhile
  have hsplit : a.afterWord.takeWhile isSpace ++ a.afterWord.dropWhile isSpace = a.afterWord :=
    List.takeWhile_append_dropWhile
  have hsome : a.afterWord.dropWhile isSpace ≠ [] := by
    rw [Ne, List.dropWhile_eq_nil_iff, ← List.all_eq_true, hspaces]
    exact Bool.false_ne_true
  generalize a.afterWord.takeWhile isSpace = gap at hgap hsplit
  generalize a.afterWord.dropWhile isSpace = next at hstarts hnot hsplit hsome
  -- What comes is no blank and not the end, so it is the terminator of the statement.
  obtain rfl : blanks = [] := by
    cases blanks with
    | nil => rfl
    | cons b blanks =>
        have hb : isBlank b = true := List.all_eq_true.mp hblanks b List.mem_cons_self
        exact absurd (prefix_of_prefix_append hstarts hs.not_isBlank hb) hnot
  rw [List.nil_append] at hstarts
  obtain ⟨more, post, hne, hterminator, hrest⟩ := straddles_of_prefix_append hstarts hnot
  have hat : v.atTerminator = true := by
    refine hend.resolve_left fun hnil => hne ?_
    exact (List.append_eq_nil_iff.mp (hrest.symm.trans hnil)).1
  -- Between the word and the terminator come only spaces.
  have hconcat : Event.concat es = gap ++ next := by
    have hwhole := h.rest
    rw [rest_of_step hstep, text_eq_word_of_begin hs hstep hcut hbegin, hwalk.rest_eq,
      rest_eq_word_append a, h.word_eq hmore, List.append_assoc, List.append_right_inj,
      List.nil_append, List.append_left_inj, ← hsplit] at hwhole
    exact hwhole
  exact hsome (hwalk.eq_nil_of_straddles (hs.of_step hstep) hwhole hat hgap hconcat
    ((hs.terminator_of_step hstep).trans hterminator) hne hrest)

end Excerpt

private theorem Plain.head?_of_atTerminator (hs : s.Plain) (h : s.atTerminator = true) :
    ∃ c cs, s.rest = c :: cs ∧ isWord c = false ∧ isBlank c = false := by
  obtain ⟨-, ⟨post, hpost⟩, -⟩ := hs.atTerminator_iff.mp h
  obtain ⟨c, terminator, hterminator⟩ := List.exists_cons_of_ne_nil hs.ne_nil
  have hmem : c ∈ s.terminator := hterminator ▸ List.mem_cons_self
  refine ⟨c, terminator ++ post, ?_, hs.wordless c hmem, hs.not_isBlank c hmem⟩
  rw [← hpost, hterminator, List.cons_append]

private theorem nextWord_of_end (hs : s.Plain) (hend : s.rest = [] ∨ s.atTerminator = true)
    {blanks : List Char} (hblanks : blanks.all isBlank = true) :
    Lexeme.nextWord (blanks ++ s.rest) = [] := by
  rw [Lexeme.nextWord, List.dropWhile_append]
  split
  · rcases hend with hnil | hat
    · rw [hnil]
      rfl
    · obtain ⟨c, cs, hrest, hword, hblank⟩ := hs.head?_of_atTerminator hat
      have hspace : ¬ isSpace c = true := fun hspace =>
        Bool.false_ne_true (hblank.symm.trans (isBlank_of_isSpace hspace))
      rw [hrest, List.dropWhile_cons_of_neg hspace, List.takeWhile_cons_of_neg (by simp [hword])]
  · rename_i hsome
    obtain ⟨c, cs, hcons⟩ :=
      List.exists_cons_of_ne_nil fun hnil => hsome (List.isEmpty_iff.mpr hnil)
    have hmem : c ∈ blanks := (List.dropWhile_suffix isSpace).mem (hcons ▸ List.mem_cons_self)
    have hword := not_isWord_of_isBlank (List.all_eq_true.mp hblanks c hmem)
    rw [hcons, List.cons_append, List.takeWhile_cons_of_neg (by simp [hword])]

theorem Walk.not_isCode_of_isBlank {es : List Event} (h : Walk s es t)
    (hes : (Event.concat es).all isBlank = true) : es.any Event.isCode = false := by
  rw [List.any_eq_false]
  intro e he hcode
  obtain ⟨c, text, htext, hc⟩ := (h.firm e he hcode).first
  have hmem : c ∈ Event.concat es :=
    List.mem_flatMap.mpr ⟨e, he, htext ▸ List.mem_cons_self⟩
  rw [List.all_eq_true.mp hes c hmem] at hc
  cases hc

theorem Walk.depth_le_of_isBlank {es : List Event} (h : Walk s es t) (hs : s.Plain)
    (hes : (Event.concat es).all isBlank = true) : s.depth ≤ t.depth :=
  h.depth_le_of_wordless hs fun c hc => not_isWord_of_isBlank (List.all_eq_true.mp hes c hc)

namespace Excerpt

/-- **A scanner goes the same way in an excerpt that ends with the statement.** It comes to the end
of the excerpt, no deeper in blocks than it is at the end of the statement, and it finds code where
the whole scan does. -/
theorem walk {v : Scanner} {es : List Event} (hwalk : Walk s es v) (hs : s.Plain)
    (hwhole : ∀ e ∈ es, e.isCut = false) (hend : v.rest = [] ∨ v.atTerminator = true)
    {blanks : List Char} (hblanks : blanks.all isBlank = true)
    (h : Excerpt (blanks ++ v.rest) s a) (hlast : a.rest.getLast?.any isBlank = false) :
    ∃ es' b, Walk a es' b ∧ b.rest = [] ∧ b.depth ≤ v.depth ∧ (∀ e ∈ es', e.isCut = false) ∧
      es'.any Event.isCode = es.any Event.isCode := by
  -- Along the walk the excerpt gets shorter with the script. It may come to its end first, and then
  -- the script has only blanks left of the statement.
  induction hwalk generalizing a with
  | nil v =>
      have hnil : a.rest = [] := by
        have hlength := congrArg List.length h.rest
        simp only [List.length_append] at hlength
        exact List.length_eq_zero_iff.mp (by omega)
      exact ⟨[], a, .nil a, hnil, Nat.le_of_eq h.depth, fun _ hmem => absurd hmem List.not_mem_nil,
        rfl⟩
  | @cons s t v e es step walk ih =>
      obtain ⟨hcut, hwhole⟩ := List.forall_mem_cons.mp hwhole
      have hconcat : e.text ++ Event.concat es = a.rest ++ blanks := by
        have hrest := h.rest
        rwa [(Walk.cons step walk).rest_eq, ← List.append_assoc, List.append_left_inj] at hrest
      by_cases hnil : a.rest = []
      · rw [hnil, List.nil_append] at hconcat
        rw [← hconcat] at hblanks
        refine ⟨[], a, .nil a, hnil, ?_, fun _ hmem => absurd hmem List.not_mem_nil, ?_⟩
        · rw [h.depth]
          exact (Walk.cons step walk).depth_le_of_isBlank hs hblanks
        · exact ((Walk.cons step walk).not_isCode_of_isBlank hblanks).symm
      · have hmore := nextWord_of_end (hs.of_walk (.cons step walk)) hend hblanks
        have htext : e.text <+: a.rest ++ blanks := hconcat ▸ List.prefix_append _ _
        obtain ⟨e', b, hfirst, hcut', hcode, ⟨htext', hb⟩ | ⟨hstarts, hbnil, hdepth⟩⟩ :=
          h.takes_of_step hs hmore hlast
            (h.unstraddled hs step hcut walk hwhole hblanks hmore hend) hnil step hcut hblanks htext
        · rw [rest_of_step hfirst] at hlast
          obtain ⟨es', b', hwalk, hbnil, hdepth, hwhole', hcodes⟩ :=
            ih (hs.of_step step) hwhole hend hb (getLast?_any_of_append hlast)
          refine ⟨e' :: es', b', .cons hfirst hwalk, hbnil, hdepth,
            List.forall_mem_cons.mpr ⟨hcut', hwhole'⟩, ?_⟩
          rw [List.any_cons, List.any_cons, hcode, hcodes]
        · obtain ⟨lost, hlost⟩ := hstarts
          rw [← hlost, List.append_assoc, List.append_right_inj] at hconcat
          have hrest : (Event.concat es).all isBlank = true := by
            rw [← hconcat, List.all_append, Bool.and_eq_true] at hblanks
            exact hblanks.2
          refine ⟨[e'], b, .cons hfirst (.nil b), hbnil,
            Nat.le_trans hdepth (walk.depth_le_of_isBlank (hs.of_step step) hrest),
            List.forall_mem_singleton.mpr hcut', ?_⟩
          rw [List.any_cons, List.any_cons, hcode, walk.not_isCode_of_isBlank hrest]
          rfl

end Excerpt

end Scanner

end SqlBatch
