import SqlBatch.Proofs.Script.Hidden
import SqlBatch.Proofs.Script.Placement

/-!
# What a scanner sees

A scanner takes a terminator where it is at one, else a literal or comment where one opens, and else
what is there for all to see: a word, spaces or one character. Only its first character could open
something; those behind it are word characters and spaces.
-/

namespace SqlBatch

open Text

/-- Whether an event of this kind is code that shows what it is in every character. -/
def EventKind.shows : EventKind → Bool
  | .code | .blockBegin _ | .blockEnd _ => true
  | .comment _ | .literal _ | .terminator | .delimiterChange _ => false

theorem EventKind.not_hides_of_shows {kind : EventKind} (h : kind.shows = true) :
    kind.hides = false := by
  cases kind <;> first | rfl | cases h

namespace Scanner

/-- What the word at the place is when it is no directive. -/
def keywordLexeme (s : Scanner) : EventKind × Nat :=
  if !s.options.blocks || s.previous = some '.' then (.code, s.word.length)
  else if isKeyword s.word ["BEGIN"] &&
      Lexeme.beginOpensBlock s.terminator s.word s.afterWord then
    (.blockBegin (s.depth + 1), s.word.length)
  else if isKeyword s.word ["CASE"] then (.blockBegin (s.depth + 1), s.word.length)
  else if isKeyword s.word ["END"] && !s.openBlocks.isEmpty then
    match Lexeme.endClosesBlock? s.afterWord with
    | some length => (.blockEnd (s.depth - 1), s.word.length + length)
    | none => (.code, s.word.length)
  else (.code, s.word.length)

theorem isEmpty_openBlocks_of_depth {s t : Scanner} (h : t.depth = s.depth) :
    t.openBlocks.isEmpty = s.openBlocks.isEmpty := by
  rw [Bool.eq_iff_iff, List.isEmpty_iff, List.isEmpty_iff, ← List.length_eq_zero_iff,
    ← List.length_eq_zero_iff]
  change t.depth = 0 ↔ s.depth = 0
  rw [h]

theorem keywordLexeme_congr {s t : Scanner} (hoptions : t.options = s.options)
    (hprevious : t.previous = some '.' ↔ s.previous = some '.') (hword : t.word = s.word)
    (hbegin : isKeyword s.word ["BEGIN"] = true →
      Lexeme.beginOpensBlock t.terminator t.word t.afterWord =
        Lexeme.beginOpensBlock s.terminator s.word s.afterWord)
    (hend : isKeyword s.word ["END"] = true →
      Lexeme.endClosesBlock? t.afterWord = Lexeme.endClosesBlock? s.afterWord)
    (hdepth : t.depth = s.depth) : t.keywordLexeme = s.keywordLexeme := by
  have hempty := isEmpty_openBlocks_of_depth hdepth
  have hopens : (isKeyword s.word ["BEGIN"] &&
        Lexeme.beginOpensBlock t.terminator t.word t.afterWord) =
      (isKeyword s.word ["BEGIN"] &&
        Lexeme.beginOpensBlock s.terminator s.word s.afterWord) := by
    cases hkeyword : isKeyword s.word ["BEGIN"] with
    | false => rfl
    | true => rw [hbegin hkeyword]
  rw [hword] at hopens
  cases hkeyword : isKeyword s.word ["END"] with
  | false =>
      simp only [keywordLexeme, hoptions, hprevious, hword, hopens, hdepth, hkeyword,
        Bool.false_and, Bool.false_eq_true, if_false]
  | true =>
      simp only [keywordLexeme, hoptions, hprevious, hword, hopens, hend hkeyword, hdepth, hempty]

theorem wordLexeme_eq (s : Scanner) :
    s.wordLexeme = ((s.directive? s.word s.afterWord).map fun (delimiter, length) =>
      (EventKind.delimiterChange delimiter, s.word.length + length)).getD s.keywordLexeme := by
  cases hdirective : s.directive? s.word s.afterWord with
  | none =>
      rw [afterWord, word] at hdirective
      simp only [wordLexeme, hdirective]
      rfl
  | some found =>
      rw [afterWord, word] at hdirective
      simp only [wordLexeme, hdirective]
      rfl

/-- What the word at the place is, is told by what is left of the script, by the blocks and the code
before it, and by whether a dot or the start of a line is there. -/
theorem wordLexeme_congr {s t : Scanner} (hoptions : t.options = s.options)
    (hrest : t.rest = s.rest) (hterminator : t.terminator = s.terminator)
    (hdepth : t.depth = s.depth) (hcode : t.hasCode = s.hasCode)
    (hdot : t.previous = some '.' ↔ s.previous = some '.')
    (hline : t.atLineStart = s.atLineStart) : t.wordLexeme = s.wordLexeme := by
  have hword : t.word = s.word := by rw [word, word, hrest]
  have hafter : t.afterWord = s.afterWord := by rw [afterWord, afterWord, hword, hrest]
  have hdirective : t.directive? t.word t.afterWord = s.directive? s.word s.afterWord := by
    simp only [directive?, hoptions, isEmpty_openBlocks_of_depth hdepth, hcode, hline, hword,
      hafter]
  have hkeyword : t.keywordLexeme = s.keywordLexeme :=
    keywordLexeme_congr hoptions hdot hword (fun _ => by rw [hterminator, hword, hafter])
      (fun _ => by rw [hafter]) hdepth
  rw [wordLexeme_eq, wordLexeme_eq, hdirective, hkeyword, hword]

theorem atTerminator_congr {s t : Scanner} (hoptions : t.options = s.options)
    (hrest : t.rest = s.rest) (hterminator : t.terminator = s.terminator)
    (hdepth : t.depth = s.depth) (hword : t.previous.any isWord = s.previous.any isWord) :
    t.atTerminator = s.atTerminator := by
  have hat : Lexeme.terminatorAt s.terminator t.previous t.rest =
      Lexeme.terminatorAt s.terminator s.previous s.rest := by
    simp only [Lexeme.terminatorAt, hword, hrest]
  have hopener : t.commentOpenerLength = s.commentOpenerLength := by
    simp only [commentOpenerLength, hoptions, hrest]
  simp only [atTerminator, isEmpty_openBlocks_of_depth hdepth, hat, hopener, hterminator]

/-- What stands at a place where no literal and no comment opens and no terminator stands. -/
def visibleLexeme (s : Scanner) (c : Char) (cs : List Char) : EventKind × Nat :=
  if isWord c then s.wordLexeme
  else if isSpace c then (.code, ((c :: cs).takeWhile isSpace).length)
  else (.code, 1)

theorem lexeme_eq (s : Scanner) (c : Char) (cs : List Char) :
    s.lexeme c cs =
      if s.atTerminator then .ok (.terminator, s.terminator.length)
      else (Lexeme.hidden? s.options s.terminator s.previous c cs).getD
        (.ok (s.visibleLexeme c cs)) := by
  unfold lexeme Lexeme.hidden?
  split
  · rfl
  split
  · rfl
  split
  · rfl
  split
  · rfl
  split
  · rfl
  split
  · rfl
  split
  · rename_i hdollar
    simp only [Bool.and_eq_true, decide_eq_true_eq] at hdollar
    obtain ⟨rfl, -⟩ := hdollar
    cases Lexeme.dollarMarkerLength? s.previous cs with
    | none => rfl
    | some length =>
        simp only [Option.bind_some]
        split <;> rfl
  · simp only [visibleLexeme, Option.getD_none]
    split
    · rfl
    · split <;> rfl

/-! ### Steps -/

variable {s : Scanner}

theorem keywordLexeme_shows (s : Scanner) : s.keywordLexeme.1.shows = true ∧
    ∀ d ∈ s.rest.take s.keywordLexeme.2, isWord d = true ∨ isSpace d = true := by
  have hword : ∀ d ∈ s.rest.take s.word.length, isWord d = true ∨ isSpace d = true := by
    intro d hd
    rw [word, take_length_takeWhile] at hd
    exact .inl (List.all_eq_true.mp List.all_takeWhile d hd)
  unfold keywordLexeme
  split
  · exact ⟨rfl, hword⟩
  split
  · exact ⟨rfl, hword⟩
  split
  · exact ⟨rfl, hword⟩
  split
  · split
    · rename_i m closes
      refine ⟨rfl, ?_⟩
      rcases Lexeme.endClosesBlock?_eq_some closes with rfl | ⟨-, rfl⟩
      · exact hword
      · obtain ⟨rest, hafter⟩ := Lexeme.nextWord_eq s.afterWord
        have hrest : s.rest = s.word ++ (s.afterWord.takeWhile isSpace ++
            Lexeme.nextWord s.afterWord) ++ rest := by
          rw [List.append_assoc, List.append_assoc, ← hafter, ← rest_eq_word_append]
        intro d hd
        rw [hrest, List.take_left' (by simp)] at hd
        rcases List.mem_append.mp hd with hd | hd
        · exact .inl (List.all_eq_true.mp List.all_takeWhile d hd)
        rcases List.mem_append.mp hd with hd | hd
        · exact .inr (List.all_eq_true.mp List.all_takeWhile d hd)
        · exact .inl (List.all_eq_true.mp List.all_takeWhile d hd)
    · exact ⟨rfl, hword⟩
  · exact ⟨rfl, hword⟩

theorem visibleLexeme_shows {c : Char} {cs : List Char} (hrest : s.rest = c :: cs)
    (hplain : ∀ delimiter, (s.visibleLexeme c cs).1 ≠ .delimiterChange delimiter) :
    (s.visibleLexeme c cs).1.shows = true ∧
      ∀ d ∈ cs.take ((s.visibleLexeme c cs).2 - 1), Lexeme.isOpener d = false := by
  have hopener {d : Char} (hd : isWord d = true ∨ isSpace d = true) :
      Lexeme.isOpener d = false := by
    rcases hd with hd | hd
    · exact Lexeme.not_isOpener_of_isWord hd
    · exact Lexeme.not_isOpener_of_isSpace hd
  have htail {n : Nat} (h : ∀ d ∈ (c :: cs).take n, isWord d = true ∨ isSpace d = true) :
      ∀ d ∈ cs.take (n - 1), Lexeme.isOpener d = false := by
    intro d hd
    cases n with
    | zero => cases hd
    | succ n => exact hopener (h d (List.mem_cons_of_mem c hd))
  unfold visibleLexeme at hplain ⊢
  split
  · rename_i first
    rw [if_pos first, wordLexeme_eq] at hplain
    rw [wordLexeme_eq]
    cases hdirective : s.directive? s.word s.afterWord with
    | some found =>
        rw [hdirective] at hplain
        exact absurd rfl (hplain found.1)
    | none =>
        obtain ⟨hshows, hall⟩ := keywordLexeme_shows s
        rw [hrest] at hall
        exact ⟨hshows, htail hall⟩
  split
  · refine ⟨rfl, htail fun d hd => ?_⟩
    rw [take_length_takeWhile] at hd
    exact .inr (List.all_eq_true.mp List.all_takeWhile d hd)
  · exact ⟨rfl, fun d hd => by cases hd⟩

theorem step_of_lexeme {c : Char} {cs : List Char} {kind : EventKind} {n : Nat}
    (hrest : s.rest = c :: cs) (h : s.lexeme c cs = .ok (kind, n)) :
    s.step = .event (s.event kind n) (s.advance (s.event kind n)) := by
  unfold step
  rw [hrest]
  dsimp only
  rw [h]

theorem step_of_lexeme_append {c : Char} {text after : List Char} {kind : EventKind}
    (hrest : s.rest = c :: (text ++ after))
    (h : s.lexeme c (text ++ after) = .ok (kind, text.length + 1)) :
    s.step = .event ⟨kind, s.offset, c :: text⟩ (s.advance ⟨kind, s.offset, c :: text⟩) := by
  have hevent : s.event kind (text.length + 1) = ⟨kind, s.offset, c :: text⟩ := by
    rw [event, hrest, List.take_succ_cons, List.take_left]
  rw [step_of_lexeme hrest h, hevent]

theorem exists_append_of_lexeme {c : Char} {cs : List Char} {kind : EventKind} {n : Nat}
    (hterminator : s.terminator ≠ []) (hrest : s.rest = c :: cs)
    (h : s.lexeme c cs = .ok (kind, n)) :
    ∃ text after, cs = text ++ after ∧ n = text.length + 1 := by
  have hlexed := lexed_of_lexeme h
  have hpos := hlexed.length_pos hrest fun _ => hterminator
  have hle := hlexed.length_le hrest
  rw [hrest, List.length_cons] at hle
  refine ⟨cs.take (n - 1), cs.drop (n - 1), (List.take_append_drop (n - 1) cs).symm, ?_⟩
  rw [List.length_take_of_le (by omega)]
  omega

theorem lexeme_of_step {t : Scanner} {e : Event} (h : s.step = .event e t) :
    ∃ c cs n, s.rest = c :: cs ∧ s.lexeme c cs = .ok (e.kind, n) ∧ n ≤ s.rest.length ∧
      e = s.event e.kind n ∧ t = s.advance e := by
  unfold step at h
  split at h
  · split at h
    · split at h <;> cases h
    · cases h
  · rename_i c cs hrest
    split at h
    · rename_i kind n hlexeme
      obtain ⟨rfl, rfl⟩ := Step.event.inj h
      exact ⟨c, cs, n, hrest, hlexeme, (lexed_of_lexeme hlexeme).length_le hrest, rfl, rfl⟩
    · cases h

theorem exists_lexeme_of_step {t : Scanner} {e : Event} (hterminator : s.terminator ≠ [])
    (h : s.step = .event e t) :
    ∃ c text, e.text = c :: text ∧ s.rest = c :: (text ++ t.rest) ∧
      s.lexeme c (text ++ t.rest) = .ok (e.kind, text.length + 1) := by
  obtain ⟨c, cs, n, hrest, hlexeme, -, -, -⟩ := lexeme_of_step h
  obtain ⟨text, after, rfl, rfl⟩ := exists_append_of_lexeme hterminator hrest hlexeme
  obtain ⟨he, ht⟩ := Step.event.inj ((step_of_lexeme_append hrest hlexeme).symm.trans h)
  have hafter : t.rest = after := by
    rw [← ht, advance, hrest, ← List.cons_append, List.drop_left]
  rw [hafter]
  exact ⟨c, text, by rw [← he], hrest, hlexeme⟩

theorem step_of_isSpace (hs : SplitOptions.isTerminator s.terminator = true) {c : Char}
    {cs : List Char} (hrest : s.rest = c :: cs) (hc : isSpace c = true) :
    s.step = .event (s.event .code ((c :: cs).takeWhile isSpace).length)
      (s.advance (s.event .code ((c :: cs).takeWhile isSpace).length)) := by
  apply step_of_lexeme hrest
  have hapart : s.atTerminator = false := by
    rw [← Bool.not_eq_true]
    intro here
    obtain ⟨-, following, hfollowing⟩ := rest_of_atTerminator here
    obtain ⟨d, rest, hd⟩ := List.exists_cons_of_ne_nil (SplitOptions.ne_nil_of_isTerminator hs)
    rw [hrest, hd] at hfollowing
    obtain ⟨rfl, -⟩ := List.cons.inj hfollowing
    rw [SplitOptions.not_isSpace_of_isTerminator hs (hd ▸ List.mem_cons_self)] at hc
    cases hc
  rw [lexeme_eq, hapart, if_neg Bool.false_ne_true,
    Lexeme.hidden?_eq_none_of_not_isOpener (Lexeme.not_isOpener_of_isSpace hc), Option.getD_none,
    visibleLexeme, not_isWord_of_isSpace hc, if_neg Bool.false_ne_true, if_pos hc]

theorem previous_advance_of_ne_nil {e : Event} (he : e.text ≠ []) (s : Scanner) :
    (s.advance e).previous = e.text.getLast? := by
  rw [previous, advance, List.head?_append, List.head?_reverse,
    List.getLast?_eq_some_getLast he, Option.some_or]

theorem previous_of_step {t : Scanner} {e : Event} (hterminator : s.terminator ≠ [])
    (h : s.step = .event e t) : t.previous = e.text.getLast? := by
  rw [advance_of_step h]
  exact previous_advance_of_ne_nil (text_ne_nil_of_step hterminator h) s

/-! ### Events between cuts -/

theorem terminator_eq_of_not_isCut {s t : Scanner} {e : Event} (h : s.step = .event e t)
    (hcut : e.isCut = false) : t.terminator = s.terminator := by
  rw [advance_of_step h]
  obtain ⟨kind, start, text⟩ := e
  cases kind with
  | terminator | delimiterChange => cases hcut
  | _ => rfl

theorem lexeme_of_not_isCut {t : Scanner} {e : Event} (hterminator : s.terminator ≠ [])
    (h : s.step = .event e t) (hcut : e.isCut = false) :
    ∃ c text, e.text = c :: text ∧ s.rest = c :: (text ++ t.rest) ∧ s.atTerminator = false ∧
      (Lexeme.hidden? s.options s.terminator s.previous c (text ++ t.rest) = none ∧
          s.visibleLexeme c (text ++ t.rest) = (e.kind, text.length + 1) ∨
        Lexeme.hidden? s.options s.terminator s.previous c (text ++ t.rest) =
          some (.ok (e.kind, text.length + 1))) := by
  obtain ⟨c, text, htext, hrest, hlexeme⟩ := exists_lexeme_of_step hterminator h
  rw [lexeme_eq] at hlexeme
  split at hlexeme
  · rw [Except.ok.injEq, Prod.mk.injEq] at hlexeme
    simp [Event.isCut, ← hlexeme.1] at hcut
  rename_i hapart
  refine ⟨c, text, htext, hrest, by simpa using hapart, ?_⟩
  cases hhidden : Lexeme.hidden? s.options s.terminator s.previous c (text ++ t.rest) with
  | none =>
      rw [hhidden, Option.getD_none, Except.ok.injEq] at hlexeme
      exact .inl ⟨rfl, hlexeme⟩
  | some found =>
      rw [hhidden, Option.getD_some] at hlexeme
      exact .inr (congrArg some hlexeme)

/-- An event of a statement shows what it is in every character, or it is a literal or comment. -/
theorem shows_or_hides_of_step {t : Scanner} {e : Event} (hterminator : s.terminator ≠ [])
    (h : s.step = .event e t) (hcut : e.isCut = false) :
    ∃ c text, e.text = c :: text ∧
      (e.kind.shows = true ∧
          Lexeme.hidden? s.options s.terminator s.previous c (text ++ t.rest) = none ∧
          (∀ d ∈ text, Lexeme.isOpener d = false) ∨
        e.kind.hides = true ∧
          Lexeme.hidden? s.options s.terminator s.previous c (text ++ t.rest) =
            some (.ok (e.kind, text.length + 1))) := by
  obtain ⟨c, text, htext, hrest, -, ⟨hnone, hvisible⟩ | hhidden⟩ :=
    lexeme_of_not_isCut hterminator h hcut
  · refine ⟨c, text, htext, .inl ?_⟩
    have hplain : ∀ delimiter,
        (s.visibleLexeme c (text ++ t.rest)).1 ≠ .delimiterChange delimiter := by
      intro delimiter hkind
      rw [hvisible] at hkind
      dsimp only at hkind
      simp [Event.isCut, hkind] at hcut
    have hshows := visibleLexeme_shows hrest hplain
    rw [hvisible, Nat.add_sub_cancel, List.take_left] at hshows
    exact ⟨hshows.1, hnone, hshows.2⟩
  · exact ⟨c, text, htext, .inr ⟨(Lexeme.bounded_of_hidden? hhidden).hides, hhidden⟩⟩

end Scanner

end SqlBatch
