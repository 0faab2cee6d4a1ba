import Mathlib.Data.List.TakeWhile
import SqlBatch.Proofs.Script.Boundary
import SqlBatch.Proofs.Script.Visible

/-!
# Scripts that go on

A scan of a script goes the same way when the script goes on, as long as it goes on with a line feed
and a terminator of its own. Every look ahead stops at the line feed, or at the terminator after it.
Only a lexeme that reaches to the end of the script may take in the line feed: spaces, and a
directive.
-/

namespace SqlBatch

open Text

namespace Text

theorem takeWhile_append_of_not_all {p : Char → Bool} {xs : List Char} (h : xs.all p = false)
    (ys : List Char) : (xs ++ ys).takeWhile p = xs.takeWhile p := by
  rw [List.takeWhile_append, if_neg]
  intro hlength
  rw [← (List.takeWhile_prefix p).eq_of_length hlength, List.all_takeWhile] at h
  cases h

theorem takeWhile_append_of_head? {p : Char → Bool} {ys : List Char} (h : ys.head?.any p = false)
    (xs : List Char) : (xs ++ ys).takeWhile p = xs.takeWhile p := by
  cases hall : xs.all p with
  | false => exact takeWhile_append_of_not_all hall ys
  | true =>
      rw [List.takeWhile_append_of_pos (List.all_eq_true.mp hall),
        List.takeWhile_eq_self_iff.mpr (List.all_eq_true.mp hall)]
      cases ys with
      | nil => exact List.append_nil xs
      | cons c ys => rw [List.takeWhile_cons_of_neg (by simpa using h), List.append_nil]

theorem takeWhile_append_stop {p : Char → Bool} {c : Char} (hc : p c = false) (xs ys : List Char) :
    (xs ++ c :: ys).takeWhile p = xs.takeWhile p := by
  apply takeWhile_append_of_head?
  exact hc

theorem all_dropWhile_of_append {p q : Char → Bool} {xs ys : List Char}
    (h : ((xs ++ ys).dropWhile p).all q = true) : (ys.dropWhile p).all q = true := by
  induction xs with
  | nil => exact h
  | cons c xs ih =>
      rw [List.cons_append] at h
      by_cases hc : p c = true
      · rw [List.dropWhile_cons_of_pos hc] at h
        exact ih h
      · rw [List.dropWhile_cons_of_neg hc, List.all_eq_true] at h
        refine List.all_eq_true.mpr fun d hd => h d (List.mem_cons_of_mem c ?_)
        exact List.mem_append_right xs ((List.dropWhile_suffix p).mem hd)

private theorem after?_append_lineFeed {cs : List Char} {p : List Char} (hp : '\n' ∉ p)
    (more : List Char) :
    after? p (cs ++ '\n' :: more) = (after? p cs).map (· ++ '\n' :: more) := by
  induction p generalizing cs with
  | nil => rfl
  | cons c p ih =>
      rw [List.mem_cons, not_or] at hp
      cases cs with
      | nil => simp [after?, Ne.symm hp.1]
      | cons d cs =>
          by_cases hd : c = d
          · simp [after?, hd, ih hp.2]
          · simp [after?, hd]

end Text

/-- How a script goes on after a seam: a line for a terminator, and then anything. -/
def seam (terminator following : List Char) : List Char :=
  '\n' :: (terminator ++ '\n' :: following)

theorem append_seam (cs terminator following : List Char) :
    cs ++ seam terminator following = (cs ++ ['\n']) ++ (terminator ++ '\n' :: following) := by
  rw [seam, List.append_assoc, List.singleton_append]

namespace Lexeme

variable {terminator following : List Char}

theorem terminatorAt_append_lineFeed {t : List Char} (ht : '\n' ∉ t) (previous : Option Char)
    (cs more : List Char) :
    terminatorAt t previous (cs ++ '\n' :: more) = terminatorAt t previous cs := by
  have hhead (xs : List Char) : (xs ++ '\n' :: more).head?.any isWord = xs.head?.any isWord := by
    cases xs <;> rfl
  unfold terminatorAt
  rw [after?_append_lineFeed ht]
  cases after? t cs with
  | none => rfl
  | some rest => simp only [Option.map_some, hhead]

/-- What is asked of a terminator at a seam: it is a terminator, and it does not look like a part of
a word that came before. -/
structure Separates (terminator : List Char) : Prop where
  isTerminator : SplitOptions.isTerminator terminator = true
  apart : terminator.head?.any isWord = false

theorem Separates.exists_eq_cons (h : Separates terminator) :
    ∃ c cs, terminator = c :: cs ∧ isWord c = false ∧ isSpace c = false := by
  obtain ⟨c, cs, rfl⟩ := List.exists_cons_of_ne_nil (SplitOptions.ne_nil_of_isTerminator h.1)
  exact ⟨c, cs, rfl, by simpa using h.apart,
    SplitOptions.not_isSpace_of_isTerminator h.isTerminator List.mem_cons_self⟩

theorem not_mem_of_isTerminator (h : SplitOptions.isTerminator terminator = true) :
    '\n' ∉ terminator := fun hmem =>
  absurd (SplitOptions.not_isBlank_of_isTerminator h hmem) (by decide)

theorem head?_of_nextWord_eq_nil {cs : List Char} (h : nextWord cs = []) :
    cs.head?.any isWord = false := by
  cases cs with
  | nil => rfl
  | cons c cs =>
      rw [List.head?_cons, Option.any_some, ← Bool.not_eq_true]
      intro hc
      have hspace : ¬ isSpace c = true := fun hs =>
        Bool.false_ne_true ((not_isWord_of_isSpace hs).symm.trans hc)
      rw [nextWord, List.dropWhile_cons_of_neg hspace, List.takeWhile_cons_of_pos hc] at h
      cases h

theorem nextWord_append {more : List Char} (h : nextWord more = []) (cs : List Char) :
    nextWord (cs ++ more) = nextWord cs := by
  rw [nextWord, List.dropWhile_append]
  split
  · rename_i hempty
    rw [nextWord, List.isEmpty_iff.mp hempty]
    exact h
  · exact takeWhile_append_of_head? (head?_of_nextWord_eq_nil h) _

theorem nextWord_seam (h : Separates terminator) : nextWord (seam terminator following) = [] := by
  obtain ⟨c, rest, rfl, hword, hspace⟩ := h.exists_eq_cons
  have hlineFeed : isSpace '\n' = true := by decide
  simp [nextWord, seam, hlineFeed, hword, hspace]

theorem takeWhile_isSpace_append_seam (h : Separates terminator) (cs : List Char) :
    (cs ++ seam terminator following).takeWhile isSpace =
      if cs.all isSpace then cs ++ ['\n'] else cs.takeWhile isSpace := by
  obtain ⟨c, rest, rfl, -, hspace⟩ := h.exists_eq_cons
  have hlineFeed : isSpace '\n' = true := by decide
  split
  · rename_i hall
    rw [List.takeWhile_append_of_pos (List.all_eq_true.mp hall)]
    simp [seam, hlineFeed, hspace]
  · rename_i hnot
    exact takeWhile_append_of_not_all (Bool.not_eq_true _ ▸ hnot) _

theorem endClosesBlock?_append {more : List Char} (h : nextWord more = []) (cs : List Char) :
    endClosesBlock? (cs ++ more) = endClosesBlock? cs := by
  unfold endClosesBlock?
  simp only [nextWord_append h]
  split
  · rfl
  split
  · rename_i hcase
    rw [takeWhile_append_of_not_all]
    rw [← Bool.not_eq_true]
    intro hall
    apply nextWord_ne_nil_of_isKeyword hcase
    rw [nextWord, List.dropWhile_eq_nil_iff.mpr (List.all_eq_true.mp hall)]
    rfl
  · rfl

theorem beginOpensBlock_append {more : List Char} (h : nextWord more = []) (t word : List Char)
    {cs : List Char} (hcs : cs.all isSpace = false)
    (hat : ∀ previous, terminatorAt t previous (cs.dropWhile isSpace ++ more) =
      terminatorAt t previous (cs.dropWhile isSpace)) :
    beginOpensBlock t word (cs ++ more) = beginOpensBlock t word cs := by
  have hle : (cs.takeWhile isSpace).length ≤ cs.length := length_takeWhile_le isSpace cs
  obtain ⟨d, next, hnext⟩ : ∃ d next, cs.dropWhile isSpace = d :: next := by
    refine List.exists_cons_of_ne_nil fun hnil => ?_
    rw [List.all_eq_true.mpr (List.dropWhile_eq_nil_iff.mp hnil)] at hcs
    cases hcs
  unfold beginOpensBlock
  simp only [nextWord_append h, takeWhile_append_of_not_all hcs, List.drop_append_of_le_length hle,
    drop_length_takeWhile, hat]
  rw [hnext]
  rfl

theorem beginOpensBlock_append_seam (h : Separates terminator) {t : List Char}
    (ht : SplitOptions.isTerminator t = true) (word : List Char) {cs : List Char}
    (hend : cs.all isSpace = true → t = terminator) :
    beginOpensBlock t word (cs ++ seam terminator following) = beginOpensBlock t word cs := by
  cases hall : cs.all isSpace with
  | false =>
      exact beginOpensBlock_append (nextWord_seam h) t word hall fun previous =>
        terminatorAt_append_lineFeed (not_mem_of_isTerminator ht) ..
  | true =>
      -- At the end of the script no block opens, and at the terminator behind the seam none either.
      obtain rfl := hend hall
      obtain ⟨c, rest, rfl, hword, -⟩ := h.exists_eq_cons
      have hgap : cs.takeWhile isSpace = cs :=
        List.takeWhile_eq_self_iff.mpr (List.all_eq_true.mp hall)
      have hdrop : (cs ++ seam (c :: rest) following).drop (cs ++ ['\n']).length =
          c :: rest ++ '\n' :: following := by
        rw [append_seam, List.drop_left]
      have hat : terminatorAt (c :: rest) (word ++ (cs ++ ['\n'])).getLast?
          (c :: rest ++ '\n' :: following) = true := by
        unfold terminatorAt
        rw [after?_eq_some_iff.mpr rfl]
        simp [hword, show isWord '\n' = false from by decide]
      unfold beginOpensBlock
      simp only [takeWhile_isSpace_append_seam h, hall, if_true]
      rw [hdrop, hat, hgap, List.drop_length]
      simp

private theorem directive?_eq_none_of_isSpace {cs : List Char} (h : cs.all isSpace = true) :
    directive? cs = none := by
  have hnone (n : Nat) : ((cs.drop n).takeWhile fun c => !isSpace c) = [] := by
    cases hdrop : cs.drop n with
    | nil => rfl
    | cons c rest =>
        have hc : isSpace c = true :=
          List.all_eq_true.mp h c (List.mem_of_mem_drop (hdrop ▸ List.mem_cons_self))
        exact List.takeWhile_cons_of_neg (by simp [hc])
  unfold directive?
  dsimp only
  rw [hnone, if_pos]
  simp

/-- A directive at the end takes in the line feed and no more. -/
theorem directive?_append_lineFeed {cs : List Char} (more : List Char) :
    (directive? cs = none → directive? (cs ++ '\n' :: more) = none) ∧
      ∀ delimiter n, directive? cs = some (delimiter, n) →
        directive? (cs ++ '\n' :: more) = some (delimiter, n) ∨
          n = cs.length ∧ directive? (cs ++ '\n' :: more) = some (delimiter, n + 1) := by
  unfold directive?
  dsimp only
  rw [takeWhile_append_stop (by decide)]
  generalize hgap : (cs.takeWhile fun c => c == ' ' || c == '\t') = gap
  have hgapLength : gap.length ≤ cs.length := hgap ▸ length_takeWhile_le _ cs
  rw [List.drop_append_of_le_length hgapLength]
  generalize hnamed : cs.drop gap.length = named
  rw [takeWhile_append_stop (by decide)]
  generalize hdelimiter : (named.takeWhile fun c => !isSpace c) = d
  have hdelimiterLength : d.length ≤ named.length := hdelimiter ▸ length_takeWhile_le _ named
  rw [List.drop_append_of_le_length hdelimiterLength]
  generalize htail : named.drop d.length = tail
  have hline : lineLength (tail ++ '\n' :: more) = lineLength tail := by
    rw [lineLength, lineLength, takeWhile_append_stop (by decide)]
  have htailLength := lineLength_le tail
  rw [hline]
  split
  · exact ⟨fun _ => rfl, fun _ _ h => by cases h⟩
  · refine ⟨fun h => (by cases h), fun delimiter n h => ?_⟩
    cases h
    rw [if_pos (by simp only [List.length_append, List.length_cons]; omega)]
    split
    · exact .inl rfl
    · have hnamedLength : named.length = cs.length - gap.length := by
        rw [← hnamed, List.length_drop]
      have htailLength' : tail.length = named.length - d.length := by
        rw [← htail, List.length_drop]
      exact .inr ⟨by omega, rfl⟩

end Lexeme

def Event.lengthened (e : Event) : Event := { e with text := e.text ++ ['\n'] }

namespace Scanner

variable {terminator following : List Char}

/-- The scanner at the same place in a script that goes on. -/
def followedBy (s : Scanner) (more : List Char) : Scanner := { s with rest := s.rest ++ more }

variable {s : Scanner}

@[simp] theorem followedBy_options (more : List Char) :
    (s.followedBy more).options = s.options := rfl

@[simp] theorem followedBy_previous (more : List Char) :
    (s.followedBy more).previous = s.previous := rfl

@[simp] theorem followedBy_terminator (more : List Char) :
    (s.followedBy more).terminator = s.terminator := rfl

private theorem atTerminator_followedBy (hs : SplitOptions.isTerminator s.terminator = true)
    (more : List Char) : (s.followedBy ('\n' :: more)).atTerminator = s.atTerminator := by
  have hopener {a b : Char} (ha : a ≠ '\n') (hb : b ≠ '\n') (cs : List Char) :
      [a, b].isPrefixOf (cs ++ '\n' :: more) = [a, b].isPrefixOf cs := by
    match cs with
    | [] => simp [List.isPrefixOf, ha]
    | [c] => simp [List.isPrefixOf, hb]
    | c :: d :: cs => rfl
  unfold atTerminator commentOpenerLength followedBy previous
  simp only [Lexeme.terminatorAt_append_lineFeed (Lexeme.not_mem_of_isTerminator hs)]
  rw [hopener (by decide) (by decide), hopener (by decide) (by decide)]

theorem directive?_append_lineFeed (s : Scanner) (word cs more : List Char) :
    (s.directive? word cs = none → s.directive? word (cs ++ '\n' :: more) = none) ∧
      ∀ delimiter n, s.directive? word cs = some (delimiter, n) →
        s.directive? word (cs ++ '\n' :: more) = some (delimiter, n) ∨
          n = cs.length ∧
            s.directive? word (cs ++ '\n' :: more) = some (delimiter, n + 1) := by
  unfold directive?
  split
  · exact ⟨fun _ => rfl, fun _ _ h => by cases h⟩
  split
  · exact Lexeme.directive?_append_lineFeed more
  · exact ⟨fun _ => rfl, fun _ _ h => by cases h⟩

/-- What may take in the line feed of a seam. -/
def Extensible (kind : EventKind) (cs : List Char) : Prop :=
  kind = .code ∧ cs.all isSpace = true ∨ ∃ delimiter, kind = .delimiterChange delimiter

theorem wordLexeme_followedBy (following : List Char) (hseparates : Lexeme.Separates terminator)
    (hs : SplitOptions.isTerminator s.terminator = true)
    (hend : s.afterWord.all isSpace = true → s.terminator = terminator) :
    (s.followedBy (seam terminator following)).wordLexeme = s.wordLexeme ∨
      s.wordLexeme.2 = s.rest.length ∧ Extensible s.wordLexeme.1 s.rest ∧
        (s.followedBy (seam terminator following)).wordLexeme =
          (s.wordLexeme.1, s.wordLexeme.2 + 1) := by
  have hword : (s.followedBy (seam terminator following)).word = s.word :=
    takeWhile_append_stop (by decide) _ _
  have hafter : (s.followedBy (seam terminator following)).afterWord =
      s.afterWord ++ seam terminator following := by
    rw [afterWord, hword]
    exact List.drop_append_of_le_length (length_takeWhile_le isWord s.rest)
  have hlength : s.rest.length = s.word.length + s.afterWord.length := by
    rw [← List.length_append, ← rest_eq_word_append]
  have hkeyword : (s.followedBy (seam terminator following)).keywordLexeme = s.keywordLexeme := by
    refine keywordLexeme_congr rfl Iff.rfl hword (fun _ => ?_) (fun _ => ?_) rfl
    · rw [hword, hafter]
      exact Lexeme.beginOpensBlock_append_seam hseparates hs s.word hend
    · rw [hafter, Lexeme.endClosesBlock?_append (Lexeme.nextWord_seam hseparates)]
  have hsame (word cs : List Char) :
      (s.followedBy (seam terminator following)).directive? word cs = s.directive? word cs := rfl
  obtain ⟨hnone, hsome⟩ :=
    s.directive?_append_lineFeed s.word s.afterWord (terminator ++ '\n' :: following)
  rw [wordLexeme_eq, wordLexeme_eq s, hword, hafter, hkeyword, hsame, seam]
  cases hdirective : s.directive? s.word s.afterWord with
  | none =>
      rw [hnone hdirective]
      exact .inl rfl
  | some found =>
      obtain ⟨delimiter, n⟩ := found
      rcases hsome delimiter n hdirective with hsame | ⟨rfl, hmore⟩
      · rw [hsame]
        exact .inl rfl
      · rw [hmore]
        exact .inr ⟨hlength.symm, .inr ⟨delimiter, rfl⟩, rfl⟩

theorem visibleLexeme_followedBy (following : List Char) (hseparates : Lexeme.Separates terminator)
    (hs : SplitOptions.isTerminator s.terminator = true)
    (hend : s.afterWord.all isSpace = true → s.terminator = terminator) {c : Char} {cs : List Char}
    (hrest : s.rest = c :: cs) :
    (s.followedBy (seam terminator following)).visibleLexeme c (cs ++ seam terminator following) =
        s.visibleLexeme c cs ∨
      (s.visibleLexeme c cs).2 = s.rest.length ∧ Extensible (s.visibleLexeme c cs).1 s.rest ∧
        (s.followedBy (seam terminator following)).visibleLexeme c
          (cs ++ seam terminator following) =
            ((s.visibleLexeme c cs).1, (s.visibleLexeme c cs).2 + 1) := by
  unfold visibleLexeme
  split
  · exact wordLexeme_followedBy following hseparates hs hend
  split
  · rw [← List.cons_append, Lexeme.takeWhile_isSpace_append_seam hseparates]
    split
    · rename_i hall
      have htake : (c :: cs).takeWhile isSpace = c :: cs :=
        List.takeWhile_eq_self_iff.mpr (List.all_eq_true.mp hall)
      rw [htake, hrest]
      exact .inr ⟨rfl, .inl ⟨rfl, hall⟩, by simp⟩
    · exact .inl rfl
  · exact .inl rfl

/-- A lexeme is the same in a script that goes on, or it takes in the line feed of the seam. -/
theorem lexeme_followedBy (following : List Char) (hseparates : Lexeme.Separates terminator)
    (hs : SplitOptions.isTerminator s.terminator = true)
    (hend : s.afterWord.all isSpace = true → s.terminator = terminator) {c : Char} {cs : List Char}
    (hrest : s.rest = c :: cs) {kind : EventKind} {n : Nat} (h : s.lexeme c cs = .ok (kind, n)) :
    (s.followedBy (seam terminator following)).lexeme c (cs ++ seam terminator following) =
        .ok (kind, n) ∨
      n = s.rest.length ∧ Extensible kind s.rest ∧
        (s.followedBy (seam terminator following)).lexeme c (cs ++ seam terminator following) =
          .ok (kind, n + 1) := by
  rw [lexeme_eq] at h ⊢
  have hat : (s.followedBy (seam terminator following)).atTerminator = s.atTerminator :=
    atTerminator_followedBy hs _
  rw [hat]
  split
  · rename_i here
    rw [if_pos here] at h
    exact .inl h
  rename_i apart
  rw [if_neg apart] at h
  cases hhidden : Lexeme.hidden? s.options s.terminator s.previous c cs with
  | none =>
      have hnone : Lexeme.hidden? s.options s.terminator s.previous c
          (cs ++ seam terminator following) = none :=
        Lexeme.hidden?_eq_none_of_agrees
          ⟨cs, _, [], rfl, (List.append_nil cs).symm, rfl⟩ hhidden
      rw [hhidden, Option.getD_none, Except.ok.injEq] at h
      rw [followedBy_options, followedBy_terminator, followedBy_previous, hnone, Option.getD_none]
      rcases visibleLexeme_followedBy following hseparates hs hend hrest with
        hsame | ⟨hlength, hkind, hmore⟩
      · rw [hsame, h]
        exact .inl rfl
      · rw [hmore, h]
        rw [h] at hlength hkind
        exact .inr ⟨hlength, hkind, rfl⟩
  | some found =>
      cases found with
      | error construct =>
          rw [hhidden] at h
          cases h
      | ok found =>
          obtain ⟨kind', n'⟩ := found
          rw [hhidden] at h
          cases h
          have hsome : Lexeme.hidden? s.options s.terminator s.previous c
              (cs ++ seam terminator following) = some (.ok (kind, n)) :=
            Lexeme.hidden?_append_of_isMute hhidden rfl fun _ _ => .inr rfl
          rw [followedBy_options, followedBy_terminator, followedBy_previous, hsome]
          exact .inl rfl

/-! ### Steps -/

theorem step_followedBy_of_lexeme {more : List Char} {c : Char} {cs : List Char} {kind : EventKind}
    {n : Nat} (hrest : s.rest = c :: cs) (hn : n ≤ s.rest.length)
    (h : (s.followedBy more).lexeme c (cs ++ more) = .ok (kind, n)) :
    (s.followedBy more).step =
      .event (s.event kind n) ((s.advance (s.event kind n)).followedBy more) := by
  have hrest' : (s.followedBy more).rest = c :: (cs ++ more) := by
    rw [← List.cons_append, ← hrest]
    rfl
  have hevent : (s.followedBy more).event kind n = s.event kind n :=
    congrArg (Event.mk kind s.offset) (List.take_append_of_le_length hn)
  have hadvance : (s.followedBy more).advance (s.event kind n) =
      (s.advance (s.event kind n)).followedBy more := by
    have hlength : (s.event kind n).text.length ≤ s.rest.length :=
      (List.length_take_of_le hn).trans_le hn
    simp only [advance, followedBy, List.drop_append_of_le_length hlength]
  rw [step_of_lexeme hrest' h, hevent, hadvance]

theorem step_followedBy (following : List Char) (hseparates : Lexeme.Separates terminator)
    (hs : SplitOptions.isTerminator s.terminator = true)
    (hend : s.afterWord.all isSpace = true → s.terminator = terminator) {e : Event} {t : Scanner}
    (h : s.step = .event e t) :
    (s.followedBy (seam terminator following)).step =
        .event e (t.followedBy (seam terminator following)) ∨
      t.rest = [] ∧ Extensible e.kind e.text ∧
        (s.followedBy (seam terminator following)).step =
          .event e.lengthened
            ((s.followedBy (seam terminator following)).advance e.lengthened) := by
  obtain ⟨c, cs, n, hrest, hlexeme, hn, he, rfl⟩ := lexeme_of_step h
  have hrest' : (s.followedBy (seam terminator following)).rest =
      c :: (cs ++ seam terminator following) := by
    rw [← List.cons_append, ← hrest]
    rfl
  rcases lexeme_followedBy following hseparates hs hend hrest hlexeme with
    hsame | ⟨rfl, hkind, hmore⟩
  · have hstep := step_followedBy_of_lexeme hrest hn hsame
    rw [← he] at hstep
    exact .inl hstep
  · -- The lexeme is all that is left of the script.
    have hall : e.text = s.rest := by
      rw [he]
      exact List.take_length
    have hevent : (s.followedBy (seam terminator following)).event e.kind (s.rest.length + 1) =
        e.lengthened := by
      rw [Event.lengthened, hall, he]
      refine congrArg (Event.mk _ s.offset) ?_
      change (s.rest ++ seam terminator following).take (s.rest.length + 1) = _
      rw [append_seam, List.take_left' (by simp)]
    refine .inr ⟨?_, hall ▸ hkind, ?_⟩
    · change s.rest.drop e.text.length = []
      rw [hall, List.drop_length]
    · rw [step_of_lexeme hrest' hmore, hevent]

/-! ### Walks -/

/-- Events that come of a script, and those that come of it when it goes on: the line feed of the
seam is an event of its own, or the last event takes it in. -/
inductive Resumed : List Event → List Event → Prop
  | apart (start : Nat) : Resumed [] [⟨.code, start, ['\n']⟩]
  | within {e : Event} (extensible : Extensible e.kind e.text) : Resumed [e] [e.lengthened]
  | cons (e : Event) {es es' : List Event} (more : Resumed es es') : Resumed (e :: es) (e :: es')

theorem Walk.terminator_eq_of_isSpace {s t : Scanner} {es : List Event} (h : Walk s es t)
    (hspaces : s.afterWord.all isSpace = true) : t.terminator = s.terminator := by
  refine (h.keeps (P := fun u => u.afterWord.all isSpace = true ∧ u.terminator = s.terminator)
    ?_ ⟨hspaces, rfl⟩).2
  rintro u v e ⟨hu, hterminator⟩ step
  have hv : v.afterWord.all isSpace = true := by
    rw [afterWord, word, drop_length_takeWhile] at hu ⊢
    rw [rest_of_step step] at hu
    exact all_dropWhile_of_append hu
  refine ⟨hv, ?_⟩
  rw [terminator_eq_of_step step, ← hterminator]
  cases hkind : e.kind with
  | delimiterChange delimiter =>
      obtain ⟨c, cs, hrest, hlexed, -⟩ := step_eq_event step
      rw [hkind] at hlexed
      obtain ⟨m, hnamed⟩ := hlexed.named_of_delimiterChange
      have hdirective := (directive?_eq_some hnamed).2.2.2
      rw [Lexeme.directive?_eq_none_of_isSpace hu] at hdirective
      cases hdirective
  | _ => simp [Event.delimiter?, hkind]

theorem Walk.eq_nil_of_rest_eq_nil {s t : Scanner} {es : List Event} (h : Walk s es t)
    (hs : s.rest = []) : es = [] ∧ t = s := by
  cases h with
  | nil s => exact ⟨rfl, rfl⟩
  | cons step walk =>
      obtain ⟨c, cs, hrest, -⟩ := step_eq_event step
      rw [hs] at hrest
      cases hrest

/-- A scan of a script that goes on comes to the terminator behind the seam. -/
theorem Walk.followedBy (following : List Char) (hseparates : Lexeme.Separates terminator)
    {s t : Scanner} {es : List Event} (h : Walk s es t)
    (hs : SplitOptions.isTerminator s.terminator = true)
    (hend : t.rest = []) (hterminator : t.terminator = terminator) :
    ∃ es' t', Walk (s.followedBy (seam terminator following)) es' t' ∧ Resumed es es' ∧
      t'.rest = terminator ++ '\n' :: following ∧ t'.terminator = terminator ∧
      t'.openBlocks = t.openBlocks := by
  induction h with
  | nil s =>
      -- Nothing is left that could take the line feed in, and the terminator is no space.
      have hrest : (s.followedBy (seam terminator following)).rest = seam terminator following :=
        congrArg (· ++ seam terminator following) hend
      have hspaces : (seam terminator following).takeWhile isSpace = ['\n'] :=
        Lexeme.takeWhile_isSpace_append_seam hseparates []
      have hstep := step_of_isSpace (s := s.followedBy (seam terminator following)) hs hrest
        (by decide)
      have hevent : (s.followedBy (seam terminator following)).event .code ['\n'].length =
          ⟨.code, s.offset, ['\n']⟩ := by
        rw [event, hrest]
        rfl
      rw [← seam, hspaces, hevent] at hstep
      refine ⟨_, _, .cons hstep (.nil _), .apart s.offset, ?_, hterminator, rfl⟩
      rw [advance, hrest]
      rfl
  | @cons s u t e es step walk ih =>
      -- What the walk ends with is in effect here already, where only a word and spaces are left.
      have hlast : s.afterWord.all isSpace = true → s.terminator = terminator := fun hspaces =>
        ((Walk.cons step walk).terminator_eq_of_isSpace hspaces).symm.trans hterminator
      rcases step_followedBy following hseparates hs hlast step with
        hsame | ⟨hrest, hkind, hmore⟩
      · obtain ⟨es', t', hwalk, hresumed, hafter⟩ :=
          ih (isTerminator_of_step hs step) hend hterminator
        exact ⟨e :: es', t', .cons hsame hwalk, .cons e hresumed, hafter⟩
      · -- The line feed is behind the last character, so this event is the last one.
        obtain ⟨rfl, rfl⟩ := walk.eq_nil_of_rest_eq_nil hrest
        have hall : s.rest = e.text := by
          rw [rest_of_step step, hrest, List.append_nil]
        have hadvance := advance_of_step step
        refine ⟨_, _, .cons hmore (.nil _), .within hkind, ?_, ?_, ?_⟩
        · change (s.rest ++ seam terminator following).drop (e.text ++ ['\n']).length = _
          rw [hall, append_seam, List.drop_left]
        · rw [← hterminator, hadvance]
          rfl
        · rw [hadvance]
          rfl

end Scanner

end SqlBatch
