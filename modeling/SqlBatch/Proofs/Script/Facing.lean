import SqlBatch.Proofs.Script.Blanked

/-!
# Scripts that go on with another word behind a colon

No word, no spaces and no opener of a literal or comment go on over a colon. So two scanners that
know the same take the same step in front of a colon, whatever word stands behind it. Only a
terminator that holds the colon could tell the words apart, and the keyword of the directive, which
looks for blanks in the terminator it is to read.
-/

namespace SqlBatch

open Text

namespace Text

/-- Whether a name stands in a text right behind a colon, as a whole word. -/
def namedIn (name : List Char) : List Char → Bool
  | [] => false
  | c :: cs => (c == ':' && cs.takeWhile isWord == name) || namedIn name cs

theorem takeWhile_ne_of_namedIn {name xs ys : List Char}
    (h : namedIn name (xs ++ ':' :: ys) = false) : ys.takeWhile isWord ≠ name := by
  induction xs with
  | nil =>
      rw [List.nil_append, namedIn, Bool.or_eq_false_iff] at h
      simpa using h.1
  | cons c xs ih =>
      rw [List.cons_append, namedIn, Bool.or_eq_false_iff] at h
      exact ih h.2

theorem not_isSpace_of_isWord {c : Char} (h : isWord c = true) : isSpace c = false := by
  rw [← Bool.not_eq_true]
  intro hspace
  rw [not_isWord_of_isSpace hspace] at h
  cases h

theorem dropWhile_append_stop {p : Char → Bool} {c : Char} (hc : p c = false) (xs ys : List Char) :
    (xs ++ c :: ys).dropWhile p = xs.dropWhile p ++ c :: ys := by
  rw [List.dropWhile_append]
  split
  · rename_i hempty
    rw [List.isEmpty_iff.mp hempty, List.dropWhile_cons_of_neg (by simp [hc]), List.nil_append]
  · rfl

end Text

namespace Lexeme

theorem takeWhile_of_apart {held post : List Char} (hheld : held ≠ [])
    (hapart : ¬(held.getLast?.any isWord = true ∧ post.head?.any isWord = true)) :
    (held ++ post).takeWhile isWord = held.takeWhile isWord := by
  cases hall : held.all isWord with
  | false => exact takeWhile_append_of_not_all hall post
  | true =>
      apply takeWhile_append_of_head?
      rw [← Bool.not_eq_true]
      intro hpost
      refine hapart ⟨?_, hpost⟩
      rw [List.getLast?_eq_some_getLast hheld]
      exact List.all_eq_true.mp hall _ (List.getLast_mem hheld)

theorem terminatorAt_colon {terminator xs ys : List Char}
    (hunnamed : ∀ zs, zs ≠ [] → terminator = xs ++ ':' :: zs →
      zs.takeWhile isWord ≠ ys.takeWhile isWord) (previous : Option Char) :
    terminatorAt terminator previous (xs ++ ':' :: ys) =
      terminatorAt terminator previous (xs ++ [':']) := by
  obtain ⟨pre, rfl⟩ : ∃ pre : List Char, pre.getLast? = previous :=
    ⟨previous.toList, by cases previous <;> rfl⟩
  have hcolon : isWord ':' = false := by decide
  have hhead (more : List Char) : (more ++ ':' :: ys).head?.any isWord =
      (more ++ [':']).head?.any isWord := by
    cases more <;> rfl
  rw [Bool.eq_iff_iff, Scanner.terminatorAt_iff, Scanner.terminatorAt_iff]
  constructor
  · rintro ⟨post, hpost, hbefore, hbehind⟩
    rcases List.append_eq_append_iff.mp hpost with ⟨held, rfl, hheld⟩ | ⟨more, rfl, rfl⟩
    · cases held with
      | nil => exact ⟨[':'], by simp, hbefore, by simp [hcolon]⟩
      | cons c zs =>
          obtain ⟨rfl, rfl⟩ := List.cons.inj hheld
          cases zs with
          | nil => exact ⟨[], by simp, hbefore, by simp⟩
          | cons d zs =>
              have hne := List.cons_ne_nil d zs
              refine absurd (takeWhile_of_apart hne fun hword => hbehind ⟨?_, hword.2⟩).symm
                (hunnamed _ hne rfl)
              rw [List.getLast?_append, List.getLast?_cons_cons,
                List.getLast?_eq_some_getLast hne, Option.some_or]
              exact List.getLast?_eq_some_getLast hne ▸ hword.1
    · refine ⟨more ++ [':'], by simp, hbefore, ?_⟩
      rwa [← hhead]
  · rintro ⟨post, hpost, hbefore, hbehind⟩
    rcases List.append_eq_append_iff.mp hpost with ⟨held, rfl, hheld⟩ | ⟨more, rfl, rfl⟩
    · cases held with
      | nil => exact ⟨':' :: ys, by simp, hbefore, by simp [hcolon]⟩
      | cons c zs =>
          obtain ⟨rfl, hnil⟩ := List.cons.inj hheld
          obtain ⟨rfl, rfl⟩ := List.append_eq_nil_iff.mp hnil.symm
          exact ⟨ys, by simp, hbefore, by simp [hcolon]⟩
    · refine ⟨more ++ ':' :: ys, by simp, hbefore, ?_⟩
      rwa [hhead]

theorem terminatorAt_colon_congr {terminator xs ys cs : List Char}
    (hs : SplitOptions.isTerminator terminator = true)
    (hunnamed : cs.all (!isSpace ·) = true → namedIn (xs.takeWhile isWord) terminator = false ∧
      namedIn (ys.takeWhile isWord) terminator = false) (previous : Option Char) :
    terminatorAt terminator previous (cs ++ ':' :: ys) =
      terminatorAt terminator previous (cs ++ ':' :: xs) := by
  have hsolid {zs : List Char} (hheld : terminator = cs ++ ':' :: zs) :
      cs.all (!isSpace ·) = true := by
    rw [List.all_eq_true]
    intro c hc
    rw [SplitOptions.not_isSpace_of_isTerminator hs (hheld ▸ List.mem_append_left _ hc)]
    rfl
  have hxs : terminatorAt terminator previous (cs ++ ':' :: xs) = _ :=
    terminatorAt_colon (fun zs _ hheld =>
      takeWhile_ne_of_namedIn (hheld ▸ (hunnamed (hsolid hheld)).1)) previous
  have hys : terminatorAt terminator previous (cs ++ ':' :: ys) = _ :=
    terminatorAt_colon (fun zs _ hheld =>
      takeWhile_ne_of_namedIn (hheld ▸ (hunnamed (hsolid hheld)).2)) previous
  rw [hxs, hys]

theorem directive?_append_of_lineFeed (line more : List Char) :
    directive? (line ++ '\n' :: more) = directive? (line ++ ['\n']) := by
  unfold directive?
  dsimp only
  rw [takeWhile_append_stop (by decide), takeWhile_append_stop (by decide)]
  generalize hgap : (line.takeWhile fun c => c == ' ' || c == '\t') = gap
  have hgapLength : gap.length ≤ line.length := hgap ▸ length_takeWhile_le _ line
  rw [List.drop_append_of_le_length hgapLength, List.drop_append_of_le_length hgapLength]
  generalize line.drop gap.length = named
  rw [takeWhile_append_stop (by decide), takeWhile_append_stop (by decide)]
  generalize hdelimiter : (named.takeWhile fun c => !isSpace c) = d
  have hdelimiterLength : d.length ≤ named.length := hdelimiter ▸ length_takeWhile_le _ named
  rw [List.drop_append_of_le_length hdelimiterLength,
    List.drop_append_of_le_length hdelimiterLength]
  generalize named.drop d.length = tail
  have hline (more : List Char) : lineLength (tail ++ '\n' :: more) = lineLength tail := by
    rw [lineLength, lineLength, takeWhile_append_stop (by decide)]
  have hlt (more : List Char) : lineLength tail < (tail ++ '\n' :: more).length := by
    have := lineLength_le tail
    simp only [List.length_append, List.length_cons]
    omega
  rw [hline, hline, if_pos (hlt more), if_pos (hlt [])]

end Lexeme

/-- Two texts that are the same, or the same up to a colon. Where the first run of other characters
than spaces goes as far as the colon, the terminator holds neither of the words behind it. -/
inductive Facing (terminator : List Char) : List Char → List Char → Prop
  | refl (cs : List Char) : Facing terminator cs cs
  | colon (cs : List Char) {xs ys : List Char}
      (blanks : (xs.takeWhile (!isSpace ·)).any isBlank = (ys.takeWhile (!isSpace ·)).any isBlank)
      (unnamed : (cs.dropWhile isSpace).all (!isSpace ·) = true →
        namedIn (xs.takeWhile isWord) terminator = false ∧
          namedIn (ys.takeWhile isWord) terminator = false) :
      Facing terminator (cs ++ ':' :: xs) (cs ++ ':' :: ys)

namespace Facing

variable {terminator xs ys : List Char}

theorem bare (h : Facing terminator xs ys) : Facing [] xs ys := by
  cases h with
  | refl => exact .refl xs
  | colon cs blanks unnamed => exact .colon cs blanks fun _ => ⟨rfl, rfl⟩

theorem append (h : Facing [] xs ys) (cs : List Char) : Facing [] (cs ++ xs) (cs ++ ys) := by
  cases h with
  | refl => exact .refl _
  | colon ds blanks unnamed =>
      rw [← List.append_assoc, ← List.append_assoc]
      exact .colon (cs ++ ds) blanks fun _ => ⟨rfl, rfl⟩

theorem head?_eq (h : Facing terminator xs ys) : ys.head? = xs.head? := by
  cases h with
  | refl => rfl
  | colon cs => cases cs <;> rfl

theorem eq_nil_iff (h : Facing terminator xs ys) : ys = [] ↔ xs = [] := by
  rw [← List.head?_eq_none_iff, ← List.head?_eq_none_iff, h.head?_eq]

theorem takeWhile_eq {p : Char → Bool} (h : Facing terminator xs ys) (hp : p ':' = false) :
    ys.takeWhile p = xs.takeWhile p := by
  cases h with
  | refl => rfl
  | colon cs => rw [takeWhile_append_stop hp, takeWhile_append_stop hp]

theorem dropWhile {p : Char → Bool} (h : Facing [] xs ys) (hp : p ':' = false) :
    Facing [] (xs.dropWhile p) (ys.dropWhile p) := by
  cases h with
  | refl => exact .refl _
  | colon cs blanks unnamed =>
      rw [dropWhile_append_stop hp, dropWhile_append_stop hp]
      exact .colon _ blanks fun _ => ⟨rfl, rfl⟩

theorem any_isBlank_eq (h : Facing terminator xs ys) :
    (ys.takeWhile (!isSpace ·)).any isBlank = (xs.takeWhile (!isSpace ·)).any isBlank := by
  cases h with
  | refl => rfl
  | colon cs blanks unnamed =>
      have hcolon : (!isSpace ':') = true := by decide
      rw [List.takeWhile_append, List.takeWhile_append]
      split
      · simp only [List.takeWhile_cons, hcolon, if_true, List.any_append, List.any_cons, blanks]
      · rfl

theorem nextWord_eq (h : Facing terminator xs ys) : Lexeme.nextWord ys = Lexeme.nextWord xs := by
  rw [Lexeme.nextWord, Lexeme.nextWord]
  exact (h.bare.dropWhile (by decide)).takeWhile_eq (by decide)

private theorem endClosesBlock?_eq (h : Facing terminator xs ys) :
    Lexeme.endClosesBlock? ys = Lexeme.endClosesBlock? xs := by
  simp only [Lexeme.endClosesBlock?, h.nextWord_eq, h.takeWhile_eq (p := isSpace) (by decide)]

private theorem terminatorAt_append (h : Facing terminator xs ys)
    (hs : SplitOptions.isTerminator terminator = true) (cs : List Char) (previous : Option Char) :
    Lexeme.terminatorAt terminator previous (cs ++ ys) =
      Lexeme.terminatorAt terminator previous (cs ++ xs) := by
  cases h with
  | refl => rfl
  | colon ds blanks unnamed =>
      rw [← List.append_assoc, ← List.append_assoc]
      refine Lexeme.terminatorAt_colon_congr hs (fun hsolid => unnamed ?_) previous
      rw [List.all_append, Bool.and_eq_true] at hsolid
      exact List.all_eq_true.mpr fun c hc =>
        List.all_eq_true.mp hsolid.2 c ((List.dropWhile_suffix isSpace).mem hc)

private theorem terminatorAt_dropWhile (h : Facing terminator xs ys)
    (hs : SplitOptions.isTerminator terminator = true) (previous : Option Char) :
    Lexeme.terminatorAt terminator previous (ys.dropWhile isSpace) =
      Lexeme.terminatorAt terminator previous (xs.dropWhile isSpace) := by
  cases h with
  | refl => rfl
  | colon ds blanks unnamed =>
      rw [dropWhile_append_stop (by decide), dropWhile_append_stop (by decide)]
      exact Lexeme.terminatorAt_colon_congr hs unnamed previous

private theorem beginOpensBlock_eq (h : Facing terminator xs ys)
    (hs : SplitOptions.isTerminator terminator = true) (word : List Char) :
    Lexeme.beginOpensBlock terminator word ys = Lexeme.beginOpensBlock terminator word xs := by
  have hempty : (ys.dropWhile isSpace).isEmpty = (xs.dropWhile isSpace).isEmpty := by
    rw [Bool.eq_iff_iff, List.isEmpty_iff, List.isEmpty_iff]
    exact (h.bare.dropWhile (by decide)).eq_nil_iff
  simp only [Lexeme.beginOpensBlock, drop_length_takeWhile]
  rw [hempty, h.nextWord_eq, h.takeWhile_eq (by decide), h.terminatorAt_dropWhile hs]

/-! ### Directives -/

theorem directive?_eq_none (h : Facing terminator xs ys) (hnone : Lexeme.directive? xs = none) :
    Lexeme.directive? ys = none := by
  have hempty (p : Char → Bool) (cs : List Char) : (cs.takeWhile p).isEmpty = !cs.head?.any p := by
    cases cs with
    | nil => rfl
    | cons c cs => cases hc : p c <;> simp [hc]
  have hnamed := h.bare.dropWhile (p := fun c => c == ' ' || c == '\t') (by decide)
  simp only [Lexeme.directive?, drop_length_takeWhile, hempty] at hnone ⊢
  rw [h.head?_eq, hnamed.head?_eq, hnamed.any_isBlank_eq]
  split at hnone
  · rename_i hwrong
    rw [if_pos hwrong]
  · cases hnone

private theorem directive?_append (h : Facing terminator xs ys) {cs delimiter : List Char}
    (hsome : Lexeme.directive? (cs ++ xs) = some (delimiter, cs.length)) :
    Lexeme.directive? (cs ++ ys) = some (delimiter, cs.length) := by
  obtain ⟨line, after, happend, hlength, hend⟩ := Lexeme.directive?_ends hsome
  obtain ⟨rfl, rfl⟩ := List.append_inj happend hlength
  rcases hend with rfl | hlast
  · rwa [h.eq_nil_iff.mpr rfl]
  · obtain ⟨line, rfl⟩ := List.getLast?_eq_some_iff.mp hlast
    rw [List.append_assoc, List.singleton_append, Lexeme.directive?_append_of_lineFeed] at hsome ⊢
    exact hsome

/-! ### Literals and comments -/

theorem dollarMarkerLength?_eq (h : Facing terminator xs ys) (previous : Option Char) :
    Lexeme.dollarMarkerLength? previous ys = Lexeme.dollarMarkerLength? previous xs := by
  have htag := h.takeWhile_eq (p := isWord) (by decide)
  have hdrop : (ys.drop (xs.takeWhile isWord).length).head? =
      (xs.drop (xs.takeWhile isWord).length).head? := by
    rw [← htag, drop_length_takeWhile, htag, drop_length_takeWhile]
    exact (h.bare.dropWhile (by decide)).head?_eq
  unfold Lexeme.dollarMarkerLength?
  rw [h.head?_eq, htag]
  cases xs.head?.any isNameStart with
  | true => simp only [if_true, hdrop]
  | false => simp only [Bool.false_eq_true, if_false, List.length_nil, List.drop_zero, h.head?_eq]

private theorem take_marker_eq (h : Facing terminator xs ys) {previous : Option Char} {n : Nat}
    (hmarker : Lexeme.dollarMarkerLength? previous xs = some n) :
    ('$' :: ys).take n = ('$' :: xs).take n := by
  have hmarker' := (h.dollarMarkerLength?_eq previous).trans hmarker
  obtain ⟨-, tag, rest, rfl, hword, rfl⟩ := Lexeme.dollarMarkerLength?_eq_some hmarker
  obtain ⟨-, tag', rest', rfl, hword', hlength⟩ := Lexeme.dollarMarkerLength?_eq_some hmarker'
  have htag := h.takeWhile_eq (p := isWord) (by decide)
  rw [takeWhile_append_stop (by decide), takeWhile_append_stop (by decide),
    List.takeWhile_eq_self_iff.mpr (List.all_eq_true.mp hword),
    List.takeWhile_eq_self_iff.mpr (List.all_eq_true.mp hword')] at htag
  rw [htag, Lexeme.take_marker, Lexeme.take_marker]

variable {options : SplitOptions} {t : List Char} {previous : Option Char} {c : Char}

theorem hidden?_eq_none (h : Facing terminator xs ys)
    (hnone : Lexeme.hidden? options t previous c xs = none) :
    Lexeme.hidden? options t previous c ys = none := by
  unfold Lexeme.hidden? at hnone ⊢
  rw [h.head?_eq, h.dollarMarkerLength?_eq]
  split at hnone
  · cases hnone
  rename_i hline
  split at hnone
  · cases hnone
  rename_i hblock
  split at hnone
  · cases hnone
  rename_i hsingle
  split at hnone
  · cases hnone
  rename_i hdouble
  split at hnone
  · cases hnone
  rename_i hbacktick
  rw [if_neg hline, if_neg hblock, if_neg hsingle, if_neg hdouble, if_neg hbacktick]
  split at hnone
  · rename_i hdollar
    rw [if_pos hdollar]
    simp only [Bool.and_eq_true, decide_eq_true_eq] at hdollar
    obtain ⟨rfl, -⟩ := hdollar
    cases hmarker : Lexeme.dollarMarkerLength? previous xs with
    | none => rfl
    | some n =>
        rw [hmarker, Option.bind_some] at hnone
        rw [Option.bind_some, h.take_marker_eq hmarker]
        split at hnone
        · rename_i heq
          rw [if_pos heq]
        · cases hnone
  · rename_i hother
    rw [if_neg hother]

theorem hidden?_append (h : Facing terminator xs ys) {kind : EventKind} {text : List Char}
    (hhidden : Lexeme.hidden? options t previous c (text ++ xs) =
      some (.ok (kind, text.length + 1))) :
    Lexeme.hidden? options t previous c (text ++ ys) = some (.ok (kind, text.length + 1)) := by
  have hbounded := Lexeme.bounded_of_hidden? hhidden
  have hline := hbounded.line
  have hquote := hbounded.quote
  rw [Nat.add_sub_cancel, List.drop_left] at hline hquote
  have hsame : Lexeme.hidden? options t previous c ((text ++ xs).take (text.length + 1 - 1) ++ ys) =
      some (.ok (kind, text.length + 1)) := by
    refine Lexeme.hidden?_append hhidden (fun hkind => ?_) fun style hkind hplain => ?_
    · rw [h.eq_nil_iff, h.head?_eq]
      exact hline hkind
    · rw [h.head?_eq]
      exact hquote style hkind hplain
  rwa [Nat.add_sub_cancel, List.take_left] at hsame

end Facing

namespace Lexeme

private theorem directive?_starts {cs delimiter : List Char} {n : Nat}
    (h : directive? cs = some (delimiter, n)) : 0 < n ∧ ∃ c ∈ cs.head?, isSpace c = true := by
  unfold directive? at h
  dsimp only at h
  have hsplit := List.takeWhile_append_dropWhile (p := fun c => c == ' ' || c == '\t') (l := cs)
  have hall := List.all_takeWhile (p := fun c => c == ' ' || c == '\t') (l := cs)
  generalize (cs.takeWhile fun c => c == ' ' || c == '\t') = gap at h hsplit hall
  cases gap with
  | nil => simp at h
  | cons c gap =>
      simp only [List.all_cons, Bool.and_eq_true, Bool.or_eq_true, beq_iff_eq] at hall
      split at h
      · cases h
      · obtain ⟨-, rfl⟩ := Prod.mk.inj (Option.some.inj h)
        rw [← hsplit]
        refine ⟨by rw [List.length_cons]; omega, c, rfl, ?_⟩
        rcases hall.1 with rfl | rfl <;> rfl

end Lexeme

namespace Scanner

variable {s s' t : Scanner} {e : Event} {following : List Char}

theorem atLineStart_of_isWord (h : s.previous.any isWord = true) : s.atLineStart = false := by
  unfold previous at h
  unfold atLineStart
  cases hbefore : s.before with
  | nil =>
      rw [hbefore] at h
      cases h
  | cons c before =>
      rw [hbefore] at h
      have hfeed : c ≠ '\n' := by
        rintro rfl
        cases h
      simp [hfeed, not_isBlank_of_isWord h]

private theorem exists_space_of_directive (hstep : s.step = .event e s') {delimiter : List Char}
    (hkind : e.kind = .delimiterChange delimiter) :
    ∃ c text, e.text = c :: text ∧ isSpace c = false ∧ (c :: text).all (!isSpace ·) = false := by
  obtain ⟨c, cs, hrest, hlexed, htext, -, -⟩ := step_eq_event hstep
  rw [hkind] at hlexed
  generalize hn : e.text.length = n at hlexed
  cases hlexed with
  | @directive apart first _ m named =>
      obtain ⟨hpos, d, hd, hspace⟩ :=
        Lexeme.directive?_starts (directive?_eq_some named).2.2.2
      obtain ⟨more, hmore⟩ := List.head?_eq_some_iff.mp hd
      have hword : e.text = s.word ++ (s.afterWord).take m := by
        rw [← List.take_length_add_append, ← rest_eq_word_append, htext, ← hn, List.take_left]
      obtain ⟨m, rfl⟩ := Nat.exists_eq_add_one_of_ne_zero (Nat.ne_of_gt hpos)
      rw [hmore, List.take_succ_cons] at hword
      rw [word, hrest, List.takeWhile_cons_of_pos first, List.cons_append] at hword
      exact ⟨c, _, hword, not_isSpace_of_isWord first, by simp [hspace]⟩

/-- A directive holds a space, and no terminator does: what was in effect before it is not seen
behind it. -/
theorem facing_of_step (hstep : s.step = .event e s') (h : Facing s'.terminator s'.rest following) :
    Facing s.terminator s.rest (e.text ++ following) := by
  rw [rest_of_step hstep]
  generalize s'.rest = ahead at h
  cases h with
  | refl => exact .refl _
  | colon cs blanks unnamed =>
      rw [← List.append_assoc, ← List.append_assoc]
      refine .colon (e.text ++ cs) blanks fun hsolid => ?_
      cases hdelimiter : e.delimiter? with
      | none =>
          have hsame := terminator_eq_of_step hstep
          rw [hdelimiter, Option.getD_none] at hsame
          exact hsame ▸ unnamed (all_dropWhile_of_append hsolid)
      | some delimiter =>
          exfalso
          have hkind : e.kind = .delimiterChange delimiter := by
            obtain ⟨kind, start, text⟩ := e
            cases kind <;> cases hdelimiter
            rfl
          obtain ⟨c, text, htext, hc, hspace⟩ := exists_space_of_directive hstep hkind
          rw [htext, List.cons_append, List.dropWhile_cons_of_neg (by simp [hc]),
            ← List.cons_append, List.all_append, hspace] at hsolid
          cases hsolid

theorem directive?_of_eq_some {word cs : List Char} {found : List Char × Nat}
    (h : s.directive? word cs = some found) (cs' : List Char) :
    s.directive? word cs' = Lexeme.directive? cs' := by
  unfold directive? at h ⊢
  cases hkeyword : s.options.delimiterKeyword with
  | none =>
      rw [hkeyword] at h
      cases h
  | some keyword =>
      rw [hkeyword] at h
      dsimp only at h ⊢
      split at h
      · rename_i hplace
        rw [if_pos hplace]
      · cases h

theorem directive?_eq_none {word cs cs' : List Char} (h : s.directive? word cs = none)
    (hnone : Lexeme.directive? cs = none → Lexeme.directive? cs' = none) :
    s.directive? word cs' = none := by
  cases hthere : s.directive? word cs' with
  | none => rfl
  | some found =>
      rw [← hthere, directive?_of_eq_some hthere]
      rw [directive?_of_eq_some hthere] at h
      exact hnone h

theorem word_eq_of_step (hstep : s.step = .event e s')
    (hfacing : Facing s'.terminator s'.rest following) (hrest : t.rest = e.text ++ following) :
    t.word = s.word ∧ Facing [] s.afterWord t.afterWord := by
  have hbare : Facing [] s.rest t.rest := by
    rw [hrest, rest_of_step hstep]
    exact hfacing.bare.append e.text
  refine ⟨hbare.takeWhile_eq (by decide), ?_⟩
  rw [afterWord, afterWord, Scanner.word, drop_length_takeWhile, Scanner.word,
    drop_length_takeWhile]
  exact hbare.dropWhile (by decide)

theorem afterWord_eq_of_step (hstep : s.step = .event e s') (hrest : t.rest = e.text ++ following)
    (hword : t.word = s.word) (hle : s.word.length ≤ e.text.length) :
    s.afterWord = e.text.drop s.word.length ++ s'.rest ∧
      t.afterWord = e.text.drop s.word.length ++ following := by
  rw [afterWord, afterWord, hword, hrest, rest_of_step hstep,
    List.drop_append_of_le_length hle, List.drop_append_of_le_length hle]
  exact ⟨rfl, rfl⟩

/-! ### Scanners beside each other -/

/-- Two scanners that know the same, whatever stands before them and behind them. -/
structure Beside (s t : Scanner) : Prop where
  options : t.options = s.options
  terminator : t.terminator = s.terminator
  depth : t.depth = s.depth
  hasCode : t.hasCode = s.hasCode
  word : t.previous.any isWord = s.previous.any isWord
  dot : t.previous = some '.' ↔ s.previous = some '.'
  line : t.atLineStart = s.atLineStart

namespace Beside

theorem advance (h : Beside s t) (e : Event) : Beside (s.advance e) (t.advance e) where
  options := h.options
  terminator := by simp only [Scanner.advance, h.terminator]
  depth := by
    have hdepth := h.depth
    unfold Scanner.depth Scanner.advance at *
    cases e.kind <;> simp [hdepth]
  hasCode := by simp only [Scanner.advance, h.hasCode]
  word := by
    have hword := h.word
    simp only [previous, Scanner.advance, List.head?_append] at hword ⊢
    cases e.text.reverse.head? with
    | none => exact hword
    | some c => rfl
  dot := by
    have hdot := h.dot
    simp only [previous, Scanner.advance, List.head?_append] at hdot ⊢
    cases e.text.reverse.head? with
    | none => exact hdot
    | some c => rfl
  line := by
    have hline := h.line
    simp only [atLineStart, Scanner.advance, List.takeWhile_append] at hline ⊢
    split
    · rw [List.all_append, List.all_append, hline]
    · rfl

theorem atTerminator_eq (h : Beside s t) (hs : SplitOptions.isTerminator s.terminator = true)
    (hfacing : Facing s.terminator s.rest t.rest)
    (hopener : t.commentOpenerLength = s.commentOpenerLength) :
    t.atTerminator = s.atTerminator := by
  have hat : Lexeme.terminatorAt s.terminator t.previous t.rest =
      Lexeme.terminatorAt s.terminator s.previous s.rest := by
    rw [← List.nil_append t.rest, hfacing.terminatorAt_append hs [], List.nil_append]
    simp only [Lexeme.terminatorAt, h.word]
  simp only [atTerminator, isEmpty_openBlocks_of_depth h.depth, h.terminator, hat, hopener]

private theorem directive?_eq (h : Beside s t) (word cs : List Char) :
    t.directive? word cs = s.directive? word cs := by
  simp only [directive?, h.options, isEmpty_openBlocks_of_depth h.depth, h.hasCode, h.line]

theorem keywordLexeme_eq (h : Beside s t) (hs : SplitOptions.isTerminator s.terminator = true)
    (hstep : s.step = .event e s') (hfacing : Facing s'.terminator s'.rest following)
    (hrest : t.rest = e.text ++ following) (hlexeme : s.keywordLexeme = (e.kind, e.text.length)) :
    t.keywordLexeme = s.keywordLexeme := by
  obtain ⟨hword, hafter⟩ := word_eq_of_step hstep hfacing hrest
  refine keywordLexeme_congr h.options h.dot hword (fun hbegin => ?_) (fun _ => ?_) h.depth
  · have hlength : e.text.length = s.word.length := by
      rw [← keywordLexeme_of_begin hbegin, hlexeme]
    obtain ⟨hahead, hbehind⟩ := afterWord_eq_of_step hstep hrest hword (Nat.le_of_eq hlength.symm)
    rw [← hlength, List.drop_length, List.nil_append] at hahead hbehind
    have hcut : e.isCut = false := by
      have hshows := (keywordLexeme_shows s).1
      rw [hlexeme] at hshows
      obtain ⟨kind, start, text⟩ := e
      cases kind <;> first | rfl | cases hshows
    rw [terminator_eq_of_not_isCut hstep hcut] at hfacing
    rw [hword, h.terminator, hahead, hbehind]
    exact hfacing.beginOpensBlock_eq hs s.word
  · exact hafter.endClosesBlock?_eq

theorem wordLexeme_eq (h : Beside s t) (hs : SplitOptions.isTerminator s.terminator = true)
    (hstep : s.step = .event e s') (hfacing : Facing s'.terminator s'.rest following)
    (hrest : t.rest = e.text ++ following) (hlexeme : s.wordLexeme = (e.kind, e.text.length)) :
    t.wordLexeme = (e.kind, e.text.length) := by
  obtain ⟨hword, hafter⟩ := word_eq_of_step hstep hfacing hrest
  rw [Scanner.wordLexeme_eq] at hlexeme ⊢
  rw [hword, h.directive?_eq]
  cases hdirective : s.directive? s.word s.afterWord with
  | some found =>
      obtain ⟨delimiter, n⟩ := found
      rw [hdirective] at hlexeme
      obtain ⟨hkind, hlength⟩ := Prod.mk.inj hlexeme
      obtain ⟨hahead, hbehind⟩ := afterWord_eq_of_step hstep hrest hword (by omega)
      have hn : n = (e.text.drop s.word.length).length := by
        rw [List.length_drop]
        omega
      have hread : Lexeme.directive? t.afterWord = some (delimiter, n) := by
        have hnamed := (directive?_eq_some hdirective).2.2.2
        rw [hbehind, hn]
        rw [hahead, hn] at hnamed
        exact hfacing.directive?_append hnamed
      rw [directive?_of_eq_some hdirective, hread]
      exact hlexeme
  | none =>
      rw [hdirective, Option.map_none, Option.getD_none] at hlexeme
      rw [directive?_eq_none hdirective hafter.directive?_eq_none, Option.map_none,
        Option.getD_none, h.keywordLexeme_eq hs hstep hfacing hrest hlexeme, hlexeme]

private theorem commentOpenerLength_eq (h : Beside s t) {c : Char} {cs : List Char}
    (hs : s.rest = c :: cs) {ds : List Char} (ht : t.rest = c :: ds) (hhead : ds.head? = cs.head?) :
    t.commentOpenerLength = s.commentOpenerLength := by
  have hopener (a b : Char) : [a, b].isPrefixOf (c :: ds) = [a, b].isPrefixOf (c :: cs) := by
    cases cs with
    | nil =>
        obtain rfl := List.head?_eq_none_iff.mp hhead
        rfl
    | cons d cs =>
        obtain ⟨ds, rfl⟩ := List.head?_eq_some_iff.mp hhead
        simp [List.isPrefixOf]
  simp only [commentOpenerLength, h.options, hs, ht, hopener]

/-- Scanners beside each other take the same step in front of texts that are the same up to a
colon. -/
theorem step (h : Beside s t) (hs : SplitOptions.isTerminator s.terminator = true)
    (hstep : s.step = .event e s') (hfacing : Facing s'.terminator s'.rest following)
    (hrest : t.rest = e.text ++ following) :
    t.step = .event { e with start := t.offset } (t.advance e) := by
  obtain ⟨c, text, htext, hcs, hlexeme⟩ :=
    exists_lexeme_of_step (SplitOptions.ne_nil_of_isTerminator hs) hstep
  have hseen := facing_of_step hstep hfacing
  have hahead := hfacing.bare.append text
  have hwordLexeme := h.wordLexeme_eq hs hstep hfacing hrest
  rw [← hrest] at hseen
  rw [htext, List.cons_append] at hrest
  have hopener := h.commentOpenerLength_eq hcs hrest hahead.head?_eq
  have hsame : t.lexeme c (text ++ following) = .ok (e.kind, text.length + 1) := by
    rw [lexeme_eq] at hlexeme ⊢
    rw [h.atTerminator_eq hs hseen hopener, h.options, h.terminator,
      Lexeme.hidden?_congr_previous fun _ _ => h.word]
    split
    · rename_i here
      rwa [if_pos here] at hlexeme
    rename_i apart
    rw [if_neg apart] at hlexeme
    cases hhidden : Lexeme.hidden? s.options s.terminator s.previous c (text ++ s'.rest) with
    | some found =>
        rw [hhidden, Option.getD_some] at hlexeme
        rw [hlexeme] at hhidden
        rw [hfacing.hidden?_append hhidden, Option.getD_some]
    | none =>
        rw [hhidden, Option.getD_none, Except.ok.injEq] at hlexeme
        rw [hahead.hidden?_eq_none hhidden, Option.getD_none, Except.ok.injEq]
        unfold visibleLexeme at hlexeme ⊢
        split
        · rename_i first
          rw [if_pos first] at hlexeme
          rw [htext] at hwordLexeme
          exact hwordLexeme hlexeme
        rename_i notWord
        rw [if_neg notWord] at hlexeme
        rwa [← List.cons_append, (hfacing.bare.append (c :: text)).takeWhile_eq (by decide)]
  have hnext := step_of_lexeme_append hrest hsame
  rwa [← htext] at hnext

theorem abreast (h : Beside s t) : Abreast s t :=
  ⟨h.options, h.terminator, h.depth, h.hasCode, fun _ _ _ => h.word, fun _ _ _ => h.dot⟩

end Beside

end Scanner

end SqlBatch
