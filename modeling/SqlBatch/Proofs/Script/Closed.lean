import SqlBatch.Proofs.Script.Composition
import SqlBatch.Proofs.Script.Excerpt

/-!
# Scripts closed by a semicolon

A scan of a script goes the same way when a semicolon is put right behind it. No word and no opener
goes on at a semicolon, a BEGIN opens no block in front of it as it opens none at the end, and the
semicolon is the terminator there. Only a line comment at the end takes it in.
-/

namespace SqlBatch

open Text

def Event.isLineComment (e : Event) : Bool := e.kind = .comment .line

namespace Lexeme

variable (more : List Char)

theorem nextWord_semicolon : nextWord (';' :: more) = [] := by
  have hspace : isSpace ';' = false := by decide
  have hword : isWord ';' = false := by decide
  simp [nextWord, hspace, hword]

theorem terminatorAt_semicolon_iff {previous : Option Char} {c : Char} {cs : List Char} :
    terminatorAt [';'] previous (c :: cs) = true ↔ c = ';' := by
  rw [terminatorAt_of_wordless (List.forall_mem_singleton.mpr (by decide)), List.cons_prefix_cons,
    eq_comm]
  simp

theorem beginOpensBlock_append_semicolon (word cs : List Char) :
    beginOpensBlock [';'] word (cs ++ ';' :: more) = beginOpensBlock [';'] word cs := by
  cases hall : cs.all isSpace with
  | false =>
      refine beginOpensBlock_append (nextWord_semicolon more) _ word hall fun previous => ?_
      obtain ⟨c, next, hnext⟩ : ∃ c next, cs.dropWhile isSpace = c :: next := by
        refine List.exists_cons_of_ne_nil fun hnil => ?_
        rw [List.all_eq_true.mpr (List.dropWhile_eq_nil_iff.mp hnil)] at hall
        cases hall
      rw [hnext, List.cons_append, Bool.eq_iff_iff, terminatorAt_semicolon_iff,
        terminatorAt_semicolon_iff]
  | true =>
      have hspace : (';' :: more).head?.any isSpace = false := by simp; decide
      have hgap : cs.takeWhile isSpace = cs :=
        List.takeWhile_eq_self_iff.mpr (List.all_eq_true.mp hall)
      have hat : terminatorAt [';'] (word ++ cs).getLast? (';' :: more) = true :=
        terminatorAt_semicolon_iff.mpr rfl
      unfold beginOpensBlock
      simp only [takeWhile_append_of_head? hspace, hgap, List.drop_left, List.drop_length, hat]
      simp

end Lexeme

namespace Scanner

variable {s t : Scanner} {e : Event}

/-! ### Steps in front of a semicolon -/

theorem atTerminator_iff_of_semicolon (hs : s.Plain) (hterminator : s.terminator = [';'])
    {c : Char} {cs : List Char} (hrest : s.rest = c :: cs) :
    s.atTerminator = true ↔ s.openBlocks = [] ∧ c = ';' := by
  rw [hs.atTerminator_iff, hterminator, hrest, List.cons_prefix_cons]
  refine and_congr_right fun _ => ⟨fun h => h.1.1.symm, ?_⟩
  rintro rfl
  have hopener : s.commentOpenerLength = 0 := by
    simp [commentOpenerLength, hrest, List.isPrefixOf]
  exact ⟨⟨rfl, List.nil_prefix⟩, by rw [hopener]; exact Nat.zero_le _⟩

theorem Plain.followedBy (hs : s.Plain) (more : List Char) : (s.followedBy more).Plain :=
  ⟨hs.isTerminator, hs.undirected, hs.wordless, hs.undotted⟩

variable (more : List Char)

theorem visibleLexeme_followedBy_semicolon (hs : s.Plain) (hterminator : s.terminator = [';'])
    (c : Char) (cs : List Char) :
    (s.followedBy (';' :: more)).visibleLexeme c (cs ++ ';' :: more) = s.visibleLexeme c cs := by
  have hspace : (';' :: more).head?.any isSpace = false := by simp; decide
  have hnext := Lexeme.nextWord_semicolon more
  have hword : (s.followedBy (';' :: more)).word = s.word :=
    takeWhile_append_of_head? (Lexeme.head?_of_nextWord_eq_nil hnext) s.rest
  have hafter : (s.followedBy (';' :: more)).afterWord = s.afterWord ++ ';' :: more := by
    rw [afterWord, hword]
    exact List.drop_append_of_le_length (length_takeWhile_le isWord s.rest)
  unfold visibleLexeme
  split
  · rw [(hs.followedBy _).wordLexeme_eq, hs.wordLexeme_eq]
    refine keywordLexeme_congr rfl Iff.rfl hword (fun _ => ?_) (fun _ => ?_) rfl
    · rw [followedBy_terminator, hterminator, hword, hafter,
        Lexeme.beginOpensBlock_append_semicolon]
    · rw [hafter, Lexeme.endClosesBlock?_append hnext]
  split
  · rw [← List.cons_append, takeWhile_append_of_head? hspace]
  · rfl

/-- A step is the same in front of a semicolon, unless it takes a line comment at the end. -/
theorem step_followedBy_semicolon (hs : s.Plain) (hterminator : s.terminator = [';'])
    (h : s.step = .event e t) (hline : e.isLineComment = true → t.rest ≠ []) :
    (s.followedBy (';' :: more)).step = .event e (t.followedBy (';' :: more)) := by
  obtain ⟨c, cs, n, hrest, hlexeme, hn, he, rfl⟩ := lexeme_of_step h
  obtain ⟨text, after, rfl, rfl⟩ := exists_append_of_lexeme hs.ne_nil hrest hlexeme
  have hrest' : (s.followedBy (';' :: more)).rest = c :: (text ++ after ++ ';' :: more) := by
    rw [← List.cons_append, ← hrest]
    rfl
  have hat : (s.followedBy (';' :: more)).atTerminator = s.atTerminator := by
    rw [Bool.eq_iff_iff, atTerminator_iff_of_semicolon hs hterminator hrest,
      atTerminator_iff_of_semicolon (hs.followedBy _) hterminator hrest']
    exact Iff.rfl
  have hsame : (s.followedBy (';' :: more)).lexeme c (text ++ after ++ ';' :: more) =
      .ok (e.kind, text.length + 1) := by
    rw [lexeme_eq] at hlexeme ⊢
    rw [hat, followedBy_options, followedBy_terminator, followedBy_previous,
      visibleLexeme_followedBy_semicolon more hs hterminator]
    split
    · rename_i here
      rwa [if_pos here] at hlexeme
    rename_i apart
    rw [if_neg apart] at hlexeme
    cases hhidden : Lexeme.hidden? s.options s.terminator s.previous c (text ++ after) with
    | none =>
        rw [Lexeme.hidden?_eq_none_of_agrees
          ⟨text ++ after, _, [], rfl, (List.append_nil _).symm, rfl⟩ hhidden]
        rwa [hhidden] at hlexeme
    | some found =>
        rw [hhidden, Option.getD_some] at hlexeme
        rw [hlexeme] at hhidden
        rw [Lexeme.hidden?_append_of_isMute hhidden rfl fun hkind hnil => ?_, Option.getD_some]
        -- The line comment would have to be all that is left.
        have hall : e.text = s.rest := by
          rw [Nat.add_sub_cancel, List.drop_left] at hnil
          rw [he, event, hrest, hnil, List.append_nil]
          change (c :: text).take (c :: text).length = c :: text
          exact List.take_length
        have hnone : (s.advance e).rest = [] := by rw [advance, hall, List.drop_length]
        exact absurd hnone (hline (by simp [Event.isLineComment, hkind]))
  have hstep := step_followedBy_of_lexeme hrest hn hsame
  rwa [← he] at hstep

/-- A line comment at the end takes the semicolon in, and all that follows on its line. -/
theorem step_followedBy_of_isLineComment (hs : s.Plain) (hterminator : s.terminator = [';'])
    (h : s.step = .event e t) (hline : e.isLineComment = true) (hend : t.rest = [])
    (hmore : more = [] ∨ more.head? = some '\n') :
    (s.followedBy (';' :: more)).step = .event { e with text := e.text ++ [';'] }
      ((s.followedBy (';' :: more)).advance { e with text := e.text ++ [';'] }) := by
  have hkind : e.kind = .comment .line := of_decide_eq_true hline
  have hcut : e.isCut = false := by simp [Event.isCut, hkind]
  obtain ⟨c, text, htext, hshown | ⟨-, hhidden⟩⟩ := shows_or_hides_of_step hs.ne_nil h hcut
  · rw [hkind] at hshown
    cases hshown.1
  · rw [hkind] at hhidden
    obtain ⟨rfl, hopener, henabled, hmem, -⟩ := Lexeme.hidden?_eq_lineComment_iff.mp hhidden
    have hrest : s.rest = '-' :: text := by rw [rest_of_step h, hend, htext, List.append_nil]
    have hrest' : (s.followedBy (';' :: more)).rest = '-' :: (text ++ [';'] ++ more) := by
      rw [List.append_assoc, ← List.cons_append, ← hrest]
      rfl
    have hapart : ¬ (s.followedBy (';' :: more)).atTerminator = true := fun hat => by
      have hfirst := (atTerminator_iff_of_semicolon (hs.followedBy _) hterminator hrest').mp hat
      exact absurd hfirst.2 (by decide)
    have hlong : Lexeme.hidden? s.options s.terminator s.previous '-' (text ++ [';'] ++ more) =
        some (.ok (.comment .line, (text ++ [';']).length + 1)) := by
      refine Lexeme.hidden?_eq_lineComment_iff.mpr ⟨rfl, ?_, henabled, ?_, hmore⟩
      · rw [List.head?_append, hopener, Option.some_or]
      · simpa using hmem
    have hlexeme : (s.followedBy (';' :: more)).lexeme '-' (text ++ [';'] ++ more) =
        .ok (.comment .line, (text ++ [';']).length + 1) := by
      rw [lexeme_eq, if_neg hapart]
      exact congrArg (Option.getD · _) hlong
    have hevent : (⟨.comment .line, s.offset, '-' :: (text ++ [';'])⟩ : Event) =
        { e with text := e.text ++ [';'] } := by
      rw [htext, ← hkind, ← start_of_step h]
      rfl
    rw [← hevent]
    exact step_of_lexeme_append hrest' hlexeme

theorem step_of_semicolon (hs : s.Plain) (hterminator : s.terminator = [';'])
    (hblocks : s.openBlocks = []) (hrest : s.rest = ';' :: more) :
    s.step = .event ⟨.terminator, s.offset, [';']⟩ (s.advance ⟨.terminator, s.offset, [';']⟩) := by
  have hat := (atTerminator_iff_of_semicolon hs hterminator hrest).mpr ⟨hblocks, rfl⟩
  have hlexeme : s.lexeme ';' more = .ok (.terminator, 1) := by
    rw [lexeme, if_pos hat, hterminator]
    rfl
  have hevent : s.event .terminator 1 = ⟨.terminator, s.offset, [';']⟩ := by
    rw [event, hrest]
    rfl
  rw [step_of_lexeme hrest hlexeme, hevent]

/-! ### Walks -/

theorem Walk.followedBy_semicolon {es : List Event} (h : Walk s es t) (hs : s.Plain)
    (hterminator : s.terminator = [';'])
    (hline : es.getLast?.any Event.isLineComment = true → t.rest ≠ []) :
    Walk (s.followedBy (';' :: more)) es (t.followedBy (';' :: more)) := by
  induction h with
  | nil s => exact .nil _
  | @cons s u t e es step walk ih =>
      refine .cons (step_followedBy_semicolon more hs hterminator step fun hcomment hnil => ?_)
        (ih (hs.of_step step) ((hs.terminator_of_step step).trans hterminator) fun hlast => ?_)
      · obtain ⟨rfl, rfl⟩ := walk.eq_nil_of_rest_eq_nil hnil
        exact hline hcomment hnil
      · cases es with
        | nil => cases hlast
        | cons f fs => exact hline (by rwa [List.getLast?_cons_cons])

end Scanner

end SqlBatch
