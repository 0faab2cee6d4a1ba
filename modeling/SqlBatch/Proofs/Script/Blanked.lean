import SqlBatch.Proofs.Script.Composition
import SqlBatch.Proofs.Script.Excerpt

/-!
# Spaces in the place of comments

A scanner in a script, and one in the same script with a space in the place of each comment, see the
same wherever no comment stands: a comment is no part of a word, of a terminator or of a literal,
and neither is the space. Only a word may be another piece, for BEGIN, END and the keyword of the
directive look past the spaces that follow them.
-/

namespace SqlBatch

open Text

namespace Text

/-- A text that is the same as another up to some place, and from there on goes on with a space
where the other goes on with no word character. -/
inductive Blanked : List Char → List Char → Prop
  | refl (cs : List Char) : Blanked cs cs
  | space (xs : List Char) {ys : List Char} (apart : ys.head?.any isWord = false) :
      Blanked (' ' :: xs) ys
  | cons (c : Char) {xs ys : List Char} (more : Blanked xs ys) : Blanked (c :: xs) (c :: ys)

namespace Blanked

variable {xs ys : List Char}

theorem append (h : Blanked xs ys) (cs : List Char) : Blanked (cs ++ xs) (cs ++ ys) := by
  induction cs with
  | nil => exact h
  | cons c cs ih => exact .cons c ih

theorem agrees (h : Blanked xs ys) : Agrees xs ys := by
  induction h with
  | refl cs => exact .of_isPrefix (List.prefix_refl cs)
  | space xs apart => exact ⟨[], _, _, rfl, rfl, rfl⟩
  | cons c more ih => exact ih.append [c]

theorem head?_any_isWord (h : Blanked xs ys) : xs.head?.any isWord = ys.head?.any isWord := by
  cases h with
  | refl => rfl
  | space xs apart =>
      rw [apart]
      rfl
  | cons => rfl

theorem takeWhile_isWord (h : Blanked xs ys) : xs.takeWhile isWord = ys.takeWhile isWord := by
  induction h with
  | refl => rfl
  | @space xs ys apart =>
      rw [List.takeWhile_cons_of_neg (by decide)]
      cases ys with
      | nil => rfl
      | cons c ys => rw [List.takeWhile_cons_of_neg (by simpa using apart)]
  | cons c more ih => rw [List.takeWhile_cons, List.takeWhile_cons, ih]

theorem exists_append {cs : List Char} (h : Blanked (cs ++ xs) ys) (hcs : ' ' ∉ cs) :
    ∃ ys', ys = cs ++ ys' ∧ Blanked xs ys' := by
  induction cs generalizing ys with
  | nil => exact ⟨ys, rfl, h⟩
  | cons c cs ih =>
      rw [List.mem_cons, not_or] at hcs
      cases h with
      | refl => exact ⟨xs, rfl, .refl xs⟩
      | space => exact absurd rfl hcs.1
      | cons _ more =>
          obtain ⟨ys', rfl, hmore⟩ := ih more hcs.2
          exact ⟨ys', rfl, hmore⟩

private theorem isPrefix {cs : List Char} (h : Blanked xs ys) (hcs : ' ' ∉ cs)
    (hbegins : cs <+: xs) : cs <+: ys := by
  obtain ⟨more, rfl⟩ := hbegins
  obtain ⟨ys', rfl, -⟩ := h.exists_append hcs
  exact List.prefix_append cs ys'

end Blanked

end Text

namespace Lexeme

theorem terminatorAt_append_congr {previous previous' : Option Char} {xs ys : List Char}
    (hword : previous'.any isWord = previous.any isWord)
    (hhead : xs.head?.any isWord = ys.head?.any isWord) (terminator : List Char) :
    terminatorAt terminator previous' (terminator ++ xs) =
      terminatorAt terminator previous (terminator ++ ys) := by
  unfold terminatorAt
  rw [after?_eq_some_iff.mpr rfl, after?_eq_some_iff.mpr rfl]
  simp only [hword, hhead]

private theorem terminatorAt_of_blanked {terminator : List Char} {previous previous' : Option Char}
    {xs ys : List Char} (h : Blanked xs ys) (hterminator : ' ' ∉ terminator)
    (hword : previous'.any isWord = previous.any isWord)
    (hat : terminatorAt terminator previous' xs = true) :
    terminatorAt terminator previous ys = true := by
  cases hafter : after? terminator xs with
  | none => simp [terminatorAt, hafter] at hat
  | some more =>
      rw [after?_eq_some_iff.mp hafter] at h hat
      obtain ⟨ys', rfl, hmore⟩ := h.exists_append hterminator
      rwa [terminatorAt_append_congr hword hmore.head?_any_isWord] at hat

end Lexeme

namespace Event

/-- A comment is a space, and every other event is itself. -/
def blanked (e : Event) : Event :=
  match e.kind with
  | .comment _ => { e with kind := .code, text := [' '] }
  | _ => e

def isComment (e : Event) : Bool :=
  match e.kind with
  | .comment _ => true
  | _ => false

theorem isSpaces_blanked {e : Event} (h : e.isComment = true) : e.blanked.isSpaces = true := by
  obtain ⟨kind, start, text⟩ := e
  cases kind <;> first | rfl | cases h

theorem text_blanked {e : Event} (h : e.isComment = true) : e.blanked.text = [' '] := by
  obtain ⟨kind, start, text⟩ := e
  cases kind <;> first | rfl | cases h

theorem blanked_eq {e : Event} (h : e.isComment = false) : e.blanked = e := by
  obtain ⟨kind, start, text⟩ := e
  cases kind <;> first | rfl | cases h

end Event

def Ending.construct? : Ending → Option Construct
  | .unbalanced construct _ => some construct
  | .complete | .capped => none

namespace Scanner

variable {s t b : Scanner} {e : Event}

/-- Whether the word at the place is one of those that look at what stands around them: BEGIN and
END, and the keyword of the directive. -/
def looksAround (s : Scanner) : Bool :=
  s.options.blocks && isKeyword s.word ["BEGIN", "END"] ||
    s.options.delimiterKeyword.any fun keyword => sameWord s.word keyword.toList

/-! ### Comments -/

/-- A comment starts with no word character. Behind it comes a space or nothing, or else it ended
with a slash. -/
theorem ends_of_isComment (h : s.step = .event e t) (hcomment : e.isComment = true) :
    s.rest.head?.any isWord = false ∧
      ((∀ c ∈ t.rest.head?, isSpace c = true) ∨ e.text.getLast? = some '/') := by
  obtain ⟨c, cs, hrest, hlexed, htext, -, -⟩ := step_eq_event h
  obtain ⟨kind, start, text⟩ := e
  cases kind with
  | comment style =>
      dsimp only at hlexed htext ⊢
      generalize hn : text.length = n at hlexed
      cases hlexed with
      | lineComment apart first second enabled =>
          refine ⟨by rw [hrest, first]; rfl, .inl fun d hd => ?_⟩
          rw [← hrest, htext] at hn
          rcases (Lexeme.lineLength_append_eq_iff.mp hn.symm).2 with hnil | hfeed
          · rw [hnil] at hd
            cases hd
          · rw [hfeed] at hd
            cases hd
            rfl
      | blockComment apart first second enabled closed =>
          obtain ⟨tail, rfl⟩ := List.head?_eq_some_iff.mp second
          obtain ⟨body, rest, hbody, rfl⟩ := Lexeme.blockCommentLength?_eq_some closed
          refine ⟨by rw [hrest, first]; rfl, .inr ?_⟩
          rw [List.tail_cons] at hbody
          have hwhole : text ++ t.rest = ('/' :: '*' :: (body ++ ['*', '/'])) ++ rest := by
            rw [← htext, hrest, first, hbody]
            simp
          rw [(List.append_inj hwhole (by simp [hn]; omega)).1, ← List.cons_append,
            ← List.cons_append, List.getLast?_append]
          rfl
  | _ => cases hcomment

/-- A text with spaces in the place of the comments of a walk, and the text of the walk. -/
theorem Walk.blanked {es : List Event} (h : Walk s es t) :
    Blanked (Event.concat (es.map Event.blanked) ++ t.rest) s.rest := by
  induction h with
  | nil s => exact .refl s.rest
  | @cons s u t e es step walk ih =>
      rw [List.map_cons, Event.concat_cons, List.append_assoc]
      cases hcomment : e.isComment with
      | true =>
          rw [Event.text_blanked hcomment]
          exact .space _ (ends_of_isComment step hcomment).1
      | false =>
          rw [Event.blanked_eq hcomment, rest_of_step step]
          exact ih.append e.text

theorem isSpaces_of_step (hs : SplitOptions.isTerminator s.terminator = true)
    (h : s.step = .event e t) {c : Char} (hc : c ∈ e.text.head?) (hspace : isSpace c = true) :
    e.isSpaces = true := by
  obtain ⟨text, htext⟩ := List.head?_eq_some_iff.mp hc
  have hrest : s.rest = c :: (text ++ t.rest) := by
    rw [rest_of_step h, htext, List.cons_append]
  obtain ⟨rfl, -⟩ := Step.event.inj (h.symm.trans (step_of_isSpace hs hrest hspace))
  rw [Event.isSpaces, event, hrest, take_length_takeWhile, List.all_takeWhile]
  rfl

theorem opener_prefix_of_not_atTerminator (hterminator : s.terminator ≠ [])
    (h : s.step = .event e t) (hapart : s.atTerminator = false) {opener : List Char}
    (hmem : opener ∈ s.options.commentOpeners) (hstarts : opener <+: s.rest) :
    opener <+: e.text := by
  cases hcut : e.isCut with
  | false => exact opener_prefix_of_step hterminator h hcut hmem hstarts
  | true =>
      -- A directive starts with a word.
      exfalso
      obtain ⟨c, cs, hrest, hlexed, -⟩ := step_eq_event h
      obtain ⟨kind, start, text⟩ := e
      cases kind with
      | terminator =>
          rw [hlexed.kind_eq_terminator_iff.mp rfl] at hapart
          cases hapart
      | delimiterChange =>
          dsimp only at hlexed
          generalize text.length = n at hlexed
          cases hlexed with
          | directive apart first named =>
              rw [hrest] at hstarts
              rcases SplitOptions.mem_commentOpeners.mp hmem with ⟨-, rfl⟩ | ⟨-, rfl⟩
              all_goals
                rw [← (List.cons_prefix_cons.mp hstarts).1] at first
                cases first
      | _ => cases hcut

/-! ### Scanners abreast -/

/-- A scanner, and one in a script with spaces in the place of comments, that know the same. Where
spaces follow, neither looks at what is before it. -/
structure Abreast (s b : Scanner) : Prop where
  options : b.options = s.options
  terminator : b.terminator = s.terminator
  depth : b.depth = s.depth
  hasCode : b.hasCode = s.hasCode
  word : ∀ c ∈ s.rest.head?, isSpace c = false → b.previous.any isWord = s.previous.any isWord
  dot : ∀ c ∈ s.rest.head?, isSpace c = false → (b.previous = some '.' ↔ s.previous = some '.')

namespace Abreast

theorem advance_comment (h : Abreast s b) (hs : s.terminator ≠ []) (hstep : s.step = .event e t)
    (hcomment : e.isComment = true) : Abreast t (b.advance e.blanked) := by
  have hends := (ends_of_isComment hstep hcomment).2
  have hprevious := previous_of_step hs hstep
  have hspace : (b.advance e.blanked).previous = some ' ' := by
    rw [previous_advance_of_ne_nil (by simp [Event.text_blanked hcomment]),
      Event.text_blanked hcomment]
    rfl
  obtain ⟨kind, start, text⟩ := e
  cases kind with
  | comment style =>
      rw [advance_of_step hstep] at hends hprevious ⊢
      refine ⟨h.options, h.terminator, h.depth, congrArg (· || false) h.hasCode,
        fun c hc hnot => ?_, fun c hc hnot => ?_⟩
      all_goals
        rcases hends with hspaces | hslash
        · rw [hspaces c hc] at hnot
          cases hnot
        · rw [hprevious, hspace, hslash]
          decide
  | _ => cases hcomment

/-- Behind an event, or a space in the place of a comment, the scanners know the same again. -/
theorem advance (h : Abreast s b) (hs : s.terminator ≠ []) (hstep : s.step = .event e t) :
    Abreast t (b.advance e.blanked) := by
  cases hcomment : e.isComment with
  | true => exact h.advance_comment hs hstep hcomment
  | false =>
      have htext := text_ne_nil_of_step hs hstep
      have hsame : (b.advance e).previous = (s.advance e).previous := by
        rw [previous_advance_of_ne_nil htext, previous_advance_of_ne_nil htext]
      rw [Event.blanked_eq hcomment, advance_of_step hstep]
      refine ⟨h.options, ?_, ?_, ?_, fun _ _ _ => by rw [hsame], fun _ _ _ => by rw [hsame]⟩
      · simp only [Scanner.advance, h.terminator]
      · have hdepth := h.depth
        unfold Scanner.depth Scanner.advance at *
        cases e.kind <;> simp [hdepth]
      · simp only [Scanner.advance, h.hasCode]

theorem wordLexeme_eq (h : Abreast s b) (hword : b.word = s.word)
    (hdot : b.previous = some '.' ↔ s.previous = some '.') (hplain : s.looksAround = false) :
    b.wordLexeme = s.wordLexeme := by
  obtain ⟨hblocks, hkeyword⟩ := Bool.or_eq_false_iff.mp hplain
  have hnone (a : Scanner) (ha : a.options = s.options) (haword : a.word = s.word) :
      a.directive? a.word a.afterWord = none := by
    unfold directive?
    rw [ha, haword]
    cases hdelimiter : s.options.delimiterKeyword with
    | none => rfl
    | some keyword =>
        rw [hdelimiter, Option.any_some] at hkeyword
        simp [hkeyword]
  rw [Scanner.wordLexeme_eq, Scanner.wordLexeme_eq s, hnone b h.options hword, hnone s rfl rfl]
  cases hon : s.options.blocks with
  | false => simp [keywordLexeme, h.options, hon, hword]
  | true =>
      have hother : isKeyword s.word ["BEGIN"] = false ∧ isKeyword s.word ["END"] = false := by
        rw [hon, Bool.true_and] at hblocks
        simpa [isKeyword] using hblocks
      refine keywordLexeme_congr h.options hdot hword (fun hbegin => ?_) (fun hend => ?_) h.depth
      · rw [hother.1] at hbegin
        cases hbegin
      · rw [hother.2] at hend
        cases hend

theorem atTerminator_eq (h : Abreast s b) (hs : SplitOptions.isTerminator s.terminator = true)
    (hstep : s.step = .event e t)
    (hshown : ∀ c ∈ s.rest.head?, isSpace c = false) {following : List Char}
    (hfollowing : Blanked following t.rest) (hrest : b.rest = e.text ++ following) :
    b.atTerminator = s.atTerminator := by
  have hspace : ' ' ∉ s.terminator := fun hmem =>
    absurd (SplitOptions.not_isBlank_of_isTerminator hs hmem) (by decide)
  have hblanked : Blanked b.rest s.rest := by
    rw [hrest, rest_of_step hstep]
    exact hfollowing.append e.text
  have hword : b.previous.any isWord = s.previous.any isWord := by
    obtain ⟨c, cs, hcs, -⟩ := step_eq_event hstep
    exact h.word c (by rw [hcs]; rfl) (hshown c (by rw [hcs]; rfl))
  have hempty := isEmpty_openBlocks_of_depth h.depth
  have hopeners : s.commentOpenerLength ≤ byteLength s.terminator →
      b.commentOpenerLength ≤ byteLength s.terminator := by
    rw [commentOpenerLength_le_iff, commentOpenerLength_le_iff, h.options]
    refine fun hle opener hmem hstarts => hle opener hmem (hblanked.isPrefix ?_ hstarts)
    intro hin
    have hblank := SplitOptions.not_isBlank_of_mem_commentOpeners hmem ' ' hin
    revert hblank
    decide
  cases hat : s.atTerminator with
  | true =>
      obtain ⟨c, cs, hcs, hlexed, -⟩ := step_eq_event hstep
      obtain ⟨-, htext, -⟩ := visible_of_step hstep (hlexed.kind_eq_terminator_iff.mpr hat)
      simp only [atTerminator, Bool.and_eq_true, decide_eq_true_eq, h.terminator] at hat ⊢
      obtain ⟨⟨houtside, hthere⟩, hle⟩ := hat
      rw [rest_of_step hstep, htext] at hthere
      refine ⟨⟨hempty.trans houtside, ?_⟩, hopeners hle⟩
      rwa [hrest, htext,
        Lexeme.terminatorAt_append_congr hword hfollowing.head?_any_isWord]
  | false =>
      have hwithin {opener : List Char} (hmem : opener ∈ s.options.commentOpeners)
          (hstarts : opener <+: s.rest) : opener <+: b.rest := by
        rw [hrest]
        exact (opener_prefix_of_not_atTerminator (SplitOptions.ne_nil_of_isTerminator hs) hstep hat
          hmem hstarts).trans (List.prefix_append _ _)
      rw [← Bool.not_eq_true] at hat ⊢
      refine fun hb => hat ?_
      simp only [atTerminator, Bool.and_eq_true, decide_eq_true_eq, h.terminator] at hb ⊢
      obtain ⟨⟨houtside, hthere⟩, hle⟩ := hb
      refine ⟨⟨hempty.symm.trans houtside,
        Lexeme.terminatorAt_of_blanked hblanked hspace hword hthere⟩, ?_⟩
      rw [commentOpenerLength_le_iff] at hle ⊢
      exact fun opener hmem hstarts => hle opener (h.options ▸ hmem) (hwithin hmem hstarts)

/-- At an event that is neither a comment nor spaces both scanners take the same step. -/
theorem step (h : Abreast s b) (hs : SplitOptions.isTerminator s.terminator = true)
    (hstep : s.step = .event e t) (hcomment : e.isComment = false)
    (hshown : ∀ c ∈ s.rest.head?, isSpace c = false) {following : List Char}
    (hfollowing : Blanked following t.rest) (hrest : b.rest = e.text ++ following)
    (halike : s.atTerminator = false → b.wordLexeme = s.wordLexeme) :
    b.step = .event { e with start := b.offset } (b.advance e) := by
  have hat := h.atTerminator_eq hs hstep hshown hfollowing hrest
  obtain ⟨c, text, htext, hcs, hlexeme⟩ :=
    exists_lexeme_of_step (SplitOptions.ne_nil_of_isTerminator hs) hstep
  have hc : c ∈ s.rest.head? := by rw [hcs]; rfl
  have hword := h.word c hc (hshown c hc)
  rw [htext, List.cons_append] at hrest
  have hsame : b.lexeme c (text ++ following) = .ok (e.kind, text.length + 1) := by
    rw [lexeme_eq] at hlexeme ⊢
    rw [hat, h.options, h.terminator, Lexeme.hidden?_congr_previous fun _ _ => hword]
    split
    · rename_i here
      rwa [if_pos here] at hlexeme
    rename_i apart
    rw [if_neg apart] at hlexeme
    cases hhidden : Lexeme.hidden? s.options s.terminator s.previous c (text ++ t.rest) with
    | none =>
        rw [Lexeme.hidden?_eq_none_of_agrees (hfollowing.agrees.append text) hhidden,
          Option.getD_none]
        rw [hhidden, Option.getD_none] at hlexeme
        have hvisible : b.visibleLexeme c (text ++ following) =
            s.visibleLexeme c (text ++ t.rest) := by
          unfold visibleLexeme
          rw [hshown c hc, halike (by simpa using apart)]
          simp
        rw [hvisible, hlexeme]
    | some found =>
        rw [hhidden, Option.getD_some] at hlexeme
        rw [hlexeme] at hhidden
        rw [Lexeme.hidden?_append_of_agrees hhidden hfollowing.agrees fun hline => ?_,
          Option.getD_some]
        -- This would be a comment.
        rw [Event.isComment, hline] at hcomment
        cases hcomment
  have hnext := step_of_lexeme_append hrest hsame
  rwa [← htext] at hnext

theorem ending? (h : Abreast s b) (hs : SplitOptions.isTerminator s.terminator = true)
    (hrest : b.rest = s.rest) {ending : Ending} (hending : s.step.ending? = some ending) :
    ∃ ending', b.step.ending? = some ending' ∧ ending'.construct? = ending.construct? := by
  cases hstep : s.step with
  | event =>
      rw [hstep] at hending
      cases hending
  | complete =>
      rw [hstep] at hending
      cases hending
      obtain ⟨hnil, hclosed⟩ := ending?_eq_complete_iff.mp (congrArg Step.ending? hstep)
      refine ⟨.complete, ending?_eq_complete_iff.mpr ⟨hrest.trans hnil, fun hstrict => ?_⟩, rfl⟩
      rw [h.options] at hstrict
      have hdepth := h.depth
      rw [Scanner.depth, Scanner.depth, hclosed hstrict] at hdepth
      exact List.length_eq_zero_iff.mp hdepth
  | unbalanced construct offset =>
      rw [hstep] at hending
      cases hending
      rcases step_eq_unbalanced hstep with ⟨rfl, hnil, hlast, hstrict⟩ | ⟨c, cs, hcs, hlexeme, rfl⟩
      · have hopen : b.openBlocks ≠ [] := by
          intro hnone
          have hempty := isEmpty_openBlocks_of_depth h.depth
          rw [hnone, List.isEmpty_nil, eq_comm, List.isEmpty_iff] at hempty
          rw [hempty] at hlast
          cases hlast
        refine ⟨.unbalanced .block (b.openBlocks.getLast hopen), ?_, rfl⟩
        simp [Scanner.step, hrest, hnil, List.getLast?_eq_some_getLast hopen, h.options, hstrict,
          Step.ending?]
      · have hspace : isSpace c = false := by
          rw [← Bool.not_eq_true]
          intro hspace
          rw [step_of_isSpace hs hcs hspace] at hstep
          cases hstep
        have hword := h.word c (by rw [hcs]; rfl) hspace
        have hsame : b.lexeme c cs = .error construct := by
          rw [lexeme_eq] at hlexeme ⊢
          rw [atTerminator_congr h.options hrest h.terminator h.depth hword, h.options,
            h.terminator, Lexeme.hidden?_congr_previous fun _ _ => hword]
          split
          · rename_i here
            rw [if_pos here] at hlexeme
            cases hlexeme
          rename_i apart
          rw [if_neg apart] at hlexeme
          cases hhidden : Lexeme.hidden? s.options s.terminator s.previous c cs with
          | none =>
              rw [hhidden] at hlexeme
              cases hlexeme
          | some found =>
              rw [hhidden] at hlexeme
              exact hlexeme
        refine ⟨.unbalanced construct b.offset, ?_, rfl⟩
        simp [Scanner.step, hrest, hcs, hsame, Step.ending?]

end Abreast

end Scanner

end SqlBatch
