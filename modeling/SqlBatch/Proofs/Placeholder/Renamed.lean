import SqlBatch.Proofs.Placeholder.Positions
import SqlBatch.Proofs.Script.Facing
import SqlBatch.Proofs.Script.Uncommented

/-!
# Named placeholders renamed

To the scanner the name of a placeholder is a word like any other: no dot stands before it, so it is
a keyword when it reads like one. A name that is no keyword of a block, and no word that the
terminator in effect may begin at or go through, is code and nothing else. Under any such name the
statements of a script are cut at the same places.
-/

namespace SqlBatch

open Text

namespace Placeholders

/-! ### Names in a script -/

def isName (cs : List Char) : Bool := cs.head?.any isNameStart && cs.all isWord

/-- The name of the placeholder whose colon a piece of code is, given the character before the piece
and the text behind it. -/
def nameAt? (previous : Option Char) (e : Event) (following : List Char) : Option (List Char) :=
  match e.kind, standing? previous (e.text ++ following) with
  | .code, some (.named name) => some name
  | _, _ => none

/-- A named placeholder, and the terminator in effect where it stands. -/
structure Mention where
  name : List Char
  terminator : List Char
  deriving DecidableEq, Repr

/-- The named placeholders in the code of a list of events, given what stands before the events and
the text behind them. -/
def mentionsIn (following : List Char) : Option Char → List Char → List Event → List Mention
  | _, _, [] => []
  | previous, terminator, e :: es =>
    ((nameAt? previous e (Event.concat es ++ following)).map (⟨·, terminator⟩)).toList ++
      mentionsIn following e.text.getLast? (e.delimiter?.getD terminator) es

def mentions (options : SplitOptions) (script : List Char) : List Mention :=
  let found := scan options script
  mentionsIn found.final.rest none options.terminator.toList found.events

/-- A name and another one in its place, behind the colon of a placeholder that is renamed. -/
def changeAt? (naming : List Char → Option (List Char)) (previous : Option Char) (e : Event)
    (following : List Char) : Option (List Char × List Char) :=
  (nameAt? previous e following).bind fun old => (naming old).map (old, ·)

/-- A text whose first name is changed, if there is a change. -/
def respelled (change : Option (List Char × List Char)) (text : List Char) : List Char :=
  match change with
  | some (old, new) => new ++ text.drop old.length
  | none => text

/-- The text of a list of events with other names for some placeholders, and the text behind them.
The first event may start with a name that is changed. -/
def renamedIn (naming : List Char → Option (List Char)) (following : List Char) :
    Option (List Char × List Char) → Option Char → List Event → List Char
  | _, _, [] => following
  | change, previous, e :: es =>
    respelled change e.text ++
      renamedIn naming following (changeAt? naming previous e (Event.concat es ++ following))
        e.text.getLast? es

/-- A script with other names for the named placeholders in its code, as far as there are any. -/
def rename (options : SplitOptions) (naming : List Char → Option (List Char))
    (script : List Char) : List Char :=
  let found := scan options script
  renamedIn naming found.final.rest none none found.events

/-- Whether a name is a word that splits nothing: no keyword of the blocks, if there are blocks, and
no word with which the terminator begins or that stands behind a colon in it. -/
def inert (options : SplitOptions) (terminator name : List Char) : Bool :=
  !(options.blocks && isKeyword name ["BEGIN", "CASE", "END"]) &&
    !namedIn name (':' :: terminator)

/-- Whether the other name for a placeholder is a name, and neither of the two splits anything. -/
def Mention.Fits (options : SplitOptions) (naming : List Char → Option (List Char)) (m : Mention) :
    Prop :=
  ∀ new ∈ naming m.name, isName new = true ∧ inert options m.terminator m.name = true ∧
    inert options m.terminator new = true

instance (options : SplitOptions) (naming : List Char → Option (List Char)) (m : Mention) :
    Decidable (m.Fits options naming) := by
  unfold Mention.Fits
  infer_instance

private theorem standing?_eq_named {previous : Option Char} {cs name : List Char}
    (h : standing? previous cs = some (.named name)) :
    ∃ rest, cs = ':' :: rest ∧ rest.head?.any isNameStart = true ∧
      rest.takeWhile isWord = name := by
  unfold standing? at h
  split at h
  · cases h
  · split at h <;> cases h
  · rename_i rest
    split at h
    · rename_i hstarts
      rw [Bool.and_eq_true] at hstarts
      cases h
      exact ⟨rest, rfl, hstarts.1, rfl⟩
    · cases h
  · cases h

theorem respelled_self (old new : List Char) : respelled (some (old, new)) old = new := by
  rw [respelled, List.drop_length, List.append_nil]

theorem all_isWord_of_isName {name : List Char} (h : isName name = true) :
    name.all isWord = true := by
  rw [isName, Bool.and_eq_true] at h
  exact h.2

theorem namedIn_of_inert {options : SplitOptions} {terminator name : List Char}
    (h : inert options terminator name = true) :
    namedIn name terminator = false ∧ terminator.takeWhile isWord ≠ name := by
  rw [inert, Bool.and_eq_true, Bool.not_eq_true', Bool.not_eq_true'] at h
  refine ⟨?_, @takeWhile_ne_of_namedIn name [] terminator h.2⟩
  rw [namedIn, Bool.or_eq_false_iff] at h
  exact h.2.2

end Placeholders

namespace Text

private theorem takeWhile_name {name following : List Char} (hname : name.all isWord = true)
    (hfollowing : following.head?.any isWord = false) :
    (name ++ following).takeWhile isWord = name := by
  rw [takeWhile_append_of_head? hfollowing]
  exact List.takeWhile_eq_self_iff.mpr (List.all_eq_true.mp hname)

theorem any_isBlank_name {name : List Char} (hname : name.all isWord = true)
    (following : List Char) :
    ((name ++ following).takeWhile (!isSpace ·)).any isBlank =
      (following.takeWhile (!isSpace ·)).any isBlank := by
  rw [List.all_eq_true] at hname
  have hspace : ∀ c ∈ name, (!isSpace c) = true := fun c hc => by
    rw [not_isSpace_of_isWord (hname c hc), Bool.not_false]
  have hblank : name.any isBlank = false :=
    List.any_eq_false.mpr fun c hc => by simp [not_isBlank_of_isWord (hname c hc)]
  rw [List.takeWhile_append_of_pos hspace, List.any_append, hblank, Bool.false_or]

end Text

/-- Two events that make no difference to where statements end. -/
structure Event.Like (e f : Event) : Prop where
  kind : f.kind = e.kind
  isCode : f.isCode = e.isCode
  text : f.text = e.text ∨ e.isCode = true

namespace Scanner

open Placeholders

variable {s s' t x : Scanner} {e : Event} {es : List Event}

/-! ### Colons and names -/

theorem colon_of_nameAt? (hstep : s.step = .event e s') {name : List Char}
    (h : nameAt? s.previous e s'.rest = some name) :
    e.kind = .code ∧ e.text = [':'] ∧ s'.rest.head?.any isNameStart = true ∧ s'.word = name := by
  unfold nameAt? at h
  split at h
  · rename_i hkind hstanding
    cases h
    obtain ⟨c, cs, hrest, hlexed, htext, -, -⟩ := step_eq_event hstep
    rw [← htext] at hstanding
    obtain ⟨following, hcolon, hstarts, hname⟩ := standing?_eq_named hstanding
    obtain ⟨rfl, rfl⟩ := List.cons.inj (hrest.symm.trans hcolon)
    have hlength : e.text.length = 1 := by
      rw [hkind] at hlexed
      generalize e.text.length = n at hlexed
      cases hlexed with
      | dollar apart first => cases first
      | word apart first => cases first
      | spaces apart first => cases first
      | other => rfl
    have hparts : e.text ++ s'.rest = [':'] ++ cs := htext.symm.trans hrest
    obtain ⟨htext, rfl⟩ := List.append_inj hparts hlength
    exact ⟨hkind, htext, hstarts, hname⟩
  · cases h

theorem step_of_colon (hapart : t.atTerminator = false) {cs : List Char}
    (hrest : t.rest = ':' :: cs) :
    t.step = .event ⟨.code, t.offset, [':']⟩ (t.advance ⟨.code, t.offset, [':']⟩) := by
  have happend : t.rest = ':' :: ([] ++ cs) := hrest
  apply step_of_lexeme_append happend
  rw [lexeme_eq, hapart, if_neg Bool.false_ne_true,
    Lexeme.hidden?_eq_none_of_not_isOpener (by decide)]
  rfl

/-- A scanner at a name that splits nothing, in a statement with code. -/
structure AtName (s : Scanner) (name : List Char) : Prop where
  starts : s.rest.head?.any isNameStart = true
  word : s.word = name
  hasCode : s.hasCode = true
  inert : inert s.options s.terminator name = true

namespace AtName

variable {name : List Char}

theorem exists_cons (h : AtName s name) : ∃ c cs, name = c :: cs ∧ isWord c = true := by
  have hstarts := h.starts
  rw [← h.word, Scanner.word]
  cases hrest : s.rest with
  | nil =>
      rw [hrest] at hstarts
      cases hstarts
  | cons c cs =>
      rw [hrest] at hstarts
      have hc : isWord c = true := isWord_of_isNameStart hstarts
      exact ⟨c, _, List.takeWhile_cons_of_pos hc, hc⟩

theorem ne_nil (h : AtName s name) : name ≠ [] := by
  obtain ⟨c, cs, rfl, -⟩ := h.exists_cons
  exact List.cons_ne_nil c cs

theorem all_isWord (h : AtName s name) : name.all isWord = true := by
  rw [← h.word]
  exact List.all_takeWhile

theorem rest_eq (h : AtName s name) : s.rest = name ++ s.afterWord := by
  rw [← h.word]
  exact rest_eq_word_append s

theorem not_atTerminator (h : AtName s name)
    (hs : SplitOptions.isTerminator s.terminator = true) : s.atTerminator = false := by
  rw [← Bool.not_eq_true]
  intro hat
  obtain ⟨-, post, hpost, hvisible, -⟩ := atTerminator_iff.mp hat
  apply (namedIn_of_inert h.inert).2
  rw [← Lexeme.takeWhile_of_apart (SplitOptions.ne_nil_of_isTerminator hs) hvisible.2, ← hpost]
  exact h.word

theorem wordLexeme_eq (h : AtName s name) : s.wordLexeme = (.code, name.length) := by
  have hundirected : s.directive? s.word s.afterWord = none := by
    cases hdirective : s.directive? s.word s.afterWord with
    | none => rfl
    | some found =>
        have hcode := (directive?_eq_some hdirective).2.1
        rw [h.hasCode] at hcode
        cases hcode
  have hinert := h.inert
  rw [Placeholders.inert, Bool.and_eq_true, Bool.not_eq_true'] at hinert
  rw [Scanner.wordLexeme_eq, hundirected, Option.map_none, Option.getD_none, keywordLexeme, h.word]
  cases hblocks : s.options.blocks with
  | false => simp
  | true =>
      have hplain : isKeyword name ["BEGIN"] = false ∧ isKeyword name ["CASE"] = false ∧
          isKeyword name ["END"] = false := by
        simpa [hblocks, isKeyword] using hinert.1
      rw [hplain.1, hplain.2.1, hplain.2.2]
      simp

theorem step (h : AtName s name) (hs : SplitOptions.isTerminator s.terminator = true) :
    s.step = .event ⟨.code, s.offset, name⟩ (s.advance ⟨.code, s.offset, name⟩) := by
  have hrest := h.rest_eq
  have hapart := h.not_atTerminator hs
  have hlexeme := h.wordLexeme_eq
  obtain ⟨c, cs, rfl, hword⟩ := h.exists_cons
  apply step_of_lexeme_append hrest
  rw [lexeme_eq, hapart, if_neg Bool.false_ne_true,
    Lexeme.hidden?_eq_none_of_not_isOpener (Lexeme.not_isOpener_of_isWord hword), Option.getD_none,
    visibleLexeme, if_pos hword, hlexeme]
  rfl

theorem isWord_of_advance (h : AtName s name) (start : Nat) :
    (s.advance ⟨.code, start, name⟩).previous.any isWord = true := by
  rw [previous_advance_of_ne_nil h.ne_nil, List.getLast?_eq_some_getLast h.ne_nil]
  exact List.all_eq_true.mp h.all_isWord _ (List.getLast_mem h.ne_nil)

theorem isCode (h : AtName s name) (start : Nat) : Event.isCode ⟨.code, start, name⟩ = true := by
  obtain ⟨c, cs, rfl, hword⟩ := h.exists_cons
  simp [Event.isCode, not_isBlank_of_isWord hword]

theorem like (hold : AtName s name) {new : List Char} (hnew : AtName t new) (i j : Nat) :
    Event.Like ⟨.code, i, name⟩ ⟨.code, j, new⟩ :=
  ⟨rfl, (hnew.isCode j).trans (hold.isCode i).symm, .inr (hold.isCode i)⟩

end AtName

theorem Beside.step_of_colon (h : Beside s t)
    (hs : SplitOptions.isTerminator s.terminator = true) (hstep : s.step = .event e s')
    (hkind : e.kind = .code) (htext : e.text = [':'])
    (hfacing : Facing s.terminator s.rest t.rest) :
    t.step = .event { e with start := t.offset } (t.advance e) := by
  obtain ⟨kind, start, text⟩ := e
  obtain ⟨rfl, rfl⟩ : kind = .code ∧ text = [':'] := ⟨hkind, htext⟩
  obtain ⟨c, cs, hrest, hlexed, happend, -, -⟩ := step_eq_event hstep
  have hcolon : s.rest = ':' :: s'.rest := happend
  obtain ⟨following, ht⟩ := List.head?_eq_some_iff.mp
    (hfacing.head?_eq.trans (congrArg List.head? hcolon))
  have hopener : t.commentOpenerLength = s.commentOpenerLength := by
    simp [commentOpenerLength, hcolon, ht, List.isPrefixOf]
  have hapart : s.atTerminator = false := by
    rw [← Bool.not_eq_true, ← hlexed.kind_eq_terminator_iff]
    intro hkind
    cases hkind
  exact Scanner.step_of_colon ((h.atTerminator_eq hs hfacing hopener).trans hapart) ht

private theorem Beside.of_names (h : Beside s t) {old new : List Char} (hold : AtName s old)
    (hnew : AtName t new) (i j : Nat) :
    Beside (s.advance ⟨.code, i, old⟩) (t.advance ⟨.code, j, new⟩) := by
  have hs := hold.isWord_of_advance i
  have ht := hnew.isWord_of_advance j
  have hdot {a : Scanner} (ha : a.previous.any isWord = true) : a.previous ≠ some '.' := by
    intro hdot
    rw [hdot] at ha
    cases ha
  refine ⟨h.options, h.terminator, h.depth, ?_, ht.trans hs.symm,
    iff_of_false (hdot ht) (hdot hs), ?_⟩
  · simp only [Scanner.advance, hold.hasCode, hnew.hasCode, Bool.true_or]
  · rw [atLineStart_of_isWord ht, atLineStart_of_isWord hs]

/-! ### What a step leaves of the renamed script -/

/-- A scanner where the first name of a change stands. -/
def Admits (s : Scanner) (change : Option (List Char × List Char)) : Prop :=
  ∀ old new, change = some (old, new) →
    AtName s old ∧ isName new = true ∧ Placeholders.inert s.options s.terminator new = true

theorem admits_none (s : Scanner) : Admits s none := nofun

variable {naming : List Char → Option (List Char)}

theorem renamedIn_cons (hs : s.terminator ≠ []) (hstep : s.step = .event e s')
    (hwalk : Walk s' es x) (change : Option (List Char × List Char)) :
    renamedIn naming x.rest change s.previous (e :: es) =
      respelled change e.text ++
        renamedIn naming x.rest (changeAt? naming s.previous e s'.rest) s'.previous es := by
  rw [renamedIn, ← hwalk.rest_eq, ← previous_of_step hs hstep]

theorem options_of_step (hstep : s.step = .event e s') : s'.options = s.options := by
  rw [advance_of_step hstep]
  rfl

theorem changeAt?_eq_some {change : List Char × List Char}
    (h : changeAt? naming s.previous e s'.rest = some change) :
    nameAt? s.previous e s'.rest = some change.1 ∧ naming change.1 = some change.2 := by
  obtain ⟨old, hold, hnew⟩ := Option.bind_eq_some_iff.mp h
  obtain ⟨new, hnaming, rfl⟩ := Option.map_eq_some_iff.mp hnew
  exact ⟨hold, hnaming⟩

private theorem admits_of_step (hstep : s.step = .event e s')
    (hfits : ∀ name ∈ nameAt? s.previous e s'.rest,
      Mention.Fits s.options naming ⟨name, s.terminator⟩) :
    Admits s' (changeAt? naming s.previous e s'.rest) := by
  intro old new hchange
  obtain ⟨hname, hnaming⟩ := changeAt?_eq_some hchange
  obtain ⟨hkind, htext, hstarts, hword⟩ := colon_of_nameAt? hstep hname
  obtain ⟨hnew, hinert, hinert'⟩ := hfits old hname new hnaming
  have hterminator := terminator_eq_of_not_isCut hstep (by rw [Event.isCut, hkind])
  have hcode : s'.hasCode = true := by
    rw [advance_of_step hstep, Scanner.advance]
    simp only [hkind, Event.isCode, htext]
    simp [show isBlank ':' = false from by decide]
  have hoptions := options_of_step hstep
  refine ⟨⟨hstarts, hword, hcode, ?_⟩, hnew, ?_⟩
  · rwa [hoptions, hterminator]
  · rwa [hoptions, hterminator]

theorem fits_of_step (hs : s.terminator ≠ []) (hstep : s.step = .event e s') (hwalk : Walk s' es x)
    (hfits : ∀ m ∈ mentionsIn x.rest s.previous s.terminator (e :: es),
      m.Fits s.options naming) :
    Admits s' (changeAt? naming s.previous e s'.rest) ∧
      ∀ m ∈ mentionsIn x.rest s'.previous s'.terminator es, m.Fits s'.options naming := by
  rw [mentionsIn, ← hwalk.rest_eq, ← previous_of_step hs hstep, ← terminator_eq_of_step hstep,
    List.forall_mem_append] at hfits
  rw [options_of_step hstep]
  refine ⟨admits_of_step hstep fun name hname => hfits.1 _ ?_, hfits.2⟩
  simp [Option.mem_def.mp hname]

private theorem head?_afterWord (s : Scanner) : s.afterWord.head?.any isWord = false := by
  rw [afterWord, word, drop_length_takeWhile]
  have hhead := List.head?_dropWhile_not isWord s.rest
  cases hdrop : (s.rest.dropWhile isWord).head? with
  | none => rfl
  | some c =>
      rw [hdrop] at hhead
      simpa using hhead

/-- What is left of the renamed script where a scanner of the script itself is: the same up to the
next colon behind which a name is changed, after the first name where that is changed. -/
def Respells (s : Scanner) (text : List Char) : Option (List Char × List Char) → Prop
  | none => Facing s.terminator s.rest text
  | some (_, new) =>
    ∃ following, text = new ++ following ∧ Facing s.terminator s.afterWord following

namespace Respells

variable {text old new : List Char}

theorem takeWhile_eq (h : Respells s text (some (old, new)))
    (hadmits : Admits s (some (old, new))) :
    text.takeWhile isWord = new := by
  obtain ⟨following, rfl, hfacing⟩ := h
  apply takeWhile_name (all_isWord_of_isName (hadmits old new rfl).2.1)
  rw [hfacing.head?_eq]
  exact head?_afterWord s

theorem colon (h : Respells s text (some (old, new))) (hadmits : Admits s (some (old, new))) :
    Facing s.terminator (':' :: s.rest) (':' :: text) := by
  have hword := h.takeWhile_eq hadmits
  obtain ⟨hold, hnew, hinert⟩ := hadmits old new rfl
  apply Facing.colon []
  · obtain ⟨following, rfl, hfacing⟩ := h
    rw [hold.rest_eq, any_isBlank_name hold.all_isWord,
      any_isBlank_name (all_isWord_of_isName hnew), hfacing.any_isBlank_eq]
  · intro _
    have hhere : s.rest.takeWhile isWord = old := hold.word
    rw [hhere, hword]
    exact ⟨(namedIn_of_inert hold.inert).1, (namedIn_of_inert hinert).1⟩

private theorem atName (h : Respells s text (some (old, new)))
    (hadmits : Admits s (some (old, new))) (hbeside : Beside s t) (hrest : t.rest = text) :
    AtName t new := by
  have hword := h.takeWhile_eq hadmits
  obtain ⟨hold, hnew, hinert⟩ := hadmits old new rfl
  refine ⟨?_, ?_, hbeside.hasCode.trans hold.hasCode, ?_⟩
  · rw [isName, Bool.and_eq_true] at hnew
    obtain ⟨following, rfl, -⟩ := h
    rw [hrest]
    cases new with
    | nil => cases hnew.1
    | cons c new => exact hnew.1
  · rw [word, hrest, hword]
  · rwa [hbeside.options, hbeside.terminator]

end Respells

theorem AtName.of_step (naming : List Char → Option (List Char)) {name : List Char}
    (h : AtName s name)
    (hs : SplitOptions.isTerminator s.terminator = true) (hstep : s.step = .event e s') :
    e = ⟨.code, s.offset, name⟩ ∧ s'.rest = s.afterWord ∧ s'.terminator = s.terminator ∧
      changeAt? naming s.previous e s'.rest = none := by
  obtain ⟨he, hs'⟩ := Step.event.inj (hstep.symm.trans (h.step hs))
  have hrest : s'.rest = s.afterWord := by
    rw [hs', Scanner.advance, h.rest_eq, List.drop_left]
  refine ⟨he, hrest, ?_, ?_⟩
  · rw [hs']
    rfl
  · cases hchange : changeAt? naming s.previous e s'.rest with
    | none => rfl
    | some change =>
        -- A colon is no name.
        obtain ⟨-, hcolon, -⟩ := colon_of_nameAt? hstep (changeAt?_eq_some hchange).1
        have hall := h.all_isWord
        rw [he] at hcolon
        rw [show name = [':'] from hcolon] at hall
        cases hall

/-- What is left of a script and what is left of the renamed one belong together all the way. -/
theorem Walk.respells (h : Walk s es x) (hs : SplitOptions.isTerminator s.terminator = true)
    {ending : Ending} (hending : x.step.ending? = some ending)
    (hfits : ∀ m ∈ mentionsIn x.rest s.previous s.terminator es, m.Fits s.options naming)
    {change : Option (List Char × List Char)} (hchange : Admits s change) :
    Respells s (renamedIn naming x.rest change s.previous es) change := by
  induction h generalizing change with
  | nil x =>
      cases change with
      | none => exact .refl x.rest
      | some change =>
          rw [(hchange change.1 change.2 rfl).1.step hs] at hending
          cases hending
  | @cons s s' x e es step walk ih =>
      have hne := SplitOptions.ne_nil_of_isTerminator hs
      obtain ⟨hnext, hmore⟩ := fits_of_step hne step walk hfits
      have htail := ih (isTerminator_of_step hs step) hending hmore hnext
      rw [renamedIn_cons hne step walk]
      cases change with
      | none =>
          cases hnow : changeAt? naming s.previous e s'.rest with
          | none =>
              rw [hnow] at htail
              exact facing_of_step step htail
          | some change =>
              rw [hnow] at htail hnext
              obtain ⟨hkind, htext, -, -⟩ := colon_of_nameAt? step (changeAt?_eq_some hnow).1
              have hfacing := htail.colon hnext
              rw [terminator_eq_of_not_isCut step (by rw [Event.isCut, hkind])] at hfacing
              rw [Respells, rest_of_step step, respelled, htext]
              exact hfacing
      | some change =>
          obtain ⟨old, new⟩ := change
          obtain ⟨rfl, hrest, hterminator, hnone⟩ :=
            (hchange old new rfl).1.of_step naming hs step
          rw [hnone] at htail ⊢
          rw [respelled_self]
          refine ⟨renamedIn naming x.rest none s'.previous es, rfl, ?_⟩
          rw [← hrest, ← hterminator]
          exact htail

/-- A scanner in the renamed script takes the same steps, but for the names that are changed. -/
theorem Walk.beside (h : Walk s es x) (hs : SplitOptions.isTerminator s.terminator = true)
    {ending : Ending} (hending : x.step.ending? = some ending)
    (hfits : ∀ m ∈ mentionsIn x.rest s.previous s.terminator es, m.Fits s.options naming)
    {change : Option (List Char × List Char)} (hchange : Admits s change) (hbeside : Beside s t)
    (hrest : t.rest = renamedIn naming x.rest change s.previous es) :
    ∃ fs y, Walk t fs y ∧ List.Forall₂ Event.Like es fs ∧ Beside x y ∧ y.rest = x.rest := by
  induction h generalizing change t with
  | nil x => exact ⟨[], t, .nil t, .nil, hbeside, hrest⟩
  | @cons s s' x e es step walk ih =>
      have hne := SplitOptions.ne_nil_of_isTerminator hs
      have hrespells := (Walk.cons step walk).respells hs hending hfits hchange
      rw [← hrest] at hrespells
      obtain ⟨hnext, hmore⟩ := fits_of_step hne step walk hfits
      have hs' := isTerminator_of_step hs step
      have htail := walk.respells hs' hending hmore hnext
      rw [renamedIn_cons hne step walk] at hrest
      cases change with
      | none =>
          have hstep : t.step = .event { e with start := t.offset } (t.advance e) := by
            cases hnow : changeAt? naming s.previous e s'.rest with
            | none =>
                rw [hnow] at htail hrest
                exact hbeside.step hs step htail hrest
            | some change =>
                obtain ⟨hkind, htext, -, -⟩ := colon_of_nameAt? step (changeAt?_eq_some hnow).1
                exact hbeside.step_of_colon hs step hkind htext hrespells
          have hadvance : Beside s' (t.advance e) := advance_of_step step ▸ hbeside.advance e
          have hrest' : (t.advance e).rest = renamedIn naming x.rest
              (changeAt? naming s.previous e s'.rest) s'.previous es := by
            rw [Scanner.advance, hrest, respelled, List.drop_left]
          obtain ⟨fs, y, hwalk, hlike, hafter⟩ := ih hs' hending hmore hnext hadvance hrest'
          exact ⟨_, y, .cons hstep hwalk, .cons ⟨rfl, rfl, .inl rfl⟩ hlike, hafter⟩
      | some change =>
          obtain ⟨old, new⟩ := change
          have hold := (hchange old new rfl).1
          have hnew := hrespells.atName hchange hbeside rfl
          obtain ⟨rfl, -, -, hnone⟩ := hold.of_step naming hs step
          rw [respelled_self, hnone] at hrest
          have hadvance : Beside s' (t.advance ⟨.code, t.offset, new⟩) :=
            advance_of_step step ▸ hbeside.of_names hold hnew s.offset t.offset
          have hrest' : (t.advance ⟨.code, t.offset, new⟩).rest =
              renamedIn naming x.rest none s'.previous es := by
            rw [Scanner.advance, hrest, List.drop_left]
          obtain ⟨fs, y, hwalk, hlike, hafter⟩ :=
            ih hs' hending hmore (admits_none s') hadvance hrest'
          exact ⟨_, y, .cons (hnew.step (hbeside.terminator ▸ hs)) hwalk,
            .cons (hold.like hnew s.offset t.offset) hlike, hafter⟩

theorem isKeyword_of_name (hstep : s.step = .event e s') {name : List Char}
    (hname : nameAt? s.previous e s'.rest = some name) {f : Event}
    (hnext : s'.step = .event f t) (hblock : f.opensBlock = true ∨ f.closesBlock = true) :
    isKeyword name ["BEGIN", "CASE", "END"] = true := by
  obtain ⟨-, -, -, rfl⟩ := colon_of_nameAt? hstep hname
  obtain ⟨c, cs, hrest, hlexed, -⟩ := step_eq_event hnext
  obtain ⟨kind, start, text⟩ := f
  cases kind with
  | blockBegin depth =>
      dsimp only at hlexed
      generalize text.length = n at hlexed
      cases hlexed with
      | blockBegin apart first undirected enabled unqualified opens =>
          rcases opens with hcase | ⟨hbegin, -⟩
          · simp_all [isKeyword]
          · simp_all [isKeyword]
  | blockEnd depth =>
      dsimp only at hlexed
      generalize text.length = n at hlexed
      cases hlexed with
      | blockEnd apart first undirected enabled unqualified keyword inside closes =>
          simp_all [isKeyword]
  | _ => rcases hblock with hopens | hcloses <;> contradiction

end Scanner

namespace Script

open Placeholders Scanner

variable {options : SplitOptions}

theorem map_terminator_close (pending pending' : List Char) (hasCode : Bool)
    (terminator : Option (List Char)) :
    (close options pending' hasCode terminator).map (·.terminator) =
      (close options pending hasCode terminator).map (·.terminator) := by
  unfold close
  split <;> rfl

theorem map_terminator_collect {es fs : List Event} (h : List.Forall₂ Event.Like es fs)
    {pending pending' : List Char} {hasCode : Bool}
    (hpending : hasCode = true ∨ pending' = pending) :
    (collect options pending' hasCode fs).map (·.terminator) =
      (collect options pending hasCode es).map (·.terminator) := by
  induction h generalizing pending pending' hasCode with
  | nil =>
      rcases hpending with rfl | rfl
      · exact map_terminator_close pending pending' true none
      · rfl
  | @cons e f es fs hlike hmore ih =>
      obtain ⟨kind, start, text⟩ := e
      obtain ⟨kind', start', text'⟩ := f
      obtain ⟨hkind, hcode, htext⟩ := hlike
      obtain rfl : kind' = kind := hkind
      cases kind' with
      | terminator =>
          obtain rfl : text' = text := htext.resolve_right nofun
          simp only [collect, List.map_append]
          rw [map_terminator_close pending pending' hasCode, ih (.inr rfl)]
      | delimiterChange delimiter => exact ih (.inr rfl)
      | code | comment | literal | blockBegin | blockEnd =>
          rw [collect_cons_of_not_isCut rfl, collect_cons_of_not_isCut rfl, hcode]
          apply ih
          rcases hpending with rfl | rfl
          · exact .inl rfl
          · rcases htext with hsame | htrue
            · dsimp only at hsame
              exact .inr (by rw [hsame]; rfl)
            · exact .inl (by rw [htrue, Bool.or_true])

/-- **A named placeholder and the blocks.** Behind the colon of a placeholder an edge of a block
stands only where the name is BEGIN, CASE or END, in any case of its letters: the scanner takes no
word for a name because of the colon before it. Other names may be changed as one likes. A script
whose placeholders are given other names has as many statements, each ended by the same terminator,
or leaves the same construct open, if neither the old names nor the new ones are BEGIN, CASE or END,
or a word with which the terminator in effect begins or that stands behind a colon in it. -/
theorem splitStatements_rename (hvalid : options.Valid) (script : String) :
    (∀ before colon e after name,
      (scan options script.toList).events = before ++ colon :: e :: after →
      nameAt? (Event.concat before).getLast? colon
        (Event.concat (e :: after) ++ (scan options script.toList).final.rest) = some name →
      e.opensBlock = true ∨ e.closesBlock = true →
      isKeyword name ["BEGIN", "CASE", "END"] = true) ∧
    ∀ naming : List Char → Option (List Char),
      (∀ m ∈ mentions options script.toList, m.Fits options naming) →
      ((splitStatements options (String.ofList (rename options naming script.toList))).mapError
          SplitError.construct?).map (List.map (·.terminator)) =
        ((splitStatements options script).mapError SplitError.construct?).map
          (List.map (·.terminator)) := by
  have hne := SplitOptions.terminator_ne_empty hvalid.1
  have hwalk := scan_walk options script.toList
  have hstops := scan_stops hne script.toList
  constructor
  · intro before colon e after name hevents hname hblock
    rw [hevents] at hwalk
    obtain ⟨s, hbefore, hafter⟩ := hwalk.split
    cases hafter with
    | cons hcolon hmore =>
        have hprevious : s.previous = (Event.concat before).getLast? := by
          rw [previous, hbefore.before_of_start, List.head?_reverse]
        rw [← hmore.rest_eq, ← hprevious] at hname
        cases hmore with
        | cons hnext _ => exact isKeyword_of_name hcolon hname hnext hblock
  · intro naming hfits
    have hbeside : Beside (.start options script.toList)
        (.start options (rename options naming script.toList)) :=
      ⟨rfl, rfl, rfl, rfl, rfl, Iff.rfl, rfl⟩
    obtain ⟨fs, y, hrenamed, hlike, hlast, hrest⟩ :=
      hwalk.beside hvalid.1 hstops hfits (admits_none _) hbeside rfl
    obtain ⟨ending, hending, hconstruct⟩ :=
      hlast.abreast.ending? (hwalk.isTerminator hvalid.1) hrest hstops
    rw [mapError_splitStatements hvalid, mapError_splitStatements hvalid, String.toList_ofList,
      scan_eq_of_walk hne hrenamed hending, hconstruct]
    cases (scan options script.toList).ending.construct? with
    | some construct => rfl
    | none => exact congrArg Except.ok (map_terminator_collect hlike (.inr rfl))

/-- A placeholder of two statements, with its name in a string and in a cast, which stay. -/
theorem splitStatements_rename_total :
    let script := "SELECT :a, ':a', x::a; UPDATE t SET b = :a"
    let naming : List Char → Option (List Char) :=
      fun name => if name = ['a'] then some "total".toList else none
    ({} : SplitOptions).Valid ∧ (∀ m ∈ mentions {} script.toList, m.Fits {} naming) ∧
    String.ofList (rename {} naming script.toList) =
      "SELECT :total, ':a', x::a; UPDATE t SET b = :total" ∧
    ((splitStatements {} (String.ofList (rename {} naming script.toList))).mapError
        SplitError.construct?).map (List.map (·.terminator)) =
      ((splitStatements {} script).mapError SplitError.construct?).map
        (List.map (·.terminator)) := by
  intro script naming
  have hvalid : ({} : SplitOptions).Valid := by decide
  have hfits : ∀ m ∈ mentions {} script.toList, m.Fits {} naming := by decide +kernel
  exact ⟨hvalid, hfits, by decide +kernel, (splitStatements_rename hvalid script).2 naming hfits⟩

/-- A placeholder with the name of a keyword opens a block, and one with the name of the terminator
ends a statement. -/
theorem splitStatements_rename_keyword :
    let naming (old new : String) : List Char → Option (List Char) :=
      fun name => if name = old.toList then some new.toList else none
    (let found := scan {} "SELECT :begin FROM t; SELECT 2".toList
      ∃ before colon e after, found.events = before ++ colon :: e :: after ∧
        nameAt? (Event.concat before).getLast? colon
          (Event.concat (e :: after) ++ found.final.rest) = some "begin".toList ∧
        e.opensBlock = true) ∧
    rename {} (naming "begin" "start") "SELECT :begin FROM t; SELECT 2".toList =
      "SELECT :start FROM t; SELECT 2".toList ∧
    split {} "SELECT :begin FROM t; SELECT 2" = .error (.unbalanced .block 8 1) ∧
    split {} "SELECT :start FROM t; SELECT 2" = .ok ["SELECT :start FROM t", "SELECT 2"] ∧
    rename { terminator := "GO" } (naming "x" "GO") "SELECT :x FROM t".toList =
      "SELECT :GO FROM t".toList ∧
    split { terminator := "GO" } "SELECT :x FROM t" = .ok ["SELECT :x FROM t"] ∧
    split { terminator := "GO" } "SELECT :GO FROM t" = .ok ["SELECT :", "FROM t"] := by
  refine ⟨⟨(scan {} "SELECT :".toList).events.dropLast, ⟨.code, 7, [':']⟩,
    ⟨.blockBegin 1, 8, "begin".toList⟩,
    (scan {} "SELECT :begin FROM t; SELECT 2".toList).events.drop 4, ?_⟩, ?_⟩
  all_goals decide +kernel

end Script

end SqlBatch
