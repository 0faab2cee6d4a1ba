import SqlBatch.Proofs.Script.Closed
import SqlBatch.Proofs.Script.Directive

/-!
# Blocks in blocks

The body of a procedure is a block of statements, and some of these are blocks again. However deep
they are nested, the semicolons in them end nothing: a scanner that comes to such a block passes it
and has as many open blocks behind it as before. So the whole block is one statement, and the script
behind its semicolon is split as it is by itself.
-/

namespace SqlBatch

open Text Scanner

namespace Script

/-! ### What may stand in a block -/

/-- A word that neither opens nor closes a block. -/
structure Word where
  letters : List Char
  nonempty : letters ≠ []
  word : letters.all isWord = true
  plain : isKeyword letters ["BEGIN", "CASE", "END"] = false

/-- A simple statement: words with a space between any two, the first of which does not begin a
transaction. -/
structure Phrase where
  first : Word
  others : List Word
  plain : isKeyword first.letters Lexeme.transactionWords = false

def Phrase.text (p : Phrase) : List Char :=
  p.first.letters ++ p.others.flatMap fun w => ' ' :: w.letters

/-- What stands in a block before a semicolon: a simple statement, one in a CASE, or a block with
items of its own. -/
inductive Item where
  | phrase (p : Phrase)
  | choice (p : Phrase)
  | block (items : List Item)

def inCase (text : List Char) : List Char :=
  "CASE".toList ++ ' ' :: (text ++ ' ' :: "END".toList)

def inBlock (text : List Char) : List Char := "BEGIN".toList ++ ' ' :: (text ++ "END".toList)

mutual

def Item.text : Item → List Char
  | .phrase p => p.text
  | .choice p => inCase p.text
  | .block items => inBlock (itemsText items)

def itemsText : List Item → List Char
  | [] => []
  | item :: items => item.text ++ ';' :: ' ' :: itemsText items

end

def blockText (items : List Item) : List Char := inBlock (itemsText items)

end Script

open Script

/-! ### Passing a text -/

/-- A scanner with the default options in front of a text, inside a number of blocks and not behind
a dot. -/
structure Scanner.At (text : List Char) (depth : Nat) (s : Scanner) : Prop where
  options : s.options = {}
  terminator : s.terminator = [';']
  rest : s.rest = text
  depth : s.depth = depth
  dot : s.previous ≠ some '.'

/-- Which depth is behind an event, by its kind. -/
inductive Leads : Nat → EventKind → Nat → Prop
  | code (depth : Nat) : Leads depth .code depth
  | opens (depth : Nat) : Leads depth (.blockBegin (depth + 1)) (depth + 1)
  | closes (depth : Nat) : Leads (depth + 1) (.blockEnd depth) depth

/-- In front of what comes after it, a text is passed without an end of a statement, from one depth
to another. -/
def Passes (text after : List Char) (depth depth' : Nat) : Prop :=
  ∀ s, At (text ++ after) depth s →
    ∃ es t, Walk s es t ∧ At after depth' t ∧ ∀ e ∈ es, e.isCut = false

theorem Passes.nil (after : List Char) (depth : Nat) : Passes [] after depth depth :=
  fun s hs => ⟨[], s, .nil s, hs, fun _ hmem => absurd hmem List.not_mem_nil⟩

theorem Passes.append {xs ys after : List Char} {depth depth' depth'' : Nat}
    (h : Passes xs (ys ++ after) depth depth') (h' : Passes ys after depth' depth'') :
    Passes (xs ++ ys) after depth depth'' := by
  intro s hs
  rw [List.append_assoc] at hs
  obtain ⟨es, t, hwalk, ht, hes⟩ := h s hs
  obtain ⟨fs, u, hwalk', hu, hfs⟩ := h' t ht
  exact ⟨es ++ fs, u, hwalk.append hwalk', hu, List.forall_mem_append.mpr ⟨hes, hfs⟩⟩

namespace Scanner.At

variable {s : Scanner} {text after : List Char} {depth depth' : Nat} {c : Char} {cs : List Char}

theorem lexeme_eq (hs : At (c :: cs) depth s) (hopener : Lexeme.isOpener c = false)
    (hsemicolon : 0 < depth ∨ c ≠ ';') : s.lexeme c cs = .ok (s.visibleLexeme c cs) := by
  have hapart : ¬s.atTerminator = true := by
    intro here
    obtain ⟨hblocks, following, hrest⟩ := rest_of_atTerminator here
    rw [hs.rest, hs.terminator] at hrest
    have hdepth : depth = 0 := by rw [← hs.depth, Scanner.depth, hblocks, List.length_nil]
    rcases hsemicolon with hpos | hne
    · omega
    · exact hne (List.cons.inj hrest).1
  rw [Scanner.lexeme_eq, if_neg hapart, Lexeme.hidden?_eq_none_of_not_isOpener hopener]
  rfl

theorem exists_step (hs : At (c :: (cs ++ after)) depth s) (hopener : Lexeme.isOpener c = false)
    (hsemicolon : 0 < depth ∨ c ≠ ';') (hdot : (c :: cs).getLast? ≠ some '.') {kind : EventKind}
    (hvisible : s.visibleLexeme c (cs ++ after) = (kind, cs.length + 1))
    (hleads : Leads depth kind depth') :
    ∃ e t, s.step = .event e t ∧ At after depth' t ∧ e.kind = kind ∧ e.isCut = false := by
  have hlexeme := hs.lexeme_eq hopener hsemicolon
  rw [hvisible] at hlexeme
  have hstep := step_of_lexeme_append hs.rest hlexeme
  refine ⟨_, _, hstep, ⟨hs.options, ?_, ?_, ?_, ?_⟩, rfl, ?_⟩
  · rw [advance]
    cases hleads <;> exact hs.terminator
  · rw [advance, hs.rest]
    exact List.drop_left
  · have hadd := depth_of_step hstep
    rw [hs.depth] at hadd
    cases hleads with
    | code | opens => exact hadd
    | closes => exact Nat.succ.inj hadd
  · rw [previous_advance_of_ne_nil (List.cons_ne_nil c cs)]
    exact hdot
  · cases hleads <;> rfl

theorem keywordLexeme_eq (hs : At text depth s) : s.keywordLexeme =
    if isKeyword s.word ["BEGIN"] && Lexeme.beginOpensBlock [';'] s.word s.afterWord then
      (.blockBegin (depth + 1), s.word.length)
    else if isKeyword s.word ["CASE"] then (.blockBegin (depth + 1), s.word.length)
    else if isKeyword s.word ["END"] && !s.openBlocks.isEmpty then
      (Lexeme.endClosesBlock? s.afterWord).elim (.code, s.word.length) fun length =>
        (.blockEnd (depth - 1), s.word.length + length)
    else (.code, s.word.length) := by
  have hon : (!s.options.blocks || decide (s.previous = some '.')) = false := by
    rw [hs.options, decide_eq_false hs.dot]
    rfl
  rw [keywordLexeme, hon, if_neg Bool.false_ne_true, hs.depth, hs.terminator]
  cases Lexeme.endClosesBlock? s.afterWord <;> rfl

theorem exists_step_of_word {word : List Char} (hs : At (word ++ after) depth s)
    (hne : word ≠ []) (hword : word.all isWord = true) (hafter : after.head?.any isWord = false)
    (hdirective : 0 < depth ∨ sameWord word "DELIMITER".toList = false) {kind : EventKind}
    (hkeyword : s.word = word → s.afterWord = after → s.keywordLexeme = (kind, word.length))
    (hleads : Leads depth kind depth') :
    ∃ e t, s.step = .event e t ∧ At after depth' t ∧ e.kind = kind ∧ e.isCut = false := by
  have hletter := List.all_eq_true.mp hword
  have hsame : s.word = word := by
    rw [Scanner.word, hs.rest, takeWhile_append_of_head? hafter]
    exact List.takeWhile_eq_self_iff.mpr hletter
  have hbehind : s.afterWord = after := by
    rw [afterWord, hsame, hs.rest, List.drop_left]
  -- Inside a block there is no directive, and outside one its keyword would stand here.
  have hundirected : s.directive? s.word s.afterWord = none := by
    rw [← Option.not_isSome_iff_eq_none, Option.isSome_iff_exists]
    rintro ⟨⟨delimiter, n⟩, hnamed⟩
    rcases hdirective with hpos | hother
    · have hblocks := (directive?_eq_some hnamed).1
      have hdepth : s.depth = 0 := List.length_eq_zero_iff.mpr hblocks
      rw [hs.depth] at hdepth
      omega
    · rw [directive?, hs.options, hsame] at hnamed
      simp only [hother, Bool.false_and, Bool.false_eq_true, if_false] at hnamed
      cases hnamed
  obtain ⟨c, cs, rfl⟩ := List.exists_cons_of_ne_nil hne
  have hc : isWord c = true := hletter c List.mem_cons_self
  apply exists_step hs (Lexeme.not_isOpener_of_isWord hc)
  · right
    rintro rfl
    cases hc
  · intro hlast
    have hdot := hletter '.' (List.mem_of_mem_getLast? hlast)
    cases hdot
  · rw [visibleLexeme, hc, if_pos rfl, wordLexeme_eq, hundirected]
    exact hkeyword hsame hbehind
  · exact hleads

end Scanner.At

/-! ### Words, spaces and semicolons -/

section

variable {after : List Char} {depth : Nat}

theorem passes_of_step {text : List Char} {depth' : Nat} {kind : EventKind}
    (h : ∀ s, At (text ++ after) depth s →
      ∃ e t, s.step = .event e t ∧ At after depth' t ∧ e.kind = kind ∧ e.isCut = false) :
    Passes text after depth depth' := by
  intro s hs
  obtain ⟨e, t, hstep, ht, -, hcut⟩ := h s hs
  exact ⟨[e], t, .cons hstep (.nil t), ht, List.forall_mem_singleton.mpr hcut⟩

theorem head?_isWord_append {word : List Char} (hne : word ≠ []) (hword : word.all isWord = true) :
    (word ++ after).head?.any isWord = true := by
  obtain ⟨c, cs, rfl⟩ := List.exists_cons_of_ne_nil hne
  exact List.all_eq_true.mp hword c List.mem_cons_self

theorem head?_isSpace_of_isWord {cs : List Char} (h : cs.head?.any isWord = true) :
    cs.head?.any isSpace = false := by
  cases cs with
  | nil => cases h
  | cons c cs =>
      rw [← Bool.not_eq_true]
      intro hspace
      have hnot : isWord c = false := not_isWord_of_isSpace hspace
      exact Bool.false_ne_true (hnot.symm.trans h)

private theorem passes_space (hafter : after.head?.any isWord = true) :
    Passes [' '] after depth depth := by
  apply passes_of_step
  intro s hs
  have hspace : isSpace ' ' = true := by decide
  have hnone : after.takeWhile isSpace = [] :=
    takeWhile_append_of_head? (head?_isSpace_of_isWord hafter) []
  apply At.exists_step hs (by decide) (.inr (by decide)) (by decide) _ (.code depth)
  rw [visibleLexeme, if_neg (by decide), if_pos hspace, List.takeWhile_cons_of_pos hspace]
  rw [List.nil_append, hnone]
  rfl

theorem Passes.cons_space {text : List Char} {depth' : Nat}
    (h : Passes text after depth depth') (hword : (text ++ after).head?.any isWord = true) :
    Passes (' ' :: text) after depth depth' :=
  (passes_space hword).append h

private theorem passes_semicolon (hdepth : 0 < depth) : Passes [';'] after depth depth := by
  apply passes_of_step
  intro s hs
  exact At.exists_step hs (by decide) (.inl hdepth) (by decide) rfl (.code depth)

theorem passes_word (w : Word) (hdepth : 0 < depth) (hafter : after.head?.any isWord = false) :
    Passes w.letters after depth depth := by
  apply passes_of_step
  intro s hs
  apply hs.exists_step_of_word w.nonempty w.word hafter (.inl hdepth) _ (.code depth)
  intro hsame _
  have hplain := w.plain
  simp only [isKeyword, List.any_cons, List.any_nil, Bool.or_false, Bool.or_eq_false_iff] at hplain
  obtain ⟨hbegin, hcase, hend⟩ := hplain
  rw [hs.keywordLexeme_eq, hsame]
  simp only [isKeyword, List.any_cons, List.any_nil, Bool.or_false, hbegin, hcase, hend,
    Bool.false_and, Bool.false_eq_true, if_false]

private theorem passes_case (hafter : after.head?.any isWord = false) :
    Passes "CASE".toList after depth (depth + 1) := by
  apply passes_of_step
  intro s hs
  apply hs.exists_step_of_word (by decide) (by decide) hafter (.inr (by decide)) _ (.opens depth)
  intro hsame _
  have hbegin : isKeyword "CASE".toList ["BEGIN"] = false := by decide
  have hcase : isKeyword "CASE".toList ["CASE"] = true := by decide
  simp only [hs.keywordLexeme_eq, hsame, hbegin, hcase, Bool.false_and, Bool.false_eq_true,
    if_false, if_true]

theorem passes_end (more : List Char) : Passes "END".toList (';' :: more) (depth + 1) depth := by
  apply passes_of_step
  intro s hs
  apply hs.exists_step_of_word (by decide) (by decide) rfl (.inr (by decide)) _ (.closes depth)
  intro hsame hbehind
  have hbegin : isKeyword "END".toList ["BEGIN"] = false := by decide
  have hcase : isKeyword "END".toList ["CASE"] = false := by decide
  have hend : isKeyword "END".toList ["END"] = true := by decide
  have hinside : s.openBlocks.isEmpty = false := by
    rw [List.isEmpty_eq_false_iff, ← List.length_pos_iff]
    have hdepth : s.openBlocks.length = depth + 1 := hs.depth
    omega
  have hcloses : Lexeme.endClosesBlock? (';' :: more) = some 0 := by
    rw [Lexeme.endClosesBlock?, Lexeme.nextWord_semicolon]
    rfl
  simp only [hs.keywordLexeme_eq, hsame, hbehind, hbegin, hcase, hend, hinside, hcloses,
    Bool.false_and, Bool.false_eq_true, Bool.not_false, Bool.true_and, if_false, if_true]
  rfl

/-- A text that begins with a word which does not begin a transaction. -/
structure Begins (cs : List Char) : Prop where
  word : cs.head?.any isWord = true
  plain : isKeyword (cs.takeWhile isWord) Lexeme.transactionWords = false

theorem Begins.append {word : List Char} (hne : word ≠ []) (hword : word.all isWord = true)
    (hplain : isKeyword word Lexeme.transactionWords = false)
    (hafter : after.head?.any isWord = false) : Begins (word ++ after) where
  word := head?_isWord_append hne hword
  plain := by
    rw [takeWhile_append_of_head? hafter,
      List.takeWhile_eq_self_iff.mpr (List.all_eq_true.mp hword)]
    exact hplain

theorem beginOpensBlock_of_begins (word : List Char) (hafter : Begins after) :
    Lexeme.beginOpensBlock [';'] word (' ' :: after) = true := by
  have hspace : isSpace ' ' = true := by decide
  have hstop := head?_isSpace_of_isWord hafter.word
  have hfirst := hafter.word
  have hplain := hafter.plain
  cases after with
  | nil => cases hfirst
  | cons c cs =>
      rw [List.head?_cons, Option.any_some] at hstop hfirst
      have hgap : (' ' :: c :: cs).takeWhile isSpace = [' '] := by
        rw [List.takeWhile_cons_of_pos hspace, List.takeWhile_cons_of_neg (by simp [hstop])]
      have hnext : Lexeme.nextWord (' ' :: c :: cs) = (c :: cs).takeWhile isWord := by
        rw [Lexeme.nextWord, List.dropWhile_cons_of_pos hspace,
          List.dropWhile_cons_of_neg (by simp [hstop])]
      have hapart (previous : Option Char) :
          Lexeme.terminatorAt [';'] previous (c :: cs) = false := by
        rw [← Bool.not_eq_true, Lexeme.terminatorAt_semicolon_iff]
        rintro rfl
        cases hfirst
      rw [Lexeme.beginOpensBlock, hgap, hnext, hplain]
      show (!(c :: cs).isEmpty && !Lexeme.terminatorAt [';'] _ (c :: cs) && !false) = true
      rw [hapart]
      rfl

/-- A BEGIN in front of what does not begin a transaction opens a block. -/
theorem exists_step_of_begin {s : Scanner} (hs : At ("BEGIN".toList ++ ' ' :: after) depth s)
    (hafter : Begins after) : ∃ e t, s.step = .event e t ∧ At (' ' :: after) (depth + 1) t ∧
      e.kind = .blockBegin (depth + 1) ∧ e.isCut = false := by
  apply hs.exists_step_of_word (by decide) (by decide) rfl (.inr (by decide)) _ (.opens depth)
  intro hsame hbehind
  have hbegin : isKeyword "BEGIN".toList ["BEGIN"] = true := by decide
  rw [hs.keywordLexeme_eq, hsame, hbehind, hbegin, beginOpensBlock_of_begins _ hafter,
    Bool.true_and, if_pos rfl]

/-! ### Phrases, items and blocks -/

theorem begins_phrase (p : Phrase) (hafter : after.head?.any isWord = false) :
    Begins (p.text ++ after) := by
  rw [Phrase.text, List.append_assoc]
  apply Begins.append p.first.nonempty p.first.word p.plain
  cases p.others with
  | nil => exact hafter
  | cons w ws => rfl

/-- Each word is passed with the space in front of it, for the scanner takes neither further. -/
theorem passes_words (ws : List Word) (hdepth : 0 < depth)
    (hafter : after.head?.any isWord = false) :
    Passes (ws.flatMap fun w => ' ' :: w.letters) after depth depth := by
  induction ws with
  | nil => exact .nil after depth
  | cons w ws ih =>
      have hnext : ((ws.flatMap fun w => ' ' :: w.letters) ++ after).head?.any isWord = false := by
        cases ws with
        | nil => exact hafter
        | cons w ws => rfl
      rw [List.flatMap_cons]
      refine .append (.cons_space (passes_word w hdepth hnext) ?_) ih
      exact head?_isWord_append w.nonempty w.word

theorem passes_phrase (p : Phrase) (hdepth : 0 < depth)
    (hafter : after.head?.any isWord = false) : Passes p.text after depth depth := by
  refine .append (passes_word p.first hdepth ?_) (passes_words p.others hdepth hafter)
  cases p.others with
  | nil => exact hafter
  | cons w ws => rfl

private theorem passes_choice (p : Phrase) (more : List Char) :
    Passes (inCase p.text) (';' :: more) depth depth := by
  have hphrase : Passes p.text (' ' :: "END".toList ++ ';' :: more) (depth + 1) (depth + 1) :=
    passes_phrase p (Nat.succ_pos depth) rfl
  have hend : Passes (' ' :: "END".toList) (';' :: more) (depth + 1) depth :=
    .cons_space (passes_end more) rfl
  have hword : (p.text ++ ' ' :: "END".toList ++ ';' :: more).head?.any isWord = true := by
    rw [List.append_assoc]
    exact (begins_phrase p rfl).word
  exact .append (passes_case rfl) (.cons_space (hphrase.append hend) hword)

private theorem inCase_append (text after : List Char) : inCase text ++ after =
    "CASE".toList ++ ' ' :: (text ++ ' ' :: ("END".toList ++ after)) := by
  show "CASE".toList ++ ' ' :: (text ++ ' ' :: "END".toList) ++ after = _
  rw [List.append_assoc, List.cons_append, List.append_assoc, List.cons_append]

theorem inBlock_append (text after : List Char) : inBlock text ++ after =
    "BEGIN".toList ++ ' ' :: (text ++ ("END".toList ++ after)) := by
  show "BEGIN".toList ++ ' ' :: (text ++ "END".toList) ++ after = _
  rw [List.append_assoc, List.cons_append, List.append_assoc]

private theorem begins_item (item : Item) (more : List Char) :
    Begins (item.text ++ ';' :: more) := by
  cases item with
  | phrase p => exact begins_phrase p rfl
  | choice p =>
      rw [Item.text, inCase_append]
      exact .append (by decide) (by decide) (by decide) rfl
  | block items =>
      rw [Item.text, inBlock_append]
      exact .append (by decide) (by decide) (by decide) rfl

theorem begins_items (items : List Item) (hafter : Begins after) :
    Begins (itemsText items ++ after) := by
  cases items with
  | nil => exact hafter
  | cons item items =>
      rw [itemsText, List.append_assoc]
      exact begins_item item _

theorem begins_end (more : List Char) : Begins ("END".toList ++ ';' :: more) :=
  .append (by decide) (by decide) (by decide) rfl

/-- A walk over a block, given that what is in it is passed. The first event is its opener, which is
what makes the block code. -/
theorem walk_block {items : List Item} {more : List Char} {s : Scanner}
    (hs : At (blockText items ++ ';' :: more) depth s)
    (h : Passes (itemsText items) ("END".toList ++ ';' :: more) (depth + 1) (depth + 1)) :
    ∃ e es t, Walk s (e :: es) t ∧ At (';' :: more) depth t ∧ e.kind = .blockBegin (depth + 1) ∧
      ∀ f ∈ e :: es, f.isCut = false := by
  have hbegins := begins_items items (begins_end more)
  have hbody : Passes (' ' :: itemsText items ++ "END".toList) (';' :: more) (depth + 1) depth :=
    .append (h.cons_space hbegins.word) (passes_end more)
  rw [blockText, inBlock_append] at hs
  obtain ⟨e, t, hstep, ht, hkind, hcut⟩ := exists_step_of_begin hs hbegins
  rw [← List.append_assoc, ← List.cons_append] at ht
  obtain ⟨es, u, hwalk, hu, hes⟩ := hbody t ht
  exact ⟨e, es, u, .cons hstep hwalk, hu, hkind, List.forall_mem_cons.mpr ⟨hcut, hes⟩⟩

-- The induction is on the items: a block is passed as its items are, one level further in.
mutual

private theorem passes_item (item : Item) {depth : Nat} (hdepth : 0 < depth) (more : List Char) :
    Passes item.text (';' :: more) depth depth := by
  cases item with
  | phrase p =>
      rw [Item.text]
      exact passes_phrase p hdepth rfl
  | choice p => exact passes_choice p more
  | block items =>
      intro s hs
      have hitems := passes_items items (Nat.succ_pos depth) (begins_end more)
      obtain ⟨e, es, t, hwalk, ht, -, hes⟩ := walk_block hs hitems
      exact ⟨e :: es, t, hwalk, ht, hes⟩

theorem passes_items (items : List Item) {after : List Char} {depth : Nat} (hdepth : 0 < depth)
    (hafter : Begins after) : Passes (itemsText items) after depth depth := by
  cases items with
  | nil => exact .nil after depth
  | cons item items =>
      have hrest := passes_items items hdepth hafter
      have hword := (begins_items items hafter).word
      rw [itemsText]
      exact .append (passes_item item hdepth _)
        (.append (passes_semicolon hdepth) (.cons_space hrest hword))

end

end

namespace Script

private theorem firm_blockText (items : List Item) : Firm (blockText items) := by
  have hbegin : Firm "BEGIN".toList := .of_all_isWord (by decide) (by decide)
  have hend : Firm "END".toList := .of_all_isWord (by decide) (by decide)
  exact hbegin.around (' ' :: itemsText items) hend

/-- A scan of a script that begins with a block comes to the semicolon behind it. -/
theorem walk_blockText (items : List Item) (following : List Char) :
    ∃ es t, Walk (start {} (blockText items ++ ';' :: '\n' :: following)) es t ∧
      At (';' :: '\n' :: following) 0 t ∧ (∀ e ∈ es, e.isCut = false) ∧
      es.any Event.isCode = true ∧ Event.concat es = blockText items := by
  have hs : At (blockText items ++ ';' :: '\n' :: following) 0
      (start {} (blockText items ++ ';' :: '\n' :: following)) :=
    ⟨rfl, rfl, rfl, rfl, nofun⟩
  have hitems : Passes (itemsText items) ("END".toList ++ ';' :: '\n' :: following) 1 1 :=
    passes_items items Nat.one_pos (begins_end _)
  obtain ⟨opener, es, t, hwalk, ht, hkind, hes⟩ := walk_block hs hitems
  refine ⟨opener :: es, t, hwalk, ht, hes, ?_, ?_⟩
  · rw [List.any_cons, Event.isCode, hkind]
    rfl
  · have hscript := hwalk.script_eq
    rw [ht.rest] at hscript
    exact (List.append_cancel_right hscript).symm

private theorem collect_blockText {items : List Item} {es : List Event} {e : Event}
    (hes : ∀ f ∈ es, f.isCut = false) (hcode : es.any Event.isCode = true)
    (hconcat : Event.concat es = blockText items) (he : e.kind = .terminator) (fs : List Event) :
    (collect {} [] false (es ++ e :: fs)).map (·.text) =
      String.ofList (blockText items) :: (collect {} [] false fs).map (·.text) := by
  have hblock : collect {} [] false (es ++ e :: fs) =
      collect {} (blockText items).reverse true (e :: fs) := by
    rw [collect_append_of_not_isCut hes, flatMap_kept rfl hes, hconcat, hcode, List.append_nil,
      Bool.or_true]
  rw [hblock, collect, he]
  dsimp only
  rw [List.map_append, text_close rfl rfl, if_pos rfl, List.reverse_reverse,
    (firm_blockText items).trim_eq]
  rfl

/-- **Blocks stay whole, however deep they are nested.** A block with a semicolon and a line feed
behind it is one statement, and what follows is split as it is by itself. An error in that is the
same one, further on. -/
theorem split_blockText (items : List Item) (following : String) :
    let block := String.ofList (blockText items)
    let before := block ++ ";\n"
    split {} (before ++ following) =
      match split {} following with
      | .ok texts => .ok (block :: texts)
      | .error e => .error (e.moved (byteLength before.toList) (before.toList.count '\n')) := by
  intro block before
  have hvalid : ({} : SplitOptions).Valid := by decide
  have hseparates : Lexeme.Separates ({} : SplitOptions).terminator.toList :=
    ⟨hvalid.1, by decide⟩
  have hbefore : before.toList = blockText items ++ [';', '\n'] := by
    rw [String.toList_append, String.toList_ofList]
    rfl
  have hwhole : (before ++ following).toList =
      blockText items ++ ';' :: '\n' :: following.toList := by
    rw [String.toList_append, hbefore, List.append_assoc]
    rfl
  have hlength : byteLength before.toList + byteLength following.toList =
      byteLength (blockText items ++ ';' :: '\n' :: following.toList) := by
    rw [← byteLength_append, ← String.toList_append, hwhole]
  obtain ⟨es, t, hwalk, ht, hes, hcode, hconcat⟩ := walk_blockText items following.toList
  obtain ⟨e, fs, hkind, -, hevents, hbehind, hending⟩ :=
    collect_of_walk_to_seam rfl hseparates hwalk ht.rest ht.terminator
      (List.length_eq_zero_iff.mp ht.depth) hlength
  have htexts := collect_blockText hes hcode hconcat hkind fs
  rw [hbehind, ← hevents, ← hwhole] at htexts
  rw [← hwhole] at hending
  have herror := Scan.error?_moved hending following.toList
  rw [← String.toList_append] at herror
  rw [split_eq hvalid, split_eq hvalid, htexts, herror]
  cases (scan {} following.toList).error? following.toList <;> rfl

/-- A block in a block, and a CASE in each. -/
example :
    let a : Phrase := ⟨⟨['a'], by decide, by decide, by decide⟩, [], by decide⟩
    let b : Phrase := ⟨a.first, [a.first], a.plain⟩
    blockText [.block [.phrase b, .choice a], .choice b] =
      "BEGIN BEGIN a a; CASE a END; END; CASE a a END; END".toList := by decide

end Script

end SqlBatch
