import SqlBatch.Script.Scanner
import SqlBatch.Proofs.Script.Extent

/-!
# What a step of a scan can be

A scanner looks at the text before it in one long chain of cases. Here each way through the chain
has a name, with the conditions under which it is taken, and everything else that is said of steps
goes by these names.

Every lexeme covers at least one character as long as the terminator is not empty, and never more
than is left.
-/

namespace SqlBatch

open Text

def LiteralStyle.quote : LiteralStyle → Char
  | singleQuoted => '\''
  | doubleQuoted => '"'
  | backtick => '\x60'
  | dollar => '$'

def LiteralStyle.construct : LiteralStyle → Construct
  | singleQuoted => .singleQuoted
  | doubleQuoted => .doubleQuoted
  | backtick => .backtick
  | dollar => .dollarQuoted

def LiteralStyle.escapes (options : SplitOptions) : LiteralStyle → Bool
  | singleQuoted => options.backslashEscapes
  | doubleQuoted | backtick | dollar => false

namespace Scanner

def word (s : Scanner) : List Char := s.rest.takeWhile isWord

def afterWord (s : Scanner) : List Char := s.rest.drop s.word.length

/-- What stands before the first character `c` and the characters `cs` after it, how many characters
belong to it, and why. -/
inductive Lexed (s : Scanner) (c : Char) (cs : List Char) : EventKind → Nat → Prop
  | terminator (here : s.atTerminator = true) : Lexed s c cs .terminator s.terminator.length
  | lineComment (apart : s.atTerminator = false) (first : c = '-') (second : cs.head? = some '-')
      (enabled : s.options.lineComments = true) :
      Lexed s c cs (.comment .line) (Lexeme.lineLength (c :: cs))
  | blockComment (apart : s.atTerminator = false) (first : c = '/') (second : cs.head? = some '*')
      (enabled : s.options.blockComments = true) {n : Nat}
      (closed : Lexeme.blockCommentLength? s.options.nestedBlockComments 0 cs.tail = some n) :
      Lexed s c cs (.comment .block) (2 + n)
  | quoted (apart : s.atTerminator = false) {style : LiteralStyle} (first : c = style.quote)
      (plain : style ≠ .dollar)
      (enabled : style = .backtick → s.options.backtickIdentifiers = true) {n : Nat}
      (closed : Lexeme.quotedLength? style.quote (style.escapes s.options) cs = some n) :
      Lexed s c cs (.literal style) (1 + n)
  | dollarQuoted (apart : s.atTerminator = false) (first : c = '$')
      (enabled : s.options.dollarQuotes = true) {m n : Nat}
      (marker : Lexeme.dollarMarkerLength? s.previous cs = some m)
      (other : (c :: cs).take m ≠ s.terminator)
      (closed : Lexeme.dollarQuotedLength? ((c :: cs).take m) ((c :: cs).drop m) = some n) :
      Lexed s c cs (.literal .dollar) (0 + n)
  | dollar (apart : s.atTerminator = false) (first : c = '$')
      (enabled : s.options.dollarQuotes = true)
      (plain : ∀ m, Lexeme.dollarMarkerLength? s.previous cs = some m →
        (c :: cs).take m = s.terminator) : Lexed s c cs .code 1
  | directive (apart : s.atTerminator = false) (first : isWord c = true) {delimiter : List Char}
      {n : Nat} (named : s.directive? s.word s.afterWord = some (delimiter, n)) :
      Lexed s c cs (.delimiterChange delimiter) (s.word.length + n)
  | blockBegin (apart : s.atTerminator = false) (first : isWord c = true)
      (undirected : s.directive? s.word s.afterWord = none) (enabled : s.options.blocks = true)
      (unqualified : s.previous ≠ some '.')
      (opens : isKeyword s.word ["CASE"] = true ∨ isKeyword s.word ["BEGIN"] = true ∧
        Lexeme.beginOpensBlock s.terminator s.word s.afterWord = true) :
      Lexed s c cs (.blockBegin (s.depth + 1)) s.word.length
  | blockEnd (apart : s.atTerminator = false) (first : isWord c = true)
      (undirected : s.directive? s.word s.afterWord = none) (enabled : s.options.blocks = true)
      (unqualified : s.previous ≠ some '.') (keyword : isKeyword s.word ["END"] = true)
      (inside : s.openBlocks ≠ []) {n : Nat}
      (closes : Lexeme.endClosesBlock? s.afterWord = some n) :
      Lexed s c cs (.blockEnd (s.depth - 1)) (s.word.length + n)
  | word (apart : s.atTerminator = false) (first : isWord c = true)
      (plain : s.wordLexeme = (.code, s.word.length)) : Lexed s c cs .code s.word.length
  | spaces (apart : s.atTerminator = false) (first : isSpace c = true) :
      Lexed s c cs .code ((c :: cs).takeWhile isSpace).length
  | other (apart : s.atTerminator = false) (notWord : isWord c = false)
      (notSpace : isSpace c = false) : Lexed s c cs .code 1

/-- What opens before the first character `c` and the characters `cs` after it, and is not closed in
them. -/
inductive Unclosed (s : Scanner) (c : Char) (cs : List Char) : Construct → Prop
  | blockComment (first : c = '/') (second : cs.head? = some '*')
      (unclosed : Lexeme.blockCommentLength? s.options.nestedBlockComments 0 cs.tail = none) :
      Unclosed s c cs .blockComment
  | quoted {style : LiteralStyle} (first : c = style.quote) (plain : style ≠ .dollar)
      (unclosed : Lexeme.quotedLength? style.quote (style.escapes s.options) cs = none) :
      Unclosed s c cs style.construct
  | dollarQuoted (first : c = '$') {m : Nat}
      (marker : Lexeme.dollarMarkerLength? s.previous cs = some m)
      (unclosed : Lexeme.dollarQuotedLength? ((c :: cs).take m) ((c :: cs).drop m) = none) :
      Unclosed s c cs .dollarQuoted

theorem closedBy_eq_ok {construct : Construct} {kind kind' : EventKind} {opener n : Nat}
    {found : Option Nat} (h : closedBy construct kind opener found = .ok (kind', n)) :
    kind' = kind ∧ ∃ m, found = some m ∧ n = opener + m := by
  cases found with
  | none => cases h
  | some m =>
      cases h
      exact ⟨rfl, m, rfl, rfl⟩

theorem lexed_of_wordLexeme {s : Scanner} {c : Char} {cs : List Char} {kind : EventKind} {n : Nat}
    (apart : s.atTerminator = false) (first : isWord c = true) (h : s.wordLexeme = (kind, n)) :
    Lexed s c cs kind n := by
  have plain : (kind, n) = (.code, s.word.length) → Lexed s c cs kind n := by
    rintro heq
    obtain ⟨rfl, rfl⟩ := Prod.mk.inj heq
    exact .word apart first h
  unfold wordLexeme at h
  dsimp only at h
  rw [← word, ← afterWord] at h
  split at h
  · rename_i named
    cases h
    exact .directive apart first named
  · rename_i undirected
    split at h
    · exact plain h.symm
    · rename_i hoff
      simp only [Bool.or_eq_true, Bool.not_eq_true', decide_eq_true_eq, not_or,
        Bool.not_eq_false] at hoff
      obtain ⟨enabled, unqualified⟩ := hoff
      split at h
      · rename_i hbegin
        cases h
        exact .blockBegin apart first undirected enabled unqualified
          (.inr (by simpa using hbegin))
      · split at h
        · rename_i hcase
          cases h
          exact .blockBegin apart first undirected enabled unqualified (.inl hcase)
        · split at h
          · rename_i hend
            simp only [Bool.and_eq_true, Bool.not_eq_true', List.isEmpty_eq_false_iff] at hend
            split at h
            · rename_i closes
              cases h
              exact .blockEnd apart first undirected enabled unqualified hend.1 hend.2 closes
            · exact plain h.symm
          · exact plain h.symm

/-- What a scanner finds at a place is a lexeme, or something that is never closed. -/
def Told (s : Scanner) (c : Char) (cs : List Char) : Except Construct (EventKind × Nat) → Prop
  | .ok (kind, n) => Lexed s c cs kind n
  | .error construct => Unclosed s c cs construct

theorem told_closedBy {s : Scanner} {c : Char} {cs : List Char} {construct : Construct}
    {kind : EventKind} {opener : Nat} {found : Option Nat}
    (closed : ∀ {n}, found = some n → Lexed s c cs kind (opener + n))
    (unclosed : found = none → Unclosed s c cs construct) :
    Told s c cs (closedBy construct kind opener found) := by
  cases found with
  | none => exact unclosed rfl
  | some n => exact closed rfl

theorem told_quoted {s : Scanner} {c : Char} {cs : List Char} {style : LiteralStyle}
    (apart : s.atTerminator = false) (first : c = style.quote) (plain : style ≠ .dollar)
    (enabled : style = .backtick → s.options.backtickIdentifiers = true) :
    Told s c cs (closedBy style.construct (.literal style) 1
      (Lexeme.quotedLength? style.quote (style.escapes s.options) cs)) :=
  told_closedBy (.quoted apart first plain enabled) (.quoted first plain)

theorem told_lexeme (s : Scanner) (c : Char) (cs : List Char) : Told s c cs (s.lexeme c cs) := by
  unfold lexeme
  split
  · rename_i here
    exact .terminator here
  rename_i apart
  rw [Bool.not_eq_true] at apart
  split
  · rename_i hline
    simp only [Bool.and_eq_true, decide_eq_true_eq] at hline
    exact .lineComment apart hline.1.1 hline.1.2 hline.2
  split
  · rename_i hblock
    simp only [Bool.and_eq_true, decide_eq_true_eq] at hblock
    exact told_closedBy (.blockComment apart hblock.1.1 hblock.1.2 hblock.2)
      (.blockComment hblock.1.1 hblock.1.2)
  split
  · rename_i hquote
    exact @told_quoted s c cs .singleQuoted apart hquote (by decide) nofun
  split
  · rename_i hquote
    exact @told_quoted s c cs .doubleQuoted apart hquote (by decide) nofun
  split
  · rename_i hquote
    simp only [Bool.and_eq_true, decide_eq_true_eq] at hquote
    exact @told_quoted s c cs .backtick apart hquote.1 (by decide) fun _ => hquote.2
  split
  · rename_i hdollar
    simp only [Bool.and_eq_true, decide_eq_true_eq] at hdollar
    split
    · rename_i hnone
      exact .dollar apart hdollar.1 hdollar.2 (by simp [hnone])
    · rename_i m marker
      dsimp only
      split
      · rename_i heq
        refine .dollar apart hdollar.1 hdollar.2 fun k hk => ?_
        rw [marker] at hk
        exact Option.some.inj hk ▸ heq
      · rename_i other
        exact told_closedBy (.dollarQuoted apart hdollar.1 hdollar.2 marker other)
          (.dollarQuoted hdollar.1 marker)
  split
  · rename_i first
    exact lexed_of_wordLexeme apart first rfl
  rename_i notWord
  split
  · rename_i first
    exact .spaces apart first
  · rename_i notSpace
    exact .other apart (by simpa using notWord) (by simpa using notSpace)

/-- Each lexeme is one of those named. -/
theorem lexed_of_lexeme {s : Scanner} {c : Char} {cs : List Char} {kind : EventKind} {n : Nat}
    (h : s.lexeme c cs = .ok (kind, n)) : Lexed s c cs kind n := by
  have htold := told_lexeme s c cs
  rwa [h] at htold

theorem unclosed_of_lexeme {s : Scanner} {c : Char} {cs : List Char} {construct : Construct}
    (h : s.lexeme c cs = .error construct) : Unclosed s c cs construct := by
  have htold := told_lexeme s c cs
  rwa [h] at htold

/-! ### How far lexemes reach -/

theorem rest_of_atTerminator {s : Scanner} (h : s.atTerminator = true) :
    s.openBlocks = [] ∧ ∃ following, s.rest = s.terminator ++ following := by
  simp only [atTerminator, Bool.and_eq_true, List.isEmpty_iff] at h
  refine ⟨h.1.1, ?_⟩
  have hat := h.1.2
  unfold Lexeme.terminatorAt at hat
  split at hat
  · cases hat
  · rename_i following hafter
    exact ⟨following, after?_eq_some_iff.mp hafter⟩

theorem rest_eq_word_append (s : Scanner) : s.rest = s.word ++ s.afterWord := by
  rw [afterWord, word, drop_length_takeWhile, List.takeWhile_append_dropWhile]

theorem word_ne_nil {s : Scanner} {c : Char} {cs : List Char} (hrest : s.rest = c :: cs)
    (first : isWord c = true) : s.word ≠ [] := by
  rw [word, hrest, List.takeWhile_cons_of_pos first]
  exact List.cons_ne_nil _ _

theorem directive?_eq_some {s : Scanner} {word following delimiter : List Char} {n : Nat}
    (h : s.directive? word following = some (delimiter, n)) :
    s.openBlocks = [] ∧ s.hasCode = false ∧ s.atLineStart = true ∧
      Lexeme.directive? following = some (delimiter, n) := by
  unfold directive? at h
  split at h
  · cases h
  · split at h
    · rename_i hplace
      simp only [Bool.and_eq_true, List.isEmpty_iff, Bool.not_eq_true'] at hplace
      exact ⟨hplace.1.1.2, hplace.1.2, hplace.2, h⟩
    · cases h

namespace Lexed

variable {s : Scanner} {c : Char} {cs : List Char} {kind : EventKind} {n : Nat}

theorem length_pos (h : Lexed s c cs kind n) (hrest : s.rest = c :: cs)
    (hterminator : kind = .terminator → s.terminator ≠ []) : 0 < n := by
  cases h with
  | terminator here => exact List.length_pos_iff.mpr (hterminator rfl)
  | lineComment apart first second enabled =>
      subst first
      simp [Lexeme.lineLength]
  | blockComment apart first second enabled closed => omega
  | quoted apart first plain enabled closed => omega
  | dollarQuoted apart first enabled marker other closed =>
      obtain ⟨-, tag, rest, -, -, rfl⟩ := Lexeme.dollarMarkerLength?_eq_some marker
      obtain ⟨body, rest, -, rfl⟩ := Lexeme.dollarQuotedLength?_eq_some closed
      simp only [List.length_take, List.length_cons]
      omega
  | dollar apart first enabled plain => exact Nat.one_pos
  | directive apart first named =>
      have := List.length_pos_iff.mpr (word_ne_nil hrest first)
      omega
  | blockBegin apart first undirected enabled unqualified opens =>
      exact List.length_pos_iff.mpr (word_ne_nil hrest first)
  | blockEnd apart first undirected enabled unqualified keyword inside closes =>
      have := List.length_pos_iff.mpr (word_ne_nil hrest first)
      omega
  | word apart first plain => exact List.length_pos_iff.mpr (word_ne_nil hrest first)
  | spaces apart first => simp [first]
  | other apart notWord notSpace => exact Nat.one_pos

theorem length_le (h : Lexed s c cs kind n) (hrest : s.rest = c :: cs) : n ≤ s.rest.length := by
  have hword : s.rest.length = s.word.length + s.afterWord.length := by
    rw [← List.length_append, ← rest_eq_word_append]
  cases h with
  | terminator here =>
      obtain ⟨-, following, hfollowing⟩ := rest_of_atTerminator here
      rw [hfollowing, List.length_append]
      omega
  | lineComment apart first second enabled => exact hrest ▸ Lexeme.lineLength_le _
  | blockComment apart first second enabled closed =>
      obtain ⟨tail, rfl⟩ := List.head?_eq_some_iff.mp second
      obtain ⟨body, rest, hbody, rfl⟩ := Lexeme.blockCommentLength?_eq_some closed
      have := congrArg List.length hbody
      simp only [List.tail_cons, List.length_append, List.length_cons] at this
      rw [hrest]
      simp only [List.length_cons]
      omega
  | quoted apart first plain enabled closed =>
      obtain ⟨body, rest, rfl, rfl⟩ := Lexeme.quotedLength?_eq_some closed
      rw [hrest]
      simp only [List.length_append, List.length_cons]
      omega
  | dollarQuoted apart first enabled marker other closed =>
      obtain ⟨body, rest, hbody, rfl⟩ := Lexeme.dollarQuotedLength?_eq_some closed
      have := congrArg List.length hbody
      rw [hrest]
      simp only [List.length_append, List.length_take, List.length_drop, List.length_cons] at *
      omega
  | dollar apart first enabled plain => simp [hrest]
  | directive apart first named =>
      have := (Lexeme.directive?_eq_some (directive?_eq_some named).2.2.2).1
      omega
  | blockBegin apart first undirected enabled unqualified opens => omega
  | blockEnd apart first undirected enabled unqualified keyword inside closes =>
      have := Lexeme.endClosesBlock?_le closes
      omega
  | word apart first plain => omega
  | spaces apart first => exact hrest ▸ length_takeWhile_le _ _
  | other apart notWord notSpace => simp [hrest]

/-! ### What a kind tells of its lexeme -/

theorem length_of_terminator (h : Lexed s c cs .terminator n) : n = s.terminator.length := by
  cases h with
  | terminator here => rfl

theorem named_of_delimiterChange {delimiter : List Char}
    (h : Lexed s c cs (.delimiterChange delimiter) n) :
    ∃ m, s.directive? s.word s.afterWord = some (delimiter, m) := by
  cases h with
  | directive apart first named => exact ⟨_, named⟩

theorem inside_of_blockEnd {depth : Nat} (h : Lexed s c cs (.blockEnd depth) n) :
    s.openBlocks ≠ [] := by
  cases h with
  | blockEnd apart first undirected enabled unqualified keyword inside closes => exact inside

end Lexed

end Scanner

end SqlBatch
