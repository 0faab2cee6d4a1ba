/-!
# Characters and text

Texts are lists of characters. Three classes of characters matter here: the word characters that
keywords and names are made of, the spaces of ASCII that separate the words of a statement, and the
blanks of Unicode that are trimmed from the ends of a statement. Offsets into a text count the bytes
of its UTF-8 form.
-/

namespace SqlBatch

namespace Text

/-- Letters, digits and the underscore, in ASCII. -/
def isWord (c : Char) : Bool := c.isAlphanum || c == '_'

/-- A letter of ASCII or an underscore: what a name may start with. -/
def isNameStart (c : Char) : Bool := c.isAlpha || c == '_'

/-- The five spaces of ASCII that separate words: space, tab, line feed, form feed and carriage
return. -/
def isSpace (c : Char) : Bool :=
  c == ' ' || c == '\t' || c == '\n' || c == '\x0c' || c == '\r'

/-- The six blanks of ASCII: the spaces and the vertical tab. -/
def isGap (c : Char) : Bool := isSpace c || c == '\x0b'

/-- The characters with the Unicode property White_Space. -/
def isBlank (c : Char) : Bool :=
  (0x09 ≤ c.val && c.val ≤ 0x0d) || c.val == 0x20 || c.val == 0x85 || c.val == 0xa0 ||
    c.val == 0x1680 || (0x2000 ≤ c.val && c.val ≤ 0x200a) || c.val == 0x2028 || c.val == 0x2029 ||
    c.val == 0x202f ||
    c.val == 0x205f || c.val == 0x3000

def trimStart (cs : List Char) : List Char := cs.dropWhile isBlank

def trimEnd (cs : List Char) : List Char := (cs.reverse.dropWhile isBlank).reverse

def trim (cs : List Char) : List Char := trimEnd (trimStart cs)

/-- The number of bytes that the text takes in UTF-8. -/
def byteLength : List Char → Nat
  | [] => 0
  | c :: cs => c.utf8Size + byteLength cs

/-- Equality up to the case of ASCII letters. -/
def sameWord (xs ys : List Char) : Bool := xs.map Char.toLower == ys.map Char.toLower

/-- Whether a word is one of the keywords, in any case. -/
def isKeyword (word : List Char) (keywords : List String) : Bool :=
  keywords.any fun k => sameWord word k.toList

/-- The text after a given beginning, if it begins so. -/
def after? : List Char → List Char → Option (List Char)
  | [], cs => some cs
  | _ :: _, [] => none
  | p :: ps, c :: cs => if p = c then after? ps cs else none

/-- The number of characters before the first place where a given text occurs. -/
def position? (pattern : List Char) : List Char → Option Nat
  | [] => if pattern.isEmpty then some 0 else none
  | c :: cs => if pattern.isPrefixOf (c :: cs) then some 0 else (position? pattern cs).map (· + 1)

def occursIn (pattern cs : List Char) : Bool := (position? pattern cs).isSome

/-! ### Small facts -/

theorem byteLength_nil : byteLength [] = 0 := rfl

theorem byteLength_cons (c : Char) (cs : List Char) :
    byteLength (c :: cs) = c.utf8Size + byteLength cs := rfl

theorem byteLength_append (xs ys : List Char) :
    byteLength (xs ++ ys) = byteLength xs + byteLength ys := by
  induction xs with
  | nil => simp [byteLength]
  | cons c cs ih => simp [byteLength, ih, Nat.add_assoc]

theorem length_le_byteLength (cs : List Char) : cs.length ≤ byteLength cs := by
  induction cs with
  | nil => simp [byteLength]
  | cons c cs ih =>
    have := c.utf8Size_pos
    simp only [byteLength, List.length_cons]
    omega

theorem after?_eq_some_iff {p cs rest : List Char} : after? p cs = some rest ↔ cs = p ++ rest := by
  induction p generalizing cs with
  | nil => simp [after?, eq_comm]
  | cons c ps ih =>
    cases cs with
    | nil => simp [after?]
    | cons d ds =>
      by_cases h : c = d
      · simp [after?, h, ih]
      · simp [after?, h, Ne.symm h]

theorem isBlank_of_isSpace {c : Char} (h : isSpace c = true) : isBlank c = true := by
  simp only [isSpace, Bool.or_eq_true, beq_iff_eq] at h
  rcases h with (((h | h) | h) | h) | h <;> subst h <;> decide

theorem not_isWord_of_isSpace {c : Char} (h : isSpace c = true) : isWord c = false := by
  simp only [isSpace, Bool.or_eq_true, beq_iff_eq] at h
  rcases h with (((h | h) | h) | h) | h <;> subst h <;> decide

end Text

end SqlBatch
