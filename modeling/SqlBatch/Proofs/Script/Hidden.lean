import SqlBatch.Proofs.Script.Walk

/-!
# Literals and comments are local

Whether a literal or a comment stands at a place, and how far it reaches, is told by the characters
from the place on up to its end, and for a dollar string by whether a word stands before it. Neither
the blocks around the place nor the code of the statement matter, and of the terminator in effect
only that no marker of a dollar string may be the same.

So a text that agrees with another up to a character at which nothing goes on hides the same pieces
as far as the two agree.
-/

namespace SqlBatch

open Text

namespace Text

/-! ### What goes on from a text -/

/-- A character at which no word, no opener of a literal or comment and no placeholder goes on. -/
def isMute (c : Char) : Bool :=
  !isWord c && !(['\'', '"', '\x60', '$', '-', '*', '?', ':'].contains c)

/-- A text that agrees with another up to some place, and from there on is over or goes on with a
mute character. -/
def Agrees (xs ys : List Char) : Prop :=
  ∃ common mute following, xs = common ++ mute ∧ ys = common ++ following ∧
    mute.head?.all isMute = true

theorem Agrees.head? {xs ys : List Char} (h : Agrees xs ys) {c : Char} (hhead : xs.head? = some c)
    (hc : isMute c = false) : ys.head? = some c := by
  obtain ⟨common, mute, following, rfl, rfl, hmute⟩ := h
  cases common with
  | nil =>
      rw [List.nil_append] at hhead
      simp [hhead, hc] at hmute
  | cons d common => exact hhead

theorem Agrees.append {xs ys : List Char} (h : Agrees xs ys) (cs : List Char) :
    Agrees (cs ++ xs) (cs ++ ys) := by
  obtain ⟨common, mute, following, rfl, rfl, hmute⟩ := h
  exact ⟨cs ++ common, mute, following, (List.append_assoc ..).symm, (List.append_assoc ..).symm,
    hmute⟩

theorem Agrees.of_isPrefix {xs ys : List Char} (h : xs <+: ys) : Agrees xs ys := by
  obtain ⟨following, rfl⟩ := h
  exact ⟨xs, [], following, (List.append_nil xs).symm, rfl, rfl⟩

theorem position?_self_append (pattern cs : List Char) :
    position? pattern (pattern ++ cs) = some 0 := by
  cases pattern with
  | nil => cases cs <;> rfl
  | cons c pattern => simp [position?]

theorem position?_append {pattern cs : List Char} {n : Nat} (h : position? pattern cs = some n)
    (following : List Char) :
    position? pattern (cs.take (n + pattern.length) ++ following) = some n := by
  induction cs generalizing n with
  | nil =>
      obtain ⟨body, rest, hnil, rfl⟩ := position?_eq_some h
      simp only [List.nil_eq, List.append_eq_nil_iff] at hnil
      obtain ⟨rfl, rfl, -⟩ := hnil
      exact position?_self_append [] following
  | cons c cs ih =>
      unfold position? at h
      split at h
      · rename_i hprefix
        obtain rfl := Option.some.inj h
        obtain ⟨rest, hrest⟩ := List.isPrefixOf_iff_prefix.mp hprefix
        rw [← hrest, Nat.zero_add, List.take_left]
        exact position?_self_append pattern following
      · rename_i hprefix
        obtain ⟨m, hm, rfl⟩ := Option.map_eq_some_iff.mp h
        obtain ⟨body, rest, hcs, hbody⟩ := position?_eq_some hm
        have htake : (c :: cs).take (m + 1 + pattern.length) =
            c :: cs.take (m + pattern.length) := by
          rw [Nat.add_right_comm, List.take_succ_cons]
        -- The text taken is too long for the pattern to stand at its start because of what follows.
        have hnot : ¬ pattern.isPrefixOf (c :: (cs.take (m + pattern.length) ++ following)) := by
          intro hlater
          have hlength : pattern.length ≤ (c :: cs.take (m + pattern.length)).length := by
            have := congrArg List.length hcs
            simp only [List.length_append] at this
            simp only [List.length_cons, List.length_take]
            omega
          have hwithin := List.prefix_of_prefix_length_le (List.isPrefixOf_iff_prefix.mp hlater)
            (List.prefix_append (c :: cs.take (m + pattern.length)) following) hlength
          refine hprefix (List.isPrefixOf_iff_prefix.mpr (hwithin.trans ?_))
          exact List.cons_prefix_cons.mpr ⟨rfl, List.take_prefix _ _⟩
        rw [htake, List.cons_append, position?, if_neg hnot, ih hm]
        rfl

end Text

/-- Whether an event of this kind hides its text: a literal or a comment. -/
def EventKind.hides : EventKind → Bool
  | .comment _ | .literal _ => true
  | .code | .blockBegin _ | .blockEnd _ | .terminator | .delimiterChange _ => false

namespace Lexeme

/-- The literal or comment that opens at a place with the first character `c` and the characters
`cs` after it, and how many characters belong to it, or the construct that is left open there. -/
def hidden? (options : SplitOptions) (terminator : List Char) (previous : Option Char) (c : Char)
    (cs : List Char) : Option (Except Construct (EventKind × Nat)) :=
  if c = '-' && cs.head? = some '-' && options.lineComments then
    some (.ok (.comment .line, lineLength (c :: cs)))
  else if c = '/' && cs.head? = some '*' && options.blockComments then
    some (Scanner.closedBy .blockComment (.comment .block) 2
      (blockCommentLength? options.nestedBlockComments 0 cs.tail))
  else if c = '\'' then
    some (Scanner.closedBy .singleQuoted (.literal .singleQuoted) 1
      (quotedLength? '\'' options.backslashEscapes cs))
  else if c = '"' then
    some (Scanner.closedBy .doubleQuoted (.literal .doubleQuoted) 1 (quotedLength? '"' false cs))
  else if c = '\x60' && options.backtickIdentifiers then
    some (Scanner.closedBy .backtick (.literal .backtick) 1 (quotedLength? '\x60' false cs))
  else if c = '$' && options.dollarQuotes then
    (dollarMarkerLength? previous cs).bind fun length =>
      if (c :: cs).take length = terminator then none
      else some (Scanner.closedBy .dollarQuoted (.literal .dollar) 0
        (dollarQuotedLength? ((c :: cs).take length) ((c :: cs).drop length)))
  else none

/-! ### How far literals and comments look -/

theorem lineLength_cons {c : Char} (hc : c ≠ '\n') (cs : List Char) :
    lineLength (c :: cs) = lineLength cs + 1 := by
  simp [lineLength, hc]

theorem lineLength_append_eq_iff {text cs : List Char} :
    lineLength (text ++ cs) = text.length ↔
      '\n' ∉ text ∧ (cs = [] ∨ cs.head? = some '\n') := by
  constructor
  · intro h
    have htake := take_length_takeWhile (· ≠ '\n') (text ++ cs)
    have hdrop := drop_length_takeWhile (· ≠ '\n') (text ++ cs)
    rw [lineLength] at h
    rw [h, List.take_left] at htake
    rw [h, List.drop_left] at hdrop
    constructor
    · intro hmem
      rw [htake] at hmem
      simpa using List.all_eq_true.mp List.all_takeWhile _ hmem
    · cases cs with
      | nil => exact .inl rfl
      | cons d cs =>
          have hd := List.head?_dropWhile_not (· ≠ '\n') (text ++ d :: cs)
          rw [← hdrop] at hd
          exact .inr (by simpa using hd)
  · rintro ⟨hmem, hcs⟩
    have hall : ∀ d ∈ text, (decide (d ≠ '\n')) = true := by
      intro d hd
      rw [decide_eq_true_eq]
      rintro rfl
      exact hmem hd
    have hnone : cs.takeWhile (· ≠ '\n') = [] := by
      rcases hcs with rfl | hcs
      · rfl
      · obtain ⟨rest, rfl⟩ := List.head?_eq_some_iff.mp hcs
        rfl
    rw [lineLength, List.takeWhile_append_of_pos hall, hnone, List.append_nil]

private theorem lineLength_append (cs : List Char) {following : List Char}
    (h : following = [] ∨ following.head? = some '\n') :
    lineLength (cs.take (lineLength cs) ++ following) = lineLength cs := by
  have hlength : (cs.take (lineLength cs)).length = lineLength cs :=
    List.length_take_of_le (lineLength_le cs)
  have hmem : '\n' ∉ cs.take (lineLength cs) := by
    rw [lineLength, take_length_takeWhile]
    intro hmem
    simpa using List.all_eq_true.mp List.all_takeWhile _ hmem
  exact (lineLength_append_eq_iff.mpr ⟨hmem, h⟩).trans hlength

theorem blockCommentLength?_append {nested : Bool} {depth : Nat} {cs : List Char} {n : Nat}
    (h : blockCommentLength? nested depth cs = some n) (following : List Char) :
    blockCommentLength? nested depth (cs.take n ++ following) = some n := by
  have hlong {depth : Nat} {cs : List Char} {m : Nat}
      (h : blockCommentLength? nested depth cs = some m) : ∃ k, m = k + 2 := by
    obtain ⟨body, -, -, rfl⟩ := blockCommentLength?_eq_some h
    exact ⟨body.length, rfl⟩
  fun_induction blockCommentLength? nested depth cs generalizing n with
  | case1 cs =>
      obtain rfl := Option.some.inj h
      rfl
  | case2 cs depth ih =>
      obtain ⟨m, hm, rfl⟩ := Option.map_eq_some_iff.mp h
      simp [blockCommentLength?, ih hm]
  | case3 depth cs hnested ih =>
      obtain ⟨m, hm, rfl⟩ := Option.map_eq_some_iff.mp h
      subst hnested
      simp [blockCommentLength?, ih hm]
  | case4 depth cs hnested ih =>
      obtain ⟨m, hm, rfl⟩ := Option.map_eq_some_iff.mp h
      obtain ⟨k, rfl⟩ := hlong hm
      have hrest := ih hm
      simp_all [blockCommentLength?]
  | case5 depth c cs hcloser hopener ih =>
      obtain ⟨m, hm, rfl⟩ := Option.map_eq_some_iff.mp h
      obtain ⟨k, rfl⟩ := hlong hm
      cases cs with
      | nil => cases hm
      | cons d cs =>
          have hrest := ih hm
          rw [List.take_succ_cons, List.cons_append] at hrest
          rw [List.take_succ_cons, List.take_succ_cons, List.cons_append, List.cons_append,
            blockCommentLength?, hrest]
          · rfl
          · exact fun _ hc hd => hcloser cs hc (by rw [(List.cons.inj hd).1])
          · exact fun _ hc hd => hopener cs hc (by rw [(List.cons.inj hd).1])
  | case6 => cases h

theorem quotedLength?_append {quote : Char} {backslash : Bool} (hquote : quote ≠ '\\')
    {cs following : List Char} {n : Nat} (h : quotedLength? quote backslash cs = some n)
    (hfollowing : following.head? ≠ some quote) :
    quotedLength? quote backslash (cs.take n ++ following) = some n := by
  have hclosed : quotedLength? quote backslash (quote :: following) = some 1 := by
    cases following with
    | nil => simp [quotedLength?]
    | cons d following =>
        have hd : d ≠ quote := by simpa using hfollowing
        simp [quotedLength?, hquote, hd]
  fun_induction quotedLength? quote backslash cs generalizing n with
  | case1 => cases h
  | case2 | case6 =>
      obtain rfl := Option.some.inj h
      exact hclosed
  | case3 => cases h
  | case4 c d cs hescape ih | case5 cs hescape ih =>
      obtain ⟨m, hm, rfl⟩ := Option.map_eq_some_iff.mp h
      simp [quotedLength?, ih hm, hescape]
  | case7 c d cs hescape hc ih =>
      obtain ⟨m, hm, rfl⟩ := Option.map_eq_some_iff.mp h
      obtain ⟨body, -, -, rfl⟩ := quotedLength?_eq_some hm
      have hrest := ih hm
      rw [List.take_succ_cons, List.cons_append] at hrest
      simp [quotedLength?, hescape, hc, hrest]

theorem head?_drop_of_quotedLength? {quote : Char} {backslash : Bool} {cs : List Char} {n : Nat}
    (h : quotedLength? quote backslash cs = some n) : (cs.drop n).head? ≠ some quote := by
  fun_induction quotedLength? quote backslash cs generalizing n with
  | case1 => cases h
  | case2 =>
      obtain rfl := Option.some.inj h
      simp
  | case3 => cases h
  | case4 c d cs hescape ih | case5 cs hescape ih =>
      obtain ⟨m, hm, rfl⟩ := Option.map_eq_some_iff.mp h
      exact ih hm
  | case6 d cs hd hescape =>
      obtain rfl := Option.some.inj h
      simpa using hd
  | case7 c d cs hescape hc ih =>
      obtain ⟨m, hm, rfl⟩ := Option.map_eq_some_iff.mp h
      exact ih hm

theorem take_marker (tag after : List Char) :
    ('$' :: (tag ++ '$' :: after)).take (tag.length + 2) = '$' :: (tag ++ ['$']) := by
  have hsplit : '$' :: (tag ++ '$' :: after) = ('$' :: (tag ++ ['$'])) ++ after := by simp
  rw [hsplit]
  exact List.take_left' (by simp)

theorem drop_marker (tag after : List Char) :
    ('$' :: (tag ++ '$' :: after)).drop (tag.length + 2) = after := by
  have hsplit : '$' :: (tag ++ '$' :: after) = ('$' :: (tag ++ ['$'])) ++ after := by simp
  rw [hsplit]
  exact List.drop_left' (by simp)

theorem dollarMarkerLength?_of_agrees {previous : Option Char} {xs ys : List Char}
    (hagrees : Agrees xs ys) {n : Nat} (h : dollarMarkerLength? previous xs = some n) :
    dollarMarkerLength? previous ys = some n ∧ ('$' :: xs).take n = ('$' :: ys).take n := by
  obtain ⟨common, mute, following, rfl, rfl, hmute⟩ := hagrees
  obtain ⟨hprevious, tag, rest, heq, hword, hstart, rfl⟩ := dollarMarkerLength?_eq_some_iff.mp h
  -- What ends the common part is mute, and neither a tag nor a dollar is.
  have hdollar : isMute '$' = false := by decide
  obtain ⟨after, rfl⟩ : ∃ after, common = tag ++ '$' :: after := by
    rcases List.append_eq_append_iff.mp heq with ⟨more, rfl, rfl⟩ | ⟨more, rfl, hmore⟩
    · exfalso
      cases more with
      | nil => simp [hdollar] at hmute
      | cons d more =>
          have hd : isWord d = true := by simp_all
          simp [isMute, hd] at hmute
    · cases more with
      | nil =>
          rw [List.nil_append] at hmore
          simp [← hmore, hdollar] at hmute
      | cons d more =>
          obtain ⟨rfl, -⟩ := List.cons.inj hmore
          exact ⟨more, rfl⟩
  refine ⟨dollarMarkerLength?_eq_some_iff.mpr
    ⟨hprevious, tag, after ++ following, by simp, hword, hstart, rfl⟩, ?_⟩
  rw [List.append_assoc, List.append_assoc, List.cons_append, List.cons_append, take_marker,
    take_marker]

/-! ### What hides stays hidden, and what does not hide does not -/

variable {options : SplitOptions} {terminator : List Char} {previous : Option Char} {c : Char}

/-- The characters at which a literal or a comment may open. -/
def isOpener (c : Char) : Bool := ['-', '/', '\'', '"', '\x60', '$'].contains c

theorem hidden?_eq_none_of_not_isOpener {cs : List Char} (hc : isOpener c = false) :
    hidden? options terminator previous c cs = none := by
  simp only [isOpener, List.contains_eq_mem, List.mem_cons, List.not_mem_nil, or_false,
    decide_eq_false_iff_not, not_or] at hc
  simp [hidden?, hc]

theorem not_isOpener_of_isWord {c : Char} (hc : isWord c = true) : isOpener c = false := by
  rw [← Bool.not_eq_true]
  intro hopener
  simp only [isOpener, List.contains_eq_mem, List.mem_cons, List.not_mem_nil, or_false,
    decide_eq_true_eq] at hopener
  rcases hopener with rfl | rfl | rfl | rfl | rfl | rfl <;> cases hc

theorem not_isOpener_of_isSpace {c : Char} (hc : isSpace c = true) : isOpener c = false := by
  simp only [isSpace, Bool.or_eq_true, beq_iff_eq] at hc
  rcases hc with (((rfl | rfl) | rfl) | rfl) | rfl <;> decide

theorem not_isOpener_of_isBlank {c : Char} (hc : isBlank c = true) : isOpener c = false := by
  rw [← Bool.not_eq_true]
  intro hopener
  simp only [isOpener, List.contains_eq_mem, List.mem_cons, List.not_mem_nil, or_false,
    decide_eq_true_eq] at hopener
  rcases hopener with rfl | rfl | rfl | rfl | rfl | rfl <;> cases hc

theorem hidden?_congr_previous {previous' : Option Char} {cs : List Char}
    (h : options.dollarQuotes = true → c = '$' → previous.any isWord = previous'.any isWord) :
    hidden? options terminator previous c cs = hidden? options terminator previous' c cs := by
  by_cases hdollar : (decide (c = '$') && options.dollarQuotes) = true
  · simp only [Bool.and_eq_true, decide_eq_true_eq] at hdollar
    have hmarker : dollarMarkerLength? previous cs = dollarMarkerLength? previous' cs := by
      simp only [dollarMarkerLength?, h hdollar.2 hdollar.1]
    simp only [hidden?, hmarker]
  · simp only [hidden?, if_neg hdollar]

/-- The literals and comments that may stand at a place, and how many characters belong to each. -/
inductive Hides (options : SplitOptions) (terminator : List Char) (previous : Option Char)
    (c : Char) (cs : List Char) : EventKind → Nat → Prop
  | lineComment (first : c = '-') (second : cs.head? = some '-')
      (enabled : options.lineComments = true) :
      Hides options terminator previous c cs (.comment .line) (lineLength (c :: cs))
  | blockComment (first : c = '/') (second : cs.head? = some '*')
      (enabled : options.blockComments = true) {n : Nat}
      (closed : blockCommentLength? options.nestedBlockComments 0 cs.tail = some n) :
      Hides options terminator previous c cs (.comment .block) (2 + n)
  | quoted {style : LiteralStyle} (first : c = style.quote) (plain : style ≠ .dollar)
      (enabled : style = .backtick → options.backtickIdentifiers = true) {n : Nat}
      (closed : quotedLength? style.quote (style.escapes options) cs = some n) :
      Hides options terminator previous c cs (.literal style) (1 + n)
  | dollarQuoted (first : c = '$') (enabled : options.dollarQuotes = true) {m n : Nat}
      (marker : dollarMarkerLength? previous cs = some m) (other : (c :: cs).take m ≠ terminator)
      (closed : dollarQuotedLength? ((c :: cs).take m) ((c :: cs).drop m) = some n) :
      Hides options terminator previous c cs (.literal .dollar) (0 + n)

theorem hides_of_hidden? {kind : EventKind} {cs : List Char} {n : Nat}
    (h : hidden? options terminator previous c cs = some (.ok (kind, n))) :
    Hides options terminator previous c cs kind n := by
  unfold hidden? at h
  split at h
  · rename_i hopener
    simp only [Bool.and_eq_true, decide_eq_true_eq] at hopener
    cases h
    exact .lineComment hopener.1.1 hopener.1.2 hopener.2
  split at h
  · rename_i hopener
    simp only [Bool.and_eq_true, decide_eq_true_eq] at hopener
    obtain ⟨rfl, m, hm, rfl⟩ := Scanner.closedBy_eq_ok (Option.some.inj h)
    exact .blockComment hopener.1.1 hopener.1.2 hopener.2 hm
  split at h
  · rename_i hopener
    obtain ⟨rfl, m, hm, rfl⟩ := Scanner.closedBy_eq_ok (Option.some.inj h)
    exact .quoted hopener (by decide) (by simp) hm
  split at h
  · rename_i hopener
    obtain ⟨rfl, m, hm, rfl⟩ := Scanner.closedBy_eq_ok (Option.some.inj h)
    exact .quoted hopener (by decide) (by simp) hm
  split at h
  · rename_i hopener
    simp only [Bool.and_eq_true, decide_eq_true_eq] at hopener
    obtain ⟨rfl, m, hm, rfl⟩ := Scanner.closedBy_eq_ok (Option.some.inj h)
    exact .quoted hopener.1 (by decide) (fun _ => hopener.2) hm
  split at h
  · rename_i hopener
    simp only [Bool.and_eq_true, decide_eq_true_eq] at hopener
    obtain ⟨m, hmarker, hfound⟩ := Option.bind_eq_some_iff.mp h
    split at hfound
    · cases hfound
    rename_i hother
    obtain ⟨rfl, k, hk, rfl⟩ := Scanner.closedBy_eq_ok (Option.some.inj hfound)
    exact .dollarQuoted hopener.1 hopener.2 hmarker hother hk
  · cases h

theorem Hides.hidden?_eq {kind : EventKind} {cs : List Char} {n : Nat}
    (h : Hides options terminator previous c cs kind n) :
    hidden? options terminator previous c cs = some (.ok (kind, n)) := by
  cases h with
  | lineComment first second enabled => simp [hidden?, first, second, enabled]
  | blockComment first second enabled closed =>
      simp [hidden?, first, second, enabled, closed, Scanner.closedBy]
  | @quoted style first plain enabled m closed =>
      cases style with
      | singleQuoted | doubleQuoted =>
          simp_all [hidden?, LiteralStyle.quote, LiteralStyle.escapes, Scanner.closedBy]
      | backtick =>
          simp_all [hidden?, LiteralStyle.quote, LiteralStyle.escapes, Scanner.closedBy]
      | dollar => exact absurd rfl plain
  | dollarQuoted first enabled marker other closed =>
      simp [hidden?, first, enabled, marker]
      simp_all [Scanner.closedBy]

/-- A literal or comment stays within the text, and all but line comments have a closer. After a
line comment the line is over, and after a quoted literal there is no other quote. -/
structure Bounded (kind : EventKind) (c : Char) (cs : List Char) (n : Nat) : Prop where
  hides : kind.hides = true
  pos : 0 < n
  le : n ≤ cs.length + 1
  closer : kind ≠ .comment .line → ∃ body d rest, c :: cs = body ++ d :: rest ∧
    n = body.length + 1 ∧ isWord d = false ∧ isBlank d = false
  line : kind = .comment .line → cs.drop (n - 1) = [] ∨ (cs.drop (n - 1)).head? = some '\n'
  quote : ∀ style, kind = .literal style → style ≠ .dollar →
    (cs.drop (n - 1)).head? ≠ some style.quote

private theorem Bounded.of_quotedLength? {style : LiteralStyle} {backslash : Bool} {cs : List Char}
    {n : Nat}
    (h : quotedLength? style.quote backslash cs = some n) :
    Bounded (.literal style) style.quote cs (1 + n) := by
  obtain ⟨body, rest, hcs, hn⟩ := quotedLength?_eq_some h
  have hlength := congrArg List.length hcs
  simp only [List.length_append, List.length_cons] at hlength
  refine ⟨rfl, by omega, by omega, fun _ => ?_, fun hkind => (by cases hkind), ?_⟩
  · refine ⟨style.quote :: body, style.quote, rest, by rw [hcs]; rfl, ?_, ?_, ?_⟩
    · rw [List.length_cons]
      omega
    all_goals cases style <;> decide
  · rintro style' hkind -
    cases hkind
    rw [Nat.add_sub_cancel_left]
    exact head?_drop_of_quotedLength? h

theorem bounded_of_hidden? {kind : EventKind} {cs : List Char} {n : Nat}
    (h : hidden? options terminator previous c cs = some (.ok (kind, n))) :
    Bounded kind c cs n := by
  cases hides_of_hidden? h with
  | lineComment first second enabled =>
      rw [first, lineLength_cons (by decide)]
      refine ⟨rfl, by omega, Nat.succ_le_succ (lineLength_le cs), fun hline => absurd rfl hline,
        fun _ => ?_, fun _ hkind => by cases hkind⟩
      rw [Nat.add_sub_cancel, lineLength, drop_length_takeWhile]
      cases hdrop : cs.dropWhile (· ≠ '\n') with
      | nil => exact .inl rfl
      | cons d rest =>
          have hd := List.head?_dropWhile_not (· ≠ '\n') cs
          rw [hdrop] at hd
          exact .inr (by simpa using hd)
  | blockComment first second enabled closed =>
      obtain ⟨cs, rfl⟩ := List.head?_eq_some_iff.mp second
      obtain ⟨body, rest, hcs, hm⟩ := blockCommentLength?_eq_some closed
      rw [List.tail_cons] at hcs
      have hlength := congrArg List.length hcs
      simp only [List.length_append, List.length_cons] at hlength
      refine ⟨rfl, by omega, ?_, fun _ => ?_, fun hkind => (by cases hkind),
        fun _ hkind => by cases hkind⟩
      · rw [List.length_cons]
        omega
      · refine ⟨'/' :: '*' :: (body ++ ['*']), '/', rest, by simp [first, hcs], ?_, by decide,
          by decide⟩
        simp only [List.length_cons, List.length_append, List.length_nil]
        omega
  | quoted first plain enabled closed =>
      rw [first]
      exact .of_quotedLength? closed
  | dollarQuoted first enabled marker other closed =>
      subst first
      obtain ⟨tag, body, rest, marker, rfl, heq, rfl⟩ := dollarString_eq marker closed
      have hlength := congrArg List.length heq
      simp only [List.length_append, List.length_cons] at hlength
      refine ⟨rfl, by simp, ?_, fun _ => ?_, fun hkind => (by cases hkind), ?_⟩
      · simp only [List.length_append, List.length_cons]
        omega
      · refine ⟨['$'] ++ (tag ++ ['$']) ++ (body ++ (['$'] ++ tag)), '$', rest, by simp [heq], ?_,
          by decide, by decide⟩
        simp only [List.length_append, List.length_cons, List.length_nil]
        omega
      · rintro style hkind hplain
        cases hkind
        exact absurd rfl hplain

theorem exists_closer_of_hidden? {kind : EventKind} {text after : List Char}
    (h : hidden? options terminator previous c (text ++ after) =
      some (.ok (kind, text.length + 1))) (hkind : kind ≠ .comment .line) :
    ∃ body d, c :: text = body ++ [d] ∧ isWord d = false ∧ isBlank d = false := by
  obtain ⟨body, d, rest, hclosed, hlength, hword, hblank⟩ := (bounded_of_hidden? h).closer hkind
  have happend : c :: text ++ after = body ++ [d] ++ rest := by
    rw [List.append_assoc, List.singleton_append]
    exact hclosed
  refine ⟨body, d, (List.append_inj happend ?_).1, hword, hblank⟩
  rw [List.length_cons, hlength, List.length_append]
  rfl

theorem hidden?_eq_lineComment_iff {text cs : List Char} :
    hidden? options terminator previous c (text ++ cs) =
        some (.ok (.comment .line, text.length + 1)) ↔
      c = '-' ∧ text.head? = some '-' ∧ options.lineComments = true ∧ '\n' ∉ text ∧
        (cs = [] ∨ cs.head? = some '\n') := by
  constructor
  · intro h
    generalize hn : text.length + 1 = n at h
    cases hides_of_hidden? h with
    | lineComment first second enabled =>
        rw [first, lineLength_cons (by decide), Nat.add_right_cancel_iff] at hn
        have hline := lineLength_append_eq_iff.mp hn.symm
        refine ⟨first, ?_, enabled, hline⟩
        cases text with
        | nil =>
            rcases hline.2 with rfl | hfeed
            · cases second
            · exact absurd (hfeed.symm.trans second) (by decide)
        | cons d text => exact second
  · rintro ⟨rfl, hhead, henabled, hline⟩
    have hlength : lineLength ('-' :: (text ++ cs)) = text.length + 1 := by
      rw [lineLength_cons (by decide), lineLength_append_eq_iff.mpr hline]
    have hopener : (text ++ cs).head? = some '-' := by
      rw [List.head?_append, hhead, Option.some_or]
    rw [(Hides.lineComment rfl hopener henabled).hidden?_eq, hlength]

theorem hidden?_eq_lineComment_of_end {text : List Char} (hc : c = '-')
    (hopener : text.head? = some '-') (henabled : options.lineComments = true)
    (hmem : '\n' ∉ text) :
    hidden? options terminator previous c text =
      some (.ok (.comment .line, text.length + 1)) := by
  have h : hidden? options terminator previous c (text ++ []) = _ :=
    hidden?_eq_lineComment_iff.mpr ⟨hc, hopener, henabled, hmem, .inl rfl⟩
  rwa [List.append_nil] at h

/-- A terminator makes no difference unless it is a marker that stands there. -/
theorem hidden?_congr_terminator {terminator' : List Char} {cs : List Char}
    (h : options.dollarQuotes = true → terminator.head? = some '$' → ¬ terminator <+: c :: cs)
    (h' : options.dollarQuotes = true → terminator'.head? = some '$' → ¬ terminator' <+: c :: cs) :
    hidden? options terminator previous c cs = hidden? options terminator' previous c cs := by
  by_cases hdollar : (decide (c = '$') && options.dollarQuotes) = true
  · obtain ⟨rfl, hon⟩ : c = '$' ∧ options.dollarQuotes = true := by simpa using hdollar
    have hmarker {n : Nat} (hn : dollarMarkerLength? previous cs = some n) {t : List Char}
        (ht : t.head? = some '$' → ¬ t <+: '$' :: cs) : ('$' :: cs).take n ≠ t := by
      obtain ⟨-, tag, rest, -, -, rfl⟩ := dollarMarkerLength?_eq_some hn
      rintro rfl
      exact ht rfl (List.take_prefix _ _)
    unfold hidden?
    cases hn : dollarMarkerLength? previous cs with
    | none => rfl
    | some n =>
        simp only [Option.bind_some, if_neg (hmarker hn (h hon)), if_neg (hmarker hn (h' hon))]
  · simp only [hidden?, if_neg hdollar]

/-- A literal or comment is there whatever follows it, as long as what follows does not change its
end: a line comment goes on to the end of the line, and a quote that is doubled does not close. -/
theorem hidden?_append {kind : EventKind} {cs following : List Char} {n : Nat}
    (h : hidden? options terminator previous c cs = some (.ok (kind, n)))
    (hline : kind = .comment .line → following = [] ∨ following.head? = some '\n')
    (hquote : ∀ style, kind = .literal style → style ≠ .dollar →
      following.head? ≠ some style.quote) :
    hidden? options terminator previous c (cs.take (n - 1) ++ following) =
      some (.ok (kind, n)) := by
  cases hides_of_hidden? h with
  | lineComment first second enabled =>
      obtain ⟨cs, rfl⟩ := List.head?_eq_some_iff.mp second
      have hlength (cs : List Char) : lineLength (c :: '-' :: cs) = lineLength cs + 2 := by
        rw [first, lineLength_cons (by decide), lineLength_cons (by decide)]
      rw [hlength, show lineLength cs + 2 - 1 = lineLength cs + 1 from rfl, List.take_succ_cons,
        List.cons_append, (Hides.lineComment first rfl enabled).hidden?_eq, hlength,
        lineLength_append cs (hline rfl)]
  | @blockComment first second enabled m closed =>
      obtain ⟨cs, rfl⟩ := List.head?_eq_some_iff.mp second
      rw [show 2 + m - 1 = m + 1 by omega, List.take_succ_cons]
      exact Hides.hidden?_eq (.blockComment first rfl enabled
        (blockCommentLength?_append closed following))
  | @quoted style first plain enabled m closed =>
      have hclosed := quotedLength?_append (by cases style <;> decide) closed
        (hquote style rfl plain)
      rw [Nat.add_sub_cancel_left]
      exact (Hides.quoted first plain enabled hclosed).hidden?_eq
  | dollarQuoted first enabled marker other closed =>
      subst first
      obtain ⟨hprevious, tag, after, rfl, hword, hstart, rfl⟩ :=
        dollarMarkerLength?_eq_some_iff.mp marker
      rw [take_marker, drop_marker] at closed
      rw [take_marker] at other
      obtain ⟨body, hbody, rfl⟩ := Option.map_eq_some_iff.mp closed
      have hclosed := position?_append hbody following
      have htake :=
        take_marker tag (after.take (body + ('$' :: (tag ++ ['$'])).length) ++ following)
      generalize hmark : '$' :: (tag ++ ['$']) = marker at other hclosed htake ⊢
      have hlength : marker.length = tag.length + 2 := by simp [← hmark]
      have hbefore : (tag ++ '$' :: after).take
          (0 + (marker.length + body + marker.length) - 1) =
          tag ++ '$' :: after.take (body + marker.length) := by
        have hmore : 0 + (marker.length + body + marker.length) - 1 - tag.length =
            body + marker.length + 1 := by omega
        rw [List.take_append, List.take_of_length_le (by omega), hmore, List.take_succ_cons]
      rw [hbefore, List.append_assoc, List.cons_append]
      refine Hides.hidden?_eq (.dollarQuoted rfl enabled
        (dollarMarkerLength?_eq_some_iff.mpr ⟨hprevious, tag, _, rfl, hword, hstart, rfl⟩) ?_ ?_)
      · rwa [htake]
      · rw [htake, drop_marker, dollarQuotedLength?, hclosed]
        rfl

/-- A literal or comment is there also when the script goes on with a mute character, but a line
comment at the end of the script goes on in its line. -/
theorem hidden?_append_of_isMute {kind : EventKind} {cs more : List Char} {n : Nat}
    (h : hidden? options terminator previous c cs = some (.ok (kind, n)))
    (hmore : more.head?.all isMute = true)
    (hline : kind = .comment .line → cs.drop (n - 1) = [] → more = [] ∨ more.head? = some '\n') :
    hidden? options terminator previous c (cs ++ more) = some (.ok (kind, n)) := by
  have hbounded := bounded_of_hidden? h
  have hsplit : cs ++ more = cs.take (n - 1) ++ (cs.drop (n - 1) ++ more) := by
    rw [← List.append_assoc, List.take_append_drop]
  rw [hsplit]
  refine hidden?_append h (fun hkind => ?_) fun style hkind hplain => ?_
  · rcases hbounded.line hkind with hnil | hhead
    · rw [hnil]
      exact hline hkind hnil
    · obtain ⟨rest, hrest⟩ := List.head?_eq_some_iff.mp hhead
      rw [hrest]
      exact .inr rfl
  · cases hdrop : cs.drop (n - 1) with
    | nil =>
        intro hquote
        rw [List.nil_append] at hquote
        rw [hquote] at hmore
        cases style <;> exact absurd hmore (by decide)
    | cons d rest =>
        have hd := hbounded.quote style hkind hplain
        rwa [hdrop] at hd

theorem hidden?_append_of_agrees {kind : EventKind} {text xs ys : List Char}
    (h : hidden? options terminator previous c (text ++ ys) = some (.ok (kind, text.length + 1)))
    (hagrees : Agrees xs ys)
    (hline : kind = .comment .line → ys = [] ∨ ys.head? = some '\n' →
      xs = [] ∨ xs.head? = some '\n') :
    hidden? options terminator previous c (text ++ xs) = some (.ok (kind, text.length + 1)) := by
  have hbounded := bounded_of_hidden? h
  have hline' := hbounded.line
  have hquote := hbounded.quote
  rw [Nat.add_sub_cancel, List.drop_left] at hline' hquote
  have hsame := hidden?_append h (fun hkind => hline hkind (hline' hkind))
    fun style hkind hplain hhead => hquote style hkind hplain (hagrees.head? hhead (by
      cases style <;> decide))
  rwa [Nat.add_sub_cancel, List.take_left] at hsame

theorem hidden?_eq_none_of_agrees {xs ys : List Char} (hagrees : Agrees xs ys)
    (h : hidden? options terminator previous c ys = none) :
    hidden? options terminator previous c xs = none := by
  have hline : (decide (c = '-') && decide (xs.head? = some '-') && options.lineComments) = true →
      (decide (c = '-') && decide (ys.head? = some '-') && options.lineComments) = true := by
    simp only [Bool.and_eq_true, decide_eq_true_eq]
    exact fun ⟨⟨hc, hhead⟩, hon⟩ => ⟨⟨hc, hagrees.head? hhead (by decide)⟩, hon⟩
  have hblock : (decide (c = '/') && decide (xs.head? = some '*') && options.blockComments) = true →
      (decide (c = '/') && decide (ys.head? = some '*') && options.blockComments) = true := by
    simp only [Bool.and_eq_true, decide_eq_true_eq]
    exact fun ⟨⟨hc, hhead⟩, hon⟩ => ⟨⟨hc, hagrees.head? hhead (by decide)⟩, hon⟩
  unfold hidden? at h ⊢
  split at h
  · cases h
  rename_i hnotLine
  split at h
  · cases h
  rename_i hnotBlock
  rw [if_neg (fun hxs => hnotLine (hline hxs)), if_neg (fun hxs => hnotBlock (hblock hxs))]
  split at h
  · cases h
  rename_i hnotSingle
  split at h
  · cases h
  rename_i hnotDouble
  split at h
  · cases h
  rename_i hnotBacktick
  rw [if_neg hnotSingle, if_neg hnotDouble, if_neg hnotBacktick]
  split at h
  · rename_i hdollar
    rw [if_pos hdollar]
    simp only [Bool.and_eq_true, decide_eq_true_eq] at hdollar
    obtain ⟨rfl, -⟩ := hdollar
    cases hmarker : dollarMarkerLength? previous xs with
    | none => rfl
    | some n =>
        obtain ⟨hmarker', htake⟩ := dollarMarkerLength?_of_agrees hagrees hmarker
        rw [hmarker', Option.bind_some] at h
        split at h
        · rename_i heq
          rw [Option.bind_some, if_pos (htake.trans heq)]
        · cases h
  · rename_i hother
    rw [if_neg hother]

theorem hidden?_of_append_blanks {terminator : List Char} {kind : EventKind} {c : Char}
    {text blanks following : List Char} (hblanks : blanks.all isBlank = true)
    (h : hidden? options terminator previous c (text ++ blanks ++ following) =
      some (.ok (kind, (text ++ blanks).length + 1))) :
    hidden? options terminator previous c text = some (.ok (kind, text.length + 1)) := by
  rw [List.all_eq_true] at hblanks
  by_cases hkind : kind = .comment .line
  · subst hkind
    obtain ⟨hc, hopener, henabled, hmem, -⟩ := hidden?_eq_lineComment_iff.mp h
    refine hidden?_eq_lineComment_of_end hc ?_ henabled ?_
    · cases text with
      | nil =>
          have hblank := hblanks '-' (List.mem_of_mem_head? hopener)
          cases hblank
      | cons d text => exact hopener
    · exact fun hfeed => hmem (List.mem_append_left blanks hfeed)
  · obtain ⟨body, d, hlast, -, hd⟩ := exists_closer_of_hidden? h hkind
    have hnone : blanks = [] := by
      apply Classical.byContradiction
      intro hne
      rw [← List.dropLast_concat_getLast hne, ← List.append_assoc, ← List.cons_append] at hlast
      obtain ⟨-, hclose⟩ := List.append_inj' hlast rfl
      have hblank := hblanks _ (List.getLast_mem hne)
      rw [(List.cons.inj hclose).1, hd] at hblank
      cases hblank
    subst hnone
    rw [List.append_nil] at h
    have hagrees : Agrees [] following := .of_isPrefix List.nil_prefix
    have hend := hidden?_append_of_agrees h hagrees fun _ _ => .inl rfl
    rwa [List.append_nil] at hend

end Lexeme

end SqlBatch
