import SqlBatch.Script.Lexeme
import SqlBatch.Script.Options

/-!
# What the lengths of lexemes say

A length that a lexeme reports is never more than what is left of the text, and it ends where the
lexeme does: after the closing quote, after the end of a comment, after the second marker of a
dollar string, after the line of a directive. Each fact here is about one function on texts and
knows nothing of scanners.
-/

namespace SqlBatch

namespace Text

theorem position?_eq_some {pattern cs : List Char} {n : Nat} (h : position? pattern cs = some n) :
    ∃ body rest, cs = body ++ (pattern ++ rest) ∧ body.length = n := by
  induction cs generalizing n with
  | nil =>
      unfold position? at h
      split at h
      · rename_i hempty
        rw [List.isEmpty_iff] at hempty
        exact ⟨[], [], by simp [hempty], by simpa using h⟩
      · cases h
  | cons c cs ih =>
      unfold position? at h
      split at h
      · rename_i hprefix
        obtain ⟨rest, hrest⟩ := List.isPrefixOf_iff_prefix.mp hprefix
        exact ⟨[], rest, hrest.symm, by simpa using h⟩
      · obtain ⟨m, hm, rfl⟩ := Option.map_eq_some_iff.mp h
        obtain ⟨body, rest, rfl, hlength⟩ := ih hm
        exact ⟨c :: body, rest, rfl, by simp [hlength]⟩

theorem length_takeWhile_le (p : Char → Bool) (cs : List Char) :
    (cs.takeWhile p).length ≤ cs.length :=
  (List.takeWhile_prefix p).length_le

theorem take_length_takeWhile (p : Char → Bool) (cs : List Char) :
    cs.take (cs.takeWhile p).length = cs.takeWhile p :=
  (List.prefix_iff_eq_take.mp (List.takeWhile_prefix p)).symm

theorem drop_length_takeWhile (p : Char → Bool) (cs : List Char) :
    cs.drop (cs.takeWhile p).length = cs.dropWhile p := by
  conv => lhs; arg 2; rw [← List.takeWhile_append_dropWhile (p := p) (l := cs)]
  exact List.drop_left

end Text

namespace Lexeme

open Text

theorem blockCommentLength?_eq_some {nested : Bool} {depth : Nat} {cs : List Char} {n : Nat}
    (h : blockCommentLength? nested depth cs = some n) :
    ∃ body rest, cs = body ++ '*' :: '/' :: rest ∧ n = body.length + 2 := by
  fun_induction blockCommentLength? nested depth cs generalizing n with
  | case1 cs => exact ⟨[], cs, rfl, by simpa using h.symm⟩
  | case2 cs depth ih =>
      obtain ⟨m, hm, rfl⟩ := Option.map_eq_some_iff.mp h
      obtain ⟨body, rest, rfl, rfl⟩ := ih hm
      exact ⟨'*' :: '/' :: body, rest, rfl, rfl⟩
  | case3 depth cs hnested ih =>
      obtain ⟨m, hm, rfl⟩ := Option.map_eq_some_iff.mp h
      obtain ⟨body, rest, rfl, rfl⟩ := ih hm
      exact ⟨'/' :: '*' :: body, rest, rfl, rfl⟩
  | case4 depth cs hnested ih =>
      obtain ⟨m, hm, rfl⟩ := Option.map_eq_some_iff.mp h
      obtain ⟨body, rest, hcs, rfl⟩ := ih hm
      exact ⟨'/' :: body, rest, congrArg _ hcs, rfl⟩
  | case5 depth c cs _ _ ih =>
      obtain ⟨m, hm, rfl⟩ := Option.map_eq_some_iff.mp h
      obtain ⟨body, rest, rfl, rfl⟩ := ih hm
      exact ⟨c :: body, rest, rfl, rfl⟩
  | case6 => cases h

theorem quotedLength?_eq_some {quote : Char} {backslash : Bool} {cs : List Char} {n : Nat}
    (h : quotedLength? quote backslash cs = some n) :
    ∃ body rest, cs = body ++ quote :: rest ∧ n = body.length + 1 := by
  fun_induction quotedLength? quote backslash cs generalizing n with
  | case1 => cases h
  | case2 => exact ⟨[], [], rfl, by simpa using h.symm⟩
  | case3 => cases h
  | case4 c d cs hescape ih =>
      obtain ⟨m, hm, rfl⟩ := Option.map_eq_some_iff.mp h
      obtain ⟨body, rest, rfl, rfl⟩ := ih hm
      exact ⟨c :: d :: body, rest, rfl, rfl⟩
  | case5 cs hescape ih =>
      obtain ⟨m, hm, rfl⟩ := Option.map_eq_some_iff.mp h
      obtain ⟨body, rest, rfl, rfl⟩ := ih hm
      exact ⟨quote :: quote :: body, rest, rfl, rfl⟩
  | case6 d cs hescape hd => exact ⟨[], d :: cs, rfl, by simpa using h.symm⟩
  | case7 c d cs hescape hc ih =>
      obtain ⟨m, hm, rfl⟩ := Option.map_eq_some_iff.mp h
      obtain ⟨body, rest, hcs, rfl⟩ := ih hm
      exact ⟨c :: body, rest, congrArg _ hcs, rfl⟩

theorem dollarMarkerLength?_eq_some_iff {previous : Option Char} {cs : List Char} {n : Nat} :
    dollarMarkerLength? previous cs = some n ↔ previous.any isWord = false ∧
      ∃ tag rest, cs = tag ++ '$' :: rest ∧ tag.all isWord = true ∧
        (tag ≠ [] → tag.head?.any isNameStart = true) ∧ n = tag.length + 2 := by
  constructor
  · intro h
    unfold dollarMarkerLength? at h
    split at h
    · cases h
    rename_i hprevious
    dsimp only at h
    generalize htag : (if cs.head?.any isNameStart then cs.takeWhile isWord else []) = tag at h
    split at h
    · rename_i hdollar
      obtain ⟨rest, hrest⟩ := List.head?_eq_some_iff.mp hdollar
      obtain rfl := Option.some.inj h
      refine ⟨by simpa using hprevious, tag, rest, ?_, ?_, ?_, rfl⟩
      · have htake : cs.take tag.length = tag := by
          subst htag
          split
          · exact take_length_takeWhile isWord cs
          · rfl
        rw [← hrest]
        conv => lhs; rw [← List.take_append_drop tag.length cs, htake]
      · subst htag
        split
        · exact List.all_takeWhile
        · rfl
      · intro hne
        subst htag
        split at hne
        · rename_i hstart
          rw [if_pos hstart]
          cases cs with
          | nil => exact absurd rfl hne
          | cons c cs =>
              by_cases hc : isWord c = true
              · rwa [List.takeWhile_cons_of_pos hc]
              · exact absurd (List.takeWhile_cons_of_neg hc) hne
        · exact absurd rfl hne
    · cases h
  · rintro ⟨hprevious, tag, rest, rfl, hword, hstart, rfl⟩
    have htag : (if (tag ++ '$' :: rest).head?.any isNameStart then
        (tag ++ '$' :: rest).takeWhile isWord else []) = tag := by
      cases tag with
      | nil => rfl
      | cons c tag =>
          have hc : ((c :: tag) ++ '$' :: rest).head?.any isNameStart = true :=
            hstart (List.cons_ne_nil c tag)
          rw [if_pos hc, List.takeWhile_append_of_pos (List.all_eq_true.mp hword),
            List.takeWhile_cons_of_neg (by decide), List.append_nil]
    simp only [dollarMarkerLength?, hprevious, Bool.false_eq_true, if_false, htag, List.drop_left,
      List.head?_cons, if_true]

theorem dollarMarkerLength?_eq_some {previous : Option Char} {cs : List Char} {n : Nat}
    (h : dollarMarkerLength? previous cs = some n) :
    previous.any isWord = false ∧
      ∃ tag rest, cs = tag ++ '$' :: rest ∧ tag.all isWord ∧ n = tag.length + 2 := by
  obtain ⟨hprevious, tag, rest, hcs, hword, -, hn⟩ := dollarMarkerLength?_eq_some_iff.mp h
  exact ⟨hprevious, tag, rest, hcs, hword, hn⟩

theorem dollarQuotedLength?_eq_some {marker cs : List Char} {n : Nat}
    (h : dollarQuotedLength? marker cs = some n) :
    ∃ body rest, cs = body ++ (marker ++ rest) ∧
      n = marker.length + body.length + marker.length := by
  obtain ⟨m, hm, rfl⟩ := Option.map_eq_some_iff.mp h
  obtain ⟨body, rest, hcs, rfl⟩ := position?_eq_some hm
  exact ⟨body, rest, hcs, rfl⟩

/-- A dollar string is a body between two equal markers, each a tag between two dollars. -/
theorem dollarString_eq {previous : Option Char} {cs : List Char} {m n : Nat}
    (hmarker : dollarMarkerLength? previous cs = some m)
    (hclosed : dollarQuotedLength? (('$' :: cs).take m) (('$' :: cs).drop m) = some n) :
    ∃ tag body rest : List Char, ∃ marker, marker = ['$'] ++ (tag ++ ['$']) ∧
      '$' :: cs = (marker ++ (body ++ marker)) ++ rest ∧
      n = (marker ++ (body ++ marker)).length := by
  obtain ⟨-, tag, rest, rfl, -, rfl⟩ := dollarMarkerLength?_eq_some hmarker
  obtain ⟨body, rest', hbody, rfl⟩ := dollarQuotedLength?_eq_some hclosed
  have hsplit : '$' :: (tag ++ '$' :: rest) = (['$'] ++ (tag ++ ['$'])) ++ rest := by simp
  have htake : ('$' :: (tag ++ '$' :: rest)).take (tag.length + 2) = ['$'] ++ (tag ++ ['$']) := by
    rw [hsplit]
    exact List.take_left' (by simp)
  rw [htake] at hbody
  refine ⟨tag, body, rest', _, rfl, ?_, ?_⟩
  · conv => lhs; rw [← List.take_append_drop (tag.length + 2) ('$' :: (tag ++ '$' :: rest))]
    rw [htake, hbody]
    simp only [List.append_assoc]
  · rw [htake]
    simp only [List.length_append]
    omega

theorem lineLength_le (cs : List Char) : lineLength cs ≤ cs.length := length_takeWhile_le _ cs

theorem directive?_eq_some {cs delimiter : List Char} {n : Nat}
    (h : directive? cs = some (delimiter, n)) :
    n ≤ cs.length ∧ SplitOptions.isTerminator delimiter = true := by
  unfold directive? at h
  dsimp only at h
  generalize hgap : (cs.takeWhile fun c => c == ' ' || c == '\t') = gap at h
  generalize hnamed : cs.drop gap.length = named at h
  generalize hdelimiter : (named.takeWhile fun c => !isSpace c) = d at h
  generalize htail : named.drop d.length = tail at h
  split at h
  · cases h
  · rename_i hwrong
    obtain ⟨rfl, rfl⟩ := Prod.mk.inj (Option.some.inj h)
    have hgapLength : gap.length ≤ cs.length := hgap ▸ length_takeWhile_le _ cs
    have hdelimiterLength : d.length ≤ named.length := hdelimiter ▸ length_takeWhile_le _ named
    have hnamedLength : named.length = cs.length - gap.length := by rw [← hnamed, List.length_drop]
    have htailLength : tail.length = named.length - d.length := by rw [← htail, List.length_drop]
    have hline := lineLength_le tail
    constructor
    · split <;> omega
    · simp only [Bool.or_eq_true, not_or, Bool.not_eq_true] at hwrong
      simp [SplitOptions.isTerminator, hwrong.1.2, hwrong.2]

theorem directive?_ends {cs delimiter : List Char} {n : Nat}
    (h : directive? cs = some (delimiter, n)) :
    ∃ line after, cs = line ++ after ∧ n = line.length ∧
      (after = [] ∨ line.getLast? = some '\n') := by
  unfold directive? at h
  dsimp only at h
  generalize hgap : (cs.takeWhile fun c => c == ' ' || c == '\t') = gap at h
  generalize hnamed : cs.drop gap.length = named at h
  generalize hdelimiter : (named.takeWhile fun c => !isSpace c) = d at h
  generalize htail : named.drop d.length = tail at h
  split at h
  · cases h
  obtain ⟨-, hn⟩ := Prod.mk.inj (Option.some.inj h)
  have hcs : cs = gap ++ (d ++ tail) := by
    rw [← htail, ← hdelimiter, drop_length_takeWhile, List.takeWhile_append_dropWhile, ← hnamed,
      ← hgap, drop_length_takeWhile, List.takeWhile_append_dropWhile]
  have hsplit := List.takeWhile_append_dropWhile (p := (· ≠ '\n')) (l := tail)
  have hline : lineLength tail = (tail.takeWhile (· ≠ '\n')).length := rfl
  have hhead := List.head?_dropWhile_not (· ≠ '\n') tail
  generalize tail.takeWhile (· ≠ '\n') = line at hsplit hline
  generalize tail.dropWhile (· ≠ '\n') = more at hsplit hhead
  subst hsplit
  rw [List.length_append, hline] at hn
  cases more with
  | nil =>
      rw [List.length_nil, if_neg (by omega)] at hn
      refine ⟨cs, [], (List.append_nil cs).symm, ?_, .inl rfl⟩
      rw [hcs, List.append_nil, List.length_append, List.length_append]
      omega
  | cons feed after =>
      obtain rfl : feed = '\n' := by simpa using hhead
      rw [List.length_cons, if_pos (by omega)] at hn
      refine ⟨gap ++ (d ++ (line ++ ['\n'])), after, ?_, ?_, .inr ?_⟩
      · rw [hcs]
        simp
      · simp only [List.length_append, List.length_cons, List.length_nil]
        omega
      · rw [← List.append_assoc, ← List.append_assoc, List.getLast?_concat]

theorem nextWord_eq (cs : List Char) :
    ∃ rest, cs = cs.takeWhile isSpace ++ (nextWord cs ++ rest) := by
  refine ⟨(cs.dropWhile isSpace).dropWhile isWord, ?_⟩
  rw [nextWord, List.takeWhile_append_dropWhile, List.takeWhile_append_dropWhile]

/-- END closes a block by itself, or through a word that follows it after some spaces. -/
theorem endClosesBlock?_eq_some {cs : List Char} {n : Nat} (h : endClosesBlock? cs = some n) :
    n = 0 ∨ isKeyword (nextWord cs) ["CASE"] = true ∧
      n = (cs.takeWhile isSpace).length + (nextWord cs).length := by
  unfold endClosesBlock? at h
  dsimp only at h
  split at h
  · cases h
  · split at h
    · rename_i hcase
      exact .inr ⟨hcase, (Option.some.inj h).symm⟩
    · exact .inl (Option.some.inj h).symm

theorem nextWord_ne_nil_of_isKeyword {cs : List Char}
    (h : isKeyword (nextWord cs) ["CASE"] = true) : nextWord cs ≠ [] := by
  intro hnil
  rw [hnil] at h
  exact absurd h (by decide)

theorem endClosesBlock?_le {cs : List Char} {n : Nat} (h : endClosesBlock? cs = some n) :
    n ≤ cs.length := by
  rcases endClosesBlock?_eq_some h with rfl | ⟨_, rfl⟩
  · exact Nat.zero_le _
  · obtain ⟨rest, hrest⟩ := nextWord_eq cs
    have hlength := congrArg List.length hrest
    simp only [List.length_append] at hlength
    omega

end Lexeme

end SqlBatch
