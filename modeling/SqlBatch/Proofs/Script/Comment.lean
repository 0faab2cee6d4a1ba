import SqlBatch.Proofs.Script.Walk
import Mathlib.Data.Nat.Find
import Mathlib.Order.Bounds.Basic

/-!
# Comments inside comments

Where comments nest, their texts are a language with a grammar: a comment is an opener, then
comments and single characters in any number, and a closer, and a character stands by itself where
neither an opener nor a closer starts. A scan knows nothing of this and keeps count of the comments
that are open. What it takes for a comment is the only beginning of the text that is one by the
grammar, and it finds none only where there is none.

Where comments do not nest, a comment ends at the first closer that does not share a character with
the opener. Openers and closers are looked for among characters; no byte of a longer character could
be part of one.
-/

namespace SqlBatch

open Text

/-! ### The language of comments -/

def commented (body : List Char) : List Char := '/' :: '*' :: (body ++ ['*', '/'])

/-- What stands between the opener and the closer of a comment: comments, and characters at which
neither an opener nor a closer starts, whether with the next character or with the closer. -/
inductive CommentBody : List Char → Prop
  | nil : CommentBody []
  | char {c : Char} {body : List Char} (opener : ¬['/', '*'] <+: c :: (body ++ ['*', '/']))
      (closer : ¬['*', '/'] <+: c :: (body ++ ['*', '/'])) (others : CommentBody body) :
      CommentBody (c :: body)
  | comment {inner body : List Char} (inside : CommentBody inner) (others : CommentBody body) :
      CommentBody (commented inner ++ body)

/-- The texts that are comments. -/
def IsComment (text : List Char) : Prop := ∃ body, CommentBody body ∧ text = commented body

namespace Lexeme

/-! ### The scan that keeps count -/

/-- The scan of a comment with the count of the comments that are open, the outermost one included.
The scan ends when the count comes to zero; there is no answer if it would have to fall below. -/
def countedLength? (nested : Bool) : Nat → List Char → Option (Option Nat)
  | count, '*' :: '/' :: cs =>
    match count with
    | 0 => none
    | 1 => some (some 2)
    | count + 2 => (countedLength? nested (count + 1) cs).map (·.map (· + 2))
  | count, '/' :: '*' :: cs =>
    if nested then (countedLength? nested (count + 1) cs).map (·.map (· + 2))
    else (countedLength? nested count ('*' :: cs)).map (·.map (· + 1))
  | count, _ :: cs => (countedLength? nested count cs).map (·.map (· + 1))
  | _, [] => some none

/-- The count never falls below zero. -/
theorem countedLength?_eq (nested : Bool) (depth : Nat) (cs : List Char) :
    countedLength? nested (depth + 1) cs = some (blockCommentLength? nested depth cs) := by
  fun_induction blockCommentLength? nested depth cs with
  | case1 cs => rfl
  | case2 cs depth ih =>
      rw [countedLength?, ih]
      rfl
  | case3 depth cs hnested ih =>
      rw [countedLength?, if_pos hnested, ih]
      rfl
  | case4 depth cs hnested ih =>
      rw [countedLength?, if_neg hnested, ih]
      rfl
  | case5 depth c cs hcloser hopener ih =>
      rw [countedLength?, ih]
      · rfl
      · exact hcloser
      · exact hopener
  | case6 => rfl

/-! ### Where comments nest -/

private theorem blockCommentLength?_char {depth : Nat} {c : Char} {cs : List Char}
    (hopener : ¬['/', '*'] <+: c :: cs) (hcloser : ¬['*', '/'] <+: c :: cs) :
    blockCommentLength? true depth (c :: cs) = (blockCommentLength? true depth cs).map (· + 1) := by
  rw [blockCommentLength?]
  · rintro following rfl rfl
    exact hcloser ⟨following, rfl⟩
  · rintro following rfl rfl
    exact hopener ⟨following, rfl⟩

theorem starts_append_iff {c : Char} {pattern body following : List Char} (h : pattern.length = 2) :
    pattern <+: c :: (body ++ '*' :: '/' :: following) ↔ pattern <+: c :: (body ++ ['*', '/']) := by
  have happend : c :: (body ++ '*' :: '/' :: following) =
      c :: (body ++ ['*', '/']) ++ following := by simp
  rw [happend]
  refine ⟨fun hbegins => ?_, fun hbegins => hbegins.trans (List.prefix_append _ _)⟩
  refine List.prefix_of_prefix_length_le hbegins (List.prefix_append _ _) ?_
  rw [h, List.length_cons, List.length_append]
  simp

/-- A scan reads over the body of a comment and leaves as many comments open as before. -/
theorem blockCommentLength?_body {body : List Char} (h : CommentBody body) (depth : Nat)
    (following : List Char) :
    blockCommentLength? true depth (body ++ '*' :: '/' :: following) =
      (blockCommentLength? true depth ('*' :: '/' :: following)).map (body.length + ·) := by
  induction h generalizing depth following with
  | nil => simp
  | @char c body opener closer others ih =>
      rw [List.cons_append, blockCommentLength?_char ((starts_append_iff rfl).not.mpr opener)
        ((starts_append_iff rfl).not.mpr closer), ih, Option.map_map]
      congr 1
      funext n
      simp only [Function.comp_apply, List.length_cons]
      omega
  | @comment inner body inside others ihInside ihOthers =>
      have hinner : commented inner ++ body ++ '*' :: '/' :: following =
          '/' :: '*' :: (inner ++ '*' :: '/' :: (body ++ '*' :: '/' :: following)) := by
        simp [commented]
      rw [hinner, blockCommentLength?, if_pos rfl, ihInside, blockCommentLength?, ihOthers]
      simp only [Option.map_map]
      congr 1
      funext n
      simp only [Function.comp_apply, commented, List.length_append, List.length_cons,
        List.length_nil]
      omega

/-- What closes a number of comments inside a comment, and then the comment itself. -/
inductive Unwinds : Nat → List Char → Prop
  | last {body : List Char} (inside : CommentBody body) : Unwinds 0 (body ++ ['*', '/'])
  | inner {depth : Nat} {body text : List Char} (inside : CommentBody body)
      (others : Unwinds depth text) : Unwinds (depth + 1) (body ++ '*' :: '/' :: text)

namespace Unwinds

variable {depth : Nat} {text : List Char}

theorem cons (h : Unwinds depth text) {c : Char} (hopener : ¬['/', '*'] <+: c :: text)
    (hcloser : ¬['*', '/'] <+: c :: text) : Unwinds depth (c :: text) := by
  cases h with
  | last inside => exact .last (.char hopener hcloser inside)
  | inner inside others =>
      exact .inner (.char ((starts_append_iff rfl).not.mp hopener)
        ((starts_append_iff rfl).not.mp hcloser) inside) others

theorem opener (h : Unwinds (depth + 1) text) : Unwinds depth ('/' :: '*' :: text) := by
  cases h with
  | inner inside others =>
      cases others with
      | @last body inside' =>
          have h := Unwinds.last (inside.comment inside')
          simpa [commented] using h
      | inner inside' others =>
          have h := Unwinds.inner (inside.comment inside') others
          simpa [commented] using h

end Unwinds

theorem unwinds_of_blockCommentLength? {depth : Nat} {cs : List Char} {n : Nat}
    (h : blockCommentLength? true depth cs = some n) : Unwinds depth (cs.take n) := by
  generalize hnested : true = nested at h
  fun_induction blockCommentLength? nested depth cs generalizing n with
  | case1 cs =>
      obtain rfl := Option.some.inj h
      exact .last .nil
  | case2 cs depth ih =>
      obtain ⟨m, hm, rfl⟩ := Option.map_eq_some_iff.mp h
      exact .inner .nil (ih hm)
  | case3 depth cs _ ih =>
      obtain ⟨m, hm, rfl⟩ := Option.map_eq_some_iff.mp h
      exact (ih hm).opener
  | case4 depth cs hnot => exact absurd hnested.symm hnot
  | case5 depth c cs hcloser hopener ih =>
      obtain ⟨m, hm, rfl⟩ := Option.map_eq_some_iff.mp h
      have hbegins : c :: cs.take m <+: c :: cs :=
        List.cons_prefix_cons.mpr ⟨rfl, List.take_prefix m cs⟩
      refine (ih hm).cons (fun hstarts => ?_) fun hstarts => ?_
      · obtain ⟨following, hfollowing⟩ := hstarts.trans hbegins
        obtain ⟨rfl, rfl⟩ := List.cons.inj hfollowing
        exact hopener following rfl rfl
      · obtain ⟨following, hfollowing⟩ := hstarts.trans hbegins
        obtain ⟨rfl, rfl⟩ := List.cons.inj hfollowing
        exact hcloser following rfl rfl
  | case6 => cases h

/-- The length of a comment behind its opener is that of the only comment with which the text
begins. -/
theorem blockCommentLength?_nested_iff {cs text : List Char} :
    (text <+: '/' :: '*' :: cs ∧ IsComment text) ↔
      ∃ n, blockCommentLength? true 0 cs = some n ∧ text = '/' :: '*' :: cs.take n := by
  constructor
  · rintro ⟨⟨following, htext⟩, body, hbody, rfl⟩
    have hcs : body ++ '*' :: '/' :: following = cs := by simpa [commented] using htext
    refine ⟨body.length + 2, ?_, ?_⟩
    · rw [← hcs, blockCommentLength?_body hbody]
      rfl
    · have htake : body ++ '*' :: '/' :: following = body ++ ['*', '/'] ++ following := by simp
      rw [← hcs, htake, List.take_left' (by simp)]
      rfl
  · rintro ⟨n, hn, rfl⟩
    refine ⟨?_, ?_⟩
    · exact List.cons_prefix_cons.mpr ⟨rfl, List.cons_prefix_cons.mpr ⟨rfl, List.take_prefix n cs⟩⟩
    · have hunwinds := unwinds_of_blockCommentLength? hn
      generalize cs.take n = text at hunwinds
      cases hunwinds with
      | @last body inside => exact ⟨body, inside, rfl⟩

/-! ### Where comments do not nest -/

theorem isLeast_add_iff {P Q : Nat → Prop} {k : Nat} (hlow : ∀ i < k, ¬Q i)
    (hshift : ∀ i, Q (i + k) ↔ P i) (m : Nat) :
    IsLeast {i | Q i} m ↔ ∃ i, IsLeast {i | P i} i ∧ m = i + k := by
  have hge {j : Nat} (hj : Q j) : ∃ i, P i ∧ j = i + k := by
    have hk : k ≤ j := Nat.le_of_not_lt fun hlt => hlow j hlt hj
    refine ⟨j - k, (hshift _).mp ?_, by omega⟩
    rwa [Nat.sub_add_cancel hk]
  constructor
  · rintro ⟨hm, hleast⟩
    obtain ⟨i, hi, rfl⟩ := hge hm
    refine ⟨i, ⟨hi, fun j hj => ?_⟩, rfl⟩
    have hle : i + k ≤ j + k := hleast ((hshift j).mpr hj)
    omega
  · rintro ⟨i, ⟨hi, hleast⟩, rfl⟩
    refine ⟨(hshift i).mpr hi, fun j hj => ?_⟩
    obtain ⟨l, hl, rfl⟩ := hge hj
    exact Nat.add_le_add_right (hleast hl) k

private theorem blockCommentLength?_flat_cons (c : Char) (cs : List Char) :
    blockCommentLength? false 0 (c :: cs) =
      if ['*', '/'] <+: c :: cs then some 2 else (blockCommentLength? false 0 cs).map (· + 1) := by
  split
  · rename_i hstarts
    obtain ⟨following, hfollowing⟩ := hstarts
    rw [← hfollowing]
    rfl
  · rename_i hnot
    by_cases hopener : ['/', '*'] <+: c :: cs
    · obtain ⟨following, hfollowing⟩ := hopener
      obtain ⟨rfl, rfl⟩ := List.cons.inj hfollowing
      rfl
    · rw [blockCommentLength?]
      · rintro following rfl rfl
        exact hnot ⟨following, rfl⟩
      · rintro following rfl rfl
        exact hopener ⟨following, rfl⟩

/-- The length of a comment behind its opener ends at the first closer. -/
theorem blockCommentLength?_flat_iff {cs : List Char} {n : Nat} :
    blockCommentLength? false 0 cs = some n ↔
      ∃ i, IsLeast {i | ['*', '/'] <+: cs.drop i} i ∧ n = i + 2 := by
  induction cs generalizing n with
  | nil => simp [blockCommentLength?, IsLeast]
  | cons c cs ih =>
      rw [blockCommentLength?_flat_cons]
      split
      · rename_i hstarts
        have hleast : IsLeast {i | ['*', '/'] <+: (c :: cs).drop i} 0 :=
          ⟨hstarts, fun _ _ => Nat.zero_le _⟩
        constructor
        · intro h
          exact ⟨0, hleast, (Option.some.inj h).symm⟩
        · rintro ⟨i, hi, rfl⟩
          rw [hi.unique hleast]
      · rename_i hnot
        have hbehind := isLeast_add_iff (P := fun i => ['*', '/'] <+: cs.drop i)
          (Q := fun i => ['*', '/'] <+: (c :: cs).drop i) (k := 1)
          (fun i hi hstarts => hnot (by rwa [Nat.lt_one_iff.mp hi] at hstarts)) fun i => Iff.rfl
        rw [Option.map_eq_some_iff]
        constructor
        · rintro ⟨m, hm, rfl⟩
          obtain ⟨i, hi, rfl⟩ := ih.mp hm
          exact ⟨i + 1, (hbehind _).mpr ⟨i, hi, rfl⟩, rfl⟩
        · rintro ⟨m, hm, rfl⟩
          obtain ⟨i, hi, rfl⟩ := (hbehind m).mp hm
          exact ⟨i + 2, ih.mpr ⟨i, hi, rfl⟩, rfl⟩

private theorem exists_blockCommentLength?_flat_iff {cs text : List Char} :
    (∃ n, blockCommentLength? false 0 cs = some n ∧ text = '/' :: '*' :: cs.take n) ↔
      ∃ i, IsLeast {i | 2 ≤ i ∧ ['*', '/'] <+: ('/' :: '*' :: cs).drop i} i ∧
        text = ('/' :: '*' :: cs).take (i + 2) := by
  have hbehind := isLeast_add_iff (P := fun i => ['*', '/'] <+: cs.drop i)
    (Q := fun i => 2 ≤ i ∧ ['*', '/'] <+: ('/' :: '*' :: cs).drop i) (k := 2)
    (fun i hi h => absurd h.1 (by omega)) fun i => by simp
  constructor
  · rintro ⟨n, hn, rfl⟩
    obtain ⟨i, hi, rfl⟩ := blockCommentLength?_flat_iff.mp hn
    exact ⟨i + 2, (hbehind _).mpr ⟨i, hi, rfl⟩, rfl⟩
  · rintro ⟨m, hm, rfl⟩
    obtain ⟨i, hi, rfl⟩ := (hbehind m).mp hm
    exact ⟨i + 2, blockCommentLength?_flat_iff.mpr ⟨i, hi, rfl⟩, rfl⟩

end Lexeme

/-! ### What a scanner takes for a comment -/

namespace Scanner

variable {s : Scanner} {cs : List Char}

/-- A scanner in front of an opener takes the comment, or says that it is left open. -/
theorem step_of_commentOpener (hrest : s.rest = '/' :: '*' :: cs) (hapart : s.atTerminator = false)
    (henabled : s.options.blockComments = true) :
    s.step = match Lexeme.blockCommentLength? s.options.nestedBlockComments 0 cs with
      | some n => .event ⟨.comment .block, s.offset, '/' :: '*' :: cs.take n⟩
          (s.advance ⟨.comment .block, s.offset, '/' :: '*' :: cs.take n⟩)
      | none => .unbalanced .blockComment s.offset := by
  have hlexeme : s.lexeme '/' ('*' :: cs) = closedBy .blockComment (.comment .block) 2
      (Lexeme.blockCommentLength? s.options.nestedBlockComments 0 cs) := by
    rw [lexeme, hapart, if_neg Bool.false_ne_true, if_neg (by simp), if_pos (by simp [henabled])]
    rfl
  rw [step, hrest]
  dsimp only
  rw [hlexeme]
  cases Lexeme.blockCommentLength? s.options.nestedBlockComments 0 cs with
  | none => rfl
  | some n =>
      have htext : s.rest.take (2 + n) = '/' :: '*' :: cs.take n := by
        rw [hrest, Nat.add_comm]
        rfl
      simp only [closedBy, event, htext]

end Scanner

/-- **A block comment is what its grammar says.** Where comments nest, a scanner in front of an
opener takes the one comment with which the text begins, and finds a comment left open exactly if
the text begins with none. Where they do not nest, it takes the text through the first closer that
stands behind the opener, and finds the comment left open exactly if there is none. The count of the
comments that are open never falls below zero. -/
theorem block_comments_exact (s : Scanner) (hopens : ['/', '*'] <+: s.rest)
    (hapart : s.atTerminator = false) (henabled : s.options.blockComments = true) :
    (s.options.nestedBlockComments = true →
      (∀ text, (∃ t, s.step = .event ⟨.comment .block, s.offset, text⟩ t) ↔
        text <+: s.rest ∧ IsComment text) ∧
      (∀ text text', text <+: s.rest → IsComment text → text' <+: s.rest → IsComment text' →
        text = text') ∧
      (s.step = .unbalanced .blockComment s.offset ↔ ∀ text, text <+: s.rest → ¬IsComment text)) ∧
    (s.options.nestedBlockComments = false →
      (∀ text, (∃ t, s.step = .event ⟨.comment .block, s.offset, text⟩ t) ↔
        ∃ i, IsLeast {i | 2 ≤ i ∧ ['*', '/'] <+: s.rest.drop i} i ∧ text = s.rest.take (i + 2)) ∧
      (s.step = .unbalanced .blockComment s.offset ↔
        ∀ i, 2 ≤ i → ¬['*', '/'] <+: s.rest.drop i)) ∧
    Lexeme.countedLength? s.options.nestedBlockComments 1 (s.rest.drop 2) =
      some (Lexeme.blockCommentLength? s.options.nestedBlockComments 0 (s.rest.drop 2)) := by
  obtain ⟨cs, hcs⟩ := hopens
  have hrest : s.rest = '/' :: '*' :: cs := hcs.symm
  have hstep := Scanner.step_of_commentOpener hrest hapart henabled
  -- Either way a scanner takes a comment as far as its length says.
  have htaken (text : List Char) : (∃ t, s.step = .event ⟨.comment .block, s.offset, text⟩ t) ↔
      ∃ n, Lexeme.blockCommentLength? s.options.nestedBlockComments 0 cs = some n ∧
        text = '/' :: '*' :: cs.take n := by
    rw [hstep]
    cases Lexeme.blockCommentLength? s.options.nestedBlockComments 0 cs with
    | none => simp
    | some n => simp [eq_comm]
  have hopen : s.step = .unbalanced .blockComment s.offset ↔
      ∀ text, ¬∃ t, s.step = .event ⟨.comment .block, s.offset, text⟩ t := by
    rw [hstep]
    cases Lexeme.blockCommentLength? s.options.nestedBlockComments 0 cs with
    | none => simp
    | some n => simp
  refine ⟨fun hnested => ?_, fun hflat => ?_, Lexeme.countedLength?_eq _ 0 _⟩
  · have hcomment (text : List Char) :
        (∃ t, s.step = .event ⟨.comment .block, s.offset, text⟩ t) ↔
          text <+: s.rest ∧ IsComment text := by
      rw [htaken, hnested, hrest, Lexeme.blockCommentLength?_nested_iff]
    refine ⟨hcomment, ?_, ?_⟩
    · intro text text' hbegins hgrammar hbegins' hgrammar'
      obtain ⟨t, htext⟩ := (hcomment text).mpr ⟨hbegins, hgrammar⟩
      obtain ⟨t', htext'⟩ := (hcomment text').mpr ⟨hbegins', hgrammar'⟩
      rw [htext] at htext'
      cases htext'
      rfl
    · rw [hopen]
      exact forall_congr' fun text => by rw [hcomment, not_and]
  · have hclosed (text : List Char) :
        (∃ t, s.step = .event ⟨.comment .block, s.offset, text⟩ t) ↔
          ∃ i, IsLeast {i | 2 ≤ i ∧ ['*', '/'] <+: s.rest.drop i} i ∧
            text = s.rest.take (i + 2) := by
      rw [htaken, hflat, hrest]
      exact Lexeme.exists_blockCommentLength?_flat_iff
    refine ⟨hclosed, hopen.trans ⟨fun hnone i hi hcloses => ?_, fun hnone text htext => ?_⟩⟩
    · -- Where there is a closer, there is a first one, and the comment that it ends.
      have hsome : ∃ j, 2 ≤ j ∧ ['*', '/'] <+: s.rest.drop j := ⟨i, hi, hcloses⟩
      exact hnone _ ((hclosed _).mpr ⟨Nat.find hsome,
        ⟨Nat.find_spec hsome, fun _ hk => Nat.find_min' hsome hk⟩, rfl⟩)
    · obtain ⟨i, ⟨⟨htwo, hcloses⟩, -⟩, -⟩ := (hclosed text).mp htext
      exact hnone i htwo hcloses

/-- An opener and a closer do not share their slash, so that a comment is left open where comments
nest, and the whole of another one is a comment. -/
theorem block_comments_exact_overlapping :
    let nested : SplitOptions := { nestedBlockComments := true }
    let left := Scanner.start nested "/*/*/ a */ b".toList
    let whole := Scanner.start nested "/* a /*/ b */ **/ c".toList
    let flat := Scanner.start {} "/*/*/ a */ b".toList
    (['/', '*'] <+: left.rest ∧ left.atTerminator = false ∧
      ∀ text, text <+: "/*/*/ a */ b".toList → ¬IsComment text) ∧
    (['/', '*'] <+: whole.rest ∧ whole.atTerminator = false ∧
      IsComment "/* a /*/ b */ **/".toList) ∧
    ['/', '*'] <+: flat.rest ∧ flat.atTerminator = false ∧
      IsLeast {i | 2 ≤ i ∧ ['*', '/'] <+: "/*/*/ a */ b".toList.drop i} 3 := by
  intro nested left whole flat
  obtain ⟨hleft, -⟩ := block_comments_exact left (by decide) (by decide) rfl
  obtain ⟨-, -, hleft⟩ := hleft rfl
  obtain ⟨hwhole, -⟩ := block_comments_exact whole (by decide) (by decide) rfl
  obtain ⟨hwhole, -⟩ := hwhole rfl
  obtain ⟨-, hflat, -⟩ := block_comments_exact flat (by decide) (by decide) rfl
  obtain ⟨hflat, -⟩ := hflat rfl
  refine ⟨⟨by decide, by decide, hleft.mp (by decide +kernel)⟩, ⟨by decide, by decide, ?_⟩,
    by decide, by decide, ?_⟩
  · have hstep : whole.step = .event ⟨.comment .block, 0, "/* a /*/ b */ **/".toList⟩
        (whole.advance ⟨.comment .block, 0, "/* a /*/ b */ **/".toList⟩) := by decide +kernel
    exact ((hwhole _).mp ⟨_, hstep⟩).2
  · have hstep : flat.step = .event ⟨.comment .block, 0, "/*/*/".toList⟩
        (flat.advance ⟨.comment .block, 0, "/*/*/".toList⟩) := by decide +kernel
    obtain ⟨i, hi, htext⟩ := (hflat _).mp ⟨_, hstep⟩
    have hlength : min i 10 = 3 := by
      simpa [flat, Scanner.start] using (congrArg List.length htext).symm
    obtain rfl : i = 3 := by omega
    exact hi

end SqlBatch
