import SqlBatch.Placeholder.Extract
import SqlBatch.Proofs.Script.Seam
import SqlBatch.Proofs.Script.Trim

/-!
# Placeholders between mute characters

No placeholder goes on at a mute character, and none starts at one. So the placeholders of a text
are those of its parts between mute characters, and how many mute characters there are in a row, or
which ones, makes no difference.
-/

namespace SqlBatch

namespace Text

theorem isWord_of_isDigit {c : Char} (h : c.isDigit = true) : isWord c = true := by
  simp [isWord, Char.isAlphanum, h]

theorem isWord_of_isNameStart {c : Char} (h : isNameStart c = true) : isWord c = true := by
  simp only [isNameStart, Bool.or_eq_true] at h
  rcases h with h | h <;> simp [isWord, Char.isAlphanum, h]

theorem not_isWord_of_isMute {c : Char} (h : isMute c = true) : isWord c = false := by
  simp only [isMute, Bool.and_eq_true, Bool.not_eq_true'] at h
  exact h.1

theorem isMute_of_isBlank {c : Char} (h : isBlank c = true) : isMute c = true := by
  have hword : isWord c = false := by
    rw [← Bool.not_eq_true]
    intro hword
    rw [not_isBlank_of_isWord hword] at h
    cases h
  simp only [isMute, hword, List.contains_eq_mem, List.mem_cons, List.not_mem_nil, or_false,
    Bool.not_false, Bool.true_and, Bool.not_eq_true', decide_eq_false_iff_not]
  rintro (rfl | rfl | rfl | rfl | rfl | rfl | rfl | rfl) <;> cases h

end Text

namespace Placeholders

open Text

/-! ### One placeholder -/

theorem tokenAt?_eq_none {c : Char} (hquestion : c ≠ '?') (hdollar : c ≠ '$') (hcolon : c ≠ ':')
    (previous : Option Char) (cs : List Char) : tokenAt? previous (c :: cs) = none := by
  unfold tokenAt?
  split <;> simp_all

private theorem tokenAt?_of_isMute {c : Char} (hc : isMute c = true) (previous : Option Char)
    (cs : List Char) : tokenAt? previous (c :: cs) = none := by
  apply tokenAt?_eq_none
  all_goals
    rintro rfl
    cases hc

theorem tokenAt?_colon {cs : List Char} (h : cs.head? ≠ some ':') (previous : Option Char) :
    tokenAt? previous (':' :: cs) =
      if cs.head?.any isNameStart then
        some (some (.named (cs.takeWhile isWord)), (cs.takeWhile isWord).length + 1)
      else none := by
  unfold tokenAt?
  split <;> simp_all

theorem tokenAt?_eq_some {previous : Option Char} {c : Char} {cs : List Char}
    {token? : Option Token} {n : Nat} (h : tokenAt? previous (c :: cs) = some (token?, n)) :
    ∃ read after, cs = read ++ after ∧ n = read.length + 1 ∧
      (read.all isWord = true ∧ (c = ':' → read ≠ []) ∨
        c = ':' ∧ ∃ word, read = ':' :: word ∧ word.all isWord = true ∧ word ≠ []) := by
  have hdigits (cs : List Char) : (cs.takeWhile Char.isDigit).all isWord = true :=
    List.all_eq_true.mpr fun d hd =>
      isWord_of_isDigit (List.all_eq_true.mp List.all_takeWhile d hd)
  have hname {cs : List Char} (h : cs.head?.any isNameStart = true) : cs.takeWhile isWord ≠ [] := by
    cases cs with
    | nil => cases h
    | cons d cs =>
        have hd : isWord d = true := isWord_of_isNameStart h
        rw [List.takeWhile_cons, if_pos hd]
        exact List.cons_ne_nil d _
  unfold tokenAt? at h
  split at h
  · rename_i heq
    obtain ⟨rfl, rfl⟩ := List.cons.inj heq
    cases h
    exact ⟨[], cs, rfl, rfl, .inl ⟨rfl, fun hcolon => by cases hcolon⟩⟩
  · rename_i heq
    obtain ⟨rfl, rfl⟩ := List.cons.inj heq
    dsimp only at h
    split at h
    · cases h
    split at h <;>
    · cases h
      exact ⟨_, _, List.takeWhile_append_dropWhile.symm, rfl,
        .inl ⟨hdigits _, fun hcolon => by cases hcolon⟩⟩
  · rename_i cs heq
    obtain ⟨rfl, rfl⟩ := List.cons.inj heq
    split at h
    · rename_i hstart
      cases h
      refine ⟨':' :: cs.takeWhile isWord, cs.dropWhile isWord, ?_, rfl,
        .inr ⟨rfl, _, rfl, List.all_takeWhile, hname hstart⟩⟩
      rw [List.cons_append, List.takeWhile_append_dropWhile]
    · cases h
  · rename_i heq
    obtain ⟨rfl, rfl⟩ := List.cons.inj heq
    split at h
    · rename_i hstart
      cases h
      exact ⟨_, _, List.takeWhile_append_dropWhile.symm, rfl,
        .inl ⟨List.all_takeWhile, fun _ => hname hstart⟩⟩
    · cases h
  · cases h

private theorem length_tokenAt? {previous : Option Char} {c : Char} {cs : List Char}
    {token? : Option Token} {n : Nat} (h : tokenAt? previous (c :: cs) = some (token?, n)) :
    n ≤ cs.length + 1 := by
  obtain ⟨read, after, rfl, rfl, -⟩ := tokenAt?_eq_some h
  rw [List.length_append]
  omega

theorem tokenAt?_append {c : Char} (hc : isMute c = true) (previous : Option Char) (x : Char)
    (xs ys : List Char) :
    tokenAt? previous (x :: (xs ++ c :: ys)) = tokenAt? previous (x :: xs) := by
  have hword : isWord c = false := not_isWord_of_isMute hc
  have hdigit : c.isDigit = false := by
    rw [← Bool.not_eq_true]
    intro hdigit
    rw [isWord_of_isDigit hdigit] at hword
    cases hword
  have hstart (cs : List Char) : (cs ++ c :: ys).head?.any isNameStart =
      cs.head?.any isNameStart := by
    cases cs with
    | nil =>
        change isNameStart c = false
        rw [← Bool.not_eq_true]
        intro hname
        rw [isWord_of_isNameStart hname] at hword
        cases hword
    | cons => rfl
  have hdigits := takeWhile_append_stop hdigit
  have hname := takeWhile_append_stop hword
  by_cases hdollar : x = '$'
  · subst hdollar
    simp only [tokenAt?, hdigits]
  by_cases hcolon : x = ':'
  · subst hcolon
    by_cases hcast : xs.head? = some ':'
    · obtain ⟨xs, rfl⟩ := List.head?_eq_some_iff.mp hcast
      simp only [tokenAt?, List.cons_append, hstart, hname]
    · have hcast' : (xs ++ c :: ys).head? ≠ some ':' := by
        cases xs with
        | nil =>
            rintro ⟨⟩
            cases hc
        | cons => exact hcast
      rw [tokenAt?_colon hcast, tokenAt?_colon hcast', hstart, hname]
  · by_cases hquestion : x = '?'
    · rw [hquestion]
      rfl
    · rw [tokenAt?_eq_none hquestion hdollar hcolon, tokenAt?_eq_none hquestion hdollar hcolon]

/-! ### The placeholders of a text -/

private theorem tokensFrom_congr_previous {previous previous' : Option Char}
    (h : previous.any isWord = previous'.any isWord) (skip : Nat) (cs : List Char) :
    tokensFrom skip previous cs = tokensFrom skip previous' cs := by
  cases cs with
  | nil => cases skip <;> rfl
  | cons c cs =>
      have hat : tokenAt? previous (c :: cs) = tokenAt? previous' (c :: cs) := by
        unfold tokenAt?
        simp only [h]
      cases skip with
      | zero => simp only [tokensFrom, hat]
      | succ skip => rfl

/-- The placeholders of a text are those before a mute character and those behind it. -/
theorem tokensFrom_append {c : Char} (hc : isMute c = true) {skip : Nat} {xs : List Char}
    (hskip : skip ≤ xs.length) (previous : Option Char) (ys : List Char) :
    tokensFrom skip previous (xs ++ c :: ys) =
      tokensFrom skip previous xs ++ tokensFrom 0 (some c) ys := by
  induction xs generalizing skip previous with
  | nil =>
      obtain rfl : skip = 0 := Nat.le_zero.mp hskip
      change tokensFrom 0 previous (c :: ys) = tokensFrom 0 (some c) ys
      rw [tokensFrom, tokenAt?_of_isMute hc]
  | cons x xs ih =>
      cases skip with
      | succ skip => exact ih (Nat.le_of_succ_le_succ hskip) (some x)
      | zero =>
          rw [List.cons_append, tokensFrom, tokensFrom, tokenAt?_append hc]
          split
          · exact ih (Nat.zero_le _) (some x)
          · rename_i token? n hat
            have hle := length_tokenAt? hat
            rw [ih (by omega), List.append_assoc]

theorem tokensFrom_append_mutes {mutes : List Char} (hmutes : mutes.all isMute = true)
    (hne : mutes ≠ []) (previous : Option Char) (xs ys : List Char) :
    tokensFrom 0 previous (xs ++ (mutes ++ ys)) = tokensFrom 0 previous xs ++ tokens ys := by
  induction mutes generalizing previous xs with
  | nil => exact absurd rfl hne
  | cons c mutes ih =>
      obtain ⟨hc, hrest⟩ := Bool.and_eq_true_iff.mp ((List.all_cons ..).symm.trans hmutes)
      rw [List.cons_append, tokensFrom_append hc (Nat.zero_le _)]
      congr 1
      cases mutes with
      | nil =>
          have hword : (some c).any isWord = (none : Option Char).any isWord :=
            not_isWord_of_isMute hc
          exact tokensFrom_congr_previous hword 0 ys
      | cons d mutes => exact ih hrest (List.cons_ne_nil d mutes) (some c) []

theorem tokens_mutes_append {mutes : List Char} (hmutes : mutes.all isMute = true)
    (ys : List Char) : tokens (mutes ++ ys) = tokens ys := by
  by_cases hne : mutes = []
  · rw [hne, List.nil_append]
  · exact tokensFrom_append_mutes hmutes hne none [] ys

theorem tokens_append_mutes {mutes : List Char} (hmutes : mutes.all isMute = true)
    (xs : List Char) : tokens (xs ++ mutes) = tokens xs := by
  by_cases hne : mutes = []
  · rw [hne, List.append_nil]
  · have h := tokensFrom_append_mutes hmutes hne none xs []
    rwa [List.append_nil, tokens, tokensFrom, List.append_nil] at h

/-! ### Texts with the same placeholders -/

/-- Texts one of which can stand for the other without changing any placeholder, here or around. -/
def Respaced (xs ys : List Char) : Prop :=
  ∀ before after, tokens (before ++ (xs ++ after)) = tokens (before ++ (ys ++ after))

namespace Respaced

theorem refl (xs : List Char) : Respaced xs xs := fun _ _ => rfl

theorem append {xs ys xs' ys' : List Char} (h : Respaced xs ys) (h' : Respaced xs' ys') :
    Respaced (xs ++ xs') (ys ++ ys') := by
  intro before after
  calc tokens (before ++ (xs ++ xs' ++ after))
      = tokens (before ++ (xs ++ (xs' ++ after))) := by rw [List.append_assoc]
    _ = tokens (before ++ (ys ++ (xs' ++ after))) := h before (xs' ++ after)
    _ = tokens (before ++ ys ++ (xs' ++ after)) := by rw [List.append_assoc]
    _ = tokens (before ++ ys ++ (ys' ++ after)) := h' (before ++ ys) after
    _ = tokens (before ++ (ys ++ ys' ++ after)) := by simp only [List.append_assoc]

theorem of_isMute {xs ys : List Char} (hxs : xs.all isMute = true) (hys : ys.all isMute = true)
    (hxs' : xs ≠ []) (hys' : ys ≠ []) : Respaced xs ys := by
  intro before after
  rw [tokens, tokens, tokensFrom_append_mutes hxs hxs', tokensFrom_append_mutes hys hys']

theorem tokens_eq {xs ys : List Char} (h : Respaced xs ys) : tokens xs = tokens ys := by
  have h := h [] []
  rwa [List.nil_append, List.nil_append, List.append_nil, List.append_nil] at h

end Respaced

end Placeholders

end SqlBatch
