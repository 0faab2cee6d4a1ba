import SqlBatch.Proofs.Placeholder.Masked
import Mathlib.Data.List.Range

/-!
# Placeholders position by position

A placeholder can be told from the place where it starts, by the character before it and the text
from there on. The scan looks at fewer places, because it goes on behind what it has read, and it
tells casts from names by where it comes from. Still it finds what stands at each place: it reads
over word characters, where nothing starts, and over the second colon of a cast. Nor does it ever
come to a second colon that a name follows without having read the first.
-/

namespace SqlBatch

open Text

namespace Placeholders

/-- The placeholder that starts at a place of a blanked text, told by the character before the place
and the text from there on: a question mark; a dollar and all the digits behind it, of which there
is one at least, unless a letter, a digit or an underscore of ASCII stands before it; a colon and the
whole name behind it, unless a colon stands before it. -/
def standing? (previous : Option Char) : List Char → Option Token
  | '?' :: _ => some .positional
  | '$' :: cs =>
    if cs.head?.any Char.isDigit && !previous.any isWord then
      some (.numbered (cs.takeWhile Char.isDigit))
    else none
  | ':' :: cs =>
    if cs.head?.any isNameStart && previous != some ':' then some (.named (cs.takeWhile isWord))
    else none
  | _ => none

def standingAt? (masked : List Char) (i : Nat) : Option Token :=
  standing? (masked.take i).getLast? (masked.drop i)

/-- The placeholders at the places of a blanked text, one place after the other. -/
def placeholdersIn (masked : List Char) : List Token :=
  (List.range masked.length).filterMap (standingAt? masked)

theorem mem_placeholdersIn {before after : List Char} {token : Token}
    (h : standing? before.getLast? after = some token) : token ∈ placeholdersIn (before ++ after) := by
  have hlength : before.length < (before ++ after).length := by
    cases after with
    | nil => cases h
    | cons c after =>
        rw [List.length_append, List.length_cons]
        omega
  refine List.mem_filterMap.mpr ⟨before.length, List.mem_range.mpr hlength, ?_⟩
  rwa [standingAt?, List.take_left, List.drop_left]

/-! ### One place after the other -/

theorem standing?_eq_none {c : Char} (hquestion : c ≠ '?') (hdollar : c ≠ '$') (hcolon : c ≠ ':')
    (previous : Option Char) (cs : List Char) : standing? previous (c :: cs) = none := by
  unfold standing?
  split <;> simp_all

def standingFrom : Option Char → List Char → List Token
  | _, [] => []
  | previous, c :: cs => (standing? previous (c :: cs)).toList ++ standingFrom (some c) cs

private theorem filterMap_standing? (previous : Option Char) (cs : List Char) :
    ((List.range cs.length).filterMap fun i => standing? (lastOf previous (cs.take i)) (cs.drop i)) =
      standingFrom previous cs := by
  induction cs generalizing previous with
  | nil => rfl
  | cons c cs ih =>
      have hrest : (fun i => standing? (lastOf previous ((c :: cs).take i)) ((c :: cs).drop i)) ∘
          Nat.succ = fun i => standing? (lastOf (some c) (cs.take i)) (cs.drop i) := by
        funext i
        rw [Function.comp_apply, List.take_succ_cons, lastOf_cons, List.drop_succ_cons]
      have hfirst : standing? (lastOf previous ((c :: cs).take 0)) ((c :: cs).drop 0) =
          standing? previous (c :: cs) := rfl
      rw [List.length_cons, List.range_succ_eq_map, List.filterMap_cons, hfirst,
        List.filterMap_map, hrest, ih, standingFrom]
      cases standing? previous (c :: cs) <;> rfl

theorem placeholdersIn_eq (masked : List Char) : placeholdersIn masked = standingFrom none masked := by
  rw [placeholdersIn, ← filterMap_standing?]
  congr 1
  funext i
  rw [standingAt?, lastOf, Option.or_none]

private theorem standing?_of_isWord {c : Char} (hc : isWord c = true) (previous : Option Char)
    (cs : List Char) : standing? previous (c :: cs) = none := by
  apply standing?_eq_none
  all_goals
    rintro rfl
    cases hc

private theorem standing?_second_colon (cs : List Char) :
    standing? (some ':') (':' :: cs) = none := by
  simp [standing?]

theorem standingFrom_append {word : List Char} (hword : word.all isWord = true)
    (previous : Option Char) (after : List Char) :
    standingFrom previous (word ++ after) = standingFrom (lastOf previous word) after := by
  induction word generalizing previous with
  | nil => rfl
  | cons c word ih =>
      obtain ⟨hc, hword⟩ := Bool.and_eq_true_iff.mp ((List.all_cons ..).symm.trans hword)
      rw [List.cons_append, standingFrom, standing?_of_isWord hc, ih hword, lastOf_cons]
      rfl

private theorem tokensFrom_length_append (previous : Option Char) (read after : List Char) :
    tokensFrom read.length previous (read ++ after) =
      tokensFrom 0 (lastOf previous read) after := by
  induction read generalizing previous with
  | nil => rfl
  | cons c read ih =>
      rw [lastOf_cons]
      exact ih (some c)

/-! ### What the scan comes to -/

/-- No scan comes to a colon with a name from the colon before it: that would be a cast, which is
read as a whole. -/
def Uncast (previous : Option Char) (cs : List Char) : Prop :=
  previous = some ':' → cs.head? = some ':' → cs.tail.head?.any isNameStart = false

private theorem isEmpty_takeWhile (p : Char → Bool) (cs : List Char) :
    (cs.takeWhile p).isEmpty = !cs.head?.any p := by
  cases cs with
  | nil => rfl
  | cons c cs => cases hc : p c <;> simp [hc]

/-- Where the scan looks, it sees what stands there. -/
theorem standing?_eq_of_uncast {previous : Option Char} {c : Char} {cs : List Char}
    (h : Uncast previous (c :: cs)) :
    standing? previous (c :: cs) = (tokenAt? previous (c :: cs)).bind Prod.fst := by
  by_cases hdollar : c = '$'
  · subst hdollar
    simp only [standing?, tokenAt?, isEmpty_takeWhile]
    cases cs.head?.any Char.isDigit <;> cases previous.any isWord <;> rfl
  by_cases hcolon : c = ':'
  · subst hcolon
    by_cases hcast : cs.head? = some ':'
    · obtain ⟨cs, rfl⟩ := List.head?_eq_some_iff.mp hcast
      have hstart : (':' :: cs).head?.any isNameStart = false := rfl
      simp only [standing?, tokenAt?, hstart]
      cases cs.head?.any isNameStart <;> rfl
    · rw [tokenAt?_colon hcast]
      simp only [standing?]
      cases hname : cs.head?.any isNameStart with
      | false => rfl
      | true =>
          have hprevious : previous ≠ some ':' := by
            intro hprevious
            have hnot := h hprevious rfl
            rw [List.tail_cons, hname] at hnot
            cases hnot
          simp [hprevious]
  by_cases hquestion : c = '?'
  · rw [hquestion]
    rfl
  · rw [standing?_eq_none hquestion hdollar hcolon, tokenAt?_eq_none hquestion hdollar hcolon]
    rfl

private theorem uncast_of_tokenAt?_eq_none {previous : Option Char} {c : Char} {cs : List Char}
    (h : tokenAt? previous (c :: cs) = none) : Uncast (some c) cs := by
  intro hc hhead
  obtain rfl := Option.some.inj hc
  obtain ⟨cs, rfl⟩ := List.head?_eq_some_iff.mp hhead
  rw [List.tail_cons, ← Bool.not_eq_true]
  intro hname
  simp [tokenAt?, hname] at h

theorem uncast_of_word {previous : Option Char} {word : List Char} (hword : word.all isWord = true)
    (hprevious : word = [] → previous ≠ some ':') (cs : List Char) :
    Uncast (lastOf previous word) cs := by
  intro hlast
  rw [lastOf] at hlast
  cases hend : word.getLast? with
  | none =>
      rw [hend, Option.none_or] at hlast
      exact absurd hlast (hprevious (List.getLast?_eq_none_iff.mp hend))
  | some c =>
      rw [hend, Option.some_or] at hlast
      obtain rfl := Option.some.inj hlast
      exact absurd (List.all_eq_true.mp hword _ (List.mem_of_getLast? hend)) (by decide)

theorem tokensFrom_eq_standingFrom {previous : Option Char} {cs : List Char}
    (h : Uncast previous cs) : tokensFrom 0 previous cs = standingFrom previous cs := by
  -- The scan leaps over what it reads, so the induction is on the length of what is left.
  induction hlength : cs.length using Nat.strong_induction_on generalizing previous cs with
  | _ n ih =>
      cases cs with
      | nil => rfl
      | cons c cs =>
          rw [List.length_cons] at hlength
          rw [standingFrom, standing?_eq_of_uncast h, tokensFrom]
          cases hat : tokenAt? previous (c :: cs) with
          | none => exact ih cs.length (by omega) (uncast_of_tokenAt?_eq_none hat) rfl
          | some found =>
              obtain ⟨token?, length⟩ := found
              obtain ⟨read, after, rfl, rfl, hread⟩ := tokenAt?_eq_some hat
              rw [List.length_append] at hlength
              change token?.toList ++ tokensFrom read.length (some c) (read ++ after) =
                token?.toList ++ standingFrom (some c) (read ++ after)
              rw [tokensFrom_length_append]
              congr 1
              rcases hread with ⟨hword, hcolon⟩ | ⟨rfl, word, rfl, hword, hne⟩
              · rw [standingFrom_append hword]
                exact ih after.length (by omega)
                  (uncast_of_word hword (fun hnil hc => hcolon (Option.some.inj hc) hnil) after) rfl
              · rw [lastOf_cons, List.cons_append, standingFrom, standingFrom_append hword,
                  standing?_second_colon]
                exact ih after.length (by omega)
                  (uncast_of_word hword (fun hnil => absurd hnil hne) after) rfl

/-- The scan finds the placeholders that stand at the places of a blanked text. -/
theorem tokens_eq_placeholdersIn (masked : List Char) : tokens masked = placeholdersIn masked := by
  rw [placeholdersIn_eq]
  exact tokensFrom_eq_standingFrom fun hnone => by cases hnone

end Placeholders

end SqlBatch
