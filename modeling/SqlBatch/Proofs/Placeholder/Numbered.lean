import SqlBatch.Proofs.Placeholder.Tally

/-!
# Numbered placeholders and their values

A dollar with digits that stands by itself in a blanked text is a numbered placeholder. So the count
of the statement, which is the largest of the numbers that can be counted, is no less than its
number.
-/

namespace SqlBatch

open Text

namespace Placeholders

/-- A dollar with digits stands in a blanked text, with all its digits and not as part of a word. -/
def HasNumber (masked digits : List Char) : Prop :=
  ∃ before after, masked = before ++ '$' :: (digits ++ after) ∧ digits ≠ [] ∧
    digits.all Char.isDigit = true ∧ before.getLast?.any isWord = false ∧
    after.head?.any Char.isDigit = false

/-! ### Numbers that are read -/

private theorem standing?_dollar {previous : Option Char} {digits after : List Char}
    (hne : digits ≠ []) (hdigits : digits.all Char.isDigit = true)
    (hword : previous.any isWord = false) (hstop : after.head?.any Char.isDigit = false) :
    standing? previous ('$' :: (digits ++ after)) = some (.numbered digits) := by
  have htake : (digits ++ after).takeWhile Char.isDigit = digits := by
    rw [takeWhile_append_of_head? hstop, ← List.append_nil digits,
      List.takeWhile_append_of_pos (List.all_eq_true.mp hdigits), List.takeWhile_nil]
  have hhead : (digits ++ after).head?.any Char.isDigit = true := by
    obtain ⟨d, digits, rfl⟩ := List.exists_cons_of_ne_nil hne
    exact List.all_eq_true.mp hdigits d List.mem_cons_self
  simp only [standing?, htake, hhead, hword, Bool.not_false, Bool.and_self, if_true]

private theorem HasNumber.mem_tokens {masked digits : List Char} (h : HasNumber masked digits) :
    .numbered digits ∈ tokens masked := by
  obtain ⟨before, after, rfl, hne, hdigits, hword, hstop⟩ := h
  rw [tokens_eq_placeholdersIn]
  exact mem_placeholdersIn (standing?_dollar hne hdigits hword hstop)

/-! ### Numbers that are counted -/

private theorem digitsValue_le_count {found : List Token} {result : Placeholders}
    {digits : List Char} (h : ofTokens found = .ok result) (hmem : .numbered digits ∈ found)
    (hlimit : digitsValue digits < numberLimit) : digitsValue digits ≤ result.count := by
  have htally := tally_of_ofTokens h
  have hkind := htally.kind_eq _ hmem
  cases htally with
  | numbered some all greatest =>
      exact greatest.2 (Set.mem_insert_of_mem 0 ⟨digits, hmem, rfl, hlimit⟩)
  | none | positional | named => cases hkind

/-- The count of a statement reaches every number in it that can be counted. -/
theorem digitsValue_le_of_extract {options : SplitOptions} {sql : String} {found : Placeholders}
    (h : extract options sql = .ok found) :
    ∃ masked, mask options sql.toList = .ok masked ∧ ∀ digits, HasNumber masked digits →
      digitsValue digits < numberLimit → digitsValue digits ≤ found.count := by
  obtain ⟨masked, hmask, htokens⟩ := exists_of_bind_eq_ok h
  exact ⟨masked, hmask, fun digits hnumber hlimit =>
    digitsValue_le_count htokens hnumber.mem_tokens hlimit⟩

end Placeholders

namespace Script

theorem extract_of_mem_withPlaceholdersFrom {options : SplitOptions} {index : Nat}
    {statements found : List Statement}
    (h : withPlaceholdersFrom options index statements = .ok found) {s : Statement}
    (hs : s ∈ found) :
    ∃ placeholders, Placeholders.extract options s.text = .ok placeholders ∧
      s.placeholderCount = some placeholders.count := by
  induction statements generalizing index found with
  | nil =>
      cases h
      exact absurd hs List.not_mem_nil
  | cons first rest ih =>
      rw [withPlaceholdersFrom] at h
      split at h
      · cases h
      · rename_i placeholders hextract
        obtain ⟨others, hrest, hfound⟩ := exists_of_bind_eq_ok h
        cases hfound
        rcases List.mem_cons.mp hs with rfl | hs
        · exact ⟨placeholders, hextract, rfl⟩
        · exact ih hrest hs

theorem extract_of_mem_splitWithPlaceholders {options : SplitOptions} {script : String}
    {statements : List Statement} (h : splitWithPlaceholders options script = .ok statements)
    {s : Statement} (hs : s ∈ statements) :
    ∃ placeholders, Placeholders.extract options s.text = .ok placeholders ∧
      s.placeholderCount = some placeholders.count := by
  obtain ⟨split, -, hfrom⟩ := exists_of_bind_eq_ok h
  exact extract_of_mem_withPlaceholdersFrom hfrom hs

end Script

end SqlBatch
