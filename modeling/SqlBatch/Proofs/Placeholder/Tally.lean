import SqlBatch.Proofs.Failing
import SqlBatch.Proofs.Placeholder.Positions
import Mathlib.Order.Bounds.Basic

/-!
# What the placeholders of a statement come to

The placeholders of a statement are taken one by one, and what they come to is told of all of them
at once: how many question marks there are, which number is the largest, which names there are and
in which order they first stand. Placeholders of two styles are an error, at the first one that does
not have the style of the first. Together with the places where placeholders stand this says what is
found in a statement, whatever the scan went through to find it.
-/

namespace SqlBatch

open Text

namespace Placeholders

/-! ### One more placeholder -/

private theorem Token.kind_ne_none (token : Token) : token.kind ≠ .none := by
  cases token <;> exact nofun

theorem add_of_kind {found : Placeholders} {token : Token}
    (h : found.kind = .none ∨ found.kind = token.kind) :
    ∃ next, found.add token = .ok next ∧ next.kind = token.kind := by
  unfold add
  rw [if_pos h]
  cases token <;> exact ⟨_, rfl, rfl⟩

private theorem add_of_kind_ne {found : Placeholders} {token : Token} (hfound : found.kind ≠ .none)
    (h : token.kind ≠ found.kind) :
    found.add token = .error (.mixedPlaceholders 0 found.kind token.kind) :=
  if_neg (not_or.mpr ⟨hfound, h.symm⟩)

/-! ### Placeholders of two styles -/

private theorem foldlM_add_eq_error_iff {before : Placeholders} (hbefore : before.kind ≠ .none)
    {found : List Token} {e : SplitError} : found.foldlM add before = .error e ↔
      FirstAt (fun t => t.kind = before.kind)
        (fun _ t => t.kind ≠ before.kind ∧ e = .mixedPlaceholders 0 before.kind t.kind) found := by
  induction found generalizing before with
  | nil => exact ⟨(by cases ·), fun h => absurd h not_firstAt_nil⟩
  | cons token found ih =>
      rw [firstAt_cons, List.foldlM_cons]
      by_cases hkind : token.kind = before.kind
      · obtain ⟨next, hadd, hnext⟩ := add_of_kind (.inr hkind.symm)
        have hsame : next.kind = before.kind := hnext.trans hkind
        rw [hadd]
        refine (ih (hsame ▸ hbefore)).trans ?_
        simp only [hsame, hkind, ne_eq, not_true_eq_false, false_and, true_and, false_or]
      · rw [add_of_kind_ne hbefore hkind]
        simp [hkind, bind, Except.bind, @eq_comm _ e]

/-- Placeholders of two styles are an error, with the style of the first and the style of the first
that has another one. -/
theorem ofTokens_eq_error_iff {found : List Token} {e : SplitError} :
    ofTokens found = .error e ↔
      ∃ first same other after, found = first :: (same ++ other :: after) ∧
        (∀ t ∈ same, t.kind = first.kind) ∧ other.kind ≠ first.kind ∧
        e = .mixedPlaceholders 0 first.kind other.kind := by
  cases found with
  | nil =>
      refine ⟨(by cases ·), ?_⟩
      rintro ⟨first, same, other, after, hfound, -⟩
      cases hfound
  | cons first found =>
      obtain ⟨next, hadd, hnext⟩ := @add_of_kind {} first (.inl rfl)
      have hrest : ofTokens (first :: found) = found.foldlM add next := by
        rw [ofTokens, List.foldlM_cons, hadd]
        rfl
      rw [hrest, foldlM_add_eq_error_iff (hnext ▸ first.kind_ne_none), hnext]
      constructor
      · rintro ⟨same, other, after, rfl, hsame, hother, he⟩
        exact ⟨first, same, other, after, rfl, hsame, hother, he⟩
      · rintro ⟨first', same, other, after, hfound, hsame, hother, he⟩
        obtain ⟨rfl, rfl⟩ := List.cons.inj hfound
        exact ⟨same, other, after, rfl, hsame, hother, he⟩

theorem exists_ofTokens_eq_error_iff {found : List Token} :
    (∃ e, ofTokens found = .error e) ↔ ∃ s ∈ found, ∃ t ∈ found, s.kind ≠ t.kind := by
  constructor
  · rintro ⟨e, herror⟩
    obtain ⟨first, same, other, after, rfl, -, hother, -⟩ := ofTokens_eq_error_iff.mp herror
    exact ⟨other, by simp, first, by simp, hother⟩
  · rintro ⟨s, hs, t, ht, hne⟩
    obtain ⟨first, found, rfl⟩ := List.exists_cons_of_ne_nil (List.ne_nil_of_mem hs)
    rcases forall_or_firstAt (fun t => t.kind = first.kind) found with hall | hfirst
    · have hkind : ∀ t ∈ first :: found, t.kind = first.kind := List.forall_mem_cons.mpr ⟨rfl, hall⟩
      exact absurd ((hkind s hs).trans (hkind t ht).symm) hne
    · obtain ⟨same, other, after, rfl, hsame, hother⟩ := hfirst
      exact ⟨_, ofTokens_eq_error_iff.mpr
        ⟨first, same, other, after, rfl, hsame, hother, rfl⟩⟩

/-! ### Placeholders of one style -/

def numbersIn (found : List Token) : Set Nat :=
  { n | ∃ digits, .numbered digits ∈ found ∧ digitsValue digits = n ∧ n < numberLimit }

theorem numbersIn_concat (found : List Token) (digits : List Char) :
    numbersIn (found ++ [.numbered digits]) =
      if digitsValue digits < numberLimit then insert (digitsValue digits) (numbersIn found)
      else numbersIn found := by
  ext n
  have hmem : n ∈ numbersIn (found ++ [.numbered digits]) ↔
      n ∈ numbersIn found ∨ n = digitsValue digits ∧ digitsValue digits < numberLimit := by
    constructor
    · rintro ⟨other, hmem, rfl, hlimit⟩
      rcases List.mem_append.mp hmem with hmem | hmem
      · exact .inl ⟨other, hmem, rfl, hlimit⟩
      · obtain rfl := Token.numbered.inj (List.mem_singleton.mp hmem)
        exact .inr ⟨rfl, hlimit⟩
    · rintro (⟨other, hmem, rfl, hlimit⟩ | ⟨rfl, hlimit⟩)
      · exact ⟨other, List.mem_append_left _ hmem, rfl, hlimit⟩
      · exact ⟨digits, List.mem_append_right _ (List.mem_singleton_self _), rfl, hlimit⟩
  rw [hmem]
  split
  · rename_i hlimit
    rw [Set.mem_insert_iff, and_iff_left hlimit, or_comm]
  · rename_i hlimit
    exact or_iff_left fun h => hlimit h.2

/-- The names among some placeholders, each where it first stands. -/
structure Firsts (found : List Token) (names : List String) : Prop where
  mem : ∀ name, name ∈ names ↔ .named name.toList ∈ found
  sorted : names.Pairwise fun a b =>
    found.idxOf (Token.named a.toList) < found.idxOf (Token.named b.toList)

private theorem Firsts.nodup {found : List Token} {names : List String} (h : Firsts found names) :
    names.Nodup := h.sorted.imp fun hlt heq => by
  rw [heq] at hlt
  exact absurd hlt (Nat.lt_irrefl _)

theorem Firsts.concat {found : List Token} {names : List String} (h : Firsts found names)
    (name : List Char) : Firsts (found ++ [.named name])
      (if String.ofList name ∈ names then names else names ++ [String.ofList name]) := by
  have hold : names.Pairwise fun a b =>
      (found ++ [Token.named name]).idxOf (Token.named a.toList) <
        (found ++ [Token.named name]).idxOf (Token.named b.toList) := by
    refine h.sorted.imp_of_mem fun ha hb hlt => ?_
    rwa [List.idxOf_append_of_mem ((h.mem _).mp ha), List.idxOf_append_of_mem ((h.mem _).mp hb)]
  have hmem (other : String) : .named other.toList ∈ found ++ [Token.named name] ↔
      other ∈ names ∨ other = String.ofList name := by
    rw [List.mem_append, List.mem_singleton, ← h.mem, Token.named.injEq, String.ext_iff,
      String.toList_ofList]
  split
  · rename_i hknown
    refine ⟨fun other => ?_, hold⟩
    rw [hmem]
    exact ⟨.inl, fun h => h.elim id fun heq => heq ▸ hknown⟩
  · rename_i hnew
    refine ⟨fun other => ?_, ?_⟩
    · rw [hmem, List.mem_append, List.mem_singleton]
    · refine List.pairwise_append.mpr ⟨hold, List.pairwise_singleton _ _, fun a ha b hb => ?_⟩
      -- A new name stands last, behind all the old ones.
      obtain rfl := List.mem_singleton.mp hb
      have hlast : Token.named (String.ofList name).toList ∉ found := (h.mem _).not.mp hnew
      rw [List.idxOf_append_of_mem ((h.mem a).mp ha), List.idxOf_append_of_notMem hlast]
      have hlt := List.idxOf_lt_length_of_mem ((h.mem a).mp ha)
      omega

/-- What placeholders come to. -/
inductive Tally : List Token → Placeholders → Prop
  | none : Tally [] { kind := .none, count := 0, names := [] }
  | positional {found : List Token} (some : found ≠ []) (all : ∀ t ∈ found, t.kind = .positional) :
      Tally found { kind := .positional, count := found.length, names := [] }
  | numbered {found : List Token} {count : Nat} (some : found ≠ [])
      (all : ∀ t ∈ found, t.kind = .numbered)
      (greatest : IsGreatest (insert 0 (numbersIn found)) count) :
      Tally found { kind := .numbered, count, names := [] }
  | named {found : List Token} {names : List String} (some : found ≠ [])
      (all : ∀ t ∈ found, t.kind = .named) (firsts : Firsts found names) :
      Tally found { kind := .named, count := names.length, names }

namespace Tally

variable {found : List Token} {result : Placeholders}

theorem kind_eq (h : Tally found result) : ∀ t ∈ found, t.kind = result.kind := by
  cases h with
  | none => exact fun _ hmem => absurd hmem List.not_mem_nil
  | positional some all | numbered some all | named some all => exact all

theorem eq_nil_iff (h : Tally found result) : found = [] ↔ result.kind = .none := by
  cases h with
  | none => exact ⟨fun _ => rfl, fun _ => rfl⟩
  | positional some | numbered some | named some =>
      exact ⟨fun hnil => absurd hnil some, fun hkind => by cases hkind⟩

theorem concat (h : Tally found result) {token : Token} {next : Placeholders}
    (hadd : result.add token = .ok next) : Tally (found ++ [token]) next := by
  unfold add at hadd
  split at hadd
  swap
  · cases hadd
  rename_i hkind
  have hsome : found ++ [token] ≠ [] := List.append_ne_nil_of_right_ne_nil _ (List.cons_ne_nil _ _)
  have hall : ∀ t ∈ found ++ [token], t.kind = token.kind := by
    intro t ht
    rcases List.mem_append.mp ht with ht | ht
    · rcases hkind with hnone | hkind
      · rw [h.eq_nil_iff.mpr hnone] at ht
        cases ht
      · exact (h.kind_eq t ht).trans hkind
    · rw [List.mem_singleton.mp ht]
  cases token with
  | positional =>
      cases hadd
      have hcount : result.count = found.length ∧ result.names = [] := by
        cases h with
        | none | positional => exact ⟨rfl, rfl⟩
        | numbered | named => rcases hkind with hkind | hkind <;> cases hkind
      rw [hcount.1, hcount.2]
      have hlength : found.length + 1 = (found ++ [Token.positional]).length := by simp
      rw [hlength]
      exact .positional hsome hall
  | numbered digits =>
      cases hadd
      have hcount : IsGreatest (insert 0 (numbersIn found)) result.count ∧ result.names = [] := by
        cases h with
        | none => exact ⟨by simp [numbersIn, IsGreatest, upperBounds], rfl⟩
        | numbered some all greatest => exact ⟨greatest, rfl⟩
        | positional | named => rcases hkind with hkind | hkind <;> cases hkind
      rw [hcount.2]
      refine .numbered hsome hall ?_
      rw [numbersIn_concat]
      split
      · rw [Set.insert_comm, max_comm]
        exact hcount.1.insert _
      · exact hcount.1
  | named name =>
      cases hadd
      have hnames : Firsts found result.names := by
        cases h with
        | none => exact ⟨fun name => by simp, .nil⟩
        | named some all firsts => exact firsts
        | positional | numbered => rcases hkind with hkind | hkind <;> cases hkind
      exact .named hsome hall (hnames.concat name)

private theorem foldlM_add {before : Placeholders} {more : List Token} (h : Tally found before)
    (hmore : more.foldlM add before = .ok result) : Tally (found ++ more) result := by
  induction more generalizing found before with
  | nil =>
      cases hmore
      rwa [List.append_nil]
  | cons token more ih =>
      rw [List.foldlM_cons] at hmore
      obtain ⟨next, hadd, hrest⟩ := exists_of_bind_eq_ok hmore
      rw [List.append_cons]
      exact ih (h.concat hadd) hrest

end Tally

/-- What is found is what the placeholders come to. -/
theorem tally_of_ofTokens {found : List Token} {result : Placeholders}
    (h : ofTokens found = .ok result) : Tally found result := Tally.none.foldlM_add h

theorem exists_tally {found : List Token} (hsome : found ≠ []) {kind : PlaceholderKind}
    (hall : ∀ t ∈ found, t.kind = kind) : ∃ result,
      ofTokens found = .ok result ∧ Tally found result ∧ result.kind = kind := by
  cases hfound : ofTokens found with
  | ok result =>
      have htally := tally_of_ofTokens hfound
      obtain ⟨t, ht⟩ := List.exists_mem_of_ne_nil found hsome
      exact ⟨result, rfl, htally, (htally.kind_eq t ht).symm.trans (hall t ht)⟩
  | error e =>
      obtain ⟨s, hs, t, ht, hne⟩ := exists_ofTokens_eq_error_iff.mp ⟨e, hfound⟩
      exact absurd ((hall s hs).trans (hall t ht).symm) hne

private theorem ofTokens_of_positional {found : List Token} (hsome : found ≠ [])
    (hall : ∀ t ∈ found, t.kind = .positional) :
    ofTokens found = .ok { kind := .positional, count := found.count .positional, names := [] } := by
  obtain ⟨result, hok, htally, hkind⟩ := exists_tally hsome hall
  have hcount : found.count .positional = found.length := by
    refine List.count_eq_length.mpr fun t ht => ?_
    have hpositional := hall t ht
    cases t with
    | positional => rfl
    | numbered | named => cases hpositional
  rw [hok, hcount]
  cases htally with
  | positional => rfl
  | none | numbered | named => cases hkind

theorem ofTokens_of_numbered {found : List Token} (hsome : found ≠ [])
    (hall : ∀ t ∈ found, t.kind = .numbered)
    (hlimit : ∀ digits, .numbered digits ∈ found → digitsValue digits < numberLimit) :
    ∃ count, ofTokens found = .ok { kind := .numbered, count, names := [] } ∧
      IsGreatest { n | ∃ digits, .numbered digits ∈ found ∧ digitsValue digits = n } count := by
  obtain ⟨result, hok, htally, hkind⟩ := exists_tally hsome hall
  rw [hok]
  cases htally with
  | none | positional | named => cases hkind
  | @numbered _ count _ _ greatest =>
      obtain ⟨hmem, hle⟩ := greatest
      have hupper (digits : List Char) (hdigits : .numbered digits ∈ found) :
          digitsValue digits ≤ count :=
        hle (Set.mem_insert_of_mem 0 ⟨digits, hdigits, rfl, hlimit digits hdigits⟩)
      refine ⟨count, rfl, ?_, ?_⟩
      · rcases hmem with rfl | ⟨digits, hdigits, hvalue, -⟩
        · -- No number is above zero, and there is one.
          obtain ⟨t, ht⟩ := List.exists_mem_of_ne_nil found hsome
          have hnumbered := hall t ht
          cases t with
          | numbered digits => exact ⟨digits, ht, Nat.le_zero.mp (hupper digits ht)⟩
          | positional | named => cases hnumbered
        · exact ⟨digits, hdigits, hvalue⟩
      · rintro n ⟨digits, hdigits, rfl⟩
        exact hupper digits hdigits

private theorem ofTokens_of_named {found : List Token} (hsome : found ≠ [])
    (hall : ∀ t ∈ found, t.kind = .named) :
    ∃ names, ofTokens found = .ok { kind := .named, count := names.length, names } ∧
      Firsts found names := by
  obtain ⟨result, hok, htally, hkind⟩ := exists_tally hsome hall
  rw [hok]
  cases htally with
  | named _ _ firsts => exact ⟨_, rfl, firsts⟩
  | none | positional | numbered => cases hkind

/-! ### The placeholders of a text -/

private theorem count_standing? (previous : Option Char) (c : Char) (cs : List Char) :
    (standing? previous (c :: cs)).toList.count .positional = if c = '?' then 1 else 0 := by
  by_cases hquestion : c = '?'
  · rw [hquestion]
    rfl
  · rw [if_neg hquestion]
    unfold standing?
    split
    · rename_i heq
      exact absurd (List.cons.inj heq).1 hquestion
    · split <;> rfl
    · split <;> rfl
    · rfl

private theorem count_placeholdersIn (masked : List Char) :
    (placeholdersIn masked).count .positional = masked.count '?' := by
  rw [placeholdersIn_eq]
  generalize (none : Option Char) = previous
  induction masked generalizing previous with
  | nil => rfl
  | cons c cs ih =>
      rw [standingFrom, List.count_append, count_standing?, ih, List.count_cons, Nat.add_comm]
      simp only [beq_iff_eq]

variable {options : SplitOptions} {sql : String}

theorem extract_eq_ofTokens
    (hscan : (scan (scanOptions options) sql.toList).ending = .complete) :
    extract options sql = ofTokens
      (placeholdersIn ((scan (scanOptions options) sql.toList).events.flatMap maskEvent)) := by
  have hmask : mask options sql.toList =
      .ok ((scan (scanOptions options) sql.toList).events.flatMap maskEvent) := by
    simp only [mask, Scan.error?, hscan]
  rw [extract, hmask, ← tokens_eq_placeholdersIn]
  rfl

/-- What is found in a statement is told by what stands at the places of its blanked text. Nothing
is found if nothing stands there, and placeholders of two styles are an error, with the style of the
first and the style of the first that has another one. Otherwise all have one style, and there are
as many values as question marks, as the largest number says, or as there are names, each of which
is found once and in the order in which they first stand. -/
theorem extract_by_position
    (hscan : (scan (scanOptions options) sql.toList).ending = .complete) :
    let masked := (scan (scanOptions options) sql.toList).events.flatMap maskEvent
    let found := placeholdersIn masked
    (extract options sql = .ok { kind := .none, count := 0, names := [] } ↔ found = []) ∧
    ((∃ e, extract options sql = .error e) ↔ ∃ s ∈ found, ∃ t ∈ found, s.kind ≠ t.kind) ∧
    (∀ e, extract options sql = .error e ↔
      ∃ first same other after, found = first :: (same ++ other :: after) ∧
        (∀ t ∈ same, t.kind = first.kind) ∧ other.kind ≠ first.kind ∧
        e = .mixedPlaceholders 0 first.kind other.kind) ∧
    (found ≠ [] → (∀ t ∈ found, t.kind = .positional) →
      extract options sql = .ok { kind := .positional, count := masked.count '?', names := [] }) ∧
    (found ≠ [] → (∀ t ∈ found, t.kind = .numbered) →
      (∀ digits, .numbered digits ∈ found → digitsValue digits < numberLimit) →
      ∃ count, extract options sql = .ok { kind := .numbered, count, names := [] } ∧
        IsGreatest { n | ∃ digits, .numbered digits ∈ found ∧ digitsValue digits = n } count) ∧
    (found ≠ [] → (∀ t ∈ found, t.kind = .named) →
      ∃ names, extract options sql = .ok { kind := .named, count := names.length, names } ∧
        names.Nodup ∧ (∀ name, name ∈ names ↔ .named name.toList ∈ found) ∧
        names.Pairwise fun a b =>
          found.idxOf (.named a.toList) < found.idxOf (.named b.toList)) := by
  intro masked found
  have hextract : extract options sql = ofTokens found := extract_eq_ofTokens hscan
  rw [hextract]
  refine ⟨⟨fun hok => ?_, fun hnil => ?_⟩, exists_ofTokens_eq_error_iff,
    fun e => ofTokens_eq_error_iff, fun hsome hall => ?_, ofTokens_of_numbered, fun hsome hall => ?_⟩
  · exact (tally_of_ofTokens hok).eq_nil_iff.mpr rfl
  · rw [hnil]
    rfl
  · rw [← count_placeholdersIn masked]
    exact ofTokens_of_positional hsome hall
  · obtain ⟨names, hok, hfirsts⟩ := ofTokens_of_named hsome hall
    exact ⟨names, hok, hfirsts.nodup, hfirsts.mem, hfirsts.sorted⟩

/-- The number in the string does not count, nor does the one in a word or what is cast. -/
theorem extract_by_position_numbers :
    let sql := "SELECT $2::int, a$9, '$7', $1 -- ?"
    (scan (scanOptions {}) sql.toList).ending = .complete ∧
    ∃ count, extract {} sql = .ok { kind := .numbered, count, names := [] } ∧
      IsGreatest { n | ∃ digits, .numbered digits ∈ [Token.numbered ['2'], .numbered ['1']] ∧
        digitsValue digits = n } count := by
  intro sql
  have hscan : (scan (scanOptions {}) sql.toList).ending = .complete := by decide +kernel
  have hfound : placeholdersIn ((scan (scanOptions {}) sql.toList).events.flatMap maskEvent) =
      [.numbered ['2'], .numbered ['1']] := by decide +kernel
  have hposition := extract_by_position hscan
  dsimp only at hposition
  rw [hfound] at hposition
  obtain ⟨-, -, -, -, hnumbers, -⟩ := hposition
  refine ⟨hscan, hnumbers (List.cons_ne_nil _ _) (by decide) fun digits hdigits => ?_⟩
  rcases List.mem_cons.mp hdigits with hfirst | hsecond
  · cases hfirst
    decide
  · cases List.mem_singleton.mp hsecond
    decide

/-- Two colons are a cast, and the third one before a name is the second of them. -/
example : extract {} "SELECT a::int, :b, ':x', t:::c FROM t WHERE d = :c AND e = :b" =
    .ok { kind := .named, count := 2, names := ["b", "c"] } := by decide +kernel

end Placeholders

end SqlBatch
