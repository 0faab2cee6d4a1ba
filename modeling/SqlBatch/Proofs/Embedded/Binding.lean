import SqlBatch.Decimal.Layout
import SqlBatch.Embedded.Parameters
import SqlBatch.Proofs.Placeholder.Tally

/-!
# Values for the parameters of a statement

A statement with numbered placeholders is looked at twice. Whoever cuts a list of values counts as
many for it as its largest number says. The database knows the placeholders by their names only, and
numbers them in the order in which they first appear. Both agree on how many values the statement
needs, because a parameter whose name is a number takes the value with that number, whatever number
the database gives it.
-/

namespace SqlBatch

open Text Decimal

namespace Embedded

namespace Parameters

/-! ### The places of values -/

/-- A parameter has a name that is a dollar and the digits of a number, which is not zero and has 64
bits. -/
def Counts (name : Option String) (n : Nat) : Prop :=
  ∃ digits : List Char, name = some (String.ofList ('$' :: digits)) ∧ digits ≠ [] ∧
    digits.all Char.isDigit = true ∧ digitsValue digits = n ∧ 1 ≤ n ∧ n < UInt64.size

/-- The place of the value that a parameter takes, given the place of the parameter, both counted
from zero. -/
inductive TakesFrom (names : Names) : Nat → Nat → Prop
  | number {index place : Nat} {name : Option String} (here : names[index]? = some name)
      (counts : Counts name (place + 1)) : TakesFrom names index place
  | own {index : Nat} {name : Option String} (here : names[index]? = some name)
      (other : ∀ n, ¬Counts name n) : TakesFrom names index index

theorem numberedPosition?_eq_some_iff {name : Option String} {place : Nat} :
    name.bind numberedPosition? = some place ↔ Counts name (place + 1) := by
  constructor
  · intro h
    obtain ⟨name, rfl, hplace⟩ := Option.bind_eq_some_iff.mp h
    unfold numberedPosition? at hplace
    split at hplace
    · rename_i digits hname
      dsimp only at hplace
      split at hplace
      · rename_i hnumber
        simp only [Bool.and_eq_true, Bool.not_eq_true', List.isEmpty_eq_false_iff,
          decide_eq_true_eq] at hnumber
        obtain ⟨⟨⟨hne, hdigits⟩, hone⟩, hlimit⟩ := hnumber
        have hvalue : digitsValue digits = place + 1 := by
          have := Option.some.inj hplace
          omega
        refine ⟨digits, ?_, hne, hdigits, hvalue, by omega, hvalue ▸ hlimit⟩
        rw [← hname, String.ofList_toList]
      · cases hplace
    · cases hplace
  · rintro ⟨digits, rfl, hne, hdigits, hvalue, -, hlimit⟩
    have hempty : digits.isEmpty = false := List.isEmpty_eq_false_iff.mpr hne
    simp only [Option.bind_some, numberedPosition?, String.toList_ofList, hempty, hdigits, hvalue,
      hlimit, decide_true, Nat.le_add_left, Bool.not_false, Bool.and_self, if_true,
      Nat.add_sub_cancel]

private theorem getElem?_positionsFrom (first : Nat) (names : Names) (index : Nat) :
    (positionsFrom first names)[index]? =
      names[index]?.map fun name => (name.bind numberedPosition?).getD (first + index) := by
  induction names generalizing first index with
  | nil => rfl
  | cons name names ih =>
      cases index with
      | zero => rfl
      | succ index =>
          rw [positionsFrom, List.getElem?_cons_succ, List.getElem?_cons_succ, ih,
            Nat.add_right_comm, Nat.add_assoc]

theorem takesFrom_iff {names : Names} {index place : Nat} :
    TakesFrom names index place ↔ (positions names)[index]? = some place := by
  rw [positions, getElem?_positionsFrom, Nat.zero_add, Option.map_eq_some_iff]
  constructor
  · intro h
    cases h with
    | number here counts =>
        refine ⟨_, here, ?_⟩
        rw [numberedPosition?_eq_some_iff.mpr counts]
        rfl
    | @own name here other =>
        refine ⟨_, here, ?_⟩
        cases hnone : name.bind numberedPosition? with
        | none => rfl
        | some place => exact absurd (numberedPosition?_eq_some_iff.mp hnone) (other _)
  · rintro ⟨name, here, hplace⟩
    cases hnone : name.bind numberedPosition? with
    | some place' =>
        rw [hnone] at hplace
        cases hplace
        exact .number here (numberedPosition?_eq_some_iff.mp hnone)
    | none =>
        rw [hnone] at hplace
        cases hplace
        refine .own here fun n hn => ?_
        obtain ⟨-, -, -, -, -, hone, -⟩ := id hn
        obtain ⟨m, rfl⟩ := Nat.exists_eq_add_of_le' hone
        rw [numberedPosition?_eq_some_iff.mpr hn] at hnone
        cases hnone

private theorem foldl_max_le_iff (places : List Nat) (start n : Nat) :
    places.foldl (fun most place => max most (place + 1)) start ≤ n ↔
      start ≤ n ∧ ∀ place ∈ places, place < n := by
  induction places generalizing start with
  | nil => simp
  | cons place places ih =>
      rw [List.foldl_cons, ih, Nat.max_le, List.forall_mem_cons, and_assoc]
      rfl

theorem needed_le_iff {names : Names} {n : Nat} :
    needed names ≤ n ↔ ∀ place ∈ positions names, place < n := by
  rw [needed, foldl_max_le_iff]
  exact and_iff_right (Nat.zero_le n)

/-- The places of values that the parameters of a statement take. -/
def places (names : Names) : Set Nat := {place | ∃ index, TakesFrom names index place}

theorem mem_places {names : Names} {place : Nat} :
    place ∈ places names ↔ place ∈ positions names := by
  rw [List.mem_iff_getElem?]
  exact exists_congr fun _ => takesFrom_iff

theorem exists_greatest_place {names : Names} (hne : names ≠ []) :
    ∃ place, IsGreatest (places names) place ∧ needed names = place + 1 := by
  have hlt := needed_le_iff.mp (Nat.le_refl (needed names))
  obtain ⟨first, rest, rfl⟩ := List.exists_cons_of_ne_nil hne
  have hpos : 0 < needed (first :: rest) := (Nat.zero_le _).trans_lt (hlt _ List.mem_cons_self)
  -- If no place came right below the number of values, fewer would do.
  have hlast : ¬needed (first :: rest) ≤ needed (first :: rest) - 1 := by omega
  rw [needed_le_iff] at hlast
  push Not at hlast
  obtain ⟨place, hplace, hle⟩ := hlast
  have hplace' := hlt place hplace
  refine ⟨place, ⟨mem_places.mpr hplace, fun other hother => ?_⟩, by omega⟩
  have := hlt other (mem_places.mp hother)
  omega

private theorem length_eq_needed_iff {names : Names} {values : List Value} :
    values.length = needed names ↔ (names = [] ∧ values = []) ∨
      ∃ place, IsGreatest (places names) place ∧ values.length = place + 1 := by
  by_cases hne : names = []
  · subst hne
    have hnone (place : Nat) : ¬IsGreatest (places []) place :=
      fun h => absurd (mem_places.mp h.1) List.not_mem_nil
    simp [hnone, needed, positions, positionsFrom]
  · obtain ⟨place, hgreatest, hneeded⟩ := exists_greatest_place hne
    rw [hneeded]
    constructor
    · exact fun hlength => .inr ⟨place, hgreatest, hlength⟩
    · rintro (⟨hnil, -⟩ | ⟨other, hother, hlength⟩)
      · exact absurd hnil hne
      · rwa [hgreatest.unique hother]

/-! ### What is bound -/

theorem bind_isSome_iff {names : Names} {values : List Value} :
    (bind names values).isSome ↔ values.length = needed names := by
  unfold bind
  split <;> simpa

theorem bound_of_takesFrom {names : Names} {values bound : List Value}
    (h : bind names values = some bound) {index place : Nat}
    (htakes : TakesFrom names index place) :
    ∃ hlt : place < values.length, bound[index]? = some values[place] := by
  unfold bind at h
  split at h
  · rename_i hlength
    rw [takesFrom_iff] at htakes
    have hlt : place < values.length := by
      rw [hlength]
      exact needed_le_iff.mp (Nat.le_refl _) place (List.mem_of_getElem? htakes)
    refine ⟨hlt, ?_⟩
    rw [← Option.some.inj h, List.getElem?_map, htakes, Option.map_some, List.getD,
      List.getElem?_eq_getElem hlt, Option.getD_some]
  · cases h

private theorem length_positionsFrom (first : Nat) (names : Names) :
    (positionsFrom first names).length = names.length := by
  induction names generalizing first with
  | nil => rfl
  | cons name names ih => rw [positionsFrom, List.length_cons, List.length_cons, ih]

private theorem length_of_bind {names : Names} {values bound : List Value}
    (h : bind names values = some bound) : bound.length = names.length := by
  unfold bind at h
  split at h
  · rw [← Option.some.inj h, List.length_map, positions, length_positionsFrom]
  · cases h

/-! ### Numbered parameters -/

def numberedName (n : Nat) : String := String.ofList ('$' :: decimalDigits n)

theorem digitsValue_decimalDigits (n : Nat) : digitsValue (decimalDigits n) = n :=
  Nat.ofDigitChars_ten_toDigits

theorem counts_numberedName_iff {n m : Nat} :
    Counts (some (numberedName n)) m ↔ m = n ∧ 1 ≤ n ∧ n < UInt64.size := by
  constructor
  · rintro ⟨digits, hname, -, -, rfl, hone, hlimit⟩
    have hdigits : decimalDigits n = digits :=
      (List.cons.inj (String.ofList_injective (Option.some.inj hname))).2
    rw [← hdigits, digitsValue_decimalDigits] at hone hlimit ⊢
    exact ⟨rfl, hone, hlimit⟩
  · rintro ⟨rfl, hone, hlimit⟩
    exact ⟨_, rfl, Nat.toDigits_ne_nil,
      List.all_eq_true.mpr fun d hd => Nat.isDigit_of_mem_toDigits (by omega) (by omega) hd,
      digitsValue_decimalDigits m, hone, hlimit⟩

/-- How a database numbers the parameters of a statement that are all given by name: the names stand
in the order in which they first appear, and each parameter has the number of its name, counted from
one. -/
structure ByAppearance (occurrences : List String) (names : Names) (numbers : List Nat) : Prop where
  names_eq : names = occurrences.eraseDups.map some
  numbers_eq : numbers = occurrences.map fun name => names.idxOf (some name) + 1

namespace ByAppearance

variable {occurrences : List String} {names : Names} {numbers : List Nat}

theorem mem_names_iff (h : ByAppearance occurrences names numbers) {name : Option String} :
    name ∈ names ↔ ∃ occurrence ∈ occurrences, some occurrence = name := by
  rw [h.names_eq, List.mem_map]
  simp only [List.mem_eraseDups]

private theorem exists_number (h : ByAppearance occurrences names numbers) {i : Nat} {name : String}
    (hname : occurrences[i]? = some name) : ∃ number, numbers[i]? = some number := by
  rw [h.numbers_eq, List.getElem?_map, hname]
  exact ⟨_, rfl⟩

private theorem name_of_number (h : ByAppearance occurrences names numbers) {i number : Nat}
    {name : String} (hname : occurrences[i]? = some name) (hnumber : numbers[i]? = some number) :
    names[number - 1]? = some (some name) := by
  rw [h.numbers_eq, List.getElem?_map, hname] at hnumber
  obtain rfl := Option.some.inj hnumber
  have hmem : some name ∈ names := h.mem_names_iff.mpr ⟨name, List.mem_of_getElem? hname, rfl⟩
  rw [Nat.add_sub_cancel, List.getElem?_eq_getElem (List.idxOf_lt_length_of_mem hmem),
    List.getElem_idxOf]

end ByAppearance

/-- The numbered parameters of a statement take their values from the places that they name. -/
theorem mem_places_iff_of_byAppearance {occurrences : List Nat} {names : Names} {numbers : List Nat}
    (h : ByAppearance (occurrences.map numberedName) names numbers)
    (hrange : ∀ n ∈ occurrences, 1 ≤ n ∧ n < UInt64.size) {place : Nat} :
    place ∈ places names ↔ place + 1 ∈ occurrences := by
  have hname {index : Nat} {name : Option String} (here : names[index]? = some name) :
      ∃ n ∈ occurrences, name = some (numberedName n) ∧ Counts name n := by
    obtain ⟨occurrence, hmem, rfl⟩ := h.mem_names_iff.mp (List.mem_of_getElem? here)
    obtain ⟨n, hn, rfl⟩ := List.mem_map.mp hmem
    exact ⟨n, hn, rfl, counts_numberedName_iff.mpr ⟨rfl, hrange n hn⟩⟩
  constructor
  · rintro ⟨index, htakes⟩
    cases htakes with
    | number here counts =>
        obtain ⟨n, hn, rfl, -⟩ := hname here
        rwa [(counts_numberedName_iff.mp counts).1]
    | own here other =>
        obtain ⟨n, -, -, hcounts⟩ := hname here
        exact absurd hcounts (other n)
  · intro hmem
    have hnames := h.mem_names_iff.mpr ⟨_, List.mem_map_of_mem hmem, rfl⟩
    obtain ⟨index, hindex⟩ := List.mem_iff_getElem?.mp hnames
    exact ⟨index, .number hindex (counts_numberedName_iff.mpr ⟨rfl, hrange _ hmem⟩)⟩

private theorem needed_of_byAppearance {occurrences : List Nat} {names : Names} {numbers : List Nat}
    (h : ByAppearance (occurrences.map numberedName) names numbers)
    (hrange : ∀ n ∈ occurrences, 1 ≤ n ∧ n < UInt64.size) {count : Nat}
    (hcount : IsGreatest {n | n ∈ occurrences} count) : needed names = count := by
  obtain ⟨hmem, hle⟩ := hcount
  have hne : names ≠ [] :=
    List.ne_nil_of_mem (h.mem_names_iff.mpr ⟨_, List.mem_map_of_mem hmem, rfl⟩)
  obtain ⟨place, ⟨hplace, hgreatest⟩, hneeded⟩ := exists_greatest_place hne
  have hupper : place + 1 ≤ count := hle ((mem_places_iff_of_byAppearance h hrange).mp hplace)
  obtain ⟨last, rfl⟩ := Nat.exists_eq_add_of_le' (hrange count hmem).1
  have hlower : last ≤ place :=
    hgreatest ((mem_places_iff_of_byAppearance h hrange).mpr hmem)
  omega

/-! ### The numbers of this library -/

def parameterName? (t : Token) : Option String :=
  match t.kind with
  | .parameter _ => some (String.ofList t.text)
  | _ => none

def parameterNumber? (t : Token) : Option Nat :=
  match t.kind with
  | .parameter number => some number
  | _ => none

private theorem number?_of_head? {text : List Char} (hname : text.head? ≠ some '?')
    (names : Names) :
    (∀ index, names.idxOf? (some (String.ofList text)) = some index →
      number? text names = some (index + 1, names)) ∧
    (names.idxOf? (some (String.ofList text)) = none →
      number? text names = some (names.length + 1, names ++ [some (String.ofList text)])) := by
  unfold number?
  split
  · exact absurd rfl hname
  · exact absurd rfl hname
  · dsimp only
    exact ⟨fun index h => by rw [h], fun h => by rw [h]⟩

theorem number?_of_name {text : List Char} (hname : text.head? ≠ some '?') (seen : List String) :
    number? text (seen.eraseDups.map some) = some
      (((seen ++ [String.ofList text]).eraseDups.map some).idxOf (some (String.ofList text)) + 1,
        (seen ++ [String.ofList text]).eraseDups.map some) := by
  have hmem (seen : List String) (name : String) :
      some name ∈ seen.eraseDups.map some ↔ name ∈ seen := by
    rw [List.mem_map_of_injective (Option.some_injective _), List.mem_eraseDups]
  obtain ⟨hold, hfresh⟩ := number?_of_head? hname (seen.eraseDups.map some)
  rw [List.eraseDups_append, List.map_append]
  cases hfound : (seen.eraseDups.map some).idxOf? (some (String.ofList text)) with
  | some index =>
      have hseen : some (String.ofList text) ∈ seen.eraseDups.map some := by
        rw [← List.isSome_idxOf?, hfound]
        rfl
      have hnew : [String.ofList text].removeAll seen = [] := by
        simp [List.removeAll, (hmem seen _).mp hseen]
      have hindex : (seen.eraseDups.map some).idxOf (some (String.ofList text)) = index := by
        rw [List.idxOf_eq_getD_idxOf?, hfound, Option.getD_some]
      rw [hold index hfound]
      simp [hnew, hindex]
  | none =>
      have hunseen := List.idxOf?_eq_none_iff.mp hfound
      have hnew : ([String.ofList text].removeAll seen).eraseDups = [String.ofList text] := by
        simp [List.removeAll, (hmem seen _).not.mp hunseen, List.eraseDups_cons]
      have hlast : (seen.eraseDups.map some ++ [some (String.ofList text)]).idxOf
          (some (String.ofList text)) = (seen.eraseDups.map some).length := by
        rw [List.idxOf_append_of_notMem hunseen, List.idxOf_cons_self, Nat.add_zero]
      rw [hfresh hfound]
      simp [hnew, hlast]

/-- The database of this library numbers parameters that are given by name as they first appear. -/
theorem assign_of_names (seen : List String) {tokens : List Token}
    (hnames : ∀ t ∈ tokens, parameterName? t ≠ none → t.text.head? ≠ some '?') :
    ∃ numbered names, assign (seen.eraseDups.map some) tokens = .ok (numbered, names) ∧
      names = (seen ++ tokens.filterMap parameterName?).eraseDups.map some ∧
      numbered.filterMap parameterNumber? =
        (tokens.filterMap parameterName?).map fun name => names.idxOf (some name) + 1 := by
  induction tokens generalizing seen with
  | nil => exact ⟨[], _, rfl, by simp, rfl⟩
  | cons t tokens ih =>
      obtain ⟨hfirst, hothers⟩ := List.forall_mem_cons.mp hnames
      by_cases hparameter : parameterName? t = none
      · obtain ⟨numbered, names, hassign, hall, hnumbers⟩ := ih seen hothers
        have hnumber : parameterNumber? t = none := by
          unfold parameterName? at hparameter
          unfold parameterNumber?
          split <;> simp_all
        refine ⟨t :: numbered, names, ?_, ?_, ?_⟩
        · unfold assign
          split
          · rename_i number hkind
            simp [parameterName?, hkind] at hparameter
          · rw [hassign]
            rfl
        · rwa [List.filterMap_cons_none hparameter]
        · rw [List.filterMap_cons_none hnumber, List.filterMap_cons_none hparameter, hnumbers]
      · obtain ⟨old, hkind⟩ : ∃ old, t.kind = .parameter old := by
          unfold parameterName? at hparameter
          split at hparameter
          · exact ⟨_, ‹_›⟩
          · exact absurd rfl hparameter
        have hname : parameterName? t = some (String.ofList t.text) := by
          simp [parameterName?, hkind]
        obtain ⟨numbered, names, hassign, hall, hnumbers⟩ :=
          ih (seen ++ [String.ofList t.text]) hothers
        have happended : (seen ++ [String.ofList t.text] ++
            tokens.filterMap parameterName?).eraseDups = _ := List.eraseDups_append
        have hindex : ((seen ++ [String.ofList t.text]).eraseDups.map some).idxOf
            (some (String.ofList t.text)) = names.idxOf (some (String.ofList t.text)) := by
          rw [hall, happended, List.map_append, List.idxOf_append_of_mem]
          simp
        refine ⟨{ t with kind := .parameter (names.idxOf (some (String.ofList t.text)) + 1) } ::
          numbered, names, ?_, ?_, ?_⟩
        · unfold assign
          rw [hkind]
          dsimp only
          rw [number?_of_name (hfirst hparameter), hindex]
          dsimp only
          rw [hassign]
          rfl
        · rwa [List.filterMap_cons_some hname, List.append_cons]
        · rw [List.filterMap_cons_some hname, List.map_cons, ← hnumbers]
          rfl

private theorem assign_byAppearance {tokens : List Token}
    (hnames : ∀ t ∈ tokens, parameterName? t ≠ none → t.text.head? ≠ some '?') :
    ∃ numbered names, assign [] tokens = .ok (numbered, names) ∧
      ByAppearance (tokens.filterMap parameterName?) names
        (numbered.filterMap parameterNumber?) := by
  obtain ⟨numbered, names, hassign, hnames, hnumbers⟩ := assign_of_names [] hnames
  exact ⟨numbered, names, hassign, hnames, hnumbers⟩

/-- **The values that a statement with numbered placeholders is counted to need are those that its
database binds.** Each placeholder gets the value with its number, however the database numbers the
names, which it does in the order in which they first appear. Whatever the names are, values are
bound if there is one more of them than the last place that a parameter takes its value from, and
each parameter gets the value at its place, which is the number in its name or else its own. -/
theorem numbered_values_agree :
    (∀ (options : SplitOptions) (sql : String) (masked : List Char) (occurrences : List Nat)
        (names : Names) (numbers : List Nat),
      Placeholders.mask options sql.toList = .ok masked →
      Placeholders.placeholdersIn masked = occurrences.map (fun n => .numbered (decimalDigits n)) →
      occurrences ≠ [] → (∀ n ∈ occurrences, 1 ≤ n ∧ n < UInt64.size) →
      ByAppearance (occurrences.map numberedName) names numbers →
      ∃ found, Placeholders.extract options sql = .ok found ∧ found.kind = .numbered ∧ ∀ values,
        ((bind names values).isSome ↔ values.length = found.count) ∧
        ∀ bound, bind names values = some bound → ∀ (i n : Nat), occurrences[i]? = some n →
          ∃ number, numbers[i]? = some number ∧
            ∃ hlt : n - 1 < values.length, bound[number - 1]? = some values[n - 1]) ∧
    ∀ (names : Names) (values : List Value),
      ((bind names values).isSome ↔ (names = [] ∧ values = []) ∨
        ∃ place, IsGreatest (places names) place ∧ values.length = place + 1) ∧
      ∀ bound, bind names values = some bound → bound.length = names.length ∧
        ∀ index place, TakesFrom names index place →
          ∃ hlt : place < values.length, bound[index]? = some values[place] := by
  refine ⟨?_, fun names values => ⟨bind_isSome_iff.trans length_eq_needed_iff, fun bound h =>
    ⟨length_of_bind h, fun index place => bound_of_takesFrom h⟩⟩⟩
  intro options sql masked occurrences names numbers hmask hfound hsome hrange hnumbers
  have hne : occurrences.map (fun n => Placeholders.Token.numbered (decimalDigits n)) ≠ [] := by
    simpa using hsome
  obtain ⟨count, hok, hcount⟩ := Placeholders.ofTokens_of_numbered hne
    (by simp [Placeholders.Token.kind]) (by
      intro digits hdigits
      obtain ⟨n, hn, heq⟩ := List.mem_map.mp hdigits
      cases heq
      exact (digitsValue_decimalDigits n).symm ▸ (hrange n hn).2)
  have hextract : Placeholders.extract options sql =
      .ok { kind := .numbered, count, names := [] } := by
    rw [Placeholders.extract, hmask, ← hok, ← hfound, ← Placeholders.tokens_eq_placeholdersIn]
    rfl
  have hgreatest : IsGreatest {n | n ∈ occurrences} count := by
    convert hcount using 1
    ext n
    simp [digitsValue_decimalDigits]
  refine ⟨_, hextract, rfl, fun values => ⟨?_, fun bound hbound i n hn => ?_⟩⟩
  · rw [bind_isSome_iff, needed_of_byAppearance hnumbers hrange hgreatest]
  · have hname : (occurrences.map numberedName)[i]? = some (numberedName n) := by
      rw [List.getElem?_map, hn, Option.map_some]
    obtain ⟨number, hnumber⟩ := hnumbers.exists_number hname
    have hrange := hrange n (List.mem_of_getElem? hn)
    obtain ⟨place, rfl⟩ := Nat.exists_eq_add_of_le' hrange.1
    exact ⟨number, hnumber, bound_of_takesFrom hbound
      (.number (hnumbers.name_of_number hname hnumber) (counts_numberedName_iff.mpr ⟨rfl, hrange⟩))⟩

/-- No placeholder has the number two, and the third value is the first of the database. -/
theorem numbered_values_agree_gap :
    let sql := "SELECT $3, '$9', $1, $3"
    let values : List Value := [.string "x", .string "y", .string "z"]
    ∃ numbered names found, assign [] (Token.scan sql.toList) = .ok (numbered, names) ∧
      names = [some "$3", some "$1"] ∧ numbered.filterMap parameterNumber? = [1, 2, 1] ∧
      Placeholders.extract {} sql = .ok found ∧ found.count = 3 ∧
      (bind names values).isSome ∧ ∀ bound, bind names values = some bound →
        bound[0]? = some (.string "z") ∧ bound[1]? = some (.string "x") := by
  intro sql values
  obtain ⟨masked, hmask, hfound⟩ : ∃ masked, Placeholders.mask {} sql.toList = .ok masked ∧
      Placeholders.placeholdersIn masked = [3, 1, 3].map fun n => .numbered (decimalDigits n) :=
    ⟨"SELECT $3,     , $1, $3".toList, by decide +kernel, by decide +kernel⟩
  have htexts : (Token.scan sql.toList).filterMap parameterName? = [3, 1, 3].map numberedName := by
    decide +kernel
  have hplain : ∀ t ∈ Token.scan sql.toList, parameterName? t ≠ none →
      t.text.head? ≠ some '?' := by decide +kernel
  obtain ⟨numbered, names, hassign, hnumbers⟩ := assign_byAppearance hplain
  rw [htexts] at hnumbers
  obtain ⟨hagree, -⟩ := numbered_values_agree
  obtain ⟨found, hextract, -, hvalues⟩ := hagree {} sql masked [3, 1, 3] names _ hmask hfound
    (List.cons_ne_nil _ _) (by decide) hnumbers
  have hnames : names = [some "$3", some "$1"] := hnumbers.names_eq.trans (by decide +kernel)
  have hnumbered : numbered.filterMap parameterNumber? = [1, 2, 1] := by
    rw [hnumbers.numbers_eq, hnames]
    decide +kernel
  have hthree : Placeholders.extract {} sql =
      .ok { kind := .numbered, count := 3, names := [] } := by decide +kernel
  obtain rfl := Except.ok.inj (hextract.symm.trans hthree)
  obtain ⟨haccepted, hbound⟩ := hvalues values
  refine ⟨numbered, names, _, hassign, hnames, hnumbered, hextract, rfl, haccepted.mpr rfl,
    fun bound h => ?_⟩
  rw [hnumbered] at hbound
  obtain ⟨first, hfirst, hlt, hlast⟩ := hbound bound h 0 3 rfl
  obtain ⟨second, hsecond, hlt', hone⟩ := hbound bound h 1 1 rfl
  cases hfirst
  cases hsecond
  exact ⟨hlast, hone⟩

end Parameters

end Embedded

end SqlBatch
