import SqlBatch.Script.Error

/-!
# How scripts are read

Which lexical constructs a scan recognises, and in which form the statements of a script are
reported.
-/

namespace SqlBatch

/-- The lexical rules of a script and the form of its statements. -/
structure SplitOptions where
  /-- The terminator in effect at the start of the script. -/
  terminator : String := ";"
  /-- The keyword of the directive that changes the terminator, if there is such a directive. -/
  delimiterKeyword : Option String := some "DELIMITER"
  /-- Comments from two hyphens to the end of the line. -/
  lineComments : Bool := true
  /-- Comments between slash-star and star-slash. -/
  blockComments : Bool := true
  /-- Block comments inside block comments. -/
  nestedBlockComments : Bool := false
  /-- Strings between two equal dollar markers. -/
  dollarQuotes : Bool := true
  /-- Identifiers between backticks. -/
  backtickIdentifiers : Bool := true
  /-- Backslash escapes inside single quotes. -/
  backslashEscapes : Bool := false
  /-- Blocks from BEGIN or CASE to END, inside which no terminator counts. -/
  blocks : Bool := true
  /-- A block left open is an error and not a last statement. -/
  strict : Bool := true
  /-- Statements keep their terminator. -/
  keepTerminators : Bool := false
  /-- Statements keep their comments. -/
  keepComments : Bool := true
  /-- Statements without code are reported. -/
  keepEmptyStatements : Bool := false
  deriving DecidableEq, Repr, Inhabited

namespace SplitOptions

/-- A terminator is a text without blanks that is not empty. -/
def isTerminator (cs : List Char) : Bool := !cs.isEmpty && !cs.any Text.isBlank

/-- A keyword is a single word of ASCII. -/
def isKeyword (cs : List Char) : Bool := !cs.isEmpty && cs.all Text.isWord

/-- The first thing that is wrong with the options: the terminator, then the keyword. -/
def validate (options : SplitOptions) : Except SplitError Unit :=
  if isTerminator options.terminator.toList then
    match options.delimiterKeyword with
    | some keyword => if isKeyword keyword.toList then .ok () else .error (.invalidKeyword keyword)
    | none => .ok ()
  else .error (.invalidTerminator options.terminator)

/-- Options that a script can be split with. -/
def Valid (options : SplitOptions) : Prop :=
  isTerminator options.terminator.toList = true ∧
    ∀ keyword ∈ options.delimiterKeyword, isKeyword keyword.toList = true

instance (options : SplitOptions) : Decidable options.Valid := by
  unfold Valid
  cases options.delimiterKeyword with
  | none => exact decidable_of_iff (isTerminator options.terminator.toList = true) (by simp)
  | some keyword =>
    exact decidable_of_iff
      (isTerminator options.terminator.toList = true ∧ isKeyword keyword.toList = true) (by simp)

theorem validate_eq_ok_iff {options : SplitOptions} :
    options.validate = .ok () ↔ options.Valid := by
  unfold validate Valid
  cases options.delimiterKeyword with
  | none => by_cases h : isTerminator options.terminator.toList <;> simp [h]
  | some keyword =>
    by_cases h : isTerminator options.terminator.toList <;>
      by_cases hk : isKeyword keyword.toList <;> simp [h, hk]

end SplitOptions

end SqlBatch
