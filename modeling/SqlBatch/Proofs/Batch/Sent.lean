import SqlBatch.Proofs.Batch.Scope
import SqlBatch.Proofs.Connection.Recorded
import SqlBatch.Proofs.Placeholder.Numbered

/-!
# What reaches the connection

Whatever becomes of a batch, each statement that its connection is given is one of the batch's own,
with the values that were bound to it. This is kept call by call, because the only call with a
statement is the one of a run.

Flat values are bound only if there are as many as the placeholders of all statements together. Then
each statement gets as many as its own count, and so a value for each of its numbers. A number of 64
bits or more is not counted, and where the counts together are that large, the call is brought down
before anything is sent.
-/

namespace SqlBatch

namespace Batch

open Connection

variable {σ : Type}

/-! ### Statements among those of the batch -/

/-- A call that is given no statement, or one of the given statements with its own values. -/
def IsAmong (statements : List BoundStatement) : Entry σ → Prop
  | .execute sql _ values _ _ =>
    ∃ statement, (statement, values) ∈ statements ∧ statement.text = sql
  | _ => True

/-- No call so far was given any other statement. -/
def Faithful (statements : List BoundStatement) (r : Recorded σ) : Prop :=
  ∀ entry ∈ r.log, IsAmong statements entry

namespace Faithful

variable {statements : List BoundStatement} {r : Recorded σ}

theorem note {α : Type} (entry : α → σ → Entry σ) (call : σ → α × σ) (h : Faithful statements r)
    (hentry : ∀ a s, IsAmong statements (entry a s)) :
    Faithful statements (Recorded.note entry call r).2 := by
  intro e he
  rcases List.mem_append.mp he with he | he
  · exact h e he
  · rw [List.mem_singleton.mp he]
    exact hentry _ _

variable [Connection σ]

theorem execute {statement : Statement} {values : List Value} (h : Faithful statements r)
    (hmem : (statement, values) ∈ statements) (attributes : Attributes) :
    Faithful statements (Connection.execute statement.text attributes values r).2 :=
  note (.execute statement.text attributes values) _ h fun _ _ => ⟨statement, hmem, rfl⟩

theorem begin (h : Faithful statements r) : Faithful statements (Connection.begin r).2 :=
  note (fun reply _ => .begin reply) _ h fun _ _ => trivial

theorem commit (h : Faithful statements r) : Faithful statements (Connection.commit r).2 :=
  note (fun reply _ => .commit reply) _ h fun _ _ => trivial

theorem rollback (h : Faithful statements r) : Faithful statements (Connection.rollback r).2 :=
  note (fun reply _ => .rollback reply) _ h fun _ _ => trivial

theorem abort (h : Faithful statements r) : Faithful statements (Connection.abort r).2 :=
  note (fun result _ => .abort result) _ h fun _ _ => trivial

theorem setAutoCommit (h : Faithful statements r) (on : Bool) :
    Faithful statements (Connection.setAutoCommit on r).2 :=
  note (fun result _ => .autoCommit on result) _ h fun _ _ => trivial

theorem setStrictError (h : Faithful statements r) (on : Bool) :
    Faithful statements (Connection.setStrictError on r) := by
  intro e he
  rcases List.mem_append.mp he with he | he
  · exact h e he
  · rw [List.mem_singleton.mp he]
    trivial

theorem applySettings (h : Faithful statements r) (new : ConnectionSettings) :
    Faithful statements (Connection.applySettings new r).2 := by
  have hswitch := h.setAutoCommit new.autoCommit
  unfold Connection.applySettings
  split <;> rename_i hset <;> rw [hset] at hswitch
  · exact hswitch
  · exact hswitch.setStrictError new.strictError

theorem release (h : Faithful statements r) (guard : SettingsGuard) :
    Faithful statements (guard.release r) := by
  unfold SettingsGuard.release
  split
  · exact h.abort.applySettings guard.saved
  · exact h.applySettings guard.saved

theorem during {α : Type} (h : Faithful statements r) (new : ConnectionSettings)
    {body : Recorded σ → (α × Bool) × Recorded σ}
    (hbody : ∀ r, Faithful statements r → Faithful statements (body r).2) :
    Faithful statements (SettingsGuard.during new body r).2 := by
  have happly : Faithful statements (Connection.applySettings new r).2 := h.applySettings new
  unfold SettingsGuard.during SettingsGuard.apply
  rcases hset : Connection.applySettings new r with ⟨e | ⟨⟩, r'⟩ <;> rw [hset] at happly <;>
    dsimp only
  · exact happly.release _
  · exact (hbody r' happly).release _

theorem run (h : Faithful statements r) (attributes : Attributes) {rest : List BoundStatement}
    (hrest : ∀ b ∈ rest, b ∈ statements) (index : Nat) :
    Faithful statements (Batch.run attributes index rest r).2 := by
  induction rest generalizing index r with
  | nil => exact h
  | cons first rest ih =>
      obtain ⟨statement, values⟩ := first
      obtain ⟨hfirst, hrest⟩ := List.forall_mem_cons.mp hrest
      have hsent := h.execute hfirst attributes
      rcases hexecute : Connection.execute statement.text attributes values r with
        ⟨result | e | i, r'⟩ <;> rw [hexecute] at hsent <;> simp only [Batch.run, hexecute]
      · exact ih hsent hrest (index + 1)
      · exact hsent
      · exact hsent

theorem inTransaction (h : Faithful statements r) (attributes : Attributes) :
    Faithful statements (Batch.inTransaction attributes statements r).2 := by
  have hbegin := h.begin
  rcases hb : Connection.begin r with ⟨⟨⟩ | e | i, r₁⟩ <;> rw [hb] at hbegin <;>
    simp only [Batch.inTransaction, hb]
  · have hran := hbegin.run attributes (fun _ => id) 0
    rcases hrun : Batch.run attributes 0 statements r₁ with
      ⟨outcomes | ⟨outcomes, failure⟩ | i, r₂⟩ <;> rw [hrun] at hran <;> dsimp only
    · have hcommit := hran.commit
      rcases hc : Connection.commit r₂ with ⟨⟨⟩ | e | i, r₃⟩ <;> rw [hc] at hcommit <;> dsimp only
      · exact hcommit
      · have hundone := hcommit.rollback
        rcases hr : Connection.rollback r₃ with ⟨⟨⟩ | e' | i, r₄⟩ <;> rw [hr] at hundone <;>
          exact hundone
      · exact hcommit
    · have hundone := hran.rollback
      rcases hr : Connection.rollback r₂ with ⟨⟨⟩ | e | i, r₃⟩ <;> rw [hr] at hundone <;>
        exact hundone
    · exact hran
  · exact hbegin
  · exact hbegin

theorem executeSequential (h : Faithful statements r) (attributes : Attributes) :
    Faithful statements (Batch.executeSequential attributes statements r).2 := by
  have hran := h.run attributes (fun _ => id) 0
  unfold Batch.executeSequential
  split <;> rename_i hrun <;> rw [hrun] at hran
  · exact hran
  · exact hran
  · split <;> exact hran

/-- Whatever becomes of a batch, its connection is given no statements but its own. -/
theorem batch {options : BatchOptions} {input : BatchInput} {binds : BindValues}
    (hbound : input.bound options.splitter binds = .ok statements) (h : Faithful statements r)
    (attributes : Attributes) :
    Faithful statements (Batch.execute options input attributes binds r).2 := by
  unfold Batch.execute
  rw [hbound]
  cases statements with
  | nil => exact h
  | cons first rest =>
      dsimp only
      split
      · rw [executeTransactional_snd]
        exact h.during transactionSettings fun _ hr => hr.inTransaction attributes
      · exact h.executeSequential attributes

end Faithful

/-! ### Flat values -/

def valuesNeeded (statements : List Statement) : Nat :=
  @List.sum Nat _ ⟨0⟩ (statements.map fun s => s.placeholderCount.getD 0)

private theorem placeholderCountsFrom_of_counted {statements : List Statement}
    (hcounted : ∀ s ∈ statements, s.placeholderCount.isSome) (index : Nat) :
    placeholderCountsFrom index statements =
      .ok (statements.map fun s => s.placeholderCount.getD 0) := by
  induction statements generalizing index with
  | nil => rfl
  | cons s rest ih =>
      obtain ⟨hs, hrest⟩ := List.forall_mem_cons.mp hcounted
      obtain ⟨n, hn⟩ := Option.isSome_iff_exists.mp hs
      simp only [placeholderCountsFrom, hn, ih hrest, List.map_cons]
      rfl

theorem placeholderCount_of_mem_zip {statements : List Statement}
    (hcounted : ∀ s ∈ statements, s.placeholderCount.isSome) {given values : List Value}
    (henough : valuesNeeded statements ≤ given.length) {s : Statement}
    (h : (s, values) ∈
      statements.zip (cutGroups (statements.map fun s => s.placeholderCount.getD 0) given)) :
    s.placeholderCount = some values.length := by
  induction statements generalizing given with
  | nil => exact absurd h List.not_mem_nil
  | cons first rest ih =>
      obtain ⟨hfirst, hrest⟩ := List.forall_mem_cons.mp hcounted
      obtain ⟨n, hn⟩ := Option.isSome_iff_exists.mp hfirst
      have hneeded : valuesNeeded (first :: rest) = n + valuesNeeded rest := by
        simp only [valuesNeeded, List.map_cons, List.sum_cons, hn, Option.getD_some]
      rw [hneeded] at henough
      simp only [List.map_cons, cutGroups, hn, Option.getD_some, List.zip_cons_cons,
        List.mem_cons] at h
      rcases h with heq | h
      · obtain ⟨rfl, rfl⟩ := Prod.mk.inj heq
        rw [hn, List.length_take, Nat.min_eq_left (by omega)]
      · exact ih hrest (by rw [List.length_drop]; omega) h

theorem groupsFor_flat {statements : List Statement}
    (hcounted : ∀ s ∈ statements, s.placeholderCount.isSome) (given : List Value) :
    BindValues.groupsFor statements (.flat given) =
      if UInt64.size ≤ valuesNeeded statements then .error .uncountable
      else if valuesNeeded statements = given.length then
        .ok (cutGroups (statements.map fun s => s.placeholderCount.getD 0) given)
      else .error (.valueCount (valuesNeeded statements) given.length) := by
  simp only [BindValues.groupsFor, placeholderCountsFrom_of_counted hcounted]
  rfl

theorem bound_eq {options : SplitOptions} {input : BatchInput} {binds : BindValues} :
    input.bound options binds =
    match input.resolve options binds with
    | .error e => .error e
    | .ok statements =>
      match binds.groupsFor statements with
      | .error e => .error (.bind e)
      | .ok groups => .ok (statements.zip groups) := by
  rw [BatchInput.bound]
  cases input.resolve options binds with
  | error e => rfl
  | ok statements =>
      change ((binds.groupsFor statements).mapError InputError.bind >>= fun groups =>
        Except.ok (statements.zip groups)) = _
      dsimp only
      cases binds.groupsFor statements <;> rfl

/-- A script with flat values can be run if the values are as many as its statements need, and the
number of them can be counted. -/
theorem bound_script_flat {options : SplitOptions} {text : String} {statements : List Statement}
    (h : Script.splitWithPlaceholders options text = .ok statements) (given : List Value) :
    (BatchInput.script text).bound options (.flat given) =
      if UInt64.size ≤ valuesNeeded statements then .error (.bind .uncountable)
      else if valuesNeeded statements = given.length then
        .ok (statements.zip (cutGroups (statements.map fun s => s.placeholderCount.getD 0) given))
      else .error (.bind (.valueCount (valuesNeeded statements) given.length)) := by
  have hcounted : ∀ s ∈ statements, s.placeholderCount.isSome := fun s hs => by
    obtain ⟨placeholders, -, hcount⟩ := Script.extract_of_mem_splitWithPlaceholders h hs
    rw [hcount]
    rfl
  have hresolve : (BatchInput.script text).resolve options (.flat given) = .ok statements := by
    simp only [BatchInput.resolve, BindValues.isFlat, if_true, h]
    rfl
  rw [bound_eq, hresolve]
  dsimp only
  rw [groupsFor_flat hcounted]
  by_cases huncountable : UInt64.size ≤ valuesNeeded statements
  · rw [if_pos huncountable, if_pos huncountable]
  · rw [if_neg huncountable, if_neg huncountable]
    by_cases heven : valuesNeeded statements = given.length
    · rw [if_pos heven, if_pos heven]
    · rw [if_neg heven, if_neg heven]

/-- What a statement of a script has with it when it is sent: flat values as many as all statements
need together, its own count of them, and one for each number in its code that can be counted. -/
structure Supplied (options : SplitOptions) (statements : List Statement) (given : List Value)
    (sql : String) (values : List Value) : Prop where
  total : valuesNeeded statements = given.length
  countable : given.length < UInt64.size
  own : ∃ statement ∈ statements, statement.text = sql ∧
    statement.placeholderCount = some values.length
  numbers : ∃ masked, Placeholders.mask options sql.toList = .ok masked ∧
    ∀ digits, Placeholders.HasNumber masked digits →
      Text.digitsValue digits < Placeholders.numberLimit → Text.digitsValue digits ≤ values.length

theorem supplied_of_mem_zip {options : SplitOptions} {text : String} {statements : List Statement}
    (hsplit : Script.splitWithPlaceholders options text = .ok statements) {given : List Value}
    (htotal : valuesNeeded statements = given.length) (hcountable : given.length < UInt64.size)
    {statement : Statement} {values : List Value}
    (h : (statement, values) ∈
      statements.zip (cutGroups (statements.map fun s => s.placeholderCount.getD 0) given)) :
    Supplied options statements given statement.text values := by
  have hmem : statement ∈ statements := (List.of_mem_zip h).1
  have hextracted {s : Statement} (hs : s ∈ statements) :=
    Script.extract_of_mem_splitWithPlaceholders hsplit hs
  have hcounted : ∀ s ∈ statements, s.placeholderCount.isSome := fun s hs => by
    obtain ⟨placeholders, -, hcount⟩ := hextracted hs
    rw [hcount]
    rfl
  have hown := placeholderCount_of_mem_zip hcounted (Nat.le_of_eq htotal) h
  obtain ⟨placeholders, hextract, hcount⟩ := hextracted hmem
  have hlength : placeholders.count = values.length :=
    Option.some.inj (hcount.symm.trans hown)
  have hnumbers := Placeholders.digitsValue_le_of_extract hextract
  rw [hlength] at hnumbers
  exact ⟨htotal, hcountable, ⟨statement, hmem, rfl, hown⟩, hnumbers⟩

variable [Connection σ]

theorem execute_flat_of_ne (options : BatchOptions) {text : String} (attributes : Attributes)
    {given : List Value} (s : σ) {statements : List Statement}
    (hsplit : Script.splitWithPlaceholders options.splitter text = .ok statements)
    (hne : UInt64.size ≤ valuesNeeded statements ∨ valuesNeeded statements ≠ given.length) :
    execute options (.script text) attributes (.flat given) s =
      (if UInt64.size ≤ valuesNeeded statements then .interrupted .overflow
        else .failed (.bind (.valueCount (valuesNeeded statements) given.length)), s) := by
  have hbound := bound_script_flat hsplit given
  by_cases hle : UInt64.size ≤ valuesNeeded statements
  · rw [if_pos hle] at hbound ⊢
    simp only [execute, hbound, refused]
  · rw [if_neg hle, if_neg (hne.resolve_left hle)] at hbound
    rw [if_neg hle]
    simp only [execute, hbound, refused]

/-- **A statement that is sent with flat values has one for each of its numbers that fits into 64
bits.** The counts of all statements together are then the number of values. If they are another
number, the call fails, and if they do not fit into 64 bits either, it is brought down; in both
cases nothing reaches the connection. -/
theorem execute_flat_supplied (options : BatchOptions) (text : String) (attributes : Attributes)
    (given : List Value) (s : σ) :
    (∀ sql attributes' values reply after,
      .execute sql attributes' values reply after ∈ (execute options (.script text) attributes
        (.flat given) (⟨s, []⟩ : Recorded σ)).2.log →
      ∃ statements, Script.splitWithPlaceholders options.splitter text = .ok statements ∧
        Supplied options.splitter statements given sql values) ∧
    ∀ statements, Script.splitWithPlaceholders options.splitter text = .ok statements →
      UInt64.size ≤ valuesNeeded statements ∨ valuesNeeded statements ≠ given.length →
      execute options (.script text) attributes (.flat given) (⟨s, []⟩ : Recorded σ) =
        (if UInt64.size ≤ valuesNeeded statements then .interrupted .overflow
          else .failed (.bind (.valueCount (valuesNeeded statements) given.length)), ⟨s, []⟩) := by
  refine ⟨fun sql _ values _ _ h => ?_,
    fun _ hsplit => execute_flat_of_ne options attributes (⟨s, []⟩ : Recorded σ) hsplit⟩
  cases hsplit : Script.splitWithPlaceholders options.splitter text with
  | error e =>
      have hbound : (BatchInput.script text).bound options.splitter (.flat given) =
          .error (.split e) := by
        simp only [BatchInput.bound, BatchInput.resolve, BindValues.isFlat, if_true, hsplit]
        rfl
      simp only [execute, hbound] at h
      exact absurd h List.not_mem_nil
  | ok statements =>
      refine ⟨statements, rfl, ?_⟩
      by_cases hne : UInt64.size ≤ valuesNeeded statements ∨ valuesNeeded statements ≠ given.length
      · rw [execute_flat_of_ne options attributes (⟨s, []⟩ : Recorded σ) hsplit hne] at h
        exact absurd h List.not_mem_nil
      · have hle : ¬ UInt64.size ≤ valuesNeeded statements := fun hle => hne (.inl hle)
        have htotal : valuesNeeded statements = given.length :=
          Classical.byContradiction fun h => hne (.inr h)
        have hbound := bound_script_flat hsplit given
        rw [if_neg hle, if_pos htotal] at hbound
        have hnone (sent : List BoundStatement) : Faithful sent (⟨s, []⟩ : Recorded σ) :=
          fun _ h => absurd h List.not_mem_nil
        obtain ⟨statement, hmem, rfl⟩ := (hnone _).batch hbound attributes _ h
        exact supplied_of_mem_zip hsplit htotal (by omega) hmem

/-- Of three values the first statement gets two, because of its number, and the second gets one.
Without values nothing is sent. -/
theorem execute_flat_supplied_two_statements :
    let s : Scripted.State := {}
    let first : Statement :=
      { text := "UPDATE $2", terminator := some ";", placeholderCount := some 2,
        placeholderKind := some .numbered }
    let second : Statement :=
      { text := "DELETE $1", placeholderCount := some 1, placeholderKind := some .numbered }
    let given : List Value := [.null, .bool true, .null]
    let script : BatchInput := .script "UPDATE $2; DELETE $1"
    Script.splitWithPlaceholders {} "UPDATE $2; DELETE $1" = .ok [first, second] ∧
    (∃ reply after, .execute "UPDATE $2" {} [.null, .bool true] reply after ∈
      (execute {} script {} (.flat given) (⟨s, []⟩ : Recorded Scripted.State)).2.log) ∧
    Supplied {} [first, second] given "UPDATE $2" [.null, .bool true] ∧
    execute {} script {} (.flat []) (⟨s, []⟩ : Recorded Scripted.State) =
      (.failed (.bind (.valueCount 3 0)), ⟨s, []⟩) := by
  intro s first second given script
  have hsplit : Script.splitWithPlaceholders {} "UPDATE $2; DELETE $1" = .ok [first, second] := rfl
  obtain ⟨hsupplied, -⟩ := execute_flat_supplied {} "UPDATE $2; DELETE $1" {} given s
  obtain ⟨-, hrefused⟩ := execute_flat_supplied {} "UPDATE $2; DELETE $1" {} [] s
  have hsent : ∃ reply after, .execute "UPDATE $2" {} [.null, .bool true] reply after ∈
      (execute {} script {} (.flat given) (⟨s, []⟩ : Recorded Scripted.State)).2.log :=
    ⟨_, _, List.mem_of_getElem? (i := 3) rfl⟩
  obtain ⟨reply, after, hmem⟩ := hsent
  obtain ⟨statements, hstatements, hfirst⟩ := hsupplied _ _ _ _ _ hmem
  obtain rfl : [first, second] = statements := Except.ok.inj (hsplit.symm.trans hstatements)
  exact ⟨hsplit, ⟨reply, after, hmem⟩, hfirst, hrefused _ hsplit (.inr (by decide))⟩

/-- A number of more than 64 bits is passed over, and its statement is sent without a value. Two
statements whose counts do not fit into 64 bits together bring the call down. -/
theorem execute_flat_uncounted :
    let s : Scripted.State := {}
    let digits := "99999999999999999999".toList
    (∃ reply after, .execute "SELECT $99999999999999999999" {} [] reply after ∈
      (execute {} (.script "SELECT $99999999999999999999") {} (.flat [])
        (⟨s, []⟩ : Recorded Scripted.State)).2.log) ∧
    Placeholders.mask {} "SELECT $99999999999999999999".toList =
      .ok "SELECT $99999999999999999999".toList ∧
    Placeholders.HasNumber "SELECT $99999999999999999999".toList digits ∧
    ([] : List Value).length < Text.digitsValue digits ∧
    execute {} (.script "SELECT $18446744073709551615; SELECT $1") {} (.flat []) s =
      (.interrupted .overflow, s) := by
  refine ⟨⟨_, _, List.mem_of_getElem? (i := 3) rfl⟩, rfl, ⟨"SELECT ".toList, [], ?_⟩, ?_, rfl⟩
  · decide
  · decide

end Batch

end SqlBatch
