import SqlBatch.Embedded.Connection
import SqlBatch.Proofs.Failing

/-!
# What a connection relies on

A connection to the embedded database asks little of the database: whether a transaction is open, to
open and to end one, and to run a statement. `Engine` is any database that can be asked so, and a
`View` of it says what the database promises of the rows. The sessions of this library keep the
promise.
-/

namespace SqlBatch

namespace Embedded

/-- What a connection asks of a session. A command and a statement leave the session as it then is,
whether or not they succeed. -/
class Engine (ε : Type) where
  inTransaction : ε → Bool
  begin : ε → Except DatabaseError Unit × ε
  commit : ε → Except DatabaseError Unit × ε
  rollback : ε → Except DatabaseError Unit × ε
  /-- Runs the only statement of a text with its values, for no more rows than allowed. -/
  run : String → List Value → Option Nat → ε → Except DatabaseError StatementResult × ε

/-! ### Rows -/

/-- The rows of a database as a session sees them, and the rows that are committed as long as a
transaction is open. -/
structure Rows (δ : Type) where
  current : δ
  saved : Option δ

namespace Rows

variable {δ : Type}

def committed (r : Rows δ) : δ := r.saved.getD r.current

def opened (r : Rows δ) : Rows δ := ⟨r.current, some r.current⟩

def kept (r : Rows δ) : Rows δ := ⟨r.current, none⟩

def undone (r : Rows δ) : Rows δ := ⟨r.committed, none⟩

/-- A command changes the rows, unless it fails. -/
def after (r : Rows δ) (change : Rows δ → Rows δ) : Except DatabaseError Unit → Rows δ
  | .ok () => change r
  | .error _ => r

end Rows

/-- How the rows behind the sessions of a database are seen. Commands are given only where they can
be carried out, and what they do is documented of the database: to open a transaction changes no
rows, to commit it makes the rows of the session the committed ones, and to roll it back brings the
committed ones back. A command that fails leaves everything as it was. No other session writes. -/
structure View (ε δ : Type) [Engine ε] where
  rows : ε → Rows δ
  inTransaction_eq (s : ε) : Engine.inTransaction s = (rows s).saved.isSome
  begin_rows {s : ε} : Engine.inTransaction s = false →
    rows (Engine.begin s).2 = (rows s).after Rows.opened (Engine.begin s).1
  commit_rows {s : ε} : Engine.inTransaction s = true →
    rows (Engine.commit s).2 = (rows s).after Rows.kept (Engine.commit s).1
  rollback_rows {s : ε} : Engine.inTransaction s = true →
    rows (Engine.rollback s).2 = (rows s).after Rows.undone (Engine.rollback s).1

/-- A statement neither opens nor ends a transaction, nor makes the database roll one back. -/
def View.Plain {ε δ : Type} [Engine ε] (view : View ε δ) (sql : String) (limit : Option Nat)
    (values : List Value) (s : ε) : Prop :=
  (view.rows (Engine.run sql values limit s).2).saved = (view.rows s).saved

/-! ### The sessions of this library -/

instance : Engine Session where
  inTransaction := Session.inTransaction
  begin := Session.begin
  commit := Session.commit
  rollback := Session.rollback
  run sql values limit s :=
    match s.execute sql values with
    | (.ok answer, s) => (.ok (Handle.resultOf limit answer), s)
    | (.error e, s) => (.error e, s)

def Command.controlsTransaction : Command → Bool
  | .begin | .commit | .rollback => true
  | .createTable .. | .insert .. | .delete _ | .select .. | .pragma _ => false

namespace Session

/-- The tables behind the sessions of this library. -/
def view : View Session Database where
  rows s := ⟨s.current, s.saved⟩
  inTransaction_eq s := rfl
  begin_rows {s} hidle := by
    change (⟨s.begin.2.current, s.begin.2.saved⟩ : Rows Database) = Rows.after _ _ s.begin.1
    rw [Session.begin, if_neg (by simpa [Engine.inTransaction] using hidle)]
    rfl
  commit_rows {s} hbusy := by
    change (⟨s.commit.2.current, s.commit.2.saved⟩ : Rows Database) = Rows.after _ _ s.commit.1
    rw [Session.commit]
    split
    · rfl
    · split <;> rfl
  rollback_rows {s} hbusy := by
    change (⟨s.rollback.2.current, s.rollback.2.saved⟩ : Rows Database) =
      Rows.after _ _ s.rollback.1
    rw [Session.rollback]
    cases hsaved : s.saved with
    | none => simp [Rows.after, hsaved]
    | some saved => simp [Rows.after, Rows.undone, Rows.committed]

theorem change_saved (s : Session) (changes : UInt64) (changed : Database) :
    (s.change changes changed).2.saved = s.saved := by
  unfold change
  split
  · rfl
  · split <;> rfl

theorem run_saved (s : Session) (parameters : List Cell) {command : Command}
    (h : command.controlsTransaction = false) : (s.run parameters command).2.saved = s.saved := by
  cases command with
  | createTable name start columns => exact change_saved s _ _
  | insert name columns rows =>
      rw [run]
      split
      · exact change_saved s _ _
      · rfl
  | delete name =>
      rw [run]
      split
      · exact change_saved s _ _
      · rfl
  | select items name => rfl
  | pragma name =>
      rw [run]
      split
      · rfl
      · split <;> rfl
  | begin | commit | rollback => cases h

theorem plain_of_prepare {sql : String} {s : Session}
    (h : ∀ prepared, s.prepare sql.toList = .ok (some prepared) →
      prepared.command.controlsTransaction = false) (limit : Option Nat) (values : List Value) :
    view.Plain sql limit values s := by
  have hsaved : (s.execute sql values).2.saved = s.saved := by
    rw [execute]
    split
    · rfl
    · rfl
    · rename_i prepared hprepared
      split
      · rfl
      · rename_i bound hbound
        have hrun := run_saved s (bound.map Cell.ofValue) (h prepared hprepared)
        split <;> rename_i hdone <;> rw [hdone] at hrun <;> exact hrun
  rw [View.Plain]
  change (Engine.run sql values limit s).2.saved = s.saved
  rw [← hsaved]
  dsimp only [Engine.run]
  rcases s.execute sql values with ⟨e | answer, s'⟩ <;> rfl

private theorem exists_command (source : List Char) : ∃ command, ∀ (s : Session) prepared following,
    s.prepareNext source = .ok (some (prepared, following)) → prepared.command = command := by
  unfold prepareNext
  dsimp only
  split
  · exact ⟨.begin, fun s prepared following h => by cases h⟩
  · split
    · exact ⟨.begin, fun s prepared following h => by cases h⟩
    · split
      · exact ⟨.begin, fun s prepared following h => by cases h⟩
      · rename_i command hcommand
        refine ⟨command, fun s prepared following h => ?_⟩
        obtain ⟨titles, -, hread⟩ := exists_of_bind_eq_ok h
        cases hread
        rfl

theorem prepareNext_of_prepare {s : Session} {source : List Char} {prepared : Prepared}
    (h : s.prepare source = .ok (some prepared)) :
    ∃ following, s.prepareNext source = .ok (some (prepared, following)) := by
  rw [prepare] at h
  rcases hfirst : s.prepareNext source with e | _ | ⟨first, following⟩ <;> rw [hfirst] at h
  · cases h
  · cases h
  · dsimp only [bind, Except.bind] at h
    rcases hsecond : s.prepareNext following with e | _ | second <;> rw [hsecond] at h <;> cases h
    exact ⟨following, rfl⟩

/-- Whether a session reads a text as a command that does not control transactions. -/
def readsPlain (s : Session) (sql : String) : Bool :=
  match s.prepare sql.toList with
  | .ok (some prepared) => !prepared.command.controlsTransaction
  | .ok none | .error _ => false

/-- What one session reads as plain is plain in each. -/
theorem plain_of_readsPlain (reader : Session) {sql : String} (h : reader.readsPlain sql = true)
    (limit : Option Nat) (values : List Value) (s : Session) : view.Plain sql limit values s := by
  unfold readsPlain at h
  split at h
  · rename_i read hread
    refine plain_of_prepare (fun prepared hprepared => ?_) limit values
    obtain ⟨command, hcommand⟩ := exists_command sql.toList
    obtain ⟨following, hfirst⟩ := prepareNext_of_prepare hread
    obtain ⟨following', hfirst'⟩ := prepareNext_of_prepare hprepared
    rw [hcommand s prepared following' hfirst', ← hcommand reader read following hfirst]
    simpa using h
  · cases h
  · cases h

end Session

end Embedded

end SqlBatch
