import SqlBatch.Connection.Basic

/-!
# Connections whose calls are noted

A recorded connection does what the connection inside it does, and notes each call with what came of
it. Questions about the state of a connection are no calls.
-/

namespace SqlBatch

/-- A call on a connection, and what came of it. -/
inductive Entry (σ : Type) where
  /-- A statement, and the state of the connection after it. -/
  | execute (sql : String) (attributes : Attributes) (values : List Value)
      (reply : Reply ConnectionError StatementResult) (after : σ)
  | begin (reply : Reply ConnectionError Unit)
  | commit (reply : Reply ConnectionError Unit)
  | rollback (reply : Reply ConnectionError Unit)
  | abort (result : Except ConnectionError Unit)
  | autoCommit (on : Bool) (result : Except ConnectionError Unit)
  | strictError (on : Bool)
  | close (reply : Reply ConnectionError Unit)

/-- A connection, and the calls on it so far. -/
structure Recorded (σ : Type) where
  inner : σ
  log : List (Entry σ) := []

namespace Recorded

variable {σ α : Type}

def note (entry : α → σ → Entry σ) (call : σ → α × σ) (r : Recorded σ) : α × Recorded σ :=
  match call r.inner with
  | (a, s) => (a, ⟨s, r.log ++ [entry a s]⟩)

instance [Connection σ] : Connection (Recorded σ) where
  driverName r := Connection.driverName r.inner
  execute sql attributes values :=
    note (.execute sql attributes values) (Connection.execute sql attributes values)
  begin := note (fun reply _ => .begin reply) Connection.begin
  commit := note (fun reply _ => .commit reply) Connection.commit
  rollback := note (fun reply _ => .rollback reply) Connection.rollback
  abort := note (fun result _ => .abort result) Connection.abort
  autoCommit r := Connection.autoCommit r.inner
  setAutoCommit on := note (fun result _ => .autoCommit on result) (Connection.setAutoCommit on)
  strictError r := Connection.strictError r.inner
  setStrictError on r := ⟨Connection.setStrictError on r.inner, r.log ++ [.strictError on]⟩
  errorInfo r := Connection.errorInfo r.inner
  close := note (fun reply _ => .close reply) Connection.close
  isClosed r := Connection.isClosed r.inner

theorem note_eq {entry : α → σ → Entry σ} {call : σ → α × σ} {r : Recorded σ} {a : α} {s : σ}
    (h : call r.inner = (a, s)) : note entry call r = (a, ⟨s, r.log ++ [entry a s]⟩) := by
  rw [note, h]

variable [Connection σ] {s : σ} (r : Recorded σ)

theorem execute_eq {sql : String} {attributes : Attributes} {values : List Value}
    {reply : Reply ConnectionError StatementResult}
    (h : Connection.execute sql attributes values r.inner = (reply, s)) :
    Connection.execute sql attributes values r =
      (reply, ⟨s, r.log ++ [.execute sql attributes values reply s]⟩) := note_eq h

theorem begin_eq {reply : Reply ConnectionError Unit} (h : Connection.begin r.inner = (reply, s)) :
    Connection.begin r = (reply, ⟨s, r.log ++ [.begin reply]⟩) := note_eq h

theorem commit_eq {reply : Reply ConnectionError Unit}
    (h : Connection.commit r.inner = (reply, s)) :
    Connection.commit r = (reply, ⟨s, r.log ++ [.commit reply]⟩) := note_eq h

theorem rollback_eq {reply : Reply ConnectionError Unit}
    (h : Connection.rollback r.inner = (reply, s)) :
    Connection.rollback r = (reply, ⟨s, r.log ++ [.rollback reply]⟩) := note_eq h

theorem abort_eq {result : Except ConnectionError Unit}
    (h : Connection.abort r.inner = (result, s)) :
    Connection.abort r = (result, ⟨s, r.log ++ [.abort result]⟩) := note_eq h

theorem setAutoCommit_eq {on : Bool} {result : Except ConnectionError Unit}
    (h : Connection.setAutoCommit on r.inner = (result, s)) :
    Connection.setAutoCommit on r = (result, ⟨s, r.log ++ [.autoCommit on result]⟩) := note_eq h

theorem setStrictError_eq (on : Bool) : Connection.setStrictError on r =
    ⟨Connection.setStrictError on r.inner, r.log ++ [.strictError on]⟩ := rfl

end Recorded

end SqlBatch
