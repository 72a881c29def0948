import Mathlib.Data.List.Basic

/-!
# Queries that may fail

A client sends a statement and gets an answer, or an error before or after the effect.  A
statement with parameters goes through the extended protocol, which takes a single command.
-/

namespace Linkora
namespace Query

universe u

variable {δ : Type u}

/-- How a query ends: as it should, or with an error before or after its effect. -/
inductive Outcome where
  | ok
  | failed (message : String) (applied : Bool)
  deriving DecidableEq

structure Statement (δ : Type u) where
  commands : List (δ → δ)
  parameters : Nat

namespace Statement

/-- A prepared statement is a single command. -/
def accepted (q : Statement δ) : Bool := decide (q.parameters = 0 ∨ q.commands.length ≤ 1)

def apply (q : Statement δ) (db : δ) : δ := q.commands.foldl (fun db command => command db) db

/-- The database after the statement, and the error that the client sees. -/
def exec (q : Statement δ) (outcome : Outcome) (db : δ) : δ × Option String :=
  match outcome with
  | .ok =>
    if q.accepted = true then (q.apply db, none)
    else (db, some "cannot insert multiple commands into a prepared statement")
  | .failed message applied =>
    (if q.accepted = true ∧ applied = true then q.apply db else db, some message)

variable {q : Statement δ} {db : δ}

theorem exec_ok (h : q.accepted = true) : q.exec .ok db = (q.apply db, none) := if_pos h

/-- What holds before the statement and after its commands holds however the query ends. -/
theorem exec_keeps {P : δ → Prop} (hdb : P db) (happly : q.accepted = true → P (q.apply db))
    (outcome : Outcome) : P (q.exec outcome db).1 := by
  cases outcome with
  | ok =>
    rw [exec]
    split
    · exact happly ‹_›
    · exact hdb
  | failed message applied =>
    show P (if q.accepted = true ∧ applied = true then q.apply db else db)
    split
    · rename_i hboth
      exact happly hboth.1
    · exact hdb

end Statement
end Query
end Linkora
