/-
  ArgoExporter.Lib.AtomicRegister

  Traces of a register with one writer and any number of clients.  A client asks
  and is answered later; an answer is the value that was newest when the client
  asked, or repeats what the client was told before.  Traces are newest first.
-/

import Mathlib.Data.List.Basic

namespace ArgoExporter.Lib.AtomicRegister

/-- What is seen of a run. -/
inductive Event (Client Value Answer : Type*) where
  | write (value : Value)
  | ask (client : Client)
  | answer (client : Client) (answer : Answer)

variable {Client Value Answer : Type*}

/-! ## Reading a trace -/

/-- The values written, newest first. -/
def writes : List (Event Client Value Answer) → List Value
  | [] => []
  | .write value :: earlier => value :: writes earlier
  | _ :: earlier => writes earlier

theorem writes_append (later earlier : List (Event Client Value Answer)) :
    writes (later ++ earlier) = writes later ++ writes earlier := by
  induction later with
  | nil => rfl
  | cons event later ih =>
      cases event with
      | write value => exact congrArg (value :: ·) ih
      | ask client => exact ih
      | answer client answer => exact ih

/-- Values are written while clients wait. -/
theorem writes_map_write (values : List Value) (earlier : List (Event Client Value Answer)) :
    writes (values.map .write ++ earlier) = values ++ writes earlier := by
  induction values with
  | nil => rfl
  | cons value values ih => exact congrArg (value :: ·) ih

variable [DecidableEq Client]

/-- The values that had been written when the client last asked, newest first. -/
def known (client : Client) : List (Event Client Value Answer) → List Value
  | [] => []
  | .ask c :: earlier => if c = client then writes earlier else known client earlier
  | _ :: earlier => known client earlier

/-- What the client was told, newest first. -/
def answers (client : Client) : List (Event Client Value Answer) → List Answer
  | [] => []
  | .answer c answer :: earlier =>
      if c = client then answer :: answers client earlier else answers client earlier
  | _ :: earlier => answers client earlier

/-- Every answer is right for the value that was newest when its client asked, if there was one, or
    for what the client was told before. -/
inductive Atomic (right : Option Value → Answer → Prop) (again : Option Answer → Answer → Prop) :
    List (Event Client Value Answer) → Prop
  | nil : Atomic right again []
  | write {earlier : List (Event Client Value Answer)} (value : Value)
      (h : Atomic right again earlier) : Atomic right again (.write value :: earlier)
  | ask {earlier : List (Event Client Value Answer)} (client : Client)
      (h : Atomic right again earlier) : Atomic right again (.ask client :: earlier)
  | answer {earlier : List (Event Client Value Answer)} {client : Client} {answer : Answer}
      (h : Atomic right again earlier)
      (hanswer : right (known client earlier).head? answer ∨
        again (answers client earlier).head? answer) :
      Atomic right again (.answer client answer :: earlier)

/-! ## Growing traces -/

theorem known_map_write (client : Client) (values : List Value)
    (earlier : List (Event Client Value Answer)) :
    known client (values.map .write ++ earlier) = known client earlier := by
  induction values with
  | nil => rfl
  | cons value values ih => exact ih

theorem answers_map_write (client : Client) (values : List Value)
    (earlier : List (Event Client Value Answer)) :
    answers client (values.map .write ++ earlier) = answers client earlier := by
  induction values with
  | nil => rfl
  | cons value values ih => exact ih

theorem Atomic.map_write {right : Option Value → Answer → Prop} {again : Option Answer → Answer → Prop}
    {earlier : List (Event Client Value Answer)} (h : Atomic right again earlier)
    (values : List Value) : Atomic right again (values.map .write ++ earlier) := by
  induction values with
  | nil => exact h
  | cons value values ih => exact ih.write value

/-- A client that asked knows the values of some earlier moment. -/
theorem known_suffix (client : Client) (trace : List (Event Client Value Answer)) :
    known client trace <:+ writes trace := by
  induction trace with
  | nil => exact List.suffix_refl _
  | cons event trace ih =>
      cases event with
      | write value => exact ih.trans (List.suffix_cons _ _)
      | ask c =>
          unfold known
          split_ifs
          · exact List.suffix_refl _
          · exact ih
      | answer c answer => exact ih

/-- A client knows all that was written before it asked. -/
theorem writes_suffix_known (client : Client) (later earlier : List (Event Client Value Answer)) :
    writes earlier <:+ known client (later ++ .ask client :: earlier) := by
  induction later with
  | nil =>
      have hself : known client (.ask client :: earlier) = writes earlier := if_pos rfl
      exact hself ▸ List.suffix_refl _
  | cons event later ih =>
      cases event with
      | write value => exact ih
      | ask c =>
          show writes earlier <:+ if c = client then writes (later ++ .ask client :: earlier) else _
          split_ifs
          · rw [writes_append]
            exact List.suffix_append _ _
          · exact ih
      | answer c answer => exact ih

theorem Atomic.of_append {right : Option Value → Answer → Prop} {again : Option Answer → Answer → Prop}
    {later earlier : List (Event Client Value Answer)}
    (h : Atomic right again (later ++ earlier)) : Atomic right again earlier := by
  induction later with
  | nil => exact h
  | cons event later ih =>
      cases h with
      | write value h => exact ih h
      | ask client h => exact ih h
      | answer h => exact ih h

/-! ## Order of answers -/

/-- When a client asks after another was answered, both with the newest value of their moment, it
    is answered with that value or a later one. -/
theorem Atomic.no_inversion {right : Option Value → Answer → Prop}
    {again : Option Answer → Answer → Prop} {first second : Client} {a b : Answer}
    {latest between earlier : List (Event Client Value Answer)}
    (h : Atomic right again
      (.answer second b :: latest ++ .ask second :: between ++ .answer first a :: earlier))
    (ha : ∀ last, ¬ again last a) (hb : ∀ last, ¬ again last b) :
    ∃ old new, old <:+ new ∧
      new <:+ writes (latest ++ .ask second :: between ++ .answer first a :: earlier) ∧
      right old.head? a ∧ right new.head? b := by
  have hfirst : Atomic right again (.answer first a :: earlier) := h.of_append
  cases h with
  | answer h hanswer =>
      have hnew := hanswer.resolve_right (hb _)
      cases hfirst with
      | answer hearlier hanswer =>
          have hold := hanswer.resolve_right (ha _)
          refine ⟨_, _, ?_, known_suffix second _, hold, hnew⟩
          -- what the first client knew had been written before the second one asked
          have hbefore : known first earlier <:+ writes (between ++ .answer first a :: earlier) := by
            rw [writes_append]
            exact (known_suffix first earlier).trans (List.suffix_append _ _)
          have hasked := writes_suffix_known second latest (between ++ .answer first a :: earlier)
          rw [List.append_assoc]
          exact hbefore.trans hasked

end ArgoExporter.Lib.AtomicRegister
