import Steda.Postgres.Catalog
import Steda.Schema

/-!
# Creating the storage of a queue

`create_queue` registers a name and creates three tables and three indexes
whose names are made from it, in the one schema that all queues share.
-/

namespace Steda

open Postgres

/-! ## Names -/

/-- `validate_queue_name` leaves 30 of the 63 bytes for what is added. -/
def maxQueueNameBytes : Nat := 33

/-- What the creation of a queue fails with. -/
inductive QueueError
  | nameMissing
  | nameTooLong (queue : String)
  | duplicateRelation (relation : String)
  | storageIncomplete (queue : String)
  | indexesMissing (queue : String)
  deriving DecidableEq, Repr

/-- The text of an error. -/
def QueueError.message : QueueError → String
  | .nameMissing => "Queue name must be provided"
  | .nameTooLong queue => "Queue name \"" ++ queue ++ "\" is too long (max 33 bytes)."
  | .duplicateRelation relation => "relation \"" ++ relation ++ "\" already exists"
  | .storageIncomplete queue => "Queue \"" ++ queue ++ "\" storage is incomplete"
  | .indexesMissing queue => "Queue \"" ++ queue ++ "\" storage is missing required indexes"

/-- `validate_queue_name`. -/
def validateQueueName (space : Char → Bool) (queueName : Option String) :
    Except QueueError String :=
  match queueName with
  | none => .error .nameMissing
  | some queue =>
      if isBlank space queue then .error .nameMissing
      else if queue.utf8ByteSize > maxQueueNameBytes then .error (.nameTooLong queue)
      else .ok queue

/-- The tasks of a queue. -/
def tasksTable (queue : String) : String := "tasks_" ++ queue

/-- The runs of a queue. -/
def runsTable (queue : String) : String := "runs_" ++ queue

/-- The checkpoints of a queue. -/
def checkpointsTable (queue : String) : String := "checkpoints_" ++ queue

/-- The index of runs by state and availability. -/
def stateAvailableAtIndex (queue : String) : String :=
  runsTable queue ++ "_state_available_at_index"

/-- The unique index of active runs by task. -/
def oneActiveRunIndex (queue : String) : String := runsTable queue ++ "_one_active_run_index"

/-- The index of running runs by the end of their claim. -/
def claimExpiresAtIndex (queue : String) : String := runsTable queue ++ "_claim_expires_at_index"

/-- The relations `create_queue_tables` creates, in its order. -/
def queueRelations (queue : String) : List Relation :=
  [⟨tasksTable queue, ["_pkey", "_idempotency_key_key"]⟩,
    ⟨runsTable queue, ["_pkey", "_task_id_attempt_key", "_task_id_id_key"]⟩,
    ⟨checkpointsTable queue, ["_pkey"]⟩,
    ⟨stateAvailableAtIndex queue, []⟩,
    ⟨oneActiveRunIndex queue, []⟩,
    ⟨claimExpiresAtIndex queue, []⟩]

/-- The names `create_queue_tables` spells out. -/
def queueNames (queue : String) : List String := (queueRelations queue).map Relation.name

/-! ## Creation -/

/-- The registered queues and the relations of the schema. -/
structure Database where
  queues : List String
  relations : List String
  deriving DecidableEq, Repr

/-- The schema as it is installed. -/
def Database.installed : Database where
  queues := []
  relations := ["queues", "queues_pkey"]

/-- `create_queue_tables`. -/
def createQueueTables (space : Char → Bool) (queue : String) (database : Database) :
    Except QueueError Database := do
  let queue ← validateQueueName space (some queue)
  match createAll (queueRelations queue) database.relations with
  | .error relation => .error (.duplicateRelation relation)
  | .ok relations => .ok { database with relations }

/-- `verify_queue_storage`, as far as it looks for relations. -/
def verifyQueueStorage (space : Char → Bool) (queue : String) (database : Database) :
    Except QueueError Unit := do
  let queue ← validateQueueName space (some queue)
  if ¬ [tasksTable queue, runsTable queue, checkpointsTable queue].all
      database.relations.contains then
    throw (.storageIncomplete queue)
  if ¬ [stateAvailableAtIndex queue, oneActiveRunIndex queue, claimExpiresAtIndex queue].all
      database.relations.contains then
    throw (.indexesMissing queue)

/-- `create_queue`: register and create, or verify what is registered. -/
def createQueue (space : Char → Bool) (queueName : Option String) (database : Database) :
    Except QueueError Database := do
  let queue ← validateQueueName space queueName
  if queue ∈ database.queues then
    verifyQueueStorage space queue database
    pure database
  else
    createQueueTables space queue { database with queues := database.queues ++ [queue] }

/-! ## Generated names -/

/-- What comes before a queue's name. -/
def namePrefixes : List String := ["tasks_", "runs_", "checkpoints_"]

/-- What comes after a queue's name in the name of an index of its own. -/
def indexSuffixes : List String :=
  ["_state_available_at_index", "_one_active_run_index", "_claim_expires_at_index"]

/-- What comes after a queue's name in the name of a constraint's index. -/
def constraintSuffixes : List String :=
  ["_pkey", "_idempotency_key_key", "_task_id_attempt_key", "_task_id_id_key"]

theorem prefixes_apart : ∀ start ∈ namePrefixes, ∀ other ∈ namePrefixes, start ≠ other →
    ¬start.toList <+: other.toList ∧ ¬other.toList <+: start.toList := by
  decide

theorem suffixes_apart : ∀ ending ∈ "" :: (indexSuffixes ++ constraintSuffixes),
    ∀ last ∈ "" :: (indexSuffixes ++ constraintSuffixes), ending ≠ "" → last ≠ "" →
      ending ≠ last → ¬ending.toList <:+ last.toList ∧ ¬last.toList <:+ ending.toList := by
  decide +kernel

/-- Names of different queues are the same only when one of them ends with its
queue's name and that name is the other's followed by the other's suffix. -/
theorem generated_eq_iff {first second : String} (distinct : first ≠ second)
    {start other : String} (starts : start ∈ namePrefixes) (others : other ∈ namePrefixes)
    {ending last : String} (ends : ending ∈ "" :: (indexSuffixes ++ constraintSuffixes))
    (lasts : last ∈ "" :: (indexSuffixes ++ constraintSuffixes)) :
    start ++ first ++ ending = other ++ second ++ last ↔
      start = other ∧ ((ending = "" ∧ first = second ++ last) ∨
        (last = "" ∧ second = first ++ ending)) := by
  by_cases sameStart : start = other
  · subst sameStart
    rw [String.append_assoc, String.append_assoc, String.append_right_inj]
    by_cases sameEnd : ending = last
    · subst sameEnd
      rw [String.append_left_inj]
      refine iff_of_false distinct ?_
      rintro ⟨_, ⟨empty, same⟩ | ⟨empty, same⟩⟩
      · exact distinct (by rw [same, empty, String.append_empty])
      · exact distinct (by rw [same, empty, String.append_empty])
    · by_cases bare : ending = ""
      · simp [bare, Ne.symm (bare ▸ sameEnd : "" ≠ last)]
      · by_cases lastBare : last = ""
        · simp [lastBare, bare, eq_comm]
        · have apart := suffixes_apart ending ends last lasts bare lastBare sameEnd
          refine iff_of_false (Text.append_apart_end first second apart.1 apart.2) ?_
          simp [bare, lastBare]
  · have apart := prefixes_apart start starts other others sameStart
    rw [String.append_assoc, String.append_assoc]
    exact iff_of_false (Text.append_apart_start _ _ apart.1 apart.2) fun both => sameStart both.1

end Steda
