import Steda.QueueStorage

/-!
# Storage of two queues

The names made from two queue names are told apart by their prefixes and
suffixes, except when one queue's name is the other's followed by a suffix.
-/

namespace Steda

open Postgres

variable {space : Char → Bool}

/-! ## Accepted names -/

theorem validateQueueName_ok {queueName : Option String} {queue : String} :
    validateQueueName space queueName = .ok queue ↔
      queueName = some queue ∧ isBlank space queue = false ∧
        queue.utf8ByteSize ≤ maxQueueNameBytes := by
  cases queueName with
  | none => simp [validateQueueName]
  | some name =>
      by_cases blank : isBlank space name = true
      · simp only [validateQueueName, blank, if_true]
        refine iff_of_false (by simp) fun accepted => ?_
        rw [← Option.some.inj accepted.1, blank] at accepted
        exact absurd accepted.2.1 (by decide)
      · by_cases long : name.utf8ByteSize > maxQueueNameBytes
        · simp only [validateQueueName, blank, long, if_true]
          refine iff_of_false (by simp) fun accepted => ?_
          rw [← Option.some.inj accepted.1] at accepted
          exact absurd accepted.2.2 (not_le.mpr long)
        · have accepts : validateQueueName space (some name) = .ok name := by
            simp [validateQueueName, blank, long]
          rw [accepts, Except.ok.injEq, Option.some.injEq]
          constructor
          · rintro rfl
            exact ⟨rfl, by simpa using blank, not_lt.mp long⟩
          · exact fun accepted => accepted.1

/-- A name is accepted by `validate_queue_name`. -/
def Accepted (space : Char → Bool) (queue : String) : Prop :=
  validateQueueName space (some queue) = .ok queue

theorem accepted_iff {queue : String} : Accepted space queue ↔
    isBlank space queue = false ∧ queue.utf8ByteSize ≤ maxQueueNameBytes := by
  unfold Accepted
  rw [validateQueueName_ok, and_iff_right rfl]

instance (queue : String) : Decidable (Accepted space queue) :=
  decidable_of_iff _ accepted_iff.symm

theorem Accepted.short {queue : String} (accepted : Accepted space queue) :
    queue.utf8ByteSize ≤ 33 :=
  (accepted_iff.mp accepted).2

/-- Every relation of an accepted name fits into an identifier. -/
theorem Accepted.fits {queue : String} (accepted : Accepted space queue) :
    ∀ relation ∈ queueRelations queue,
      relation.name.utf8ByteSize ≤ maxIdentifierBytes := by
  have short := accepted.short
  have prefixes : "tasks_".utf8ByteSize = 6 ∧ "runs_".utf8ByteSize = 5 ∧
      "checkpoints_".utf8ByteSize = 12 := by decide
  have suffixes : "_state_available_at_index".utf8ByteSize = 25 ∧
      "_one_active_run_index".utf8ByteSize = 21 ∧
      "_claim_expires_at_index".utf8ByteSize = 23 := by decide
  simp only [queueRelations, List.forall_mem_cons, tasksTable, runsTable, checkpointsTable,
    stateAvailableAtIndex, oneActiveRunIndex, claimExpiresAtIndex, String.utf8ByteSize_append,
    maxIdentifierBytes]
  refine ⟨by omega, by omega, by omega, by omega, by omega, by omega, ?_⟩
  rintro relation ⟨⟩

/-! ## Names as prefix, queue and suffix -/

/-- The parts of the names `create_queue_tables` spells out. -/
def explicitParts : List (String × String) :=
  [("tasks_", ""), ("runs_", ""), ("checkpoints_", "")] ++
    indexSuffixes.map fun ending => ("runs_", ending)

/-- The parts of all names, those of the constraints' indexes included, in the
order in which they are created. -/
def allParts : List (String × String) :=
  [("tasks_", ""), ("tasks_", "_pkey"), ("tasks_", "_idempotency_key_key"), ("runs_", ""),
    ("runs_", "_pkey"), ("runs_", "_task_id_attempt_key"), ("runs_", "_task_id_id_key"),
    ("checkpoints_", ""), ("checkpoints_", "_pkey")] ++
    indexSuffixes.map fun ending => ("runs_", ending)

/-- The name that parts make with a queue's name. -/
def generated (queue : String) (parts : String × String) : String := parts.1 ++ queue ++ parts.2

theorem queueNames_eq (queue : String) : queueNames queue = explicitParts.map (generated queue) := by
  simp [queueNames, queueRelations, explicitParts, generated, indexSuffixes, tasksTable, runsTable,
    checkpointsTable, stateAvailableAtIndex, oneActiveRunIndex, claimExpiresAtIndex]

theorem allNames_eq (queue : String) :
    (queueRelations queue).flatMap Relation.names = allParts.map (generated queue) := by
  simp [queueRelations, allParts, generated, indexSuffixes, tasksTable, runsTable,
    checkpointsTable, stateAvailableAtIndex, oneActiveRunIndex, claimExpiresAtIndex,
    Relation.names, Relation.bases]

theorem parts_known : ∀ parts ∈ allParts, parts.1 ∈ namePrefixes ∧
    parts.2 ∈ "" :: (indexSuffixes ++ constraintSuffixes) := by
  decide

theorem explicit_known : ∀ parts ∈ explicitParts, parts ∈ allParts ∧
    parts.2 ∈ "" :: indexSuffixes := by
  decide

/-- One queue's names are different from each other. -/
theorem generated_inj {queue : String} {parts others : String × String} (known : parts ∈ allParts)
    (knownToo : others ∈ allParts) (same : generated queue parts = generated queue others) :
    parts = others := by
  have sameStart : parts.1 = others.1 := by
    by_contra different
    have apart := prefixes_apart _ (parts_known _ known).1 _ (parts_known _ knownToo).1 different
    unfold generated at same
    rw [String.append_assoc, String.append_assoc] at same
    exact Text.append_apart_start _ _ apart.1 apart.2 same
  unfold generated at same
  rw [sameStart, String.append_right_inj] at same
  exact Prod.ext sameStart same

theorem allNames_nodup (queue : String) :
    ((queueRelations queue).flatMap Relation.names).Nodup := by
  rw [allNames_eq]
  refine List.Nodup.map_on (fun parts known others knownToo => generated_inj known knownToo) ?_
  decide

/-- The registry's own relations have none of the generated names. -/
theorem generated_not_installed (queue : String) {parts : String × String}
    (known : parts ∈ allParts) : generated queue parts ∉ Database.installed.relations := by
  have apart : ∀ start ∈ namePrefixes, ∀ name ∈ Database.installed.relations,
      ¬start.toList <+: name.toList := by decide
  intro member
  refine apart parts.1 (parts_known parts known).1 _ member ?_
  unfold generated
  rw [String.append_assoc, String.toList_append]
  exact List.prefix_append _ _

/-! ## One queue -/

/-- The schema once a queue is created in it as installed. -/
def Database.alone (queue : String) : Database where
  queues := [queue]
  relations := Database.installed.relations ++ allParts.map (generated queue)

theorem createQueueTables_of_createAll {queue : String} (accepted : Accepted space queue)
    (database : Database) : createQueueTables space queue database =
      match createAll (queueRelations queue) database.relations with
      | .error relation => .error (.duplicateRelation relation)
      | .ok relations => .ok { database with relations } := by
  unfold Accepted at accepted
  simp only [createQueueTables, accepted]
  rfl

theorem createQueue_new {queue : String} {database : Database} (accepted : Accepted space queue)
    (isNew : queue ∉ database.queues) : createQueue space (some queue) database =
      match createAll (queueRelations queue) database.relations with
      | .error relation => .error (.duplicateRelation relation)
      | .ok relations => .ok ⟨database.queues ++ [queue], relations⟩ := by
  have created := createQueueTables_of_createAll accepted
    { database with queues := database.queues ++ [queue] }
  unfold Accepted at accepted
  simp only [createQueue, accepted]
  exact (if_neg isNew).trans created

theorem createQueue_installed {queue : String} (accepted : Accepted space queue) :
    createQueue space (some queue) Database.installed = .ok (Database.alone queue) := by
  have free : ∀ name ∈ (queueRelations queue).flatMap Relation.names,
      name ∉ Database.installed.relations := by
    intro name member
    rw [allNames_eq] at member
    obtain ⟨parts, known, rfl⟩ := List.mem_map.mp member
    exact generated_not_installed queue known
  rw [createQueue_new accepted (by exact List.not_mem_nil),
    createAll_free accepted.fits (allNames_nodup queue) free, allNames_eq]
  rfl

/-! ## Two queues -/

/-- One name is the other followed by what is added for an index. -/
def Overlap (first second : String) : Prop :=
  (∃ ending ∈ indexSuffixes ++ constraintSuffixes, second = first ++ ending) ∨
    ∃ ending ∈ indexSuffixes, first = second ++ ending

instance (first second : String) : Decidable (Overlap first second) := by
  unfold Overlap
  infer_instance

/-- Two queues have storage of their own: no name in common, no name
shortened, and the second is created in the presence of the first. -/
structure Separate (space : Char → Bool) (first second : String) : Prop where
  disjoint : (queueNames first).Disjoint (queueNames second)
  unshortened : ∀ name ∈ queueNames first ++ queueNames second, truncateIdentifier name = name
  created : ∃ database after, createQueue space (some first) Database.installed = .ok database ∧
    createQueue space (some second) database = .ok after

/-- Without an overlap no name of the second queue is a name of the first. -/
theorem generated_apart {first second : String} (distinct : first ≠ second)
    (apart : ¬Overlap first second) {parts others : String × String} (known : parts ∈ allParts)
    (explicit : others ∈ explicitParts) : generated first parts ≠ generated second others := by
  obtain ⟨starts, ends⟩ := parts_known parts known
  obtain ⟨knownToo, lasts⟩ := explicit_known others explicit
  obtain ⟨startsToo, lastsToo⟩ := parts_known others knownToo
  intro same
  obtain ⟨_, ⟨bare, isFirst⟩ | ⟨bare, isSecond⟩⟩ :=
    (generated_eq_iff distinct starts startsToo ends lastsToo).mp same
  · rcases List.mem_cons.mp lasts with none | suffix
    · exact distinct (by rw [isFirst, none, String.append_empty])
    · exact apart (Or.inr ⟨others.2, suffix, isFirst⟩)
  · rcases List.mem_cons.mp ends with none | suffix
    · exact distinct (by rw [isSecond, none, String.append_empty])
    · exact apart (Or.inl ⟨parts.2, suffix, isSecond⟩)

/-- With an overlap some name of the second queue is a name of the first. -/
theorem generated_shared {first second : String} (overlap : Overlap first second) :
    ∃ parts ∈ allParts, ∃ others ∈ explicitParts,
      generated first parts = generated second others := by
  have suffixed : ∀ ending ∈ indexSuffixes ++ constraintSuffixes, ∃ start,
      (start, ending) ∈ allParts ∧ (start, "") ∈ explicitParts := by
    have inPrefixes : ∀ ending ∈ indexSuffixes ++ constraintSuffixes, ∃ start ∈ namePrefixes,
        (start, ending) ∈ allParts ∧ (start, "") ∈ explicitParts := by decide
    intro ending member
    obtain ⟨start, _, both⟩ := inPrefixes ending member
    exact ⟨start, both⟩
  have indexed : ∀ ending ∈ indexSuffixes, ("runs_", ending) ∈ explicitParts := by decide
  have bare : ("runs_", "") ∈ allParts := by decide
  rcases overlap with ⟨ending, member, rfl⟩ | ⟨ending, member, rfl⟩
  · obtain ⟨start, known, explicit⟩ := suffixed ending member
    exact ⟨_, known, _, explicit, by simp [generated, String.append_assoc]⟩
  · exact ⟨_, bare, _, indexed ending member, by simp [generated, String.append_assoc]⟩

/-- A name spelled out is not that of a constraint's index, numbered or not. -/
theorem generated_ne_base {queue : String} {parts others : String × String} (rest : String)
    (apart : ¬parts.1.toList <+: others.1.toList ∧ ¬others.1.toList <+: parts.1.toList ∨
      parts.1 = others.1 ∧ ¬parts.2.toList <+: others.2.toList ∧
        ¬others.2.toList <+: parts.2.toList) :
    generated queue parts ≠ generated queue others ++ rest := by
  unfold generated
  rcases apart with starts | ⟨same, ends⟩
  · rw [String.append_assoc, String.append_assoc, String.append_assoc]
    exact Text.append_apart_start _ _ starts.1 starts.2
  · rw [same, ne_eq, @String.append_assoc (others.1 ++ queue), String.append_right_inj]
    have distinct := Text.append_apart_start "" rest ends.1 ends.2
    rwa [String.append_empty] at distinct

/-- The parts of the relations and the additions of their constraints. -/
def relationParts : List ((String × String) × List String) :=
  [(("tasks_", ""), ["_pkey", "_idempotency_key_key"]),
    (("runs_", ""), ["_pkey", "_task_id_attempt_key", "_task_id_id_key"]),
    (("checkpoints_", ""), ["_pkey"])] ++ indexSuffixes.map fun ending => (("runs_", ending), [])

theorem queueRelations_eq (queue : String) : queueRelations queue =
    relationParts.map fun parts => ⟨generated queue parts.1, parts.2⟩ := by
  simp [queueRelations, relationParts, generated, indexSuffixes, tasksTable, runsTable,
    checkpointsTable, stateAvailableAtIndex, oneActiveRunIndex, claimExpiresAtIndex]

theorem relationParts_apart : relationParts.Pairwise fun earlier later =>
    later.1 ≠ earlier.1 ∧ later.1 ∈ allParts ∧ earlier.1 ∈ allParts ∧
      ∀ ending ∈ earlier.2, earlier.1.2 = "" ∧
        (¬later.1.1.toList <+: earlier.1.1.toList ∧ ¬earlier.1.1.toList <+: later.1.1.toList ∨
          later.1.1 = earlier.1.1 ∧ ¬later.1.2.toList <+: ending.toList ∧
            ¬ending.toList <+: later.1.2.toList) := by
  decide +kernel

/-- Within one queue a later relation has neither an earlier one's name nor one
that starts with that of its constraint's index. -/
theorem queueRelations_apart (queue : String) :
    (queueRelations queue).Pairwise fun earlier later => later.name ≠ earlier.name ∧
      ∀ base ∈ earlier.bases, ∀ rest, later.name ≠ base ++ rest := by
  rw [queueRelations_eq, List.pairwise_map]
  refine relationParts_apart.imp ?_
  rintro earlier later ⟨different, known, knownToo, apart⟩
  refine ⟨fun same => different (generated_inj known knownToo same), ?_⟩
  intro base isBase rest
  obtain ⟨ending, member, rfl⟩ := List.mem_map.mp isBase
  obtain ⟨bare, startsOrEnds⟩ := apart ending member
  have ends := @generated_ne_base queue later.1 (earlier.1.1, ending) rest startsOrEnds
  simpa [generated, bare] using ends

theorem createQueue_beside {first second : String} (accepted : Accepted space second)
    (distinct : first ≠ second) :
    (∃ after, createQueue space (some second) (Database.alone first) = .ok after) ↔
      ∀ others ∈ explicitParts, ∀ parts ∈ allParts,
        generated first parts ≠ generated second others := by
  have isNew : second ∉ (Database.alone first).queues := by
    simpa [Database.alone] using distinct.symm
  have succeeds : (∃ after, createAll (queueRelations second) (Database.alone first).relations =
      .ok after) ↔ _ := createAll_iff accepted.fits (queueRelations_apart second)
  rw [createQueue_new accepted isNew]
  have raised : (∃ after, createAll (queueRelations second) (Database.alone first).relations =
      .ok after) ↔ ∀ name ∈ queueNames second, name ∉ (Database.alone first).relations := by
    rw [succeeds, queueNames, List.forall_mem_map]
  have named : (∀ name ∈ queueNames second, name ∉ (Database.alone first).relations) ↔
      ∀ others ∈ explicitParts, ∀ parts ∈ allParts,
        generated first parts ≠ generated second others := by
    rw [queueNames_eq, List.forall_mem_map]
    refine forall₂_congr fun others explicit => ?_
    constructor
    · intro free parts known same
      exact free (List.mem_append_right _ (List.mem_map.mpr ⟨parts, known, same⟩))
    · intro apart member
      rcases List.mem_append.mp member with installed | taken
      · exact generated_not_installed second (explicit_known others explicit).1 installed
      · obtain ⟨parts, known, same⟩ := List.mem_map.mp taken
        exact apart parts known same
  rw [← named, ← raised]
  constructor
  · rintro ⟨after, created⟩
    split at created
    · cases created
    · exact ⟨_, by assumption⟩
  · rintro ⟨after, created⟩
    exact ⟨_, by rw [created]⟩

theorem disjoint_iff {first second : String} :
    (queueNames first).Disjoint (queueNames second) ↔
      ∀ others ∈ explicitParts, ∀ parts ∈ explicitParts,
        generated first parts ≠ generated second others := by
  rw [queueNames_eq, queueNames_eq]
  constructor
  · intro disjoint others explicit parts explicitToo same
    exact disjoint (List.mem_map_of_mem explicitToo) (same ▸ List.mem_map_of_mem explicit)
  · intro apart name inFirst inSecond
    obtain ⟨parts, explicit, rfl⟩ := List.mem_map.mp inFirst
    obtain ⟨others, explicitToo, same⟩ := List.mem_map.mp inSecond
    exact apart others explicitToo parts explicit same.symm

/-- Two accepted names have separate storage exactly when neither overlaps the
other. -/
theorem separate_iff {first second : String} (accepted : Accepted space first)
    (acceptedToo : Accepted space second) (distinct : first ≠ second) :
    Separate space first second ↔ ¬Overlap first second := by
  constructor
  · rintro ⟨disjoint, _, database, after, createdFirst, createdSecond⟩ overlap
    rw [createQueue_installed accepted] at createdFirst
    cases createdFirst
    obtain ⟨parts, known, others, explicit, same⟩ := generated_shared overlap
    exact (createQueue_beside acceptedToo distinct).mp ⟨after, createdSecond⟩ others explicit parts
      known same
  · intro apart
    have allApart : ∀ others ∈ explicitParts, ∀ parts ∈ allParts,
        generated first parts ≠ generated second others := fun others explicit parts known =>
      generated_apart distinct apart known explicit
    refine ⟨disjoint_iff.mpr fun others explicit parts explicitToo =>
      allApart others explicit parts (explicit_known parts explicitToo).1, ?_, ?_⟩
    · intro name member
      refine truncateIdentifier_of_le ?_
      rcases List.mem_append.mp member with inFirst | inSecond
      · obtain ⟨relation, isRelation, rfl⟩ := List.mem_map.mp inFirst
        exact accepted.fits relation isRelation
      · obtain ⟨relation, isRelation, rfl⟩ := List.mem_map.mp inSecond
        exact acceptedToo.fits relation isRelation
    · obtain ⟨after, created⟩ := (createQueue_beside acceptedToo distinct).mpr allApart
      exact ⟨_, after, createQueue_installed accepted, created⟩

theorem separate_orders_invoices : Separate Char.isWhitespace "orders" "invoices" :=
  (separate_iff (by decide) (by decide) (by decide)).mpr (by decide)

/-- The index of active runs of a queue is the runs table of the queue that is
named like it. -/
theorem not_separate_active_run_index :
    ¬∀ first second, Accepted Char.isWhitespace first → Accepted Char.isWhitespace second →
      first ≠ second → Separate Char.isWhitespace first second := by
  intro separate
  have both := separate "a" "a_one_active_run_index" (by decide) (by decide) (by decide)
  have shared : "runs_a_one_active_run_index" ∈ queueNames "a" ∧
      "runs_a_one_active_run_index" ∈ queueNames "a_one_active_run_index" := by decide
  exact both.disjoint shared.1 shared.2

end Steda
