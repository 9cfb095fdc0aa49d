import Steda.Laws.QueueNames
import Steda.Laws.Retention
import Steda.Serial.Checkpoints
import Steda.Installation

/-!
# Registry and storage

Whatever administrative transactions and calls an installation has served, the
schema holds exactly the storage of the registered queues.
-/

namespace Steda

open Postgres Relational Transaction

variable {space : Char → Bool}

/-! ## Queues -/

/-- Soundness is about the tasks and the runs. -/
theorem Queue.Sound.of_rows {first second : Queue} (sound : first.Sound space)
    (tasks : second.tasks = first.tasks) (runs : second.runs = first.runs) :
    second.Sound space where
  keyed := by
    refine ⟨?_, ?_, ?_⟩
    · rw [tasks]
      exact sound.keyed.tasks
    · rw [runs]
      exact sound.keyed.runs
    · rw [tasks]
      exact sound.keyed.keys
  lives task := by
    have same : second.rowsOf task = first.rowsOf task := by
      unfold Queue.rowsOf Queue.findTask Queue.runsOf
      rw [tasks, runs]
    rw [same]
    exact sound.lives task

/-! ## Names of the storage -/

theorem queueTables_names {queue table : String} (member : table ∈ queueTables queue) :
    table ∈ queueNames queue := by
  simp only [queueTables, List.mem_cons, List.not_mem_nil, or_false] at member
  simp only [queueNames, queueRelations, List.map_cons, List.map_nil, List.mem_cons]
  rcases member with isCheckpoints | isRuns | isTasks
  · exact Or.inr (Or.inr (Or.inl isCheckpoints))
  · exact Or.inr (Or.inl isRuns)
  · exact Or.inl isTasks

theorem queueIndexes_names {queue index : String} (member : index ∈ queueIndexes queue) :
    index ∈ queueNames queue :=
  List.mem_cons_of_mem _ (List.mem_cons_of_mem _ (List.mem_cons_of_mem _ member))

/-- The names of an accepted queue are stored as they are. -/
theorem Accepted.stored {queue : String} (accepted : Accepted space queue) :
    ∀ name ∈ queueNames queue, truncateIdentifier name = name := by
  intro name member
  obtain ⟨relation, isRelation, isName⟩ := List.mem_map.mp member
  rw [← isName]
  exact truncateIdentifier_of_le (accepted.fits relation isRelation)

theorem Accepted.storedTable {queue table : String} (accepted : Accepted space queue)
    (member : table ∈ queueTables queue) : truncateIdentifier table = table :=
  accepted.stored table (queueTables_names member)

theorem Accepted.storedTables {queue : String} (accepted : Accepted space queue) :
    truncateIdentifier (tasksTable queue) = tasksTable queue ∧
      truncateIdentifier (runsTable queue) = runsTable queue ∧
        truncateIdentifier (checkpointsTable queue) = checkpointsTable queue :=
  ⟨accepted.storedTable (by simp [queueTables]), accepted.storedTable (by simp [queueTables]),
    accepted.storedTable (by simp [queueTables])⟩

theorem queueTables_parts {queue table : String} :
    table ∈ queueTables queue ↔ ∃ start ∈ namePrefixes, table = start ++ queue ++ "" := by
  simp only [queueTables, namePrefixes, List.mem_cons, List.not_mem_nil, or_false,
    exists_eq_or_imp, exists_eq_left, String.append_empty, tasksTable, runsTable, checkpointsTable]
  tauto

/-- Different queues have different tables. -/
theorem queueTables_disjoint {first second table : String} (distinct : first ≠ second)
    (isFirst : table ∈ queueTables first) : table ∉ queueTables second := by
  intro isSecond
  obtain ⟨start, starts, isTable⟩ := queueTables_parts.mp isFirst
  obtain ⟨other, others, same⟩ := queueTables_parts.mp isSecond
  have bare : "" ∈ "" :: (indexSuffixes ++ constraintSuffixes) := List.mem_cons_self
  obtain ⟨_, ⟨_, isName⟩ | ⟨_, isName⟩⟩ :=
    (generated_eq_iff distinct starts others bare bare).mp (isTable.symm.trans same)
  · exact distinct (isName.trans (String.append_empty))
  · exact distinct (isName.trans (String.append_empty)).symm

theorem queueTables_nodup (queue : String) : (queueTables queue).Nodup := by
  have inOrder : queueTables queue =
      ["checkpoints_", "runs_", "tasks_"].map fun start => generated queue (start, "") := by
    simp [queueTables, generated, tasksTable, runsTable, checkpointsTable]
  rw [inOrder]
  refine List.Nodup.map_on ?_ (by decide)
  have known : ∀ start ∈ ["checkpoints_", "runs_", "tasks_"], (start, "") ∈ allParts := by decide
  intro start isStart other isOther same
  exact congrArg Prod.fst (generated_inj (known start isStart) (known other isOther) same)

/-- The registry is no table of a queue. -/
theorem queueTables_installed {queue : String} : "queues" ∉ queueTables queue := by
  have apart : ∀ start ∈ namePrefixes, ¬start.toList <+: "queues".toList := by decide
  intro member
  obtain ⟨start, starts, isTable⟩ := queueTables_parts.mp member
  refine apart start starts ?_
  rw [isTable, String.append_assoc, String.toList_append]
  exact List.prefix_append _ _

theorem queueCreations_relations (queue : String) :
    ((queueCreations queue).flatMap fun creation => creation.relation?.toList) =
      queueRelations queue := by
  rfl

theorem queueCreations_resolved (queue : String) : Creation.Resolved (queueCreations queue) [] := by
  simp [queueCreations, Creation.Resolved, Creation.requires, Creation.provides]

theorem queueCreations_table {queue : String} :
    ∀ creation ∈ queueCreations queue, creation.table ∈ queueTables queue := by
  simp [queueCreations, queueTables, Creation.table]

/-! ## What a queue owns -/

/-- The relation belongs to a table of the queue. -/
def OwnedBy (queue : String) (relation : StoredRelation) : Prop :=
  relation.owner ∈ queueTables queue

instance (queue : String) : DecidablePred (OwnedBy queue) := fun relation =>
  inferInstanceAs (Decidable (relation.owner ∈ queueTables queue))

/-- The constraint concerns a table of the queue. -/
def ConcernedBy (queue : String) (constraint : TableConstraint) : Prop :=
  ∃ table ∈ queueTables queue, constraint.concerns table = true

instance (queue : String) : DecidablePred (ConcernedBy queue) := fun constraint =>
  inferInstanceAs (Decidable (∃ table ∈ queueTables queue, constraint.concerns table = true))

/-- The schema holds the storage of the queue, as `create_queue_tables` made it,
and nothing else that belongs to it. -/
structure Holds (queue : String) (schema : Schema) : Prop where
  relations : ∃ added, List.Forall₂ Creation.Adds (queueCreations queue) added ∧
    schema.relations.filter (fun relation => OwnedBy queue relation) = added.flatten
  constraints : schema.constraints.filter (fun constraint => ConcernedBy queue constraint) =
    (queueCreations queue).flatMap Creation.constraints

/-- The registered queues and the schema agree. -/
structure Installation.Provisioned (space : Char → Bool) (installation : Installation) :
    Prop where
  registered : (installation.registry.map Registered.name).Nodup
  accepted : ∀ row ∈ installation.registry, Accepted space row.name
  distinct : installation.schema.names.Nodup
  holds : ∀ row ∈ installation.registry, Holds row.name installation.schema
  relations : ∀ relation ∈ installation.schema.relations,
    relation ∈ Installation.installed.schema.relations ∨
      ∃ row ∈ installation.registry, OwnedBy row.name relation
  constraints : ∀ constraint ∈ installation.schema.constraints,
    constraint ∈ Installation.installed.schema.constraints ∨
      ∃ row ∈ installation.registry, ConcernedBy row.name constraint
  kept : Installation.installed.schema.relations.Sublist installation.schema.relations ∧
    Installation.installed.schema.constraints.Sublist installation.schema.constraints
  policies : ∀ row ∈ installation.registry, row.queue.PolicyChecked
  sound : ∀ row ∈ installation.registry, row.queue.Sound space
  checkpoints : ∀ row ∈ installation.registry, row.queue.CheckpointsChecked space

namespace Holds

variable {queue : String} {schema : Schema}

theorem added (holds : Holds queue schema) {creation : Creation}
    (member : creation ∈ queueCreations queue) :
    ∃ own, creation.Adds own ∧
      ∀ relation ∈ own, relation ∈ schema.relations ∧ OwnedBy queue relation := by
  obtain ⟨added, adds, owned⟩ := holds.relations
  obtain ⟨own, isOwn, addsOwn⟩ := Creation.exists_adds adds member
  refine ⟨own, addsOwn, fun relation isRelation => ?_⟩
  have isAdded : relation ∈ added.flatten := List.mem_flatten.mpr ⟨own, isOwn, isRelation⟩
  rw [← owned] at isAdded
  exact (List.mem_filter.mp isAdded).imp_right of_decide_eq_true

/-- The tables of the queue with their columns. -/
theorem tables (holds : Holds queue schema) (accepted : Accepted space queue) :
    .table (tasksTable queue) tasksColumns ∈ schema.relations ∧
      .table (runsTable queue) runsColumns ∈ schema.relations ∧
        .table (checkpointsTable queue) checkpointsColumns ∈ schema.relations := by
  have table : ∀ {name : String} {columns : List String} {keys : List TableKey}
      {references : List String}, name ∈ queueTables queue →
      .createTable name columns keys references ∈ queueCreations queue →
        .table name columns ∈ schema.relations := by
    intro name columns keys references isTable member
    obtain ⟨own, adds, isMember⟩ := holds.added member
    have isAdded := adds.isTable
    rw [accepted.storedTable isTable] at isAdded
    exact (isMember _ isAdded).1
  exact ⟨table (by simp [queueTables]) List.mem_cons_self,
    table (by simp [queueTables]) (List.mem_cons_of_mem _ List.mem_cons_self),
    table (by simp [queueTables]) (List.mem_cons_of_mem _
      (List.mem_cons_of_mem _ (List.mem_cons_of_mem _ List.mem_cons_self)))⟩

theorem present (holds : Holds queue schema) (accepted : Accepted space queue) :
    ∀ table ∈ queueTables queue, ∃ columns, .table table columns ∈ schema.relations := by
  obtain ⟨tasks, runs, checkpoints⟩ := holds.tables accepted
  intro table isTable
  simp only [queueTables, List.mem_cons, List.not_mem_nil, or_false] at isTable
  rcases isTable with same | same | same
  · exact ⟨_, same ▸ checkpoints⟩
  · exact ⟨_, same ▸ runs⟩
  · exact ⟨_, same ▸ tasks⟩

/-- Every name of the storage is that of a relation of the queue. -/
theorem named (holds : Holds queue schema) (accepted : Accepted space queue) :
    ∀ name ∈ queueNames queue,
      ∃ stored ∈ schema.relations, OwnedBy queue stored ∧ stored.name = name := by
  intro name member
  obtain ⟨relation, isRelation, isName⟩ := List.mem_map.mp member
  rw [← queueCreations_relations] at isRelation
  obtain ⟨creation, isCreation, names⟩ := List.mem_flatMap.mp isRelation
  obtain ⟨own, adds, isMember⟩ := holds.added isCreation
  obtain ⟨stored, isStored, isStoredName⟩ := adds.named (Option.mem_toList.mp names)
  refine ⟨stored, (isMember stored isStored).1, (isMember stored isStored).2, ?_⟩
  rw [isStoredName, isName, accepted.stored name member]

theorem names (holds : Holds queue schema) (accepted : Accepted space queue) :
    ∀ name ∈ queueNames queue, name ∈ schema.names := by
  intro name member
  obtain ⟨stored, isStored, _, same⟩ := holds.named accepted name member
  exact List.mem_map.mpr ⟨stored, isStored, same⟩

/-- The storage of a queue does not depend on what belongs to others. -/
theorem congr (holds : Holds queue schema) {after : Schema}
    (relations : after.relations.filter (fun relation => OwnedBy queue relation) =
      schema.relations.filter fun relation => OwnedBy queue relation)
    (constraints : after.constraints.filter (fun constraint => ConcernedBy queue constraint) =
      schema.constraints.filter fun constraint => ConcernedBy queue constraint) :
    Holds queue after :=
  ⟨relations ▸ holds.relations, constraints.trans holds.constraints⟩

end Holds

theorem not_owned_installed {queue : String} :
    ∀ relation ∈ Installation.installed.schema.relations, ¬OwnedBy queue relation := by
  intro relation member
  have isOwner : relation.owner = "queues" := by
    have every : ∀ stored ∈ Installation.installed.schema.relations,
        stored.owner = "queues" := by decide
    exact every relation member
  unfold OwnedBy
  rw [isOwner]
  exact queueTables_installed

theorem not_concerned_installed {queue : String} :
    ∀ constraint ∈ Installation.installed.schema.constraints, ¬ConcernedBy queue constraint := by
  intro constraint member
  rw [List.mem_singleton.mp member]
  rintro ⟨table, isTable, concerns⟩
  have isOwner : "queues" = table := eq_of_beq concerns
  exact queueTables_installed (isOwner ▸ isTable)

/-- A relation belongs to one queue. -/
theorem OwnedBy.unique {first second : String} {relation : StoredRelation}
    (isFirst : OwnedBy first relation) (isSecond : OwnedBy second relation) : first = second := by
  by_contra distinct
  exact queueTables_disjoint distinct isFirst isSecond

/-- What `create_queue_tables` adds belongs to its queue. -/
theorem Accepted.owned {queue : String} (accepted : Accepted space queue)
    {added : List (List StoredRelation)}
    (adds : List.Forall₂ Creation.Adds (queueCreations queue) added) :
    ∀ relation ∈ added.flatten, OwnedBy queue relation := by
  intro relation member
  obtain ⟨creation, isCreation, isOwner⟩ := Creation.added_owner adds member
  have isTable := queueCreations_table creation isCreation
  unfold OwnedBy
  rw [isOwner, accepted.storedTable isTable]
  exact isTable

/-- The constraints that `create_queue_tables` adds. -/
theorem Accepted.constraints {queue : String} (accepted : Accepted space queue) :
    (queueCreations queue).flatMap Creation.constraints =
      [.primaryKey (tasksTable queue), .primaryKey (runsTable queue),
        .foreignKey (runsTable queue) (tasksTable queue),
        .foreignKey (tasksTable queue) (runsTable queue), .primaryKey (checkpointsTable queue),
        .foreignKey (checkpointsTable queue) (tasksTable queue)] := by
  obtain ⟨tasks, runs, checkpoints⟩ := accepted.storedTables
  simp [queueCreations, Creation.constraints, TableKey.constraints, tasks, runs, checkpoints]

/-- A constraint of a queue concerns only tables of the queue. -/
theorem Accepted.concerned {queue : String} (accepted : Accepted space queue)
    {constraint : TableConstraint}
    (member : constraint ∈ (queueCreations queue).flatMap Creation.constraints) :
    ConcernedBy queue constraint ∧
      ∀ table, constraint.concerns table = true → table ∈ queueTables queue := by
  rw [accepted.constraints] at member
  have every : ∀ owner ∈ queueTables queue, ∀ other ∈ queueTables queue,
      (ConcernedBy queue (.foreignKey owner other) ∧
        ∀ table, (TableConstraint.foreignKey owner other).concerns table = true →
          table ∈ queueTables queue) ∧
      (ConcernedBy queue (.primaryKey owner) ∧
        ∀ table, (TableConstraint.primaryKey owner).concerns table = true →
          table ∈ queueTables queue) := by
    intro owner isOwner other isOther
    refine ⟨⟨⟨owner, isOwner, by simp [TableConstraint.concerns]⟩, ?_⟩,
      ⟨owner, isOwner, by simp [TableConstraint.concerns]⟩, ?_⟩
    · intro table concerns
      simp only [TableConstraint.concerns, Bool.or_eq_true, beq_iff_eq] at concerns
      rcases concerns with same | same
      · exact same ▸ isOwner
      · exact same ▸ isOther
    · intro table concerns
      simp only [TableConstraint.concerns, beq_iff_eq] at concerns
      exact concerns ▸ isOwner
  have tasks : tasksTable queue ∈ queueTables queue := by simp [queueTables]
  have runs : runsTable queue ∈ queueTables queue := by simp [queueTables]
  have checkpoints : checkpointsTable queue ∈ queueTables queue := by simp [queueTables]
  simp only [List.mem_cons, List.not_mem_nil, or_false] at member
  rcases member with same | same | same | same | same | same
  · exact same ▸ (every _ tasks _ tasks).2
  · exact same ▸ (every _ runs _ runs).2
  · exact same ▸ (every _ runs _ tasks).1
  · exact same ▸ (every _ tasks _ runs).1
  · exact same ▸ (every _ checkpoints _ checkpoints).2
  · exact same ▸ (every _ checkpoints _ tasks).1

namespace Installation

variable {installation after : Installation} {queue : String}

theorem find?_none : installation.find? queue = none ↔
    ∀ row ∈ installation.registry, row.name ≠ queue := find_eq_none

theorem find?_some {row : Registered} (found : installation.find? queue = some row) :
    row ∈ installation.registry ∧ row.name = queue :=
  ⟨mem_of_find found, key_of_find found⟩

theorem validate_ok {queueName : Option String} : validate space queueName = .ok queue ↔
    queueName = some queue ∧ Accepted space queue := by
  unfold validate
  cases validated : validateQueueName space queueName with
  | error error =>
      refine iff_of_false (fun accepted => nomatch accepted) ?_
      rintro ⟨isQueue, accepted⟩
      rw [isQueue] at validated
      cases validated.symm.trans accepted
  | ok name =>
      obtain ⟨isName, checked⟩ := validateQueueName_ok.mp validated
      have accepted : Accepted space name := accepted_iff.mpr checked
      rw [isName, Option.some.injEq]
      constructor
      · intro same
        obtain rfl : name = queue := Except.ok.inj same
        exact ⟨rfl, accepted⟩
      · rintro ⟨same, _⟩
        rw [same]
        rfl

/-- A constraint concerns the tables of one registered queue. -/
theorem Provisioned.concerned (provisioned : installation.Provisioned space) {row : Registered}
    (member : row ∈ installation.registry) {constraint : TableConstraint}
    (isConstraint : constraint ∈ installation.schema.constraints)
    (concerned : ConcernedBy row.name constraint) (other : ConcernedBy queue constraint) :
    row.name = queue := by
  have owned : constraint ∈ installation.schema.constraints.filter
      fun constraint => ConcernedBy row.name constraint :=
    List.mem_filter.mpr ⟨isConstraint, decide_eq_true concerned⟩
  rw [(provisioned.holds row member).constraints] at owned
  obtain ⟨table, isTable, concerns⟩ := other
  have isOwn := ((provisioned.accepted row member).concerned owned).2 table concerns
  by_contra distinct
  exact queueTables_disjoint distinct isOwn isTable

/-- A name that is not registered owns nothing. -/
theorem Provisioned.unowned (provisioned : installation.Provisioned space)
    (absent : installation.find? queue = none) :
    (∀ relation ∈ installation.schema.relations, ¬OwnedBy queue relation) ∧
      ∀ constraint ∈ installation.schema.constraints, ¬ConcernedBy queue constraint := by
  constructor
  · intro relation member owned
    rcases provisioned.relations relation member with isInstalled | ⟨row, isRow, isOwner⟩
    · exact not_owned_installed relation isInstalled owned
    · exact find?_none.mp absent row isRow (isOwner.unique owned)
  · intro constraint member concerned
    rcases provisioned.constraints constraint member with isInstalled | ⟨row, isRow, isOwner⟩
    · exact not_concerned_installed constraint isInstalled concerned
    · exact find?_none.mp absent row isRow (provisioned.concerned isRow member isOwner concerned)

theorem provisioned_installed : installed.Provisioned space where
  registered := List.nodup_nil
  accepted := by
    intro row member
    cases member
  distinct := by decide
  holds := by
    intro row member
    cases member
  relations relation member := Or.inl member
  constraints constraint member := Or.inl member
  kept := ⟨List.Sublist.refl _, List.Sublist.refl _⟩
  policies := by
    intro row member
    cases member
  sound := by
    intro row member
    cases member
  checkpoints := by
    intro row member
    cases member

/-! ## Creating a queue -/

/-- The installation with a new queue whose storage has been created. -/
theorem Provisioned.created (provisioned : installation.Provisioned space)
    (accepted : Accepted space queue) (absent : installation.find? queue = none) {schema : Schema}
    (creates : Creation.performAll (queueCreations queue) installation.schema = .ok schema) :
    Provisioned space
      { registry := installation.registry ++ [⟨queue, createdQueue⟩], schema := schema } := by
  obtain ⟨added, adds, relations, constraints, distinct⟩ := Creation.performAll_adds creates
  have owned := accepted.owned adds
  obtain ⟨notOwned, notConcerned⟩ := provisioned.unowned absent
  have others : ∀ row ∈ installation.registry, row.name ≠ queue := find?_none.mp absent
  refine ⟨?_, ?_, distinct provisioned.distinct, ?_, ?_, ?_, ?_, ?_, ?_, ?_⟩
  · rw [List.map_append]
    refine Schema.nodup_concat provisioned.registered fun member => ?_
    obtain ⟨row, isRow, isName⟩ := List.mem_map.mp member
    exact others row isRow isName
  · intro row member
    rcases List.mem_append.mp member with isOld | isNew
    · exact provisioned.accepted row isOld
    · rw [List.mem_singleton.mp isNew]
      exact accepted
  · intro row member
    rcases List.mem_append.mp member with isOld | isNew
    · have holds := provisioned.holds row isOld
      have noneNew : added.flatten.filter (fun relation => OwnedBy row.name relation) = [] := by
        refine List.filter_eq_nil_iff.mpr fun relation isAdded isOwned => ?_
        exact others row isOld ((of_decide_eq_true isOwned).unique (owned relation isAdded))
      have noneMore : ((queueCreations queue).flatMap Creation.constraints).filter
          (fun constraint => ConcernedBy row.name constraint) = [] := by
        refine List.filter_eq_nil_iff.mpr fun constraint isAdded isConcerned => ?_
        obtain ⟨table, isTable, concerns⟩ := of_decide_eq_true isConcerned
        exact queueTables_disjoint (others row isOld) isTable
          ((accepted.concerned isAdded).2 table concerns)
      refine ⟨?_, ?_⟩
      · dsimp only
        rw [relations, List.filter_append, noneNew, List.append_nil]
        exact holds.relations
      · dsimp only
        rw [constraints, List.filter_append, noneMore, List.append_nil]
        exact holds.constraints
    · rw [List.mem_singleton.mp isNew]
      refine ⟨⟨added, adds, ?_⟩, ?_⟩
      · dsimp only
        rw [relations, List.filter_append,
          List.filter_eq_nil_iff.mpr fun relation isOld isOwned =>
            notOwned relation isOld (of_decide_eq_true isOwned),
          List.nil_append, List.filter_eq_self.mpr fun relation isAdded =>
            decide_eq_true (owned relation isAdded)]
      · dsimp only
        rw [constraints, List.filter_append,
          List.filter_eq_nil_iff.mpr fun constraint isOld isConcerned =>
            notConcerned constraint isOld (of_decide_eq_true isConcerned),
          List.nil_append, List.filter_eq_self.mpr fun constraint isAdded =>
            decide_eq_true (accepted.concerned isAdded).1]
  · intro relation member
    dsimp only at member ⊢
    rw [relations] at member
    rcases List.mem_append.mp member with isOld | isNew
    · rcases provisioned.relations relation isOld with isInstalled | ⟨row, isRow, isOwner⟩
      · exact Or.inl isInstalled
      · exact Or.inr ⟨row, List.mem_append_left _ isRow, isOwner⟩
    · exact Or.inr ⟨_, List.mem_append_right _ (List.mem_singleton_self _),
        owned relation isNew⟩
  · intro constraint member
    dsimp only at member ⊢
    rw [constraints] at member
    rcases List.mem_append.mp member with isOld | isNew
    · rcases provisioned.constraints constraint isOld with isInstalled | ⟨row, isRow, isOwner⟩
      · exact Or.inl isInstalled
      · exact Or.inr ⟨row, List.mem_append_left _ isRow, isOwner⟩
    · exact Or.inr ⟨_, List.mem_append_right _ (List.mem_singleton_self _),
        (accepted.concerned isNew).1⟩
  · dsimp only
    rw [relations, constraints]
    exact ⟨provisioned.kept.1.trans (List.sublist_append_left _ _),
      provisioned.kept.2.trans (List.sublist_append_left _ _)⟩
  · intro row member
    rcases List.mem_append.mp member with isOld | isNew
    · exact provisioned.policies row isOld
    · rw [List.mem_singleton.mp isNew]
      exact createdQueue_policyChecked
  · intro row member
    rcases List.mem_append.mp member with isOld | isNew
    · exact provisioned.sound row isOld
    · rw [List.mem_singleton.mp isNew]
      exact Queue.sound_empty space _ _
  · intro row member
    rcases List.mem_append.mp member with isOld | isNew
    · exact provisioned.checkpoints row isOld
    · rw [List.mem_singleton.mp isNew]
      exact Queue.checkpointsChecked_empty space _ _

/-! ## Verifying a queue -/

/-- The storage of a registered queue passes its verification. -/
theorem Provisioned.verified (provisioned : installation.Provisioned space) {row : Registered}
    (member : row ∈ installation.registry) :
    verifyQueueStorage space row.name installation.schema = .ok () := by
  have accepted := provisioned.accepted row member
  have holds := provisioned.holds row member
  obtain ⟨tasks, runs, checkpoints⟩ := holds.tables accepted
  have isValid : validate space (some row.name) = .ok row.name := validate_ok.mpr ⟨rfl, accepted⟩
  have found : ∀ name ∈ queueNames row.name,
      (installation.schema.find? (truncateIdentifier name)).isNone = false := by
    intro name isName
    rw [accepted.stored name isName, Option.isNone_eq_false_iff, Option.isSome_iff_ne_none]
    exact fun absent => Schema.find?_eq_none.mp absent (holds.names accepted name isName)
  have selects : ∀ {name : String} {columns : List String}, name ∈ queueTables row.name →
      .table name columns ∈ installation.schema.relations →
        installation.schema.select columns name = .ok () := by
    intro name columns isTable isRelation
    have isFound := Schema.hasTable_of_mem provisioned.distinct isRelation
    have noneMissing : columns.find? (fun column => !columns.contains column) = none := by
      refine List.find?_eq_none.mpr fun column isColumn => ?_
      simpa using isColumn
    unfold Schema.select
    rw [accepted.storedTable isTable, isFound]
    simp only [bind, Except.bind, noneMissing]
    rfl
  have isConstraint : ∀ constraint ∈ (queueCreations row.name).flatMap Creation.constraints,
      installation.schema.constraints.contains constraint = true := by
    intro constraint isOwn
    rw [← holds.constraints] at isOwn
    exact List.contains_iff_mem.mpr (List.mem_filter.mp isOwn).1
  rw [accepted.constraints] at isConstraint
  simp only [List.forall_mem_cons] at isConstraint
  obtain ⟨tasksKey, runsKey, runsTasks, tasksRuns, checkpointsKey, checkpointsTasks, _⟩ :=
    isConstraint
  obtain ⟨storedTasks, storedRuns, storedCheckpoints⟩ := accepted.storedTables
  have tablesFound : (queueTables row.name).any (fun name =>
      (installation.schema.find? (truncateIdentifier name)).isNone) = false :=
    List.any_eq_false.mpr fun name isTable =>
      Bool.eq_false_iff.mp (found name (queueTables_names isTable))
  have indexesFound : (queueIndexes row.name).any (fun name =>
      (installation.schema.find? (truncateIdentifier name)).isNone) = false :=
    List.any_eq_false.mpr fun name isIndex =>
      Bool.eq_false_iff.mp (found name (queueIndexes_names isIndex))
  have keysFound : (queueTables row.name).any (fun name =>
      !installation.schema.constraints.contains
        (.primaryKey (truncateIdentifier name))) = false := by
    simp only [queueTables, List.any_cons, List.any_nil, storedTasks, storedRuns,
      storedCheckpoints, tasksKey, runsKey, checkpointsKey]
    rfl
  have referencesFound : [(tasksTable row.name, runsTable row.name),
      (runsTable row.name, tasksTable row.name),
      (checkpointsTable row.name, tasksTable row.name)].any (fun pair =>
        !installation.schema.constraints.contains
          (.foreignKey (truncateIdentifier pair.1) (truncateIdentifier pair.2))) = false := by
    simp only [List.any_cons, List.any_nil, storedTasks, storedRuns, storedCheckpoints, runsTasks,
      tasksRuns, checkpointsTasks]
    rfl
  unfold verifyQueueStorage
  simp only [isValid, tablesFound, indexesFound, keysFound, referencesFound,
    selects (by simp [queueTables]) tasks, selects (by simp [queueTables]) runs,
    selects (by simp [queueTables]) checkpoints, bind, Except.bind, Except.mapError]
  rfl

/-! ## Dropping a queue -/

/-- Dropping the tables of a registered queue removes what belongs to it. -/
theorem Provisioned.drops (provisioned : installation.Provisioned space) {row : Registered}
    (member : row ∈ installation.registry) :
    (queueTables row.name).foldlM (fun (schema : Schema) table => schema.dropTable table)
        installation.schema = .ok
      { relations := installation.schema.relations.filter fun relation =>
          ¬OwnedBy row.name relation
        constraints := installation.schema.constraints.filter fun constraint =>
          ¬ConcernedBy row.name constraint } := by
  have accepted := provisioned.accepted row member
  rw [Schema.dropTables (queueTables_nodup row.name) (fun table => accepted.storedTable)
    provisioned.distinct ((provisioned.holds row member).present accepted)]
  have relations : (fun relation : StoredRelation =>
      !(queueTables row.name).contains relation.owner) =
        fun relation => decide (¬OwnedBy row.name relation) := by
    funext relation
    unfold OwnedBy
    by_cases isOwner : relation.owner ∈ queueTables row.name <;> simp [isOwner]
  have constraints : (fun constraint : TableConstraint =>
      !(queueTables row.name).any fun table => constraint.concerns table) =
        fun constraint => decide (¬ConcernedBy row.name constraint) := by
    funext constraint
    have same : ((queueTables row.name).any fun table => constraint.concerns table) =
        decide (ConcernedBy row.name constraint) := by
      rw [Bool.eq_iff_iff, List.any_eq_true, decide_eq_true_iff]
      rfl
    rw [same, decide_not]
  rw [relations, constraints]

/-- The installation without a queue and its storage. -/
theorem Provisioned.dropped (provisioned : installation.Provisioned space) (queue : String) :
    Provisioned space
      { registry := installation.registry.filter fun other => other.name != queue
        schema :=
          { relations := installation.schema.relations.filter fun relation =>
              ¬OwnedBy queue relation
            constraints := installation.schema.constraints.filter fun constraint =>
              ¬ConcernedBy queue constraint } } := by
  have remains : ∀ other ∈ installation.registry.filter fun other => other.name != queue,
      other ∈ installation.registry ∧ other.name ≠ queue := by
    intro other isOther
    obtain ⟨isOld, different⟩ := List.mem_filter.mp isOther
    exact ⟨isOld, by simpa using different⟩
  refine ⟨provisioned.registered.sublist (List.filter_sublist.map _),
    fun other isOther => provisioned.accepted other (remains other isOther).1,
    provisioned.distinct.sublist (List.filter_sublist.map _), ?_, ?_, ?_, ?_,
    fun other isOther => provisioned.policies other (remains other isOther).1,
    fun other isOther => provisioned.sound other (remains other isOther).1,
    fun other isOther => provisioned.checkpoints other (remains other isOther).1⟩
  · intro other isOther
    obtain ⟨isOld, different⟩ := remains other isOther
    refine (provisioned.holds other isOld).congr ?_ ?_
    · rw [List.filter_filter]
      refine List.filter_congr fun relation _ => ?_
      by_cases owned : OwnedBy other.name relation
      · have notOwned : ¬OwnedBy queue relation := fun too => different (owned.unique too)
        simp [owned, notOwned]
      · simp [owned]
    · rw [List.filter_filter]
      refine List.filter_congr fun constraint isConstraint => ?_
      by_cases concerned : ConcernedBy other.name constraint
      · have notConcerned : ¬ConcernedBy queue constraint := fun too =>
          different (provisioned.concerned isOld isConstraint concerned too)
        simp [concerned, notConcerned]
      · simp [concerned]
  · intro relation isRelation
    obtain ⟨isOld, notOwned⟩ := List.mem_filter.mp isRelation
    refine (provisioned.relations relation isOld).imp_right ?_
    rintro ⟨other, isOther, isOwner⟩
    refine ⟨other, List.mem_filter.mpr ⟨isOther, ?_⟩, isOwner⟩
    have different : other.name ≠ queue := fun same =>
      of_decide_eq_true notOwned (same ▸ isOwner)
    simpa using different
  · intro constraint isConstraint
    obtain ⟨isOld, notConcerned⟩ := List.mem_filter.mp isConstraint
    refine (provisioned.constraints constraint isOld).imp_right ?_
    rintro ⟨other, isOther, isOwner⟩
    refine ⟨other, List.mem_filter.mpr ⟨isOther, ?_⟩, isOwner⟩
    have different : other.name ≠ queue := fun same =>
      of_decide_eq_true notConcerned (same ▸ isOwner)
    simpa using different
  · refine ⟨?_, ?_⟩
    · have kept := provisioned.kept.1.filter fun relation => decide (¬OwnedBy queue relation)
      rwa [List.filter_eq_self.mpr fun relation isInstalled =>
        decide_eq_true (not_owned_installed relation isInstalled)] at kept
    · have kept := provisioned.kept.2.filter fun constraint =>
        decide (¬ConcernedBy queue constraint)
      rwa [List.filter_eq_self.mpr fun constraint isInstalled =>
        decide_eq_true (not_concerned_installed constraint isInstalled)] at kept

/-! ## Changing the rows of a queue -/

/-- A new version of a queue that passes its checks. -/
theorem Provisioned.withQueue (provisioned : installation.Provisioned space) {name : String}
    {changed : Queue} (checked : changed.PolicyChecked) (sound : changed.Sound space)
    (named : changed.CheckpointsChecked space) :
    (installation.withQueue name changed).Provisioned space := by
  have sameNames : (installation.withQueue name changed).registry.map Registered.name =
      installation.registry.map Registered.name :=
    map_replace_of_agree fun _ _ same => same
  have isOld : ∀ row ∈ (installation.withQueue name changed).registry,
      ∃ old ∈ installation.registry, old.name = row.name := by
    intro row member
    have isName := List.mem_map_of_mem (f := Registered.name) member
    rw [sameNames] at isName
    exact List.mem_map.mp isName
  have isNew : ∀ row ∈ installation.registry,
      ∃ new ∈ (installation.withQueue name changed).registry, new.name = row.name := by
    intro row member
    have isName := List.mem_map_of_mem (f := Registered.name) member
    rw [← sameNames] at isName
    exact List.mem_map.mp isName
  refine ⟨sameNames ▸ provisioned.registered, ?_, provisioned.distinct, ?_, ?_, ?_,
    provisioned.kept, ?_, ?_, ?_⟩
  · intro row member
    obtain ⟨old, wasOld, same⟩ := isOld row member
    exact same ▸ provisioned.accepted old wasOld
  · intro row member
    obtain ⟨old, wasOld, same⟩ := isOld row member
    exact same ▸ provisioned.holds old wasOld
  · intro relation member
    refine (provisioned.relations relation member).imp_right ?_
    rintro ⟨row, isRow, isOwner⟩
    obtain ⟨new, isRowNew, same⟩ := isNew row isRow
    exact ⟨new, isRowNew, same ▸ isOwner⟩
  · intro constraint member
    refine (provisioned.constraints constraint member).imp_right ?_
    rintro ⟨row, isRow, isOwner⟩
    obtain ⟨new, isRowNew, same⟩ := isNew row isRow
    exact ⟨new, isRowNew, same ▸ isOwner⟩
  · intro row member
    rcases mem_replace member with same | old
    · rw [same]
      exact checked
    · exact provisioned.policies row old
  · intro row member
    rcases mem_replace member with same | old
    · rw [same]
      exact sound
    · exact provisioned.sound row old
  · intro row member
    rcases mem_replace member with same | old
    · rw [same]
      exact named
    · exact provisioned.checkpoints row old

/-! ## What the functions do -/

theorem Provisioned.accepted_found (provisioned : installation.Provisioned space)
    {row : Registered} (found : installation.find? queue = some row) : Accepted space queue := by
  obtain ⟨member, isName⟩ := find?_some found
  exact isName ▸ provisioned.accepted row member

/-- Creating a registered queue changes nothing. -/
theorem Provisioned.createQueue_registered (provisioned : installation.Provisioned space)
    {row : Registered} (found : installation.find? queue = some row) :
    installation.createQueue space (some queue) = .ok installation := by
  obtain ⟨member, isName⟩ := find?_some found
  have isValid : validate space (some queue) = .ok queue :=
    validate_ok.mpr ⟨rfl, provisioned.accepted_found found⟩
  have verified := provisioned.verified member
  rw [isName] at verified
  unfold Installation.createQueue
  simp only [isValid, found, verified, bind, Except.bind, Option.isSome_some, if_true]
  rfl

/-- What is left of the creation of a new queue. -/
theorem createQueue_created (accepted : Accepted space queue)
    (absent : installation.find? queue = none) :
    (installation.createQueue space (some queue)).toOption =
      (Creation.performAll (queueCreations queue) installation.schema).toOption.map fun schema =>
        { registry := installation.registry ++ [⟨queue, createdQueue⟩], schema := schema } := by
  have isValid : validate space (some queue) = .ok queue := validate_ok.mpr ⟨rfl, accepted⟩
  unfold Installation.createQueue Installation.createQueueTables
  simp only [isValid, absent, bind, Except.bind, Option.isSome_none]
  cases Creation.performAll (queueCreations queue) installation.schema <;> rfl

/-- Creating a new queue creates its storage. -/
theorem createQueue_new (accepted : Accepted space queue)
    (absent : installation.find? queue = none) :
    installation.createQueue space (some queue) = .ok after ↔
      ∃ schema, Creation.performAll (queueCreations queue) installation.schema = .ok schema ∧
        after =
          { registry := installation.registry ++ [⟨queue, createdQueue⟩], schema := schema } := by
  rw [← toOption_eq_some, createQueue_created accepted absent, Option.map_eq_some_iff]
  exact exists_congr fun schema => and_congr toOption_eq_some eq_comm

theorem dropQueue_absent (accepted : Accepted space queue)
    (absent : installation.find? queue = none) :
    installation.dropQueue space (some queue) = .ok installation := by
  have isValid : validate space (some queue) = .ok queue := validate_ok.mpr ⟨rfl, accepted⟩
  unfold Installation.dropQueue
  simp only [isValid, absent, bind, Except.bind]
  rfl

/-- Dropping a registered queue removes it with what belongs to it. -/
theorem Provisioned.dropQueue_registered (provisioned : installation.Provisioned space)
    {row : Registered} (found : installation.find? queue = some row) :
    installation.dropQueue space (some queue) = .ok
      { registry := installation.registry.filter fun other => other.name != queue
        schema :=
          { relations := installation.schema.relations.filter fun relation =>
              ¬OwnedBy queue relation
            constraints := installation.schema.constraints.filter fun constraint =>
              ¬ConcernedBy queue constraint } } := by
  obtain ⟨member, isName⟩ := find?_some found
  have isValid : validate space (some queue) = .ok queue :=
    validate_ok.mpr ⟨rfl, provisioned.accepted_found found⟩
  have drops := provisioned.drops member
  rw [isName] at drops
  unfold Installation.dropQueue
  simp only [isValid, found, bind, Except.bind]
  rw [drops]
  rfl

/-- Setting a policy changes a registered queue. -/
theorem setQueuePolicy_iff {queueName : Option String}
    {requestedCleanupTtlSeconds requestedCleanupLimit : Option Int} :
    installation.setQueuePolicy space queueName requestedCleanupTtlSeconds requestedCleanupLimit =
        .ok after ↔
      ∃ name row changed, queueName = some name ∧ Accepted space name ∧
        installation.find? name = some row ∧
        Steda.setQueuePolicy requestedCleanupTtlSeconds requestedCleanupLimit row.queue =
          .ok changed ∧
        after = installation.withQueue name changed := by
  unfold Installation.setQueuePolicy
  cases validated : validate space queueName with
  | error error =>
      refine iff_of_false (fun set => nomatch set) ?_
      rintro ⟨name, row, changed, isName, accepted, _⟩
      cases validated.symm.trans (validate_ok.mpr ⟨isName, accepted⟩)
  | ok name =>
      obtain ⟨isName, accepted⟩ := validate_ok.mp validated
      simp only [bind, Except.bind]
      constructor
      · intro set
        cases found : installation.find? name with
        | none =>
            rw [found] at set
            cases set
        | some row =>
            simp only [found] at set
            cases changes : Steda.setQueuePolicy requestedCleanupTtlSeconds requestedCleanupLimit
                row.queue with
            | error error =>
                rw [changes] at set
                cases set
            | ok changed =>
                rw [changes] at set
                exact ⟨name, row, changed, isName, accepted, found, changes,
                  (Except.ok.inj set).symm⟩
      · rintro ⟨other, row, changed, isOther, _, found, changes, isAfter⟩
        obtain rfl : name = other := Option.some.inj (isName.symm.trans isOther)
        simp only [found, changes, isAfter]
        rfl

/-- What an administrative function that returns has done. -/
inductive Performed (space : Char → Bool) (installation : Installation) :
    AdminStatement → Installation → Prop
  | existing {queue : String} {row : Registered} (found : installation.find? queue = some row) :
      Performed space installation (.createQueue (some queue)) installation
  | created {queue : String} {schema : Schema} (accepted : Accepted space queue)
      (absent : installation.find? queue = none)
      (creates : Creation.performAll (queueCreations queue) installation.schema = .ok schema) :
      Performed space installation (.createQueue (some queue))
        { registry := installation.registry ++ [⟨queue, createdQueue⟩], schema := schema }
  | dropped {queue : String} {row : Registered} (found : installation.find? queue = some row) :
      Performed space installation (.dropQueue (some queue))
        { registry := installation.registry.filter fun other => other.name != queue
          schema :=
            { relations := installation.schema.relations.filter fun relation =>
                ¬OwnedBy queue relation
              constraints := installation.schema.constraints.filter fun constraint =>
                ¬ConcernedBy queue constraint } }
  | absent {queue : String} (absent : installation.find? queue = none) :
      Performed space installation (.dropQueue (some queue)) installation
  | changed {queue : String} {row : Registered} {changed : Queue}
      {requestedCleanupTtlSeconds requestedCleanupLimit : Option Int}
      (found : installation.find? queue = some row)
      (changes : Steda.setQueuePolicy requestedCleanupTtlSeconds requestedCleanupLimit row.queue =
        .ok changed) :
      Performed space installation
        (.setQueuePolicy (some queue) requestedCleanupTtlSeconds requestedCleanupLimit)
        (installation.withQueue queue changed)

theorem Provisioned.performed (provisioned : installation.Provisioned space)
    {statement : AdminStatement} (performs : statement.perform space installation = .ok after) :
    Performed space installation statement after := by
  cases statement with
  | createQueue queueName =>
      obtain ⟨name, validated, _⟩ := except_bind_ok.mp performs
      obtain ⟨isName, accepted⟩ := validate_ok.mp validated
      subst isName
      cases found : installation.find? name with
      | some row =>
          obtain rfl : installation = after :=
            Except.ok.inj ((provisioned.createQueue_registered found).symm.trans performs)
          exact .existing found
      | none =>
          obtain ⟨schema, creates, rfl⟩ := (createQueue_new accepted found).mp performs
          exact .created accepted found creates
  | dropQueue queueName =>
      obtain ⟨name, validated, _⟩ := except_bind_ok.mp performs
      obtain ⟨isName, accepted⟩ := validate_ok.mp validated
      subst isName
      cases found : installation.find? name with
      | some row =>
          obtain rfl := Except.ok.inj
            ((provisioned.dropQueue_registered found).symm.trans performs)
          exact .dropped found
      | none =>
          obtain rfl : installation = after :=
            Except.ok.inj ((dropQueue_absent accepted found).symm.trans performs)
          exact .absent found
  | setQueuePolicy queueName requestedCleanupTtlSeconds requestedCleanupLimit =>
      obtain ⟨name, row, changed, rfl, _, found, changes, rfl⟩ := setQueuePolicy_iff.mp performs
      exact .changed found changes

/-! ## What the functions keep -/

/-- An administrative function that returns keeps the registry and the schema in
agreement. -/
theorem Performed.provisioned {statement : AdminStatement}
    (performed : Performed space installation statement after)
    (provisioned : installation.Provisioned space) : after.Provisioned space := by
  cases performed with
  | existing found => exact provisioned
  | created accepted absent creates => exact provisioned.created accepted absent creates
  | dropped found => exact provisioned.dropped _
  | absent notFound => exact provisioned
  | changed found changes =>
      obtain ⟨checked, tasks, runs, checkpoints⟩ := Steda.setQueuePolicy_ok changes
      have member := (find?_some found).1
      exact provisioned.withQueue checked ((provisioned.sound _ member).of_rows tasks runs)
        ((provisioned.checkpoints _ member).of_rows tasks checkpoints)

theorem Provisioned.administered {statements : List AdminStatement}
    {installation : Installation} (provisioned : installation.Provisioned space)
    (performs : installation.administer space statements = .ok after) :
    after.Provisioned space := by
  induction statements generalizing installation with
  | nil => exact Except.ok.inj performs ▸ provisioned
  | cons statement rest inductionHypothesis =>
      obtain ⟨middle, first, later⟩ := except_bind_ok.mp performs
      exact inductionHypothesis ((provisioned.performed first).provisioned provisioned) later

theorem policies_found {row : Registered} (found : installation.find? queue = some row) :
    installation.policies queue = some row.queue.policy := by
  unfold policies
  rw [found]
  rfl

theorem policies_absent (absent : installation.find? queue = none) :
    installation.policies queue = none := by
  unfold policies
  rw [absent]
  rfl

/-- The policies of an installation in which a queue has a new version. -/
theorem policies_withQueue {row : Registered} (found : installation.find? queue = some row)
    (changed : Queue) : (installation.withQueue queue changed).policies =
      Function.update installation.policies queue (some changed.policy) := by
  funext name
  let new : Registered := ⟨queue, changed⟩
  have replaced : find Registered.name name (replace Registered.name new installation.registry) =
      (find Registered.name name installation.registry).map fun old =>
        if old.name = new.name then new else old :=
    find_replace new installation.registry fun _ same => same
  have finds : (installation.withQueue queue changed).find? name =
      (installation.find? name).map fun old =>
        if old.name = queue then ⟨queue, changed⟩ else old := replaced
  unfold policies
  rw [finds]
  by_cases same : name = queue
  · subst same
    have isName := (find?_some found).2
    rw [Function.update_self, found, Option.map_some, if_pos isName]
    rfl
  · rw [Function.update_of_ne same]
    cases other : installation.find? name with
    | none => rfl
    | some old =>
        have isName := (find?_some other).2
        rw [Option.map_some, if_neg (isName ▸ same)]

/-- The policies of an installation with one more queue. -/
theorem policies_created (absent : installation.find? queue = none) (schema : Schema) :
    policies { registry := installation.registry ++ [⟨queue, createdQueue⟩], schema := schema } =
      Function.update installation.policies queue (some createdQueue.policy) := by
  funext name
  unfold policies find?
  rw [find_append, find_singleton]
  unfold find? at absent
  by_cases same : name = queue
  · subst same
    rw [absent, Function.update_self, if_pos rfl]
    rfl
  · rw [Function.update_of_ne same, if_neg (Ne.symm same), Option.or_none]

theorem find?_dropped (name : String) (schema : Schema) :
    find? { registry := installation.registry.filter fun other => other.name != queue
            schema := schema } name =
      if name = queue then none else installation.find? name := by
  unfold find?
  by_cases same : name = queue
  · rw [if_pos same, find_eq_none]
    intro row member
    obtain ⟨_, different⟩ := List.mem_filter.mp member
    rw [same]
    simpa using different
  · rw [if_neg same]
    refine find_filter_of_imp fun row isName => ?_
    simpa [isName] using same

/-- The policies of an installation without a queue. -/
theorem policies_dropped (schema : Schema) :
    policies { registry := installation.registry.filter fun other => other.name != queue
               schema := schema } =
      Function.update installation.policies queue none := by
  funext name
  unfold policies
  rw [find?_dropped]
  by_cases same : name = queue
  · rw [if_pos same, same, Function.update_self]
    rfl
  · rw [if_neg same, Function.update_of_ne same]

/-- An administrative function that returns changes the policies as it says. -/
theorem Performed.policies {statement : AdminStatement}
    (performed : Performed space installation statement after) :
    after.policies = statement.after installation.policies := by
  cases performed with
  | existing found =>
      have known := policies_found found
      unfold AdminStatement.after
      simp only [known, Option.getD_some]
      rw [← known, Function.update_eq_self]
  | @created queue schema accepted absent creates =>
      have unknown := policies_absent absent
      rw [policies_created absent schema]
      unfold AdminStatement.after
      simp only [unknown, Option.getD_none]
  | dropped found =>
      rw [policies_dropped]
      rfl
  | absent notFound =>
      have unknown := policies_absent notFound
      unfold AdminStatement.after
      simp only
      rw [← unknown, Function.update_eq_self]
  | changed found changes =>
      have known := policies_found found
      rw [policies_withQueue found]
      unfold AdminStatement.after
      simp only [known, Option.map_some]
      unfold Steda.setQueuePolicy at changes
      simp only at changes
      split at changes
      · cases changes
      · split at changes
        · cases changes
        · cases changes
          rfl

theorem Provisioned.policies_administered {statements : List AdminStatement}
    {installation : Installation} (provisioned : installation.Provisioned space)
    (performs : installation.administer space statements = .ok after) :
    after.policies = statements.foldl AdminStatement.after installation.policies := by
  induction statements generalizing installation with
  | nil => exact Except.ok.inj performs ▸ rfl
  | cons statement rest inductionHypothesis =>
      obtain ⟨middle, first, later⟩ := except_bind_ok.mp performs
      have performed := provisioned.performed first
      rw [inductionHypothesis (performed.provisioned provisioned) later, performed.policies]
      rfl

/-! ## Runs -/

/-- Every event keeps the registry and the schema in agreement. -/
theorem Step.provisioned {event : InstallationEvent} (steps : Step space installation event after)
    (provisioned : installation.Provisioned space) : after.Provisioned space := by
  cases steps with
  | committed performs => exact provisioned.administered performs
  | raised raises => exact provisioned
  | @called row call world reached registered rows served =>
      have member := (find?_some registered).1
      have sound : world.store.Sound space := rows ▸ provisioned.sound row member
      obtain ⟨ttl, limit⟩ := served.samePolicy sound
      obtain ⟨_, _, _, _, advances⟩ := served.advances sound
      have checked := provisioned.policies row member
      rw [← rows] at checked
      have named : reached.store.CheckpointsChecked space := by
        have before := provisioned.checkpoints row member
        rw [← rows] at before
        rcases served.store_cases sound with same | ran
        · rwa [same]
        · rw [ran]
          exact checkpointsChecked_alone _ world before
      refine provisioned.withQueue ⟨?_, ?_⟩ advances.sound named
      · rw [ttl]
        exact checked.cleanupTtl
      · rw [limit]
        exact checked.cleanupLimit

/-- Every event changes the policies as it says. -/
theorem Step.policies {event : InstallationEvent} (steps : Step space installation event after)
    (provisioned : installation.Provisioned space) :
    after.policies = event.after installation.policies := by
  cases steps with
  | committed performs => exact provisioned.policies_administered performs
  | raised raises => rfl
  | @called row call world reached registered rows served =>
      have sound : world.store.Sound space := rows ▸ provisioned.sound row (find?_some registered).1
      obtain ⟨ttl, limit⟩ := served.samePolicy sound
      have samePolicy : reached.store.policy = row.queue.policy := by
        rw [← rows]
        unfold Queue.policy
        rw [ttl, limit]
      rw [policies_withQueue registered, samePolicy, ← policies_found registered,
        Function.update_eq_self]
      rfl

/-- The registry and the schema of a reached installation agree. -/
theorem Run.reached {events : List InstallationEvent} (run : Run space events installation) :
    installation.Provisioned space ∧
      installation.policies = events.foldl InstallationEvent.after fun _ => none := by
  let agree (past : List InstallationEvent) (reached : Installation) : Prop :=
    reached.Provisioned space ∧
      reached.policies = past.foldl InstallationEvent.after fun _ => none
  have kept : ∀ past source event target, Step space source event target → agree past source →
      agree (past ++ [event]) target := by
    rintro past source event target steps ⟨provisioned, policies⟩
    refine ⟨steps.provisioned provisioned, ?_⟩
    rw [steps.policies provisioned, policies, List.foldl_append]
    rfl
  exact Trace.invariant_labels run kept ⟨provisioned_installed, rfl⟩

/-! ## Names that are taken -/

/-- The storage of a queue takes its names in the catalog. -/
theorem queueCreations_names (accepted : Accepted space queue) (schema : Schema) :
    (Creation.performAll (queueCreations queue) schema).toOption.map Schema.names =
      (createAll (queueRelations queue) schema.names).toOption := by
  rw [← queueCreations_relations]
  exact Creation.performAll_names (queueCreations_relations queue ▸ accepted.fits)
    (List.forall_mem_nil _) (queueCreations_resolved queue)

/-- A queue can be created exactly when the names of its storage are free. -/
theorem createQueue_iff (accepted : Accepted space queue)
    (absent : installation.find? queue = none) :
    (∃ after, installation.createQueue space (some queue) = .ok after) ↔
      ∀ name ∈ queueNames queue, name ∉ installation.schema.names := by
  have named : (∀ name ∈ queueNames queue, name ∉ installation.schema.names) ↔
      ∀ relation ∈ queueRelations queue, relation.name ∉ installation.schema.names := by
    unfold queueNames
    rw [List.forall_mem_map]
  have names := queueCreations_names accepted installation.schema
  rw [named, ← createAll_iff accepted.fits (queueRelations_apart queue)]
  constructor
  · rintro ⟨after, created⟩
    obtain ⟨schema, performs, _⟩ := (createQueue_new accepted absent).mp created
    rw [performs] at names
    exact ⟨schema.names, toOption_eq_some.mp names.symm⟩
  · rintro ⟨catalog, creates⟩
    rw [creates] at names
    obtain ⟨schema, performs, _⟩ := Option.map_eq_some_iff.mp names
    exact ⟨_, (createQueue_new accepted absent).mpr ⟨schema, toOption_eq_some.mp performs, rfl⟩⟩

/-- The names that an installation has registered and taken. -/
def database (installation : Installation) : Database where
  queues := installation.registry.map Registered.name
  relations := installation.schema.names

/-- The relations of a registered queue are found. -/
theorem Provisioned.verifyQueueStorage_database (provisioned : installation.Provisioned space)
    {row : Registered} (member : row ∈ installation.registry) :
    Steda.verifyQueueStorage space row.name installation.database = .ok () := by
  have accepted := provisioned.accepted row member
  have present : ∀ name ∈ queueNames row.name, installation.database.relations.contains name := by
    intro name isName
    obtain ⟨stored, isStored, _, sameName⟩ :=
      (provisioned.holds row member).named accepted name isName
    rw [List.contains_iff_mem, ← sameName]
    exact List.mem_map_of_mem isStored
  simp only [queueNames, queueRelations, List.map_cons, List.map_nil, List.forall_mem_cons] at present
  obtain ⟨tasks, runs, checkpoints, stateAvailable, oneActive, claimExpires, _⟩ := present
  unfold Accepted at accepted
  simp only [Steda.verifyQueueStorage, accepted, bind, Except.bind, List.all_cons, List.all_nil, tasks,
    runs, checkpoints, stateAvailable, oneActive, claimExpires, Bool.and_true, not_true_eq_false,
    if_false]
  rfl

/-- `create_queue` does to the names of an installation what it does to a
database of names, and fails when it fails there. -/
theorem Provisioned.createQueue_database (provisioned : installation.Provisioned space)
    (queueName : Option String) :
    (installation.createQueue space queueName).toOption.map database =
      (Steda.createQueue space queueName installation.database).toOption := by
  cases validated : validateQueueName space queueName with
  | error error =>
      simp only [Installation.createQueue, validate, Steda.createQueue, validated]
      rfl
  | ok queue =>
      have isValid : validate space queueName = .ok queue := by
        rw [validate, validated]
        rfl
      obtain ⟨rfl, accepted⟩ := validate_ok.mp isValid
      cases found : installation.find? queue with
      | some row =>
          obtain ⟨member, rfl⟩ := find?_some found
          have registered : row.name ∈ installation.database.queues := List.mem_map_of_mem member
          rw [provisioned.createQueue_registered found]
          simp only [Steda.createQueue, validated, bind, Except.bind, registered, if_true,
            provisioned.verifyQueueStorage_database member]
          rfl
      | none =>
          have isNew : queue ∉ installation.database.queues := by
            intro isQueue
            obtain ⟨row, isRow, isName⟩ := List.mem_map.mp isQueue
            exact find?_none.mp found row isRow isName
          have relations : installation.database.relations = installation.schema.names := rfl
          rw [Steda.createQueue_new accepted isNew, createQueue_created accepted found, relations,
            Option.map_map]
          have names := queueCreations_names accepted installation.schema
          cases creates : createAll (queueRelations queue) installation.schema.names with
          | error name =>
              rw [creates] at names
              rw [Option.map_eq_none_iff.mp names]
              rfl
          | ok catalog =>
              rw [creates] at names
              obtain ⟨schema, performs, rfl⟩ := Option.map_eq_some_iff.mp names
              rw [performs]
              simp [database, Except.toOption]

/-- A name of a queue's storage is taken by what belongs to a registered
queue. -/
theorem Provisioned.taken (provisioned : installation.Provisioned space) {name : String}
    (isName : name ∈ queueNames queue) :
    name ∈ installation.schema.names ↔ ∃ row ∈ installation.registry,
      ∃ relation ∈ installation.schema.relations,
        OwnedBy row.name relation ∧ relation.name = name := by
  constructor
  · intro taken
    obtain ⟨relation, member, same⟩ := List.mem_map.mp taken
    rcases provisioned.relations relation member with isInstalled | ⟨row, isRow, owned⟩
    · rw [queueNames_eq] at isName
      obtain ⟨parts, explicit, isParts⟩ := List.mem_map.mp isName
      have every : ∀ stored ∈ installed.schema.relations,
          stored.name ∈ Database.installed.relations := by decide
      have isOld := every relation isInstalled
      rw [same, ← isParts] at isOld
      exact absurd isOld (generated_not_installed queue (explicit_known parts explicit).1)
    · exact ⟨row, isRow, relation, member, owned, same⟩
  · rintro ⟨row, _, relation, member, _, same⟩
    exact List.mem_map.mpr ⟨relation, member, same⟩

theorem find?_created (name : String) (schema : Schema) :
    find? { registry := installation.registry ++ [⟨queue, createdQueue⟩], schema := schema } name =
      (installation.find? name).or (if queue = name then some ⟨queue, createdQueue⟩ else none) := by
  unfold find?
  rw [find_append, find_singleton]

/-- A queue can be created again after it has been dropped, and then it is new. -/
theorem Provisioned.recreates (provisioned : installation.Provisioned space) {row : Registered}
    (found : installation.find? queue = some row) :
    ∃ dropped again, installation.dropQueue space (some queue) = .ok dropped ∧
      dropped.createQueue space (some queue) = .ok again ∧
      dropped.find? queue = none ∧ again.find? queue = some ⟨queue, createdQueue⟩ ∧
      ∀ other, other ≠ queue → dropped.find? other = installation.find? other ∧
        again.find? other = installation.find? other := by
  obtain ⟨member, isName⟩ := find?_some found
  have accepted := provisioned.accepted_found found
  have holds : Holds queue installation.schema := isName ▸ provisioned.holds row member
  have drops := provisioned.dropQueue_registered found
  let dropped : Installation :=
    { registry := installation.registry.filter fun other => other.name != queue
      schema :=
        { relations := installation.schema.relations.filter fun relation => ¬OwnedBy queue relation
          constraints := installation.schema.constraints.filter fun constraint =>
            ¬ConcernedBy queue constraint } }
  have finds : ∀ name, dropped.find? name =
      if name = queue then none else installation.find? name :=
    fun name => find?_dropped name dropped.schema
  have absent : dropped.find? queue = none := (finds queue).trans (if_pos rfl)
  have free : ∀ name ∈ queueNames queue, name ∉ dropped.schema.names := by
    intro name isQueueName taken
    obtain ⟨relation, isRelation, same⟩ := List.mem_map.mp taken
    obtain ⟨isOld, notOwned⟩ := List.mem_filter.mp isRelation
    obtain ⟨stored, isStored, owned, sameToo⟩ := holds.named accepted name isQueueName
    have unique := List.inj_on_of_nodup_map provisioned.distinct isOld isStored
      (same.trans sameToo.symm)
    exact of_decide_eq_true notOwned (unique ▸ owned)
  obtain ⟨again, creates⟩ := (createQueue_iff accepted absent).mpr free
  obtain ⟨schema, _, isAgain⟩ := (createQueue_new accepted absent).mp creates
  have findsAgain : ∀ name, again.find? name =
      (dropped.find? name).or (if queue = name then some ⟨queue, createdQueue⟩ else none) := by
    intro name
    rw [isAgain]
    exact find?_created name schema
  refine ⟨dropped, again, drops, creates, absent, ?_, fun other different => ?_⟩
  · rw [findsAgain, absent, if_pos rfl]
    rfl
  · have kept : dropped.find? other = installation.find? other :=
      (finds other).trans (if_neg different)
    refine ⟨kept, ?_⟩
    rw [findsAgain, kept, if_neg different.symm, Option.or_none]

end Installation

/-! ## The law -/

/-- What a maintainer can rely on in every installation that a run reaches. -/
structure Installation.Managed (space : Char → Bool) (events : List InstallationEvent)
    (installation : Installation) : Prop where
  /-- The schema holds the storage of the registered queues and nothing else. -/
  provisioned : installation.Provisioned space
  /-- The policies are those that the committed transactions have set. -/
  policies : installation.policies = events.foldl InstallationEvent.after fun _ => none
  /-- Creating a registered queue again changes nothing. -/
  idempotent : ∀ queue row, installation.find? queue = some row →
    installation.createQueue space (some queue) = .ok installation
  /-- A new queue is created unless a registered queue has taken one of the names
  of its storage. -/
  creatable : ∀ queue, Accepted space queue → installation.find? queue = none →
    ((∃ after, installation.createQueue space (some queue) = .ok after) ↔
      ∀ row ∈ installation.registry, ∀ relation ∈ installation.schema.relations,
        OwnedBy row.name relation → relation.name ∉ queueNames queue)
  /-- A registered queue can be dropped and created again, as a new one, and no
  other queue notices. -/
  recreatable : ∀ queue row, installation.find? queue = some row →
    ∃ dropped again, installation.dropQueue space (some queue) = .ok dropped ∧
      dropped.createQueue space (some queue) = .ok again ∧
      dropped.find? queue = none ∧ again.find? queue = some ⟨queue, createdQueue⟩ ∧
      ∀ other, other ≠ queue → dropped.find? other = installation.find? other ∧
        again.find? other = installation.find? other

/-- Every installation that a run reaches is managed. -/
theorem Installation.Run.managed {events : List InstallationEvent} {installation : Installation}
    (run : Installation.Run space events installation) : installation.Managed space events where
  provisioned := run.reached.1
  policies := run.reached.2
  idempotent queue row found := run.reached.1.createQueue_registered found
  creatable := by
    intro queue accepted absent
    rw [createQueue_iff accepted absent]
    constructor
    · intro free row isRow relation isRelation owned isName
      exact free relation.name isName
        ((run.reached.1.taken isName).mpr ⟨row, isRow, relation, isRelation, owned, rfl⟩)
    · intro apart name isName taken
      obtain ⟨row, isRow, relation, isRelation, owned, same⟩ :=
        (run.reached.1.taken isName).mp taken
      exact apart row isRow relation isRelation owned (same ▸ isName)
  recreatable queue row found := run.reached.1.recreates found

/-- Two queues are created, one of them with a TTL of one minute. -/
def createsQueues : List AdminStatement :=
  [.createQueue (some "orders"), .setQueuePolicy (some "orders") (some 60) none,
    .createQueue (some "mail")]

/-- A queue is dropped by a transaction that fails. -/
def dropsMail : List AdminStatement :=
  [.dropQueue (some "mail"), .setQueuePolicy (some "missing") (some 60) none]

/-- A client submits a task to a new queue. -/
def submitsMail : World := { World.blank second with store := createdQueue }

/-- Two queues are created, a drop of the second is rolled back, the second is
given a task, and the first is dropped. -/
theorem Installation.Run.managed_orders :
    ∃ error outcome installation,
      let events : List InstallationEvent := [.administered createsQueues none,
        .administered dropsMail (some error), .called "mail" ⟨plainSubmission [], outcome⟩,
        .administered [.dropQueue (some "orders")] none]
      Installation.Run asciiSpace events installation ∧
        (installation.registry.map fun row => (row.name, row.queue.tasks.length)) =
          [("mail", 1)] ∧
        installation.Managed asciiSpace events := by
  have reached : ∃ error outcome installation, Installation.Run asciiSpace
      [.administered createsQueues none, .administered dropsMail (some error),
        .called "mail" ⟨plainSubmission [], outcome⟩,
        .administered [.dropQueue (some "orders")] none] installation ∧
      (installation.registry.map fun row => (row.name, row.queue.tasks.length)) = [("mail", 1)] := by
    refine ⟨_, ((plainSubmission []).perform asciiSpace submitsMail).1, _,
      .cons (.committed rfl) (.cons (.raised rfl) (.cons
      (@Step.called asciiSpace _ ⟨"mail", createdQueue⟩ _ submitsMail _ rfl rfl rfl)
      (.cons (.committed rfl) (.nil _)))), ?_⟩
    decide +kernel
  obtain ⟨error, outcome, installation, run, rows⟩ := reached
  exact ⟨error, outcome, installation, run, rows, run.managed⟩

end Steda
