import Mathlib.Data.List.Perm.Subperm
import Steda.Postgres.Catalog
import Steda.Relational.Keyed

/-!
# Defining the tables of one schema

The statements that create the tables, indexes and foreign keys of a schema,
and the statement that drops a table with everything that depends on it.
-/

namespace Postgres

open Relational

/-! ## Schemas -/

/-- A table with its columns, or an index of a table. -/
inductive StoredRelation
  | table (name : String) (columns : List String)
  | index (name table : String)
  deriving DecidableEq, Repr

namespace StoredRelation

/-- The name in the schema. -/
def name : StoredRelation → String
  | .table name _ => name
  | .index name _ => name

/-- The table a relation is or belongs to. -/
def owner : StoredRelation → String
  | .table name _ => name
  | .index _ indexed => indexed

end StoredRelation

/-- A row of `pg_constraint`. -/
inductive TableConstraint
  | primaryKey (table : String)
  | foreignKey (table references : String)
  deriving DecidableEq, Repr

/-- The constraint is dropped with the table. -/
def TableConstraint.concerns (table : String) : TableConstraint → Bool
  | .primaryKey owner => owner == table
  | .foreignKey owner references => owner == table || references == table

/-- The relations and constraints of a schema, in the order of their creation. -/
structure Schema where
  relations : List StoredRelation
  constraints : List TableConstraint
  deriving DecidableEq, Repr

/-- What a statement about a schema fails with. -/
inductive SchemaError
  | duplicateRelation (relation : String)
  | relationMissing (relation : String)
  | notTable (relation : String)
  | columnMissing (column : String)
  deriving DecidableEq, Repr

/-- The text of an error. -/
def SchemaError.message : SchemaError → String
  | .duplicateRelation relation => "relation \"" ++ relation ++ "\" already exists"
  | .relationMissing relation => "relation \"" ++ relation ++ "\" does not exist"
  | .notTable relation => "\"" ++ relation ++ "\" is not a table"
  | .columnMissing column => "column \"" ++ column ++ "\" does not exist"

namespace Schema

/-- The names that are taken. -/
def names (schema : Schema) : List String := schema.relations.map StoredRelation.name

/-- `to_regclass`. -/
def find? (schema : Schema) (name : String) : Option StoredRelation :=
  find StoredRelation.name name schema.relations

/-- The columns of a table. -/
def columns (schema : Schema) (name : String) : Except SchemaError (List String) :=
  match schema.find? name with
  | none => .error (.relationMissing name)
  | some (.index _ _) => .error (.notTable name)
  | some (.table _ columns) => .ok columns

/-- The name is that of a table. -/
def HasTable (schema : Schema) (name : String) : Prop :=
  ∃ columns, schema.columns name = .ok columns

/-- `SELECT … LIMIT 0`. -/
def select (wanted : List String) (name : String) (schema : Schema) : Except SchemaError Unit := do
  let columns ← schema.columns (truncateIdentifier name)
  match wanted.find? fun column => !columns.contains column with
  | some column => throw (.columnMissing column)
  | none => pure ()

end Schema

/-! ## Statements -/

/-- A key of a table. -/
inductive TableKey
  | primary
  | unique (columns : List String)
  deriving DecidableEq, Repr

namespace TableKey

/-- What is added to the name of the table for the index of a key. -/
def addition : TableKey → String
  | .primary => "_pkey"
  | .unique columns => "_" ++ "_".intercalate columns ++ "_key"

/-- The constraints of a key that are looked up. -/
def constraints (table : String) : TableKey → List TableConstraint
  | .primary => [.primaryKey table]
  | .unique _ => []

end TableKey

/-- A statement that creates something. -/
inductive Creation
  | createTable (name : String) (columns : List String) (keys : List TableKey)
      (references : List String)
  | addForeignKey (table references : String)
  | createIndex (name table : String)
  deriving DecidableEq, Repr

namespace Schema

/-- Add a relation whose name is free. -/
def add (relation : StoredRelation) (schema : Schema) : Except SchemaError Schema :=
  if schema.names.contains relation.name then .error (.duplicateRelation relation.name)
  else .ok { schema with relations := schema.relations ++ [relation] }

/-- Add a key with its index. -/
def addKey (table : String) (schema : Schema) (key : TableKey) : Schema where
  relations := schema.relations ++
    [.index (chooseName (table ++ key.addition) schema.names) table]
  constraints := schema.constraints ++ key.constraints table

/-- Add a foreign key to a table that exists. -/
def addForeignKey (table : String) (schema : Schema) (references : String) :
    Except SchemaError Schema := do
  let _ ← schema.columns (truncateIdentifier references)
  return { schema with
           constraints := schema.constraints ++
             [.foreignKey table (truncateIdentifier references)] }

/-- `DROP TABLE IF EXISTS … CASCADE`. -/
def dropTable (name : String) (schema : Schema) : Except SchemaError Schema :=
  let table := truncateIdentifier name
  match schema.find? table with
  | none => .ok schema
  | some (.index _ _) => .error (.notTable table)
  | some (.table _ _) =>
      .ok { relations := schema.relations.filter fun relation => relation.owner != table
            constraints := schema.constraints.filter fun constraint => !constraint.concerns table }

end Schema

namespace Creation

/-- Execute a statement. -/
def perform : Creation → Schema → Except SchemaError Schema
  | .createTable name columns keys references, schema => do
      let table := truncateIdentifier name
      let created ← schema.add (.table table columns)
      references.foldlM (Schema.addForeignKey table) (keys.foldl (Schema.addKey table) created)
  | .addForeignKey table references, schema => do
      let _ ← schema.columns (truncateIdentifier table)
      schema.addForeignKey (truncateIdentifier table) references
  | .createIndex name table, schema => do
      let _ ← schema.columns (truncateIdentifier table)
      schema.add (.index (truncateIdentifier name) (truncateIdentifier table))

/-- Execute statements one after the other. -/
def performAll (creations : List Creation) (schema : Schema) : Except SchemaError Schema :=
  creations.foldlM (fun schema creation => creation.perform schema) schema

/-- The name a statement takes, with what is added to it for its keys. -/
def relation? : Creation → Option Relation
  | .createTable name _ keys _ => some ⟨name, keys.map TableKey.addition⟩
  | .addForeignKey _ _ => none
  | .createIndex name _ => some ⟨name, []⟩

/-- The table a statement creates or changes. -/
def table : Creation → String
  | .createTable name _ _ _ => name
  | .addForeignKey owner _ => owner
  | .createIndex _ owner => owner

/-- The tables a statement looks up. -/
def requires : Creation → List String
  | .createTable _ _ _ references => references
  | .addForeignKey owner references => [owner, references]
  | .createIndex _ owner => [owner]

/-- The tables a statement creates. -/
def provides : Creation → List String
  | .createTable name _ _ _ => [name]
  | .addForeignKey _ _ => []
  | .createIndex _ _ => []

/-- The constraints a statement creates. -/
def constraints : Creation → List TableConstraint
  | .createTable name _ keys references =>
      keys.flatMap (TableKey.constraints (truncateIdentifier name)) ++
        references.map fun other =>
          .foreignKey (truncateIdentifier name) (truncateIdentifier other)
  | .addForeignKey table references =>
      [.foreignKey (truncateIdentifier table) (truncateIdentifier references)]
  | .createIndex _ _ => []

/-- The relations are those that a statement creates.  The index of a key has a
number after its name when the name was taken. -/
inductive Adds : Creation → List StoredRelation → Prop
  | createTable {name : String} {columns : List String} {keys : List TableKey}
      {references picks : List String}
      (named : List.Forall₂ (fun key pick => ∃ number,
        pick = truncateIdentifier name ++ key.addition ++ number) keys picks) :
      Adds (.createTable name columns keys references)
        (.table (truncateIdentifier name) columns ::
          picks.map fun pick => .index pick (truncateIdentifier name))
  | addForeignKey {table references : String} : Adds (.addForeignKey table references) []
  | createIndex {name table : String} :
      Adds (.createIndex name table) [.index (truncateIdentifier name) (truncateIdentifier table)]

/-- Every statement finds the tables it needs. -/
def Resolved : List Creation → List String → Prop
  | [], _ => True
  | creation :: rest, known =>
      (∀ table ∈ creation.requires, table ∈ known) ∧ Resolved rest (known ++ creation.provides)

end Creation

namespace Creation

variable {creation : Creation} {added : List StoredRelation}

/-- What a statement adds belongs to its table. -/
theorem Adds.owner (adds : creation.Adds added) {relation : StoredRelation}
    (member : relation ∈ added) : relation.owner = truncateIdentifier creation.table := by
  cases adds with
  | createTable named =>
      rcases List.mem_cons.mp member with isTable | isIndex
      · rw [isTable]
        rfl
      · obtain ⟨pick, _, isPick⟩ := List.mem_map.mp isIndex
        rw [← isPick]
        rfl
  | addForeignKey => cases member
  | createIndex =>
      rw [List.mem_singleton.mp member]
      rfl

/-- What a statement adds contains the relation it names. -/
theorem Adds.named (adds : creation.Adds added) {relation : Relation}
    (isNamed : creation.relation? = some relation) :
    ∃ stored ∈ added, stored.name = truncateIdentifier relation.name := by
  cases adds with
  | createTable named =>
      cases isNamed
      exact ⟨_, List.mem_cons_self, rfl⟩
  | addForeignKey => cases isNamed
  | createIndex =>
      cases isNamed
      exact ⟨_, List.mem_cons_self, rfl⟩

theorem Adds.isTable {name : String} {columns : List String} {keys : List TableKey}
    {references : List String}
    (adds : Adds (.createTable name columns keys references) added) :
    .table (truncateIdentifier name) columns ∈ added := by
  cases adds with
  | createTable named => exact List.mem_cons_self

/-- Every statement has added its relations. -/
theorem exists_adds {creations : List Creation} {added : List (List StoredRelation)}
    (adds : List.Forall₂ Adds creations added) (member : creation ∈ creations) :
    ∃ own ∈ added, creation.Adds own := by
  induction adds with
  | nil => cases member
  | cons first rest inductionHypothesis =>
      rcases List.mem_cons.mp member with same | later
      · rw [same]
        exact ⟨_, List.mem_cons_self, first⟩
      · obtain ⟨own, isOwn, addsOwn⟩ := inductionHypothesis later
        exact ⟨own, List.mem_cons_of_mem _ isOwn, addsOwn⟩

/-- Every relation was added by a statement. -/
theorem added_owner {creations : List Creation} {added : List (List StoredRelation)}
    (adds : List.Forall₂ Adds creations added) {relation : StoredRelation}
    (member : relation ∈ added.flatten) :
    ∃ creation ∈ creations, relation.owner = truncateIdentifier creation.table := by
  induction adds with
  | nil => cases member
  | cons first rest inductionHypothesis =>
      rw [List.flatten_cons, List.mem_append] at member
      rcases member with own | later
      · exact ⟨_, List.mem_cons_self, first.owner own⟩
      · obtain ⟨creation, isCreation, isOwner⟩ := inductionHypothesis later
        exact ⟨creation, List.mem_cons_of_mem _ isCreation, isOwner⟩

end Creation

/-! ## Names of indexes -/

theorem numbered_injective (base : String) :
    Function.Injective fun position : Nat => base ++ toString (position + 1) := by
  intro first second same
  have digits : toString (first + 1) = toString (second + 1) :=
    (String.append_right_inj base).mp same
  have lists := congrArg String.toList digits
  simp only [Nat.toString_eq_repr, Nat.toList_repr] at lists
  have values := congrArg (Nat.ofDigitChars 10 · 0) lists
  simp only [Nat.ofDigitChars_ten_toDigits] at values
  omega

/-- The name of an index is free. -/
theorem chooseName_not_mem (base : String) (catalog : List String) :
    chooseName base catalog ∉ catalog := by
  unfold chooseName
  split
  · next taken =>
      cases found : ((List.range (catalog.length + 1)).map fun position =>
          base ++ toString (position + 1)).find? fun name => !catalog.contains name with
      | some name =>
          have free := List.find?_some found
          simpa using free
      | none =>
          have full : (List.range (catalog.length + 1)).map (fun position =>
              base ++ toString (position + 1)) ⊆ catalog := by
            intro name member
            have isTaken := List.find?_eq_none.mp found name member
            simpa using isTaken
          have counted := ((List.nodup_range.map (numbered_injective base)).subperm full).length_le
          rw [List.length_map, List.length_range] at counted
          omega
  · next free => simpa using free

/-! ## What statements add -/

theorem toOption_eq_some {ε α : Type} {outcome : Except ε α} {value : α} :
    outcome.toOption = some value ↔ outcome = .ok value := by
  cases outcome <;> simp [Except.toOption]

theorem SchemaError.bind_ok {α β : Type} {outcome : Except SchemaError α}
    {next : α → Except SchemaError β} {result : β} :
    (outcome >>= next) = .ok result ↔ ∃ value, outcome = .ok value ∧ next value = .ok result := by
  cases outcome <;> simp [bind, Except.bind]

namespace Schema

variable {schema after : Schema} {table name : String}

theorem find?_eq_none : schema.find? name = none ↔ name ∉ schema.names := by
  unfold find? names
  rw [find_eq_none, List.mem_map]
  constructor
  · rintro absent ⟨relation, member, same⟩
    exact absent relation member same
  · intro absent relation member same
    exact absent ⟨relation, member, same⟩

/-- What is found stays found when relations are added. -/
theorem HasTable.append (found : schema.HasTable table) {added : List StoredRelation}
    (isAfter : after.relations = schema.relations ++ added) : after.HasTable table := by
  obtain ⟨columns, isColumns⟩ := found
  refine ⟨columns, ?_⟩
  unfold Schema.columns find? at isColumns ⊢
  rw [isAfter, find_append]
  cases isFound : find StoredRelation.name table schema.relations with
  | none =>
      rw [isFound] at isColumns
      cases isColumns
  | some relation => rwa [isFound] at isColumns

/-- A table is found by its name. -/
theorem hasTable_of_mem (distinct : schema.names.Nodup) {columns : List String}
    (member : .table name columns ∈ schema.relations) : schema.columns name = .ok columns := by
  have found := find_of_mem distinct member
  unfold Schema.columns find?
  rw [show find StoredRelation.name name schema.relations = _ from found]

theorem HasTable.mem (found : schema.HasTable table) :
    ∃ columns, .table table columns ∈ schema.relations := by
  obtain ⟨columns, isColumns⟩ := found
  unfold Schema.columns at isColumns
  cases isFound : schema.find? table with
  | none =>
      rw [isFound] at isColumns
      cases isColumns
  | some relation =>
      rw [isFound] at isColumns
      have isName := key_of_find isFound
      cases relation with
      | index name owner => cases isColumns
      | table name columns =>
          cases isName
          exact ⟨columns, mem_of_find isFound⟩

/-- A relation is added when its name is free. -/
theorem add_ok {relation : StoredRelation} : schema.add relation = .ok after ↔
    relation.name ∉ schema.names ∧
      after = { schema with relations := schema.relations ++ [relation] } := by
  unfold add
  by_cases taken : relation.name ∈ schema.names
  · rw [if_pos (by simpa using taken)]
    refine iff_of_false (fun added => nomatch added) fun free => free.1 taken
  · rw [if_neg (by simpa using taken), Except.ok.injEq, and_iff_right taken, eq_comm]

theorem nodup_concat {names : List String} (distinct : names.Nodup) {fresh : String}
    (free : fresh ∉ names) : (names ++ [fresh]).Nodup := by
  rw [List.nodup_append]
  refine ⟨distinct, List.nodup_singleton fresh, ?_⟩
  intro name member other isFresh same
  rw [List.mem_singleton.mp isFresh] at same
  exact free (same ▸ member)

/-- What the keys of a table add. -/
theorem addKeys (table : String) (keys : List TableKey) (schema : Schema) :
    ∃ picks, List.Forall₂ (fun key pick => ∃ number, pick = table ++ key.addition ++ number) keys
        picks ∧
      keys.foldl (addKey table) schema =
        { relations := schema.relations ++ picks.map fun pick => .index pick table
          constraints := schema.constraints ++ keys.flatMap (TableKey.constraints table) } ∧
      schema.names ++ picks =
        nameIndexes (keys.map fun key => table ++ key.addition) schema.names ∧
      (schema.names.Nodup → (schema.names ++ picks).Nodup) := by
  induction keys generalizing schema with
  | nil => exact ⟨[], .nil, by simp, by simp [nameIndexes], by simp⟩
  | cons key rest inductionHypothesis =>
      obtain ⟨picks, named, folds, names, distinct⟩ := inductionHypothesis (schema.addKey table key)
      obtain ⟨number, isPick⟩ := chooseName_extends (table ++ key.addition) schema.names
      have added : (schema.addKey table key).names =
          schema.names ++ [chooseName (table ++ key.addition) schema.names] := by
        simp [Schema.names, addKey, StoredRelation.name]
      rw [added, List.append_assoc, List.singleton_append] at names distinct
      refine ⟨_ :: picks, .cons ⟨number, isPick⟩ named, ?_, names, fun old => distinct ?_⟩
      · rw [List.foldl_cons, folds]
        simp [addKey]
      · exact nodup_concat old (chooseName_not_mem _ _)

/-- A foreign key is added when the other table exists. -/
theorem addForeignKey_ok {other : String} : schema.addForeignKey table other = .ok after ↔
    schema.HasTable (truncateIdentifier other) ∧
      after = { schema with
                constraints := schema.constraints ++
                  [.foreignKey table (truncateIdentifier other)] } := by
  unfold addForeignKey HasTable
  cases found : schema.columns (truncateIdentifier other) with
  | error error => exact iff_of_false (fun adds => nomatch adds) fun has => nomatch has.1
  | ok columns =>
      have some_ : ∃ others, Except.ok (ε := SchemaError) columns = .ok others := ⟨columns, rfl⟩
      rw [and_iff_right some_]
      exact ⟨fun adds => (Except.ok.inj adds).symm, fun isAfter => congrArg Except.ok isAfter.symm⟩

/-- The foreign keys of a table are added when the other tables exist. -/
theorem addForeignKeys_ok {references : List String} {schema : Schema} :
    references.foldlM (addForeignKey table) schema = .ok after ↔
      (∀ other ∈ references, schema.HasTable (truncateIdentifier other)) ∧
        after = { schema with
                  constraints := schema.constraints ++ references.map fun other =>
                    .foreignKey table (truncateIdentifier other) } := by
  induction references generalizing schema with
  | nil =>
      rw [List.map_nil, List.append_nil, and_iff_right (by simp)]
      exact ⟨fun same => (Except.ok.inj same).symm, fun same => congrArg Except.ok same.symm⟩
  | cons other rest inductionHypothesis =>
      rw [List.foldlM_cons, SchemaError.bind_ok, List.forall_mem_cons]
      constructor
      · rintro ⟨added, adds, later⟩
        obtain ⟨found, isAdded⟩ := addForeignKey_ok.mp adds
        obtain ⟨others, isAfter⟩ := inductionHypothesis.mp later
        subst isAdded
        refine ⟨⟨found, others⟩, ?_⟩
        rw [isAfter, List.map_cons, List.append_assoc, List.singleton_append]
      · rintro ⟨⟨found, others⟩, isAfter⟩
        refine ⟨_, addForeignKey_ok.mpr ⟨found, rfl⟩, inductionHypothesis.mpr ⟨others, ?_⟩⟩
        rw [isAfter, List.map_cons, List.append_assoc, List.singleton_append]

end Schema

namespace Creation

variable {creation : Creation} {schema after : Schema}

/-- A statement adds its relations and constraints and keeps names distinct. -/
theorem perform_adds (performs : creation.perform schema = .ok after) :
    ∃ added, creation.Adds added ∧ after.relations = schema.relations ++ added ∧
      after.constraints = schema.constraints ++ creation.constraints ∧
      (schema.names.Nodup → after.names.Nodup) := by
  cases creation with
  | createTable name columns keys references =>
      obtain ⟨created, adds, referenced⟩ := SchemaError.bind_ok.mp performs
      obtain ⟨free, isCreated⟩ := Schema.add_ok.mp adds
      obtain ⟨picks, named, folds, _, distinct⟩ := Schema.addKeys _ keys created
      rw [(Schema.addForeignKeys_ok.mp referenced).2, folds, isCreated]
      have isNames : created.names = schema.names ++ [truncateIdentifier name] := by
        rw [isCreated]
        simp [Schema.names, StoredRelation.name]
      refine ⟨_, .createTable named, ?_, ?_, fun old => ?_⟩
      · simp
      · simp [constraints]
      · have whole := distinct (isNames ▸ Schema.nodup_concat old free)
        rw [isNames] at whole
        simpa [Schema.names, StoredRelation.name, Function.comp_def] using whole
  | addForeignKey table references =>
      obtain ⟨columns, _, referenced⟩ := SchemaError.bind_ok.mp performs
      rw [(Schema.addForeignKey_ok.mp referenced).2]
      exact ⟨_, .addForeignKey, (List.append_nil _).symm, rfl, id⟩
  | createIndex name table =>
      obtain ⟨columns, _, adds⟩ := SchemaError.bind_ok.mp performs
      obtain ⟨free, isAfter⟩ := Schema.add_ok.mp adds
      rw [isAfter]
      refine ⟨_, .createIndex, rfl, (List.append_nil _).symm, fun old => ?_⟩
      have whole := Schema.nodup_concat old free
      simpa [Schema.names] using whole

/-- A table that is created is found. -/
theorem add_table {name : String} {columns : List String}
    (adds : schema.add (.table name columns) = .ok after) : after.HasTable name := by
  obtain ⟨free, isAfter⟩ := Schema.add_ok.mp adds
  have absent : find StoredRelation.name name schema.relations = none :=
    Schema.find?_eq_none.mpr free
  have isNew : find StoredRelation.name name [.table name columns] =
      some (.table name columns) := find_cons_eq rfl
  refine ⟨columns, ?_⟩
  unfold Schema.columns Schema.find?
  rw [isAfter, find_append, absent, isNew]
  rfl

/-- The tables a statement creates exist after it. -/
theorem perform_provides (performs : creation.perform schema = .ok after) :
    ∀ table ∈ creation.provides, after.HasTable (truncateIdentifier table) := by
  intro table isProvided
  cases creation with
  | addForeignKey => cases isProvided
  | createIndex => cases isProvided
  | createTable name columns keys references =>
      rw [List.mem_singleton.mp isProvided]
      obtain ⟨created, adds, referenced⟩ := SchemaError.bind_ok.mp performs
      obtain ⟨picks, _, folds, _, _⟩ := Schema.addKeys (truncateIdentifier name) keys created
      rw [(Schema.addForeignKeys_ok.mp referenced).2, folds]
      exact (add_table adds).append rfl

theorem createAll_one (relation : Relation) (catalog : List String) :
    createAll [relation] catalog = relation.create catalog := by
  unfold createAll
  cases relation.create catalog <;> rfl

/-- A statement whose tables exist takes its names in the catalog, or fails with
a name that is taken. -/
theorem perform_names
    (short : ∀ relation ∈ creation.relation?, relation.name.utf8ByteSize ≤ maxIdentifierBytes)
    (found : ∀ table ∈ creation.requires, schema.HasTable (truncateIdentifier table)) :
    (∃ after, creation.perform schema = .ok after ∧
      createAll creation.relation?.toList schema.names = .ok after.names) ∨
    ((∀ after, creation.perform schema ≠ .ok after) ∧
      ∀ names, createAll creation.relation?.toList schema.names ≠ .ok names) := by
  cases creation with
  | addForeignKey table references =>
      left
      obtain ⟨columns, isTable⟩ := found table List.mem_cons_self
      have other := found references (List.mem_cons_of_mem _ List.mem_cons_self)
      exact ⟨_, SchemaError.bind_ok.mpr
        ⟨columns, isTable, Schema.addForeignKey_ok.mpr ⟨other, rfl⟩⟩, rfl⟩
  | createTable name columns keys references =>
      have stored := truncateIdentifier_of_le (short _ rfl)
      dsimp only at stored
      rw [relation?, Option.toList_some, createAll_one, Relation.create, stored]
      by_cases taken : name ∈ schema.names
      · right
        rw [if_pos (by simpa using taken)]
        constructor
        · intro after performs
          obtain ⟨created, adds, _⟩ := SchemaError.bind_ok.mp performs
          obtain ⟨free, _⟩ := Schema.add_ok.mp adds
          rw [stored] at free
          exact free taken
        · intro names created
          cases created
      · left
        rw [if_neg (by simpa using taken)]
        let created : Schema :=
          { schema with relations := schema.relations ++ [.table name columns] }
        obtain ⟨picks, _, folds, names, _⟩ := Schema.addKeys name keys created
        have isNames : created.names = schema.names ++ [name] := by
          simp [created, Schema.names, StoredRelation.name]
        have others : ∀ other ∈ references,
            (keys.foldl (Schema.addKey name) created).HasTable (truncateIdentifier other) := by
          intro other isOther
          rw [folds]
          exact (found other isOther).append (List.append_assoc _ _ _)
        refine ⟨_, SchemaError.bind_ok.mpr ⟨created, ?_, Schema.addForeignKeys_ok.mpr
          ⟨by rwa [stored], rfl⟩⟩, ?_⟩
        · rw [stored]
          exact Schema.add_ok.mpr ⟨taken, rfl⟩
        · rw [stored, folds]
          rw [isNames] at names
          rw [Relation.bases, List.map_map]
          refine congrArg Except.ok ?_
          refine names.symm.trans ?_
          simp [Schema.names, StoredRelation.name, created, Function.comp_def]
  | createIndex name table =>
      have stored := truncateIdentifier_of_le (short _ rfl)
      dsimp only at stored
      obtain ⟨columns, isTable⟩ := found table List.mem_cons_self
      rw [relation?, Option.toList_some, createAll_one, Relation.create, stored]
      by_cases taken : name ∈ schema.names
      · right
        rw [if_pos (by simpa using taken)]
        constructor
        · intro after performs
          obtain ⟨_, _, adds⟩ := SchemaError.bind_ok.mp performs
          obtain ⟨free, _⟩ := Schema.add_ok.mp adds
          rw [stored] at free
          exact free taken
        · intro names created
          cases created
      · left
        rw [if_neg (by simpa using taken)]
        refine ⟨_, SchemaError.bind_ok.mpr ⟨columns, isTable, Schema.add_ok.mpr ⟨?_, rfl⟩⟩, ?_⟩
        · rw [stored]
          exact taken
        · simp [Schema.names, StoredRelation.name, Relation.bases, nameIndexes, stored]

/-! ## Several statements -/

/-- Statements add their relations and constraints one after the other. -/
theorem performAll_adds {creations : List Creation} {schema : Schema}
    (performs : performAll creations schema = .ok after) :
    ∃ added, List.Forall₂ Adds creations added ∧
      after.relations = schema.relations ++ added.flatten ∧
      after.constraints = schema.constraints ++ creations.flatMap constraints ∧
      (schema.names.Nodup → after.names.Nodup) := by
  induction creations generalizing schema with
  | nil =>
      cases performs
      exact ⟨[], .nil, (List.append_nil _).symm, (List.append_nil _).symm, id⟩
  | cons creation rest inductionHypothesis =>
      obtain ⟨middle, first, later⟩ := SchemaError.bind_ok.mp performs
      obtain ⟨own, adds, relations, constraints, distinct⟩ := perform_adds first
      obtain ⟨others, addsOthers, relationsAfter, constraintsAfter, distinctAfter⟩ :=
        inductionHypothesis later
      refine ⟨own :: others, .cons adds addsOthers, ?_, ?_, fun old => distinctAfter (distinct old)⟩
      · rw [relationsAfter, relations, List.append_assoc, List.flatten_cons]
      · rw [constraintsAfter, constraints, List.append_assoc, List.flatMap_cons]

theorem createAll_append {first second : List Relation} {catalog : List String} :
    createAll (first ++ second) catalog = (createAll first catalog).bind (createAll second) := by
  induction first generalizing catalog with
  | nil => rfl
  | cons relation rest inductionHypothesis =>
      rw [List.cons_append]
      unfold createAll
      cases relation.create catalog with
      | error name => rfl
      | ok created => exact inductionHypothesis

/-- Statements whose tables exist take their names in the catalog, and fail when
these cannot be created. -/
theorem performAll_names {creations : List Creation} {schema : Schema} {known : List String}
    (short : ∀ relation ∈ creations.flatMap fun creation => creation.relation?.toList,
      relation.name.utf8ByteSize ≤ maxIdentifierBytes)
    (found : ∀ table ∈ known, schema.HasTable (truncateIdentifier table))
    (resolved : Resolved creations known) :
    (performAll creations schema).toOption.map Schema.names =
      (createAll (creations.flatMap fun creation => creation.relation?.toList)
        schema.names).toOption := by
  induction creations generalizing schema known with
  | nil => rfl
  | cons creation rest inductionHypothesis =>
      rw [List.flatMap_cons] at short ⊢
      have shortOwn : ∀ relation ∈ creation.relation?,
          relation.name.utf8ByteSize ≤ maxIdentifierBytes := fun relation isOwn =>
        short relation (List.mem_append_left _ (Option.mem_toList.mpr isOwn))
      have own : ∀ table ∈ creation.requires, schema.HasTable (truncateIdentifier table) :=
        fun table isRequired => found table (resolved.1 table isRequired)
      have first : performAll (creation :: rest) schema =
          (creation.perform schema).bind (performAll rest) := rfl
      rw [first, createAll_append]
      rcases perform_names shortOwn own with ⟨middle, performs, creates⟩ | ⟨fails, refused⟩
      · obtain ⟨added, _, relations, _, _⟩ := perform_adds performs
        rw [performs, creates]
        refine @inductionHypothesis middle (known ++ creation.provides)
          (fun relation isLater => short relation (List.mem_append_right _ isLater)) ?_ resolved.2
        intro table isKnown
        rcases List.mem_append.mp isKnown with old | new
        · exact (found table old).append relations
        · exact perform_provides performs table new
      · cases performs : creation.perform schema with
        | ok after => exact absurd performs (fails after)
        | error error =>
            cases creates : createAll creation.relation?.toList schema.names with
            | ok names => exact absurd creates (refused names)
            | error name => rfl

end Creation

/-! ## Dropping tables -/

/-- Tables that exist are dropped with their indexes and constraints. -/
theorem Schema.dropTables {tables : List String} {schema : Schema} (distinct : tables.Nodup)
    (short : ∀ table ∈ tables, truncateIdentifier table = table)
    (names : schema.names.Nodup)
    (present : ∀ table ∈ tables, ∃ columns, .table table columns ∈ schema.relations) :
    tables.foldlM (fun schema table => schema.dropTable table) schema = .ok
      { relations := schema.relations.filter fun relation => !tables.contains relation.owner
        constraints := schema.constraints.filter fun constraint =>
          !tables.any fun table => constraint.concerns table } := by
  induction tables generalizing schema with
  | nil => simp [pure, Except.pure]
  | cons table rest inductionHypothesis =>
      obtain ⟨columns, member⟩ := present table List.mem_cons_self
      obtain ⟨absent, distinctRest⟩ := List.nodup_cons.mp distinct
      let middle : Schema :=
        { relations := schema.relations.filter fun relation => relation.owner != table
          constraints := schema.constraints.filter fun constraint => !constraint.concerns table }
      have isFound : find StoredRelation.name (StoredRelation.table table columns).name
          schema.relations = some (.table table columns) := find_of_mem names member
      have found : schema.find? table = some (.table table columns) := isFound
      have drops : schema.dropTable table = .ok middle := by
        unfold dropTable
        rw [short table List.mem_cons_self]
        simp only [found, middle]
      have later := @inductionHypothesis middle distinctRest
        (fun other isLater => short other (List.mem_cons_of_mem _ isLater))
        (names.sublist (List.filter_sublist.map _))
        (by
          intro other isLater
          obtain ⟨others, isOther⟩ := present other (List.mem_cons_of_mem _ isLater)
          refine ⟨others, List.mem_filter.mpr ⟨isOther, ?_⟩⟩
          have different : other ≠ table := fun same => absent (same ▸ isLater)
          simpa [StoredRelation.owner] using different)
      rw [List.foldlM_cons, drops]
      refine later.trans ?_
      simp only [middle, List.filter_filter, List.contains_cons, List.any_cons, Bool.not_or]
      congr 2
      · congr 1
        funext relation
        rw [Bool.and_comm]
        rfl
      · congr 1
        funext constraint
        rw [Bool.and_comm]

end Postgres
