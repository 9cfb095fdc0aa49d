import Mathlib.Data.List.Nodup
import Mathlib.Data.List.Induction
import Steda.Text.Framing

/-!
# Relation names of one schema

Tables and indexes of a schema share one namespace.  A name longer than 63
bytes is truncated.  Creating a relation fails when its name is taken; an index
that backs a constraint gets a free name that starts with the table's.
-/

namespace Postgres

/-- Longest identifier, in bytes. -/
def maxIdentifierBytes : Nat := 63

/-- The longest prefix of whole characters within a number of bytes. -/
def clip : Nat → List Char → List Char
  | _, [] => []
  | budget, char :: rest =>
      if char.utf8Size ≤ budget then char :: clip (budget - char.utf8Size) rest else []

/-- The identifier that is stored for a name. -/
def truncateIdentifier (name : String) : String :=
  String.ofList (clip maxIdentifierBytes name.toList)

theorem clip_of_le {budget : Nat} {chars : List Char}
    (short : (chars.map Char.utf8Size).sum ≤ budget) : clip budget chars = chars := by
  induction chars generalizing budget with
  | nil => rfl
  | cons char rest inductionHypothesis =>
      rw [List.map_cons, List.sum_cons] at short
      rw [clip, if_pos (by omega), inductionHypothesis (by omega)]

/-- A name within the limit is stored as it is. -/
theorem truncateIdentifier_of_le {name : String} (short : name.utf8ByteSize ≤ maxIdentifierBytes) :
    truncateIdentifier name = name := by
  rw [← String.ofList_toList (s := name), Text.utf8ByteSize_ofList] at short
  rw [truncateIdentifier, clip_of_le (by simpa using short), String.ofList_toList]

/-! ## Creating relations -/

/-- A table with what is added to its name for each constraint index, or an
index, which has no constraints. -/
structure Relation where
  name : String
  additions : List String

namespace Relation

/-- The names the constraint indexes get unless they are taken. -/
def bases (relation : Relation) : List String :=
  relation.additions.map fun addition => relation.name ++ addition

/-- All names of a relation and its constraint indexes. -/
def names (relation : Relation) : List String := relation.name :: relation.bases

end Relation

/-- A free name for a constraint index: the base, or else the base with a
number. -/
def chooseName (base : String) (catalog : List String) : String :=
  if catalog.contains base then
    (((List.range (catalog.length + 1)).map fun position => base ++ toString (position + 1)).find?
      fun name => !catalog.contains name).getD base
  else base

/-- Name the constraint indexes of a table. -/
def nameIndexes (bases : List String) (catalog : List String) : List String :=
  bases.foldl (fun catalog base => catalog ++ [chooseName base catalog]) catalog

/-- Create a relation with its constraint indexes.  A name that is taken is the
error. -/
def Relation.create (relation : Relation) (catalog : List String) : Except String (List String) :=
  if catalog.contains (truncateIdentifier relation.name) then .error relation.name
  else .ok (nameIndexes relation.bases (catalog ++ [truncateIdentifier relation.name]))

/-- Create relations one after the other. -/
def createAll : List Relation → List String → Except String (List String)
  | [], catalog => .ok catalog
  | relation :: rest, catalog => do
      let created ← relation.create catalog
      createAll rest created

theorem chooseName_free {base : String} {catalog : List String} (free : base ∉ catalog) :
    chooseName base catalog = base := by
  rw [chooseName, if_neg (by simpa using free)]

/-- A chosen name starts with its base. -/
theorem chooseName_extends (base : String) (catalog : List String) :
    ∃ rest, chooseName base catalog = base ++ rest := by
  unfold chooseName
  split
  · cases found : ((List.range (catalog.length + 1)).map fun position =>
        base ++ toString (position + 1)).find? fun name => !catalog.contains name with
    | none => exact ⟨"", by simp⟩
    | some name =>
        obtain ⟨position, _, isName⟩ := List.mem_map.mp (List.mem_of_find?_eq_some found)
        exact ⟨toString (position + 1), isName.symm⟩
  · exact ⟨"", by simp⟩

/-- Naming indexes adds names that start with their bases. -/
theorem mem_nameIndexes {bases catalog : List String} {name : String} :
    (name ∈ catalog → name ∈ nameIndexes bases catalog) ∧
      (name ∈ nameIndexes bases catalog →
        name ∈ catalog ∨ ∃ base ∈ bases, ∃ rest, name = base ++ rest) := by
  induction bases generalizing catalog with
  | nil => exact ⟨id, Or.inl⟩
  | cons base more inductionHypothesis =>
      change (name ∈ catalog → name ∈ nameIndexes more (catalog ++ [chooseName base catalog])) ∧
        (name ∈ nameIndexes more (catalog ++ [chooseName base catalog]) → _)
      obtain ⟨kept, added⟩ := @inductionHypothesis (catalog ++ [chooseName base catalog])
      refine ⟨fun member => kept (List.mem_append_left _ member), fun member => ?_⟩
      rcases added member with old | ⟨other, inMore, rest, isName⟩
      · rcases List.mem_append.mp old with inCatalog | isNew
        · exact Or.inl inCatalog
        · obtain ⟨rest, isChosen⟩ := chooseName_extends base catalog
          exact Or.inr ⟨base, List.mem_cons_self, rest, (List.mem_singleton.mp isNew).trans isChosen⟩
      · exact Or.inr ⟨other, List.mem_cons_of_mem _ inMore, rest, isName⟩

/-- Free and different bases are the names of the indexes. -/
theorem nameIndexes_free {bases catalog : List String} (distinct : bases.Nodup)
    (free : ∀ base ∈ bases, base ∉ catalog) : nameIndexes bases catalog = catalog ++ bases := by
  induction bases generalizing catalog with
  | nil => simp [nameIndexes]
  | cons base more inductionHypothesis =>
      obtain ⟨absent, distinctMore⟩ := List.nodup_cons.mp distinct
      change nameIndexes more (catalog ++ [chooseName base catalog]) = _
      rw [chooseName_free (free base List.mem_cons_self), inductionHypothesis distinctMore]
      · rw [List.append_assoc, List.singleton_append]
      · intro other inMore inCatalog
        rcases List.mem_append.mp inCatalog with old | isBase
        · exact free other (List.mem_cons_of_mem _ inMore) old
        · exact absent (List.mem_singleton.mp isBase ▸ inMore)

/-- Relations whose names are all free and different are created under their
names. -/
theorem createAll_free {relations : List Relation} {catalog : List String}
    (short : ∀ relation ∈ relations, relation.name.utf8ByteSize ≤ maxIdentifierBytes)
    (distinct : (relations.flatMap Relation.names).Nodup)
    (free : ∀ name ∈ relations.flatMap Relation.names, name ∉ catalog) :
    createAll relations catalog = .ok (catalog ++ relations.flatMap Relation.names) := by
  induction relations generalizing catalog with
  | nil => simp [createAll]
  | cons relation rest inductionHypothesis =>
      rw [List.flatMap_cons, List.nodup_append] at distinct
      obtain ⟨own, others, apart⟩ := distinct
      obtain ⟨absent, bases⟩ := List.nodup_cons.mp own
      have isFree : ∀ name ∈ relation.names, name ∉ catalog := fun name member =>
        free name (List.mem_append_left _ member)
      have nameFree : catalog.contains relation.name = false := by
        simpa using isFree relation.name List.mem_cons_self
      have created : relation.create catalog = .ok (catalog ++ relation.names) := by
        rw [Relation.create, truncateIdentifier_of_le (short relation List.mem_cons_self), nameFree,
          if_neg (by decide), nameIndexes_free bases]
        · rw [List.append_assoc]
          rfl
        · intro base isBase inCatalog
          rcases List.mem_append.mp inCatalog with old | isName
          · exact isFree base (List.mem_cons_of_mem _ isBase) old
          · exact absent (List.mem_singleton.mp isName ▸ isBase)
      simp only [createAll, created]
      refine (inductionHypothesis (fun other member => short other (List.mem_cons_of_mem _ member))
        others ?_).trans ?_
      · intro name member inCatalog
        rcases List.mem_append.mp inCatalog with old | inOwn
        · exact free name (List.mem_append_right _ member) old
        · exact apart name inOwn name member rfl
      · rw [List.flatMap_cons, List.append_assoc]

/-- Relations that cannot clash with each other are created exactly when their
own names are free. -/
theorem createAll_iff {relations : List Relation} {catalog : List String}
    (short : ∀ relation ∈ relations, relation.name.utf8ByteSize ≤ maxIdentifierBytes)
    (apart : relations.Pairwise fun earlier later => later.name ≠ earlier.name ∧
      ∀ base ∈ earlier.bases, ∀ rest, later.name ≠ base ++ rest) :
    (∃ after, createAll relations catalog = .ok after) ↔
      ∀ relation ∈ relations, relation.name ∉ catalog := by
  induction relations generalizing catalog with
  | nil => simp [createAll]
  | cons relation rest inductionHypothesis =>
      obtain ⟨separate, apartRest⟩ := List.pairwise_cons.mp apart
      have stored := truncateIdentifier_of_le (short relation List.mem_cons_self)
      by_cases taken : relation.name ∈ catalog
      · have refused : relation.create catalog = .error relation.name := by
          rw [Relation.create, stored, if_pos (by simpa using taken)]
        simp only [createAll, refused, List.forall_mem_cons]
        refine iff_of_false ?_ fun free => free.1 taken
        rintro ⟨after, impossible⟩
        cases impossible
      · have created : relation.create catalog =
            .ok (nameIndexes relation.bases (catalog ++ [relation.name])) := by
          rw [Relation.create, stored, if_neg (by simpa using taken)]
        have begins : createAll (relation :: rest) catalog =
            createAll rest (nameIndexes relation.bases (catalog ++ [relation.name])) := by
          simp only [createAll, created]
          rfl
        rw [begins, inductionHypothesis
          (fun other member => short other (List.mem_cons_of_mem _ member)) apartRest,
          List.forall_mem_cons]
        have unchanged : ∀ later ∈ rest,
            later.name ∉ nameIndexes relation.bases (catalog ++ [relation.name]) ↔
              later.name ∉ catalog := by
          intro later member
          obtain ⟨otherName, otherBases⟩ := separate later member
          refine not_congr ⟨fun inAfter => ?_, fun inCatalog => ?_⟩
          · rcases mem_nameIndexes.2 inAfter with old | ⟨base, isBase, rest, isName⟩
            · rcases List.mem_append.mp old with inCatalog | isName
              · exact inCatalog
              · exact absurd (List.mem_singleton.mp isName) otherName
            · exact absurd isName (otherBases base isBase rest)
          · exact mem_nameIndexes.1 (List.mem_append_left _ inCatalog)
        constructor
        · exact fun free => ⟨taken, fun later member => (unchanged later member).mp (free later member)⟩
        · exact fun free later member => (unchanged later member).mpr (free.2 later member)

end Postgres
