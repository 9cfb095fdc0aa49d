import Steda.Client.TaskHandle
import Steda.Laws.WorkflowNames

/-!
# Stored references

A stored reference is read back as it was.  What is read is a valid reference,
and it is read from exactly two forms: an object that has the three fields, in
any order and among others, or an array of three texts.
-/

namespace Serde

open Postgres

/-- A text field is read when the object has it and it is a text. -/
theorem readField_string {printer : Printer} {fields : List (String × Json)}
    {name text : String} :
    readField fields name (readString printer) = .ok (some text) ↔
      fields.lookup name = some (.string text) := by
  constructor
  · intro read
    obtain ⟨json, isField, isText⟩ := readField_some read
    rw [isField, readString_ok isText]
  · intro isField
    simp only [readField, isField]
    rfl

/-- A field without a substitute has to be there. -/
theorem required_iff {α : Type} {name : String} {value : Option α} {result : α} :
    required name none value = .ok result ↔ value = some result := by
  constructor
  · intro isRequired
    rcases required_ok isRequired with isValue | ⟨_, impossible⟩
    · exact isValue
    · cases impossible
  · rintro rfl
    rfl

end Serde

namespace Steda

open Postgres

variable {parser : UuidParser}

/-- The number whose digits a text shows between hyphens. -/
def Uuid.ofText (text : String) : Uuid :=
  Text.hexValue (text.toList.filter fun char => char != '-')

@[simp] theorem Uuid.ofText_text (id : Uuid) : Uuid.ofText (Uuid.text id) = id := by
  rw [Uuid.ofText, Uuid.text_eq, String.toList_ofList,
    filter_hyphenated fun char member => (Uuid.digits_ascii id char member).2, Uuid.digits,
    Text.hexValue_padded, Text.hexValue_toDigits]

/-- A parser of the texts that identifiers are printed as. -/
def UuidParser.hyphenated : UuidParser where
  toPrinter := .plain
  parse text :=
    if small : Uuid.ofText text < 2 ^ 128 then
      if Uuid.text (Uuid.ofText text) = text then .ok ⟨Uuid.ofText text, small⟩
      else .error "invalid UUID"
    else .error "invalid UUID"
  parse_text := by
    rintro ⟨id, small⟩
    simp only [Uuid.ofText_text, if_pos, dif_pos small]

/-- The text of an identifier is read by the parser. -/
theorem UuidParser.read_iff {json : Json} {taskId : TaskId} : parser.read json = .ok taskId ↔
    ∃ text, json = .string text ∧ parser.parse text = .ok taskId := by
  constructor
  · intro read
    cases json with
    | string text => exact ⟨text, rfl, read⟩
    | _ => cases read
  · rintro ⟨text, rfl, parsed⟩
    exact parsed

namespace TaskRefWire

/-- An object is read by its three fields. -/
theorem deserialize_object {fields : List (String × Json)} {wire : TaskRefWire} :
    deserialize parser (.object fields) = .ok wire ↔
      fields.lookup "queueName" = some (.string wire.queueName) ∧
      fields.lookup "taskName" = some (.string wire.taskName) ∧
      ∃ text, fields.lookup "taskId" = some (.string text) ∧
        parser.parse text = .ok wire.taskId := by
  constructor
  · intro read
    obtain ⟨queueName, readQueue, read⟩ := except_bind_ok.mp read
    obtain ⟨taskId, readId, read⟩ := except_bind_ok.mp read
    obtain ⟨taskName, readTask, read⟩ := except_bind_ok.mp read
    obtain ⟨queue, hasQueue, read⟩ := except_bind_ok.mp read
    obtain ⟨task, hasTask, read⟩ := except_bind_ok.mp read
    obtain ⟨id, hasId, read⟩ := except_bind_ok.mp read
    obtain rfl := Except.ok.inj read
    rw [Serde.required_iff] at hasQueue hasTask hasId
    subst hasQueue hasTask hasId
    obtain ⟨json, isField, isId⟩ := Serde.readField_some readId
    obtain ⟨text, rfl, parsed⟩ := UuidParser.read_iff.mp isId
    exact ⟨Serde.readField_string.mp readQueue, Serde.readField_string.mp readTask, text, isField,
      parsed⟩
  · rintro ⟨queueField, taskField, text, idField, parsed⟩
    have readId : Serde.readField fields "taskId" parser.read = .ok (some wire.taskId) := by
      simp only [Serde.readField, idField, UuidParser.read, parsed]
      rfl
    simp only [deserialize, Serde.readField_string.mpr queueField,
      Serde.readField_string.mpr taskField, readId]
    rfl

/-- An array is read if it consists of three texts. -/
theorem deserialize_array {items : List Json} {wire : TaskRefWire} :
    deserialize parser (.array items) = .ok wire ↔
      ∃ text, items = [.string wire.queueName, .string wire.taskName, .string text] ∧
        parser.parse text = .ok wire.taskId := by
  constructor
  · intro read
    rcases items with _ | ⟨queueItem, _ | ⟨taskItem, _ | ⟨idItem, rest⟩⟩⟩
    · cases read
    · obtain ⟨_, _, read⟩ := except_bind_ok.mp read
      cases read
    · obtain ⟨_, _, read⟩ := except_bind_ok.mp read
      obtain ⟨_, _, read⟩ := except_bind_ok.mp read
      cases read
    · obtain ⟨queueName, isQueue, read⟩ := except_bind_ok.mp read
      obtain ⟨taskName, isTask, read⟩ := except_bind_ok.mp read
      obtain ⟨taskId, isId, read⟩ := except_bind_ok.mp read
      split at read
      · next none =>
          obtain rfl := Except.ok.inj read
          obtain ⟨text, rfl, parsed⟩ := UuidParser.read_iff.mp isId
          rw [Serde.readString_ok isQueue, Serde.readString_ok isTask, List.isEmpty_iff.mp none]
          exact ⟨text, rfl, parsed⟩
      · cases read
  · rintro ⟨text, rfl, parsed⟩
    simp only [deserialize, Serde.readString_string, UuidParser.read, parsed]
    rfl

end TaskRefWire

/-- A wire form is validated into the reference with its parts, if both names
are valid. -/
theorem TaskRefWire.validate_iff {wire : TaskRefWire} {reference : TaskRef} :
    wire.validate = .ok reference ↔ wire.queueName = reference.queueName ∧
      wire.taskName = reference.taskName ∧ wire.taskId = reference.taskId := by
  unfold TaskRefWire.validate
  constructor
  · intro validated
    split at validated
    · cases validated
    · split at validated
      · cases validated
      · next queueName queueNamed =>
          obtain rfl := Except.ok.inj validated
          exact ⟨(Client.validateQueueName_ok queueNamed).2.1.symm, rfl, rfl⟩
  · rintro ⟨sameQueue, sameTask, sameId⟩
    obtain ⟨wireQueue, wireTask, wireId⟩ := wire
    obtain ⟨queueName, taskName, taskId, queueNamed, taskNamed⟩ := reference
    cases sameQueue
    cases sameTask
    cases sameId
    split
    · next error refused =>
        rw [taskNamed] at refused
        cases refused
    · split
      · next error refused =>
          rw [queueNamed] at refused
          cases refused
      · next validated isValid =>
          rw [queueNamed] at isValid
          cases isValid
          rfl

/-- The first task of a queue `children`. -/
def firstChild : TaskRef where
  queueName := "children"
  taskName := "report"
  taskId := ⟨0, by decide⟩
  queueNamed := by rfl
  taskNamed := by rfl

/-! ## The law -/

/-- A reference is stored in a JSON value: in an object that has its three
fields, or in an array of its three texts. -/
def TaskRef.StoredIn (parser : UuidParser) (reference : TaskRef) (json : Json) : Prop :=
  ∃ text, parser.parse text = .ok reference.taskId ∧
    ((∃ fields, json = .object fields ∧
        fields.lookup "queueName" = some (.string reference.queueName) ∧
        fields.lookup "taskName" = some (.string reference.taskName) ∧
        fields.lookup "taskId" = some (.string text)) ∨
      json = .array [.string reference.queueName, .string reference.taskName, .string text])

/-- A reference is read from what it is stored in. -/
theorem TaskRef.deserialize_iff {json : Json} {reference : TaskRef} :
    TaskRef.deserialize parser json = .ok reference ↔ reference.StoredIn parser json := by
  have whole : TaskRef.deserialize parser json = .ok reference ↔
      ∃ wire, TaskRefWire.deserialize parser json = .ok wire ∧ wire.validate = .ok reference := by
    unfold TaskRef.deserialize
    rw [except_bind_ok]
    cases TaskRefWire.deserialize parser json <;> simp [Except.mapError]
  rw [whole]
  constructor
  · rintro ⟨wire, read, validated⟩
    obtain ⟨sameQueue, sameTask, sameId⟩ := TaskRefWire.validate_iff.mp validated
    cases json with
    | object fields =>
        obtain ⟨queueField, taskField, text, idField, parsed⟩ :=
          TaskRefWire.deserialize_object.mp read
        rw [sameQueue] at queueField
        rw [sameTask] at taskField
        rw [sameId] at parsed
        exact ⟨text, parsed, Or.inl ⟨fields, rfl, queueField, taskField, idField⟩⟩
    | array items =>
        obtain ⟨text, rfl, parsed⟩ := TaskRefWire.deserialize_array.mp read
        rw [sameId] at parsed
        exact ⟨text, parsed, Or.inr (by rw [sameQueue, sameTask])⟩
    | null | bool | number | string => cases read
  · rintro ⟨text, parsed, ⟨fields, rfl, queueField, taskField, idField⟩ | rfl⟩
    · exact ⟨⟨reference.queueName, reference.taskName, reference.taskId⟩,
        TaskRefWire.deserialize_object.mpr ⟨queueField, taskField, text, idField, parsed⟩,
        TaskRefWire.validate_iff.mpr ⟨rfl, rfl, rfl⟩⟩
    · exact ⟨⟨reference.queueName, reference.taskName, reference.taskId⟩,
        TaskRefWire.deserialize_array.mpr ⟨text, rfl, parsed⟩,
        TaskRefWire.validate_iff.mpr ⟨rfl, rfl, rfl⟩⟩

/-- Stored references are read back, and exactly the stored references are
read. -/
theorem TaskRef.round_trips (parser : UuidParser) :
    (∀ reference : TaskRef, TaskRef.deserialize parser reference.serialize = .ok reference) ∧
      ∀ json (reference : TaskRef),
        TaskRef.deserialize parser json = .ok reference ↔ reference.StoredIn parser json := by
  refine ⟨fun reference => TaskRef.deserialize_iff.mpr ?_, fun json reference =>
    TaskRef.deserialize_iff⟩
  exact ⟨_, parser.parse_text reference.taskId, Or.inl ⟨_, rfl, rfl, rfl, rfl⟩⟩

/-- References with the identifiers of one format. -/
theorem TaskRef.round_trips_hyphenated :
    (∀ reference : TaskRef,
        TaskRef.deserialize .hyphenated reference.serialize = .ok reference) ∧
      ∀ json (reference : TaskRef), TaskRef.deserialize .hyphenated json = .ok reference ↔
        reference.StoredIn .hyphenated json :=
  TaskRef.round_trips .hyphenated

end Steda
