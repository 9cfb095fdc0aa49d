import Steda.Client.TaskContext
import Steda.QueueStorage

/-!
# Durable names

What a workflow persists is stored under a name made from its identity.  Names
of different identities are different, and every name fits the column it is
stored in.
-/

namespace Steda

open Postgres Text

variable {space : Char → Bool}

/-! ## Texts of identifiers -/

/-- The 32 digits of an identifier. -/
def Uuid.digits (id : Uuid) : List Char :=
  List.replicate (32 - (Nat.toDigits 16 id).length) '0' ++ Nat.toDigits 16 id

/-- The digits in five groups. -/
def hyphenated (digits : List Char) : List Char :=
  digits.take 8 ++ ['-'] ++ (digits.drop 8).take 4 ++ ['-'] ++ (digits.drop 12).take 4 ++ ['-'] ++
    (digits.drop 16).take 4 ++ ['-'] ++ digits.drop 20

theorem Uuid.text_eq (id : Uuid) : Uuid.text id = String.ofList (hyphenated (Uuid.digits id)) := rfl

theorem Uuid.digits_length {id : Uuid} (small : id < 2 ^ 128) : (Uuid.digits id).length = 32 := by
  have short : (Nat.toDigits 16 id).length ≤ 32 :=
    (Nat.length_toDigits_le_iff (by decide) (by decide)).mpr (by omega)
  simp only [Uuid.digits, List.length_append, List.length_replicate]
  omega

theorem Uuid.digits_ascii (id : Uuid) :
    ∀ char ∈ Uuid.digits id, char.utf8Size = 1 ∧ char ≠ '-' := by
  intro char member
  rcases List.mem_append.mp member with isZero | isDigit
  · rw [List.eq_of_mem_replicate isZero]
    decide
  · exact hexDigits_ascii id char isDigit

/-- Without the hyphens the groups are the digits again. -/
theorem filter_hyphenated {digits : List Char} (plain : ∀ char ∈ digits, char ≠ '-') :
    (hyphenated digits).filter (fun char => char != '-') = digits := by
  have kept : ∀ {part : List Char}, part ⊆ digits → part.filter (fun char => char != '-') = part :=
    fun within => List.filter_eq_self.mpr fun char member => bne_iff_ne.mpr (plain char (within member))
  have hyphen : ['-'].filter (fun char => char != '-') = [] := rfl
  have group : ∀ start, ((digits.drop start).take 4) ⊆ digits := fun start char member =>
    List.mem_of_mem_drop (List.mem_of_mem_take member)
  have split : ∀ start, (digits.drop start).take 4 ++ digits.drop (start + 4) = digits.drop start := by
    intro start
    rw [← List.drop_drop, List.take_append_drop]
  unfold hyphenated
  simp only [List.filter_append, hyphen, List.append_nil]
  rw [kept fun char => List.mem_of_mem_take, kept (group 8), kept (group 12), kept (group 16),
    kept fun char => List.mem_of_mem_drop, List.append_assoc, List.append_assoc, List.append_assoc,
    split 16, split 12, split 8, List.take_append_drop]

/-- The text of an identifier has 36 bytes. -/
theorem Uuid.text_size {id : Uuid} (small : id < 2 ^ 128) : (Uuid.text id).utf8ByteSize = 36 := by
  have length := Uuid.digits_length small
  rw [Uuid.text_eq, utf8ByteSize_of_ascii]
  · simp [hyphenated, length]
  · intro char member
    by_cases isHyphen : char = '-'
    · rw [isHyphen]
      decide
    · have kept : char ∈ (hyphenated (Uuid.digits id)).filter fun char => char != '-' :=
        List.mem_filter.mpr ⟨member, bne_iff_ne.mpr isHyphen⟩
      rw [filter_hyphenated fun other inDigits => (Uuid.digits_ascii id other inDigits).2] at kept
      exact (Uuid.digits_ascii id char kept).1

/-- Different identifiers have different texts. -/
theorem Uuid.text_inj {first second : Uuid} (same : Uuid.text first = Uuid.text second) :
    first = second := by
  have lists : hyphenated (Uuid.digits first) = hyphenated (Uuid.digits second) := by
    rw [Uuid.text_eq, Uuid.text_eq] at same
    exact String.ofList_inj.mp same
  have digits := congrArg (List.filter fun char => char != '-') lists
  rw [filter_hyphenated fun char member => (Uuid.digits_ascii first char member).2,
    filter_hyphenated fun char member => (Uuid.digits_ascii second char member).2] at digits
  have values := congrArg hexValue digits
  simpa only [Uuid.digits, hexValue_padded, hexValue_toDigits] using values

/-! ## The encoders -/

section Encoders

variable {namespace_ name key : String}

/-- An accepted name is stored behind its namespace. -/
theorem workflowStorageName_ok {stored : String}
    (accepted : workflowStorageName namespace_ name = .ok stored) :
    stored = namespace_ ++ name ∧
      name.utf8ByteSize ≤ maxWorkflowStorageNameBytes - namespace_.utf8ByteSize := by
  unfold workflowStorageName at accepted
  split at accepted
  · cases accepted
  · simp only at accepted
    split at accepted
    · cases accepted
    · next fits => exact ⟨(Except.ok.inj accepted).symm, not_lt.mp fits⟩

/-- An accepted name and key are stored behind their namespace. -/
theorem keyedWorkflowStorageName_ok {stored : String}
    (accepted : keyedWorkflowStorageName namespace_ name key = .ok stored) :
    stored = namespace_ ++ (toString name.utf8ByteSize ++ ":" ++ name ++ key) ∧
      (toString name.utf8ByteSize ++ ":" ++ name ++ key).utf8ByteSize ≤
        maxWorkflowStorageNameBytes - namespace_.utf8ByteSize := by
  unfold keyedWorkflowStorageName at accepted
  split at accepted
  · cases accepted
  · split at accepted
    · cases accepted
    · simp only at accepted
      split at accepted
      · cases accepted
      · next fits => exact ⟨(Except.ok.inj accepted).symm, not_lt.mp fits⟩

/-- A name that is not blank is accepted exactly when the stored name fits. -/
theorem workflowStorageName_accepts (fits : namespace_.utf8ByteSize ≤ maxWorkflowStorageNameBytes)
    (named : trimIsEmpty name = false) :
    (∃ stored, workflowStorageName namespace_ name = .ok stored) ↔
      (namespace_ ++ name).utf8ByteSize ≤ maxWorkflowStorageNameBytes := by
  rw [String.utf8ByteSize_append]
  constructor
  · rintro ⟨stored, accepted⟩
    have bound := (workflowStorageName_ok accepted).2
    omega
  · intro bound
    have short : ¬maxWorkflowStorageNameBytes - namespace_.utf8ByteSize < name.utf8ByteSize := by
      omega
    exact ⟨namespace_ ++ name, by simp [workflowStorageName, named, short]⟩

/-- A name and a key that are not blank are accepted exactly when the stored
name fits. -/
theorem keyedWorkflowStorageName_accepts
    (fits : namespace_.utf8ByteSize ≤ maxWorkflowStorageNameBytes)
    (named : trimIsEmpty name = false) (keyed : trimIsEmpty key = false) :
    (∃ stored, keyedWorkflowStorageName namespace_ name key = .ok stored) ↔
      (namespace_ ++ (toString name.utf8ByteSize ++ ":" ++ name ++ key)).utf8ByteSize ≤
        maxWorkflowStorageNameBytes := by
  rw [String.utf8ByteSize_append]
  constructor
  · rintro ⟨stored, accepted⟩
    have bound := (keyedWorkflowStorageName_ok accepted).2
    omega
  · intro bound
    unfold keyedWorkflowStorageName
    rw [if_neg (by simp [named]), if_neg (by simp [keyed])]
    refine ⟨_, if_neg ?_⟩
    omega

end Encoders

/-! ## Identities -/

/-- What a workflow persists: the outcome of a step or of a wait for a task, or
the wake time of a sleep. -/
inductive DurableIdentity
  | workflow (identity : WorkflowIdentity)
  | sleep (name : String)

namespace DurableIdentity

/-- The checkpoint name of an identity. -/
def storageName : DurableIdentity → Except Error String
  | .workflow identity => identity.storageName
  | .sleep name => sleepStorageName name

/-- A wait refers to a queue with a short name and to a task with a UUID. -/
def Refers : DurableIdentity → Prop
  | .workflow (.taskWait queue task) => queue.utf8ByteSize ≤ maxQueueNameBytes ∧ task < 2 ^ 128
  | .workflow (.step _) | .workflow (.keyedStep _ _) | .sleep _ => True

/-- The namespace of an identity. -/
def namespace_ : DurableIdentity → String
  | .workflow (.step _) => "$step:"
  | .workflow (.keyedStep _ _) => "$step-keyed:"
  | .workflow (.taskWait _ _) => "$await-task:"
  | .sleep _ => "$sleep:"

/-- What follows the namespace. -/
def content : DurableIdentity → String
  | .workflow (.step name) | .sleep name => name
  | .workflow (.keyedStep name key) => toString name.utf8ByteSize ++ ":" ++ name ++ key
  | .workflow (.taskWait queue task) => queue ++ ":" ++ Uuid.text task

/-- The namespaces. -/
def namespaces : List String := ["$step:", "$step-keyed:", "$await-task:", "$sleep:"]

theorem namespace_mem (identity : DurableIdentity) : identity.namespace_ ∈ namespaces := by
  rcases identity with (_ | _ | _) | _ <;> simp [namespace_, namespaces]

/-- No namespace begins another. -/
theorem namespaces_apart : ∀ first ∈ namespaces, ∀ second ∈ namespaces, first ≠ second →
    ¬first.toList <+: second.toList ∧ ¬second.toList <+: first.toList := by
  decide

theorem namespace_size : ∀ name ∈ namespaces, name.utf8ByteSize ≤ 12 := by
  decide

/-- An accepted identity is stored in its namespace, in at most 1024 bytes. -/
theorem stored {identity : DurableIdentity} {name : String} (refers : identity.Refers)
    (accepted : identity.storageName = .ok name) :
    name = identity.namespace_ ++ identity.content ∧ name.utf8ByteSize ≤ maxNameBytes := by
  have size := namespace_size _ identity.namespace_mem
  have whole : ∀ {content : String}, content.utf8ByteSize ≤
      maxWorkflowStorageNameBytes - identity.namespace_.utf8ByteSize →
        (identity.namespace_ ++ content).utf8ByteSize ≤ maxNameBytes := by
    intro content fits
    rw [String.utf8ByteSize_append]
    unfold maxWorkflowStorageNameBytes at fits
    unfold maxNameBytes
    omega
  cases identity with
  | sleep slept =>
      obtain ⟨isName, fits⟩ := workflowStorageName_ok accepted
      exact ⟨isName, isName ▸ whole fits⟩
  | workflow identity =>
      cases identity with
      | step step =>
          obtain ⟨isName, fits⟩ := workflowStorageName_ok accepted
          exact ⟨isName, isName ▸ whole fits⟩
      | keyedStep step key =>
          obtain ⟨isName, fits⟩ := keyedWorkflowStorageName_ok accepted
          exact ⟨isName, isName ▸ whole fits⟩
      | taskWait queue task =>
          obtain ⟨short, isUuid⟩ := refers
          have isName : name = "$await-task:" ++ (queue ++ ":" ++ Uuid.text task) := by
            rw [← Except.ok.inj accepted, ← String.append_assoc, ← String.append_assoc]
          refine ⟨isName, isName ▸ whole ?_⟩
          have colon : ":".utf8ByteSize = 1 := rfl
          rw [String.utf8ByteSize_append, String.utf8ByteSize_append, Uuid.text_size isUuid, colon]
          unfold maxQueueNameBytes at short
          unfold maxWorkflowStorageNameBytes
          omega

/-- Within one namespace the content determines the identity. -/
theorem content_inj {first second : DurableIdentity} (firstRefers : first.Refers)
    (secondRefers : second.Refers) (sameNamespace : first.namespace_ = second.namespace_)
    (sameContent : first.content = second.content) : first = second := by
  cases first with
  | sleep name =>
      cases second with
      | sleep other => exact congrArg sleep sameContent
      | workflow other => cases other <;> simp [namespace_] at sameNamespace
  | workflow identity =>
      cases second with
      | sleep other => cases identity <;> simp [namespace_] at sameNamespace
      | workflow other =>
          cases identity with
          | step name =>
              cases other with
              | step other => exact congrArg (workflow ∘ WorkflowIdentity.step) sameContent
              | _ => simp [namespace_] at sameNamespace
          | keyedStep name key =>
              cases other with
              | keyedStep other otherKey =>
                  obtain ⟨isName, isKey⟩ := framed_inj sameContent
                  rw [isName, isKey]
              | _ => simp [namespace_] at sameNamespace
          | taskWait queue task =>
              cases other with
              | taskWait other otherTask =>
                  have sizes : (Uuid.text task).utf8ByteSize = (Uuid.text otherTask).utf8ByteSize := by
                    rw [Uuid.text_size firstRefers.2, Uuid.text_size secondRefers.2]
                  obtain ⟨sameQueue, sameText⟩ := append_inj' sameContent sizes
                  rw [(String.append_left_inj ":").mp sameQueue, Uuid.text_inj sameText]
              | _ => simp [namespace_] at sameNamespace

/-- Durable names never alias and always fit, and the encoders accept every
identity that fits. -/
theorem never_alias (dollar : space '$' = false) :
    (∀ first second : DurableIdentity, ∀ name, first.Refers → second.Refers →
      first.storageName = .ok name → second.storageName = .ok name → first = second) ∧
    (∀ identity : DurableIdentity, ∀ name, identity.Refers → identity.storageName = .ok name →
      name.utf8ByteSize ≤ maxNameBytes ∧ isBlank space name = false) ∧
    (∀ namespace_ name, namespace_.utf8ByteSize ≤ maxWorkflowStorageNameBytes →
      trimIsEmpty name = false →
        ((∃ stored, workflowStorageName namespace_ name = .ok stored) ↔
          (namespace_ ++ name).utf8ByteSize ≤ maxWorkflowStorageNameBytes)) ∧
    (∀ namespace_ name key, namespace_.utf8ByteSize ≤ maxWorkflowStorageNameBytes →
      trimIsEmpty name = false → trimIsEmpty key = false →
        ((∃ stored, keyedWorkflowStorageName namespace_ name key = .ok stored) ↔
          (namespace_ ++ (toString name.utf8ByteSize ++ ":" ++ name ++ key)).utf8ByteSize ≤
            maxWorkflowStorageNameBytes)) := by
  refine ⟨?_, ?_, fun _ _ => workflowStorageName_accepts,
    fun _ _ _ => keyedWorkflowStorageName_accepts⟩
  · intro first second name firstRefers secondRefers firstAccepted secondAccepted
    have same := (stored firstRefers firstAccepted).1.symm.trans (stored secondRefers secondAccepted).1
    have sameNamespace : first.namespace_ = second.namespace_ := by
      by_contra different
      obtain ⟨apart, back⟩ := namespaces_apart _ first.namespace_mem _ second.namespace_mem different
      exact append_apart_start _ _ apart back same
    rw [sameNamespace] at same
    exact content_inj firstRefers secondRefers sameNamespace ((String.append_right_inj _).mp same)
  · intro identity name refers accepted
    obtain ⟨isName, fits⟩ := stored refers accepted
    refine ⟨fits, Bool.eq_false_iff.mpr fun blank => ?_⟩
    have begins : ∀ start ∈ namespaces, '$' ∈ start.toList := by decide
    have inName : '$' ∈ name.toList := by
      rw [isName, String.toList_append]
      exact List.mem_append_left _ (begins _ identity.namespace_mem)
    have isSpace := List.all_eq_true.mp blank '$' inName
    rw [dollar] at isSpace
    cases isSpace

/-- Moving the boundary between a name and a key gives another checkpoint. -/
theorem never_alias_keyed :
    (workflow (.keyedStep "ab" "c")).storageName = .ok "$step-keyed:2:abc" ∧
      (workflow (.keyedStep "a" "bc")).storageName ≠ .ok "$step-keyed:2:abc" := by
  have first : (workflow (.keyedStep "ab" "c")).storageName = .ok "$step-keyed:2:abc" := by rfl
  refine ⟨first, fun second => ?_⟩
  have dollar : asciiSpace '$' = false := rfl
  have same := (never_alias dollar).1 (workflow (.keyedStep "ab" "c"))
    (workflow (.keyedStep "a" "bc")) _ trivial trivial first second
  simp at same

end DurableIdentity
end Steda
