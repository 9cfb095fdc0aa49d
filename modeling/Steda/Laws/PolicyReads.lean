import Steda.Laws.SpawnOptions
import Steda.Laws.Installations
import Steda.Client.QueueAdmin

/-!
# Reading policies back

Every accepted call of a queue handle is felt by the next reader of the policy:
unset options keep what was there, and durations are rounded up to whole seconds.
-/

namespace Steda

open Postgres Relational Transaction

variable {space : Char → Bool}

/-! ## Arguments -/

/-- Options that the client sends. -/
structure QueuePolicyOptions.Acceptable (options : QueuePolicyOptions) : Prop where
  cleanupTtl : ∀ ttl ∈ options.cleanupTtl, ttl.ceiling ≤ i32Max
  cleanupLimit : ∀ limit ∈ options.cleanupLimit, 1 ≤ limit.toNat ∧ limit.toNat ≤ i32Max

theorem durationSeconds_ok {duration : Duration} {seconds : Nat} :
    durationSeconds duration = .ok seconds ↔
      seconds = duration.ceiling ∧ duration.ceiling ≤ i32Max := by
  unfold durationSeconds i32TryFrom
  dsimp only
  rw [← Duration.ceiling]
  by_cases fits : duration.ceiling ≤ i32Max
  · have small : duration.ceiling < 2 ^ 64 := by
      unfold i32Max at fits
      omega
    rw [if_pos small, if_pos fits]
    constructor
    · intro converted
      exact ⟨(Except.ok.inj converted).symm, fits⟩
    · rintro ⟨same, _⟩
      rw [same]
  · refine iff_of_false ?_ fun converted => fits converted.2
    rw [if_neg fits]
    split <;> simp

/-- An optional argument is converted when the value that is given is. -/
theorem option_mapM_converts {α β : Type} {convert : α → Except Error β} {image : α → β}
    {fits : α → Prop} (converts : ∀ value converted,
      convert value = .ok converted ↔ converted = image value ∧ fits value)
    {given : Option α} {result : Option β} :
    given.mapM convert = .ok result ↔ result = given.map image ∧ ∀ value ∈ given, fits value := by
  rw [option_mapM_ok]
  constructor
  · rintro (⟨isNone, nothing⟩ | ⟨value, converted, isSome, isOk, isResult⟩)
    · rw [isNone, nothing]
      exact ⟨rfl, by simp⟩
    · obtain ⟨same, valueFits⟩ := (converts value converted).mp isOk
      rw [isSome, isResult, same]
      exact ⟨rfl, by simpa using valueFits⟩
  · rintro ⟨isResult, allFit⟩
    cases given with
    | none => exact .inl ⟨rfl, isResult⟩
    | some value =>
        exact .inr ⟨value, image value, rfl, (converts value _).mpr ⟨rfl, allFit value rfl⟩,
          isResult⟩

/-- The arguments of accepted options. -/
theorem QueuePolicyOptions.arguments_ok {options : QueuePolicyOptions}
    {arguments : Option Nat × Option Nat} :
    options.arguments = .ok arguments ↔ options.Acceptable ∧
      arguments = (options.cleanupTtl.map Duration.ceiling,
        options.cleanupLimit.map UInt32.toNat) := by
  unfold QueuePolicyOptions.arguments
  constructor
  · intro accepted
    obtain ⟨seconds, isSeconds, rest⟩ := except_bind_ok.mp accepted
    obtain ⟨limit, isLimit, returned⟩ := except_bind_ok.mp rest
    obtain ⟨sameTtl, ttlFits⟩ := (option_mapM_converts fun _ _ => durationSeconds_ok).mp isSeconds
    obtain ⟨sameLimit, limitFits⟩ :=
      (option_mapM_converts fun _ _ => databasePositiveI32_ok).mp isLimit
    refine ⟨⟨ttlFits, limitFits⟩, ?_⟩
    rw [← sameTtl, ← sameLimit]
    exact (Except.ok.inj returned).symm
  · rintro ⟨acceptable, isArguments⟩
    have isSeconds := (option_mapM_converts fun _ _ => durationSeconds_ok).mpr
      ⟨rfl, acceptable.cleanupTtl⟩
    have isLimit : options.cleanupLimit.mapM (databasePositiveI32 · "cleanup_limit") = .ok _ :=
      (option_mapM_converts fun _ _ => databasePositiveI32_ok).mpr ⟨rfl, acceptable.cleanupLimit⟩
    exact except_bind_ok.mpr ⟨_, isSeconds, except_bind_ok.mpr ⟨_, isLimit, isArguments ▸ rfl⟩⟩

/-! ## Stored policies -/

/-- A policy of whole seconds whose fields fit in 32 bits. -/
structure Readable (policy : Int × Nat) : Prop where
  cleanupTtl : ∃ seconds ≤ i32Max, policy.1 = Int.ofNat seconds * second
  cleanupLimit : 1 ≤ policy.2 ∧ policy.2 ≤ i32Max

/-- What a handle reads of a stored policy. -/
def QueuePolicy.stored (name : String) (policy : Int × Nat) : QueuePolicy where
  queueName := name
  cleanupTtl := .fromSeconds (UInt64.ofNat (intervalSeconds policy.1).toNat)
  cleanupLimit := UInt32.ofNat policy.2

theorem intervalSeconds_whole (seconds : Nat) :
    intervalSeconds (Int.ofNat seconds * second) = seconds := by
  unfold intervalSeconds second
  simp only [Int.ofNat_eq_natCast]
  omega

theorem queuePolicyFromRow_readable {row : Registered} (readable : Readable row.queue.policy) :
    queuePolicyFromRow row = .ok (.stored row.name row.queue.policy) := by
  obtain ⟨seconds, _, isTtl⟩ := readable.cleanupTtl
  have nonneg : ¬intervalSeconds row.queue.cleanupTtl < 0 := by
    rw [show row.queue.cleanupTtl = _ from isTtl, intervalSeconds_whole]
    omega
  have positive : row.queue.cleanupLimit ≠ 0 := Nat.one_le_iff_ne_zero.mp readable.cleanupLimit.1
  unfold queuePolicyFromRow
  dsimp only
  rw [if_neg nonneg, if_neg positive]
  rfl

theorem Duration.roundedUp_eq (duration : Duration) :
    duration.roundedUp = .fromSeconds (UInt64.ofNat duration.ceiling) := by
  unfold Duration.roundedUp Duration.ceiling
  congr 1
  apply UInt64.toNat_inj.mp
  by_cases fraction : 0 < duration.nanoseconds.val
  · rw [if_pos fraction, if_pos fraction, UInt64.toNat_add, UInt64.toNat_ofNat']
    rfl
  · rw [if_neg fraction, if_neg fraction, UInt64.toNat_add, UInt64.toNat_ofNat']
    rfl

/-- The policy that `set_queue_policy` stores. -/
def QueuePolicyOptions.storedWith (options : QueuePolicyOptions) (policy : Int × Nat) :
    Int × Nat :=
  (((options.cleanupTtl.map Duration.ceiling).map fun seconds =>
      Int.ofNat seconds * second).getD policy.1,
    (options.cleanupLimit.map UInt32.toNat).getD policy.2)

theorem QueuePolicyOptions.Acceptable.readable {options : QueuePolicyOptions}
    (acceptable : options.Acceptable) {policy : Int × Nat} (readable : Readable policy) :
    Readable (options.storedWith policy) := by
  obtain ⟨cleanupTtl, cleanupLimit⟩ := options
  constructor
  · cases cleanupTtl with
    | none => exact readable.cleanupTtl
    | some ttl => exact ⟨ttl.ceiling, acceptable.cleanupTtl ttl rfl, rfl⟩
  · cases cleanupLimit with
    | none => exact readable.cleanupLimit
    | some limit => exact acceptable.cleanupLimit limit rfl

/-- What is stored is read back as the options say. -/
theorem QueuePolicyOptions.applied_stored (options : QueuePolicyOptions) (name : String)
    (policy : Int × Nat) :
    QueuePolicy.stored name (options.storedWith policy) =
      options.applied (.stored name policy) := by
  obtain ⟨cleanupTtl, cleanupLimit⟩ := options
  have ttl : Duration.fromSeconds (UInt64.ofNat (intervalSeconds
      (((cleanupTtl.map Duration.ceiling).map fun seconds =>
        Int.ofNat seconds * second).getD policy.1)).toNat) =
      (cleanupTtl.map Duration.roundedUp).getD
        (.fromSeconds (UInt64.ofNat (intervalSeconds policy.1).toNat)) := by
    cases cleanupTtl with
    | none => rfl
    | some ttl =>
        simp only [Option.map_some, Option.getD_some]
        rw [intervalSeconds_whole, Int.toNat_natCast, Duration.roundedUp_eq]
  have limit : UInt32.ofNat ((cleanupLimit.map UInt32.toNat).getD policy.2) =
      cleanupLimit.getD (UInt32.ofNat policy.2) := by
    cases cleanupLimit with
    | none => rfl
    | some limit => exact UInt32.ofNat_toNat
  unfold QueuePolicy.stored QueuePolicyOptions.storedWith QueuePolicyOptions.applied
  dsimp only
  rw [ttl, limit]

/-! ## Reading what is stored -/

/-- The handles read the stored policies. -/
structure Agrees (stored : Policies) (read : String → Option QueuePolicy) : Prop where
  reads : ∀ name, read name = (stored name).map (QueuePolicy.stored name)
  readable : ∀ name, ∀ policy ∈ stored name, Readable policy

namespace Agrees

variable {stored : Policies} {read : String → Option QueuePolicy} {queue : String}

theorem updated (agrees : Agrees stored read) {policy : Option (Int × Nat)}
    (readable : ∀ changed ∈ policy, Readable changed) :
    Agrees (Function.update stored queue policy)
      (Function.update read queue (policy.map (QueuePolicy.stored queue))) := by
  constructor
  · intro name
    by_cases same : name = queue
    · rw [same, Function.update_self, Function.update_self]
    · rw [Function.update_of_ne same, Function.update_of_ne same]
      exact agrees.reads name
  · intro name changed isChanged
    by_cases same : name = queue
    · rw [same, Function.update_self] at isChanged
      exact readable changed isChanged
    · rw [Function.update_of_ne same] at isChanged
      exact agrees.readable name changed isChanged

theorem default_readable : Readable createdQueue.policy :=
  ⟨⟨30 * 86400, by decide, rfl⟩, by decide⟩

/-- The database and the handles start a queue with the same policy. -/
theorem created (agrees : Agrees stored read) (queue : String) :
    Agrees ((AdminStatement.createQueue (some queue)).after stored)
      (Function.update read queue (some ((read queue).getD (.default queue)))) := by
  have isDefault : QueuePolicy.stored queue createdQueue.policy = .default queue := rfl
  have same : some ((read queue).getD (.default queue)) =
      (some ((stored queue).getD createdQueue.policy)).map (QueuePolicy.stored queue) := by
    rw [agrees.reads, ← isDefault]
    cases stored queue <;> rfl
  rw [same]
  refine agrees.updated ?_
  intro policy isPolicy
  obtain rfl := Option.some.inj isPolicy
  cases found : stored queue with
  | none => exact default_readable
  | some known => exact agrees.readable queue known found

/-- Setting a policy is felt by the next reader. -/
theorem set (agrees : Agrees stored read) (queue : String) {options : QueuePolicyOptions}
    {arguments : Option Nat × Option Nat} (accepted : options.arguments = .ok arguments) :
    Agrees ((setPolicyStatement queue arguments).after stored)
      (Function.update read queue ((read queue).map options.applied)) := by
  obtain ⟨acceptable, isArguments⟩ := QueuePolicyOptions.arguments_ok.mp accepted
  have isStored : (setPolicyStatement queue arguments).after stored =
      Function.update stored queue ((stored queue).map options.storedWith) := by
    rw [isArguments]
    unfold setPolicyStatement AdminStatement.after
    dsimp only
    congr 2
    funext policy
    unfold QueuePolicyOptions.storedWith
    cases options.cleanupTtl <;> cases options.cleanupLimit <;> rfl
  have same : (read queue).map options.applied =
      ((stored queue).map options.storedWith).map (QueuePolicy.stored queue) := by
    rw [agrees.reads, Option.map_map, Option.map_map]
    congr 1
    funext policy
    exact (options.applied_stored queue policy).symm
  rw [isStored, same]
  refine agrees.updated ?_
  intro changed isChanged
  obtain ⟨policy, isPolicy, rfl⟩ := Option.map_eq_some_iff.mp isChanged
  exact acceptable.readable (agrees.readable queue policy isPolicy)

theorem dropped (agrees : Agrees stored read) (queue : String) :
    Agrees ((AdminStatement.dropQueue (some queue)).after stored)
      (Function.update read queue none) := by
  have nothing : ∀ changed ∈ (none : Option (Int × Nat)), Readable changed := by simp
  exact agrees.updated nothing

/-- The statements of a call change what is stored as the call changes what is
read. -/
theorem called (agrees : Agrees stored read) {call : HandleCall}
    {statements : List AdminStatement} (sends : call.statements = .ok statements) :
    Agrees (statements.foldl AdminStatement.after stored) (call.after read) := by
  cases call with
  | createWithPolicy queue policy =>
      obtain ⟨arguments, accepted, returned⟩ := except_bind_ok.mp sends
      obtain rfl := Except.ok.inj returned
      have created := agrees.created queue
      by_cases given : (arguments.1.isSome || arguments.2.isSome) = true
      · have both := created.set queue accepted
        rw [Function.update_self, Function.update_idem] at both
        rw [if_pos given]
        exact both
      · obtain ⟨_, isArguments⟩ := QueuePolicyOptions.arguments_ok.mp accepted
        have unset : ∀ known, policy.applied known = known := by
          intro known
          rw [isArguments] at given
          simp only [Option.isSome_map, Bool.or_eq_true, not_or, Bool.not_eq_true,
            Option.isSome_eq_false_iff, Option.isNone_iff_eq_none] at given
          unfold QueuePolicyOptions.applied
          rw [given.1, given.2]
          rfl
        rw [if_neg given]
        unfold HandleCall.after
        simp only [unset]
        exact created
  | setPolicy queue options =>
      obtain ⟨arguments, accepted, returned⟩ := except_bind_ok.mp sends
      obtain rfl := Except.ok.inj returned
      exact agrees.set queue accepted
  | delete queue =>
      obtain rfl := Except.ok.inj sends
      exact agrees.dropped queue

end Agrees

/-! ## Runs -/

namespace Installation

variable {installation after : Installation} {queue : String}

/-- The handles administer an installation by its own steps. -/
theorem Handled.kept {event : HandleEvent} {read : String → Option QueuePolicy}
    (handled : Handled space installation event after)
    (provisioned : installation.Provisioned space) (agrees : Agrees installation.policies read) :
    after.Provisioned space ∧ Agrees after.policies (event.after read) := by
  cases handled with
  | refused refuses => exact ⟨provisioned, agrees⟩
  | committed sends performs =>
      refine ⟨provisioned.administered performs, ?_⟩
      rw [provisioned.policies_administered performs]
      exact agrees.called sends
  | raised sends raises => exact ⟨provisioned, agrees⟩
  | called steps =>
      refine ⟨steps.provisioned provisioned, ?_⟩
      rw [steps.policies provisioned]
      exact agrees

/-- The handles of a reached installation read the policies of the calls. -/
theorem HandledRun.reached {events : List HandleEvent}
    (run : HandledRun space events installation) :
    installation.Provisioned space ∧
      Agrees installation.policies (events.foldl HandleEvent.after fun _ => none) := by
  let agree (past : List HandleEvent) (reached : Installation) : Prop :=
    reached.Provisioned space ∧
      Agrees reached.policies (past.foldl HandleEvent.after fun _ => none)
  have kept : ∀ past source event target, Handled space source event target →
      agree past source → agree (past ++ [event]) target := by
    rintro past source event target handled ⟨provisioned, agrees⟩
    unfold agree
    rw [List.foldl_append]
    exact handled.kept provisioned agrees
  have start : Agrees installed.policies fun _ => none :=
    ⟨fun _ => rfl, fun _ _ isPolicy => by cases isPolicy⟩
  exact Trace.invariant_labels run kept ⟨provisioned_installed, start⟩

/-! ## Reading -/

theorem getQueuePolicy_accepted (accepted : Accepted space queue) :
    installation.getQueuePolicy space (some queue) = .ok (installation.find? queue) := by
  have isValid : validate space (some queue) = .ok queue := validate_ok.mpr ⟨rfl, accepted⟩
  unfold getQueuePolicy
  cases empty : installation.registry with
  | nil =>
      unfold find?
      rw [empty]
      rfl
  | cons row rest =>
      rw [isValid]
      rfl

/-- A handle reads the policy of its queue and never fails. -/
theorem policy_reads {read : String → Option QueuePolicy}
    (agrees : Agrees installation.policies read) (accepted : Accepted space queue) :
    Client.policy space queue installation = .ok (read queue) := by
  unfold Client.policy
  rw [getQueuePolicy_accepted accepted, agrees.reads]
  cases found : installation.find? queue with
  | none =>
      rw [policies_absent found]
      rfl
  | some row =>
      have stored := policies_found found
      have isRow := queuePolicyFromRow_readable (agrees.readable queue _ stored)
      rw [(find?_some found).2] at isRow
      rw [stored]
      simp only [Option.mapM_some, isRow]
      rfl

/-- Only a registered queue has a policy to read. -/
theorem registered_of_policy {policy : QueuePolicy}
    (reads : Client.policy space queue installation = .ok (some policy)) :
    ∃ row, installation.find? queue = some row := by
  cases found : installation.find? queue with
  | some row => exact ⟨row, rfl⟩
  | none =>
      unfold Client.policy getQueuePolicy at reads
      split at reads
      · cases reads
      · next row gets =>
          split at gets
          · obtain rfl := Except.ok.inj gets
            cases reads
          · obtain ⟨name, validated, returned⟩ := except_bind_ok.mp gets
            obtain ⟨isName, _⟩ := validate_ok.mp validated
            obtain rfl := Option.some.inj isName
            have isRow := Except.ok.inj returned
            rw [found] at isRow
            rw [← isRow] at reads
            cases reads

/-! ## Calls that succeed -/

/-- The policy of a registered queue can be set. -/
theorem Provisioned.sets (provisioned : installation.Provisioned space) {row : Registered}
    (found : installation.find? queue = some row) {options : QueuePolicyOptions}
    {arguments : Option Nat × Option Nat} (accepted : options.arguments = .ok arguments) :
    ∃ after, installation.setQueuePolicy space (some queue) (arguments.1.map Int.ofNat)
      (arguments.2.map Int.ofNat) = .ok after := by
  obtain ⟨acceptable, isArguments⟩ := QueuePolicyOptions.arguments_ok.mp accepted
  have checked := provisioned.policies row (find?_some found).1
  have ttl : ¬((arguments.1.map Int.ofNat).map (· * second)).getD row.queue.cleanupTtl < 0 := by
    cases given : arguments.1 with
    | none => exact not_lt.mpr checked.cleanupTtl
    | some seconds =>
        simp only [Option.map_some, Option.getD_some, second, Int.ofNat_eq_natCast]
        omega
  have limit : ¬(arguments.2.map Int.ofNat).getD row.queue.cleanupLimit < 1 := by
    rw [isArguments]
    cases given : options.cleanupLimit with
    | none =>
        have positive := checked.cleanupLimit
        simp only [Option.map_none, Option.getD_none]
        omega
    | some value =>
        have positive := (acceptable.cleanupLimit value given).1
        simp only [Option.map_some, Option.getD_some, Int.ofNat_eq_natCast]
        omega
  have sets : ∃ changed, Steda.setQueuePolicy (arguments.1.map Int.ofNat)
      (arguments.2.map Int.ofNat) row.queue = .ok changed := by
    unfold Steda.setQueuePolicy
    dsimp only
    rw [if_neg ttl, if_neg limit]
    exact ⟨_, rfl⟩
  obtain ⟨changed, isChanged⟩ := sets
  exact ⟨_, setQueuePolicy_iff.mpr ⟨queue, row, changed, rfl,
    provisioned.accepted_found found, found, isChanged, rfl⟩⟩

theorem administer_single (statement : AdminStatement) :
    installation.administer space [statement] = statement.perform space installation := by
  unfold administer
  rw [List.foldlM_cons]
  cases statement.perform space installation <;> rfl

/-- A call that a handle can make of a registered queue. -/
theorem Provisioned.handles_setPolicy (provisioned : installation.Provisioned space)
    {row : Registered} (found : installation.find? queue = some row)
    {options : QueuePolicyOptions} (acceptable : options.Acceptable) :
    ∃ after, Handled space installation (.administered (.setPolicy queue options) (.ok ()))
      after := by
  have accepted := QueuePolicyOptions.arguments_ok.mpr ⟨acceptable, rfl⟩
  obtain ⟨after, sets⟩ := provisioned.sets found accepted
  exact ⟨after, .committed (except_bind_ok.mpr ⟨_, accepted, rfl⟩)
    ((administer_single _).trans sets)⟩

/-- A registered queue can be created once more. -/
theorem Provisioned.handles_createWithPolicy (provisioned : installation.Provisioned space)
    {row : Registered} (found : installation.find? queue = some row)
    {options : QueuePolicyOptions} (acceptable : options.Acceptable) :
    ∃ after, Handled space installation (.administered (.createWithPolicy queue options) (.ok ()))
      after := by
  have accepted := QueuePolicyOptions.arguments_ok.mpr ⟨acceptable, rfl⟩
  have creates := provisioned.createQueue_registered found
  obtain ⟨changed, sets⟩ := provisioned.sets found accepted
  let given : Bool := (options.cleanupTtl.map Duration.ceiling).isSome ||
    (options.cleanupLimit.map UInt32.toNat).isSome
  let setting := setPolicyStatement queue
    (options.cleanupTtl.map Duration.ceiling, options.cleanupLimit.map UInt32.toNat)
  have sends : (HandleCall.createWithPolicy queue options).statements =
      .ok (.createQueue (some queue) :: if given then [setting] else []) :=
    except_bind_ok.mpr ⟨_, accepted, rfl⟩
  by_cases isGiven : given = true
  · refine ⟨changed, .committed sends ?_⟩
    rw [if_pos isGiven]
    exact except_bind_ok.mpr ⟨installation, creates, (administer_single _).trans sets⟩
  · refine ⟨installation, .committed sends ?_⟩
    rw [if_neg isGiven]
    exact (administer_single _).trans creates

/-- A queue can be deleted, also when there is none. -/
theorem Provisioned.handles_delete (provisioned : installation.Provisioned space)
    (accepted : Accepted space queue) :
    ∃ after, Handled space installation (.administered (.delete queue) (.ok ())) after := by
  have drops : ∃ after, installation.dropQueue space (some queue) = .ok after := by
    cases found : installation.find? queue with
    | none => exact ⟨_, dropQueue_absent accepted found⟩
    | some row => exact ⟨_, provisioned.dropQueue_registered found⟩
  obtain ⟨after, dropped⟩ := drops
  exact ⟨after, .committed rfl ((administer_single _).trans dropped)⟩

end Installation

/-! ## The law -/

/-- What the users of queue handles can rely on in every installation that a run
reaches. -/
structure Installation.PolicyFaithful (space : Char → Bool) (events : List HandleEvent)
    (installation : Installation) : Prop where
  /-- A handle reads what the successful calls have left. -/
  reads : ∀ queue, Accepted space queue → Client.policy space queue installation =
    .ok (events.foldl HandleEvent.after (fun _ => none) queue)
  /-- The policy of a queue that has one can be set and is read back, and so when
  the queue is created again. -/
  settable : ∀ queue policy options,
    Client.policy space queue installation = .ok (some policy) → options.Acceptable →
      ∀ call ∈ [HandleCall.setPolicy queue options, .createWithPolicy queue options],
        ∃ after, Handled space installation (.administered call (.ok ())) after ∧
          Client.policy space queue after = .ok (some (options.applied policy))
  /-- A queue can be deleted and then has no policy. -/
  deletable : ∀ queue, Accepted space queue →
    ∃ after, Handled space installation (.administered (.delete queue) (.ok ())) after ∧
      Client.policy space queue after = .ok none

/-- Queue handles read the policies that they set. -/
theorem Installation.HandledRun.policyFaithful {events : List HandleEvent}
    {installation : Installation} (run : HandledRun space events installation) :
    installation.PolicyFaithful space events where
  reads queue accepted := policy_reads run.reached.2 accepted
  settable := by
    intro queue policy options known acceptable
    obtain ⟨provisioned, agrees⟩ := run.reached
    obtain ⟨row, found⟩ := registered_of_policy known
    have accepted := provisioned.accepted_found found
    have isPolicy := Except.ok.inj ((policy_reads agrees accepted).symm.trans known)
    have readsAfter : ∀ after call,
        Handled space installation (.administered call (.ok ())) after →
        Client.policy space queue after =
          .ok (call.after (events.foldl HandleEvent.after fun _ => none) queue) := by
      intro after call handled
      exact policy_reads (handled.kept provisioned agrees).2 accepted
    intro call isCall
    rcases List.mem_pair.mp isCall with isSet | isCreate
    · obtain ⟨after, handled⟩ := provisioned.handles_setPolicy found acceptable
      rw [isSet]
      refine ⟨after, handled, (readsAfter after _ handled).trans ?_⟩
      unfold HandleCall.after
      simp only [Function.update_self, isPolicy, Option.map_some]
    · obtain ⟨after, handled⟩ := provisioned.handles_createWithPolicy found acceptable
      rw [isCreate]
      refine ⟨after, handled, (readsAfter after _ handled).trans ?_⟩
      unfold HandleCall.after
      simp only [Function.update_self, isPolicy, Option.getD_some]
  deletable := by
    intro queue accepted
    obtain ⟨provisioned, agrees⟩ := run.reached
    obtain ⟨after, handled⟩ := provisioned.handles_delete accepted
    refine ⟨after, handled,
      (policy_reads (handled.kept provisioned agrees).2 accepted).trans ?_⟩
    unfold HandleEvent.after HandleCall.after
    simp only [Function.update_self]

/-- A queue created with a TTL of one and a half seconds keeps its tasks for two. -/
theorem Installation.HandledRun.policyFaithful_orders :
    ∃ events installation, HandledRun asciiSpace events installation ∧
      installation.PolicyFaithful asciiSpace events ∧
        Client.policy asciiSpace "orders" installation =
          .ok (some ⟨"orders", .fromSeconds 2, 1000⟩) := by
  let options : QueuePolicyOptions := ⟨some ⟨1, 500000000⟩, none⟩
  let call : HandleCall := .createWithPolicy "orders" options
  let create : List AdminStatement :=
    [.createQueue (some "orders"), .setQueuePolicy (some "orders") (some 2) none]
  have commits : (Installation.installed.administer asciiSpace create).toOption.isSome = true := by
    decide +kernel
  have accepted : Accepted asciiSpace "orders" := by
    unfold Accepted
    decide +kernel
  have sends : call.statements = .ok create := rfl
  cases performs : Installation.installed.administer asciiSpace create with
  | error error =>
      rw [performs] at commits
      cases commits
  | ok installation =>
      have run : HandledRun asciiSpace [.administered call (.ok ())] installation :=
        .cons (.committed sends performs) (.nil _)
      exact ⟨_, installation, run, run.policyFaithful,
        run.policyFaithful.reads "orders" accepted⟩

end Steda
