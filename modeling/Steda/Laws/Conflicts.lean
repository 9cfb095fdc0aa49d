import Steda.Contention
import Steda.Laws.Idempotency

/-!
# Conflicts of idempotency keys under concurrency

`spawn_task` detects that a key is held in its INSERT, which locks nothing, and
reads the request of the holder in a later statement.  Other sessions may
commit in between.  The conflict the call reports is real unless the holder
that stopped the INSERT carried the same request and was gone, with nobody else
holding the key, when the lookup ran.
-/

namespace Steda

open Postgres Transaction Relational

variable {space : Char → Bool}

/-- A task that held the key with a different request was committed when one of
the statements of the call looked at the tasks. -/
def ConflictReal (request : Submission) (key : String) (past : List Exchange) : Prop :=
  ∃ statement ∈ past, statement.command ≠ .ident ∧ statement.command ≠ .clock ∧
    ∃ task ∈ statement.committed.tasks,
      task.idempotencyKey = some key ∧ request.matches task = false

/-- The task that held the key when the INSERT ran carried the same request, and
no task held the key when the lookup ran. -/
def HolderVanished (request : Submission) (key : String) (past : List Exchange) : Prop :=
  ∃ insertion ∈ past, ∃ lookup ∈ past, (∃ row, insertion.command = .write (.insertTask row)) ∧
    lookup.command = .read ∧
    (∃ holder ∈ insertion.committed.tasks,
      holder.idempotencyKey = some key ∧ request.matches holder = true) ∧
    ∀ task ∈ lookup.committed.tasks, task.idempotencyKey ≠ some key

/-- A `spawn_task` with a key reports no conflict but a real one: wherever it
has got to, it has raised only for a real conflict, and no constraint refuses
its next statement as long as the drawn identifiers are unused. -/
structure ReportsRealConflicts (space : Char → Bool) (request : Submission) (key : String)
    (past : List Exchange) (rest : Sql SpawnResult) (last : Tx) : Prop where
  raised : ∀ error, rest = .raise error →
    error = .idempotencyConflict key ∧ ConflictReal request key past
  refused : ∀ change next error, rest = .perform (.write change) next →
    Queue.attempt space change last.queue = .error error → ¬last.Unused

theorem Queue.findKey_some {queue : Queue} {key : String} {task : TaskRow}
    (found : queue.findKey key = some task) :
    task ∈ queue.tasks ∧ task.idempotencyKey = some key :=
  ⟨List.mem_of_find?_eq_some found, by simpa using List.find?_some found⟩

theorem Queue.findKey_none {queue : Queue} {key : String} (absent : queue.findKey key = none) :
    ∀ task ∈ queue.tasks, task.idempotencyKey ≠ some key := by
  intro task member
  simpa using List.find?_eq_none.mp absent task member

/-- The statement of the call after the request is accepted. -/
abbrev insertOrCompare (request : Submission) (taskId runId : Uuid) (nowAt : Timestamp) :
    Sql SpawnResult := do
  if ← change (.insertTask (request.taskRow taskId runId nowAt)) then
    let _ ← change (.insertRun (RunRow.fresh runId taskId 1 .pending nowAt))
    return { taskId := taskId, created := true }
  else
    match request.idempotencyKey with
    | none => .raise .insertConflictWithoutKey
    | some key => compareExisting request key

/-- Before the INSERT the call draws two identifiers and reads the clock. -/
theorem spawnTask_conduct {taskName : Option String} {params options : Option Json}
    {request : Submission} {start : Queue} {past : List Exchange} {rest : Sql SpawnResult}
    {last : Tx} {rely : Rely RowKey Queue}
    (validated : validateSubmission space taskName params options = .ok request)
    (conduct : Amid (storage space) rely (spawnTask space taskName params options)
      (Local.start start) past rest last) :
    ((∀ exchange ∈ past, exchange.command = .ident ∨ exchange.command = .clock) ∧
      ∃ command next, rest = .perform command next ∧ (command = .ident ∨ command = .clock)) ∨
    ∃ (early late : List Exchange) (store : Queue) (taskId runId : Uuid) (nowAt : Timestamp)
      (tx : Tx), past = early ++ late ∧
        (∀ exchange ∈ early, exchange.command = .ident ∨ exchange.command = .clock) ∧
        rely.moves [] start store ∧ tx.committed = store ∧ tx.log = [] ∧
        tx.drawn = [taskId, runId] ∧
        Amid (storage space) rely (insertOrCompare request taskId runId nowAt) tx late rest last := by
  have whole : Amid (storage space) rely
      (.perform .ident fun taskId => .perform .ident fun runId => .perform .clock fun nowAt =>
        Program.ofExcept (validateSubmission space taskName params options) >>= fun request =>
          insertOrCompare request taskId runId nowAt)
      (Local.start start) past rest last := conduct
  rcases whole.perform_cases with ⟨isPast, isRest⟩ |
    ⟨first, taskId, afterTask, late, moves, answered, isPast, drawsRun⟩
  · subst isPast
    exact Or.inl ⟨by simp, _, _, isRest, Or.inl rfl⟩
  subst isPast
  cases answered
  rcases drawsRun.perform_cases with ⟨isPast, isRest⟩ |
    ⟨second, runId, afterRun, late, movesRun, answered, isPast, readsClock⟩
  · subst isPast
    exact Or.inl ⟨by simp, _, _, isRest, Or.inl rfl⟩
  subst isPast
  cases answered
  rcases readsClock.perform_cases with ⟨isPast, isRest⟩ |
    ⟨third, nowAt, afterClock, late, movesClock, answered, isPast, remaining⟩
  · subst isPast
    exact Or.inl ⟨by simp, _, _, isRest, Or.inr rfl⟩
  subst isPast
  cases answered
  rw [validated] at remaining
  refine Or.inr ⟨[⟨first, .ident, taskId⟩, ⟨second, .ident, runId⟩, ⟨third, .clock, nowAt⟩], late,
    third, taskId, runId, nowAt, _, rfl, by simp, ?_, ?_, ?_, ?_, remaining⟩
  · exact rely.trans moves (rely.trans movesRun movesClock)
  all_goals rfl

section Insertion

variable {request : Submission} {key : String} {taskId runId : Uuid} {nowAt : Timestamp}

/-- The interactions of a call whose INSERT ran into a holder of the key. -/
def conflicting (row : TaskRow) (inserted looked visible : Queue) : List Exchange :=
  [⟨inserted, .write (.insertTask row), false⟩, ⟨looked, .read, visible⟩]

theorem conflictReal_conflicting {row : TaskRow} {inserted looked visible : Queue} :
    ConflictReal request key (conflicting row inserted looked visible) ↔
      (∃ task ∈ inserted.tasks, task.idempotencyKey = some key ∧ request.matches task = false) ∨
        ∃ task ∈ looked.tasks, task.idempotencyKey = some key ∧ request.matches task = false := by
  simp [ConflictReal, conflicting]

theorem holderVanished_conflicting {row : TaskRow} {inserted looked visible : Queue} :
    HolderVanished request key (conflicting row inserted looked visible) ↔
      (∃ holder ∈ inserted.tasks,
          holder.idempotencyKey = some key ∧ request.matches holder = true) ∧
        ∀ task ∈ looked.tasks, task.idempotencyKey ≠ some key := by
  simp [HolderVanished, conflicting]

/-- Nothing vanishes before the lookup. -/
theorem not_holderVanished {past : List Exchange}
    (unread : ∀ exchange ∈ past, exchange.command ≠ .read) : ¬HolderVanished request key past := by
  rintro ⟨_, _, lookup, member, _, isRead, _⟩
  exact unread lookup member isRead

theorem conflictReal_append {early late : List Exchange}
    (isEarly : ∀ exchange ∈ early, exchange.command = .ident ∨ exchange.command = .clock) :
    ConflictReal request key (early ++ late) ↔ ConflictReal request key late := by
  constructor
  · rintro ⟨statement, member, notIdent, notClock, holder⟩
    rcases List.mem_append.mp member with inEarly | inLate
    · rcases isEarly statement inEarly with isIdent | isClock
      · exact absurd isIdent notIdent
      · exact absurd isClock notClock
    · exact ⟨statement, inLate, notIdent, notClock, holder⟩
  · rintro ⟨statement, member, known⟩
    exact ⟨statement, List.mem_append_right _ member, known⟩

theorem holderVanished_append {early late : List Exchange}
    (isEarly : ∀ exchange ∈ early, exchange.command = .ident ∨ exchange.command = .clock) :
    HolderVanished request key (early ++ late) ↔ HolderVanished request key late := by
  have inLate : ∀ exchange ∈ early ++ late, exchange.command ≠ .ident → exchange.command ≠ .clock →
      exchange ∈ late := by
    intro exchange member notIdent notClock
    rcases List.mem_append.mp member with inEarly | inLate
    · rcases isEarly exchange inEarly with isIdent | isClock
      · exact absurd isIdent notIdent
      · exact absurd isClock notClock
    · exact inLate
  constructor
  · rintro ⟨insertion, inserted, lookup, looked, ⟨row, isInsert⟩, isRead, known⟩
    refine ⟨insertion, inLate insertion inserted ?_ ?_, lookup, inLate lookup looked ?_ ?_,
      ⟨row, isInsert⟩, isRead, known⟩
    · rw [isInsert]
      exact fun impossible => by cases impossible
    · rw [isInsert]
      exact fun impossible => by cases impossible
    · rw [isRead]
      exact fun impossible => by cases impossible
    · rw [isRead]
      exact fun impossible => by cases impossible
  · rintro ⟨insertion, inserted, lookup, looked, known⟩
    exact ⟨insertion, List.mem_append_right _ inserted, lookup, List.mem_append_right _ looked, known⟩

/-- The lookup raises for a real conflict exactly when the holder has not
vanished. -/
theorem lookup_conflicts {row : TaskRow} {inserted looked : Queue} (keyed : inserted.Keyed)
    (held : (inserted.findKey key).isSome)
    (notMatching : ∀ existing, looked.findKey key = some existing →
      request.matches existing = false) :
    ConflictReal request key (conflicting row inserted looked looked) ↔
      ¬HolderVanished request key (conflicting row inserted looked looked) := by
  rw [conflictReal_conflicting, holderVanished_conflicting]
  obtain ⟨holder, found⟩ := Option.isSome_iff_exists.mp held
  obtain ⟨inInserted, holderKey⟩ := Queue.findKey_some found
  cases seen : looked.findKey key with
  | some existing =>
      obtain ⟨inLooked, existingKey⟩ := Queue.findKey_some seen
      have real := notMatching existing seen
      constructor
      · rintro _ ⟨_, absent⟩
        exact absent existing inLooked existingKey
      · exact fun _ => Or.inr ⟨existing, inLooked, existingKey, real⟩
  | none =>
      have absent := Queue.findKey_none seen
      cases agrees : request.matches holder with
      | true =>
          have isHolder : ∀ task ∈ inserted.tasks, task.idempotencyKey = some key → task = holder :=
            fun task member taskKey => keyed.holder_unique member inInserted taskKey holderKey
          constructor
          · rintro (⟨task, member, taskKey, differs⟩ | ⟨task, member, taskKey, _⟩)
            · rw [isHolder task member taskKey, agrees] at differs
              cases differs
            · exact absurd taskKey (absent task member)
          · intro notVanished
            exact absurd ⟨⟨holder, inInserted, holderKey, agrees⟩, absent⟩ notVanished
      | false =>
          constructor
          · rintro _ ⟨⟨other, member, otherKey, matching⟩, _⟩
            rw [keyed.holder_unique member inInserted otherKey holderKey, agrees] at matching
            cases matching
          · exact fun _ => Or.inl ⟨holder, inInserted, holderKey, agrees⟩

/-- While others commit, the call reports a conflict that is not real exactly
when the holder has vanished. -/
def ConflictsExact (space : Char → Bool) (request : Submission) (key : String)
    (past : List Exchange) (rest : Sql SpawnResult) (last : Tx) : Prop :=
  ReportsRealConflicts space request key past rest last ↔ ¬HolderVanished request key past

theorem conflictsExact_of_unread {past : List Exchange} {rest : Sql SpawnResult} {last : Tx}
    (unread : ∀ exchange ∈ past, exchange.command ≠ .read) (notRaised : ∀ error, rest ≠ .raise error)
    (refused : ∀ change next error, rest = .perform (.write change) next →
      Queue.attempt space change last.queue = .error error → ¬last.Unused) :
    ConflictsExact space request key past rest last :=
  ⟨fun _ => not_holderVanished unread, fun _ =>
    ⟨fun error isRaise => absurd isRaise (notRaised error), refused⟩⟩

theorem compareExisting_eq (request : Submission) (key : String) :
    compareExisting request key = .perform .read fun visible =>
      match visible.findKey key with
      | none => .raise (.idempotencyConflict key)
      | some existing =>
          if request.matches existing then .done { taskId := existing.id, created := false }
          else .raise (.idempotencyConflict key) := rfl

theorem compareExisting_conduct {tx last : Tx} {row : TaskRow} {inserted : Queue}
    {late : List Exchange} {rest : Sql SpawnResult} (keyed : inserted.Keyed)
    (held : (inserted.findKey key).isSome) (unwritten : tx.log = [])
    (conduct : Amid (storage space) (interference space False) (compareExisting request key)
      tx late rest last) :
    ConflictsExact space request key (⟨inserted, .write (.insertTask row), false⟩ :: late)
      rest last := by
  rw [compareExisting_eq] at conduct
  rcases conduct.perform_cases with ⟨isPast, isRest⟩ |
    ⟨looked, visible, after, more, moves, answered, isPast, remaining⟩
  · subst isPast isRest
    refine conflictsExact_of_unread (by simp) (fun _ impossible => by cases impossible) ?_
    rintro change next error impossible
    cases impossible
  subst isPast
  have isVisible : looked = visible := by
    cases answered
    simp [Local.view, Local.withCommitted, unwritten]
  subst isVisible
  have unrefused : ∀ {past : List Exchange} {final : Sql SpawnResult},
      (∀ change next, final ≠ .perform (.write change) next) →
        ((∀ error, final = .raise error → error = .idempotencyConflict key ∧
          ConflictReal request key past) ↔ ¬HolderVanished request key past) →
          ConflictsExact space request key past final last := by
    intro past final notWrite exactly
    refine ⟨fun reports => exactly.mp reports.raised, fun notVanished =>
      ⟨exactly.mpr notVanished, fun change next error isWrite => absurd isWrite (notWrite change next)⟩⟩
  have raises : ∀ {past : List Exchange}, (ConflictReal request key past ↔
      ¬HolderVanished request key past) →
        ConflictsExact space request key past (.raise (.idempotencyConflict key)) last := by
    intro past exactly
    refine unrefused (fun _ _ impossible => by cases impossible)
      ⟨fun raised => ?_, fun notVanished => ?_⟩
    · exact exactly.mp (raised _ rfl).2
    · rintro error isError
      cases isError
      exact ⟨rfl, exactly.mpr notVanished⟩
  cases seen : looked.findKey key with
  | none =>
      simp only [seen] at remaining
      obtain ⟨isNil, isRest⟩ := remaining.raise_cases
      subst isNil isRest
      exact raises (lookup_conflicts keyed held (by simp [seen]))
  | some existing =>
      simp only [seen] at remaining
      cases agrees : request.matches existing with
      | false =>
          simp only [agrees, Bool.false_eq_true, if_false] at remaining
          obtain ⟨isNil, isRest⟩ := remaining.raise_cases
          subst isNil isRest
          refine raises (lookup_conflicts keyed held fun other isOther => ?_)
          rw [seen] at isOther
          cases isOther
          exact agrees
      | true =>
          simp only [agrees, if_true] at remaining
          obtain ⟨isNil, isRest⟩ := remaining.done_cases
          subst isNil isRest
          refine unrefused (fun _ _ impossible => by cases impossible)
            ⟨fun _ vanished => ?_, fun _ error impossible => by cases impossible⟩
          obtain ⟨inLooked, existingKey⟩ := Queue.findKey_some seen
          exact (holderVanished_conflicting.mp vanished).2 existing inLooked existingKey

/-- The first run of an inserted task is inserted unless its identifier is in
use. -/
theorem attempt_insertFirstRun {tx : Tx} {store second : Queue} {task : TaskRow}
    (unwritten : tx.log = []) (sound : store.Sound space) (fresh : store.findTask task.id = none)
    (moved : (interference space False).moves
      (((tx.withCommitted store).hold [.task task.id]).record (.insertTask task)).held store second)
    (unused : Tx.Unused ((((tx.withCommitted store).hold [.task task.id]).record
      (.insertTask task)).withCommitted second)) (isDrawn : runId ∈ tx.drawn) :
    Queue.attempt space (.insertRun (RunRow.fresh runId task.id 1 .pending nowAt))
      (Tx.queue ((((tx.withCommitted store).hold [.task task.id]).record
        (.insertTask task)).withCommitted second)) = .ok true := by
  have isQueue : Tx.queue ((((tx.withCommitted store).hold [.task task.id]).record
      (.insertTask task)).withCommitted second) = second.insertTask task := by
    simp [Tx.queue, Local.withCommitted, Local.hold, Local.record, unwritten, Queue.apply]
  have rows : second.rowsOf task.id = Life.rows none := by
    rw [moved.2.1 task.id List.mem_cons_self]
    obtain ⟨life, rows, _⟩ := sound.lives task.id
    cases life with
    | none => exact rows
    | some life =>
        have found : store.findTask task.id = some life.task := congrArg Rows.task rows
        rw [fresh] at found
        cases found
  have noTask : second.findTask task.id = none := congrArg Rows.task rows
  have noRuns : second.runsOf task.id = [] := congrArg Rows.runs rows
  have noRun : (second.insertTask task).findRun runId = none := (unused.2 runId isDrawn).2
  rw [isQueue, attempt_insertRun]
  · rw [show (RunRow.fresh runId task.id 1 .pending nowAt).id = runId from rfl, noRun]
    rfl
  · rw [show (RunRow.fresh runId task.id 1 .pending nowAt).taskId = task.id from rfl,
      Queue.findTask_insertTask, noTask, if_pos rfl]
    rfl
  · exact RunRow.check_fresh runId task.id 0 rfl nowAt
  · intro other member
    have inRuns : other ∈ second.runsOf task.id := member
    rw [noRuns] at inRuns
    cases inRuns
  · intro other member
    have inRuns : other ∈ second.runsOf task.id := member
    rw [noRuns] at inRuns
    cases inRuns

/-- The INSERT and what follows it. -/
theorem insertOrCompare_conduct {tx last : Tx} {late : List Exchange} {rest : Sql SpawnResult}
    (sound : tx.committed.Sound space) (unwritten : tx.log = [])
    (drawn : tx.drawn = [taskId, runId]) (isKey : request.idempotencyKey = some key)
    (checked : (request.taskRow taskId runId nowAt).check space = .ok ())
    (conduct : Amid (storage space) (interference space False)
      (insertOrCompare request taskId runId nowAt) tx late rest last) :
    ConflictsExact space request key late rest last := by
  have whole : Amid (storage space) (interference space False)
      (.perform (.write (.insertTask (request.taskRow taskId runId nowAt))) fun inserted =>
        if inserted then
          .perform (.write (.insertRun (RunRow.fresh runId taskId 1 .pending nowAt)))
            fun _ => .done { taskId := taskId, created := true }
        else match request.idempotencyKey with
          | none => .raise .insertConflictWithoutKey
          | some key => compareExisting request key) tx late rest last := by
    refine (congrArg (Amid _ _ · tx late rest last) ?_).mp conduct
    refine congrArg (Program.perform _) (funext fun inserted => ?_)
    cases inserted <;> rfl
  rcases whole.perform_cases with ⟨isPast, isRest⟩ |
    ⟨store, inserted, after, more, moves, answered, isPast, remaining⟩
  · subst isPast
    obtain ⟨_, store, _, isLast⟩ := whole.nil_cases
    subst isRest isLast
    refine conflictsExact_of_unread (by simp) (fun _ impossible => by cases impossible) ?_
    rintro change next error isWrite refused unused
    cases isWrite
    have isStore : Tx.queue (tx.withCommitted store) = store := by
      simp [Tx.queue, Local.withCommitted, unwritten]
    rw [isStore] at refused
    have absent : store.findTask taskId = none :=
      (unused.2 taskId (drawn.symm ▸ List.mem_cons_self)).1
    rw [attempt_insertTask_of_check checked,
      show (request.taskRow taskId runId nowAt).id = taskId from rfl, absent] at refused
    split at refused <;> cases refused
  subst isPast
  have storeSound : store.Sound space := moves.1 sound
  have isStore : (tx.withCommitted store).view (storage space) = store := by
    simp [Local.view, Local.withCommitted, unwritten]
  cases answered with
  | dropped attempted =>
      rw [isStore] at attempted
      obtain ⟨_, ⟨impossible, _⟩ | ⟨_, other, isOther, held⟩⟩ := attempt_insertTask attempted
      · cases impossible
      · rw [show (request.taskRow taskId runId nowAt).idempotencyKey = some key from isKey] at isOther
        cases isOther
        simp only [Bool.false_eq_true, if_false, isKey] at remaining
        have unwrittenNow : (tx.withCommitted store).log = [] := unwritten
        exact compareExisting_conduct storeSound.keyed held unwrittenNow remaining
  | written attempted =>
      rw [isStore] at attempted
      obtain ⟨_, ⟨_, fresh, _⟩ | ⟨impossible, _⟩⟩ := attempt_insertTask attempted
      swap
      · cases impossible
      simp only [if_true] at remaining
      rcases remaining.perform_cases with ⟨isPast, isRest⟩ |
        ⟨second, answer, afterRun, more, movesRun, answered, isPast, finished⟩
      · subst isPast
        obtain ⟨_, second, movesRun, isLast⟩ := remaining.nil_cases
        subst isRest isLast
        refine conflictsExact_of_unread (by simp) (fun _ impossible => by cases impossible) ?_
        rintro change next error isWrite refused unused
        cases isWrite
        have isDrawn : runId ∈ tx.drawn := by
          rw [drawn]
          exact List.mem_cons_of_mem _ List.mem_cons_self
        have accepted : Queue.attempt space (.insertRun (RunRow.fresh runId taskId 1 .pending nowAt))
            _ = .ok true := attempt_insertFirstRun unwritten storeSound fresh movesRun unused isDrawn
        cases accepted.symm.trans refused
      · subst isPast
        obtain ⟨isNil, isRest⟩ := finished.done_cases
        subst isNil isRest
        refine conflictsExact_of_unread (by simp) (fun _ impossible => by cases impossible) ?_
        rintro change next error impossible
        cases impossible

end Insertion

/-- Whatever other sessions commit between the statements of a `spawn_task` with
an idempotency key, the call reports a conflict that is not real exactly when
the holder of the key that stopped its INSERT carried the same request and has
vanished before the lookup. -/
theorem spawnTask_conflictsExact {start : Queue} (sound : start.Sound space)
    {taskName : Option String} {params options : Option Json} {request : Submission} {key : String}
    (validated : validateSubmission space taskName params options = .ok request)
    (isKey : request.idempotencyKey = some key) {past : List Exchange} {rest : Sql SpawnResult}
    {last : Tx}
    (conduct : Amid (storage space) (interference space False)
      (spawnTask space taskName params options) (Local.start start) past rest last) :
    ReportsRealConflicts space request key past rest last ↔ ¬HolderVanished request key past := by
  rcases spawnTask_conduct validated conduct with ⟨early, command, next, isRest, isEarly⟩ |
    ⟨early, late, store, taskId, runId, nowAt, tx, isPast, isEarly, moves, committed, unwritten,
      drawn, remaining⟩
  · refine conflictsExact_of_unread ?_ ?_ ?_
    · intro exchange member
      rcases early exchange member with isCommand | isCommand <;> rw [isCommand] <;>
        exact fun impossible => by cases impossible
    · intro error isRaise
      rw [isRest] at isRaise
      cases isRaise
    · intro change next error isWrite
      rw [isRest] at isWrite
      rcases isEarly with isCommand | isCommand <;> subst isCommand <;> cases isWrite
  · subst isPast
    have exactly : ReportsRealConflicts space request key late rest last ↔
        ¬HolderVanished request key late :=
      insertOrCompare_conduct (committed ▸ moves.1 sound) unwritten drawn isKey
        ((validateSubmission_ok validated).check taskId runId nowAt) remaining
    rw [holderVanished_append isEarly, ← exactly]
    constructor
    · exact fun reports => ⟨fun error isRaise => (reports.raised error isRaise).imp_right
        (conflictReal_append isEarly).mp, reports.refused⟩
    · exact fun reports => ⟨fun error isRaise => (reports.raised error isRaise).imp_right
        (conflictReal_append isEarly).mpr, reports.refused⟩

/-- A queue whose only task holds the key of a monthly report and is completed. -/
def completedMonthly : World :=
  (World.serve asciiSpace [(keyedSubmission 2).operation, plainClaim "worker",
    .completeRun 1 (some .null)] (.blank second)).2

/-- The queue after a cleanup pass. -/
def cleanedMonthly : World := (Operation.cleanupTasks.perform asciiSpace completedMonthly).2

/-- A repeated submission finds the task that holds its key. -/
theorem spawnTask_conflictsExact_repeated :
    ∃ request past last, validateSubmission asciiSpace (keyedSubmission 2).taskName
        (keyedSubmission 2).params (keyedSubmission 2).options = .ok request ∧
      Amid (storage asciiSpace) (interference asciiSpace False)
        ((keyedSubmission 2).operation.program asciiSpace) (Local.start completedMonthly.store)
        past (.done { taskId := 0, created := false }) last ∧
      ReportsRealConflicts asciiSpace request "monthly" past
        (.done { taskId := 0, created := false }) last := by
  have conducted : ∃ request past last, validateSubmission asciiSpace (keyedSubmission 2).taskName
      (keyedSubmission 2).params (keyedSubmission 2).options = .ok request ∧
        request.idempotencyKey = some "monthly" ∧
        Amid (storage asciiSpace) (interference asciiSpace False)
          ((keyedSubmission 2).operation.program asciiSpace) (Local.start completedMonthly.store)
          past (.done { taskId := 0, created := false }) last ∧
        ¬HolderVanished request "monthly" past := by
    refine ⟨_, _, _, rfl, rfl, .answered (.ident 2 _) (.answered (.ident 3 _) (.answered
      (.clock 0 _) (.answered (.dropped rfl) (.answered (.read _) (.here _ _))))), ?_⟩
    rintro ⟨_, _, lookup, member, _, isRead, _, absent⟩
    iterate 4
      rcases member with _ | ⟨_, member⟩
      · cases isRead
    rcases member with _ | ⟨_, member⟩
    · exact absent _ List.mem_cons_self rfl
    · cases member
  obtain ⟨request, past, last, validated, isKey, conduct, notVanished⟩ := conducted
  have sound : completedMonthly.store.Sound asciiSpace := (World.history_serve _ second).sound
  exact ⟨request, past, last, validated, conduct,
    (spawnTask_conflictsExact sound validated isKey conduct).mpr notVanished⟩

/-- A cleanup pass between the INSERT and the lookup leads to a conflict that
nobody caused. -/
theorem spawnTask_conflictsExact_vanished :
    ∃ request past last, validateSubmission asciiSpace (keyedSubmission 2).taskName
        (keyedSubmission 2).params (keyedSubmission 2).options = .ok request ∧
      Amid (storage asciiSpace) (interference asciiSpace False)
        ((keyedSubmission 2).operation.program asciiSpace) (Local.start completedMonthly.store)
        past (.raise (.idempotencyConflict "monthly")) last ∧
      ¬ConflictReal request "monthly" past := by
  have moved : (interference asciiSpace False).moves [] completedMonthly.store
      cleanedMonthly.store := by
    refine ⟨fun _ => ?_, by simp, by simp, fun impossible => impossible.elim⟩
    exact (World.history_serve [(keyedSubmission 2).operation, plainClaim "worker",
      .completeRun 1 (some .null), .cleanupTasks] second).sound
  refine ⟨_, _, _, rfl, .answered (.ident 2 _) (.answered (.ident 3 _) (.answered (.clock 0 _)
    (.answered (.dropped rfl) (.moved moved (.answered (.read _) (.here _ _)))))), ?_⟩
  rintro ⟨statement, member, notIdent, notClock, task, inTasks, isKey, differs⟩
  rcases member with _ | ⟨_, _ | ⟨_, _ | ⟨_, member⟩⟩⟩
  · exact notIdent rfl
  · exact notIdent rfl
  · exact notClock rfl
  rcases member with _ | ⟨_, _ | ⟨_, member⟩⟩
  · rw [List.mem_singleton.mp (show task ∈ [_] from inTasks)] at differs
    cases differs
  · cases (show task ∈ [] from inTasks)
  · cases member

end Steda
