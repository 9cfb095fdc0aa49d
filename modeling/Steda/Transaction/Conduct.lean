import Steda.Transaction.Interference

/-!
# The conduct of a transaction amid others

`Amid` executes a program command by command while other transactions commit
between the commands, and records the interactions with the database.  It is
the operational reading of `Ensures`: a program that ensures its postconditions
keeps ensuring them however far it has got.
-/

namespace Transaction

variable {σ κ ω ε τ ι α β : Type}

/-- A transaction over a store. -/
abbrev Script (σ κ ω ε τ ι α : Type) : Type :=
  Program (Command.Response σ τ ι (κ := κ) (ω := ω)) ε α

/-- A command with the committed store it met and the answer it was given. -/
structure Interaction (σ κ ω τ ι : Type) where
  committed : σ
  command : Command κ ω
  answer : command.Response σ τ ι

/-- The answers the database may give to a command, and what the transaction
knows afterwards. -/
inductive Answered (storage : Storage σ κ ω ε) :
    (command : Command κ ω) → Local σ κ ω τ ι → command.Response σ τ ι →
      Local σ κ ω τ ι → Prop
  | read (state : Local σ κ ω τ ι) : Answered storage .read state (state.view storage) state
  | locked {key : κ} {policy : LockPolicy} {state : Local σ κ ω τ ι}
      (found : storage.present key (state.view storage) = true) :
      Answered storage (.lock key policy) state (some (state.view storage)) (state.hold [key])
  | missed {key : κ} {policy : LockPolicy} {state : Local σ κ ω τ ι}
      (missing : storage.present key (state.view storage) = false ∨ policy = .skipLocked) :
      Answered storage (.lock key policy) state none state
  | written {change : ω} {state : Local σ κ ω τ ι}
      (attempted : storage.attempt change (state.view storage) = .ok true) :
      Answered storage (.write change) state true
        ((state.hold (storage.touches change)).record change)
  | dropped {change : ω} {state : Local σ κ ω τ ι}
      (attempted : storage.attempt change (state.view storage) = .ok false) :
      Answered storage (.write change) state false state
  | clock (reading : τ) (state : Local σ κ ω τ ι) :
      Answered storage .clock state reading (state.observe reading)
  | ident (ident : ι) (state : Local σ κ ω τ ι) :
      Answered storage .ident state ident (state.draw ident)

/-- The part of a transaction between two of its moments: the program and the
knowledge at the first, the interactions, and the program and the knowledge at
the second. -/
inductive Amid (storage : Storage σ κ ω ε) (rely : Rely κ σ) :
    Script σ κ ω ε τ ι α → Local σ κ ω τ ι → List (Interaction σ κ ω τ ι) →
      Script σ κ ω ε τ ι α → Local σ κ ω τ ι → Prop
  | here (program : Script σ κ ω ε τ ι α) (state : Local σ κ ω τ ι) :
      Amid storage rely program state [] program state
  | moved {program rest : Script σ κ ω ε τ ι α} {state last : Local σ κ ω τ ι}
      {past : List (Interaction σ κ ω τ ι)} {store : σ}
      (moves : rely.moves state.held state.committed store)
      (later : Amid storage rely program (state.withCommitted store) past rest last) :
      Amid storage rely program state past rest last
  | answered {command : Command κ ω} {answer : command.Response σ τ ι}
      {next : command.Response σ τ ι → Script σ κ ω ε τ ι α} {rest : Script σ κ ω ε τ ι α}
      {state after last : Local σ κ ω τ ι} {past : List (Interaction σ κ ω τ ι)}
      (answers : Answered storage command state answer after)
      (later : Amid storage rely (next answer) after past rest last) :
      Amid storage rely (.perform command next) state
        (⟨state.committed, command, answer⟩ :: past) rest last

namespace Amid

variable {storage : Storage σ κ ω ε} {rely : Rely κ σ}
variable {program middle rest : Script σ κ ω ε τ ι α} {state between last : Local σ κ ω τ ι}
variable {past more : List (Interaction σ κ ω τ ι)}

theorem trans (early : Amid storage rely program state past middle between)
    (late : Amid storage rely middle between more rest last) :
    Amid storage rely program state (past ++ more) rest last := by
  induction early with
  | here program state => exact late
  | moved moves later inductionHypothesis => exact .moved moves (inductionHypothesis late)
  | answered answers later inductionHypothesis => exact .answered answers (inductionHypothesis late)

/-- Other transactions may commit at the end. -/
theorem move {store : σ} (conduct : Amid storage rely program state past rest last)
    (moves : rely.moves last.held last.committed store) :
    Amid storage rely program state past rest (last.withCommitted store) := by
  have whole := conduct.trans (.moved moves (.here rest _))
  rwa [List.append_nil] at whole

/-- The next command is answered. -/
theorem answer {command : Command κ ω} {answer : command.Response σ τ ι}
    {next : command.Response σ τ ι → Script σ κ ω ε τ ι α} {after : Local σ κ ω τ ι}
    (conduct : Amid storage rely program state past (.perform command next) last)
    (answers : Answered storage command last answer after) :
    Amid storage rely program state (past ++ [⟨last.committed, command, answer⟩])
      (next answer) after :=
  conduct.trans (.answered answers (.here _ _))

/-- Less interference is interference. -/
theorem weaken {weaker : Rely κ σ}
    (implies : ∀ held before after, rely.moves held before after → weaker.moves held before after)
    (conduct : Amid storage rely program state past rest last) :
    Amid storage weaker program state past rest last := by
  induction conduct with
  | here program state => exact .here _ _
  | moved moves later inductionHypothesis => exact .moved (implies _ _ _ moves) inductionHypothesis
  | answered answers later inductionHypothesis => exact .answered answers inductionHypothesis

/-- Inversion of a composition: its first part is under way, or it is over and
the second part is under way. -/
theorem bind_cases {program : Script σ κ ω ε τ ι β} {next : β → Script σ κ ω ε τ ι α}
    (conduct : Amid storage rely (program >>= next) state past rest last) :
    (∃ first, Amid storage rely program state past first last ∧ rest = first >>= next) ∨
      ∃ value between early late, past = early ++ late ∧
        Amid storage rely program state early (.done value) between ∧
        Amid storage rely (next value) between late rest last := by
  generalize isWhole : (program >>= next) = whole at conduct
  induction conduct generalizing program with
  | here whole state => exact Or.inl ⟨program, .here _ _, isWhole.symm⟩
  | moved moves later inductionHypothesis =>
      rcases inductionHypothesis isWhole with ⟨first, early, isRest⟩ |
        ⟨value, between, early, late, isPast, first, second⟩
      · exact Or.inl ⟨first, .moved moves early, isRest⟩
      · exact Or.inr ⟨value, between, early, late, isPast, .moved moves first, second⟩
  | @answered command answer continue_ rest state after last past answers later inductionHypothesis =>
      cases program with
      | done value =>
          have isNext : next value = .perform command continue_ := isWhole
          exact Or.inr ⟨value, state, [], ⟨state.committed, command, answer⟩ :: past, rfl, .here _ _,
            isNext ▸ .answered answers later⟩
      | raise error => cases isWhole
      | perform other rest =>
          obtain ⟨isCommand, isRest⟩ := Program.perform.inj isWhole
          subst isCommand
          have isContinue := congrFun (eq_of_heq isRest) answer
          rcases inductionHypothesis isContinue with ⟨first, early, isRest⟩ |
            ⟨value, between, early, late, isPast, first, second⟩
          · exact Or.inl ⟨first, .answered answers early, isRest⟩
          · exact Or.inr ⟨value, between, ⟨_, _, answer⟩ :: early, late, by rw [isPast]; rfl,
              .answered answers first, second⟩

/-- A transaction that has had no answer yet is where it was. -/
theorem nil_cases (conduct : Amid storage rely program state [] rest last) :
    rest = program ∧ ∃ store, rely.moves state.held state.committed store ∧
      last = state.withCommitted store := by
  generalize isNil : ([] : List (Interaction σ κ ω τ ι)) = past at conduct
  induction conduct with
  | here program state => exact ⟨rfl, state.committed, rely.refl _ _, rfl⟩
  | moved moves later inductionHypothesis =>
      obtain ⟨isProgram, store, movesLater, isLast⟩ := inductionHypothesis isNil
      exact ⟨isProgram, store, rely.trans moves movesLater, isLast⟩
  | answered answers later inductionHypothesis => cases isNil

/-- A transaction that has returned does nothing more. -/
theorem done_cases {value : α} (conduct : Amid storage rely (.done value) state past rest last) :
    past = [] ∧ rest = .done value := by
  generalize isDone : (Program.done value : Script σ κ ω ε τ ι α) = program at conduct
  induction conduct with
  | here program state => exact ⟨rfl, rfl⟩
  | moved moves later inductionHypothesis => exact inductionHypothesis isDone
  | answered answers later inductionHypothesis => cases isDone

/-- A transaction that has raised does nothing more. -/
theorem raise_cases {error : ε} (conduct : Amid storage rely (.raise error) state past rest last) :
    past = [] ∧ rest = .raise error := by
  generalize isRaise : (Program.raise error : Script σ κ ω ε τ ι α) = program at conduct
  induction conduct with
  | here program state => exact ⟨rfl, rfl⟩
  | moved moves later inductionHypothesis => exact inductionHypothesis isRaise
  | answered answers later inductionHypothesis => cases isRaise

/-- Both parts of a composition that has returned have returned. -/
theorem bind_done {program : Script σ κ ω ε τ ι β} {next : β → Script σ κ ω ε τ ι α} {value : α}
    (conduct : Amid storage rely (program >>= next) state past (.done value) last) :
    ∃ middle between early late, past = early ++ late ∧
      Amid storage rely program state early (.done middle) between ∧
      Amid storage rely (next middle) between late (.done value) last := by
  rcases conduct.bind_cases with ⟨first, early, isDone⟩ | second
  · cases first with
    | done middle =>
        have isNext : next middle = .done value := isDone.symm
        exact ⟨middle, last, past, [], (List.append_nil past).symm, early, isNext ▸ .here _ _⟩
    | raise error => cases isDone
    | perform command next => cases isDone
  · exact second

/-- Inversion of a transaction that has got past its next command. -/
theorem perform_cases {command : Command κ ω}
    {next : command.Response σ τ ι → Script σ κ ω ε τ ι α}
    (conduct : Amid storage rely (.perform command next) state past rest last) :
    (past = [] ∧ rest = .perform command next) ∨
      ∃ store answer after late, rely.moves state.held state.committed store ∧
        Answered storage command (state.withCommitted store) answer after ∧
        past = ⟨store, command, answer⟩ :: late ∧
        Amid storage rely (next answer) after late rest last := by
  generalize isWhole : (Program.perform command next : Script σ κ ω ε τ ι α) = whole at conduct
  induction conduct with
  | here program state => exact Or.inl ⟨rfl, rfl⟩
  | moved moves later inductionHypothesis =>
      rcases inductionHypothesis isWhole with same |
        ⟨store, answer, after, late, movesLater, answers, isPast, rest⟩
      · exact Or.inl same
      · exact Or.inr ⟨store, answer, after, late, rely.trans moves movesLater, answers, isPast, rest⟩
  | @answered other answer continue_ rest state after last past answers later inductionHypothesis =>
      obtain ⟨isCommand, isNext⟩ := Program.perform.inj isWhole
      subst isCommand
      rw [← eq_of_heq isNext] at later
      exact Or.inr ⟨state.committed, answer, after, past, rely.refl _ _, answers, rfl, later⟩

/-- Inversion of a single command that has been answered. -/
theorem issue_done {command : Command κ ω} {answer : command.Response σ τ ι}
    {state last : Local σ κ ω τ ι}
    (conduct : Amid storage rely (Program.issue command : Script σ κ ω ε τ ι _) state past
      (.done answer) last) :
    ∃ store after, rely.moves state.held state.committed store ∧
      Answered storage command (state.withCommitted store) answer after ∧
      rely.moves after.held after.committed last.committed ∧
      last = after.withCommitted last.committed := by
  rcases conduct.perform_cases with ⟨_, impossible⟩ |
    ⟨store, given, after, late, moves, answers, _, remaining⟩
  · cases impossible
  · obtain ⟨isNil, isDone⟩ := remaining.done_cases
    cases isDone
    subst isNil
    obtain ⟨_, later, movesLater, isLast⟩ := remaining.nil_cases
    refine ⟨store, after, moves, answers, ?_, ?_⟩
    · rw [isLast]
      exact movesLater
    · rw [isLast]
      rfl

end Amid

/-! ## Contracts along the way -/

section Contracts

variable {storage : Storage σ κ ω ε} {rely : Rely κ σ}
variable {program rest : Script σ κ ω ε τ ι α} {state last : Local σ κ ω τ ι}
variable {past : List (Interaction σ κ ω τ ι)}
variable {returns : α → Local σ κ ω τ ι → Prop} {raises : ε → Local σ κ ω τ ι → Prop}

theorem Program.Answers.of_answered {command : Command κ ω} {answer : command.Response σ τ ι}
    {returns : command.Response σ τ ι → Local σ κ ω τ ι → Prop} {after : Local σ κ ω τ ι}
    (answers : Program.Answers storage raises command returns state)
    (answered : Answered storage command state answer after) : returns answer after := by
  cases answered with
  | read => exact answers
  | locked found => exact answers.1 found
  | missed missing => exact answers.2 missing
  | written attempted => exact answers.1 attempted
  | dropped attempted => exact answers.2.1 attempted
  | clock reading => exact answers reading
  | ident ident => exact answers ident

/-- A contract holds of what remains of a transaction. -/
theorem Program.Ensures.amid (conduct : Amid storage rely program state past rest last)
    (ensures : program.Ensures storage rely returns raises state) :
    rest.Ensures storage rely returns raises last := by
  induction conduct with
  | here program state => exact ensures
  | moved moves later inductionHypothesis => exact inductionHypothesis (ensures.after moves)
  | answered answers later inductionHypothesis =>
      exact inductionHypothesis (Program.Answers.of_answered (Rely.Stable.now ensures) answers)

/-- A transaction that has returned meets its postcondition. -/
theorem Program.Ensures.returned {value : α}
    (ensures : program.Ensures storage rely returns raises state)
    (conduct : Amid storage rely program state past (.done value) last) : returns value last :=
  Rely.Stable.now (ensures.amid conduct)

end Contracts

/-! ## Locks -/

/-- Every row a transaction has changed is locked. -/
def Local.Covered (storage : Storage σ κ ω ε) (state : Local σ κ ω τ ι) : Prop :=
  ∀ change ∈ state.log, ∀ key ∈ storage.touches change, key ∈ state.held

section Locks

variable {storage : Storage σ κ ω ε} {rely : Rely κ σ}
variable {program rest : Script σ κ ω ε τ ι α} {state after last : Local σ κ ω τ ι}
variable {past : List (Interaction σ κ ω τ ι)}

theorem Local.covered_start (store : σ) :
    (Local.start store : Local σ κ ω τ ι).Covered storage := by
  intro change member
  cases member

theorem Local.Covered.hold (covered : state.Covered storage) (keys : List κ) :
    (state.hold keys).Covered storage := fun change member key touched =>
  List.mem_append_right keys (covered change member key touched)

theorem Local.Covered.record (covered : state.Covered storage) {change : ω}
    (held : ∀ key ∈ storage.touches change, key ∈ state.held) :
    (state.record change).Covered storage := by
  intro other member
  rcases List.mem_append.mp member with earlier | isNew
  · exact covered other earlier
  · rw [List.mem_singleton.mp isNew]
    exact held

theorem Answered.covered {command : Command κ ω} {answer : command.Response σ τ ι}
    (answered : Answered storage command state answer after) (covered : state.Covered storage) :
    after.Covered storage := by
  cases answered with
  | locked found => exact covered.hold _
  | written attempted =>
      exact (covered.hold _).record fun key touched => List.mem_append_left _ touched
  | _ => exact covered

/-- Locks are kept until the end. -/
theorem Answered.held {command : Command κ ω} {answer : command.Response σ τ ι}
    (answered : Answered storage command state answer after) : state.held <:+ after.held := by
  cases answered with
  | locked found => exact List.suffix_append _ _
  | written attempted => exact List.suffix_append _ _
  | _ => exact List.suffix_refl _

theorem Amid.held (conduct : Amid storage rely program state past rest last) :
    state.held <:+ last.held := by
  induction conduct with
  | here program state => exact List.suffix_refl _
  | moved moves later inductionHypothesis => exact inductionHypothesis
  | answered answers later inductionHypothesis => exact answers.held.trans inductionHypothesis

/-- What neither the others nor any answer destroys lasts. -/
theorem Amid.lasts {lasting : Local σ κ ω τ ι → Prop}
    (conduct : Amid storage rely program state past rest last)
    (stable : ∀ state store, lasting state → rely.moves state.held state.committed store →
      lasting (state.withCommitted store))
    (kept : ∀ {command : Command κ ω} {answer : command.Response σ τ ι}
      {state after : Local σ κ ω τ ι}, lasting state →
        Answered storage command state answer after → lasting after)
    (initial : lasting state) : lasting last := by
  induction conduct with
  | here program state => exact initial
  | moved moves later inductionHypothesis => exact inductionHypothesis (stable _ _ initial moves)
  | answered answers later inductionHypothesis => exact inductionHypothesis (kept initial answers)

theorem Amid.covered (conduct : Amid storage rely program state past rest last)
    (covered : state.Covered storage) : last.Covered storage :=
  conduct.lasts (fun _ _ covered _ => covered) (fun covered answers => answers.covered covered)
    covered

/-- What others commit meanwhile respects the first locks. -/
theorem Amid.moves (conduct : Amid storage rely program state past rest last) :
    rely.moves state.held state.committed last.committed := by
  induction conduct with
  | here program state => exact rely.refl _ _
  | moved moves later inductionHypothesis => exact rely.trans moves inductionHypothesis
  | @answered command answer next rest state after last past answers later inductionHypothesis =>
      have committed : after.committed = state.committed := by
        cases answers <;> rfl
      rw [← committed]
      exact rely.anti answers.held.subset inductionHypothesis

end Locks

/-! ## Parts of a program -/

/-- A program goes through a list of interactions. -/
inductive Program.Follows :
    Script σ κ ω ε τ ι α → List (Interaction σ κ ω τ ι) → Script σ κ ω ε τ ι α → Prop
  | here (program : Script σ κ ω ε τ ι α) : Follows program [] program
  | answered {store : σ} {command : Command κ ω} {answer : command.Response σ τ ι}
      {next : command.Response σ τ ι → Script σ κ ω ε τ ι α} {rest : Script σ κ ω ε τ ι α}
      {past : List (Interaction σ κ ω τ ι)} (later : Follows (next answer) past rest) :
      Follows (.perform command next) (⟨store, command, answer⟩ :: past) rest

/-- The conduct of the first part of a composition. -/
theorem Amid.of_follows {storage : Storage σ κ ω ε} {rely : Rely κ σ}
    {program middle : Script σ κ ω ε τ ι β} {next : β → Script σ κ ω ε τ ι α}
    {rest : Script σ κ ω ε τ ι α} {state last : Local σ κ ω τ ι}
    {early late : List (Interaction σ κ ω τ ι)} (follows : program.Follows early middle)
    (conduct : Amid storage rely (program >>= next) state (early ++ late) rest last) :
    ∃ between, Amid storage rely program state early middle between := by
  induction follows generalizing state with
  | here program => exact ⟨state, .here _ _⟩
  | @answered met command answer continue_ middle early follows inductionHypothesis =>
      have whole : Amid storage rely (.perform command fun answer => continue_ answer >>= next)
        state (⟨met, command, answer⟩ :: (early ++ late)) rest last := conduct
      rcases whole.perform_cases with ⟨impossible, _⟩ |
        ⟨store, given, after, more, moves, answers, isPast, remaining⟩
      · cases impossible
      · obtain ⟨sameInteraction, isMore⟩ := List.cons.inj isPast
        cases sameInteraction
        subst isMore
        obtain ⟨between, rest⟩ := inductionHypothesis remaining
        exact ⟨between, .moved moves (.answered answers rest)⟩

/-! ## The commands of a program -/

/-- Every command a program can issue is allowed. -/
def Program.Issues (allowed : Command κ ω → Prop) : Script σ κ ω ε τ ι α → Prop
  | .done _ => True
  | .raise _ => True
  | .perform command next => allowed command ∧ ∀ answer, (next answer).Issues allowed

section Issues

variable {allowed : Command κ ω → Prop}

theorem Program.issues_pure (value : α) :
    (pure value : Script σ κ ω ε τ ι α).Issues allowed := trivial

theorem Program.issues_raise (error : ε) :
    (.raise error : Script σ κ ω ε τ ι α).Issues allowed := trivial

theorem Program.issues_issue {command : Command κ ω} (isAllowed : allowed command) :
    (issue command : Script σ κ ω ε τ ι (command.Response σ τ ι)).Issues allowed :=
  ⟨isAllowed, fun _ => trivial⟩

theorem Program.issues_ofExcept (outcome : Except ε α) :
    (ofExcept outcome : Script σ κ ω ε τ ι α).Issues allowed := by
  cases outcome <;> trivial

theorem Program.issues_bind {program : Script σ κ ω ε τ ι β} {next : β → Script σ κ ω ε τ ι α}
    (first : program.Issues allowed) (later : ∀ value, (next value).Issues allowed) :
    (program >>= next).Issues allowed := by
  induction program with
  | done value => exact later value
  | raise error => trivial
  | perform command rest inductionHypothesis =>
      exact ⟨first.1, fun answer => inductionHypothesis answer (first.2 answer)⟩

/-- An invariant that no other transaction and no allowed command destroys
holds along the way, and so does what it implies of the answers. -/
theorem Amid.keeps {storage : Storage σ κ ω ε} {rely : Rely κ σ}
    {program rest : Script σ κ ω ε τ ι α} {state last : Local σ κ ω τ ι}
    {past : List (Interaction σ κ ω τ ι)} {invariant : Local σ κ ω τ ι → Prop}
    {good : Interaction σ κ ω τ ι → Prop}
    (conduct : Amid storage rely program state past rest last) (issues : program.Issues allowed)
    (stable : ∀ state store, invariant state → rely.moves state.held state.committed store →
      invariant (state.withCommitted store))
    (kept : ∀ {command : Command κ ω} {answer : command.Response σ τ ι}
      {state after : Local σ κ ω τ ι}, allowed command → invariant state →
        Answered storage command state answer after →
          invariant after ∧ good ⟨state.committed, command, answer⟩)
    (initial : invariant state) : invariant last ∧ ∀ interaction ∈ past, good interaction := by
  induction conduct with
  | here program state => exact ⟨initial, by simp⟩
  | moved moves later inductionHypothesis =>
      exact inductionHypothesis issues (stable _ _ initial moves)
  | @answered command answer next rest state after last past answers later inductionHypothesis =>
      obtain ⟨now, isGood⟩ := kept issues.1 initial answers
      obtain ⟨atEnd, others⟩ := inductionHypothesis (issues.2 answer) now
      exact ⟨atEnd, List.forall_mem_cons.mpr ⟨isGood, others⟩⟩

/-- The command changes the store. -/
def Command.Writes : Command κ ω → Prop
  | .write _ => True
  | _ => False

/-- A command that writes nothing keeps the log. -/
theorem Answered.log {storage : Storage σ κ ω ε} {command : Command κ ω}
    {answer : command.Response σ τ ι} {state after : Local σ κ ω τ ι}
    (answered : Answered storage command state answer after) (reads : ¬command.Writes) :
    after.log = state.log := by
  cases answered with
  | written attempted => exact absurd trivial reads
  | _ => rfl

/-- A program that writes nothing keeps its log. -/
theorem Amid.log {storage : Storage σ κ ω ε} {rely : Rely κ σ}
    {program rest : Script σ κ ω ε τ ι α} {state last : Local σ κ ω τ ι}
    {past : List (Interaction σ κ ω τ ι)}
    (conduct : Amid storage rely program state past rest last)
    (issues : program.Issues fun command => ¬command.Writes) : last.log = state.log := by
  induction conduct with
  | here program state => rfl
  | moved moves later inductionHypothesis => exact inductionHypothesis issues
  | answered answers later inductionHypothesis =>
      rw [inductionHypothesis (issues.2 _)]
      exact answers.log issues.1

theorem Program.Issues.mono {weaker : Command κ ω → Prop} {program : Script σ κ ω ε τ ι α}
    (issues : program.Issues allowed) (implies : ∀ command, allowed command → weaker command) :
    program.Issues weaker := by
  induction program with
  | done value => trivial
  | raise error => trivial
  | perform command next inductionHypothesis =>
      exact ⟨implies _ issues.1, fun answer => inductionHypothesis answer (issues.2 answer)⟩

/-- What is true of every change a program may write stays true of its log. -/
theorem Amid.logged {storage : Storage σ κ ω ε} {rely : Rely κ σ}
    {program rest : Script σ κ ω ε τ ι α} {state last : Local σ κ ω τ ι}
    {past : List (Interaction σ κ ω τ ι)} {good : ω → Prop}
    (conduct : Amid storage rely program state past rest last)
    (issues : program.Issues fun command => ∀ change, command = .write change → good change)
    (initial : ∀ change ∈ state.log, good change) : ∀ change ∈ last.log, good change := by
  induction conduct with
  | here program state => exact initial
  | moved moves later inductionHypothesis => exact inductionHypothesis issues initial
  | @answered command answer next rest state after last past answers later inductionHypothesis =>
      refine inductionHypothesis (issues.2 answer) ?_
      cases answers with
      | written attempted =>
          intro change member
          rcases List.mem_append.mp member with earlier | isNew
          · exact initial change earlier
          · rw [List.mem_singleton.mp isNew]
            exact issues.1 _ rfl
      | _ => exact initial

end Issues

end Transaction
