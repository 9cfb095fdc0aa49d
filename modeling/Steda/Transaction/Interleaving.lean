import Steda.Transaction.Conduct
import Steda.Transaction.Trace

/-!
# Interleaved transactions

Any number of transactions run over one committed store.  A move starts a
transaction, answers the next command of one, commits one that has returned, or
undoes one.  A command that needs a row another transaction has locked waits,
unless it skips locked rows.  Unique keys that several transactions insert at
the same time are not modelled: the rows of different transactions differ in
the keys they lock.
-/

namespace Transaction

variable {σ κ ω ε τ ι α : Type}

/-- A transaction under way: the program it was started with, its interactions
so far, what remains of it, and what it knows. -/
structure Party (σ κ ω ε τ ι α : Type) where
  script : Script σ κ ω ε τ ι α
  past : List (Interaction σ κ ω τ ι)
  rest : Script σ κ ω ε τ ι α
  state : Local σ κ ω τ ι

/-- The committed store and the transactions under way, numbered in the order
they were started. -/
structure System (σ κ ω ε τ ι α : Type) where
  store : σ
  started : Nat
  party : Nat → Option (Party σ κ ω ε τ ι α)

/-- What can happen next.  A clock command is answered with the given reading
and an identifier command with the given identifier. -/
inductive Move (σ κ ω ε τ ι α : Type)
  | start (script : Script σ κ ω ε τ ι α)
  | advance (id : Nat) (reading : τ) (ident : ι)
  | commit (id : Nat)
  | abort (id : Nat)

/-- What the database does with a command. -/
inductive Reply (σ κ ω ε τ ι : Type) (command : Command κ ω)
  | given (answer : command.Response σ τ ι) (after : Local σ κ ω τ ι)
  | refused (error : ε)
  | blocked

/-- Answer a command when the keys that other transactions have not locked are
given. -/
def Storage.reply (storage : Storage σ κ ω ε) (free : κ → Bool) (reading : τ) (ident : ι) :
    (command : Command κ ω) → Local σ κ ω τ ι → Reply σ κ ω ε τ ι command
  | .read, state => .given (state.view storage) state
  | .lock key policy, state =>
      if storage.present key (state.view storage) then
        if free key then .given (some (state.view storage)) (state.hold [key])
        else if policy = .skipLocked then .given none state
        else .blocked
      else .given none state
  | .write change, state =>
      if (storage.touches change).all free then
        match storage.attempt change (state.view storage) with
        | .ok true => .given true ((state.hold (storage.touches change)).record change)
        | .ok false => .given false state
        | .error error => .refused error
      else .blocked
  | .clock, state => .given reading (state.observe reading)
  | .ident, state => .given ident (state.draw ident)

/-- A given answer is one the database may give. -/
theorem Storage.answered_of_given {storage : Storage σ κ ω ε} {free : κ → Bool} {reading : τ}
    {ident : ι} {command : Command κ ω} {answer : command.Response σ τ ι}
    {state after : Local σ κ ω τ ι}
    (given : storage.reply free reading ident command state = .given answer after) :
    Answered storage command state answer after := by
  cases command with
  | read =>
      cases given
      exact .read _
  | lock key policy =>
      simp only [reply] at given
      split at given
      · next found =>
          split at given
          · cases given
            exact .locked found
          · split at given
            · next skips =>
                cases given
                exact .missed (Or.inr skips)
            · cases given
      · next missing =>
          cases given
          exact .missed (Or.inl (by simpa using missing))
  | write change =>
      simp only [reply] at given
      split at given
      · split at given
        · next attempted =>
            cases given
            exact .written attempted
        · next attempted =>
            cases given
            exact .dropped attempted
        · cases given
      · cases given
  | clock =>
      cases given
      exact .clock _ _
  | ident =>
      cases given
      exact .ident _ _

/-- New locks are taken on free rows. -/
theorem Storage.held_of_given {storage : Storage σ κ ω ε} {free : κ → Bool} {reading : τ}
    {ident : ι} {command : Command κ ω} {answer : command.Response σ τ ι}
    {state after : Local σ κ ω τ ι}
    (given : storage.reply free reading ident command state = .given answer after) :
    ∀ key ∈ after.held, key ∈ state.held ∨ free key = true := by
  cases command with
  | lock key policy =>
      simp only [reply] at given
      split at given
      · split at given
        · next isFree =>
            cases given
            intro other member
            rcases List.mem_append.mp member with isKey | earlier
            · exact Or.inr (List.mem_singleton.mp isKey ▸ isFree)
            · exact Or.inl earlier
        · split at given
          · cases given
            exact fun _ member => Or.inl member
          · cases given
      · cases given
        exact fun _ member => Or.inl member
  | write change =>
      simp only [reply] at given
      split at given
      · next areFree =>
          split at given
          · cases given
            intro other member
            rcases List.mem_append.mp member with touched | earlier
            · exact Or.inr (List.all_eq_true.mp areFree other touched)
            · exact Or.inl earlier
          · cases given
            exact fun _ member => Or.inl member
          · cases given
      · cases given
  | _ =>
      cases given
      exact fun _ member => Or.inl member

/-- An answer does not change the committed store. -/
theorem Answered.committed {storage : Storage σ κ ω ε} {command : Command κ ω}
    {answer : command.Response σ τ ι} {state after : Local σ κ ω τ ι}
    (answered : Answered storage command state answer after) :
    after.committed = state.committed := by
  cases answered <;> rfl

namespace System

/-- Replace one transaction. -/
def put (system : System σ κ ω ε τ ι α) (id : Nat) (party : Option (Party σ κ ω ε τ ι α)) :
    System σ κ ω ε τ ι α :=
  { system with party := fun other => if other = id then party else system.party other }

/-- No other transaction has locked the key. -/
def free [DecidableEq κ] (system : System σ κ ω ε τ ι α) (id : Nat) (key : κ) : Bool :=
  (List.range system.started).all fun other =>
    other == id ||
      match system.party other with
      | none => true
      | some party => !party.state.held.contains key

/-- Commit a new store and show it to the other transactions. -/
def commit (system : System σ κ ω ε τ ι α) (id : Nat) (store : σ) : System σ κ ω ε τ ι α where
  store := store
  started := system.started
  party := fun other =>
    if other = id then none
    else (system.party other).map fun party =>
      { party with state := party.state.withCommitted store }

/-- The system after a move that is possible. -/
def step [DecidableEq κ] (storage : Storage σ κ ω ε) :
    Move σ κ ω ε τ ι α → System σ κ ω ε τ ι α → Option (System σ κ ω ε τ ι α)
  | .start script, system =>
      some { (system.put system.started (some
              { script, past := [], rest := script, state := Local.start system.store })) with
             started := system.started + 1 }
  | .advance id reading ident, system =>
      match system.party id with
      | none => none
      | some party =>
          match party.rest with
          | .perform command next =>
              match storage.reply (system.free id) reading ident command party.state with
              | .given answer after =>
                  some (system.put id (some
                    { party with
                      past := party.past ++ [⟨party.state.committed, command, answer⟩]
                      rest := next answer
                      state := after }))
              | .refused _ => some (system.put id none)
              | .blocked => none
          | _ => none
  | .commit id, system =>
      match system.party id with
      | none => none
      | some party =>
          match party.rest with
          | .done _ =>
              match storage.deferred (party.state.view storage) with
              | .ok () => some (system.commit id (party.state.view storage))
              | .error _ => some (system.put id none)
          | .raise _ => some (system.put id none)
          | .perform _ _ => none
  | .abort id, system => some (system.put id none)

/-- The system after several moves, if all of them are possible. -/
def moves [DecidableEq κ] (storage : Storage σ κ ω ε) :
    List (Move σ κ ω ε τ ι α) → System σ κ ω ε τ ι α → Option (System σ κ ω ε τ ι α)
  | [], system => some system
  | move :: rest, system => (system.step storage move).bind (moves storage rest)

/-- A store without transactions under way. -/
def idle (store : σ) : System σ κ ω ε τ ι α where
  store := store
  started := 0
  party := fun _ => none

/-- A possible move is a step of the labelled transition system. -/
def Steps [DecidableEq κ] (storage : Storage σ κ ω ε) (system : System σ κ ω ε τ ι α)
    (move : Move σ κ ω ε τ ι α) (after : System σ κ ω ε τ ι α) : Prop :=
  system.step storage move = some after

theorem trace_moves [DecidableEq κ] {storage : Storage σ κ ω ε}
    {labels : List (Move σ κ ω ε τ ι α)} {system after : System σ κ ω ε τ ι α}
    (moved : system.moves storage labels = some after) :
    Trace (Steps storage) system labels after := by
  induction labels generalizing system with
  | nil =>
      cases moved
      exact .nil _
  | cons move rest inductionHypothesis =>
      obtain ⟨middle, stepped, later⟩ := Option.bind_eq_some_iff.mp moved
      exact .cons stepped (inductionHypothesis later)

end System

/-! ## Coherence -/

/-- The programs that may be started, and what each of them and its commits keep
to: a condition on committed stores, and the rely of the others. -/
structure Discipline (storage : Storage σ κ ω ε) (rely : Rely κ σ)
    (allowed : Script σ κ ω ε τ ι α → Prop) (holds : σ → Prop) : Prop where
  commits : ∀ {script : Script σ κ ω ε τ ι α} {start : σ} {past : List (Interaction σ κ ω τ ι)}
    {value : α} {state : Local σ κ ω τ ι}, allowed script → holds start →
      Amid storage rely script (Local.start start) past (.done value) state →
        state.Covered storage → holds state.committed →
          holds (state.view storage) ∧
            ∀ held, (∀ key ∈ held, key ∉ state.held) →
              rely.moves held state.committed (state.view storage)

/-- The invariant of interleaved transactions: each of them has been conducted
amid permitted commits of the others, and no row is locked twice. -/
structure System.Coherent (storage : Storage σ κ ω ε) (rely : Rely κ σ)
    (allowed : Script σ κ ω ε τ ι α → Prop) (holds : σ → Prop)
    (system : System σ κ ω ε τ ι α) : Prop where
  store : holds system.store
  bounded : ∀ id party, system.party id = some party → id < system.started
  exclusive : ∀ first second one other, first ≠ second → system.party first = some one →
    system.party second = some other → ∀ key ∈ one.state.held, key ∉ other.state.held
  current : ∀ id party, system.party id = some party → party.state.committed = system.store
  allowed : ∀ id party, system.party id = some party → allowed party.script
  conduct : ∀ id party, system.party id = some party → ∃ start, holds start ∧
    Amid storage rely party.script (Local.start start) party.past party.rest party.state

namespace System

variable {storage : Storage σ κ ω ε} {rely : Rely κ σ}
variable {allowed : Script σ κ ω ε τ ι α → Prop} {holds : σ → Prop}
variable {system after : System σ κ ω ε τ ι α} {id : Nat} {party : Party σ κ ω ε τ ι α}

theorem coherent_idle {store : σ} (initial : holds store) :
    (idle store : System σ κ ω ε τ ι α).Coherent storage rely allowed holds where
  store := initial
  bounded := fun _ _ impossible => nomatch impossible
  exclusive := fun _ _ _ _ _ impossible => nomatch impossible
  current := fun _ _ impossible => nomatch impossible
  allowed := fun _ _ impossible => nomatch impossible
  conduct := fun _ _ impossible => nomatch impossible

/-- Other transactions lock nothing that is free. -/
theorem not_held_of_free [DecidableEq κ] {other : Nat} {otherParty : Party σ κ ω ε τ ι α} {key : κ}
    (isFree : system.free id key = true) (different : other ≠ id) (bounded : other < system.started)
    (present : system.party other = some otherParty) : key ∉ otherParty.state.held := by
  have unlocked := List.all_eq_true.mp isFree other (List.mem_range.mpr bounded)
  rw [present] at unlocked
  simpa [different] using unlocked

/-- A transaction is undone. -/
theorem Coherent.remove (coherent : system.Coherent storage rely allowed holds) (id : Nat) :
    (system.put id none).Coherent storage rely allowed holds := by
  have kept : ∀ {other otherParty}, (system.put id none).party other = some otherParty →
      system.party other = some otherParty := by
    intro other otherParty present
    by_cases same : other = id
    · simp only [put, same, if_true] at present
      cases present
    · simpa only [put, same, if_false] using present
  exact ⟨coherent.store, fun _ _ present => coherent.bounded _ _ (kept present),
    fun _ _ _ _ different first second => coherent.exclusive _ _ _ _ different (kept first)
      (kept second),
    fun _ _ present => coherent.current _ _ (kept present),
    fun _ _ present => coherent.allowed _ _ (kept present),
    fun _ _ present => coherent.conduct _ _ (kept present)⟩

/-- A transaction goes on with rows that no other has locked. -/
theorem Coherent.replace (coherent : system.Coherent storage rely allowed holds)
    (present : system.party id = some party) {next : Party σ κ ω ε τ ι α}
    (sameScript : next.script = party.script)
    (committed : next.state.committed = party.state.committed)
    (locks : ∀ key ∈ next.state.held, key ∈ party.state.held ∨
      ∀ other otherParty, other ≠ id → system.party other = some otherParty →
        key ∉ otherParty.state.held)
    (conduct : ∃ start, holds start ∧
      Amid storage rely next.script (Local.start start) next.past next.rest next.state) :
    (system.put id (some next)).Coherent storage rely allowed holds := by
  have kept : ∀ {other otherParty}, (system.put id (some next)).party other = some otherParty →
      (other = id ∧ otherParty = next) ∨
        (other ≠ id ∧ system.party other = some otherParty) := by
    intro other otherParty found
    by_cases same : other = id
    · simp only [put, same, if_true] at found
      exact Or.inl ⟨same, (Option.some.inj found).symm⟩
    · simp only [put, same, if_false] at found
      exact Or.inr ⟨same, found⟩
  have apart : ∀ {other otherParty}, other ≠ id → system.party other = some otherParty →
      ∀ key ∈ next.state.held, key ∉ otherParty.state.held := by
    intro other otherParty different found key isHeld
    rcases locks key isHeld with earlier | isFree
    · exact coherent.exclusive _ _ _ _ (Ne.symm different) present found key earlier
    · exact isFree other otherParty different found
  refine ⟨coherent.store, ?_, ?_, ?_, ?_, ?_⟩
  · intro other otherParty found
    rcases kept found with ⟨isId, _⟩ | ⟨_, earlier⟩
    · exact isId ▸ coherent.bounded id party present
    · exact coherent.bounded other otherParty earlier
  · intro first second one other different isFirst isSecond key isHeld
    rcases kept isFirst with ⟨firstId, isNext⟩ | ⟨notFirst, firstEarlier⟩
    · rcases kept isSecond with ⟨secondId, _⟩ | ⟨notSecond, secondEarlier⟩
      · exact absurd (firstId.trans secondId.symm) different
      · subst isNext
        exact apart notSecond secondEarlier key isHeld
    · rcases kept isSecond with ⟨_, isNext⟩ | ⟨_, secondEarlier⟩
      · subst isNext
        exact fun taken => apart notFirst firstEarlier key taken isHeld
      · exact coherent.exclusive _ _ _ _ different firstEarlier secondEarlier key isHeld
  · intro other otherParty found
    rcases kept found with ⟨_, isNext⟩ | ⟨_, earlier⟩
    · rw [isNext, committed]
      exact coherent.current id party present
    · exact coherent.current other otherParty earlier
  · intro other otherParty found
    rcases kept found with ⟨_, isNext⟩ | ⟨_, earlier⟩
    · rw [isNext, sameScript]
      exact coherent.allowed id party present
    · exact coherent.allowed other otherParty earlier
  · intro other otherParty found
    rcases kept found with ⟨_, isNext⟩ | ⟨_, earlier⟩
    · exact isNext ▸ conduct
    · exact coherent.conduct other otherParty earlier

/-- A transaction is started. -/
theorem Coherent.start [DecidableEq κ] (coherent : system.Coherent storage rely allowed holds)
    {script : Script σ κ ω ε τ ι α} (isAllowed : allowed script)
    (stepped : system.step storage (.start script) = some after) :
    after.Coherent storage rely allowed holds := by
  cases stepped
  have kept : ∀ {other otherParty}, (system.put system.started (some
      { script, past := [], rest := script, state := Local.start system.store })).party other =
        some otherParty →
      (other = system.started ∧ otherParty =
        { script, past := [], rest := script, state := Local.start system.store }) ∨
      system.party other = some otherParty := by
    intro other otherParty found
    by_cases same : other = system.started
    · simp only [put, same, if_true] at found
      exact Or.inl ⟨same, (Option.some.inj found).symm⟩
    · simp only [put, same, if_false] at found
      exact Or.inr found
  refine ⟨coherent.store, ?_, ?_, ?_, ?_, ?_⟩
  · intro other otherParty found
    change other < system.started + 1
    rcases kept found with ⟨isNew, _⟩ | earlier
    · omega
    · have bound := coherent.bounded other otherParty earlier
      omega
  · intro first second one other different isFirst isSecond key isHeld
    rcases kept isFirst with ⟨_, isNew⟩ | firstEarlier
    · rw [isNew] at isHeld
      cases isHeld
    · rcases kept isSecond with ⟨_, isNew⟩ | secondEarlier
      · rw [isNew]
        exact List.not_mem_nil
      · exact coherent.exclusive _ _ _ _ different firstEarlier secondEarlier key isHeld
  · intro other otherParty found
    rcases kept found with ⟨_, isNew⟩ | earlier
    · rw [isNew]
      rfl
    · exact coherent.current other otherParty earlier
  · intro other otherParty found
    rcases kept found with ⟨_, isNew⟩ | earlier
    · rw [isNew]
      exact isAllowed
    · exact coherent.allowed other otherParty earlier
  · intro other otherParty found
    rcases kept found with ⟨_, isNew⟩ | earlier
    · rw [isNew]
      exact ⟨system.store, coherent.store, .here _ _⟩
    · exact coherent.conduct other otherParty earlier

/-- What a transaction that has returned commits. -/
theorem Coherent.commits (coherent : system.Coherent storage rely allowed holds)
    (discipline : Discipline storage rely allowed holds)
    (present : system.party id = some party) {value : α} (returned : party.rest = .done value) :
    holds (party.state.view storage) ∧
      ∀ held, (∀ key ∈ held, key ∉ party.state.held) →
        rely.moves held system.store (party.state.view storage) := by
  obtain ⟨start, initial, conduct⟩ := coherent.conduct id party present
  rw [returned] at conduct
  have current := coherent.current id party present
  have committed := discipline.commits (coherent.allowed id party present) initial conduct
    (conduct.covered (Local.covered_start start)) (current.symm ▸ coherent.store)
  rwa [current] at committed

/-- A transaction that has returned commits. -/
theorem Coherent.commit (coherent : system.Coherent storage rely allowed holds)
    (discipline : Discipline storage rely allowed holds)
    (present : system.party id = some party) {value : α} (returned : party.rest = .done value) :
    (system.commit id (party.state.view storage)).Coherent storage rely allowed holds := by
  obtain ⟨newHolds, newMoves⟩ := coherent.commits discipline present returned
  have kept : ∀ {other otherParty},
      (system.commit id (party.state.view storage)).party other = some otherParty →
        other ≠ id ∧ ∃ earlier, system.party other = some earlier ∧ otherParty =
          { earlier with state := earlier.state.withCommitted (party.state.view storage) } := by
    intro other otherParty found
    unfold System.commit at found
    by_cases same : other = id
    · simp only [same, if_true] at found
      cases found
    · simp only [same, if_false] at found
      obtain ⟨earlier, isEarlier, isParty⟩ := Option.map_eq_some_iff.mp found
      exact ⟨same, earlier, isEarlier, isParty.symm⟩
  refine ⟨newHolds, ?_, ?_, ?_, ?_, ?_⟩
  · intro other otherParty found
    obtain ⟨_, earlier, isEarlier, _⟩ := kept found
    exact coherent.bounded other earlier isEarlier
  · intro first second one other different isFirst isSecond key isHeld
    obtain ⟨_, oneEarlier, firstEarlier, isOne⟩ := kept isFirst
    obtain ⟨_, otherEarlier, secondEarlier, isOther⟩ := kept isSecond
    subst isOne isOther
    exact coherent.exclusive _ _ _ _ different firstEarlier secondEarlier key isHeld
  · intro other otherParty found
    obtain ⟨_, earlier, _, isParty⟩ := kept found
    rw [isParty]
    rfl
  · intro other otherParty found
    obtain ⟨_, earlier, isEarlier, isParty⟩ := kept found
    rw [isParty]
    exact coherent.allowed other earlier isEarlier
  · intro other otherParty found
    obtain ⟨different, earlier, isEarlier, isParty⟩ := kept found
    obtain ⟨start, initial, conduct⟩ := coherent.conduct other earlier isEarlier
    rw [isParty]
    refine ⟨start, initial, conduct.move ?_⟩
    rw [coherent.current other earlier isEarlier]
    exact newMoves _ fun key isHeld =>
      coherent.exclusive _ _ _ _ different isEarlier present key isHeld

/-- Every possible move keeps the invariant. -/
theorem Coherent.step [DecidableEq κ] {move : Move σ κ ω ε τ ι α}
    (coherent : system.Coherent storage rely allowed holds)
    (discipline : Discipline storage rely allowed holds)
    (starts : ∀ script, move = .start script → allowed script)
    (stepped : system.step storage move = some after) :
    after.Coherent storage rely allowed holds := by
  cases move with
  | start script => exact coherent.start (starts script rfl) stepped
  | abort id =>
      cases stepped
      exact coherent.remove id
  | commit id =>
      simp only [System.step] at stepped
      split at stepped
      · cases stepped
      · next party present =>
          split at stepped
          · next value returned =>
              split at stepped
              · cases stepped
                exact coherent.commit discipline present returned
              · cases stepped
                exact coherent.remove id
          · cases stepped
            exact coherent.remove id
          · cases stepped
  | advance id reading ident =>
      simp only [System.step] at stepped
      split at stepped
      · cases stepped
      · next party present =>
          split at stepped
          · next command next isRest =>
              split at stepped
              · next answer state given =>
                  cases stepped
                  have answered := Storage.answered_of_given given
                  refine coherent.replace present rfl answered.committed ?_ ?_
                  · intro key isHeld
                    refine (Storage.held_of_given given key isHeld).imp_right ?_
                    intro isFree other otherParty different found
                    exact not_held_of_free isFree different
                      (coherent.bounded other otherParty found) found
                  · obtain ⟨start, initial, conduct⟩ := coherent.conduct id party present
                    rw [isRest] at conduct
                    exact ⟨start, initial, conduct.answer answered⟩
              · cases stepped
                exact coherent.remove id
              · cases stepped
          · cases stepped

/-- Every run of allowed transactions keeps the invariant. -/
theorem Coherent.run [DecidableEq κ] {labels : List (Move σ κ ω ε τ ι α)}
    (coherent : system.Coherent storage rely allowed holds)
    (discipline : Discipline storage rely allowed holds)
    (starts : ∀ script, .start script ∈ labels → allowed script)
    (trace : Trace (Steps storage) system labels after) :
    after.Coherent storage rely allowed holds := by
  induction trace with
  | nil system => exact coherent
  | @cons first middle last label labels head rest inductionHypothesis =>
      have next := coherent.step discipline (fun script isStart => starts script (by simp [isStart]))
        head
      exact inductionHypothesis next fun script member =>
        starts script (List.mem_cons_of_mem _ member)

/-- A transaction that has returned and meets the deferred constraints commits
its view. -/
theorem step_commit [DecidableEq κ] {value : α} (present : system.party id = some party)
    (returned : party.rest = .done value)
    (deferred : storage.deferred (party.state.view storage) = .ok ())
    (stepped : system.step storage (.commit id) = some after) :
    after.store = party.state.view storage := by
  simp only [System.step, present, returned, deferred] at stepped
  cases stepped
  rfl

/-- A possible move changes the committed store as the others may rely on. -/
theorem Coherent.store_step [DecidableEq κ] {move : Move σ κ ω ε τ ι α}
    (coherent : system.Coherent storage rely allowed holds)
    (discipline : Discipline storage rely allowed holds)
    (stepped : system.step storage move = some after) :
    rely.moves [] system.store after.store := by
  have unmoved : after.store = system.store → rely.moves [] system.store after.store := by
    intro same
    rw [same]
    exact rely.refl _ _
  cases move with
  | start script =>
      cases stepped
      exact unmoved rfl
  | abort id =>
      cases stepped
      exact unmoved rfl
  | advance id reading ident =>
      apply unmoved
      simp only [System.step] at stepped
      split at stepped
      · cases stepped
      · split at stepped
        · split at stepped
          · cases stepped
            rfl
          · cases stepped
            rfl
          · cases stepped
        · cases stepped
  | commit id =>
      simp only [System.step] at stepped
      split at stepped
      · cases stepped
      · next party present =>
          split at stepped
          · next value returned =>
              split at stepped
              · cases stepped
                exact (coherent.commits discipline present returned).2 [] (by simp)
              · cases stepped
                exact unmoved rfl
          · cases stepped
            exact unmoved rfl
          · cases stepped

/-- A run of allowed transactions changes the committed store as the others may
rely on. -/
theorem Coherent.store_run [DecidableEq κ] {labels : List (Move σ κ ω ε τ ι α)}
    (coherent : system.Coherent storage rely allowed holds)
    (discipline : Discipline storage rely allowed holds)
    (starts : ∀ script, .start script ∈ labels → allowed script)
    (trace : Trace (Steps storage) system labels after) :
    rely.moves [] system.store after.store := by
  induction trace with
  | nil system => exact rely.refl _ _
  | @cons first middle last label labels head rest inductionHypothesis =>
      have next := coherent.step discipline (fun script isStart => starts script (by simp [isStart]))
        head
      exact rely.trans (coherent.store_step discipline head)
        (inductionHypothesis next fun script member => starts script (List.mem_cons_of_mem _ member))

end System

end Transaction
