import Mathlib.Data.List.Basic

/-!
# Traces of a labelled transition system

A trace is a finite sequence of labelled steps.  It can be cut at any position,
an invariant kept by every step holds along it, and a relation kept by every
step relates its ends.
-/

namespace Transaction

/-- A finite sequence of labelled steps from one state to another. -/
inductive Trace {σ ℓ : Type} (step : σ → ℓ → σ → Prop) : σ → List ℓ → σ → Prop
  | nil (state : σ) : Trace step state [] state
  | cons {first middle last : σ} {label : ℓ} {labels : List ℓ}
      (head : step first label middle) (rest : Trace step middle labels last) :
      Trace step first (label :: labels) last

namespace Trace

variable {σ ℓ : Type} {step : σ → ℓ → σ → Prop} {first middle last : σ} {labels more : List ℓ}

theorem append (early : Trace step first labels middle) (late : Trace step middle more last) :
    Trace step first (labels ++ more) last := by
  induction early with
  | nil state => exact late
  | cons head rest inductionHypothesis => exact .cons head (inductionHypothesis late)

/-- A trace can be cut between any two labels. -/
theorem append_iff :
    Trace step first (labels ++ more) last ↔
      ∃ middle, Trace step first labels middle ∧ Trace step middle more last := by
  constructor
  · intro whole
    induction labels generalizing first with
    | nil => exact ⟨first, .nil first, whole⟩
    | cons label rest inductionHypothesis =>
        cases whole with
        | cons head tail =>
            obtain ⟨middle, early, late⟩ := inductionHypothesis tail
            exact ⟨middle, .cons head early, late⟩
  · rintro ⟨middle, early, late⟩
    exact early.append late

theorem cons_iff {label : ℓ} :
    Trace step first (label :: labels) last ↔
      ∃ middle, step first label middle ∧ Trace step middle labels last := by
  constructor
  · intro whole
    cases whole with
    | cons head tail => exact ⟨_, head, tail⟩
  · rintro ⟨middle, head, tail⟩
    exact .cons head tail

/-- The step at a position of a trace. -/
theorem at_label {label : ℓ} {labelsBefore labelsAfter : List ℓ}
    (whole : Trace step first (labelsBefore ++ label :: labelsAfter) last) :
    ∃ source target, Trace step first labelsBefore source ∧ step source label target ∧
      Trace step target labelsAfter last := by
  obtain ⟨source, early, late⟩ := append_iff.mp whole
  obtain ⟨target, head, tail⟩ := cons_iff.mp late
  exact ⟨source, target, early, head, tail⟩

/-- An invariant kept by every step holds at the end of a trace. -/
theorem invariant {holds : σ → Prop} (whole : Trace step first labels last)
    (kept : ∀ source label target, step source label target → holds source → holds target)
    (initial : holds first) : holds last := by
  induction whole with
  | nil state => exact initial
  | cons head rest inductionHypothesis =>
      exact inductionHypothesis (kept _ _ _ head initial)

/-- An invariant that also speaks of the labels so far. -/
theorem invariant_labels {holds : List ℓ → σ → Prop} (whole : Trace step first labels last)
    (kept : ∀ past source label target, step source label target → holds past source →
      holds (past ++ [label]) target)
    (initial : holds [] first) : holds labels last := by
  have general : ∀ past, holds past first → holds (past ++ labels) last := by
    clear initial
    induction whole with
    | nil state =>
        intro past now
        rw [List.append_nil]
        exact now
    | cons head rest inductionHypothesis =>
        intro past now
        have next := inductionHypothesis _ (kept past _ _ _ head now)
        rwa [List.append_assoc] at next
  exact general [] initial

/-- A reflexive and transitive relation kept by every step relates the ends. -/
theorem related {relation : σ → σ → Prop} (whole : Trace step first labels last)
    (reflexive : ∀ state, relation state state)
    (transitive : ∀ {a b c}, relation a b → relation b c → relation a c)
    (kept : ∀ source label target, label ∈ labels → step source label target →
      relation source target) : relation first last := by
  induction whole with
  | nil state => exact reflexive state
  | cons head rest inductionHypothesis =>
      refine transitive (kept _ _ _ List.mem_cons_self head) (inductionHypothesis ?_)
      exact fun source label target member => kept source label target
        (List.mem_cons_of_mem _ member)

/-- What every step takes out of a stock or puts into it balances along a
trace. -/
theorem conserved {α : Type} (stock : σ → List α) (taken given : ℓ → List α)
    (whole : Trace step first labels last)
    (balanced : ∀ source label target, label ∈ labels → step source label target →
      (taken label ++ stock target).Perm (stock source ++ given label)) :
    (labels.flatMap taken ++ stock last).Perm (stock first ++ labels.flatMap given) := by
  induction whole with
  | nil state => rw [List.flatMap_nil, List.flatMap_nil, List.nil_append, List.append_nil]
  | @cons first middle last label labels head rest inductionHypothesis =>
      have now := balanced _ _ _ List.mem_cons_self head
      have later := inductionHypothesis fun source label target member =>
        balanced source label target (List.mem_cons_of_mem _ member)
      rw [List.flatMap_cons, List.flatMap_cons, List.append_assoc, ← List.append_assoc (stock first)]
      refine (later.append_left _).trans ?_
      rw [← List.append_assoc]
      exact now.append_right _

/-- A condition that a step brings about exactly when its label marks it holds
at the end of a trace exactly when some label marks it. -/
theorem recorded (holds : σ → Prop) (marks : ℓ → Prop) (whole : Trace step first labels last)
    (kept : ∀ source label target, label ∈ labels → step source label target →
      (holds target ↔ holds source ∨ marks label)) :
    holds last ↔ holds first ∨ ∃ label ∈ labels, marks label := by
  induction whole with
  | nil state => simp only [List.not_mem_nil, false_and, exists_false, or_false]
  | cons head rest inductionHypothesis =>
      rw [inductionHypothesis fun source label target member =>
          kept source label target (List.mem_cons_of_mem _ member),
        kept _ _ _ List.mem_cons_self head, List.exists_mem_cons_iff, or_assoc]

/-- A trace of steps that all meet a condition is a trace. -/
theorem mono {stronger : σ → ℓ → σ → Prop} (whole : Trace stronger first labels last)
    (implies : ∀ source label target, stronger source label target → step source label target) :
    Trace step first labels last := by
  induction whole with
  | nil state => exact .nil state
  | cons head rest inductionHypothesis => exact .cons (implies _ _ _ head) inductionHypothesis

/-- The steps of a trace all meet a condition, or one of them does not. -/
theorem all_or_one (good : σ → σ → Prop) (whole : Trace step first labels last) :
    Trace (fun source label target => step source label target ∧ good source target)
        first labels last ∨
      ∃ early label late source target, labels = early ++ label :: late ∧
        Trace step first early source ∧ step source label target ∧ ¬good source target ∧
          Trace step target late last := by
  induction whole with
  | nil state => exact Or.inl (.nil state)
  | @cons first middle last label labels head rest inductionHypothesis =>
      by_cases isGood : good first middle
      · rcases inductionHypothesis with all | ⟨early, bad, late, source, target, isLabels, before,
          stepped, notGood, after⟩
        · exact Or.inl (.cons ⟨head, isGood⟩ all)
        · subst isLabels
          exact Or.inr ⟨label :: early, bad, late, source, target, rfl, .cons head before, stepped,
            notGood, after⟩
      · exact Or.inr ⟨[], label, labels, first, middle, rfl, .nil first, head, isGood, rest⟩

/-- Deterministic steps lead to one state. -/
theorem unique (deterministic : ∀ {source label target other}, step source label target →
      step source label other → target = other)
    (whole : Trace step first labels last) {other : σ} (again : Trace step first labels other) :
    last = other := by
  induction whole with
  | nil state =>
      cases again
      rfl
  | cons head rest inductionHypothesis =>
      obtain ⟨middle, headAgain, restAgain⟩ := cons_iff.mp again
      obtain rfl := deterministic head headAgain
      exact inductionHypothesis restAgain

/-- A part of the state that takes at most one step of its own in each step goes
through the selected labels. -/
theorem project {σ' ℓ' : Type} {part : σ' → ℓ' → σ' → Prop} (view : σ → σ')
    (select : ℓ → Option ℓ') (whole : Trace step first labels last)
    (steps : ∀ source label target, step source label target →
      Trace part (view source) (select label).toList (view target)) :
    Trace part (view first) (labels.filterMap select) (view last) := by
  induction whole with
  | nil state => exact .nil _
  | @cons first middle last label labels head rest inductionHypothesis =>
      have joined := (steps _ _ _ head).append inductionHypothesis
      cases chosen : select label with
      | none =>
          rw [List.filterMap_cons_none chosen]
          rwa [chosen] at joined
      | some value =>
          rw [List.filterMap_cons_some chosen]
          rwa [chosen] at joined

end Trace

/-! ## Moments -/

/-- A step of a trace, with what led to it and what follows it. -/
structure Moment {σ ℓ : Type} (step : σ → ℓ → σ → Prop) (first : σ) (labels : List ℓ) (last : σ)
    (past : List ℓ) (label : ℓ) (future : List ℓ) (source target : σ) : Prop where
  split : labels = past ++ label :: future
  early : Trace step first past source
  steps : step source label target
  late : Trace step target future last

namespace Moment

variable {σ ℓ : Type} {step : σ → ℓ → σ → Prop} {first last : σ} {labels past future : List ℓ}
  {label : ℓ} {source target : σ}

/-- The last step of a trace. -/
theorem now (early : Trace step first past source) (steps : step source label target) :
    Moment step first (past ++ [label]) target past label [] source target :=
  ⟨rfl, early, steps, .nil target⟩

/-- A moment stays one when the trace goes on. -/
theorem snoc (moment : Moment step first labels last past label future source target) {more : ℓ}
    {next : σ} (steps : step last more next) :
    Moment step first (labels ++ [more]) next past label (future ++ [more]) source target where
  split := by rw [moment.split, List.append_assoc, List.cons_append]
  early := moment.early
  steps := moment.steps
  late := moment.late.append (.cons steps (.nil next))

end Moment

/-- A trace passes a state with a property. -/
def Passes {σ ℓ : Type} (step : σ → ℓ → σ → Prop) (first : σ) (labels : List ℓ) (last : σ)
    (holds : σ → Prop) : Prop :=
  ∃ early late middle, labels = early ++ late ∧ Trace step first early middle ∧
    Trace step middle late last ∧ holds middle

namespace Passes

variable {σ ℓ : Type} {step : σ → ℓ → σ → Prop} {first last : σ} {labels : List ℓ}
  {holds : σ → Prop}

/-- A trace passes its last state. -/
theorem now (whole : Trace step first labels last) (present : holds last) :
    Passes step first labels last holds :=
  ⟨labels, [], last, (List.append_nil labels).symm, whole, .nil last, present⟩

/-- A trace that goes on still passes the state. -/
theorem snoc (passes : Passes step first labels last holds) {label : ℓ} {next : σ}
    (steps : step last label next) : Passes step first (labels ++ [label]) next holds := by
  obtain ⟨early, late, middle, split, toMiddle, toLast, present⟩ := passes
  refine ⟨early, late ++ [label], middle, ?_, toMiddle, toLast.append (.cons steps (.nil next)),
    present⟩
  rw [split, List.append_assoc]

end Passes

end Transaction
