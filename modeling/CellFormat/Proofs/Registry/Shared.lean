import CellFormat.Format
import CellFormat.Proofs.Registry.FirstOccurrences
import CellFormat.Registry.Shared
/-!
# Shared registries as one registry for each origin

A handle goes back, through the handles that it was cloned from, to one that came with a new registry, its origin.
Handles of one origin act as a single registry in which the values of all their registrations were registered in
turn, and a snapshot as a registry that starts from those so far. Nothing else reaches either of them.
-/

namespace CellFormat

namespace SharedRegistries

variable {α : Type}

/-! ### Steps -/

/-- What is done with shared registries. -/
inductive Step (α : Type) where
  | clone (handle : Nat)
  | fresh
  | register (handle : Nat) (a : α)
  | snapshot (handle : Nat)
  | registerSnapshot (number : Nat) (a : α)

namespace Step

/-- Whether the handle or snapshot that a step names is among those that there are. -/
def Names (handles snapshots : Nat) : Step α → Prop
  | clone handle | register handle _ | snapshot handle => handle < handles
  | fresh => True
  | registerSnapshot number _ => number < snapshots

/-- The origins of all handles after a step, from those before it. -/
def originsAfter (origins : List Nat) : Step α → List Nat
  | clone handle => origins ++ origins[handle]?.toList
  | fresh => origins ++ [origins.length]
  | register .. | snapshot _ | registerSnapshot .. => origins

/-- What a step registers through a handle of this origin. -/
def registered (origins : List Nat) (origin : Nat) : Step α → List α
  | register handle a => if origins[handle]? = some origin then [a] else []
  | clone _ | fresh | snapshot _ | registerSnapshot .. => []

/-- What a step registers in this snapshot. -/
def registeredIn (number : Nat) : Step α → List α
  | registerSnapshot other a => if other = number then [a] else []
  | clone _ | fresh | register .. | snapshot _ => []

def isSnapshot : Step α → Bool
  | snapshot _ => true
  | clone _ | fresh | register .. | registerSnapshot .. => false

theorem getElem?_originsAfter {known : List Nat} {handle origin : Nat} (h : known[handle]? = some origin)
    (step : Step α) : (step.originsAfter known)[handle]? = some origin := by
  have hbound := (List.getElem?_eq_some_iff.1 h).1
  cases step with
  | clone other => exact (List.getElem?_append_left hbound).trans h
  | fresh => exact (List.getElem?_append_left hbound).trans h
  | _ => exact h

end Step

/-- The origins of all handles after a run. At first there is one handle, which is its own origin. -/
def origins (steps : List (Step α)) : List Nat := steps.foldl Step.originsAfter [0]

/-- The registrations through handles of an origin, in order, when a run starts with handles of these origins. -/
def registrationsFrom (origins : List Nat) (origin : Nat) : List (Step α) → List α
  | [] => []
  | step :: steps => step.registered origins origin ++ registrationsFrom (step.originsAfter origins) origin steps

def registrations (origin : Nat) (steps : List (Step α)) : List α := registrationsFrom [0] origin steps

/-- The registrations in a snapshot, in order. -/
def registrationsIn (number : Nat) (steps : List (Step α)) : List α := steps.flatMap (Step.registeredIn number)

def snapshotCount (steps : List (Step α)) : Nat := steps.countP Step.isSnapshot

/-! ### Runs -/

variable [DecidableEq α]

/-- The answer to a step, which is the number of what is new or an index, and the registries after it. -/
def Step.run? (s : SharedRegistries α) : Step α → Option (Nat × SharedRegistries α)
  | clone handle => s.clone? handle
  | fresh => some s.fresh
  | register handle a => s.register? handle a
  | snapshot handle => s.snapshot? handle
  | registerSnapshot number a => s.registerSnapshot? number a

/-- The answers to all steps, and the registries after them. -/
def run? (s : SharedRegistries α) : List (Step α) → Option (List Nat × SharedRegistries α)
  | [] => some ([], s)
  | step :: steps => do
    let (answer, s) ← step.run? s
    let (answers, s) ← run? s steps
    return (answer :: answers, s)

variable {s t : SharedRegistries α} {answer handle number : Nat} {a : α}

theorem run?_cons_eq_some_iff {step : Step α} {steps : List (Step α)} {answers : List Nat} :
    run? s (step :: steps) = some (answers, t)
      ↔ ∃ answer between others, step.run? s = some (answer, between) ∧ run? between steps = some (others, t)
        ∧ answers = answer :: others := by
  simp only [run?, Option.bind_eq_bind, Option.bind_eq_some_iff, Prod.exists, Option.pure_def, Option.some.injEq,
    Prod.mk.injEq]
  constructor
  · rintro ⟨answer, between, hstep, others, _, hsteps, rfl, rfl⟩
    exact ⟨answer, between, others, hstep, hsteps, rfl⟩
  · rintro ⟨answer, between, others, hstep, hsteps, rfl⟩
    exact ⟨answer, between, hstep, others, t, hsteps, rfl, rfl⟩

theorem run?_append {before behind : List (Step α)} {answers : List Nat}
    (h : run? s (before ++ behind) = some (answers, t)) :
    ∃ first between second, run? s before = some (first, between) ∧ run? between behind = some (second, t)
      ∧ first.length = before.length ∧ answers = first ++ second := by
  induction before generalizing s answers with
  | nil => exact ⟨[], s, answers, rfl, h, rfl, rfl⟩
  | cons step before ih =>
      obtain ⟨answer, next, others, hstep, hrest, rfl⟩ := run?_cons_eq_some_iff.1 h
      obtain ⟨first, between, second, hbefore, hbehind, hlength, rfl⟩ := ih hrest
      exact ⟨answer :: first, between, second, run?_cons_eq_some_iff.2 ⟨answer, next, first, hstep, hbefore, rfl⟩,
        hbehind, congrArg Nat.succ hlength, rfl⟩

/-- A run stops at each of its steps: before it and after it. -/
theorem run?_append_cons {before behind : List (Step α)} {step : Step α} {answers : List Nat}
    (h : run? s (before ++ step :: behind) = some (answers, t)) :
    ∃ first s' answer t' second, run? s before = some (first, s') ∧ step.run? s' = some (answer, t')
      ∧ run? t' behind = some (second, t) ∧ answers[before.length]? = some answer := by
  obtain ⟨first, s', _, hbefore, hrest, hlength, rfl⟩ := run?_append h
  obtain ⟨answer, t', second, hstep, hbehind, rfl⟩ := run?_cons_eq_some_iff.1 hrest
  refine ⟨first, s', answer, t', second, hbefore, hstep, hbehind, ?_⟩
  rw [← hlength, List.getElem?_append_right (Nat.le_refl _), Nat.sub_self]
  rfl

/-! ### What a step does -/

theorem clone?_eq_some_iff : s.clone? handle = some (answer, t)
    ↔ ∃ place, s.handles[handle]? = some place ∧ s.handles.length = answer
      ∧ { s with handles := s.handles ++ [place] } = t := by
  simp [clone?, Option.bind_eq_some_iff]

theorem register?_eq_some_iff : s.register? handle a = some (answer, t)
    ↔ ∃ place, s.handles[handle]? = some place ∧ ∃ r, s.registries[place]? = some r ∧ (r.register a).1 = answer
      ∧ { s with registries := s.registries.set place (r.register a).2 } = t := by
  simp [register?, Option.bind_eq_some_iff]

theorem snapshot?_eq_some_iff : s.snapshot? handle = some (answer, t)
    ↔ ∃ r, s.registry? handle = some r ∧ s.snapshots.length = answer
      ∧ { s with snapshots := s.snapshots ++ [r] } = t := by
  simp [snapshot?, Option.bind_eq_some_iff]

theorem registerSnapshot?_eq_some_iff : s.registerSnapshot? number a = some (answer, t)
    ↔ ∃ r, s.snapshots[number]? = some r ∧ (r.register a).1 = answer
      ∧ { s with snapshots := s.snapshots.set number (r.register a).2 } = t := by
  simp [registerSnapshot?, Option.bind_eq_some_iff]

/-! ### Handles -/

/-- Whether handles with these origins lead to registries with these contents. Each origin has a place among the
registries for itself. -/
structure Follows (origins : List Nat) (contents : Nat → List α) (places : Nat → Nat) (s : SharedRegistries α) :
    Prop where
  handles : s.handles = origins.map places
  lt_length : ∀ origin ∈ origins, origin < origins.length
  apart : ∀ origin ∈ origins, ∀ other ∈ origins, places origin = places other → origin = other
  registries : ∀ origin ∈ origins, s.registries[places origin]? = some (.registerAll {} (contents origin))
  unused : ∀ origin, origin ∉ origins → contents origin = []

namespace Follows

variable {known : List Nat} {contents : Nat → List α} {places : Nat → Nat} {origin : Nat}

theorem new : Follows [0] (fun _ => []) (fun _ => 0) ({} : SharedRegistries α) where
  handles := rfl
  lt_length := by simp
  apart := by simp
  registries := by simp [Registry.registerAll]
  unused := by simp

theorem mem_known {other : Nat} (horigin : origin ∈ known) (hother : other ∈ known ++ [origin]) : other ∈ known := by
  rcases List.mem_append.1 hother with hmem | hmem
  · exact hmem
  · exact List.mem_singleton.1 hmem ▸ horigin

variable (h : Follows known contents places s)
include h

theorem getElem?_handles_eq_some_iff {place : Nat} :
    s.handles[handle]? = some place ↔ ∃ origin, known[handle]? = some origin ∧ places origin = place := by
  rw [h.handles, List.getElem?_map, Option.map_eq_some_iff]

theorem length_handles : s.handles.length = known.length := by
  rw [h.handles, List.length_map]

theorem registry? (horigin : known[handle]? = some origin) :
    s.registry? handle = some (.registerAll {} (contents origin)) := by
  change (s.handles[handle]?.bind fun place => s.registries[place]?) = _
  rw [h.getElem?_handles_eq_some_iff.2 ⟨origin, horigin, rfl⟩]
  exact h.registries origin (List.mem_of_getElem? horigin)

theorem handle_lt {place : Nat} (hplace : s.handles[handle]? = some place) : handle < known.length :=
  h.length_handles ▸ (List.getElem?_eq_some_iff.1 hplace).1

theorem sizes : s.sizes = known.map fun origin => (Registry.registerAll {} (contents origin)).size := by
  rw [SharedRegistries.sizes, h.handles, List.map_map]
  refine List.map_congr_left fun origin horigin => ?_
  rw [Function.comp_apply, h.registries origin horigin]
  rfl

theorem clone (horigin : origin ∈ known) :
    Follows (known ++ [origin]) contents places { s with handles := s.handles ++ [places origin] } where
  handles := by simp [h.handles]
  lt_length other hother := by
    rw [List.length_append]
    exact Nat.lt_add_right _ (h.lt_length other (mem_known horigin hother))
  apart first hfirst second hsecond :=
    h.apart first (mem_known horigin hfirst) second (mem_known horigin hsecond)
  registries other hother := h.registries other (mem_known horigin hother)
  unused other hother := h.unused other fun hmem => hother (List.mem_append_left _ hmem)

theorem fresh : ∃ places', Follows (known ++ [known.length]) contents places' s.fresh.2 := by
  have hnot : known.length ∉ known := fun hmem => Nat.lt_irrefl _ (h.lt_length _ hmem)
  have hbound : ∀ origin ∈ known, places origin < s.registries.length := fun origin horigin =>
    (List.getElem?_eq_some_iff.1 (h.registries origin horigin)).1
  have hold : ∀ origin ∈ known, Function.update places known.length s.registries.length origin = places origin :=
    fun origin horigin => Function.update_of_ne (ne_of_mem_of_not_mem horigin hnot) _ _
  have hnew : Function.update places known.length s.registries.length known.length = s.registries.length :=
    Function.update_self _ _ _
  have hmem : ∀ origin ∈ known ++ [known.length], origin ∈ known ∨ origin = known.length := by simp
  refine ⟨Function.update places known.length s.registries.length, ?_, ?_, ?_, ?_, ?_⟩
  · rw [List.map_append, List.map_congr_left hold, ← h.handles, List.map_singleton, hnew]
    rfl
  · intro origin horigin
    rw [List.length_append, List.length_singleton]
    rcases hmem origin horigin with hknown | rfl
    · exact Nat.lt_succ_of_lt (h.lt_length origin hknown)
    · exact Nat.lt_succ_self _
  · intro first hfirst second hsecond heq
    rcases hmem first hfirst with hfirst | rfl <;> rcases hmem second hsecond with hsecond | rfl
    · rw [hold first hfirst, hold second hsecond] at heq
      exact h.apart first hfirst second hsecond heq
    · rw [hold first hfirst, hnew] at heq
      exact absurd heq (Nat.ne_of_lt (hbound first hfirst))
    · rw [hold second hsecond, hnew] at heq
      exact absurd heq.symm (Nat.ne_of_lt (hbound second hsecond))
    · rfl
  · intro origin horigin
    rcases hmem origin horigin with hknown | rfl
    · rw [hold origin hknown, SharedRegistries.fresh, List.getElem?_append_left (hbound origin hknown)]
      exact h.registries origin hknown
    · rw [hnew, h.unused _ hnot, SharedRegistries.fresh]
      simp [Registry.registerAll]
  · exact fun origin horigin => h.unused origin fun hmem => horigin (List.mem_append_left _ hmem)

/-- A registration changes the registry of one origin, because no other has its place. -/
theorem register {r : Registry α} (horigin : known[handle]? = some origin)
    (hr : s.registries[places origin]? = some r) (a : α) :
    Follows known (fun other => contents other ++ (Step.register handle a).registered known other) places
      { s with registries := s.registries.set (places origin) (r.register a).2 } where
  handles := h.handles
  lt_length := h.lt_length
  apart := h.apart
  registries other hother := by
    have hmem := List.mem_of_getElem? horigin
    by_cases hsame : other = origin
    · have hcontents : r = .registerAll {} (contents origin) :=
        Option.some.inj (hr.symm.trans (h.registries origin hmem))
      rw [hsame, Step.registered, if_pos horigin, Registry.registerAll_concat, ← hcontents]
      exact List.getElem?_set_self (List.getElem?_eq_some_iff.1 hr).1
    · have hplaces : places origin ≠ places other := fun heq => hsame (h.apart origin hmem other hother heq).symm
      have hother' : known[handle]? ≠ some other := by
        rw [horigin]
        exact fun heq => hsame (Option.some.inj heq).symm
      rw [Step.registered, if_neg hother', List.append_nil, List.getElem?_set_ne hplaces]
      exact h.registries other hother
  unused other hother := by
    have hother' : known[handle]? ≠ some other := fun heq => hother (List.mem_of_getElem? heq)
    rw [Step.registered, if_neg hother', List.append_nil]
    exact h.unused other hother

theorem step {step : Step α} (hstep : step.run? s = some (answer, t)) :
    ∃ places', Follows (step.originsAfter known) (fun other => contents other ++ step.registered known other)
      places' t := by
  cases step with
  | clone handle =>
      obtain ⟨place, hplace, -, rfl⟩ := clone?_eq_some_iff.1 hstep
      obtain ⟨origin, horigin, rfl⟩ := h.getElem?_handles_eq_some_iff.1 hplace
      simp only [Step.originsAfter, horigin, Option.toList_some, Step.registered, List.append_nil]
      exact ⟨places, h.clone (List.mem_of_getElem? horigin)⟩
  | fresh =>
      cases hstep
      simp only [Step.originsAfter, Step.registered, List.append_nil]
      exact h.fresh
  | register handle a =>
      obtain ⟨place, hplace, r, hr, -, rfl⟩ := register?_eq_some_iff.1 hstep
      obtain ⟨origin, horigin, rfl⟩ := h.getElem?_handles_eq_some_iff.1 hplace
      exact ⟨places, h.register horigin hr a⟩
  | snapshot handle =>
      obtain ⟨r, -, -, rfl⟩ := snapshot?_eq_some_iff.1 hstep
      simp only [Step.originsAfter, Step.registered, List.append_nil]
      exact ⟨places, h.handles, h.lt_length, h.apart, h.registries, h.unused⟩
  | registerSnapshot number a =>
      obtain ⟨r, -, -, rfl⟩ := registerSnapshot?_eq_some_iff.1 hstep
      simp only [Step.originsAfter, Step.registered, List.append_nil]
      exact ⟨places, h.handles, h.lt_length, h.apart, h.registries, h.unused⟩

theorem run {steps : List (Step α)} {answers : List Nat} (hrun : run? s steps = some (answers, t)) :
    ∃ places', Follows (steps.foldl Step.originsAfter known)
      (fun other => contents other ++ registrationsFrom known other steps) places' t := by
  induction steps generalizing s known contents places answers with
  | nil =>
      cases hrun
      simp only [registrationsFrom, List.append_nil]
      exact ⟨places, h⟩
  | cons step steps ih =>
      obtain ⟨answer, between, others, hstep, hsteps, -⟩ := run?_cons_eq_some_iff.1 hrun
      obtain ⟨places', hbetween⟩ := h.step hstep
      obtain ⟨places'', hend⟩ := ih hbetween hsteps
      simp only [List.append_assoc] at hend
      exact ⟨places'', hend⟩

theorem exists_run?_iff {step : Step α} :
    (∃ answer t, step.run? s = some (answer, t)) ↔ step.Names known.length s.snapshots.length := by
  have horigin : ∀ handle < known.length, ∃ origin, known[handle]? = some origin := fun handle hlt =>
    ⟨_, List.getElem?_eq_getElem hlt⟩
  constructor
  · rintro ⟨answer, t, hstep⟩
    cases step with
    | clone handle =>
        obtain ⟨place, hplace, -⟩ := clone?_eq_some_iff.1 hstep
        exact h.handle_lt hplace
    | fresh => trivial
    | register handle a =>
        obtain ⟨place, hplace, -⟩ := register?_eq_some_iff.1 hstep
        exact h.handle_lt hplace
    | snapshot handle =>
        obtain ⟨r, hr, -⟩ := snapshot?_eq_some_iff.1 hstep
        obtain ⟨place, hplace, -⟩ := Option.bind_eq_some_iff.1 hr
        exact h.handle_lt hplace
    | registerSnapshot number a =>
        obtain ⟨r, hr, -⟩ := registerSnapshot?_eq_some_iff.1 hstep
        exact (List.getElem?_eq_some_iff.1 hr).1
  · intro hnames
    cases step with
    | clone handle =>
        obtain ⟨origin, hknown⟩ := horigin handle hnames
        exact ⟨_, _, clone?_eq_some_iff.2 ⟨_, h.getElem?_handles_eq_some_iff.2 ⟨origin, hknown, rfl⟩, rfl, rfl⟩⟩
    | fresh => exact ⟨_, _, rfl⟩
    | register handle a =>
        obtain ⟨origin, hknown⟩ := horigin handle hnames
        exact ⟨_, _, register?_eq_some_iff.2 ⟨_, h.getElem?_handles_eq_some_iff.2 ⟨origin, hknown, rfl⟩, _,
          h.registries origin (List.mem_of_getElem? hknown), rfl, rfl⟩⟩
    | snapshot handle =>
        obtain ⟨origin, hknown⟩ := horigin handle hnames
        exact ⟨_, _, snapshot?_eq_some_iff.2 ⟨_, h.registry? hknown, rfl, rfl⟩⟩
    | registerSnapshot number a =>
        exact ⟨_, _, registerSnapshot?_eq_some_iff.2 ⟨_, List.getElem?_eq_getElem hnames, rfl, rfl⟩⟩

end Follows

theorem follows_of_run? {steps : List (Step α)} {answers : List Nat} (h : run? {} steps = some (answers, s)) :
    ∃ places, Follows (origins steps) (fun origin => registrations origin steps) places s := Follows.new.run h

/-! ### Snapshots -/

theorem getElem?_snapshots_step {step : Step α} {r : Registry α} (hr : s.snapshots[number]? = some r)
    (hstep : step.run? s = some (answer, t)) :
    t.snapshots[number]? = some (r.registerAll (step.registeredIn number)) := by
  have hbound := (List.getElem?_eq_some_iff.1 hr).1
  cases step with
  | clone handle =>
      obtain ⟨place, -, -, rfl⟩ := clone?_eq_some_iff.1 hstep
      exact hr
  | fresh =>
      cases hstep
      exact hr
  | register handle a =>
      obtain ⟨place, -, r', -, -, rfl⟩ := register?_eq_some_iff.1 hstep
      exact hr
  | snapshot handle =>
      obtain ⟨r', -, -, rfl⟩ := snapshot?_eq_some_iff.1 hstep
      exact (List.getElem?_append_left hbound).trans hr
  | registerSnapshot other a =>
      obtain ⟨r', hr', -, rfl⟩ := registerSnapshot?_eq_some_iff.1 hstep
      by_cases hsame : other = number
      · subst hsame
        cases hr.symm.trans hr'
        rw [Step.registeredIn, if_pos rfl]
        exact List.getElem?_set_self hbound
      · rw [Step.registeredIn, if_neg hsame]
        exact (List.getElem?_set_ne hsame).trans hr

theorem getElem?_snapshots_run {steps : List (Step α)} {answers : List Nat} {r : Registry α}
    (hr : s.snapshots[number]? = some r) (hrun : run? s steps = some (answers, t)) :
    t.snapshots[number]? = some (r.registerAll (registrationsIn number steps)) := by
  induction steps generalizing s r answers with
  | nil =>
      cases hrun
      exact hr
  | cons step steps ih =>
      obtain ⟨answer, between, others, hstep, hsteps, -⟩ := run?_cons_eq_some_iff.1 hrun
      rw [registrationsIn, List.flatMap_cons, Registry.registerAll_append]
      exact ih (getElem?_snapshots_step hr hstep) hsteps

theorem length_snapshots_step {step : Step α} (hstep : step.run? s = some (answer, t)) :
    t.snapshots.length = s.snapshots.length + if step.isSnapshot then 1 else 0 := by
  cases step with
  | clone handle =>
      obtain ⟨place, -, -, rfl⟩ := clone?_eq_some_iff.1 hstep
      rfl
  | fresh =>
      cases hstep
      rfl
  | register handle a =>
      obtain ⟨place, -, r, -, -, rfl⟩ := register?_eq_some_iff.1 hstep
      rfl
  | snapshot handle =>
      obtain ⟨r, -, -, rfl⟩ := snapshot?_eq_some_iff.1 hstep
      exact List.length_append
  | registerSnapshot number a =>
      obtain ⟨r, -, -, rfl⟩ := registerSnapshot?_eq_some_iff.1 hstep
      exact List.length_set

theorem length_snapshots_run {steps : List (Step α)} {answers : List Nat} (hrun : run? s steps = some (answers, t)) :
    t.snapshots.length = s.snapshots.length + snapshotCount steps := by
  induction steps generalizing s answers with
  | nil =>
      cases hrun
      rfl
  | cons step steps ih =>
      obtain ⟨answer, between, others, hstep, hsteps, -⟩ := run?_cons_eq_some_iff.1 hrun
      rw [ih hsteps, length_snapshots_step hstep, snapshotCount, snapshotCount, List.countP_cons, Nat.add_assoc]
      exact congrArg _ (Nat.add_comm _ _)

/-! ### Handles and snapshots together -/

/-- How the answers to a run and the registries after it come from the registrations of each origin and snapshot. All
handles of an origin lead to the registry of its registrations in step order; a snapshot holds what its handle led to
when it was taken, and after that its own registrations; and the next step leaves alone what it registers nothing in. -/
structure KeptApart (steps : List (Step α)) (answers : List Nat) (s : SharedRegistries α) : Prop where
  registry : ∀ handle origin, (origins steps)[handle]? = some origin →
    s.registry? handle = some (.registerAll {} (registrations origin steps))
  sizes : s.sizes = (origins steps).map fun origin => (Registry.registerAll {} (registrations origin steps)).size
  created : ∀ before step behind, steps = before ++ step :: behind →
    (step = .fresh ∨ ∃ handle, step = .clone handle) → answers[before.length]? = some (origins before).length
  index : ∀ before handle a behind, steps = before ++ .register handle a :: behind →
    ∃ origin, (origins before)[handle]? = some origin
      ∧ answers[before.length]? = some ((Registry.registerAll {} (registrations origin before)).register a).1
  snapshot : ∀ before handle behind, steps = before ++ .snapshot handle :: behind →
    ∃ origin, (origins before)[handle]? = some origin ∧ answers[before.length]? = some (snapshotCount before)
      ∧ s.snapshots[snapshotCount before]?
        = some (.registerAll {} (registrations origin before ++ registrationsIn (snapshotCount before) behind))
  snapshot_index : ∀ before handle between a behind,
    steps = (before ++ .snapshot handle :: between) ++ .registerSnapshot (snapshotCount before) a :: behind →
    ∃ origin, (origins before)[handle]? = some origin
      ∧ answers[(before ++ .snapshot handle :: between).length]? = some ((Registry.registerAll {}
        (registrations origin before ++ registrationsIn (snapshotCount before) between)).register a).1
  length_snapshots : s.snapshots.length = snapshotCount steps
  possible : ∀ step : Step α, (∃ answer t, step.run? s = some (answer, t))
    ↔ step.Names (origins steps).length (snapshotCount steps)
  untouched : ∀ (step : Step α) answer t, step.run? s = some (answer, t) →
    (∀ handle origin, (origins steps)[handle]? = some origin → step.registered (origins steps) origin = [] →
      t.registry? handle = s.registry? handle)
      ∧ ∀ number < snapshotCount steps, step.registeredIn number = [] → t.snapshots[number]? = s.snapshots[number]?

section

variable {steps before between behind : List (Step α)} {answers : List Nat} {origin : Nat}

theorem length_snapshots_of_run? (h : run? {} steps = some (answers, s)) :
    s.snapshots.length = snapshotCount steps :=
  (length_snapshots_run h).trans (Nat.zero_add _)

theorem created_of_run? {step : Step α} (h : run? {} (before ++ step :: behind) = some (answers, s))
    (hstep : step = .fresh ∨ ∃ handle, step = .clone handle) :
    answers[before.length]? = some (origins before).length := by
  obtain ⟨first, s', answer, t', second, hbefore, hrun, -, hanswer⟩ := run?_append_cons h
  obtain ⟨places, hfollows⟩ := follows_of_run? hbefore
  rw [hanswer, ← hfollows.length_handles]
  rcases hstep with rfl | ⟨handle, rfl⟩
  · cases hrun
    rfl
  · obtain ⟨place, -, rfl, -⟩ := clone?_eq_some_iff.1 hrun
    rfl

theorem index_of_run? (h : run? {} (before ++ .register handle a :: behind) = some (answers, s)) :
    ∃ origin, (origins before)[handle]? = some origin
      ∧ answers[before.length]? = some ((Registry.registerAll {} (registrations origin before)).register a).1 := by
  obtain ⟨first, s', answer, t', second, hbefore, hrun, -, hanswer⟩ := run?_append_cons h
  obtain ⟨places, hfollows⟩ := follows_of_run? hbefore
  obtain ⟨place, hplace, r, hr, rfl, -⟩ := register?_eq_some_iff.1 hrun
  obtain ⟨origin, horigin, rfl⟩ := hfollows.getElem?_handles_eq_some_iff.1 hplace
  cases hr.symm.trans (hfollows.registries origin (List.mem_of_getElem? horigin))
  exact ⟨origin, horigin, hanswer⟩

theorem snapshot_of_run? (h : run? {} (before ++ .snapshot handle :: behind) = some (answers, s)) :
    ∃ origin, (origins before)[handle]? = some origin ∧ answers[before.length]? = some (snapshotCount before)
      ∧ s.snapshots[snapshotCount before]?
        = some (.registerAll {} (registrations origin before ++ registrationsIn (snapshotCount before) behind)) := by
  obtain ⟨first, s', answer, t', second, hbefore, hrun, hbehind, hanswer⟩ := run?_append_cons h
  obtain ⟨places, hfollows⟩ := follows_of_run? hbefore
  obtain ⟨r, hr, rfl, rfl⟩ := snapshot?_eq_some_iff.1 hrun
  obtain ⟨place, hplace, -⟩ := Option.bind_eq_some_iff.1 hr
  obtain ⟨origin, horigin, -⟩ := hfollows.getElem?_handles_eq_some_iff.1 hplace
  have hcontents : r = .registerAll {} (registrations origin before) :=
    Option.some.inj (hr.symm.trans (hfollows.registry? horigin))
  rw [length_snapshots_of_run? hbefore] at hanswer
  have htaken : (s'.snapshots ++ [r])[snapshotCount before]? = some r := by
    rw [← length_snapshots_of_run? hbefore]
    exact List.getElem?_concat_length
  refine ⟨origin, horigin, hanswer, ?_⟩
  rw [Registry.registerAll_append, ← hcontents]
  exact getElem?_snapshots_run htaken hbehind

theorem snapshot_index_of_run?
    (h : run? {} ((before ++ .snapshot handle :: between) ++ .registerSnapshot (snapshotCount before) a :: behind)
      = some (answers, s)) :
    ∃ origin, (origins before)[handle]? = some origin
      ∧ answers[(before ++ .snapshot handle :: between).length]? = some ((Registry.registerAll {}
        (registrations origin before ++ registrationsIn (snapshotCount before) between)).register a).1 := by
  obtain ⟨first, s', answer, t', second, hbefore, hrun, -, hanswer⟩ := run?_append_cons h
  obtain ⟨origin, horigin, -, hcontents⟩ := snapshot_of_run? hbefore
  obtain ⟨r, hr, rfl, -⟩ := registerSnapshot?_eq_some_iff.1 hrun
  cases hr.symm.trans hcontents
  exact ⟨origin, horigin, hanswer⟩

theorem registry?_step_of_run? (h : run? {} steps = some (answers, s)) {step : Step α}
    (hstep : step.run? s = some (answer, t)) (horigin : (origins steps)[handle]? = some origin)
    (hnone : step.registered (origins steps) origin = []) : t.registry? handle = s.registry? handle := by
  obtain ⟨places, hfollows⟩ := follows_of_run? h
  obtain ⟨places', hfollows'⟩ := hfollows.step hstep
  rw [hfollows.registry? horigin, hfollows'.registry? (Step.getElem?_originsAfter horigin step), hnone,
    List.append_nil]

theorem getElem?_snapshots_step_of_run? (h : run? {} steps = some (answers, s)) {step : Step α}
    (hstep : step.run? s = some (answer, t)) (hnumber : number < snapshotCount steps)
    (hnone : step.registeredIn number = []) : t.snapshots[number]? = s.snapshots[number]? := by
  have htaken := List.getElem?_eq_getElem (length_snapshots_of_run? h ▸ hnumber)
  rw [htaken, getElem?_snapshots_step htaken hstep, hnone]
  rfl

/-- However the steps alternate, the handles of each origin act as one registry, and every snapshot as one of its
own. -/
theorem keptApart_of_run (h : run? {} steps = some (answers, s)) : KeptApart steps answers s := by
  obtain ⟨places, hfollows⟩ := follows_of_run? h
  refine
    { registry := fun handle origin horigin => hfollows.registry? horigin
      sizes := hfollows.sizes
      created := ?_
      index := ?_
      snapshot := ?_
      snapshot_index := ?_
      length_snapshots := length_snapshots_of_run? h
      possible := fun step => length_snapshots_of_run? h ▸ hfollows.exists_run?_iff
      untouched := fun step answer t hstep =>
        ⟨fun handle origin horigin hnone => ?_, fun number hnumber hnone => ?_⟩ }
  · rintro before step behind rfl hstep
    exact created_of_run? h hstep
  · rintro before handle a behind rfl
    exact index_of_run? h
  · rintro before handle behind rfl
    exact snapshot_of_run? h
  · rintro before handle between a behind rfl
    exact snapshot_index_of_run? h
  · exact registry?_step_of_run? h hstep horigin hnone
  · exact getElem?_snapshots_step_of_run? h hstep hnumber hnone

end

def literal (text : String) : Format := { primary := { parts := [.text text] } }

/-- Two origins, one of them with two handles, and two snapshots of that one, of which the first goes its own way. -/
def interleaved : List (Step Format) := [.fresh, .clone 0, .register 2 (literal "a"), .register 1 (literal "b"),
  .register 0 (literal "b"), .snapshot 2, .register 2 (literal "c"), .registerSnapshot 0 (literal "d"), .snapshot 0,
  .register 0 (literal "a")]

theorem keptApart_of_run_interleaved :
    ∃ s, run? {} interleaved = some ([1, 2, 0, 0, 1, 0, 2, 2, 1, 0], s) ∧ s.sizes = [3, 1, 3]
      ∧ s.snapshots.map Registry.entries
        = [[literal "a", literal "b", literal "d"], [literal "a", literal "b", literal "c"]]
      ∧ KeptApart interleaved [1, 2, 0, 0, 1, 0, 2, 2, 1, 0] s :=
  ⟨_, rfl, rfl, rfl, keptApart_of_run rfl⟩

end SharedRegistries

end CellFormat
