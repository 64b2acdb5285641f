import Mathlib.Order.Basic

/-! Runs of a deterministic labelled transition function. A label carries every
choice the environment makes, so a run is determined by its labels. -/
namespace Transition

variable {State Action : Type} (step : Action → State → Option State)

def run : List Action → State → Option State
  | [], s => some s
  | action :: rest, s => (step action s).bind (run rest)

@[simp] theorem run_nil (s : State) : run step [] s = some s := rfl

theorem run_cons (action : Action) (rest : List Action) (s : State) :
    run step (action :: rest) s = (step action s).bind (run step rest) := rfl

theorem run_append (first rest : List Action) (s : State) :
    run step (first ++ rest) s = (run step first s).bind (run step rest) := by
  induction first generalizing s with
  | nil => rfl
  | cons action first ih =>
    simp only [List.cons_append,run_cons,Option.bind_assoc]
    congr 1
    funext next
    exact ih next

/-- A run over a split label list passes through a state between the parts. -/
theorem run_append_some (first rest : List Action) (s final : State) :
    run step (first ++ rest) s = some final ↔
      ∃ middle, run step first s = some middle ∧ run step rest middle = some final := by
  rw [run_append,Option.bind_eq_some_iff]

theorem run_cons_some (action : Action) (rest : List Action) (s final : State) :
    run step (action :: rest) s = some final ↔
      ∃ next, step action s = some next ∧ run step rest next = some final := by
  rw [run_cons,Option.bind_eq_some_iff]

/-- Every label of the run is taken in a state that permits it. -/
def Along (permits : State → Action → Prop) : List Action → State → Prop
  | [], _ => True
  | action :: rest, s => permits s action ∧ ∀ next, step action s = some next → Along permits rest next

instance Along.decidable (permits : State → Action → Prop) [∀ s action, Decidable (permits s action)] :
    ∀ labels s, Decidable (Along step permits labels s)
  | [], _ => .isTrue trivial
  | action :: rest, s =>
    match taken : step action s with
    | none => decidable_of_iff (permits s action) (by simp [Along,taken])
    | some next =>
      have := Along.decidable permits rest next
      decidable_of_iff (permits s action ∧ Along step permits rest next) (by simp [Along,taken])

/-- No permitted step can be taken. -/
def Settled (permits : State → Action → Prop) (s : State) : Prop :=
  ∀ action, permits s action → step action s = none

theorem along_of_forall (permits : State → Action → Prop) (labels : List Action) (s : State)
    (always : ∀ s action, action ∈ labels → permits s action) : Along step permits labels s := by
  induction labels generalizing s with
  | nil => trivial
  | cons action rest ih =>
    exact ⟨always s action (by simp),
      fun next _ => ih next (fun s action member => always s action (by simp [member]))⟩

theorem Along.mono {step : Action → State → Option State} {permits weaker : State → Action → Prop}
    (implies : ∀ s action, permits s action → weaker s action) (labels : List Action) (s : State)
    (along : Along step permits labels s) : Along step weaker labels s := by
  induction labels generalizing s with
  | nil => trivial
  | cons action rest ih => exact ⟨implies s action along.1,fun next taken => ih next (along.2 next taken)⟩

/-- What holds of every label of a run may be added to what permits its steps. -/
theorem Along.and_mem {step : Action → State → Option State} {permits : State → Action → Prop}
    (labels : List Action) (s : State) (along : Along step permits labels s) :
    Along step (fun s action => permits s action ∧ action ∈ labels) labels s := by
  suffices general : ∀ (rest : List Action) (s : State), (∀ action ∈ rest, action ∈ labels) →
      Along step permits rest s → Along step (fun s action => permits s action ∧ action ∈ labels) rest s from
    general labels s (fun _ member => member) along
  intro rest
  induction rest with
  | nil => exact fun _ _ _ => trivial
  | cons action rest ih =>
    intro s inside along
    exact ⟨⟨along.1,inside action (by simp)⟩,fun next taken =>
      ih next (fun other member => inside other (by simp [member])) (along.2 next taken)⟩

theorem along_append (permits : State → Action → Prop) (first rest : List Action)
    (s middle : State) (path : run step first s = some middle)
    (along : Along step permits (first ++ rest) s) :
    Along step permits first s ∧ Along step permits rest middle := by
  induction first generalizing s with
  | nil =>
    obtain rfl : s = middle := by simpa using path
    exact ⟨trivial,along⟩
  | cons action first ih =>
    obtain ⟨next,taken,path⟩ := (run_cons_some step _ _ _ _).mp path
    have tail := ih next path (along.2 next taken)
    refine ⟨⟨along.1,fun other also => ?_⟩,tail.2⟩
    obtain rfl : next = other := Option.some.inj (taken.symm.trans also)
    exact tail.1

theorem along_snoc (permits : State → Action → Prop) (labels : List Action) (action : Action) (s middle : State)
    (path : run step labels s = some middle) :
    Along step permits (labels ++ [action]) s ↔ Along step permits labels s ∧ permits middle action := by
  induction labels generalizing s with
  | nil =>
    obtain rfl : s = middle := by simpa using path
    simp [Along]
  | cons first rest ih =>
    obtain ⟨next,taken,path⟩ := (run_cons_some step _ _ _ _).mp path
    have tail := ih next path
    simp only [List.cons_append,Along]
    constructor
    · rintro ⟨permitted,onward⟩
      obtain ⟨before,last⟩ := tail.mp (onward next taken)
      refine ⟨⟨permitted,fun other also => ?_⟩,last⟩
      obtain rfl : next = other := Option.some.inj (taken.symm.trans also)
      exact before
    · rintro ⟨⟨permitted,onward⟩,last⟩
      refine ⟨permitted,fun other also => ?_⟩
      obtain rfl : next = other := Option.some.inj (taken.symm.trans also)
      exact tail.mpr ⟨onward next taken,last⟩

/-- What permitted steps preserve holds at the end of a permitted run. -/
theorem run_invariant_along (permits : State → Action → Prop) (property : State → Prop)
    (preserved : ∀ action s next, property s → permits s action → step action s = some next →
      property next)
    (labels : List Action) (s final : State) (along : Along step permits labels s)
    (path : run step labels s = some final) (initial : property s) : property final := by
  induction labels generalizing s with
  | nil =>
    obtain rfl : s = final := by simpa using path
    exact initial
  | cons action rest ih =>
    obtain ⟨next,taken,path⟩ := (run_cons_some step _ _ _ _).mp path
    exact ih next (along.2 next taken) path (preserved action s next initial along.1 taken)

theorem run_invariant (property : State → Prop)
    (preserved : ∀ action s next, property s → step action s = some next → property next)
    (labels : List Action) (s final : State) (path : run step labels s = some final)
    (initial : property s) : property final :=
  run_invariant_along step (fun _ _ => True) property
    (fun action s next valid _ taken => preserved action s next valid taken) labels s final
    (along_of_forall step _ labels s fun _ _ _ => trivial) path initial

def Reachable (initial s : State) : Prop := ∃ labels, run step labels initial = some s

theorem Reachable.next {step : Action → State → Option State} {initial s next : State}
    (reachable : Reachable step initial s) (action : Action)
    (taken : step action s = some next) : Reachable step initial next := by
  obtain ⟨labels,path⟩ := reachable
  exact ⟨labels ++ [action],(run_append_some step _ _ _ _).mpr ⟨s,path,by simp [run_cons,taken]⟩⟩

theorem Reachable.invariant {step : Action → State → Option State} {initial s : State}
    (reachable : Reachable step initial s) (property : State → Prop)
    (preserved : ∀ action s next, property s → step action s = some next → property next)
    (start : property initial) : property s := by
  obtain ⟨labels,path⟩ := reachable
  exact run_invariant step property preserved labels initial s path start

/-- Erasing the labels that one of two related systems does not see leaves a run of it. -/
theorem run_filter {Other : Type} (step : Action → State → Option State) (otherStep : Action → Other → Option Other)
    (permits : State → Action → Prop) (keep : Action → Bool) (related : State → Other → Prop)
    (kept : ∀ action s next other, related s other → permits s action → keep action = true →
      step action s = some next → ∃ later, otherStep action other = some later ∧ related next later)
    (skipped : ∀ action s next other, related s other → permits s action → keep action = false →
      step action s = some next → related next other)
    (labels : List Action) (s final : State) (other : Other) (along : Along step permits labels s)
    (path : run step labels s = some final) (start : related s other) :
    ∃ last, run otherStep (labels.filter keep) other = some last ∧ related final last := by
  induction labels generalizing s other with
  | nil =>
    obtain rfl : s = final := by simpa using path
    exact ⟨other,rfl,start⟩
  | cons action rest ih =>
    obtain ⟨next,taken,path⟩ := (run_cons_some step _ _ _ _).mp path
    have onward := along.2 next taken
    cases seen : keep action with
    | true =>
      obtain ⟨later,step',still⟩ := kept action s next other start along.1 seen taken
      obtain ⟨last,tail,ending⟩ := ih next later onward path still
      rw [List.filter_cons_of_pos seen]
      exact ⟨last,(run_cons_some otherStep _ _ _ _).mpr ⟨later,step',tail⟩,ending⟩
    | false =>
      rw [List.filter_cons_of_neg (by simp [seen])]
      exact ih next other onward path (skipped action s next other start along.1 seen taken)

section Termination

variable (permits : State → Action → Prop) (property : State → Prop) (measure : State → Nat)
  (preserved : ∀ action s next, property s → permits s action → step action s = some next →
    property next)
  (lowers : ∀ action s next, property s → permits s action → step action s = some next →
    measure next < measure s)
include preserved lowers

/-- A measure that every permitted step lowers bounds the length of a run. -/
theorem run_length_le (labels : List Action) (s final : State) (valid : property s)
    (along : Along step permits labels s) (path : run step labels s = some final) :
    labels.length + measure final ≤ measure s := by
  induction labels generalizing s with
  | nil =>
    obtain rfl : s = final := by simpa using path
    simp
  | cons action rest ih =>
    obtain ⟨next,taken,path⟩ := (run_cons_some step _ _ _ _).mp path
    have lower := lowers action s next valid along.1 taken
    have tail := ih next (preserved action s next valid along.1 taken) (along.2 next taken) path
    simp only [List.length_cons]
    omega

/-- Permitted steps can be taken until none is left. -/
theorem exists_settled (s : State) (valid : property s) :
    ∃ labels final, Along step permits labels s ∧ run step labels s = some final ∧
      Settled step permits final := by
  induction size : measure s using Nat.strongRecOn generalizing s with
  | ind n ih =>
    by_cases settled : Settled step permits s
    · exact ⟨[],s,trivial,rfl,settled⟩
    · simp only [Settled,not_forall] at settled
      obtain ⟨action,permitted,enabled⟩ := settled
      obtain ⟨next,taken⟩ := Option.ne_none_iff_exists'.mp enabled
      have lower := lowers action s next valid permitted taken
      obtain ⟨labels,final,along,path,settled⟩ := ih (measure next) (size ▸ lower) next
        (preserved action s next valid permitted taken) rfl
      refine ⟨action :: labels,final,⟨permitted,fun other also => ?_⟩,
        (run_cons_some step _ _ _ _).mpr ⟨next,taken,path⟩,settled⟩
      obtain rfl : next = other := Option.some.inj (taken.symm.trans also)
      exact along

end Termination
end Transition
