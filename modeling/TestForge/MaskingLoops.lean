import TestForge.Masking
import TestForge.Transition
import Mathlib.Data.List.Forall2

/-! Loops that mask a text in place. A position moves through a text that may grow in front of it;
what stands behind the position gets shorter with every turn. A loop whose turns do what a rule
says comes to an end, and then it has made the pass of the rule. -/
namespace TestForge.Masking

variable {σ : Type}

structure Scan (σ : Type) where
  out : List σ
  start : Nat

/-- One turn of a loop; nothing when the loop is left. -/
abbrev Turn (σ : Type) := Scan σ → Option (Scan σ)

namespace Scan

def Inside (s : Scan σ) : Prop := s.start ≤ s.out.length

/-- How much of the text stands behind the position. -/
def left (s : Scan σ) : Nat := s.out.length - s.start

def between (done rest : List σ) : Scan σ := ⟨done ++ rest,done.length⟩

@[simp] theorem between_left (done rest : List σ) : (between done rest).left = rest.length := by
  simp [between,left]

theorem between_inside (done rest : List σ) : (between done rest).Inside := by simp [between,Inside]

theorem exists_between {s : Scan σ} (inside : s.Inside) : ∃ done rest, s = between done rest := by
  refine ⟨s.out.take s.start,s.out.drop s.start,?_⟩
  rw [between,List.take_append_drop,List.length_take,Nat.min_eq_left inside]

end Scan

/-- What the mask leaves of a found place, up to what follows. -/
def Located.shown (mask : List σ) (found : Located σ) : List σ :=
  found.kept ++ if found.secret.isEmpty then [] else mask

/-- A turn goes to the first place where the rule applies, masks it and stops behind it. -/
structure Implements (mask : List σ) (rule : Rule σ) (turn : Turn σ) : Prop where
  stops : ∀ done rest, turn (.between done rest) = none → ∀ u, u ≠ [] → u <:+ rest → rule u = none
  turns : ∀ done rest next, turn (.between done rest) = some next → ∃ skipped text found, rest = skipped ++ text ∧
    (∀ v, v ≠ [] → v <:+ skipped → rule (v ++ text) = none) ∧ rule text = some found ∧
      next = .between (done ++ skipped ++ found.shown mask) found.behind

theorem masked_skip {mask : List σ} {rule : Rule σ} (skipped text : List σ)
    (nothing : ∀ v, v ≠ [] → v <:+ skipped → rule (v ++ text) = none) :
    masked mask rule (skipped ++ text) = skipped ++ masked mask rule text := by
  induction skipped with
  | nil => rfl
  | cons c skipped ih =>
    have first : rule (c :: (skipped ++ text)) = none := nothing (c :: skipped) (by simp) List.suffix_rfl
    rw [List.cons_append,masked_none first,ih fun v some inside => nothing v some (inside.trans (List.suffix_cons _ _)),
      List.cons_append]

section
variable {mask : List σ} {rule : Rule σ} {turn : Turn σ} (lawful : Lawful mask rule) (implements : Implements mask rule turn)
include lawful implements

theorem Implements.progress {s next : Scan σ} (inside : s.Inside) (taken : turn s = some next) :
    next.Inside ∧ next.left < s.left := by
  obtain ⟨done,rest,rfl⟩ := Scan.exists_between inside
  obtain ⟨skipped,text,found,rfl,-,located,rfl⟩ := implements.turns done rest next taken
  have shorter := lawful.behind_shorter located
  refine ⟨Scan.between_inside _ _,?_⟩
  rw [Scan.between_left,Scan.between_left,List.length_append]
  omega

/-- In every state of a run the position is inside, and the turns taken are no more than what
they have put behind it. -/
theorem Implements.run_bounded {s final : Scan σ} (labels : List Unit) (inside : s.Inside)
    (path : Transition.run (fun _ => turn) labels s = some final) :
    final.Inside ∧ labels.length + final.left ≤ s.left := by
  have preserved : ∀ (_ : Unit) s next, Scan.Inside s → turn s = some next → Scan.Inside next :=
    fun _ s next inside taken => (implements.progress lawful inside taken).1
  refine ⟨Transition.run_invariant _ Scan.Inside preserved labels s final path inside,?_⟩
  exact Transition.run_length_le _ (fun _ _ => True) Scan.Inside Scan.left
    (fun action s next inside _ taken => preserved action s next inside taken)
    (fun _ s next inside _ taken => (implements.progress lawful inside taken).2) labels s final inside
    (Transition.along_of_forall _ _ labels s fun _ _ _ => trivial) path

theorem Implements.exists_finished {s : Scan σ} (inside : s.Inside) :
    ∃ (labels : List Unit) (final : Scan σ), Transition.run (fun _ => turn) labels s = some final ∧ turn final = none := by
  obtain ⟨labels,final,-,path,settled⟩ := Transition.exists_settled (fun (_ : Unit) => turn) (fun _ _ => True)
    Scan.Inside Scan.left (fun _ s next inside _ taken => (implements.progress lawful inside taken).1)
    (fun _ s next inside _ taken => (implements.progress lawful inside taken).2) s inside
  exact ⟨labels,final,path,settled () trivial⟩

/-- The text that a loop ends with is that of the pass, whatever it has done before. -/
theorem Implements.finished_out (labels : List Unit) (done rest : List σ) (final : Scan σ)
    (path : Transition.run (fun _ => turn) labels (.between done rest) = some final) (finished : turn final = none) :
    final.out = done ++ masked mask rule rest := by
  induction labels generalizing done rest with
  | nil =>
    obtain rfl := Option.some.inj path
    have nothing := implements.stops done rest finished
    have whole : masked mask rule (rest ++ []) = rest ++ masked mask rule [] := by
      apply masked_skip
      intro v some inside
      rw [List.append_nil]
      exact nothing v some inside
    rw [List.append_nil,masked_nil,List.append_nil] at whole
    rw [whole,Scan.between]
  | cons label labels ih =>
    obtain ⟨next,taken,path⟩ := (Transition.run_cons_some _ _ _ _ _).mp path
    obtain ⟨skipped,text,found,rfl,passed,located,rfl⟩ := implements.turns done rest next taken
    rw [ih _ _ path,masked_skip skipped text passed,masked_found lawful located,Located.shown]
    simp only [List.append_assoc]

end

/-- The loop, begun at the start of a text, is left with this one. -/
def Finishes (turn : Turn σ) (text out : List σ) : Prop :=
  ∃ (labels : List Unit) (final : Scan σ), Transition.run (fun _ => turn) labels ⟨text,0⟩ = some final ∧
    turn final = none ∧ final.out = out

theorem Implements.finishes_iff {mask : List σ} {rule : Rule σ} {turn : Turn σ} (lawful : Lawful mask rule)
    (implements : Implements mask rule turn) (text out : List σ) :
    Finishes turn text out ↔ out = masked mask rule text := by
  constructor
  · rintro ⟨labels,final,path,finished,rfl⟩
    exact implements.finished_out lawful labels [] text final path finished
  · rintro rfl
    obtain ⟨labels,final,path,finished⟩ := implements.exists_finished lawful (Scan.between_inside [] text)
    exact ⟨labels,final,path,finished,implements.finished_out lawful labels [] text final path finished⟩

/-- One loop after the other, each over the text that the one before has left. -/
inductive Performs : List (Turn σ) → List σ → List σ → Prop
  | nil (text : List σ) : Performs [] text text
  | cons {turn : Turn σ} {turns : List (Turn σ)} {text middle out : List σ} (first : Finishes turn text middle)
      (later : Performs turns middle out) : Performs (turn :: turns) text out

theorem performs_iff {mask : List σ} {rules : List (Rule σ)} {turns : List (Turn σ)}
    (lawful : ∀ rule ∈ rules, Lawful mask rule) (implements : List.Forall₂ (Implements mask) rules turns)
    (text out : List σ) : Performs turns text out ↔ out = passes mask rules text := by
  induction implements generalizing text with
  | nil =>
    constructor
    · rintro ⟨⟩
      rfl
    · rintro rfl
      exact .nil _
  | cons first rest ih =>
    have own := lawful _ List.mem_cons_self
    have others := ih fun rule member => lawful rule (List.mem_cons_of_mem _ member)
    constructor
    · rintro (_ | ⟨finished,later⟩)
      obtain rfl := (first.finishes_iff own _ _).mp finished
      exact (others _).mp later
    · rintro rfl
      exact .cons ((first.finishes_iff own _ _).mpr rfl) ((others _).mpr rfl)

end TestForge.Masking
