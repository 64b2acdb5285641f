import TestForge.DoubleIntegers
import TestForge.SpecSoundness

/-! Generated tests whose expected values are of the types that their assertions are for: nothing is coerced. -/
namespace TestForge

open Json Strings

namespace Json.Value

/-- A whole number of 32 bits. -/
def IsStatus (value : Value) : Prop := ∃ z : Int, toInt32 z = z ∧ (Value.int z).same value = true

theorem dump_injective (a b : Value) (faithful : ∀ u ∈ a.subvalues, u.Faithful) (faithful' : ∀ u ∈ b.subvalues, u.Faithful)
    (same : a.dump = b.dump) : a = b := by
  let limits : ParseLimits := { maxDepth := max a.depth b.depth, maxLength := a.dump.length }
  have first := parse_dump limits a (fun u inside => (faithful u inside).intFits) (Nat.le_max_left _ _) (Nat.le_refl _)
  have second := parse_dump limits b (fun u inside => (faithful' u inside).intFits) (Nat.le_max_right _ _)
    (Nat.le_of_eq (congrArg List.length same.symm))
  rw [same,second,reread_eq a faithful,reread_eq b faithful',Except.ok.injEq] at first
  exact first.symm

end Json.Value

theorem Double.isInt_of_toInt (d : Double) (finite : d.isFinite = true) (positive : 0 < d.toInt)
    (least : d.above d.toInt = false) : d.isInt d.toInt = true := by
  have plain : d.negative = false := by
    by_contra negative
    rw [toInt,if_pos (by simpa using negative)] at positive
    omega
  have whole : d.toInt = (d.units / 2^1074 : Nat) := by rw [toInt,plain,if_neg Bool.false_ne_true]
  rw [above,plain,if_neg Bool.false_ne_true,whole,decide_eq_false_iff_not,Int.not_lt] at least
  have below : d.units ≤ d.units / 2^1074 * 2^1074 := by exact_mod_cast least
  refine (d.isInt_iff _).mpr ⟨finite,?_,.inr ?_⟩
  · rw [whole,Int.natAbs_natCast]
    exact Nat.le_antisymm below (Nat.div_mul_le_self _ _)
  · rw [plain,whole]
    exact (decide_eq_false (Int.not_lt.mpr (Int.natCast_nonneg _))).symm

namespace SpecAssertion

/-- The expected value is one that the kind is for. A bound in whole milliseconds is not what the response took, and
a text that a header has to equal is not empty, or the header is there. -/
def Typed (a : SpecAssertion) (response : HttpResponse) (elapsed : Int) : Prop :=
  match a.kind with
  | .statusCode => a.expected.IsStatus
  | .statusCodeIn => ∀ item ∈ a.expected.items, item.isNumber = true → item.IsStatus
  | .responseTimeUnder => a.expected.Modest ∧ (Value.int elapsed).same a.expected = false
  | .bodyContains | .bodyNotContains => a.expected.asString?.isSome = true
  | .jsonFieldEquals => ∀ u ∈ a.expected.subvalues, u.Modest
  | .headerEquals => ∃ text, a.expected = .string text ∧ (text ≠ [] ∨ response.headers.contains a.target = true)
  | .jsonFieldExists | .headerExists => True

variable {response : HttpResponse} {elapsed : Int}

theorem not_hopeless {a : SpecAssertion} (typed : a.Typed response elapsed) : ¬a.Hopeless := by
  rintro ⟨kind,other⟩
  simp [Typed,kind,other] at typed

theorem not_coerced {a : SpecAssertion} (bounded : a.Bounded) (typed : a.Typed response elapsed) :
    ¬a.Coerced response elapsed := by
  obtain ⟨kind,target,expected⟩ := a
  intro coerced
  cases kind with
  | statusCode =>
    obtain ⟨z,sized,exact⟩ := typed
    obtain ⟨narrowed,different⟩ := coerced
    rw [(Value.same_int z expected exact 200).2,sized] at narrowed
    rw [← narrowed,exact] at different
    cases different
  | statusCodeIn =>
    obtain ⟨within,different⟩ := coerced
    obtain ⟨item,listed,narrowed⟩ := List.mem_map.mp within
    obtain ⟨member,number⟩ := List.mem_filter.mp listed
    obtain ⟨z,sized,exact⟩ := typed item member number
    rw [(Value.same_int z item exact 0).2,sized] at narrowed
    have unequal := different item member
    rw [← narrowed,exact] at unequal
    cases unequal
  | responseTimeUnder =>
    obtain ⟨modest,unequal⟩ := typed
    obtain ⟨number,positive⟩ := bounded rfl
    obtain ⟨rfl,least⟩ := coerced
    cases expected with
    | int z => simp [Value.same,Value.equalsBy,Value.intOr] at unequal
    | double d =>
      have finite := (Bool.and_eq_true_iff.mp modest).1
      exact absurd (d.isInt_of_toInt finite positive least) (Bool.eq_false_iff.mp unequal)
    | _ => cases number
  | bodyContains =>
    rw [Typed,coerced.1] at typed
    cases typed
  | jsonFieldEquals =>
    obtain ⟨document,-,found,-,equal,different⟩ := coerced
    rw [Value.same_of_equals found expected typed equal] at different
    cases different
  | headerEquals =>
    obtain ⟨text,rfl,there⟩ := typed
    obtain ⟨equal,absent | other⟩ := coerced
    · rw [HttpHeaders.getOr,absent] at equal
      rcases there with filled | found
      · exact filled equal.symm
      · rw [HttpHeaders.contains,absent] at found
        cases found
    · cases other
  | bodyNotContains | jsonFieldExists | headerExists => exact coerced

theorem holds_of_describe {a b : SpecAssertion} (faithful : ∀ u ∈ a.expected.subvalues, u.Faithful)
    (faithful' : ∀ u ∈ b.expected.subvalues, u.Faithful) (kinds : a.kind = b.kind) (targets : a.target = b.target)
    (same : a.describe = b.describe) : a.Holds response elapsed ↔ b.Holds response elapsed := by
  obtain ⟨kind,target,expected⟩ := a
  obtain ⟨_,_,other⟩ := b
  obtain rfl : kind = _ := kinds
  obtain rfl : target = _ := targets
  have written (dumps : expected.dump = other.dump) : expected = other :=
    Value.dump_injective expected other faithful faithful' dumps
  cases kind with
  | jsonFieldExists | headerExists => rfl
  | responseTimeUnder =>
    rw [written (List.append_cancel_left (List.append_cancel_right same))]
  | statusCode | statusCodeIn | bodyContains | bodyNotContains | jsonFieldEquals | headerEquals =>
    rw [written (List.append_cancel_left same)]

end SpecAssertion

def pingSpec : TestSpec := { name := ascii "ping", endpoint := ascii "/ping" }

/-- One assertion of each kind that coerces. -/
def checkedPing : TestSpec := { pingSpec with
  assertions := [
    { expected := .int 200 },
    { kind := .statusCodeIn, expected := .array [.int 200,.int 204] },
    { kind := .responseTimeUnder, expected := .int 100 },
    { kind := .bodyContains, expected := .string (ascii "ok") },
    { kind := .bodyNotContains, expected := .string (ascii "error") },
    { kind := .jsonFieldEquals, target := ascii "count", expected := .int 3 },
    { kind := .headerEquals, target := ascii "Server", expected := .string (ascii "sample") }] }

def pingAnswer : HttpResponse where
  statusCode := 200
  headers := ⟨[(ascii "Server",ascii "sample")]⟩
  body := ascii "\x7b\"ok\":true,\"count\":3\x7d"

/-- A status written as a text. -/
def quotedStatus : TestSpec := { pingSpec with assertions := [{ expected := .string (ascii "404") }] }

def wantsId : TestSpec := { pingSpec with assertions := [{ kind := .jsonFieldExists, target := ascii "id" }] }

end TestForge
