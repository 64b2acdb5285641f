/-! Masking of secrets in a text by rules that run over it from left to right. Each
rule locates a secret at the front of a text; the pass puts the mask in its place and
goes on behind it. A text is settled for a rule when the rule finds nothing to change
anywhere in it. -/
namespace TestForge.Masking

/-- What a rule keeps, the secret it found there and what follows. -/
structure Located (σ : Type) where
  kept : List σ
  secret : List σ
  behind : List σ

abbrev Rule (σ : Type) := List σ → Option (Located σ)

variable {σ : Type}

def pass (mask : List σ) (rule : Rule σ) : Nat → List σ → List σ
  | 0, text => text
  | _ + 1, [] => []
  | n + 1, c :: rest =>
    match rule (c :: rest) with
    | none => c :: pass mask rule n rest
    | some found =>
      found.kept ++ (if found.secret.isEmpty then [] else mask) ++ pass mask rule n found.behind

/-- The pass over the whole text. -/
def masked (mask : List σ) (rule : Rule σ) (text : List σ) : List σ := pass mask rule text.length text

/-- The rule changes nothing at the front of the text. -/
def Quiet (mask : List σ) (rule : Rule σ) (text : List σ) : Prop :=
  ∀ found, rule text = some found → found.secret = [] ∨ found.secret = mask

def Settled (mask : List σ) (rule : Rule σ) (text : List σ) : Prop :=
  ∀ u, u ≠ [] → u <:+ text → Quiet mask rule u

/-- What the passes need to know of one rule. -/
structure Lawful (mask : List σ) (rule : Rule σ) : Prop where
  splits : ∀ text found, rule text = some found → text = found.kept ++ found.secret ++ found.behind
  keeps : ∀ text found, rule text = some found → found.kept ≠ []
  /-- Where there is no secret, nothing is left to find in what the rule keeps. -/
  inner : ∀ text found, rule text = some found → found.secret = [] → ∀ u, u ≠ [] → u <:+ found.kept →
    Quiet mask rule (u ++ found.behind)
  /-- Once the mask is in place there is nothing left to find in front of it. -/
  closes : ∀ text found, rule text = some found → found.secret ≠ [] → ∀ u, u ≠ [] → u <:+ found.kept →
    Quiet mask rule (u ++ mask ++ found.behind)
  covers : ∀ u behind, u ≠ [] → u <:+ mask → rule (u ++ behind) = none

/-- Masking by `other` does not disturb what `rule` finds in front of it. -/
def Undisturbed (mask : List σ) (rule other : Rule σ) : Prop :=
  ∀ text found, other text = some found → found.secret ≠ [] → ∀ done u, u ≠ [] → u <:+ done ++ found.kept →
    Quiet mask rule (u ++ found.secret ++ found.behind) → Quiet mask rule (u ++ mask ++ found.behind)

theorem suffix_append_cases {u a b : List σ} (suffix : u <:+ a ++ b) :
    u <:+ b ∨ ∃ v, v ≠ [] ∧ v <:+ a ∧ u = v ++ b := by
  obtain ⟨front,equal⟩ := suffix
  rcases List.append_eq_append_iff.mp equal with ⟨v,rfl,rfl⟩ | ⟨v,rfl,rfl⟩
  · cases v with
    | nil => exact .inl (by simp)
    | cons c v => exact .inr ⟨c :: v,by simp,List.suffix_append _ _,rfl⟩
  · exact .inl (List.suffix_append _ _)

theorem Settled.suffix {mask : List σ} {rule : Rule σ} {text behind : List σ}
    (settled : Settled mask rule text) (suffix : behind <:+ text) : Settled mask rule behind :=
  fun u nonempty inside => settled u nonempty (inside.trans suffix)

theorem Quiet.of_none {mask : List σ} {rule : Rule σ} {text : List σ} (nothing : rule text = none) :
    Quiet mask rule text := by
  intro found located
  rw [nothing] at located
  cases located

theorem pass_settled {mask : List σ} {rule : Rule σ} (lawful : Lawful mask rule) (n : Nat) (text : List σ)
    (settled : Settled mask rule text) : pass mask rule n text = text := by
  induction n generalizing text with
  | zero => rfl
  | succ n ih =>
    cases text with
    | nil => rfl
    | cons c rest =>
      rw [pass]
      split
      · rw [ih rest (settled.suffix (List.suffix_cons _ _))]
      · next found located =>
        have split := lawful.splits _ _ located
        have suffix : found.behind <:+ c :: rest := split ▸ List.suffix_append _ _
        rw [ih _ (settled.suffix suffix)]
        rcases settled _ (by simp) List.suffix_rfl found located with empty | masked
        · simp [empty,split]
        · rw [split,masked]
          by_cases empty : mask = [] <;> simp [empty]

/-- A masking step keeps a text settled for a rule that it does not disturb. -/
theorem settled_step {mask : List σ} {rule other : Rule σ} (lawful : Lawful mask rule)
    (undisturbed : Undisturbed mask rule other) {done text : List σ} {found : Located σ}
    (located : other text = some found) (secret : found.secret ≠ [])
    (settled : Settled mask rule (done ++ found.kept ++ found.secret ++ found.behind)) :
    Settled mask rule (done ++ found.kept ++ mask ++ found.behind) := by
  intro u nonempty suffix
  rcases suffix_append_cases suffix with later | ⟨v,filled,before,rfl⟩
  · exact settled u nonempty (later.trans (List.suffix_append _ _))
  · rcases suffix_append_cases before with inside | ⟨w,started,earlier,rfl⟩
    · exact .of_none (lawful.covers v _ filled inside)
    · have old : w ++ found.secret ++ found.behind <:+ done ++ found.kept ++ found.secret ++ found.behind := by
        obtain ⟨front,equal⟩ := earlier
        exact ⟨front,by rw [← equal]; simp⟩
      exact undisturbed _ _ located secret done w started earlier (settled _ (by simp [started]) old)

/-- What a masking step keeps, whatever the scanner left behind it, a pass keeps. -/
theorem pass_invariant {mask : List σ} {rule : Rule σ} (P : List σ → Prop)
    (splits : ∀ text found, rule text = some found → text = found.kept ++ found.secret ++ found.behind)
    (step : ∀ done text found, rule text = some found → found.secret ≠ [] →
      P (done ++ found.kept ++ found.secret ++ found.behind) → P (done ++ found.kept ++ mask ++ found.behind))
    (n : Nat) (done text : List σ) (holds : P (done ++ text)) : P (done ++ pass mask rule n text) := by
  induction n generalizing done text with
  | zero => exact holds
  | succ n ih =>
    cases text with
    | nil => exact holds
    | cons c rest =>
      rw [pass]
      split
      · have := ih (done ++ [c]) rest (by simpa using holds)
        simpa using this
      · next found located =>
        have split := splits _ _ located
        rw [split] at holds
        by_cases secret : found.secret = []
        · have := ih (done ++ found.kept) found.behind (by simpa [secret] using holds)
          simpa [secret] using this
        · have kept := step done _ found located secret (by simpa using holds)
          have := ih (done ++ found.kept ++ mask) found.behind kept
          simpa [secret] using this

theorem pass_preserves {mask : List σ} {rule other : Rule σ} (lawful : Lawful mask rule)
    (splits : ∀ text found, other text = some found → text = found.kept ++ found.secret ++ found.behind)
    (undisturbed : Undisturbed mask rule other) (n : Nat) (text : List σ)
    (settled : Settled mask rule text) : Settled mask rule (pass mask other n text) :=
  pass_invariant (Settled mask rule) splits
    (fun _ _ _ located secret => settled_step lawful undisturbed located secret) n [] text settled

/-- The pass of a rule settles the text for the rule itself: behind the scanner
everything is quiet, and stays so. -/
theorem pass_settles {mask : List σ} {rule : Rule σ} (lawful : Lawful mask rule)
    (undisturbed : Undisturbed mask rule rule) (n : Nat) (done text : List σ) (enough : text.length ≤ n)
    (quiet : ∀ u, u ≠ [] → u <:+ done → Quiet mask rule (u ++ text)) :
    ∀ u, u ≠ [] → u <:+ done ++ pass mask rule n text → Quiet mask rule u := by
  induction n generalizing done text with
  | zero =>
    have empty : text = [] := List.length_eq_zero_iff.mp (Nat.le_zero.mp enough)
    subst empty
    intro u nonempty suffix
    simpa using quiet u nonempty (by simpa [pass] using suffix)
  | succ n ih =>
    cases text with
    | nil =>
      intro u nonempty suffix
      simpa using quiet u nonempty (by simpa [pass] using suffix)
    | cons c rest =>
      rw [pass]
      split
      · next nothing =>
        have now : ∀ u, u ≠ [] → u <:+ done ++ [c] → Quiet mask rule (u ++ rest) := by
          intro u nonempty suffix
          rcases suffix_append_cases suffix with last | ⟨v,filled,earlier,rfl⟩
          · rcases List.suffix_cons_iff.mp last with rfl | nil
            · exact .of_none nothing
            · exact absurd (List.suffix_nil.mp nil) nonempty
          · simpa using quiet v filled earlier
        have := ih (done ++ [c]) rest (by simpa using enough) now
        simpa using this
      · next found located =>
        have split := lawful.splits _ _ located
        have kept := List.length_pos_iff.mpr (lawful.keeps _ _ located)
        have shorter : found.behind.length ≤ n := by
          have := congrArg List.length split
          simp only [List.length_cons,List.length_append] at this enough
          omega
        by_cases secret : found.secret = []
        · have now : ∀ u, u ≠ [] → u <:+ done ++ found.kept → Quiet mask rule (u ++ found.behind) := by
            intro u nonempty suffix
            rcases suffix_append_cases suffix with inside | ⟨v,filled,earlier,rfl⟩
            · exact lawful.inner _ _ located secret u nonempty inside
            · have := quiet v filled earlier
              rw [split,secret] at this
              simpa using this
          have := ih (done ++ found.kept) found.behind shorter now
          simpa [secret] using this
        · have now : ∀ u, u ≠ [] → u <:+ done ++ found.kept ++ mask → Quiet mask rule (u ++ found.behind) := by
            intro u nonempty suffix
            rcases suffix_append_cases suffix with covered | ⟨v,filled,earlier,rfl⟩
            · exact .of_none (lawful.covers u _ nonempty covered)
            · rcases suffix_append_cases earlier with inside | ⟨w,started,front,rfl⟩
              · exact lawful.closes _ _ located secret v filled inside
              · have old := quiet w started front
                rw [split] at old
                exact undisturbed _ _ located secret done _ filled earlier (by simpa using old)
          have := ih (done ++ found.kept ++ mask) found.behind shorter now
          simpa [secret] using this

/-! ### The pass over a composed text -/

theorem Lawful.behind_shorter {mask : List σ} {rule : Rule σ} (lawful : Lawful mask rule) {text : List σ}
    {found : Located σ} (located : rule text = some found) : found.behind.length < text.length := by
  have kept := List.length_pos_iff.mpr (lawful.keeps _ _ located)
  have lengths := congrArg List.length (lawful.splits _ _ located)
  simp only [List.length_append] at lengths
  omega

theorem pass_enough {mask : List σ} {rule : Rule σ} (lawful : Lawful mask rule) (n : Nat) (text : List σ)
    (enough : text.length ≤ n) : pass mask rule n text = masked mask rule text := by
  unfold masked
  induction h : text.length using Nat.strongRecOn generalizing n text with
  | _ k ih =>
    subst h
    cases text with
    | nil => cases n <;> rfl
    | cons c rest =>
      obtain ⟨n,rfl⟩ : ∃ m, n = m + 1 := ⟨n - 1,by simp only [List.length_cons] at enough; omega⟩
      rw [List.length_cons,pass,pass]
      simp only [List.length_cons] at enough ih
      cases located : rule (c :: rest) with
      | none =>
        dsimp only
        rw [ih rest.length (by omega) n rest (by omega) rfl]
      | some found =>
        have shorter := lawful.behind_shorter located
        simp only [List.length_cons] at shorter
        dsimp only
        rw [ih found.behind.length shorter n _ (by omega) rfl,
          ih found.behind.length shorter rest.length _ (by omega) rfl]

@[simp] theorem masked_nil (mask : List σ) (rule : Rule σ) : masked mask rule [] = [] := rfl

theorem masked_none {mask : List σ} {rule : Rule σ} {c : σ} {rest : List σ} (nothing : rule (c :: rest) = none) :
    masked mask rule (c :: rest) = c :: masked mask rule rest := by
  rw [masked,List.length_cons,pass,nothing,masked]

theorem masked_found {mask : List σ} {rule : Rule σ} (lawful : Lawful mask rule) {text : List σ}
    {found : Located σ} (located : rule text = some found) : masked mask rule text =
      found.kept ++ (if found.secret.isEmpty then [] else mask) ++ masked mask rule found.behind := by
  have shorter := lawful.behind_shorter located
  cases text with
  | nil => cases shorter
  | cons c rest =>
    simp only [List.length_cons] at shorter
    rw [masked,List.length_cons,pass,located]
    dsimp only
    rw [pass_enough lawful rest.length found.behind (by omega)]

def Located.followed (found : Located σ) (rest : List σ) : Located σ :=
  ⟨found.kept,found.secret,found.behind ++ rest⟩

/-- A text that what follows does not reach into is masked by itself. -/
theorem masked_append {mask : List σ} {rule : Rule σ} (lawful : Lawful mask rule) (front rest : List σ)
    (apart : ∀ u, u ≠ [] → u <:+ front → rule (u ++ rest) = (rule u).map (Located.followed · rest)) :
    masked mask rule (front ++ rest) = masked mask rule front ++ masked mask rule rest := by
  induction h : front.length using Nat.strongRecOn generalizing front with
  | _ k ih =>
    subst h
    cases front with
    | nil => simp
    | cons c front =>
      have whole := apart (c :: front) (by simp) List.suffix_rfl
      cases located : rule (c :: front) with
      | none =>
        rw [located,List.cons_append] at whole
        rw [List.cons_append,masked_none whole,masked_none located,List.cons_append]
        congr 1
        exact ih front.length (by simp) front
          (fun u nonempty suffix => apart u nonempty (suffix.trans (List.suffix_cons _ _))) rfl
      | some found =>
        rw [located] at whole
        have behind : found.behind <:+ c :: front := lawful.splits _ _ located ▸ List.suffix_append _ _
        rw [masked_found lawful whole,masked_found lawful located]
        have := ih found.behind.length (lawful.behind_shorter located) found.behind
          (fun u nonempty suffix => apart u nonempty (suffix.trans behind)) rfl
        simp [Located.followed,this]

/-- The scanner passes over a front in which it finds nothing to mask. -/
theorem masked_over {mask : List σ} {rule : Rule σ} (lawful : Lawful mask rule) (front rest : List σ)
    (nothing : ∀ u, u ≠ [] → u <:+ front → ∀ found, rule (u ++ rest) = some found →
      found.secret = [] ∧ found.kept <+: u) :
    masked mask rule (front ++ rest) = front ++ masked mask rule rest := by
  induction h : front.length using Nat.strongRecOn generalizing front with
  | _ k ih =>
    subst h
    cases front with
    | nil => simp
    | cons c front =>
      cases located : rule (c :: front ++ rest) with
      | none =>
        rw [List.cons_append] at located ⊢
        rw [masked_none located,List.cons_append]
        congr 1
        exact ih front.length (by simp) front
          (fun u nonempty suffix => nothing u nonempty (suffix.trans (List.suffix_cons _ _))) rfl
      | some found =>
        obtain ⟨empty,w,split⟩ := nothing _ (by simp) List.suffix_rfl found located
        have behind : found.behind = w ++ rest := by
          have whole := lawful.splits _ _ located
          rw [← split,empty,List.append_nil,List.append_assoc] at whole
          exact (List.append_cancel_left whole).symm
        have shorter : w.length < (c :: front).length := by
          have kept := List.length_pos_iff.mpr (lawful.keeps _ _ located)
          rw [← split,List.length_append]
          omega
        rw [masked_found lawful located,behind,empty,ih w.length shorter w
          (fun u nonempty suffix => nothing u nonempty (suffix.trans (split ▸ List.suffix_append _ _))) rfl]
        simp [← split]

/-- Nothing that the rule keeps is in the text. -/
def Clear (rule : Rule σ) (text : List σ) : Prop :=
  ∀ source found, rule source = some found → ∀ u, u ≠ [] → u <:+ text → ¬found.kept <+: u

theorem masked_eq_iff {mask : List σ} {rule : Rule σ} (lawful : Lawful mask rule) {text out : List σ}
    (clear : Clear rule out) : masked mask rule text = out ↔ text = out := by
  induction out generalizing text with
  | nil =>
    cases text with
    | nil => simp
    | cons c rest =>
      cases located : rule (c :: rest) with
      | none => simp [masked_none located]
      | some found => simp [masked_found lawful located,lawful.keeps _ _ located]
  | cons x out ih =>
    cases text with
    | nil => simp
    | cons c rest =>
      cases located : rule (c :: rest) with
      | none =>
        rw [masked_none located,List.cons_eq_cons,List.cons_eq_cons,ih fun source found known u nonempty suffix =>
          clear source found known u nonempty (suffix.trans (List.suffix_cons _ _))]
      | some found =>
        constructor
        · intro equal
          rw [masked_found lawful located,List.append_assoc] at equal
          exact absurd ⟨_,equal⟩ (clear _ found located _ (by simp) List.suffix_rfl)
        · intro equal
          rw [equal] at located
          have split := lawful.splits _ _ located
          rw [List.append_assoc] at split
          exact absurd ⟨_,split.symm⟩ (clear _ found located _ (by simp) List.suffix_rfl)

/-- One pass of each rule, in order. -/
def passes (mask : List σ) (rules : List (Rule σ)) (text : List σ) : List σ :=
  rules.foldl (fun out rule => masked mask rule out) text

theorem passes_settled {mask : List σ} {rules : List (Rule σ)} (lawful : ∀ rule ∈ rules, Lawful mask rule)
    (text : List σ) (settled : ∀ rule ∈ rules, Settled mask rule text) : passes mask rules text = text := by
  induction rules with
  | nil => rfl
  | cons rule rest ih =>
    have same := pass_settled (lawful rule (by simp)) text.length text (settled rule (by simp))
    rw [passes,List.foldl_cons,masked,same]
    exact ih (fun other member => lawful other (by simp [member])) fun other member =>
      settled other (by simp [member])

theorem passes_preserves {mask : List σ} {rule : Rule σ} {rules : List (Rule σ)} (lawful : Lawful mask rule)
    (others : ∀ other ∈ rules, Lawful mask other) (undisturbed : ∀ other ∈ rules, Undisturbed mask rule other)
    (text : List σ) (settled : Settled mask rule text) : Settled mask rule (passes mask rules text) := by
  induction rules generalizing text with
  | nil => exact settled
  | cons other rest ih =>
    have step := pass_preserves lawful (others other (by simp)).splits (undisturbed other (by simp))
      text.length text settled
    rw [passes,List.foldl_cons]
    exact ih (fun x member => others x (by simp [member])) (fun x member => undisturbed x (by simp [member])) _ step

/-- When no rule disturbs an earlier one or itself, the passes settle the text for all. -/
theorem passes_settle {mask : List σ} {rules : List (Rule σ)} (lawful : ∀ rule ∈ rules, Lawful mask rule)
    (itself : ∀ rule ∈ rules, Undisturbed mask rule rule) (later : rules.Pairwise (Undisturbed mask))
    (text : List σ) : ∀ rule ∈ rules, Settled mask rule (passes mask rules text) := by
  induction rules generalizing text with
  | nil => simp
  | cons first rest ih =>
    obtain ⟨ahead,later⟩ := List.pairwise_cons.mp later
    have others : ∀ rule ∈ rest, Lawful mask rule := fun rule member => lawful rule (by simp [member])
    intro rule member
    rw [passes,List.foldl_cons]
    rcases List.mem_cons.mp member with rfl | member
    · have settled := pass_settles (lawful rule (by simp)) (itself rule (by simp)) text.length [] text
        (Nat.le_refl _) fun u nonempty suffix => absurd (List.suffix_nil.mp suffix) nonempty
      exact passes_preserves (lawful rule (by simp)) others ahead _ settled
    · exact ih others (fun rule member => itself rule (by simp [member])) later _ rule member

theorem passes_append (mask : List σ) (a b : List (Rule σ)) (text : List σ) :
    passes mask (a ++ b) text = passes mask b (passes mask a text) := List.foldl_append

theorem passes_eq_iff {mask : List σ} {rules : List (Rule σ)} (lawful : ∀ rule ∈ rules, Lawful mask rule)
    {text out : List σ} (clear : ∀ rule ∈ rules, Clear rule out) : passes mask rules text = out ↔ text = out := by
  induction rules generalizing text with
  | nil => rfl
  | cons rule rest ih =>
    rw [passes,List.foldl_cons]
    exact (ih (fun other member => lawful other (by simp [member]))
      fun other member => clear other (by simp [member])).trans
      (masked_eq_iff (lawful rule (by simp)) (clear rule (by simp)))

theorem passes_idempotent {mask : List σ} {rules : List (Rule σ)} (lawful : ∀ rule ∈ rules, Lawful mask rule)
    (itself : ∀ rule ∈ rules, Undisturbed mask rule rule) (later : rules.Pairwise (Undisturbed mask))
    (text : List σ) : passes mask rules (passes mask rules text) = passes mask rules text :=
  passes_settled lawful _ (passes_settle lawful itself later text)

end TestForge.Masking
