import TestForge.Masking
import TestForge.Strings

/-! `redactSecrets`: the rules for keys, bearer tokens and provider tokens. -/
namespace TestForge.Strings

open Masking

def redactionMask : Bytes := ascii "***REDACTED***"

/-- Where a "key: value" run stops. -/
def isValueTerminator (c : UInt8) : Bool :=
  c == 34 || c == 44 || c == 10 || c == 13 || c == 125 || c == 38

def isQuoteOrSpace (c : UInt8) : Bool := c == 34 || isSpace c

def isSeparator (c : UInt8) : Bool := c == 58 || c == 61

/-- The run up to a terminator, without the whitespace at its end. -/
def secretOf (value : Bytes) : Bytes := (value.takeWhile fun c => !isValueTerminator c).rdropWhile isSpace

/-- `key: value` and `key=value`. A value that is the mask already is masked again,
which leaves it and the scan where the source leaves them. -/
def keyRule (key : Bytes) : Rule UInt8 := fun text =>
  if startsWith (toLower text) key then
    let name := text.take key.length
    let after := text.drop key.length
    match after.dropWhile isQuoteOrSpace with
    | [] => some ⟨name,[],after⟩
    | c :: rest =>
      if isSeparator c then
        let value := rest.dropWhile isQuoteOrSpace
        some ⟨name ++ after.takeWhile isQuoteOrSpace ++ c :: rest.takeWhile isQuoteOrSpace,secretOf value,
          value.drop (secretOf value).length⟩
      else some ⟨name,[],after⟩
  else none

def endsToken (c : UInt8) : Bool := isSpace c || c == 34 || c == 44

def bearerRule : Rule UInt8 := fun text =>
  if startsWith (toLower text) (ascii "bearer ") then
    let value := text.drop 7
    some ⟨text.take 7,value.takeWhile fun c => !endsToken c,value.dropWhile fun c => !endsToken c⟩
  else none

def isTokenByte (c : UInt8) : Bool := isAlnum c || c == 45 || c == 95

/-- A token recognisable by what it starts with, when at least eight bytes follow. -/
def prefixRule (start : Bytes) : Rule UInt8 := fun text =>
  if startsWith text start then
    let value := text.drop start.length
    let tail := value.takeWhile isTokenByte
    if tail.length < 8 then some ⟨start ++ tail,[],value.dropWhile isTokenByte⟩
    else some ⟨start,tail,value.dropWhile isTokenByte⟩
  else none

def kKeys : List Bytes :=
  [ascii "authorization",ascii "password",ascii "passwd",ascii "secret",ascii "token",ascii "api_key",
    ascii "apikey"]

def kPrefixes : List Bytes := [ascii "sk-",ascii "ghp_",ascii "gho_",ascii "xoxb-",ascii "AKIA"]

def redactionRules : List (Rule UInt8) := kKeys.map keyRule ++ [bearerRule] ++ kPrefixes.map prefixRule

def redactSecrets (text : Bytes) : Bytes := passes redactionMask redactionRules text

/-! ### Values -/

theorem mem_rdropWhile {p : UInt8 → Bool} {text : Bytes} {c : UInt8} (member : c ∈ text)
    (other : p c = false) : c ∈ text.rdropWhile p := by
  induction text using List.reverseRecOn with
  | nil => cases member
  | append_singleton text x ih =>
    by_cases drop : p x = true
    · rw [List.rdropWhile_concat_pos _ _ _ drop]
      rcases List.mem_append.mp member with inside | last
      · exact ih inside
      · rw [List.mem_singleton.mp last,drop] at other
        cases other
    · rw [List.rdropWhile_concat_neg _ _ _ drop]
      exact member

theorem takeWhile_append_stop {p : α → Bool} {a : List α} (b : List α) {c : α} (member : c ∈ a)
    (stop : p c = false) : (a ++ b).takeWhile p = a.takeWhile p ∧ (a ++ b).dropWhile p = a.dropWhile p ++ b := by
  induction a with
  | nil => cases member
  | cons x a ih =>
    cases holds : p x with
    | false => simp [holds]
    | true =>
      have inside : c ∈ a := by
        rcases List.mem_cons.mp member with rfl | inside
        · rw [holds] at stop
          cases stop
        · exact inside
      simp [holds,ih inside]

/-- A terminator inside the front of a value settles what the secret is. -/
theorem secretOf_stop (a b : Bytes) (c : UInt8) (member : c ∈ a) (stop : isValueTerminator c = true) :
    secretOf (a ++ b) = secretOf a := by
  have taken := takeWhile_append_stop (p := fun c => !isValueTerminator c) b member (by simp [stop])
  rw [secretOf,taken.1,secretOf]

/-- Without one, every visible byte of the front is in the secret. -/
theorem mem_secretOf (a b : Bytes) (whole : ∀ c ∈ a, isValueTerminator c = false) (c : UInt8) (member : c ∈ a)
    (visible : isSpace c = false) : c ∈ secretOf (a ++ b) := by
  rw [secretOf,List.takeWhile_append_of_pos (by simpa using whole)]
  exact mem_rdropWhile (List.mem_append_left _ member) visible

/-- A value that starts with a visible byte outside the mask keeps being masked, or
keeps being none, whatever comes behind that byte. -/
theorem secretOf_fixed (a b b' : Bytes) (c : UInt8) (member : c ∈ a) (visible : isSpace c = false)
    (foreign : c ∉ redactionMask) (quiet : secretOf (a ++ b) = [] ∨ secretOf (a ++ b) = redactionMask) :
    secretOf (a ++ b') = [] ∨ secretOf (a ++ b') = redactionMask := by
  by_cases whole : ∀ x ∈ a, isValueTerminator x = false
  · have inside := mem_secretOf a b whole c member visible
    rcases quiet with empty | masked
    · rw [empty] at inside
      cases inside
    · rw [masked] at inside
      exact absurd inside foreign
  · obtain ⟨x,known,stop⟩ : ∃ x ∈ a, isValueTerminator x = true := by simpa using whole
    rw [secretOf_stop a b' x known stop]
    rwa [secretOf_stop a b x known stop] at quiet

/-- The secret is a value up to whitespace and a terminator. -/
theorem secretOf_split (value : Bytes) : ∃ spaces rest, value = secretOf value ++ (spaces ++ rest) ∧
    (∀ c ∈ spaces, isSpace c = true ∧ isValueTerminator c = false) ∧
    (∀ c ∈ secretOf value, isValueTerminator c = false) ∧ (∀ c ∈ rest.head?, isValueTerminator c = true) := by
  let run := value.takeWhile fun c => !isValueTerminator c
  have inside : ∀ c ∈ run, isValueTerminator c = false := by
    intro c member
    simpa using List.mem_takeWhile_imp member
  have parts : run = secretOf value ++ run.rtakeWhile isSpace := List.rdropWhile_append_rtakeWhile.symm
  refine ⟨run.rtakeWhile isSpace,value.dropWhile fun c => !isValueTerminator c,?_,?_,?_,?_⟩
  · rw [← List.append_assoc,← parts,List.takeWhile_append_dropWhile]
  · intro c member
    refine ⟨List.mem_rtakeWhile_imp member,inside c ?_⟩
    rw [parts]
    exact List.mem_append_right _ member
  · intro c member
    apply inside
    rw [parts]
    exact List.mem_append_left _ member
  · intro c first
    have stop := List.head?_dropWhile_not (fun c => !isValueTerminator c) value
    rw [Option.mem_def.mp first] at stop
    simpa using stop

theorem secretOf_run (secret spaces rest : Bytes) (plain : ∀ c ∈ secret, isValueTerminator c = false)
    (last : ∀ c ∈ secret.getLast?, isSpace c = false)
    (blank : ∀ c ∈ spaces, isSpace c = true ∧ isValueTerminator c = false)
    (stop : ∀ c ∈ rest.head?, isValueTerminator c = true) : secretOf (secret ++ (spaces ++ rest)) = secret := by
  have run : (secret ++ (spaces ++ rest)).takeWhile (fun c => !isValueTerminator c) = secret ++ spaces := by
    rw [← List.append_assoc,List.takeWhile_append_of_pos]
    · cases rest with
      | nil => simp
      | cons c rest => simp [stop c (by simp)]
    · intro c member
      rcases List.mem_append.mp member with inside | inside
      · simp [plain c inside]
      · simp [(blank c inside).2]
  rw [secretOf,run]
  clear run
  induction spaces using List.reverseRecOn with
  | nil =>
    rw [List.append_nil,List.rdropWhile_eq_self_iff]
    intro nonempty
    simp [last _ (List.getLast?_eq_some_getLast nonempty)]
  | append_singleton spaces c ih =>
    rw [← List.append_assoc,List.rdropWhile_concat_pos _ _ _ (blank c (by simp)).1]
    exact ih fun x member => blank x (by simp [member])

/-- Behind the mask the same text ends the value. -/
theorem secretOf_mask (value : Bytes) :
    secretOf (redactionMask ++ value.drop (secretOf value).length) = redactionMask := by
  obtain ⟨spaces,rest,split,blank,-,stop⟩ := secretOf_split value
  have behind := congrArg (List.drop (secretOf value).length) split
  rw [List.drop_left] at behind
  rw [behind]
  exact secretOf_run _ _ _ (by decide +kernel) (by decide +kernel) blank stop

/-! ### The rule for keys -/

/-- The secret that the text behind a key assigns to it. -/
def assigned (after : Bytes) : Bytes :=
  match after.dropWhile isQuoteOrSpace with
  | [] => []
  | c :: rest => if isSeparator c then secretOf (rest.dropWhile isQuoteOrSpace) else []

/-- What of that text the rule keeps in front of the secret. -/
def assignment (after : Bytes) : Bytes :=
  match after.dropWhile isQuoteOrSpace with
  | [] => []
  | c :: rest =>
    if isSeparator c then after.takeWhile isQuoteOrSpace ++ c :: rest.takeWhile isQuoteOrSpace else []

theorem startsWith_named {text key : Bytes} (starts : startsWith (toLower text) key = true) :
    ∃ name, text = name ++ text.drop key.length ∧ toLower name = key := by
  refine ⟨text.take key.length,(List.take_append_drop _ _).symm,?_⟩
  rw [toLower,List.map_take]
  exact (List.prefix_iff_eq_take.mp (List.isPrefixOf_iff_prefix.mp starts)).symm

theorem keyRule_named (key name after : Bytes) (named : toLower name = key) : keyRule key (name ++ after) =
    some ⟨name ++ assignment after,assigned after,
      (after.drop (assignment after).length).drop (assigned after).length⟩ := by
  have long : key.length = name.length := by rw [← named,toLower_length]
  have starts : startsWith (toLower (name ++ after)) key = true := by
    rw [toLower_append,named]
    exact List.isPrefixOf_iff_prefix.mpr (List.prefix_append _ _)
  rw [keyRule,if_pos starts,long,List.take_left,List.drop_left]
  unfold assigned assignment
  dsimp only
  cases skipped : after.dropWhile isQuoteOrSpace with
  | nil => simp
  | cons c rest =>
    dsimp only
    have shape : after = after.takeWhile isQuoteOrSpace ++ c :: rest := by
      rw [← skipped,List.takeWhile_append_dropWhile]
    by_cases separator : isSeparator c = true
    · have behind : after.drop (after.takeWhile isQuoteOrSpace ++ c :: rest.takeWhile isQuoteOrSpace).length =
          rest.dropWhile isQuoteOrSpace := by
        have whole : after = after.takeWhile isQuoteOrSpace ++ c :: rest.takeWhile isQuoteOrSpace ++
            rest.dropWhile isQuoteOrSpace := by
          rw [List.append_assoc,List.cons_append,List.takeWhile_append_dropWhile,← shape]
        have dropped := congrArg
          (List.drop (after.takeWhile isQuoteOrSpace ++ c :: rest.takeWhile isQuoteOrSpace).length) whole
        rwa [List.drop_left] at dropped
      simp only [if_pos separator,behind,List.append_assoc]
    · simp [separator]

theorem keyRule_some {key text : Bytes} {found : Located UInt8} (located : keyRule key text = some found) :
    ∃ name after, text = name ++ after ∧ toLower name = key ∧
      found = ⟨name ++ assignment after,assigned after,
        (after.drop (assignment after).length).drop (assigned after).length⟩ := by
  have starts : startsWith (toLower text) key = true := by
    by_contra other
    rw [keyRule,if_neg other] at located
    cases located
  obtain ⟨name,split,named⟩ := startsWith_named starts
  refine ⟨name,text.drop key.length,split,named,?_⟩
  have rule := keyRule_named key name (text.drop key.length) named
  rw [← split,located] at rule
  exact Option.some.inj rule

theorem keyRule_none {key text : Bytes} (other : ¬key <+: toLower text) : keyRule key text = none := by
  have starts : ¬startsWith (toLower text) key = true := fun starts =>
    other (List.isPrefixOf_iff_prefix.mp starts)
  rw [keyRule,if_neg starts]

theorem keyRule_quiet (key name after : Bytes) (named : toLower name = key) :
    Quiet redactionMask (keyRule key) (name ++ after) ↔
      assigned after = [] ∨ assigned after = redactionMask := by
  constructor
  · intro quiet
    exact quiet _ (keyRule_named key name after named)
  · intro secret found located
    rw [keyRule_named key name after named] at located
    exact Option.some.inj located ▸ secret

theorem assigned_eq {after rest : Bytes} {c : UInt8} (skipped : after.dropWhile isQuoteOrSpace = c :: rest) :
    assigned after = if isSeparator c then secretOf (rest.dropWhile isQuoteOrSpace) else [] := by
  rw [assigned,skipped]

/-- A block in front of what changes: either no value reaches it, or one runs through
it, or the block itself starts with the separator. -/
theorem assigned_block (before block : Bytes) (c : UInt8) (first : block.head? = some c)
    (visible : isQuoteOrSpace c = false) :
    (∀ t, assigned (before ++ (block ++ t)) = []) ∨
    (∃ z, ∀ t, assigned (before ++ (block ++ t)) = secretOf (z ++ (block ++ t))) ∨
    isSeparator c = true ∧ ∀ t, assigned (before ++ (block ++ t)) = assigned (block ++ t) := by
  obtain ⟨rest,rfl⟩ : ∃ rest, block = c :: rest := by
    cases block with
    | nil => cases first
    | cons x rest => exact ⟨rest,by simpa using first⟩
  have stays : ∀ t, (c :: rest ++ t).dropWhile isQuoteOrSpace = c :: (rest ++ t) := by
    intro t
    simp [visible]
  by_cases skip : ∀ x ∈ before, isQuoteOrSpace x = true
  · have dropped : ∀ t, (before ++ (c :: rest ++ t)).dropWhile isQuoteOrSpace = c :: (rest ++ t) := by
      intro t
      rw [List.dropWhile_append_of_pos skip,stays]
    by_cases separator : isSeparator c = true
    · right; right
      refine ⟨separator,fun t => ?_⟩
      rw [assigned_eq (dropped t),assigned_eq (stays t)]
    · left
      intro t
      rw [assigned_eq (dropped t),if_neg separator]
  · obtain ⟨x,member,other⟩ : ∃ x ∈ before, isQuoteOrSpace x = false := by simpa using skip
    obtain ⟨y,behind,shape⟩ : ∃ y behind, before.dropWhile isQuoteOrSpace = y :: behind := by
      apply List.exists_cons_of_ne_nil
      intro empty
      rw [List.dropWhile_eq_nil_iff] at empty
      rw [empty x member] at other
      cases other
    have dropped : ∀ t, (before ++ (c :: rest ++ t)).dropWhile isQuoteOrSpace = y :: (behind ++ (c :: rest ++ t)) := by
      intro t
      rw [(takeWhile_append_stop _ member other).2,shape,List.cons_append]
    by_cases separator : isSeparator y = true
    · right; left
      by_cases through : ∀ x ∈ behind, isQuoteOrSpace x = true
      · refine ⟨[],fun t => ?_⟩
        rw [assigned_eq (dropped t),if_pos separator,List.dropWhile_append_of_pos through,stays]
        rfl
      · obtain ⟨w,inside,stop⟩ : ∃ w ∈ behind, isQuoteOrSpace w = false := by simpa using through
        refine ⟨behind.dropWhile isQuoteOrSpace,fun t => ?_⟩
        rw [assigned_eq (dropped t),if_pos separator,(takeWhile_append_stop _ inside stop).2]
    · left
      intro t
      rw [assigned_eq (dropped t),if_neg separator]

/-- A value that runs through a visible byte outside the mask is not the mask, so one
that is quiet does not reach what changes; one that starts there must be quiet by itself. -/
theorem assigned_fixed (before block : Bytes) (c : UInt8) (first : block.head? = some c)
    (visible : isQuoteOrSpace c = false) (foreign : ∃ x ∈ block, isSpace x = false ∧ x ∉ redactionMask)
    (t t' : Bytes)
    (start : isSeparator c = true → assigned (block ++ t') = [] ∨ assigned (block ++ t') = redactionMask)
    (quiet : assigned (before ++ (block ++ t)) = [] ∨ assigned (before ++ (block ++ t)) = redactionMask) :
    assigned (before ++ (block ++ t')) = [] ∨ assigned (before ++ (block ++ t')) = redactionMask := by
  obtain ⟨x,member,shown,foreign⟩ := foreign
  rcases assigned_block before block c first visible with nothing | ⟨z,through⟩ | ⟨separator,same⟩
  · exact .inl (nothing t')
  · rw [through,← List.append_assoc] at quiet ⊢
    exact secretOf_fixed _ t t' x (List.mem_append_right _ member) shown foreign quiet
  · rw [same]
    exact start separator

/-- A found secret follows a separator and is followed by what ends it. -/
theorem assignment_shape (after : Bytes) (secret : assigned after ≠ []) : ∃ spaces c gap,
    assignment after = spaces ++ c :: gap ∧ isSeparator c = true ∧
      (∀ x ∈ spaces, isQuoteOrSpace x = true) ∧ (∀ x ∈ gap, isQuoteOrSpace x = true) ∧
      secretOf (redactionMask ++ (after.drop (assignment after).length).drop (assigned after).length) =
        redactionMask := by
  unfold assigned at secret
  split at secret
  · exact absurd rfl secret
  next c rest skipped =>
  split at secret
  · next separator =>
    have value : assigned after = secretOf (rest.dropWhile isQuoteOrSpace) := by
      rw [assigned_eq skipped,if_pos separator]
    have kept : assignment after = after.takeWhile isQuoteOrSpace ++ c :: rest.takeWhile isQuoteOrSpace := by
      rw [assignment,skipped]
      exact if_pos separator
    refine ⟨after.takeWhile isQuoteOrSpace,c,rest.takeWhile isQuoteOrSpace,kept,separator,
      fun _ member => List.mem_takeWhile_imp member,fun _ member => List.mem_takeWhile_imp member,?_⟩
    have whole : after = assignment after ++ rest.dropWhile isQuoteOrSpace := by
      rw [kept,List.append_assoc,List.cons_append,List.takeWhile_append_dropWhile,← skipped,
        List.takeWhile_append_dropWhile]
    have behind := congrArg (List.drop (assignment after).length) whole
    rw [List.drop_left] at behind
    rw [behind,value]
    exact secretOf_mask _
  · exact absurd rfl secret

/-- What the rule keeps, the secret and what follows are the whole text. -/
theorem assignment_split (after : Bytes) : after = assignment after ++ (assigned after ++
    (after.drop (assignment after).length).drop (assigned after).length) := by
  have shape : ∃ value, after = assignment after ++ value ∧ assigned after <+: value := by
    cases skipped : after.dropWhile isQuoteOrSpace with
    | nil => exact ⟨after,by simp [assignment,skipped],by simp [assigned,skipped]⟩
    | cons c rest =>
      by_cases separator : isSeparator c = true
      · refine ⟨rest.dropWhile isQuoteOrSpace,?_,?_⟩
        · have kept : assignment after = after.takeWhile isQuoteOrSpace ++ c :: rest.takeWhile isQuoteOrSpace := by
            rw [assignment,skipped]
            exact if_pos separator
          rw [kept,List.append_assoc,List.cons_append,List.takeWhile_append_dropWhile,← skipped,
            List.takeWhile_append_dropWhile]
        · rw [assigned_eq skipped,if_pos separator]
          exact (List.rdropWhile_prefix _ _).trans (List.takeWhile_prefix _)
      · refine ⟨after,?_,?_⟩
        · simp [assignment,skipped,separator]
        · simp [assigned,skipped,separator]
  obtain ⟨value,whole,⟨rest,pre⟩⟩ := shape
  have behind := congrArg (List.drop (assignment after).length) whole
  rw [List.drop_left] at behind
  have tail := congrArg (List.drop (assigned after).length) pre
  rw [List.drop_left] at tail
  rw [behind,← tail,pre,← whole]

/-! ### Occurrences -/

theorem prefix_append_cases {key a b : Bytes} (pre : key <+: a ++ b) : key <+: a ∨ a <+: key := by
  rcases List.prefix_or_prefix_of_prefix pre (List.prefix_append a b) with first | second
  · exact .inl first
  · exact .inr second

/-- A key in front of the mask does not reach into it. -/
theorem named_before_mask {key u behind : Bytes} (star : (42 : UInt8) ∉ key)
    (pre : key <+: toLower (u ++ redactionMask ++ behind)) :
    ∃ name after, u = name ++ after ∧ toLower name = key := by
  rw [List.append_assoc,toLower_append] at pre
  rcases prefix_append_cases pre with inside | outside
  · refine ⟨u.take key.length,u.drop key.length,(List.take_append_drop _ _).symm,?_⟩
    rw [toLower,List.map_take]
    exact (List.prefix_iff_eq_take.mp inside).symm
  · obtain ⟨more,rfl⟩ := outside
    cases more with
    | nil => exact ⟨u,[],by simp,by simp⟩
    | cons c more =>
      have next : c :: more <+: toLower (redactionMask ++ behind) := (List.prefix_append_right_inj _).mp pre
      obtain ⟨rest,shape⟩ := next
      have same : c = 42 := by
        have := congrArg List.head? shape
        simpa [redactionMask,ascii,toLower,lowerAscii] using this
      exact absurd (by simp [same]) star

/-- An occurrence in front of a block whose bytes cannot end it lies before the block. -/
theorem before_block {name after done block : Bytes} (last : UInt8) (ends : name.getLast? = some last)
    (apart : last ∉ block) (suffix : name ++ after <:+ done ++ block) : ∃ y, after = y ++ block := by
  have member : last ∈ name := List.mem_of_getLast? ends
  rcases suffix_append_cases suffix with inside | ⟨v,-,-,equal⟩
  · exact absurd (inside.subset (List.mem_append_left _ member)) apart
  · rcases List.append_eq_append_iff.mp equal with ⟨w,rfl,rfl⟩ | ⟨w,rfl,rfl⟩
    · exact ⟨w,rfl⟩
    · cases w with
      | nil => exact ⟨[],by simp⟩
      | cons c w =>
        have inside : last ∈ c :: w := by
          rw [List.getLast?_append_of_ne_nil _ (by simp)] at ends
          exact List.mem_of_getLast? ends
        exact absurd (List.mem_append_left _ inside) apart

/-! ### Laws of the key rules -/

/-- No end of a key starts it again. -/
theorem kKeys_borders : ∀ key ∈ kKeys, ∀ w ∈ key.tails, w ≠ [] → w ≠ key → ¬w <+: key := by decide

theorem kKeys_covered : ∀ key ∈ kKeys, ∀ m ∈ redactionMask.tails, m ≠ [] →
    ¬key <+: toLower m ∧ ¬toLower m <+: key := by decide

theorem kKeys_bytes : ∀ key ∈ kKeys, key ≠ [] ∧ (42 : UInt8) ∉ key ∧
    (∀ c ∈ key.head?, isAlpha c = true) ∧ ∀ c ∈ key.getLast?, c ∈ ([110,100,116,121] : Bytes) := by decide +kernel

theorem assigned_masked (spaces gap behind : Bytes) (c : UInt8) (separator : isSeparator c = true)
    (skipped : ∀ x ∈ spaces, isQuoteOrSpace x = true) (passed : ∀ x ∈ gap, isQuoteOrSpace x = true)
    (ends : secretOf (redactionMask ++ behind) = redactionMask) :
    assigned (spaces ++ (c :: gap ++ (redactionMask ++ behind))) = redactionMask := by
  have visible : isQuoteOrSpace c = false := by
    simp only [isSeparator,Bool.or_eq_true,beq_iff_eq] at separator
    rcases separator with rfl | rfl <;> decide
  have dropped : (spaces ++ (c :: gap ++ (redactionMask ++ behind))).dropWhile isQuoteOrSpace =
      c :: (gap ++ (redactionMask ++ behind)) := by
    rw [List.dropWhile_append_of_pos skipped]
    simp [visible]
  rw [assigned_eq dropped,if_pos separator,List.dropWhile_append_of_pos passed]
  exact ends

/-- Text that has no border with itself does not start again inside its own end. -/
theorem not_overlapping {key name v : Bytes} (borders : ∀ w ∈ key.tails, w ≠ [] → w ≠ key → ¬w <+: key)
    (named : toLower name = key) (started : v ≠ []) (within : v <:+ name) (other : v ≠ name) (t : Bytes) :
    ¬key <+: toLower (v ++ t) := by
  intro pre
  have lowered : toLower v ∈ key.tails := by
    rw [List.mem_tails,← named]
    obtain ⟨front,rfl⟩ := within
    exact ⟨toLower front,(toLower_append _ _).symm⟩
  have shorter : toLower v ≠ key := by
    intro equal
    have lengths := congrArg List.length (equal.trans named.symm)
    rw [toLower_length,toLower_length] at lengths
    exact other (within.eq_of_length lengths)
  have border := borders (toLower v) lowered (by simpa [toLower] using started) shorter
  rw [toLower_append] at pre
  rcases prefix_append_cases pre with whole | start
  · have longer := whole.length_le
    have lengths := within.length_le
    rw [← named,toLower_length,toLower_length] at longer
    exact other (within.eq_of_length (Nat.le_antisymm lengths longer))
  · exact border start

/-- A key does not occur again between its own start and its value. -/
theorem not_inside {key name gap u : Bytes} (member : key ∈ kKeys) (named : toLower name = key)
    (apart : ∀ c ∈ gap, isAlpha (lowerAscii c) = false) (nonempty : u ≠ []) (suffix : u <:+ name ++ gap)
    (other : u ≠ name ++ gap) (t : Bytes) : ¬key <+: toLower (u ++ t) := by
  rcases suffix_append_cases suffix with inside | ⟨v,started,within,rfl⟩
  · intro pre
    obtain ⟨filled,-,letter,-⟩ := kKeys_bytes key member
    obtain ⟨c,rest,rfl⟩ := List.exists_cons_of_ne_nil nonempty
    obtain ⟨x,tail,rfl⟩ := List.exists_cons_of_ne_nil filled
    have same : x = lowerAscii c := by
      obtain ⟨more,shape⟩ := pre
      simpa [toLower] using congrArg List.head? shape
    have := letter x rfl
    rw [same,apart c (inside.subset List.mem_cons_self)] at this
    cases this
  · rw [List.append_assoc]
    exact not_overlapping (kKeys_borders key member) named started within (fun same => other (by rw [same])) _

theorem skipped_plain (c : UInt8) (skipped : isQuoteOrSpace c = true ∨ isSeparator c = true) :
    isAlpha (lowerAscii c) = false := by
  simp only [isQuoteOrSpace,isSpace,isSeparator,Bool.or_eq_true,Bool.and_eq_true,beq_iff_eq,
    decide_eq_true_eq] at skipped
  simp only [isAlpha,lowerAscii,Bool.or_eq_false_iff,Bool.and_eq_false_iff]
  grind

theorem assignment_plain (after : Bytes) : ∀ c ∈ assignment after, isAlpha (lowerAscii c) = false := by
  intro c member
  unfold assignment at member
  split at member
  · cases member
  split at member
  · next separator =>
    apply skipped_plain
    rcases List.mem_append.mp member with skipped | member
    · exact .inl (List.mem_takeWhile_imp skipped)
    · rcases List.mem_cons.mp member with rfl | passed
      · exact .inr separator
      · exact .inl (List.mem_takeWhile_imp passed)
  · cases member

theorem keyRule_lawful (key : Bytes) (member : key ∈ kKeys) : Lawful redactionMask (keyRule key) := by
  obtain ⟨filled,star,-,-⟩ := kKeys_bytes key member
  refine ⟨?_,?_,?_,?_,?_⟩
  · intro text found located
    obtain ⟨name,after,rfl,named,rfl⟩ := keyRule_some located
    conv_lhs => rw [assignment_split after]
    simp
  · intro text found located
    obtain ⟨name,after,rfl,named,rfl⟩ := keyRule_some located
    intro empty
    simp only [List.append_eq_nil_iff] at empty
    rw [empty.1] at named
    exact filled named.symm
  · intro text found located secret u nonempty suffix
    obtain ⟨name,after,rfl,named,rfl⟩ := keyRule_some located
    dsimp only at secret suffix ⊢
    by_cases start : u = name ++ assignment after
    · have whole := assignment_split after
      rw [secret,List.nil_append] at whole
      rw [start,List.append_assoc,secret,← whole,keyRule_quiet key name after named]
      exact .inl secret
    · exact .of_none (keyRule_none (not_inside member named (assignment_plain after) nonempty suffix start _))
  · intro text found located secret u nonempty suffix
    obtain ⟨name,after,rfl,named,rfl⟩ := keyRule_some located
    dsimp only at secret suffix ⊢
    by_cases start : u = name ++ assignment after
    · obtain ⟨spaces,c,gap,kept,separator,skipped,passed,ends⟩ := assignment_shape after secret
      have shape : u ++ redactionMask ++ (after.drop (assignment after).length).drop (assigned after).length =
          name ++ (spaces ++ (c :: gap ++ (redactionMask ++
            (after.drop (assignment after).length).drop (assigned after).length))) := by
        rw [start]
        conv_lhs => rw [List.append_assoc,List.append_assoc]
        conv_lhs => arg 2; arg 1; rw [kept]
        simp
      rw [shape,keyRule_quiet key name _ named]
      exact .inr (assigned_masked spaces gap _ c separator skipped passed ends)
    · rw [List.append_assoc]
      exact .of_none (keyRule_none (not_inside member named (assignment_plain after) nonempty suffix start _))
  · intro u behind nonempty suffix
    obtain ⟨longer,shorter⟩ := kKeys_covered key member u (by rwa [List.mem_tails]) nonempty
    refine keyRule_none fun pre => ?_
    rw [toLower_append] at pre
    exact (prefix_append_cases pre).elim longer shorter

/-- The end of what a rule keeps, which separates the values in front of it from the
mask that is put behind it. -/
structure Barrier (block behind : Bytes) : Prop where
  foreign : ∃ x ∈ block, isSpace x = false ∧ x ∉ redactionMask
  apart : ∀ x ∈ block, lowerAscii x ∉ ([110,100,116,121] : Bytes)
  start : ∃ c, block.head? = some c ∧ isQuoteOrSpace c = false ∧
    (isSeparator c = true → assigned (block ++ (redactionMask ++ behind)) = redactionMask)

theorem keyRule_undisturbed (key : Bytes) (member : key ∈ kKeys) (other : Rule UInt8)
    (barrier : ∀ text found, other text = some found → found.secret ≠ [] →
      ∃ front block, found.kept = front ++ block ∧ Barrier block found.behind) :
    Undisturbed redactionMask (keyRule key) other := by
  intro text found located secret done u nonempty suffix quiet
  obtain ⟨filled,star,-,last⟩ := kKeys_bytes key member
  obtain ⟨front,block,kept,barrier⟩ := barrier text found located secret
  by_cases occurs : key <+: toLower (u ++ redactionMask ++ found.behind)
  · obtain ⟨name,after,rfl,named⟩ := named_before_mask star occurs
    rw [kept,← List.append_assoc] at suffix
    obtain ⟨l,ends⟩ : ∃ l, name.getLast? = some l := by
      cases shape : name.getLast? with
      | some l => exact ⟨l,rfl⟩
      | none =>
        rw [List.getLast?_eq_none_iff.mp shape] at named
        exact absurd named.symm filled
    have apart : l ∉ block := by
      intro inside
      refine barrier.apart l inside (last _ ?_)
      rw [← named,toLower,List.getLast?_map,ends]
      rfl
    obtain ⟨y,rfl⟩ := before_block l ends apart suffix
    obtain ⟨c,first,visible,start⟩ := barrier.start
    simp only [List.append_assoc] at quiet ⊢
    rw [keyRule_quiet key name _ named] at quiet ⊢
    exact assigned_fixed y block c first visible barrier.foreign _ _ (fun separator => .inr (start separator)) quiet
  · exact .of_none (keyRule_none occurs)

theorem keyRule_barrier (key text : Bytes) (found : Located UInt8) (located : keyRule key text = some found)
    (secret : found.secret ≠ []) : ∃ front block, found.kept = front ++ block ∧ Barrier block found.behind := by
  obtain ⟨name,after,rfl,named,rfl⟩ := keyRule_some located
  obtain ⟨spaces,c,gap,kept,separator,skipped,passed,ends⟩ := assignment_shape after secret
  have sign : c = 58 ∨ c = 61 := by simpa [isSeparator] using separator
  refine ⟨name ++ spaces,c :: gap,by simp [kept],?_,?_,c,rfl,?_,fun _ => ?_⟩
  · exact ⟨c,by simp,by rcases sign with rfl | rfl <;> decide,by rcases sign with rfl | rfl <;> decide⟩
  · intro x inside
    have plain : isQuoteOrSpace x = true ∨ isSeparator x = true := by
      rcases List.mem_cons.mp inside with rfl | inside
      · exact .inr separator
      · exact .inl (passed x inside)
    have letter := skipped_plain x plain
    intro named
    simp only [List.mem_cons,List.not_mem_nil,or_false] at named
    rcases named with same | same | same | same <;> rw [same] at letter <;> revert letter <;> decide
  · rcases sign with rfl | rfl <;> decide
  · exact assigned_masked [] gap _ c separator (by simp) passed ends

/-! ### Bearer tokens -/

/-- A run that takes in a byte outside the mask is not the mask, so one that is quiet
ends before it and does not depend on what follows. -/
theorem run_fixed (p : UInt8 → Bool) (a b b' : Bytes) (foreign : ∃ c ∈ a, c ∉ redactionMask)
    (quiet : (a ++ b).takeWhile p = [] ∨ (a ++ b).takeWhile p = redactionMask) :
    (a ++ b').takeWhile p = [] ∨ (a ++ b').takeWhile p = redactionMask := by
  obtain ⟨c,member,foreign⟩ := foreign
  by_cases whole : ∀ x ∈ a, p x = true
  · have inside : c ∈ (a ++ b).takeWhile p := by
      rw [List.takeWhile_append_of_pos whole]
      exact List.mem_append_left _ member
    rcases quiet with empty | masked
    · rw [empty] at inside
      cases inside
    · rw [masked] at inside
      exact absurd inside foreign
  · obtain ⟨x,known,stop⟩ : ∃ x ∈ a, p x = false := by simpa using whole
    rw [(takeWhile_append_stop b' known stop).1]
    rwa [(takeWhile_append_stop b known stop).1] at quiet

theorem bearerRule_named (name value : Bytes) (named : toLower name = ascii "bearer ") :
    bearerRule (name ++ value) =
      some ⟨name,value.takeWhile fun c => !endsToken c,value.dropWhile fun c => !endsToken c⟩ := by
  have long : name.length = 7 := by rw [← toLower_length,named]; rfl
  have starts : startsWith (toLower (name ++ value)) (ascii "bearer ") = true := by
    rw [toLower_append,named]
    exact List.isPrefixOf_iff_prefix.mpr (List.prefix_append _ _)
  rw [bearerRule,if_pos starts,← long,List.take_left,List.drop_left]

theorem bearerRule_some {text : Bytes} {found : Located UInt8} (located : bearerRule text = some found) :
    ∃ name value, text = name ++ value ∧ toLower name = ascii "bearer " ∧
      found = ⟨name,value.takeWhile fun c => !endsToken c,value.dropWhile fun c => !endsToken c⟩ := by
  have starts : startsWith (toLower text) (ascii "bearer ") = true := by
    by_contra other
    rw [bearerRule,if_neg other] at located
    cases located
  obtain ⟨name,split,named⟩ := startsWith_named starts
  generalize text.drop (ascii "bearer ").length = value at split
  refine ⟨name,value,split,named,?_⟩
  rw [split,bearerRule_named _ _ named] at located
  exact (Option.some.inj located).symm

theorem bearerRule_none {text : Bytes} (other : ¬ascii "bearer " <+: toLower text) : bearerRule text = none := by
  have starts : ¬startsWith (toLower text) (ascii "bearer ") = true := fun starts =>
    other (List.isPrefixOf_iff_prefix.mp starts)
  rw [bearerRule,if_neg starts]

theorem bearerRule_quiet (name value : Bytes) (named : toLower name = ascii "bearer ") :
    Quiet redactionMask bearerRule (name ++ value) ↔ (value.takeWhile fun c => !endsToken c) = [] ∨
      (value.takeWhile fun c => !endsToken c) = redactionMask := by
  constructor
  · intro quiet
    exact quiet _ (bearerRule_named name value named)
  · intro secret found located
    rw [bearerRule_named name value named] at located
    exact Option.some.inj located ▸ secret

/-- The mask in front of what ended the token is the whole token. -/
theorem token_mask (value : Bytes) :
    (redactionMask ++ value.dropWhile fun c => !endsToken c).takeWhile (fun c => !endsToken c) = redactionMask := by
  rw [List.takeWhile_append_of_pos (by decide +kernel)]
  have stop := List.head?_dropWhile_not (fun c => !endsToken c) value
  cases rest : value.dropWhile fun c => !endsToken c with
  | nil => simp
  | cons c rest =>
    rw [rest] at stop
    have ends : endsToken c = true := by simpa using stop
    simp [ends]

theorem bearer_borders : ∀ w ∈ (ascii "bearer ").tails, w ≠ [] → w ≠ ascii "bearer " → ¬w <+: ascii "bearer " := by
  decide

theorem bearer_covered : ∀ m ∈ redactionMask.tails, m ≠ [] →
    ¬ascii "bearer " <+: toLower m ∧ ¬toLower m <+: ascii "bearer " := by decide

theorem bearerRule_lawful : Lawful redactionMask bearerRule := by
  refine ⟨?_,?_,?_,?_,?_⟩
  · intro text found located
    obtain ⟨name,value,rfl,named,rfl⟩ := bearerRule_some located
    simp
  · intro text found located empty
    obtain ⟨name,value,rfl,named,rfl⟩ := bearerRule_some located
    dsimp only at empty
    rw [empty] at named
    cases named
  · intro text found located secret u nonempty suffix
    obtain ⟨name,value,rfl,named,rfl⟩ := bearerRule_some located
    dsimp only at secret suffix ⊢
    by_cases start : u = name
    · have whole := List.takeWhile_append_dropWhile (p := fun c => !endsToken c) (l := value)
      rw [secret,List.nil_append] at whole
      rw [start,whole,bearerRule_quiet name value named]
      exact .inl secret
    · exact .of_none (bearerRule_none (not_overlapping bearer_borders named nonempty suffix start _))
  · intro text found located secret u nonempty suffix
    obtain ⟨name,value,rfl,named,rfl⟩ := bearerRule_some located
    dsimp only at secret suffix ⊢
    rw [List.append_assoc]
    by_cases start : u = name
    · rw [start,bearerRule_quiet name _ named]
      exact .inr (token_mask value)
    · exact .of_none (bearerRule_none (not_overlapping bearer_borders named nonempty suffix start _))
  · intro u behind nonempty suffix
    obtain ⟨longer,shorter⟩ := bearer_covered u (by rwa [List.mem_tails]) nonempty
    refine bearerRule_none fun pre => ?_
    rw [toLower_append] at pre
    exact (prefix_append_cases pre).elim longer shorter

theorem bearer_byte {name : Bytes} (named : toLower name = ascii "bearer ") (c : UInt8) (member : c ∈ name) :
    lowerAscii c ∈ ascii "bearer " := by
  rw [← named]
  exact List.mem_map_of_mem member

theorem bearer_ends {name : Bytes} (named : toLower name = ascii "bearer ") : name.getLast? = some 32 := by
  have last := congrArg List.getLast? named
  rw [toLower,List.getLast?_map] at last
  cases shape : name.getLast? with
  | none => rw [shape] at last; cases last
  | some c =>
    rw [shape] at last
    have space : lowerAscii c = 32 := Option.some.inj last
    rw [lowerAscii] at space
    grind

theorem bearerRule_barrier (text : Bytes) (found : Located UInt8) (located : bearerRule text = some found) :
    ∃ front block, found.kept = front ++ block ∧ Barrier block found.behind := by
  obtain ⟨name,value,rfl,named,rfl⟩ := bearerRule_some located
  obtain ⟨c,rest,rfl⟩ : ∃ c rest, name = c :: rest := by
    cases name with
    | nil => cases named
    | cons c rest => exact ⟨c,rest,rfl⟩
  have first : lowerAscii c = 98 := by
    have := congrArg List.head? named
    simpa [toLower,ascii] using this
  have letter : c = 98 ∨ c = 66 := by
    rw [lowerAscii] at first
    grind
  refine ⟨[],c :: rest,rfl,⟨c,by simp,?_,?_⟩,?_,c,rfl,?_,?_⟩
  · rcases letter with rfl | rfl <;> decide
  · rcases letter with rfl | rfl <;> decide
  · intro x member ending
    have inside := bearer_byte named x member
    have disjoint : ∀ y ∈ ascii "bearer ", y ∉ ([110,100,116,121] : Bytes) := by decide +kernel
    exact disjoint _ inside ending
  · rcases letter with rfl | rfl <;> decide
  · intro separator
    rcases letter with rfl | rfl <;> cases separator

theorem bearerRule_itself : Undisturbed redactionMask bearerRule bearerRule := by
  intro text found located secret done u nonempty suffix quiet
  obtain ⟨name,value,rfl,named,rfl⟩ := bearerRule_some located
  dsimp only at suffix quiet ⊢
  by_cases occurs : ascii "bearer " <+: toLower (u ++ redactionMask ++ value.dropWhile fun c => !endsToken c)
  · obtain ⟨other,after,rfl,called⟩ := named_before_mask (by decide) occurs
    simp only [List.append_assoc] at quiet ⊢
    rw [bearerRule_quiet other _ called] at quiet ⊢
    cases after with
    | nil => exact .inr (token_mask value)
    | cons c after =>
      have space : (32 : UInt8) ∈ c :: after := by
        have filled : name ≠ [] := by
          rintro rfl
          cases named
        obtain ⟨front,equal⟩ := suffix
        have last := congrArg List.getLast? equal
        rw [List.getLast?_append_of_ne_nil _ nonempty,List.getLast?_append_of_ne_nil _ (by simp),
          List.getLast?_append_of_ne_nil _ filled,bearer_ends named] at last
        exact List.mem_of_getLast? last
      have stop : (!endsToken 32) = false := by decide
      rw [(takeWhile_append_stop _ space stop).1] at quiet ⊢
      exact quiet
  · exact .of_none (bearerRule_none occurs)

/-! ### Tokens known by their start -/

theorem prefixRule_started (start value : Bytes) : prefixRule start (start ++ value) =
    some (if (value.takeWhile isTokenByte).length < 8 then
      ⟨start ++ value.takeWhile isTokenByte,[],value.dropWhile isTokenByte⟩
    else ⟨start,value.takeWhile isTokenByte,value.dropWhile isTokenByte⟩) := by
  have starts : startsWith (start ++ value) start = true :=
    List.isPrefixOf_iff_prefix.mpr (List.prefix_append _ _)
  rw [prefixRule,if_pos starts,List.drop_left]
  dsimp only
  split <;> rfl

theorem prefixRule_some {start text : Bytes} {found : Located UInt8} (located : prefixRule start text = some found) :
    ∃ value, text = start ++ value ∧ found =
      if (value.takeWhile isTokenByte).length < 8 then
        ⟨start ++ value.takeWhile isTokenByte,[],value.dropWhile isTokenByte⟩
      else ⟨start,value.takeWhile isTokenByte,value.dropWhile isTokenByte⟩ := by
  have starts : startsWith text start = true := by
    by_contra other
    rw [prefixRule,if_neg other] at located
    cases located
  obtain ⟨value,rfl⟩ := List.isPrefixOf_iff_prefix.mp starts
  rw [prefixRule_started] at located
  exact ⟨value,rfl,(Option.some.inj located).symm⟩

theorem prefixRule_none {start text : Bytes} (other : ¬start <+: text) : prefixRule start text = none := by
  have starts : ¬startsWith text start = true := fun starts => other (List.isPrefixOf_iff_prefix.mp starts)
  rw [prefixRule,if_neg starts]

theorem star_token : isTokenByte 42 = false := by decide

/-- The rule finds something to mask exactly when eight bytes follow. -/
theorem prefixRule_quiet (start value : Bytes) : Quiet redactionMask (prefixRule start) (start ++ value) ↔
    (value.takeWhile isTokenByte).length < 8 := by
  constructor
  · intro quiet
    by_contra long
    have secret := quiet _ (prefixRule_started start value)
    rw [if_neg long] at secret
    rcases secret with empty | masked
    · dsimp only at empty
      rw [empty] at long
      exact long (by decide)
    · have star : (42 : UInt8) ∈ value.takeWhile isTokenByte := by
        dsimp only at masked
        rw [masked]
        decide
      have token := List.mem_takeWhile_imp star
      rw [star_token] at token
      cases token
  · intro short found located
    rw [prefixRule_started,if_pos short] at located
    exact .inl (by rw [← Option.some.inj located])

/-- A found token is all that the rule keeps the start of. -/
theorem prefixRule_secret {start text : Bytes} {found : Located UInt8} (located : prefixRule start text = some found)
    (secret : found.secret ≠ []) : found.kept = start ∧ 8 ≤ found.secret.length ∧
      ∀ c ∈ found.secret, isTokenByte c = true := by
  obtain ⟨value,rfl,shape⟩ := prefixRule_some located
  split at shape
  · rw [shape] at secret
    exact absurd rfl secret
  · next long =>
    rw [shape]
    exact ⟨rfl,Nat.le_of_not_lt long,fun c member => List.mem_takeWhile_imp member⟩

theorem kPrefixes_covered : ∀ start ∈ kPrefixes, ∀ m ∈ redactionMask.tails, m ≠ [] →
    ¬start <+: m ∧ ¬m <+: start := by decide

theorem kPrefixes_bytes : ∀ start ∈ kPrefixes, start ≠ [] ∧ (42 : UInt8) ∉ start ∧ (32 : UInt8) ∉ start ∧
    (∀ c ∈ start, isTokenByte c = true) ∧ (∃ c ∈ start, isSpace c = false ∧ c ∉ redactionMask) ∧
    (∀ c ∈ start, lowerAscii c ∉ ([110,100,116,121] : Bytes)) ∧
    (∀ c ∈ start.head?, isQuoteOrSpace c = false ∧ isSeparator c = false) := by decide +kernel

/-- A start in front of the mask does not reach into it. -/
theorem start_before_mask {start u behind : Bytes} (star : (42 : UInt8) ∉ start)
    (pre : start <+: u ++ redactionMask ++ behind) : start <+: u := by
  rw [List.append_assoc] at pre
  rcases prefix_append_cases pre with inside | ⟨more,rfl⟩
  · exact inside
  · cases more with
    | nil => simp
    | cons c more =>
      obtain ⟨rest,shape⟩ := (List.prefix_append_right_inj _).mp pre
      have same : c = 42 := by
        have := congrArg List.head? shape
        simpa [redactionMask,ascii] using this
      exact absurd (by simp [same]) star

theorem token_mask_stops (value : Bytes) : (redactionMask ++ value).takeWhile isTokenByte = [] := by
  simp [redactionMask,ascii,star_token]

theorem token_behind (value : Bytes) (a : Bytes) (tokens : ∀ c ∈ a, isTokenByte c = true) :
    (a ++ value.dropWhile isTokenByte).takeWhile isTokenByte = a := by
  rw [List.takeWhile_append_of_pos tokens]
  have stop := List.head?_dropWhile_not isTokenByte value
  cases rest : value.dropWhile isTokenByte with
  | nil => simp
  | cons c rest =>
    rw [rest] at stop
    have ends : isTokenByte c = false := by simpa using stop
    simp [ends]

theorem prefixRule_lawful (start : Bytes) (member : start ∈ kPrefixes) : Lawful redactionMask (prefixRule start) := by
  obtain ⟨filled,star,-,tokens,-⟩ := kPrefixes_bytes start member
  refine ⟨?_,?_,?_,?_,?_⟩
  · intro text found located
    obtain ⟨value,rfl,rfl⟩ := prefixRule_some located
    split <;> simp
  · intro text found located
    obtain ⟨value,rfl,rfl⟩ := prefixRule_some located
    split <;> simp [filled]
  · intro text found located secret u nonempty suffix
    obtain ⟨value,rfl,shape⟩ := prefixRule_some located
    split at shape
    · next short =>
      subst shape
      dsimp only at suffix ⊢
      by_cases occurs : start <+: u ++ value.dropWhile isTokenByte
      · obtain ⟨again,shape⟩ := occurs
        rw [← shape,prefixRule_quiet]
        have inside : ∀ c ∈ u, isTokenByte c = true := by
          intro c known
          rcases List.mem_append.mp (suffix.subset known) with first | second
          · exact tokens c first
          · exact List.mem_takeWhile_imp second
        have runs := congrArg (List.takeWhile isTokenByte) shape
        rw [token_behind value u inside,List.takeWhile_append_of_pos tokens] at runs
        have lengths := congrArg List.length runs
        have bound := suffix.length_le
        simp only [List.length_append] at lengths bound
        omega
      · exact .of_none (prefixRule_none occurs)
    · next long =>
      rw [shape] at secret
      dsimp only at secret
      rw [secret] at long
      exact absurd (by decide) long
  · intro text found located secret u nonempty suffix
    rw [(prefixRule_secret located secret).1] at suffix
    by_cases occurs : start <+: u ++ redactionMask ++ found.behind
    · have whole := start_before_mask star occurs
      have same : u = start := suffix.eq_of_length_le whole.length_le
      rw [same,List.append_assoc,prefixRule_quiet,token_mask_stops]
      decide
    · exact .of_none (prefixRule_none occurs)
  · intro u behind nonempty suffix
    obtain ⟨longer,shorter⟩ := kPrefixes_covered start member u (by rwa [List.mem_tails]) nonempty
    exact prefixRule_none fun pre => (prefix_append_cases pre).elim longer shorter

theorem prefixRule_barrier (start : Bytes) (member : start ∈ kPrefixes) (text : Bytes) (found : Located UInt8)
    (located : prefixRule start text = some found) (secret : found.secret ≠ []) :
    ∃ front block, found.kept = front ++ block ∧ Barrier block found.behind := by
  obtain ⟨filled,-,-,-,foreign,apart,first⟩ := kPrefixes_bytes start member
  refine ⟨[],start,(prefixRule_secret located secret).1,foreign,apart,?_⟩
  obtain ⟨c,rest,rfl⟩ := List.exists_cons_of_ne_nil filled
  obtain ⟨visible,separator⟩ := first c rfl
  refine ⟨c,rfl,visible,fun other => ?_⟩
  rw [separator] at other
  cases other

theorem bearerRule_prefixRule (start : Bytes) (member : start ∈ kPrefixes) :
    Undisturbed redactionMask bearerRule (prefixRule start) := by
  intro text found located secret done u nonempty suffix quiet
  obtain ⟨-,-,apart,-,⟨x,inside,-,foreign⟩,-⟩ := kPrefixes_bytes start member
  rw [(prefixRule_secret located secret).1] at suffix
  by_cases occurs : ascii "bearer " <+: toLower (u ++ redactionMask ++ found.behind)
  · obtain ⟨name,after,rfl,named⟩ := named_before_mask (by decide) occurs
    obtain ⟨y,rfl⟩ := before_block 32 (bearer_ends named) apart suffix
    rw [List.append_assoc,List.append_assoc,bearerRule_quiet name _ named] at quiet ⊢
    exact run_fixed _ _ _ _ ⟨x,List.mem_append_right _ inside,foreign⟩ quiet
  · exact .of_none (bearerRule_none occurs)

theorem prefixRule_prefixRule (start other : Bytes) (member : start ∈ kPrefixes) :
    Undisturbed redactionMask (prefixRule start) (prefixRule other) := by
  intro text found located secret done u nonempty suffix quiet
  obtain ⟨-,star,-⟩ := kPrefixes_bytes start member
  obtain ⟨-,long,tokens⟩ := prefixRule_secret located secret
  by_cases occurs : start <+: u ++ redactionMask ++ found.behind
  · obtain ⟨v,rfl⟩ := start_before_mask star occurs
    simp only [List.append_assoc] at quiet ⊢
    rw [prefixRule_quiet] at quiet ⊢
    by_cases whole : ∀ c ∈ v, isTokenByte c = true
    · rw [List.takeWhile_append_of_pos whole,List.takeWhile_append_of_pos tokens] at quiet
      simp only [List.length_append] at quiet
      omega
    · obtain ⟨c,known,stop⟩ : ∃ c ∈ v, isTokenByte c = false := by simpa using whole
      rw [(takeWhile_append_stop _ known stop).1] at quiet ⊢
      exact quiet
  · exact .of_none (prefixRule_none occurs)

/-! ### All rules -/

theorem redactionRules_cases {rule : Rule UInt8} (member : rule ∈ redactionRules) :
    (∃ key ∈ kKeys, rule = keyRule key) ∨ rule = bearerRule ∨ ∃ start ∈ kPrefixes, rule = prefixRule start := by
  simp only [redactionRules,List.mem_append,List.mem_map,List.mem_singleton] at member
  rcases member with (⟨key,known,rfl⟩ | bearer) | ⟨start,known,rfl⟩
  · exact .inl ⟨key,known,rfl⟩
  · exact .inr (.inl bearer)
  · exact .inr (.inr ⟨start,known,rfl⟩)

theorem redactionRules_lawful : ∀ rule ∈ redactionRules, Lawful redactionMask rule := by
  intro rule member
  rcases redactionRules_cases member with ⟨key,known,rfl⟩ | rfl | ⟨start,known,rfl⟩
  · exact keyRule_lawful key known
  · exact bearerRule_lawful
  · exact prefixRule_lawful start known

theorem redactionRules_barrier {rule : Rule UInt8} (member : rule ∈ redactionRules) (text : Bytes)
    (found : Located UInt8) (located : rule text = some found) (secret : found.secret ≠ []) :
    ∃ front block, found.kept = front ++ block ∧ Barrier block found.behind := by
  rcases redactionRules_cases member with ⟨key,known,rfl⟩ | rfl | ⟨start,known,rfl⟩
  · exact keyRule_barrier key text found located secret
  · exact bearerRule_barrier text found located
  · exact prefixRule_barrier start known text found located secret

theorem redactionRules_itself : ∀ rule ∈ redactionRules, Undisturbed redactionMask rule rule := by
  intro rule member
  rcases redactionRules_cases member with ⟨key,known,rfl⟩ | rfl | ⟨start,known,rfl⟩
  · exact keyRule_undisturbed key known _ (redactionRules_barrier member)
  · exact bearerRule_itself
  · exact prefixRule_prefixRule start start known

/-- No rule disturbs what an earlier one has settled. -/
theorem redactionRules_later : redactionRules.Pairwise (Undisturbed redactionMask) := by
  rw [redactionRules,List.append_assoc,List.pairwise_append]
  refine ⟨?_,?_,?_⟩
  · rw [List.pairwise_map]
    apply List.pairwise_of_forall_mem_list
    intro key known other member
    exact keyRule_undisturbed key known _ (keyRule_barrier other)
  · rw [List.singleton_append,List.pairwise_cons,List.pairwise_map]
    constructor
    · intro rule member
      obtain ⟨start,known,rfl⟩ := List.mem_map.mp member
      exact bearerRule_prefixRule start known
    · apply List.pairwise_of_forall_mem_list
      intro start known other member
      exact prefixRule_prefixRule start other known
  · intro rule member other later
    obtain ⟨key,known,rfl⟩ := List.mem_map.mp member
    refine keyRule_undisturbed key known other (redactionRules_barrier ?_)
    rw [redactionRules,List.append_assoc]
    exact List.mem_append_right _ later

theorem redactSecrets_idempotent (text : Bytes) : redactSecrets (redactSecrets text) = redactSecrets text :=
  passes_idempotent redactionRules_lawful redactionRules_itself redactionRules_later text

/-! ### Texts in which no rule finds anything -/

theorem redactionRules_clear {out : Bytes} (keys : ∀ key ∈ ascii "bearer " :: kKeys, ¬key <:+: toLower out)
    (starts : ∀ start ∈ kPrefixes, ¬start <:+: out) : ∀ rule ∈ redactionRules, Clear rule out := by
  intro rule member source found located u nonempty suffix kept
  have lowered : toLower u <:+: toLower out := by
    obtain ⟨front,rfl⟩ := suffix
    exact ⟨toLower front,[],by simp⟩
  rcases redactionRules_cases member with ⟨key,known,rfl⟩ | rfl | ⟨start,known,rfl⟩
  · obtain ⟨name,after,-,named,rfl⟩ := keyRule_some located
    obtain ⟨rest,rfl⟩ := kept
    refine keys key (by simp [known]) (List.IsInfix.trans ⟨[],toLower (assignment after ++ rest),?_⟩ lowered)
    simp [named]
  · obtain ⟨name,value,-,named,rfl⟩ := bearerRule_some located
    obtain ⟨rest,rfl⟩ := kept
    refine keys (ascii "bearer ") (by simp) (List.IsInfix.trans ⟨[],toLower rest,?_⟩ lowered)
    simp [named]
  · obtain ⟨value,-,shape⟩ := prefixRule_some located
    have begins : start <+: found.kept := by
      rw [shape]
      split <;> simp
    exact starts start known ((begins.trans kept).isInfix.trans suffix.isInfix)

theorem redactSecrets_clear {text : Bytes} (keys : ∀ key ∈ ascii "bearer " :: kKeys, ¬key <:+: toLower text)
    (starts : ∀ start ∈ kPrefixes, ¬start <:+: text) : redactSecrets text = text :=
  (passes_eq_iff redactionRules_lawful (redactionRules_clear keys starts)).mpr rfl

end TestForge.Strings
