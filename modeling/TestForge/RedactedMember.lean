import TestForge.Redaction
import TestForge.Json

/-! What redaction does to the JSON text of an object with one string member: when the
value is masked as a whole, and when something of it is left. -/
namespace TestForge.Strings

open Masking
open Json (escapeByte)

/-- The compact text of the object, redacted. -/
def redactedMember (key secret : Bytes) : Bytes := redactSecrets (Json.Value.object [(key,.string secret)]).dump

/-- The key stands at the front of the text, before a separator. -/
def assignsAt (key text : Bytes) : Bool :=
  startsWith (toLower text) key && ((text.drop key.length).dropWhile isQuoteOrSpace).head?.any isSeparator

/-- The key stands at the front of the text, and nothing but blanks follows. -/
def endsAt (key text : Bytes) : Bool :=
  startsWith (toLower text) key && (text.drop key.length).all isQuoteOrSpace

def assignsIn (key field : Bytes) : Bool := field.tails.any (assignsAt key)
def endsIn (key field : Bytes) : Bool := field.tails.any (endsAt key)

/-- The first key that is in the field before a separator takes the end of the field
for its value; one that ends the field before that happens takes the member's. -/
def hidesFrom : List Bytes → Bytes → Bool
  | [], _ => false
  | key :: keys, field => !assignsIn key field && (endsIn key field || hidesFrom keys field)

/-- The end of the name, as it stands in the JSON text, behind its last terminator. -/
def lastField (name : Bytes) : Bytes := (name.flatMap escapeByte).rtakeWhile fun c => !isValueTerminator c

def hidesValue (name : Bytes) : Bool := hidesFrom kKeys (lastField name)

/-- A secret that the JSON text gives as one value without blanks around it. -/
def Plain (secret : Bytes) : Prop :=
  secret ≠ [] ∧ (∀ c ∈ secret, c ∉ ([34,44,125,38] : Bytes)) ∧ secret.head? ≠ some 32 ∧ secret.getLast? ≠ some 32

/-! ### Keys at the front of a text -/

theorem named_startsWith {name key : Bytes} (after : Bytes) (named : toLower name = key) :
    startsWith (toLower (name ++ after)) key = true ∧ (name ++ after).drop key.length = after := by
  constructor
  · rw [toLower_append,named]
    exact List.isPrefixOf_iff_prefix.mpr (List.prefix_append _ _)
  · rw [← named,toLower_length,List.drop_left]

theorem assignsAt_iff (key text : Bytes) : assignsAt key text = true ↔ ∃ name blanks c value,
    text = name ++ (blanks ++ c :: value) ∧ toLower name = key ∧ (∀ x ∈ blanks, isQuoteOrSpace x = true) ∧
      isSeparator c = true := by
  constructor
  · intro assigns
    rw [assignsAt,Bool.and_eq_true] at assigns
    obtain ⟨name,split,named⟩ := startsWith_named assigns.1
    cases skipped : (text.drop key.length).dropWhile isQuoteOrSpace with
    | nil =>
      rw [skipped] at assigns
      cases assigns.2
    | cons c value =>
      rw [skipped] at assigns
      refine ⟨name,(text.drop key.length).takeWhile isQuoteOrSpace,c,value,?_,named,
        fun x member => List.mem_takeWhile_imp member,by simpa using assigns.2⟩
      rw [← skipped,List.takeWhile_append_dropWhile]
      exact split
  · rintro ⟨name,blanks,c,value,rfl,named,skipped,separator⟩
    obtain ⟨starts,behind⟩ := named_startsWith (blanks ++ c :: value) named
    have visible : isQuoteOrSpace c = false := by
      simp only [isSeparator,Bool.or_eq_true,beq_iff_eq] at separator
      rcases separator with rfl | rfl <;> decide
    rw [assignsAt,Bool.and_eq_true,behind,List.dropWhile_append_of_pos skipped]
    exact ⟨starts,by simp [visible,separator]⟩

theorem endsAt_iff (key text : Bytes) : endsAt key text = true ↔ ∃ name blanks, text = name ++ blanks ∧
    toLower name = key ∧ ∀ x ∈ blanks, isQuoteOrSpace x = true := by
  constructor
  · intro ends
    rw [endsAt,Bool.and_eq_true] at ends
    obtain ⟨name,split,named⟩ := startsWith_named ends.1
    exact ⟨name,_,split,named,by simpa using ends.2⟩
  · rintro ⟨name,blanks,rfl,named,skipped⟩
    obtain ⟨starts,behind⟩ := named_startsWith blanks named
    rw [endsAt,Bool.and_eq_true,behind]
    exact ⟨starts,by simpa using skipped⟩

/-- The first place where a text has a property, and what stands in front of it. -/
theorem first_tail {p : Bytes → Bool} {text : Bytes} (holds : text.tails.any p = true) :
    ∃ front u, text = front ++ u ∧ p u = true ∧ ∀ v, v ≠ [] → v <:+ front → p (v ++ u) = false := by
  induction text with
  | nil =>
    refine ⟨[],[],rfl,by simpa using holds,?_⟩
    intro v nonempty suffix
    exact absurd (List.suffix_nil.mp suffix) nonempty
  | cons c text ih =>
    cases here : p (c :: text) with
    | true =>
      refine ⟨[],c :: text,rfl,here,?_⟩
      intro v nonempty suffix
      exact absurd (List.suffix_nil.mp suffix) nonempty
    | false =>
      have later : text.tails.any p = true := by simpa [here] using holds
      obtain ⟨front,u,rfl,found,before⟩ := ih later
      refine ⟨c :: front,u,rfl,found,?_⟩
      intro v nonempty suffix
      rcases List.suffix_cons_iff.mp suffix with rfl | inside
      · exact here
      · exact before v nonempty inside

theorem tails_none {p : Bytes → Bool} {text : Bytes} (never : text.tails.any p = false) (u : Bytes)
    (suffix : u <:+ text) : p u = false := by
  rw [List.any_eq_false] at never
  simpa using never u (by rwa [List.mem_tails])

/-! ### Texts that keep their values to themselves -/

/-- The text ends in the terminator, and no key at its end takes a value from what follows. -/
structure Cut (stop : UInt8) (text : Bytes) : Prop where
  ends : text.getLast? = some stop
  terminator : isValueTerminator stop = true
  sealed : ∃ front c rest, text = front ++ c :: rest ∧ lowerAscii c ∉ ([110,100,116,121] : Bytes) ∧
    isQuoteOrSpace c = false ∧ isSeparator c = false ∧ ∀ x ∈ rest, isQuoteOrSpace x = true ∨ isSeparator x = true

theorem kKeys_unstopped : ∀ key ∈ kKeys, ∀ c ∈ key, isValueTerminator c = false ∧ isQuoteOrSpace c = false ∧
    isSeparator c = false := by decide +kernel

theorem lowerAscii_plain (c : UInt8) (plain : isValueTerminator c = true ∨ isQuoteOrSpace c = true ∨
    isSeparator c = true) : lowerAscii c = c := by
  simp only [isValueTerminator,isQuoteOrSpace,isSpace,isSeparator,Bool.or_eq_true,Bool.and_eq_true,beq_iff_eq,
    decide_eq_true_eq] at plain
  rcases plain with (((((rfl | rfl) | rfl) | rfl) | rfl) | rfl) | (rfl | rfl | control) | rfl | rfl
  case inr.inl.inr.inr =>
    rw [lowerAscii]
    grind
  all_goals rfl

/-- A name is made of none of the bytes around it. -/
theorem named_unstopped {key name : Bytes} (member : key ∈ kKeys) (named : toLower name = key) (c : UInt8)
    (inside : c ∈ name) : isValueTerminator c = false ∧ isQuoteOrSpace c = false ∧ isSeparator c = false := by
  have lowered : lowerAscii c ∈ key := named ▸ List.mem_map_of_mem inside
  have plain := kKeys_unstopped key member _ lowered
  by_cases moved : isValueTerminator c = true ∨ isQuoteOrSpace c = true ∨ isSeparator c = true
  · rwa [lowerAscii_plain c moved] at plain
  · simpa [not_or] using moved

theorem named_last {key name : Bytes} (member : key ∈ kKeys) (named : toLower name = key) :
    ∃ front l, name = front ++ [l] ∧ lowerAscii l ∈ ([110,100,116,121] : Bytes) := by
  obtain ⟨filled,-,-,last⟩ := kKeys_bytes key member
  rcases List.eq_nil_or_concat name with rfl | ⟨front,l,rfl⟩
  · exact absurd named.symm filled
  · refine ⟨front,l,by simp,last _ ?_⟩
    rw [← named]
    simp [toLower]

/-- Nothing but blanks and separators never follows a key up to the end. -/
theorem Cut.open_end {stop : UInt8} {text key name after : Bytes} (cut : Cut stop text) (member : key ∈ kKeys)
    (named : toLower name = key) (suffix : name ++ after <:+ text) :
    ∃ x ∈ after, isQuoteOrSpace x = false ∧ isSeparator x = false := by
  by_contra none
  have blank : ∀ x ∈ after, isQuoteOrSpace x = true ∨ isSeparator x = true := by
    intro x inside
    by_contra other
    rw [not_or,Bool.not_eq_true,Bool.not_eq_true] at other
    exact none ⟨x,inside,other⟩
  obtain ⟨front,c,rest,shape,letter,visible,separator,ending⟩ := cut.sealed
  obtain ⟨start,l,rfl,last⟩ := named_last member named
  obtain ⟨skip,-,other⟩ := named_unstopped member named l (by simp)
  obtain ⟨before,equal⟩ := suffix
  rw [shape] at equal
  have parts : (before ++ start) ++ l :: after = front ++ c :: rest := by simpa using equal
  rcases List.append_eq_append_iff.mp parts with ⟨w,-,same⟩ | ⟨w,-,same⟩
  · cases w with
    | nil =>
      obtain ⟨rfl,-⟩ := List.cons_eq_cons.mp same
      exact letter last
    | cons y w =>
      obtain ⟨-,rfl⟩ := List.cons_eq_cons.mp same
      rcases blank c (by simp) with skipped | separates
      · rw [visible] at skipped; cases skipped
      · rw [separator] at separates; cases separates
  · cases w with
    | nil =>
      obtain ⟨rfl,-⟩ := List.cons_eq_cons.mp same
      exact letter last
    | cons y w =>
      obtain ⟨-,rfl⟩ := List.cons_eq_cons.mp same
      have plain := named_unstopped member named l (by simp)
      rcases ending l (by simp) with skipped | separates
      · rw [plain.2.1] at skipped; cases skipped
      · rw [plain.2.2] at separates; cases separates

/-- A value that ends inside the text does not depend on what follows. -/
theorem assigned_closed {after : Bytes} {stop : UInt8} (rest : Bytes)
    (opened : ∃ x ∈ after, isQuoteOrSpace x = false ∧ isSeparator x = false) (ends : after.getLast? = some stop)
    (terminator : isValueTerminator stop = true) :
    assignment (after ++ rest) = assignment after ∧ assigned (after ++ rest) = assigned after := by
  obtain ⟨x,inside,visible,other⟩ := opened
  obtain ⟨taken,dropped⟩ := takeWhile_append_stop rest inside visible
  obtain ⟨c,value,skipped⟩ : ∃ c value, after.dropWhile isQuoteOrSpace = c :: value := by
    apply List.exists_cons_of_ne_nil
    intro empty
    rw [List.dropWhile_eq_nil_iff] at empty
    rw [empty x inside] at visible
    cases visible
  rw [skipped,List.cons_append] at dropped
  unfold assignment assigned
  rw [dropped,taken,skipped]
  dsimp only
  by_cases separator : isSeparator c = true
  · have shape : after = after.takeWhile isQuoteOrSpace ++ c :: value := by
      rw [← skipped,List.takeWhile_append_dropWhile]
    have within : x ∈ value := by
      rw [shape] at inside
      rcases List.mem_append.mp inside with blank | inside
      · rw [List.mem_takeWhile_imp blank] at visible
        cases visible
      · rcases List.mem_cons.mp inside with rfl | inside
        · rw [separator] at other
          cases other
        · exact inside
    obtain ⟨gap,filled⟩ := takeWhile_append_stop rest within visible
    have last : stop ∈ value.dropWhile isQuoteOrSpace := by
      have nonempty : value.dropWhile isQuoteOrSpace ≠ [] := by
        intro empty
        rw [List.dropWhile_eq_nil_iff] at empty
        rw [empty x within] at visible
        cases visible
      have split : after = (after.takeWhile isQuoteOrSpace ++ c :: value.takeWhile isQuoteOrSpace) ++
          value.dropWhile isQuoteOrSpace := by
        rw [List.append_assoc,List.cons_append,List.takeWhile_append_dropWhile,← shape]
      rw [split,List.getLast?_append_of_ne_nil _ nonempty] at ends
      exact List.mem_of_getLast? ends
    rw [if_pos separator,if_pos separator,if_pos separator,if_pos separator,gap,filled,
      secretOf_stop _ _ stop last terminator]
    exact ⟨rfl,rfl⟩
  · simp [separator]

theorem keyRule_closed {key name after : Bytes} {stop : UInt8} (rest : Bytes) (named : toLower name = key)
    (opened : ∃ x ∈ after, isQuoteOrSpace x = false ∧ isSeparator x = false) (ends : after.getLast? = some stop)
    (terminator : isValueTerminator stop = true) : keyRule key (name ++ (after ++ rest)) =
      (keyRule key (name ++ after)).map (Located.followed · rest) := by
  obtain ⟨kept,value⟩ := assigned_closed rest opened ends terminator
  rw [keyRule_named key name _ named,keyRule_named key name _ named,kept,value]
  have whole := assignment_split (after ++ rest)
  rw [kept,value] at whole
  have front := assignment_split after
  have both : assignment after ++ (assigned after ++
      (after.drop (assignment after).length).drop (assigned after).length) ++ rest =
      assignment after ++ (assigned after ++
        ((after ++ rest).drop (assignment after).length).drop (assigned after).length) := by
    rw [← front,← whole]
  have behind : (after.drop (assignment after).length).drop (assigned after).length ++ rest =
      ((after ++ rest).drop (assignment after).length).drop (assigned after).length := by
    simpa only [List.append_assoc,List.append_cancel_left_eq] using both
  simp only [Option.map_some,Located.followed,behind]

theorem Cut.apart {stop : UInt8} {text : Bytes} (cut : Cut stop text) {key : Bytes} (member : key ∈ kKeys)
    (rest u : Bytes) (nonempty : u ≠ []) (suffix : u <:+ text) :
    keyRule key (u ++ rest) = (keyRule key u).map (Located.followed · rest) := by
  have ends : u.getLast? = some stop := by
    obtain ⟨front,rfl⟩ := suffix
    rw [← cut.ends,List.getLast?_append_of_ne_nil _ nonempty]
  by_cases occurs : key <+: toLower u
  · obtain ⟨name,split,named⟩ := startsWith_named (List.isPrefixOf_iff_prefix.mpr occurs)
    rw [split] at suffix ends ⊢
    have opened := cut.open_end member named suffix
    have filled : u.drop key.length ≠ [] := by
      intro empty
      rw [empty] at opened
      obtain ⟨x,inside,-⟩ := opened
      cases inside
    rw [List.getLast?_append_of_ne_nil _ filled] at ends
    rw [List.append_assoc]
    exact keyRule_closed rest named opened ends cut.terminator
  · rw [keyRule_none occurs,keyRule_none]
    · rfl
    · intro pre
      rw [toLower_append] at pre
      rcases prefix_append_cases pre with inside | outside
      · exact occurs inside
      · have last : stop ∈ toLower u := by
          rw [← lowerAscii_plain stop (.inl cut.terminator)]
          exact List.mem_map_of_mem (List.mem_of_getLast? ends)
        have plain := (kKeys_unstopped key member stop (outside.subset last)).1
        rw [cut.terminator] at plain
        cases plain

theorem Cut.masked_append {stop : UInt8} {text : Bytes} (cut : Cut stop text) {key : Bytes} (member : key ∈ kKeys)
    (rest : Bytes) : masked redactionMask (keyRule key) (text ++ rest) =
      masked redactionMask (keyRule key) text ++ masked redactionMask (keyRule key) rest :=
  Masking.masked_append (keyRule_lawful key member) text rest fun u nonempty suffix =>
    cut.apart member rest u nonempty suffix

/-! ### Values as they are masked -/

/-- What a key rule takes for a secret: no terminator in it and no blanks around it. -/
structure Solid (value : Bytes) : Prop where
  filled : value ≠ []
  unstopped : ∀ c ∈ value, isValueTerminator c = false
  first : ∀ c ∈ value.head?, isSpace c = false
  last : ∀ c ∈ value.getLast?, isSpace c = false

theorem redactionMask_solid : Solid redactionMask := ⟨by decide,by decide +kernel,by decide +kernel,by decide +kernel⟩

theorem secretOf_solid (value : Bytes) (first : ∀ c ∈ value.head?, isQuoteOrSpace c = false)
    (secret : secretOf value ≠ []) : Solid (secretOf value) := by
  obtain ⟨spaces,rest,split,-,unstopped,-⟩ := secretOf_split value
  refine ⟨secret,unstopped,?_,?_⟩
  · intro c head
    have same : value.head? = some c := by
      rw [split,List.head?_append_of_ne_nil _ secret]
      exact head
    have visible := first c same
    rw [isQuoteOrSpace,Bool.or_eq_false_iff] at visible
    exact visible.2
  · intro c last
    have ends := List.rdropWhile_last_not isSpace (value.takeWhile fun c => !isValueTerminator c) secret
    rw [← Option.some.inj ((List.getLast?_eq_some_getLast secret).symm.trans last)]
    rw [Bool.not_eq_true] at ends
    exact ends

theorem assigned_solid (after : Bytes) (secret : assigned after ≠ []) : Solid (assigned after) := by
  unfold assigned at secret ⊢
  split at secret
  · exact absurd rfl secret
  next c rest skipped =>
  split at secret
  · next separator =>
    rw [if_pos separator]
    refine secretOf_solid _ ?_ secret
    intro x head
    have visible := List.head?_dropWhile_not isQuoteOrSpace rest
    rw [Option.mem_def.mp head] at visible
    simpa using visible
  · exact absurd rfl secret

theorem keyRule_solid {key text : Bytes} {found : Located UInt8} (located : keyRule key text = some found)
    (secret : found.secret ≠ []) : Solid found.secret := by
  obtain ⟨name,after,-,-,rfl⟩ := keyRule_some located
  exact assigned_solid after secret

theorem Cut.replace {stop : UInt8} {front secret behind : Bytes} (solid : Solid secret)
    (cut : Cut stop (front ++ secret ++ behind)) : Cut stop (front ++ redactionMask ++ behind) := by
  have filled : behind ≠ [] := by
    rintro rfl
    have ends := cut.ends
    rw [List.append_nil,List.getLast?_append_of_ne_nil _ solid.filled] at ends
    have plain := solid.unstopped stop (List.mem_of_getLast? ends)
    rw [cut.terminator] at plain
    cases plain
  refine ⟨?_,cut.terminator,?_⟩
  · rw [List.getLast?_append_of_ne_nil _ filled,← cut.ends,List.getLast?_append_of_ne_nil _ filled]
  · obtain ⟨before,c,rest,shape,letter,visible,separator,ending⟩ := cut.sealed
    rcases List.append_eq_append_iff.mp shape with ⟨w,-,same⟩ | ⟨w,-,same⟩
    · exact ⟨front ++ redactionMask ++ w,c,rest,by rw [same]; simp,letter,visible,separator,ending⟩
    · cases w with
      | nil =>
        rw [List.nil_append] at same
        exact ⟨front ++ redactionMask,c,rest,by rw [← same],letter,visible,separator,ending⟩
      | cons y w =>
        obtain ⟨-,rfl⟩ := List.cons_eq_cons.mp same
        refine ⟨front ++ redactionMask.dropLast,42,behind,?_,by decide,by decide,by decide,
          fun x inside => ending x (List.mem_append_right _ inside)⟩
        have mask : redactionMask = redactionMask.dropLast ++ [42] := by decide
        conv_lhs => rw [mask]
        simp

theorem Cut.masked {stop : UInt8} {text : Bytes} (cut : Cut stop text) {key : Bytes} (member : key ∈ kKeys) :
    Cut stop (masked redactionMask (keyRule key) text) :=
  pass_invariant (Cut stop) (keyRule_lawful key member).splits
    (fun _ _ _ located secret held => held.replace (keyRule_solid located secret)) text.length [] text cut

/-! ### One key over the member -/

theorem keyRule_value {key name blanks rest : Bytes} {c : UInt8} (named : toLower name = key)
    (skipped : ∀ x ∈ blanks, isQuoteOrSpace x = true) (separator : isSeparator c = true) :
    keyRule key (name ++ (blanks ++ c :: rest)) = some ⟨name ++ (blanks ++ c :: rest.takeWhile isQuoteOrSpace),
      secretOf (rest.dropWhile isQuoteOrSpace),
      (rest.dropWhile isQuoteOrSpace).drop (secretOf (rest.dropWhile isQuoteOrSpace)).length⟩ := by
  have visible : isQuoteOrSpace c = false := by
    simp only [isSeparator,Bool.or_eq_true,beq_iff_eq] at separator
    rcases separator with rfl | rfl <;> decide
  have dropped : (blanks ++ c :: rest).dropWhile isQuoteOrSpace = c :: rest := by
    rw [List.dropWhile_append_of_pos skipped]
    simp [visible]
  have taken : (blanks ++ c :: rest).takeWhile isQuoteOrSpace = blanks := by
    rw [List.takeWhile_append_of_pos skipped]
    simp [visible]
  have value : assigned (blanks ++ c :: rest) = secretOf (rest.dropWhile isQuoteOrSpace) := by
    rw [assigned_eq dropped,if_pos separator]
  have kept : assignment (blanks ++ c :: rest) = blanks ++ c :: rest.takeWhile isQuoteOrSpace := by
    rw [assignment,dropped,taken]
    exact if_pos separator
  have behind : (blanks ++ c :: rest).drop (blanks ++ c :: rest.takeWhile isQuoteOrSpace).length =
      rest.dropWhile isQuoteOrSpace := by
    conv_lhs => arg 2; rw [← List.takeWhile_append_dropWhile (p := isQuoteOrSpace) (l := rest)]
    rw [← List.cons_append,← List.append_assoc,List.drop_left]
  rw [keyRule_named key name _ named,value,kept,behind]

/-- The scanner of a key passes over a front where the key assigns nothing. -/
theorem keyRule_over {key : Bytes} (member : key ∈ kKeys) (front rest : Bytes)
    (nothing : ∀ v, v ≠ [] → v <:+ front → ∀ name after, v ++ rest = name ++ after → toLower name = key →
      (∀ c ∈ (after.dropWhile isQuoteOrSpace).head?, isSeparator c = false) ∧ name <+: v) :
    masked redactionMask (keyRule key) (front ++ rest) = front ++ masked redactionMask (keyRule key) rest := by
  refine masked_over (keyRule_lawful key member) front rest ?_
  intro v nonempty suffix found located
  obtain ⟨name,after,split,named,rfl⟩ := keyRule_some located
  obtain ⟨other,inside⟩ := nothing v nonempty suffix name after split named
  cases skipped : after.dropWhile isQuoteOrSpace with
  | nil => simpa [assigned,assignment,skipped] using inside
  | cons c value =>
    have separator := other c (by rw [skipped]; rfl)
    simpa [assigned,assignment,skipped,separator] using inside

/-- Nothing is assigned where neither a key nor the end of one can start. -/
theorem blanks_over {key : Bytes} (member : key ∈ kKeys) (front rest : Bytes)
    (blank : ∀ x ∈ front, isQuoteOrSpace x = true ∨ isSeparator x = true) :
    masked redactionMask (keyRule key) (front ++ rest) = front ++ masked redactionMask (keyRule key) rest := by
  refine keyRule_over member front rest ?_
  intro v nonempty suffix name after split named
  obtain ⟨start,l,rfl,-⟩ := named_last member named
  obtain ⟨c,v,rfl⟩ := List.exists_cons_of_ne_nil nonempty
  have first : c ∈ start ++ [l] := by
    have head := congrArg List.head? split
    rw [List.head?_append_of_ne_nil _ (by simp),
      List.head?_append_of_ne_nil _ (List.concat_ne_nil l start)] at head
    exact List.mem_of_head? head.symm
  have plain := named_unstopped member named c first
  rcases blank c (suffix.subset List.mem_cons_self) with skipped | separates
  · rw [plain.2.1] at skipped; cases skipped
  · rw [plain.2.2] at separates; cases separates

/-- An occurrence in front of a place where the key starts again ends before that. -/
theorem before_key {key name v u after : Bytes} (member : key ∈ kKeys) (named : toLower name = key)
    (nonempty : v ≠ []) (again : key <+: toLower u) (split : v ++ u = name ++ after) : name <+: v := by
  rcases List.append_eq_append_iff.mp split with ⟨w,rfl,rfl⟩ | ⟨w,rfl,-⟩
  · by_cases started : w = []
    · simp [started]
    · refine absurd again (not_overlapping (kKeys_borders key member) named started (List.suffix_append _ _) ?_ after)
      intro same
      have lengths := congrArg List.length same
      rw [List.length_append] at lengths
      have filled := List.length_pos_iff.mpr nonempty
      omega
  · exact List.prefix_append _ _

/-- What stands between the field and the value of the member. -/
def opening : Bytes := [34,58,34]

/-- An occurrence that starts in the field ends in it. -/
theorem named_within {key name after field rest : Bytes} (member : key ∈ kKeys) (named : toLower name = key)
    (split : field ++ (opening ++ rest) = name ++ after) :
    ∃ y, field = name ++ y ∧ after = y ++ (opening ++ rest) := by
  rcases List.append_eq_append_iff.mp split with ⟨w,rfl,shape⟩ | ⟨w,rfl,shape⟩
  · cases w with
    | nil => exact ⟨[],by simp,by simpa using shape.symm⟩
    | cons c w =>
      obtain ⟨rfl,-⟩ := List.cons_eq_cons.mp shape
      have plain := (named_unstopped member named 34 (by simp)).1
      cases plain
  · exact ⟨w,rfl,shape⟩

/-- In a field where the key assigns nothing, only its end can be followed by a separator. -/
theorem unassigned_within {key field name y rest : Bytes} (named : toLower name = key)
    (assigns : assignsAt key field = false) (ends : endsAt key field = false) (split : field = name ++ y) :
    ∀ c ∈ ((y ++ (opening ++ rest)).dropWhile isQuoteOrSpace).head?, isSeparator c = false := by
  intro c head
  by_contra separator
  rw [Bool.not_eq_false] at separator
  by_cases blank : ∀ x ∈ y, isQuoteOrSpace x = true
  · have : endsAt key field = true := (endsAt_iff key field).mpr ⟨name,y,split,named,blank⟩
    rw [ends] at this
    cases this
  · obtain ⟨x,inside,visible⟩ : ∃ x ∈ y, isQuoteOrSpace x = false := by simpa using blank
    obtain ⟨-,dropped⟩ := takeWhile_append_stop (opening ++ rest) inside visible
    cases skipped : y.dropWhile isQuoteOrSpace with
    | nil =>
      rw [List.dropWhile_eq_nil_iff] at skipped
      rw [skipped x inside] at visible
      cases visible
    | cons z value =>
      rw [dropped,skipped] at head
      obtain rfl : z = c := by simpa using head
      have : assignsAt key field = true := (assignsAt_iff key field).mpr ⟨name,y.takeWhile isQuoteOrSpace,z,value,
        by rw [← skipped,List.takeWhile_append_dropWhile]; exact split,named,
        fun x member => List.mem_takeWhile_imp member,separator⟩
      rw [assigns] at this
      cases this

/-- A key that is not in the field passes over it. -/
theorem field_passed {key field : Bytes} (member : key ∈ kKeys) (assigns : assignsIn key field = false)
    (ends : endsIn key field = false) (rest : Bytes) :
    masked redactionMask (keyRule key) (field ++ (opening ++ rest)) =
      field ++ (opening ++ masked redactionMask (keyRule key) rest) := by
  rw [keyRule_over member field,blanks_over member opening]
  · intro x inside
    simp only [opening,List.mem_cons,List.not_mem_nil,or_false] at inside
    rcases inside with rfl | rfl | rfl <;> decide
  · intro v nonempty suffix name after split named
    obtain ⟨y,inside,rfl⟩ := named_within member named split
    exact ⟨unassigned_within named (tails_none assigns v suffix) (tails_none ends v suffix) inside,
      inside ▸ List.prefix_append _ _⟩

/-- What a key at the end of the field makes of the value behind it. -/
def takenValue (key rest : Bytes) : Bytes :=
  let value := rest.dropWhile isQuoteOrSpace
  rest.takeWhile isQuoteOrSpace ++ (if (secretOf value).isEmpty then [] else redactionMask) ++
    masked redactionMask (keyRule key) (value.drop (secretOf value).length)

theorem field_ends {key field : Bytes} (member : key ∈ kKeys) (assigns : assignsIn key field = false)
    (ends : endsIn key field = true) (rest : Bytes) :
    masked redactionMask (keyRule key) (field ++ (opening ++ rest)) = field ++ (opening ++ takenValue key rest) := by
  obtain ⟨front,u,rfl,here,before⟩ := first_tail ends
  obtain ⟨name,blanks,rfl,named,skipped⟩ := (endsAt_iff key u).mp here
  have again : key <+: toLower (name ++ blanks ++ (opening ++ rest)) := by
    rw [List.append_assoc,toLower_append,named]
    exact List.prefix_append _ _
  rw [List.append_assoc,keyRule_over member front]
  · have shape : name ++ blanks ++ (opening ++ rest) = name ++ ((blanks ++ [34]) ++ 58 :: (34 :: rest)) := by
      simp [opening]
    have located := @keyRule_value key name (blanks ++ [34]) (34 :: rest) 58 named
      (by
        intro x inside
        rcases List.mem_append.mp inside with blank | quote
        · exact skipped x blank
        · rw [List.mem_singleton.mp quote]; rfl) (by decide)
    rw [shape,masked_found (keyRule_lawful key member) located]
    have quote : isQuoteOrSpace 34 = true := by decide
    simp [takenValue,opening,quote]
  · intro v nonempty suffix other after split called
    have whole : (v ++ (name ++ blanks)) ++ (opening ++ rest) = other ++ after := by
      rw [List.append_assoc]
      exact split
    obtain ⟨y,inside,rfl⟩ := named_within member called whole
    obtain ⟨w,rfl⟩ := suffix
    have tail : v ++ (name ++ blanks) <:+ w ++ v ++ (name ++ blanks) := ⟨w,by simp⟩
    exact ⟨unassigned_within called (tails_none assigns _ tail) (before v nonempty (List.suffix_append _ _)) inside,
      before_key member called nonempty again split⟩

/-- Behind a separator the rest of the field and the quote are a blank start, a value and its terminator. -/
theorem field_value {value : Bytes} (unstopped : ∀ c ∈ value, isValueTerminator c = false) :
    ∃ gap a b, value ++ opening = gap ++ (a ++ 34 :: b) ∧ (∀ x ∈ gap, isQuoteOrSpace x = true) ∧ a ≠ [] ∧
      (∀ c ∈ a, isValueTerminator c = false) ∧ (∀ c ∈ a.head?, isQuoteOrSpace c = false) ∧ (b = [] ∨ b = [58,34]) := by
  by_cases blank : ∀ x ∈ value, isQuoteOrSpace x = true
  · refine ⟨value ++ [34],[58],[],by simp [opening],?_,by simp,by decide +kernel,by decide +kernel,.inl rfl⟩
    intro x inside
    rcases List.mem_append.mp inside with inside | quote
    · exact blank x inside
    · rw [List.mem_singleton.mp quote]; rfl
  · refine ⟨value.takeWhile isQuoteOrSpace,value.dropWhile isQuoteOrSpace,[58,34],?_,
      fun x member => List.mem_takeWhile_imp member,?_,?_,?_,.inr rfl⟩
    · rw [← List.append_assoc,List.takeWhile_append_dropWhile]
      rfl
    · intro empty
      exact blank (List.dropWhile_eq_nil_iff.mp empty)
    · intro c inside
      exact unstopped c ((List.dropWhile_sublist _).subset inside)
    · intro c head
      have visible := List.head?_dropWhile_not isQuoteOrSpace value
      rw [Option.mem_def.mp head] at visible
      simpa using visible

theorem secretOf_until {a : Bytes} (b : Bytes) (unstopped : ∀ c ∈ a, isValueTerminator c = false) :
    secretOf (a ++ 34 :: b) = a.rdropWhile isSpace ∧
      (a ++ 34 :: b).drop (secretOf (a ++ 34 :: b)).length = a.rtakeWhile isSpace ++ 34 :: b := by
  have stop : isValueTerminator 34 = true := by decide
  have secret : secretOf (a ++ 34 :: b) = a.rdropWhile isSpace := by
    rw [secretOf,List.takeWhile_append_of_pos (by simpa using unstopped)]
    simp [stop]
  refine ⟨secret,?_⟩
  rw [secret]
  conv_lhs => arg 2; rw [← List.rdropWhile_append_rtakeWhile (p := isSpace) (l := a)]
  rw [List.append_assoc,List.drop_left]

theorem keyRule_taken {key name blanks gap a : Bytes} {c : UInt8} (b : Bytes) (named : toLower name = key)
    (skipped : ∀ x ∈ blanks, isQuoteOrSpace x = true) (separator : isSeparator c = true)
    (passed : ∀ x ∈ gap, isQuoteOrSpace x = true) (filled : a ≠ [])
    (unstopped : ∀ c ∈ a, isValueTerminator c = false) (visible : ∀ c ∈ a.head?, isQuoteOrSpace c = false) :
    keyRule key (name ++ (blanks ++ c :: (gap ++ (a ++ 34 :: b)))) =
      some ⟨name ++ (blanks ++ c :: gap),a.rdropWhile isSpace,a.rtakeWhile isSpace ++ 34 :: b⟩ ∧
    a.rdropWhile isSpace ≠ [] := by
  obtain ⟨x,tail,rfl⟩ := List.exists_cons_of_ne_nil filled
  have first := visible x rfl
  have taken : (gap ++ (x :: tail ++ 34 :: b)).takeWhile isQuoteOrSpace = gap := by
    rw [List.takeWhile_append_of_pos passed]
    simp [first]
  have dropped : (gap ++ (x :: tail ++ 34 :: b)).dropWhile isQuoteOrSpace = x :: tail ++ 34 :: b := by
    rw [List.dropWhile_append_of_pos passed]
    simp [first]
  obtain ⟨secret,behind⟩ := secretOf_until b unstopped
  constructor
  · rw [keyRule_value named skipped separator,taken,dropped,behind,secret]
  · rw [isQuoteOrSpace,Bool.or_eq_false_iff] at first
    exact List.ne_nil_of_mem (mem_rdropWhile List.mem_cons_self first.2)

/-- A key before a separator takes the end of the field for its value and leaves the
member's own value alone. -/
theorem field_assigns {key field : Bytes} (member : key ∈ kKeys) (unstopped : ∀ c ∈ field, isValueTerminator c = false)
    (assigns : assignsIn key field = true) : ∃ out, Cut 34 out ∧ ∀ rest,
      masked redactionMask (keyRule key) (field ++ (opening ++ rest)) =
        out ++ masked redactionMask (keyRule key) rest := by
  obtain ⟨front,u,rfl,here,before⟩ := first_tail assigns
  obtain ⟨name,blanks,c,value,rfl,named,skipped,separator⟩ := (assignsAt_iff key u).mp here
  obtain ⟨gap,a,b,shape,passed,filled,plain,visible,closing⟩ := @field_value value fun x inside =>
    unstopped x (by simp [inside])
  have trailing : ∀ x ∈ a.rtakeWhile isSpace ++ 34 :: b, isQuoteOrSpace x = true ∨ isSeparator x = true := by
    intro x inside
    rcases List.mem_append.mp inside with space | inside
    · exact .inl (by simp [isQuoteOrSpace,List.mem_rtakeWhile_imp space])
    · rcases closing with rfl | rfl
      · rw [List.mem_singleton.mp inside]
        exact .inl rfl
      · simp only [List.mem_cons,List.not_mem_nil,or_false] at inside
        rcases inside with rfl | rfl | rfl <;> decide
  refine ⟨front ++ (name ++ (blanks ++ c :: gap)) ++ redactionMask ++ (a.rtakeWhile isSpace ++ 34 :: b),?_,?_⟩
  · refine ⟨?_,by decide,front ++ (name ++ (blanks ++ c :: gap)) ++ redactionMask.dropLast,42,_,?_,by decide,
      by decide,by decide,trailing⟩
    · rw [← List.append_assoc,List.getLast?_append_of_ne_nil _ (by simp)]
      rcases closing with rfl | rfl <;> rfl
    · have mask : redactionMask = redactionMask.dropLast ++ [42] := by decide
      conv_lhs => rw [mask]
      simp
  · intro rest
    have text : name ++ (blanks ++ c :: value) ++ (opening ++ rest) =
        name ++ (blanks ++ c :: (gap ++ (a ++ 34 :: (b ++ rest)))) := by
      have tail := congrArg (· ++ rest) shape
      simp only [List.append_assoc,List.cons_append] at tail ⊢
      rw [tail]
    obtain ⟨located,secret⟩ := keyRule_taken (b ++ rest) named skipped separator passed filled plain visible
    have again : key <+: toLower (name ++ (blanks ++ c :: value) ++ (opening ++ rest)) := by
      rw [List.append_assoc,toLower_append,named]
      exact List.prefix_append _ _
    rw [List.append_assoc,keyRule_over member front,text,masked_found (keyRule_lawful key member) located]
    · have passing := blanks_over member _ rest trailing
      rw [List.append_assoc,List.cons_append] at passing
      simp [secret,passing]
    · intro v nonempty suffix other after split called
      have whole : (v ++ (name ++ (blanks ++ c :: value))) ++ (opening ++ rest) = other ++ after := by
        rw [List.append_assoc]
        exact split
      obtain ⟨y,inside,rfl⟩ := named_within member called whole
      have untaken := before v nonempty suffix
      have bounded : endsAt key (v ++ (name ++ (blanks ++ c :: value))) = false := by
        by_contra ends
        rw [Bool.not_eq_false] at ends
        obtain ⟨first,spaces,equal,naming,blank⟩ := (endsAt_iff _ _).mp ends
        have known : c ∈ first ++ spaces := equal ▸ by simp
        have sign : c = 58 ∨ c = 61 := by simpa [isSeparator] using separator
        rcases List.mem_append.mp known with known | known
        · rw [(named_unstopped member naming c known).2.2] at separator
          cases separator
        · have skip := blank c known
          rcases sign with rfl | rfl <;> cases skip
      exact ⟨unassigned_within called untaken bounded inside,before_key member called nonempty again split⟩

/-! ### All keys over the member -/

/-- What the keys make of a text behind a name, given which of them take it for their value. -/
def treated (marks : List (Bytes × Bool)) (rest : Bytes) : Bytes :=
  marks.foldl (fun text mark =>
    if mark.2 then takenValue mark.1 text else masked redactionMask (keyRule mark.1) text) rest

def Marked (marks : List (Bytes × Bool)) : Prop := ∃ mark ∈ marks, mark.2 = true

theorem treated_unmarked {marks : List (Bytes × Bool)} (unmarked : ¬Marked marks) (rest : Bytes) :
    treated marks rest = passes redactionMask ((marks.map Prod.fst).map keyRule) rest := by
  induction marks generalizing rest with
  | nil => rfl
  | cons mark marks ih =>
    have off : mark.2 = false := by
      by_contra on
      exact unmarked ⟨mark,by simp,by simpa using on⟩
    have others : ¬Marked marks := fun ⟨other,inside,on⟩ => unmarked ⟨other,by simp [inside],on⟩
    simp only [treated,List.foldl_cons,off,Bool.false_eq_true,if_false]
    exact ih others _

theorem keys_cut {keys : List Bytes} (known : ∀ key ∈ keys, key ∈ kKeys) {front : Bytes} (cut : Cut 34 front) :
    ∃ out, Cut 34 out ∧ ∀ rest, passes redactionMask (keys.map keyRule) (front ++ rest) =
      out ++ passes redactionMask (keys.map keyRule) rest := by
  induction keys generalizing front with
  | nil => exact ⟨front,cut,fun rest => rfl⟩
  | cons key keys ih =>
    have member := known key (by simp)
    obtain ⟨out,closed,same⟩ := ih (fun other inside => known other (by simp [inside])) (cut.masked member)
    refine ⟨out,closed,fun rest => ?_⟩
    rw [List.map_cons,passes,List.foldl_cons,cut.masked_append member]
    exact same _

/-- The keys in their order work on the name and on what follows apart from each other,
and one takes the value exactly when the name hides it. -/
theorem keys_member {keys : List Bytes} (known : ∀ key ∈ keys, key ∈ kKeys) {stop : UInt8} {front field : Bytes}
    (cut : Cut stop front) (unstopped : ∀ c ∈ field, isValueTerminator c = false) :
    ∃ out marks, out.getLast? = some 34 ∧ marks.map Prod.fst = keys ∧
      (Marked marks ↔ hidesFrom keys field = true) ∧ ∀ rest,
        passes redactionMask (keys.map keyRule) (front ++ (field ++ (opening ++ rest))) = out ++ treated marks rest := by
  induction keys generalizing front with
  | nil =>
    refine ⟨front ++ (field ++ opening),[],?_,rfl,by simp [Marked,hidesFrom],fun rest => by simp [passes,treated]⟩
    rw [← List.append_assoc,List.getLast?_append_of_ne_nil _ (by decide)]
    rfl
  | cons key keys ih =>
    have member := known key (by simp)
    have others : ∀ other ∈ keys, other ∈ kKeys := fun other inside => known other (by simp [inside])
    cases assigns : assignsIn key field with
    | true =>
      obtain ⟨moved,closed,taken⟩ := field_assigns member unstopped assigns
      have whole : Cut 34 (masked redactionMask (keyRule key) front ++ moved) := by
        obtain ⟨before,c,after,shape,plain⟩ := closed.sealed
        exact ⟨by rw [List.getLast?_append_of_ne_nil _ (by simp [shape]),closed.ends],closed.terminator,
          masked redactionMask (keyRule key) front ++ before,c,after,by simp [shape],plain⟩
      obtain ⟨out,ending,same⟩ := keys_cut others whole
      refine ⟨out,(key,false) :: keys.map (·,false),ending.ends,by simp [Function.comp_def],?_,fun rest => ?_⟩
      · simp [Marked,hidesFrom,assigns]
      · have unmarked : ¬Marked (keys.map (·,false)) := by simp [Marked]
        have rests := treated_unmarked unmarked (masked redactionMask (keyRule key) rest)
        have names : (keys.map (·,false)).map Prod.fst = keys := by simp [Function.comp_def]
        rw [names] at rests
        rw [List.map_cons,passes,List.foldl_cons,cut.masked_append member,taken,← List.append_assoc]
        exact (same _).trans (congrArg (out ++ ·) rests.symm)
    | false =>
      obtain ⟨out,marks,ending,named,marked,same⟩ := ih others (cut.masked member)
      cases ends : endsIn key field with
      | true =>
        refine ⟨out,(key,true) :: marks,ending,by simp [named],?_,fun rest => ?_⟩
        · simp [Marked,hidesFrom,assigns,ends]
        · rw [List.map_cons,passes,List.foldl_cons,cut.masked_append member,field_ends member assigns ends]
          exact same _
      | false =>
        refine ⟨out,(key,false) :: marks,ending,by simp [named],?_,fun rest => ?_⟩
        · simpa [Marked,hidesFrom,assigns,ends] using marked
        · rw [List.map_cons,passes,List.foldl_cons,cut.masked_append member,field_passed member assigns ends]
          exact same _

/-! ### The value of the member -/

/-- A value and the end of the object. -/
def SolidValue (text : Bytes) : Prop := ∃ value, text = value ++ [34,125] ∧ Solid value

/-- Where the end of the object follows one value, putting one solid text in place of
another inside it leaves that so. -/
theorem SolidValue.swap {a x y b : Bytes} (old : Solid x) (new : Solid y) (closed : SolidValue (a ++ x ++ b)) :
    SolidValue (a ++ y ++ b) := by
  obtain ⟨value,shape,solid⟩ := closed
  obtain ⟨inner,rfl,rfl⟩ : ∃ inner, value = a ++ x ++ inner ∧ b = inner ++ [34,125] := by
    rcases List.append_eq_append_iff.mp shape with ⟨w,rfl,rfl⟩ | ⟨w,front,ending⟩
    · exact ⟨w,rfl,rfl⟩
    · cases w with
      | nil => exact ⟨[],by simpa using front.symm,by simpa using ending.symm⟩
      | cons c w =>
        have last : (a ++ x).getLast? = (c :: w).getLast? := by
          rw [front,List.getLast?_append_of_ne_nil _ (by simp)]
        rw [List.getLast?_append_of_ne_nil _ old.filled] at last
        have inside : ∀ l ∈ (c :: w).getLast?, l = 34 ∨ l = 125 := by
          intro l known
          have member : l ∈ ([34,125] : Bytes) := ending ▸ List.mem_append_left _ (List.mem_of_getLast? known)
          simpa using member
        have ends := List.getLast?_eq_some_getLast old.filled
        have plain := old.unstopped _ (List.getLast_mem old.filled)
        rcases inside _ (last ▸ ends) with stop | stop <;> rw [stop] at plain <;> cases plain
  refine ⟨a ++ y ++ inner,by simp,?_⟩
  refine ⟨by simp [new.filled],?_,?_,?_⟩
  · intro c inside
    rcases List.mem_append.mp inside with inside | inside
    · rcases List.mem_append.mp inside with inside | inside
      · exact solid.unstopped c (by simp [inside])
      · exact new.unstopped c inside
    · exact solid.unstopped c (by simp [inside])
  · intro c head
    cases a with
    | nil =>
      rw [List.nil_append,List.head?_append_of_ne_nil _ new.filled] at head
      exact new.first c head
    | cons z a => exact solid.first c (by simpa using head)
  · intro c last
    by_cases ending : inner = []
    · rw [ending,List.append_nil,List.getLast?_append_of_ne_nil _ new.filled] at last
      exact new.last c last
    · rw [List.getLast?_append_of_ne_nil _ ending] at last
      exact solid.last c (by rwa [List.getLast?_append_of_ne_nil _ ending])

/-- A key leaves the shape of the value as it was, whatever stands before its scanner. -/
theorem SolidValue.masked_iff {key : Bytes} (member : key ∈ kKeys) (done text : Bytes) :
    SolidValue (done ++ masked redactionMask (keyRule key) text) ↔ SolidValue (done ++ text) := by
  refine pass_invariant (fun out => SolidValue out ↔ SolidValue (done ++ text)) (keyRule_lawful key member).splits ?_
    text.length done text Iff.rfl
  intro before source found located secret same
  have solid := keyRule_solid located secret
  constructor
  · intro closed
    exact same.mp (closed.swap redactionMask_solid solid)
  · intro closed
    exact (same.mpr closed).swap solid redactionMask_solid

theorem SolidValue.taken_iff {key : Bytes} (member : key ∈ kKeys) (text : Bytes) :
    SolidValue (takenValue key text) ↔ SolidValue text := by
  have whole : text = text.takeWhile isQuoteOrSpace ++ text.dropWhile isQuoteOrSpace :=
    List.takeWhile_append_dropWhile.symm
  obtain ⟨spaces,rest,split,-⟩ := secretOf_split (text.dropWhile isQuoteOrSpace)
  have behind := congrArg (List.drop (secretOf (text.dropWhile isQuoteOrSpace)).length) split
  rw [List.drop_left] at behind
  unfold takenValue
  dsimp only
  rw [SolidValue.masked_iff member]
  by_cases secret : secretOf (text.dropWhile isQuoteOrSpace) = []
  · rw [secret]
    simp only [List.isEmpty_nil,if_true,List.append_nil,List.length_nil,List.drop_zero]
    rw [← whole]
  · have solid : Solid (secretOf (text.dropWhile isQuoteOrSpace)) := by
      refine secretOf_solid _ ?_ secret
      intro c head
      have visible := List.head?_dropWhile_not isQuoteOrSpace text
      rw [Option.mem_def.mp head] at visible
      simpa using visible
    have old : text = text.takeWhile isQuoteOrSpace ++ secretOf (text.dropWhile isQuoteOrSpace) ++ (spaces ++ rest) := by
      rw [List.append_assoc,← split,← whole]
    rw [behind,if_neg (by simpa using secret)]
    constructor
    · intro closed
      rw [old]
      exact closed.swap redactionMask_solid solid
    · intro closed
      rw [old] at closed
      exact closed.swap solid redactionMask_solid

/-! ### Texts in which no rule finds anything -/

theorem hidden_clear : ∀ rule ∈ redactionRules, Clear rule (redactionMask ++ [34,125]) :=
  redactionRules_clear (by decide) (by decide)

theorem digit_clear : ∀ digit ∈ ([49,50] : Bytes), ∀ rule ∈ redactionRules, Clear rule [digit,34,125] := by
  intro digit member
  have shape : digit = 49 ∨ digit = 50 := by simpa using member
  rcases shape with rfl | rfl
  · exact redactionRules_clear (by decide) (by decide)
  · exact redactionRules_clear (by decide) (by decide)

theorem keys_known {key : Bytes} (member : key ∈ kKeys) : keyRule key ∈ redactionRules := by
  simp only [redactionRules,List.mem_append]
  exact .inl (.inl (List.mem_map_of_mem member))

/-- The mask alone is left of a value that a key takes as a whole. -/
theorem SolidValue.taken {key text : Bytes} (member : key ∈ kKeys) (closed : SolidValue text) :
    takenValue key text = redactionMask ++ [34,125] := by
  obtain ⟨value,rfl,solid⟩ := closed
  obtain ⟨x,tail,rfl⟩ := List.exists_cons_of_ne_nil solid.filled
  have visible : isQuoteOrSpace x = false := by
    have stop := solid.unstopped x (by simp)
    simp only [isValueTerminator,Bool.or_eq_false_iff] at stop
    rw [isQuoteOrSpace,Bool.or_eq_false_iff]
    exact ⟨stop.1.1.1.1.1,solid.first x rfl⟩
  have tight : (x :: tail).rdropWhile isSpace = x :: tail := by
    rw [List.rdropWhile_eq_self_iff]
    intro nonempty
    have last := solid.last _ (List.getLast?_eq_some_getLast nonempty)
    rw [last]
    simp
  have blank : (x :: tail).rtakeWhile isSpace = [] := by
    have parts := List.rdropWhile_append_rtakeWhile (p := isSpace) (l := x :: tail)
    rw [tight] at parts
    exact List.append_right_eq_self.mp parts
  obtain ⟨secret,behind⟩ := secretOf_until [125] solid.unstopped
  have rest : masked redactionMask (keyRule key) [34,125] = [34,125] := by
    refine (masked_eq_iff (keyRule_lawful key member) ?_).mpr rfl
    intro source found located u nonempty suffix
    exact hidden_clear _ (keys_known member) source found located u nonempty (suffix.trans (List.suffix_append _ _))
  have dropped : (x :: tail ++ [34,125]).dropWhile isQuoteOrSpace = x :: tail ++ [34,125] := by simp [visible]
  have none : (x :: tail ++ [34,125]).takeWhile isQuoteOrSpace = [] := by simp [visible]
  rw [takenValue,dropped,none,behind,secret,tight,blank,List.nil_append,List.nil_append,rest]
  simp

/-! ### The text of the member -/

theorem hexLower_alnum (n : Nat) (small : n < 16) : isAlnum (Json.hexLower n) = true :=
  (by decide : ∀ n, n < 16 → isAlnum (Json.hexLower n) = true) n small

/-- A byte is written as itself, as an escaped quote, or with a backslash and letters and digits. -/
theorem escapeByte_cases (c : UInt8) : c = 34 ∧ escapeByte c = [92,34] ∨ 32 ≤ c ∧ c ≠ 34 ∧ escapeByte c = [c] ∨
    (c < 32 ∨ c = 92) ∧ ∃ rest, escapeByte c = 92 :: rest ∧ ∀ x ∈ 92 :: rest, x = 92 ∨ isAlnum x = true := by
  have short (letter : UInt8) (plain : letter = 92 ∨ isAlnum letter = true) :
      ∀ x ∈ ([92,letter] : Bytes), x = 92 ∨ isAlnum x = true := by
    intro x member
    simp only [List.mem_cons,List.not_mem_nil,or_false] at member
    rcases member with rfl | rfl
    · exact .inl rfl
    · exact plain
  by_cases quote : c = 34
  · subst quote
    exact .inl ⟨rfl,rfl⟩
  by_cases backslash : c = 92
  · subst backslash
    exact .inr (.inr ⟨.inr rfl,[92],rfl,short 92 (.inl rfl)⟩)
  by_cases control : c < 32
  · refine .inr (.inr ⟨.inl control,?_⟩)
    have small : c.toNat < 32 := UInt8.lt_iff_toNat_lt.mp control
    by_cases backspace : c = 8
    · subst backspace; exact ⟨[98],rfl,short 98 (.inr rfl)⟩
    by_cases formFeed : c = 12
    · subst formFeed; exact ⟨[102],rfl,short 102 (.inr rfl)⟩
    by_cases lineFeed : c = 10
    · subst lineFeed; exact ⟨[110],rfl,short 110 (.inr rfl)⟩
    by_cases carriageReturn : c = 13
    · subst carriageReturn; exact ⟨[114],rfl,short 114 (.inr rfl)⟩
    by_cases tab : c = 9
    · subst tab; exact ⟨[116],rfl,short 116 (.inr rfl)⟩
    refine ⟨[117,48,48,Json.hexLower (c.toNat / 16),Json.hexLower (c.toNat % 16)],?_,?_⟩
    · simp only [escapeByte,quote,backslash,backspace,formFeed,lineFeed,carriageReturn,tab,control,if_true,if_false]
      rfl
    · intro x member
      simp only [List.mem_cons,List.not_mem_nil,or_false] at member
      rcases member with rfl | rfl | rfl | rfl | rfl | rfl
      · exact .inl rfl
      · exact .inr rfl
      · exact .inr rfl
      · exact .inr rfl
      · exact .inr (hexLower_alnum _ (by omega))
      · exact .inr (hexLower_alnum _ (by omega))
  · refine .inr (.inl ⟨UInt8.not_lt.mp control,quote,?_⟩)
    have other (n : UInt8) (low : n < 32) : c ≠ n := fun same => control (same ▸ low)
    simp [escapeByte,quote,backslash,control,other 8 (by decide),other 12 (by decide),other 10 (by decide),
      other 13 (by decide),other 9 (by decide)]

theorem escaped_plain {x : UInt8} (plain : x = 92 ∨ isAlnum x = true) :
    isValueTerminator x = false ∧ isSpace x = false := by
  rcases plain with rfl | alnum
  · decide
  · simp only [isAlnum,isDigit,isAlpha,Bool.or_eq_true,Bool.and_eq_true,decide_eq_true_eq] at alnum
    have none (n : UInt8) (other : isAlnum n = false) : x ≠ n := by
      rintro rfl
      simp only [isAlnum,isDigit,isAlpha,Bool.or_eq_false_iff,Bool.and_eq_false_iff,decide_eq_false_iff_not] at other
      grind
    refine ⟨?_,?_⟩
    · simp [isValueTerminator,none 34 (by decide),none 44 (by decide),none 10 (by decide),none 13 (by decide),
        none 125 (by decide),none 38 (by decide)]
    · simp only [isSpace,Bool.or_eq_false_iff,Bool.and_eq_false_iff,beq_eq_false_iff_ne,decide_eq_false_iff_not]
      grind

theorem escapeByte_plain (c : UInt8) : escapeByte c ≠ [] ∧
    ((∀ x ∈ escapeByte c, isValueTerminator x = false) ↔ c ∉ ([34,44,125,38] : Bytes)) ∧
    ((∀ x ∈ (escapeByte c).head?, isSpace x = false) ↔ c ≠ 32) ∧
    ((∀ x ∈ (escapeByte c).getLast?, isSpace x = false) ↔ c ≠ 32) ∧
    (c = 34 ∨ 34 ∉ escapeByte c) ∧ 10 ∉ escapeByte c ∧ 13 ∉ escapeByte c := by
  rcases escapeByte_cases c with ⟨rfl,written⟩ | ⟨visible,quote,written⟩ | ⟨low,rest,written,plain⟩
  · rw [written]
    exact ⟨by simp,by decide,by decide +kernel,by decide +kernel,.inl rfl,by decide,by decide⟩
  · rw [written]
    have term : isValueTerminator c = false ↔ c ∉ ([34,44,125,38] : Bytes) := by
      simp only [isValueTerminator,Bool.or_eq_false_iff,beq_eq_false_iff_ne,List.mem_cons,List.not_mem_nil,or_false]
      grind
    have space : isSpace c = false ↔ c ≠ 32 := by
      simp only [isSpace,Bool.or_eq_false_iff,Bool.and_eq_false_iff,beq_eq_false_iff_ne,decide_eq_false_iff_not]
      grind
    refine ⟨by simp,by simpa using term,by simpa using space,by simpa using space,.inr ?_,?_,?_⟩ <;>
      simp only [List.mem_singleton] <;> grind
  · rw [written]
    have all (x : UInt8) (member : x ∈ 92 :: rest) := escaped_plain (plain x member)
    have apart (x : UInt8) (stop : isValueTerminator x = true) : x ∉ 92 :: rest := by
      intro member
      rw [(all x member).1] at stop
      cases stop
    have other : c ∉ ([34,44,125,38] : Bytes) ∧ c ≠ 32 := by
      simp only [List.mem_cons,List.not_mem_nil,or_false]
      grind
    refine ⟨by simp,?_,?_,?_,.inr (apart 34 rfl),apart 10 rfl,apart 13 rfl⟩
    · exact ⟨fun _ => other.1,fun _ x member => (all x member).1⟩
    · exact ⟨fun _ => other.2,fun _ x head => (all x (List.mem_of_head? head)).2⟩
    · exact ⟨fun _ => other.2,fun _ x last => (all x (List.mem_of_getLast? last)).2⟩

theorem escape_filled (text : Bytes) (nonempty : text ≠ []) : text.flatMap escapeByte ≠ [] := by
  obtain ⟨c,rest,rfl⟩ := List.exists_cons_of_ne_nil nonempty
  have filled := (escapeByte_plain c).1
  simp [filled]

theorem solid_iff (secret : Bytes) : Solid (secret.flatMap escapeByte) ↔ Plain secret := by
  rcases List.eq_nil_or_concat secret with rfl | ⟨front,l,shape⟩
  · exact ⟨fun solid => absurd rfl solid.filled,fun plain => absurd rfl plain.1⟩
  have nonempty : secret ≠ [] := by simp [shape]
  obtain ⟨c,rest,start⟩ := List.exists_cons_of_ne_nil nonempty
  obtain ⟨filled,-,first,-⟩ := escapeByte_plain c
  obtain ⟨ending,-,-,last,-⟩ := escapeByte_plain l
  have head : (secret.flatMap escapeByte).head? = (escapeByte c).head? := by
    rw [start,List.flatMap_cons,List.head?_append_of_ne_nil _ filled]
  have final : (secret.flatMap escapeByte).getLast? = (escapeByte l).getLast? := by
    rw [shape,List.concat_eq_append,List.flatMap_append,List.flatMap_singleton,List.getLast?_append_of_ne_nil _ ending]
  have unstopped : (∀ x ∈ secret.flatMap escapeByte, isValueTerminator x = false) ↔
      ∀ x ∈ secret, x ∉ ([34,44,125,38] : Bytes) := by
    constructor
    · intro all x member
      exact (escapeByte_plain x).2.1.mp fun y inside => all y (List.mem_flatMap.mpr ⟨x,member,inside⟩)
    · intro all y inside
      obtain ⟨x,member,within⟩ := List.mem_flatMap.mp inside
      exact (escapeByte_plain x).2.1.mpr (all x member) y within
  have front32 : secret.head? ≠ some 32 ↔ c ≠ 32 := by simp [start]
  have last32 : secret.getLast? ≠ some 32 ↔ l ≠ 32 := by simp [shape]
  rw [Plain,← unstopped,front32,last32,← first,← last,← head,← final]
  exact ⟨fun solid => ⟨nonempty,solid.unstopped,solid.first,solid.last⟩,
    fun ⟨_,all,begins,ends⟩ => ⟨escape_filled secret nonempty,all,begins,ends⟩⟩

/-- A quote in an escaped text stands behind a backslash. -/
theorem escape_quote (text front rest : Bytes) (shape : text.flatMap escapeByte = front ++ 34 :: rest) :
    ∃ before, front = before ++ [92] := by
  induction text generalizing front with
  | nil => simp at shape
  | cons c text ih =>
    rw [List.flatMap_cons] at shape
    rcases List.append_eq_append_iff.mp shape with ⟨w,rfl,behind⟩ | ⟨w,within,behind⟩
    · obtain ⟨before,rfl⟩ := ih w behind
      exact ⟨escapeByte c ++ before,by simp⟩
    · cases w with
      | nil =>
        obtain ⟨before,empty⟩ := ih [] (by simpa using behind.symm)
        simp at empty
      | cons y w =>
        obtain ⟨rfl,-⟩ := List.cons_eq_cons.mp behind
        rcases (escapeByte_plain c).2.2.2.2.1 with quote | none
        · rw [quote] at within
          have written : escapeByte 34 = [92,34] := by decide
          rw [written] at within
          cases front with
          | nil => cases within
          | cons z front =>
            obtain ⟨rfl,tail⟩ := List.cons_eq_cons.mp within
            cases front with
            | nil => exact ⟨[],rfl⟩
            | cons z front => simp at tail
        · rw [within] at none
          simp at none

/-- The text up to the last field of the name. -/
def lead (key : Bytes) : Bytes := 123 :: 34 :: (key.flatMap escapeByte).rdropWhile fun c => !isValueTerminator c

theorem lead_cut (key : Bytes) : ∃ stop, Cut stop (lead key) := by
  unfold lead
  generalize shape : (key.flatMap escapeByte).rdropWhile (fun c => !isValueTerminator c) = front
  rcases List.eq_nil_or_concat front with rfl | ⟨before,stop,rfl⟩
  · exact ⟨34,by decide,by decide,[],123,[34],rfl,by decide,by decide,by decide,by decide +kernel⟩
  · rw [List.concat_eq_append] at shape ⊢
    have terminator : isValueTerminator stop = true := by
      have last := List.rdropWhile_last_not (fun c => !isValueTerminator c) (key.flatMap escapeByte) (by simp [shape])
      simpa [shape] using last
    obtain ⟨rest,whole⟩ : before ++ [stop] <+: key.flatMap escapeByte := shape ▸ List.rdropWhile_prefix _ _
    have inside : stop ∈ key.flatMap escapeByte := whole ▸ by simp
    obtain ⟨c,-,written⟩ := List.mem_flatMap.mp inside
    obtain ⟨-,-,-,-,-,lineFeed,carriageReturn⟩ := escapeByte_plain c
    by_cases quote : stop = 34
    · subst quote
      obtain ⟨first,rfl⟩ := escape_quote key before rest (by simpa using whole.symm)
      have last : (123 :: 34 :: (first ++ [92]) ++ [34]).getLast? = some 34 := List.getLast?_concat
      exact ⟨34,last,by decide,123 :: 34 :: first,92,[34],by simp,by decide,by decide,by decide,by decide +kernel⟩
    · have last : (123 :: 34 :: before ++ [stop]).getLast? = some stop := List.getLast?_concat
      refine ⟨stop,last,terminator,123 :: 34 :: before,stop,[],by simp,?_⟩
      simp only [isValueTerminator,Bool.or_eq_true,beq_iff_eq,quote,false_or] at terminator
      rcases terminator with (((rfl | rfl) | rfl) | rfl) | rfl
      · decide +kernel
      · exact absurd written lineFeed
      · exact absurd written carriageReturn
      · decide +kernel
      · decide +kernel

theorem lastField_unstopped (key : Bytes) : ∀ c ∈ lastField key, isValueTerminator c = false := by
  intro c member
  simpa using List.mem_rtakeWhile_imp member

theorem member_text (key secret : Bytes) : (Json.Value.object [(key,.string secret)]).dump =
    lead key ++ (lastField key ++ (opening ++ (secret.flatMap escapeByte ++ [34,125]))) := by
  have name : key.flatMap escapeByte = (key.flatMap escapeByte).rdropWhile (fun c => !isValueTerminator c) ++
      lastField key := List.rdropWhile_append_rtakeWhile.symm
  have whole : (Json.Value.object [(key,.string secret)]).dump = 123 :: 34 :: (key.flatMap escapeByte ++
      (opening ++ (secret.flatMap escapeByte ++ [34,125]))) := by
    simp [Json.Value.dump,Json.Value.dumpMembers,Json.escape,opening]
  rw [whole,lead]
  conv_lhs => rw [name]
  simp

/-! ### Tokens on both sides of a quote -/

theorem bearerRule_quote {u : Bytes} (ends : u.getLast? = some 34) (rest : Bytes) :
    bearerRule (u ++ rest) = (bearerRule u).map (Located.followed · rest) := by
  by_cases occurs : ascii "bearer " <+: toLower u
  · obtain ⟨name,split,named⟩ := startsWith_named (List.isPrefixOf_iff_prefix.mpr occurs)
    generalize u.drop (ascii "bearer ").length = value at split
    subst split
    have filled : value ≠ [] := by
      rintro rfl
      rw [List.append_nil,bearer_ends named] at ends
      cases ends
    rw [List.getLast?_append_of_ne_nil _ filled] at ends
    have stop : (!endsToken 34) = false := by decide
    obtain ⟨taken,dropped⟩ := takeWhile_append_stop (p := fun c => !endsToken c) rest (List.mem_of_getLast? ends) stop
    rw [List.append_assoc,bearerRule_named name _ named,bearerRule_named name _ named,taken,dropped]
    rfl
  · rw [bearerRule_none occurs,bearerRule_none]
    · rfl
    · intro pre
      rw [toLower_append] at pre
      rcases prefix_append_cases pre with inside | outside
      · exact occurs inside
      · have quote : lowerAscii 34 ∈ toLower u := List.mem_map_of_mem (List.mem_of_getLast? ends)
        exact absurd (outside.subset quote) (by decide)

theorem prefixRule_quote {start : Bytes} (member : start ∈ kPrefixes) {u : Bytes} (ends : u.getLast? = some 34)
    (rest : Bytes) : prefixRule start (u ++ rest) = (prefixRule start u).map (Located.followed · rest) := by
  obtain ⟨-,-,-,tokens,-⟩ := kPrefixes_bytes start member
  have stop : isTokenByte 34 = false := by decide
  by_cases occurs : start <+: u
  · obtain ⟨value,rfl⟩ := occurs
    have inside : (34 : UInt8) ∈ value := by
      rcases List.mem_append.mp (List.mem_of_getLast? ends) with first | second
      · have token := tokens 34 first
        rw [stop] at token
        cases token
      · exact second
    obtain ⟨taken,dropped⟩ := takeWhile_append_stop rest inside stop
    rw [List.append_assoc,prefixRule_started,prefixRule_started,taken,dropped]
    split <;> rfl
  · rw [prefixRule_none occurs,prefixRule_none]
    · rfl
    · intro pre
      rcases prefix_append_cases pre with inside | outside
      · exact occurs inside
      · have token := tokens 34 (outside.subset (List.mem_of_getLast? ends))
        rw [stop] at token
        cases token

def tokenRules : List (Rule UInt8) := [bearerRule] ++ kPrefixes.map prefixRule

theorem tokenRules_known {rule : Rule UInt8} (member : rule ∈ tokenRules) : rule ∈ redactionRules := by
  rw [redactionRules,List.append_assoc]
  exact List.mem_append_right _ member

theorem tokenRules_quote {rule : Rule UInt8} (member : rule ∈ tokenRules) {u : Bytes} (ends : u.getLast? = some 34)
    (rest : Bytes) : rule (u ++ rest) = (rule u).map (Located.followed · rest) := by
  simp only [tokenRules,List.mem_append,List.mem_singleton,List.mem_map] at member
  rcases member with rfl | ⟨start,known,rfl⟩
  · exact bearerRule_quote ends rest
  · exact prefixRule_quote known ends rest

theorem tokenRules_secret {rule : Rule UInt8} (member : rule ∈ tokenRules) {text : Bytes} {found : Located UInt8}
    (located : rule text = some found) (secret : found.secret ≠ []) : 34 ∉ found.secret := by
  simp only [tokenRules,List.mem_append,List.mem_singleton,List.mem_map] at member
  intro quote
  rcases member with rfl | ⟨start,known,rfl⟩
  · obtain ⟨name,value,-,-,rfl⟩ := bearerRule_some located
    have plain := List.mem_takeWhile_imp quote
    revert plain
    decide
  · have token := (prefixRule_secret located secret).2.2 34 quote
    revert token
    decide

/-- The rules for tokens work on both sides of a quote apart from each other. -/
theorem tokenRules_append {rules : List (Rule UInt8)} (known : ∀ rule ∈ rules, rule ∈ tokenRules) {front : Bytes}
    (ends : front.getLast? = some 34) : ∃ out, ∀ rest,
      passes redactionMask rules (front ++ rest) = out ++ passes redactionMask rules rest := by
  induction rules generalizing front with
  | nil => exact ⟨front,fun rest => rfl⟩
  | cons rule rules ih =>
    have member := known rule (by simp)
    have lawful := redactionRules_lawful rule (tokenRules_known member)
    have quoted : (masked redactionMask rule front).getLast? = some 34 := by
      refine pass_invariant (fun text => text.getLast? = some 34) lawful.splits ?_ front.length [] front ends
      intro done source found located secret last
      by_cases filled : found.behind = []
      · rw [filled,List.append_nil,List.getLast?_append_of_ne_nil _ secret] at last
        exact absurd (List.mem_of_getLast? last) (tokenRules_secret member located secret)
      · rw [List.getLast?_append_of_ne_nil _ filled] at last ⊢
        exact last
    obtain ⟨out,same⟩ := ih (fun other inside => known other (by simp [inside])) quoted
    refine ⟨out,fun rest => ?_⟩
    have split := masked_append lawful front rest fun u nonempty suffix =>
      tokenRules_quote member (by
        obtain ⟨before,rfl⟩ := suffix
        rwa [List.getLast?_append_of_ne_nil _ nonempty] at ends) rest
    rw [passes,List.foldl_cons,split]
    exact same (masked redactionMask rule rest)

/-! ### When nothing of the value is left -/

theorem treated_good {marks : List (Bytes × Bool)} (known : ∀ mark ∈ marks, mark.1 ∈ kKeys) (text : Bytes) :
    SolidValue (treated marks text) ↔ SolidValue text := by
  induction marks generalizing text with
  | nil => rfl
  | cons mark marks ih =>
    rw [treated,List.foldl_cons]
    refine (ih (fun other inside => known other (by simp [inside])) _).trans ?_
    split
    · exact SolidValue.taken_iff (known mark (by simp)) text
    · exact SolidValue.masked_iff (known mark (by simp)) [] text

theorem hidden_solidValue : SolidValue (redactionMask ++ [34,125]) := ⟨redactionMask,rfl,redactionMask_solid⟩

theorem treated_hidden {marks : List (Bytes × Bool)} (known : ∀ mark ∈ marks, mark.1 ∈ kKeys) :
    treated marks (redactionMask ++ [34,125]) = redactionMask ++ [34,125] := by
  induction marks with
  | nil => rfl
  | cons mark marks ih =>
    have member := known mark (by simp)
    have fixed : (if mark.2 then takenValue mark.1 (redactionMask ++ [34,125])
        else masked redactionMask (keyRule mark.1) (redactionMask ++ [34,125])) = redactionMask ++ [34,125] := by
      split
      · exact SolidValue.taken member hidden_solidValue
      · exact (masked_eq_iff (keyRule_lawful _ member) (hidden_clear _ (keys_known member))).mpr rfl
    rw [treated,List.foldl_cons,fixed]
    exact ih fun other inside => known other (by simp [inside])

/-- A value that one of the keys takes as a whole is gone. -/
theorem treated_taken {marks : List (Bytes × Bool)} (known : ∀ mark ∈ marks, mark.1 ∈ kKeys) (marked : Marked marks)
    {text : Bytes} (closed : SolidValue text) : treated marks text = redactionMask ++ [34,125] := by
  induction marks generalizing text with
  | nil =>
    obtain ⟨mark,inside,-⟩ := marked
    cases inside
  | cons mark marks ih =>
    have member := known mark (by simp)
    have others : ∀ other ∈ marks, other.1 ∈ kKeys := fun other inside => known other (by simp [inside])
    rw [treated,List.foldl_cons]
    cases on : mark.2 with
    | true =>
      rw [if_pos rfl,SolidValue.taken member closed]
      exact treated_hidden others
    | false =>
      rw [if_neg (by simp)]
      obtain ⟨taker,inside,taken⟩ := marked
      rcases List.mem_cons.mp inside with rfl | inside
      · rw [on] at taken
        cases taken
      · exact ih others ⟨taker,inside,taken⟩ ((SolidValue.masked_iff member [] text).mpr closed)

/-- What redaction makes of the text of a member: a front that depends on the name
alone, and what the keys and then the rules for tokens make of the value. -/
theorem redactedMember_eq (key : Bytes) : ∃ out marks, (∀ mark ∈ marks, mark.1 ∈ kKeys) ∧
    marks.map Prod.fst = kKeys ∧ (Marked marks ↔ hidesValue key = true) ∧ ∀ secret, redactedMember key secret =
      out ++ passes redactionMask tokenRules (treated marks (secret.flatMap escapeByte ++ [34,125])) := by
  obtain ⟨stop,cut⟩ := lead_cut key
  obtain ⟨front,marks,ends,named,marked,same⟩ :=
    keys_member (fun _ member => member) cut (lastField_unstopped key)
  obtain ⟨out,apart⟩ := tokenRules_append (fun _ member => member) ends
  refine ⟨out,marks,?_,named,marked,fun secret => ?_⟩
  · intro mark inside
    rw [← named]
    exact List.mem_map_of_mem inside
  · rw [redactedMember,redactSecrets,redactionRules,List.append_assoc,passes_append,member_text,same]
    exact apart _

/-- Without a key that takes the value a digit is left as it is. -/
theorem treated_digit {marks : List (Bytes × Bool)} (known : ∀ mark ∈ marks, mark.1 ∈ kKeys) (unmarked : ¬Marked marks)
    {digit : UInt8} (member : digit ∈ ([49,50] : Bytes)) : treated marks [digit,34,125] = [digit,34,125] := by
  rw [treated_unmarked unmarked,passes_eq_iff]
  · intro rule inside
    obtain ⟨key,named,rfl⟩ := List.mem_map.mp inside
    obtain ⟨mark,known',rfl⟩ := List.mem_map.mp named
    exact keyRule_lawful _ (known mark known')
  · intro rule inside
    obtain ⟨key,named,rfl⟩ := List.mem_map.mp inside
    obtain ⟨mark,known',rfl⟩ := List.mem_map.mp named
    exact digit_clear digit member _ (keys_known (known mark known'))

/-- A secret is redacted as every plain one is exactly when the name hides its value
and the secret is plain itself: a quote, a comma, a closing brace or an ampersand in
it, or a space at one of its ends, is left with what stands behind it. -/
theorem redactedMember_hidden_iff (key secret : Bytes) :
    (∀ other, Plain other → redactedMember key secret = redactedMember key other) ↔
      hidesValue key = true ∧ Plain secret := by
  obtain ⟨out,marks,known,-,marked,same⟩ := redactedMember_eq key
  have lawful : ∀ rule ∈ tokenRules, Lawful redactionMask rule := fun rule member =>
    redactionRules_lawful rule (tokenRules_known member)
  have hidden (text : Bytes) : passes redactionMask tokenRules text = redactionMask ++ [34,125] ↔
      text = redactionMask ++ [34,125] :=
    passes_eq_iff lawful fun rule member => hidden_clear rule (tokenRules_known member)
  have taken (on : Marked marks) (other : Bytes) (plain : Plain other) :
      redactedMember key other = out ++ (redactionMask ++ [34,125]) := by
    rw [same,treated_taken known on ⟨_,rfl,(solid_iff other).mpr plain⟩]
    exact congrArg (out ++ ·) ((hidden _).mpr rfl)
  have digitPlain (digit : UInt8) (member : digit ∈ ([49,50] : Bytes)) : Plain [digit] := by
    have shape : digit = 49 ∨ digit = 50 := by simpa using member
    rcases shape with rfl | rfl <;> exact ⟨by decide,by decide +kernel,by decide,by decide⟩
  rw [← marked]
  constructor
  · intro alike
    by_cases on : Marked marks
    · have equal := (alike [49] (digitPlain 49 (by simp))).trans (taken on [49] (digitPlain 49 (by simp)))
      rw [same,List.append_cancel_left_eq,hidden] at equal
      have closed : SolidValue (treated marks (secret.flatMap escapeByte ++ [34,125])) := equal ▸ hidden_solidValue
      obtain ⟨value,shape,solid⟩ := (treated_good known _).mp closed
      exact ⟨on,(solid_iff secret).mp (List.append_cancel_right shape ▸ solid)⟩
    · have shown (digit : UInt8) (member : digit ∈ ([49,50] : Bytes)) :
          redactedMember key [digit] = out ++ [digit,34,125] := by
        have written : [digit].flatMap escapeByte ++ [34,125] = [digit,34,125] := by
          have shape : digit = 49 ∨ digit = 50 := by simpa using member
          rcases shape with rfl | rfl <;> rfl
        rw [same,written,treated_digit known on member]
        exact congrArg (out ++ ·) ((passes_eq_iff lawful fun rule inside =>
          digit_clear digit member rule (tokenRules_known inside)).mpr rfl)
      have one := alike [49] (digitPlain 49 (by simp))
      have two := alike [50] (digitPlain 50 (by simp))
      rw [one,shown 49 (by simp),shown 50 (by simp),List.append_cancel_left_eq] at two
      simp at two
  · rintro ⟨on,plain⟩ other alike
    rw [taken on secret plain,taken on other alike]

example : hidesValue (ascii "proxy.Password ") = true ∧ hidesValue (ascii "token_name") = false ∧
    hidesValue (ascii "password=my token") = false := by decide

/-- A comma ends the value early. -/
theorem redactedMember_leaks : ¬∀ key secret other : Bytes,
    (∃ name ∈ kKeys, name <:+: key) → secret ≠ [] → other ≠ [] → redactedMember key secret = redactedMember key other := by
  intro same
  have equal := same (ascii "password") (ascii "hunter,2") (ascii "hunter,3")
    ⟨ascii "password",by decide,List.infix_rfl⟩ (by decide) (by decide)
  revert equal
  decide

end TestForge.Strings
