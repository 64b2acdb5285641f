import TestForge.MaskingLoops
import TestForge.Redaction

/-! The loops of `redactSecrets` at positions, as they are written: `out` is changed in place and
`from`, here `start`, moves through it. Each turn does what a rule does at the first place it
applies to, so the loops end and leave the redacted text. -/
namespace TestForge.Strings

open Sequence Masking

/-- `text.find(needle,start)` -/
def findFrom (text needle : Bytes) (start : Nat) : Option Nat :=
  if start ≤ text.length then (cutOn needle (text.drop start)).map fun parts => start + parts.1.length else none

/-- Moves a position over the bytes of a kind. -/
def skip (p : UInt8 → Bool) (out : Bytes) (cursor : Nat) : Nat := cursor + ((out.drop cursor).takeWhile p).length

/-- Moves the end of a value back over whitespace. -/
def trimBack (out : Bytes) (cursor : Nat) : Nat → Nat
  | 0 => 0
  | valueEnd + 1 =>
    if cursor < valueEnd + 1 ∧ (out[valueEnd]?.map isSpace).getD false then trimBack out cursor valueEnd else valueEnd + 1

/-- `out.replace(cursor,length,replacement)` -/
def replace (out : Bytes) (cursor length : Nat) (replacement : Bytes) : Bytes :=
  out.take cursor ++ replacement ++ out.drop (cursor + length)

/-- Puts the mask in the place of a value, unless it is there already. -/
def putMask (s : Scan UInt8) (cursor valueEnd : Nat) : Scan UInt8 :=
  if (s.out.drop cursor).take (valueEnd - cursor) = redactionMask then { s with start := cursor + redactionMask.length }
  else ⟨replace s.out cursor (valueEnd - cursor) redactionMask,cursor + redactionMask.length⟩

def keyTurn (key : Bytes) : Turn UInt8 := fun s =>
  match findFrom (toLower s.out) key s.start with
  | none => none
  | some found =>
    let cursor := skip isQuoteOrSpace s.out (found + key.length)
    match s.out[cursor]? with
    | none => some { s with start := found + key.length }
    | some c =>
      if !isSeparator c then some { s with start := found + key.length }
      else
        let cursor := skip isQuoteOrSpace s.out (cursor + 1)
        let valueEnd := trimBack s.out cursor (skip (fun c => !isValueTerminator c) s.out cursor)
        if valueEnd ≤ cursor then some { s with start := cursor } else some (putMask s cursor valueEnd)

def bearerTurn : Turn UInt8 := fun s =>
  match findFrom (toLower s.out) (ascii "bearer ") s.start with
  | none => none
  | some found =>
    let valueStart := found + 7
    let valueEnd := skip (fun c => !endsToken c) s.out valueStart
    if valueEnd ≤ valueStart then some { s with start := valueStart } else some (putMask s valueStart valueEnd)

def prefixTurn (start : Bytes) : Turn UInt8 := fun s =>
  match findFrom s.out start s.start with
  | none => none
  | some found =>
    let valueEnd := skip isTokenByte s.out (found + start.length)
    let tailLength := valueEnd - (found + start.length)
    if tailLength < 8 then some { s with start := if valueEnd > found then valueEnd else found + 1 }
    else some ⟨replace s.out found (valueEnd - found) (start ++ redactionMask),found + start.length + redactionMask.length⟩

/-- The loops in their order: one for each key, one for bearer tokens, one for each prefix. -/
def redactionTurns : List (Turn UInt8) := kKeys.map keyTurn ++ [bearerTurn] ++ kPrefixes.map prefixTurn

/-! ### Positions -/

theorem findFrom_none (f : UInt8 → UInt8) (needle done rest : Bytes)
    (missed : findFrom ((done ++ rest).map f) needle done.length = none) (u : Bytes) (inside : u <:+ rest) :
    ¬needle <+: u.map f := by
  rw [findFrom,if_pos (by simp),Option.map_eq_none_iff,cutOn_eq_none,
    List.map_append,← done.length_map f,List.drop_left] at missed
  intro occurs
  exact missed (occurs.isInfix.trans (inside.map f).isInfix)

theorem findFrom_some (f : UInt8 → UInt8) (needle done rest : Bytes) (found : Nat)
    (hit : findFrom ((done ++ rest).map f) needle done.length = some found) : ∃ skipped name after,
      rest = skipped ++ (name ++ after) ∧ name.map f = needle ∧ found = (done ++ skipped).length ∧
        ∀ v, v ≠ [] → v <:+ skipped → ¬needle <+: (v ++ (name ++ after)).map f := by
  rw [findFrom,if_pos (by simp),List.map_append,← done.length_map f,List.drop_left] at hit
  obtain ⟨parts,cut,rfl⟩ := Option.map_eq_some_iff.mp hit
  obtain ⟨before,behind⟩ := parts
  have whole := cutOn_split _ _ _ _ cut
  obtain ⟨front,after,rfl,shown,rfl⟩ := List.map_eq_append_iff.mp whole
  obtain ⟨skipped,name,rfl,rfl,named⟩ := List.map_eq_append_iff.mp shown
  refine ⟨skipped,name,after,by rw [List.append_assoc],named,by simp,?_⟩
  rintro v some ⟨w,rfl⟩ occurs
  have shorter : (w.map f).length < ((w ++ v).map f).length := by
    have := List.length_pos_iff.mpr some
    simp only [List.length_map,List.length_append]
    omega
  apply cutOn_first _ _ _ _ cut (w.map f) shorter
  rw [List.append_assoc w,List.append_assoc w,List.map_append]
  exact (List.prefix_append_right_inj _).mpr (by rw [List.append_assoc]; exact occurs)

theorem skip_append (p : UInt8 → Bool) (front after : Bytes) :
    skip p (front ++ after) front.length = (front ++ after.takeWhile p).length := by
  rw [skip,List.drop_left,List.length_append]

theorem getElem?_behind (front run after : Bytes) : (front ++ (run ++ after))[(front ++ run).length]? = after.head? := by
  rw [← List.append_assoc,List.getElem?_append_right (Nat.le_refl _),Nat.sub_self,List.head?_eq_getElem?]

theorem trimBack_append (front run after : Bytes) :
    trimBack (front ++ (run ++ after)) front.length (front ++ run).length =
      (front ++ run.rdropWhile isSpace).length := by
  induction run using List.reverseRecOn generalizing after with
  | nil =>
    rw [List.append_nil,List.rdropWhile_nil,List.append_nil]
    cases front with
    | nil => rfl
    | cons c front =>
      rw [List.length_cons,trimBack,if_neg (by simp)]
  | append_singleton run c ih =>
    have last : (front ++ (run ++ [c] ++ after))[(front ++ run).length]? = some c := by
      rw [List.append_assoc run,getElem?_behind]
      rfl
    have long : (front ++ (run ++ [c])).length = (front ++ run).length + 1 := by simp [Nat.add_assoc]
    rw [long,trimBack,last]
    by_cases space : isSpace c = true
    · rw [if_pos ⟨by simp only [List.length_append]; omega,by simpa using space⟩,List.rdropWhile_concat_pos _ _ _ space,
        List.append_assoc run,ih]
    · rw [if_neg fun holds => space (by simpa using holds.2),List.rdropWhile_concat_neg _ _ _ space,long]

theorem putMask_append (start : Nat) (front secret behind : Bytes) :
    putMask ⟨front ++ (secret ++ behind),start⟩ front.length (front ++ secret).length =
      .between (front ++ redactionMask) behind := by
  have width : (front ++ secret).length - front.length = secret.length := by simp
  rw [putMask,width,List.drop_left,List.take_left]
  split
  · next same => simp [Scan.between,same]
  · rw [replace,List.take_left,← List.length_append,← List.append_assoc,List.drop_left,Scan.between,List.length_append]

/-! ### The turns -/

/-- The loop skips to where the value of an assignment begins. -/
theorem assignment_skip (front : Bytes) {after rest : Bytes} {c : UInt8}
    (skipped : after.dropWhile isQuoteOrSpace = c :: rest) (separator : isSeparator c = true) :
    front ++ after = front ++ assignment after ++ rest.dropWhile isQuoteOrSpace ∧
      skip isQuoteOrSpace (front ++ after) ((front ++ after.takeWhile isQuoteOrSpace).length + 1) =
        (front ++ assignment after).length := by
  have kept : assignment after = after.takeWhile isQuoteOrSpace ++ c :: rest.takeWhile isQuoteOrSpace := by
    rw [assignment,skipped]
    exact if_pos separator
  have reached := skip_append isQuoteOrSpace (front ++ after.takeWhile isQuoteOrSpace ++ [c]) rest
  have whole : front ++ after.takeWhile isQuoteOrSpace ++ [c] ++ rest = front ++ after := by
    rw [List.append_assoc,List.append_assoc,List.singleton_append,← skipped,List.takeWhile_append_dropWhile]
  rw [whole,List.length_append,List.length_singleton] at reached
  constructor
  · rw [kept,List.append_assoc,List.append_assoc,List.cons_append,List.takeWhile_append_dropWhile,← skipped,
      List.takeWhile_append_dropWhile]
  · rw [reached,kept]
    simp

/-- What a turn of a loop over a key does behind the key. -/
theorem keyTurn_found (key front after : Bytes) (start found : Nat)
    (hit : findFrom (toLower (front ++ after)) key start = some found) (place : found + key.length = front.length) :
    keyTurn key ⟨front ++ after,start⟩ = some (.between
      (front ++ assignment after ++ if (assigned after).isEmpty then [] else redactionMask)
      ((after.drop (assignment after).length).drop (assigned after).length)) := by
  have split := assignment_split after
  have cursor : skip isQuoteOrSpace (front ++ after) front.length = (front ++ after.takeWhile isQuoteOrSpace).length :=
    skip_append isQuoteOrSpace front after
  have seen : (front ++ after)[(front ++ after.takeWhile isQuoteOrSpace).length]? =
      (after.dropWhile isQuoteOrSpace).head? := by
    have position := getElem?_behind front (after.takeWhile isQuoteOrSpace) (after.dropWhile isQuoteOrSpace)
    rwa [List.takeWhile_append_dropWhile] at position
  simp only [keyTurn,hit,place,cursor,seen]
  cases skipped : after.dropWhile isQuoteOrSpace with
  | nil => simp [Scan.between,assignment,assigned,skipped]
  | cons c rest =>
    by_cases separator : isSeparator c = true
    · obtain ⟨behind,next⟩ := assignment_skip front skipped separator
      have secret : assigned after = secretOf (rest.dropWhile isQuoteOrSpace) := by
        rw [assigned_eq skipped,if_pos separator]
      have run := skip_append (fun c => !isValueTerminator c) (front ++ assignment after) (rest.dropWhile isQuoteOrSpace)
      have ends := trimBack_append (front ++ assignment after)
        ((rest.dropWhile isQuoteOrSpace).takeWhile fun c => !isValueTerminator c)
        ((rest.dropWhile isQuoteOrSpace).dropWhile fun c => !isValueTerminator c)
      rw [List.takeWhile_append_dropWhile,← behind] at ends
      rw [← behind] at run
      simp only [List.head?_cons,separator,Bool.not_true,Bool.false_eq_true,if_false,next,run,ends]
      rw [← secretOf,← secret]
      by_cases nothing : assigned after = []
      · have whole : front ++ after = front ++ assignment after ++
            (after.drop (assignment after).length).drop (assigned after).length := by
          rw [List.append_assoc,List.append_cancel_left_eq]
          simpa [nothing] using split
        rw [if_pos (by simp [nothing]),whole]
        simp [nothing,Scan.between]
      · have longer : ¬(front ++ assignment after ++ assigned after).length ≤ (front ++ assignment after).length := by
          have some := List.length_pos_iff.mpr nothing
          rw [List.length_append]
          omega
        have masks := putMask_append start (front ++ assignment after) (assigned after)
          ((after.drop (assignment after).length).drop (assigned after).length)
        have whole : front ++ assignment after ++ (assigned after ++
            (after.drop (assignment after).length).drop (assigned after).length) = front ++ after := by
          rw [List.append_assoc,← split]
        rw [whole] at masks
        rw [if_neg longer,masks]
        simp [nothing]
    · simp [separator,Scan.between,assignment,assigned,skipped]

/-- A loop that looks for a text, byte by byte as `f` reads it, and makes what a rule says of the
place where it is found. -/
theorem implements_of_found (f : UInt8 → UInt8) (needle : Bytes) (rule : Rule UInt8) (turn : Turn UInt8)
    (missed : ∀ s, findFrom (s.out.map f) needle s.start = none → turn s = none)
    (other : ∀ u, ¬needle <+: u.map f → rule u = none)
    (hits : ∀ front name after start, name.map f = needle →
      findFrom ((front ++ (name ++ after)).map f) needle start = some front.length →
        ∃ found, rule (name ++ after) = some found ∧
          turn ⟨front ++ (name ++ after),start⟩ = some (.between (front ++ found.shown redactionMask) found.behind)) :
    Implements redactionMask rule turn := by
  have turned : ∀ done rest found, findFrom ((done ++ rest).map f) needle done.length = some found →
      ∃ skipped text located, rest = skipped ++ text ∧
        (∀ v, v ≠ [] → v <:+ skipped → rule (v ++ text) = none) ∧ rule text = some located ∧
          turn (.between done rest) = some (.between (done ++ skipped ++ located.shown redactionMask) located.behind) := by
    intro done rest found hit
    obtain ⟨skipped,name,after,rfl,named,rfl,passed⟩ := findFrom_some f needle done rest found hit
    rw [← List.append_assoc] at hit
    obtain ⟨located,applies,step⟩ := hits (done ++ skipped) name after done.length named hit
    refine ⟨skipped,name ++ after,located,rfl,fun v some inside => other _ (passed v some inside),applies,?_⟩
    rw [← step,Scan.between,List.append_assoc]
  constructor
  · intro done rest stopped u _ inside
    cases hit : findFrom ((done ++ rest).map f) needle done.length with
    | none => exact other u (findFrom_none f needle done rest hit u inside)
    | some found =>
      obtain ⟨skipped,text,located,-,-,-,step⟩ := turned done rest found hit
      rw [step] at stopped
      cases stopped
  · intro done rest next taken
    cases hit : findFrom ((done ++ rest).map f) needle done.length with
    | none =>
      rw [missed (.between done rest) hit] at taken
      cases taken
    | some found =>
      obtain ⟨skipped,text,located,whole,passed,applies,step⟩ := turned done rest found hit
      exact ⟨skipped,text,located,whole,passed,applies,Option.some.inj (taken.symm.trans step)⟩

theorem keyTurn_implements (key : Bytes) : Implements redactionMask (keyRule key) (keyTurn key) := by
  apply implements_of_found lowerAscii key
  · intro s missed
    exact (by simp only [keyTurn,toLower,missed] : keyTurn key s = none)
  · exact fun u => keyRule_none
  · intro front name after start named hit
    refine ⟨_,keyRule_named key name after named,?_⟩
    have place : front.length + key.length = (front ++ name).length := by
      rw [← named,List.length_map,List.length_append]
    rw [← List.append_assoc] at hit ⊢
    rw [keyTurn_found key (front ++ name) after start front.length hit place,Located.shown]
    simp only [List.append_assoc]

theorem bearerTurn_implements : Implements redactionMask bearerRule bearerTurn := by
  apply implements_of_found lowerAscii (ascii "bearer ")
  · intro s missed
    exact (by simp only [bearerTurn,toLower,missed] : bearerTurn s = none)
  · exact fun u => bearerRule_none
  · intro front name after start named hit
    refine ⟨_,bearerRule_named name after named,?_⟩
    have place : front.length + 7 = (front ++ name).length := by
      have long : name.length = 7 := by rw [← name.length_map,named]; rfl
      rw [List.length_append,long]
    have run := skip_append (fun c => !endsToken c) (front ++ name) after
    have hit' : findFrom (toLower (front ++ name ++ after)) (ascii "bearer ") start = some front.length := by
      rw [List.append_assoc]
      exact hit
    rw [← List.append_assoc]
    simp only [bearerTurn,hit',place,run,Located.shown]
    by_cases nothing : (after.takeWhile fun c => !endsToken c) = []
    · have whole : after.dropWhile (fun c => !endsToken c) = after := by
        have split := List.takeWhile_append_dropWhile (p := fun c => !endsToken c) (l := after)
        rwa [nothing] at split
      rw [if_pos (by simp [nothing]),whole]
      simp [nothing,Scan.between]
    · have longer : ¬(front ++ name ++ after.takeWhile fun c => !endsToken c).length ≤ (front ++ name).length := by
        have some := List.length_pos_iff.mpr nothing
        simp only [List.length_append]
        omega
      have masks := putMask_append start (front ++ name) (after.takeWhile fun c => !endsToken c)
        (after.dropWhile fun c => !endsToken c)
      rw [List.takeWhile_append_dropWhile] at masks
      rw [if_neg longer,masks]
      simp [nothing]

theorem prefixTurn_implements (start : Bytes) (nonempty : start ≠ []) :
    Implements redactionMask (prefixRule start) (prefixTurn start) := by
  apply implements_of_found id start
  · intro s missed
    rw [List.map_id] at missed
    exact (by simp only [prefixTurn,missed] : prefixTurn start s = none)
  · intro u absent
    exact prefixRule_none (by rwa [List.map_id] at absent)
  · intro front name after begun named hit
    rw [List.map_id] at named hit
    subst named
    refine ⟨_,prefixRule_started name after,?_⟩
    have run := skip_append isTokenByte (front ++ name) after
    have place : front.length + name.length = (front ++ name).length := List.length_append.symm
    have positive := List.length_pos_iff.mpr nonempty
    have tail : (front ++ name ++ after.takeWhile isTokenByte).length - (front ++ name).length =
        (after.takeWhile isTokenByte).length := by
      simp only [List.length_append]
      omega
    rw [← List.append_assoc] at hit ⊢
    simp only [prefixTurn,hit,place,run,tail]
    have whole : front ++ name ++ after =
        front ++ name ++ after.takeWhile isTokenByte ++ after.dropWhile isTokenByte := by
      rw [List.append_assoc (front ++ name),List.takeWhile_append_dropWhile]
    by_cases short : (after.takeWhile isTokenByte).length < 8
    · have beyond : (front ++ name ++ after.takeWhile isTokenByte).length > front.length := by
        simp only [List.length_append]
        omega
      simp only [if_pos short,if_pos beyond,Located.shown]
      rw [whole,Scan.between]
      simp [List.append_assoc]
    · have some : after.takeWhile isTokenByte ≠ [] := by
        intro empty
        rw [empty] at short
        exact short (by decide)
      have width : front.length + ((front ++ name ++ after.takeWhile isTokenByte).length - front.length) =
          (front ++ name ++ after.takeWhile isTokenByte).length := by
        simp only [List.length_append]
        omega
      have kept : (front ++ name ++ after).take front.length = front := by rw [List.append_assoc,List.take_left]
      simp only [if_neg short,Located.shown,replace,width,kept]
      rw [whole,List.drop_left,Scan.between]
      simp [some,List.append_assoc,Nat.add_assoc]

theorem kPrefixes_nonempty (start : Bytes) (member : start ∈ kPrefixes) : start ≠ [] := (kPrefixes_bytes start member).1

theorem redactionTurns_implement : List.Forall₂ (Implements redactionMask) redactionRules redactionTurns := by
  rw [redactionRules,redactionTurns]
  refine List.rel_append (List.rel_append ?_ (.cons bearerTurn_implements .nil)) ?_
  · rw [List.forall₂_map_left_iff,List.forall₂_map_right_iff,List.forall₂_same]
    exact fun key _ => keyTurn_implements key
  · rw [List.forall₂_map_left_iff,List.forall₂_map_right_iff,List.forall₂_same]
    exact fun start member => prefixTurn_implements start (kPrefixes_nonempty start member)

theorem exists_rule {turn : Turn UInt8} (member : turn ∈ redactionTurns) :
    ∃ rule, Lawful redactionMask rule ∧ Implements redactionMask rule turn := by
  obtain ⟨i,inside,rfl⟩ := List.mem_iff_getElem.mp member
  have long := redactionTurns_implement.length_eq
  have listed : redactionRules[i] ∈ redactionRules := List.getElem_mem (long ▸ inside)
  exact ⟨redactionRules[i],redactionRules_lawful _ listed,List.Forall₂.get redactionTurns_implement (long ▸ inside) inside⟩

/-- Every turn of every loop shortens what stands behind the position and keeps the position in
the text, so that a loop takes no more turns than the text has bytes; the loops end one after
the other, and they leave the redacted text and no other. -/
theorem redactSecrets_terminates (text : Bytes) :
    (∀ turn ∈ redactionTurns, ∀ s next, s.start ≤ s.out.length → turn s = some next →
      next.start ≤ next.out.length ∧ next.out.length - next.start < s.out.length - s.start) ∧
    (∀ turn ∈ redactionTurns, ∀ (labels : List Unit) s, Transition.run (fun _ => turn) labels ⟨text,0⟩ = some s →
      s.start ≤ s.out.length ∧ labels.length + (s.out.length - s.start) ≤ text.length) ∧
    ∀ out, Performs redactionTurns text out ↔ out = redactSecrets text := by
  refine ⟨?_,?_,?_⟩
  · intro turn member s next inside taken
    obtain ⟨rule,lawful,implements⟩ := exists_rule member
    exact implements.progress lawful inside taken
  · intro turn member labels s path
    obtain ⟨rule,lawful,implements⟩ := exists_rule member
    exact implements.run_bounded lawful labels (Nat.zero_le _) path
  · exact performs_iff redactionRules_lawful redactionTurns_implement text

/-- A mask that is there already is passed over. -/
example : keyTurn (ascii "password") ⟨ascii "password=x, password=***REDACTED***",0⟩ =
    some ⟨ascii "password=***REDACTED***, password=***REDACTED***",23⟩ ∧
  keyTurn (ascii "password") ⟨ascii "password=***REDACTED***, password=***REDACTED***",23⟩ =
    some ⟨ascii "password=***REDACTED***, password=***REDACTED***",48⟩ := ⟨rfl,rfl⟩

end TestForge.Strings
