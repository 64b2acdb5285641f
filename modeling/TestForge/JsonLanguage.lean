import TestForge.JsonStrings
import TestForge.JsonNumbers

/-! The parser accepts exactly the documents of the grammar within its limits and
gives the values they denote. -/
namespace TestForge.Json

open Strings Reading

namespace Value

/-- Setting a key that one of the picks has replaces that pick. -/
theorem setMember_picked (key : Bytes) (value : Value) (pick : Bytes → Option (Bytes × Value))
    (named : ∀ k member, pick k = some member → member.1 = k) (keys : List Bytes) (distinct : keys.Nodup)
    (member : key ∈ keys) (present : (pick key).isSome = true) :
    setMember key value (keys.filterMap pick) =
      keys.filterMap fun k => if key = k then some (key,value) else pick k := by
  induction keys with
  | nil => cases member
  | cons first rest ih =>
    obtain ⟨fresh,distinct⟩ := List.nodup_cons.mp distinct
    by_cases same : key = first
    · subst same
      obtain ⟨found,known⟩ := Option.isSome_iff_exists.mp present
      have others : rest.filterMap pick = rest.filterMap fun k => if key = k then some (key,value) else pick k := by
        apply List.filterMap_congr
        intro k inside
        have other : key ≠ k := by rintro rfl; exact fresh inside
        rw [if_neg other]
      rw [List.filterMap_cons_some known,setMember,if_pos (named _ _ known),
        List.filterMap_cons_some (b := (key,value)) (by simp),others]
    · have inside : key ∈ rest := (List.mem_cons.mp member).resolve_left same
      have recursive := ih distinct inside
      cases known : pick first with
      | none =>
        rw [List.filterMap_cons_none known,List.filterMap_cons_none (by simp [same,known]),recursive]
      | some found =>
        have other : found.1 ≠ key := fun equal => same (equal.symm.trans (named _ _ known))
        rw [List.filterMap_cons_some known,setMember,if_neg other,
          List.filterMap_cons_some (b := found) (by simp [same,known]),recursive]

theorem lastWins_snoc (members : List (Bytes × Value)) (key : Bytes) (value : Value) :
    lastWins (members ++ [(key,value)]) = setMember key value (lastWins members) := by
  let pick (k : Bytes) := members.reverse.find? fun member => decide (member.1 = k)
  have named : ∀ k member, pick k = some member → member.1 = k := by
    intro k member found
    simpa using List.find?_some found
  have picks : (fun k => (members ++ [(key,value)]).reverse.find? fun member => decide (member.1 = k)) =
      fun k => if key = k then some (key,value) else pick k := by
    funext k
    by_cases same : key = k <;> simp [same,pick]
  have absent (k : Bytes) : pick k = none ↔ k ∉ members.map (·.1) := by
    simp only [pick,List.find?_eq_none,List.mem_reverse,decide_eq_true_eq,List.mem_map,not_exists,not_and]
  have keys : (members ++ [(key,value)]).map (·.1) = members.map (·.1) ++ [key] := by simp
  rw [lastWins,keys,picks,List.reverse_append,List.reverse_singleton,List.singleton_append,lastWins]
  by_cases known : key ∈ members.map (·.1)
  · rw [List.dedup_cons_of_mem (by simpa using known),setMember_picked key value pick named]
    · exact List.nodup_reverse.mpr (List.nodup_dedup _)
    · simpa using known
    · rw [Option.isSome_iff_ne_none,ne_eq,absent,not_not]
      exact known
  · have others : (members.map (·.1)).reverse.dedup.reverse.filterMap
          (fun k => if key = k then some (key,value) else pick k) =
        (members.map (·.1)).reverse.dedup.reverse.filterMap pick := by
      apply List.filterMap_congr
      intro k inside
      have other : key ≠ k := by
        rintro rfl
        exact known (by simpa using inside)
      rw [if_neg other]
    rw [List.dedup_cons_of_notMem (by simpa using known),List.reverse_cons,List.filterMap_append,others,
      setMember_fresh]
    · simp [pick]
    · intro inside
      obtain ⟨member,picked,rfl⟩ := List.mem_map.mp inside
      obtain ⟨k,listed,found⟩ := List.mem_filterMap.mp picked
      rw [named _ _ found] at known
      exact known (by simpa using listed)

/-- Setting the members one after the other is what the grammar denotes. -/
theorem objectOf_eq (members : List (Bytes × Value)) : objectOf members = .object (lastWins members) := by
  induction members using List.reverseRecOn with
  | nil => rfl
  | append_singleton members member ih =>
    simp only [objectOf,object.injEq] at ih
    rw [objectOf,List.foldl_append,ih,lastWins_snoc members member.1 member.2]
    rfl

end Value

/-! ### Containers -/

theorem skipWhitespace_blank (blank rest : Bytes) (spaces : Blank blank) :
    skipWhitespace (blank ++ rest) = skipWhitespace rest :=
  List.dropWhile_append_of_pos spaces

theorem skipWhitespace_sound (text : Bytes) : ∃ blank, Blank blank ∧ text = blank ++ skipWhitespace text :=
  ⟨text.takeWhile isBlank,fun _ member => List.mem_takeWhile_imp member,
    List.takeWhile_append_dropWhile.symm⟩

/-- A text that whitespace is told apart from, and the end of a container. -/
def Starts (text : Bytes) : Prop := ∃ c rest, text = c :: rest ∧ isBlank c = false ∧ c ≠ 93 ∧ c ≠ 125

theorem skipWhitespace_starts {text : Bytes} (starts : Starts text) (rest : Bytes) :
    skipWhitespace (text ++ rest) = text ++ rest := by
  obtain ⟨c,behind,rfl,visible,-⟩ := starts
  simp [skipWhitespace,visible]

/-- One item with the comma or the closing bracket behind it. -/
def ItemTurn (closing : UInt8) (reads : Bytes → α → Prop) : Relation UInt8 (α × Bool) :=
  fun front turn _ => ∃ before text after, Blank before ∧ reads text turn.1 ∧ Blank after ∧
    front = before ++ text ++ after ++ [if turn.2 then 44 else closing]

theorem itemTurn_takes {closing : UInt8} {reads : Bytes → α → Prop} (front : Bytes) (turn : α × Bool)
    (rest : Bytes) (related : ItemTurn closing reads front turn rest) : front ≠ [] := by
  obtain ⟨before,text,after,-,-,-,rfl⟩ := related
  simp

theorem separator_sound {closing : UInt8} {message text rest : Bytes} {again : Bool}
    (read : separator closing message text = .ok (again,rest)) :
    text = (if again then 44 else closing) :: rest := by
  unfold separator at read
  split at read
  · cases read
  split at read
  · next comma =>
    simp only [Except.ok.injEq,Prod.mk.injEq] at read
    obtain ⟨rfl,rfl⟩ := read
    simp [comma]
  split at read
  · next final =>
    simp only [Except.ok.injEq,Prod.mk.injEq] at read
    obtain ⟨rfl,rfl⟩ := read
    simp [final]
  · cases read

theorem separator_complete (closing : UInt8) (message rest : Bytes) (again : Bool) (other : closing ≠ 44) :
    separator closing message ((if again then 44 else closing) :: rest) = .ok (again,rest) := by
  cases again <;> simp [separator,other]

/-- Items that turns have read are separated by commas. -/
theorem separated_of_turns {closing : UInt8} {reads : Bytes → α → Prop}
    (turns : Turns (ItemTurn closing reads) front items rest) :
    ∃ body, front = body ++ [closing] ∧ Separated (fun item text => reads text item) items body := by
  induction turns with
  | last related =>
    obtain ⟨before,text,after,blankBefore,read,blankAfter,rfl⟩ := related
    exact ⟨before ++ text ++ after,by simp,.last blankBefore read blankAfter⟩
  | more related _ ih =>
    obtain ⟨before,text,after,blankBefore,read,blankAfter,rfl⟩ := related
    obtain ⟨body,rfl,separated⟩ := ih
    exact ⟨before ++ text ++ after ++ 44 :: body,by simp,.more blankBefore read blankAfter separated⟩

theorem turns_of_separated {closing : UInt8} {reads : Bytes → α → Prop} (rest : Bytes)
    (separated : Separated (fun item text => reads text item) items body) :
    Turns (ItemTurn closing reads) (body ++ [closing]) items rest := by
  induction separated with
  | last blankBefore read blankAfter =>
    exact .last ⟨_,_,_,blankBefore,read,blankAfter,rfl⟩
  | @more before item text after _ others blankBefore read blankAfter _ ih =>
    have turn : ItemTurn closing reads (before ++ text ++ after ++ [44]) (item,true)
        (others ++ [closing] ++ rest) := ⟨_,_,_,blankBefore,read,blankAfter,rfl⟩
    simpa using Turns.more turn ih

/-- Leading whitespace belongs to the first item. -/
theorem Separated.indent {spells : α → Bytes → Prop} (spaces : Blank lead)
    (separated : Separated spells items body) : Separated spells items (lead ++ body) := by
  have both : ∀ before, Blank before → Blank (lead ++ before) := by
    intro before blankBefore c member
    exact (List.mem_append.mp member).elim (spaces c) (blankBefore c)
  cases separated with
  | @last before item text after blankBefore spelled blankAfter =>
    simpa using Separated.last (both before blankBefore) spelled blankAfter
  | @more before item text after items others blankBefore spelled blankAfter remaining =>
    simpa using Separated.more (both before blankBefore) spelled blankAfter remaining

/-- Behind the leading whitespace the first item starts. -/
theorem Separated.skip {spells : α → Bytes → Prop} (starts : ∀ item text, spells item text → Starts text)
    (separated : Separated spells items body) :
    ∃ blank behind, Blank blank ∧ body = blank ++ behind ∧ Separated spells items behind ∧ Starts behind := by
  have extend : ∀ text rest, Starts text → Starts (text ++ rest) := by
    rintro text rest ⟨c,behind,rfl,first⟩
    exact ⟨c,behind ++ rest,rfl,first⟩
  have empty : Blank [] := by simp [Blank]
  cases separated with
  | @last before item text after blankBefore spelled blankAfter =>
    exact ⟨before,text ++ after,blankBefore,by simp,.last empty spelled blankAfter,
      extend _ _ (starts _ _ spelled)⟩
  | @more before item text after items others blankBefore spelled blankAfter remaining =>
    refine ⟨before,text ++ after ++ 44 :: others,blankBefore,by simp,.more empty spelled blankAfter remaining,?_⟩
    rw [List.append_assoc]
    exact extend _ _ (starts _ _ spelled)

/-- Items that are each related to something spelled can be listed with what they are
related to. -/
theorem Separated.related {spells : β → Bytes → Prop} {relates : β → α → Prop}
    (separated : Separated (fun item text => ∃ b, spells b text ∧ relates b item) items body) :
    ∃ list, Separated spells list body ∧ List.Forall₂ relates list items := by
  induction separated with
  | last blankBefore read blankAfter =>
    obtain ⟨b,spelled,related⟩ := read
    exact ⟨[b],.last blankBefore spelled blankAfter,.cons related .nil⟩
  | more blankBefore read blankAfter _ ih =>
    obtain ⟨b,spelled,related⟩ := read
    obtain ⟨list,separated,others⟩ := ih
    exact ⟨b :: list,.more blankBefore spelled blankAfter separated,.cons related others⟩

theorem Separated.preimages {spells : β → Bytes → Prop} {good : β → Prop} {image : β → α}
    (separated : Separated (fun item text => ∃ b, spells b text ∧ good b ∧ image b = item) items body) :
    ∃ list, Separated spells list body ∧ (∀ b ∈ list, good b) ∧ list.map image = items := by
  obtain ⟨list,spelled,related⟩ := separated.related
  refine ⟨list,spelled,?_⟩
  clear separated spelled
  induction related with
  | nil => simp
  | cons first _ ih => simpa [first.2] using ⟨⟨first.1,ih.1⟩,ih.2⟩

theorem Separated.images {spells : β → Bytes → Prop} {good : β → Prop} {image : β → α}
    (separated : Separated spells list body) (fine : ∀ b ∈ list, good b) :
    Separated (fun item text => ∃ b, spells b text ∧ good b ∧ image b = item) (list.map image) body := by
  induction separated with
  | last blankBefore spelled blankAfter =>
    exact .last blankBefore ⟨_,spelled,fine _ (by simp),rfl⟩ blankAfter
  | more blankBefore spelled blankAfter _ ih =>
    exact .more blankBefore ⟨_,spelled,fine _ (by simp),rfl⟩ blankAfter
      (ih fun b member => fine b (by simp [member]))

/-! ### Values -/

/-- A reader of single values: it takes exactly the texts of `reads` where they end. -/
structure ReadsValue (element : Parser Value) (reads : Bytes → Value → Prop) : Prop where
  sound : ∀ text value rest, element text = .ok (value,rest) → ∃ front, text = front ++ rest ∧ reads front value
  complete : ∀ front value rest, reads front value → Ends rest → element (front ++ rest) = .ok (value,rest)
  starts : ∀ front value, reads front value → Starts front

/-- Whitespace and then a comma or a closing bracket end a number. -/
theorem ends_item (after rest : Bytes) (closing : UInt8) (spaces : Blank after)
    (delimiter : closing = 44 ∨ closing = 93 ∨ closing = 125) : Ends (after ++ closing :: rest) := by
  cases after with
  | nil =>
    rcases delimiter with rfl | rfl | rfl <;> simp [Ends,isDigit]
  | cons c behind =>
    have space := spaces c (by simp)
    simp only [isBlank,Bool.or_eq_true,beq_iff_eq] at space
    rcases space with ((rfl | rfl) | rfl) | rfl <;> simp [Ends,isDigit]

theorem blank_separator (after rest : Bytes) (closing : UInt8) (spaces : Blank after)
    (delimiter : closing = 44 ∨ closing = 93 ∨ closing = 125) :
    skipWhitespace (after ++ closing :: rest) = closing :: rest := by
  rw [skipWhitespace_blank _ _ spaces]
  rcases delimiter with rfl | rfl | rfl <;> rfl

theorem itemTurn_sound (valid : ReadsValue element reads) :
    Sound (itemTurn element) (ItemTurn 93 reads) := by
  intro text turn rest read
  obtain ⟨⟨item,afterItem⟩,parsed,read⟩ := bind_ok.mp read
  obtain ⟨⟨again,afterTurn⟩,separated,read⟩ := bind_ok.mp read
  simp only [pure,Except.pure,Except.ok.injEq,Prod.mk.injEq] at read
  obtain ⟨rfl,rfl⟩ := read
  obtain ⟨before,blankBefore,text_eq⟩ := skipWhitespace_sound text
  obtain ⟨front,front_eq,related⟩ := valid.sound _ _ _ parsed
  obtain ⟨after,blankAfter,after_eq⟩ := skipWhitespace_sound afterItem
  refine ⟨_,?_,before,front,after,blankBefore,related,blankAfter,rfl⟩
  rw [text_eq,front_eq,after_eq,separator_sound separated]
  simp

theorem itemTurn_complete (valid : ReadsValue element reads) :
    Complete (itemTurn element) (ItemTurn 93 reads) := by
  rintro front ⟨item,again⟩ rest ⟨before,text,after,blankBefore,related,blankAfter,rfl⟩
  have delimiter : (if again then 44 else 93 : UInt8) = 44 ∨ (if again then 44 else 93 : UInt8) = 93 ∨
      (if again then 44 else 93 : UInt8) = 125 := by cases again <;> simp
  have first : element (skipWhitespace (before ++ text ++ after ++ [if again then 44 else 93] ++ rest)) =
      .ok (item,after ++ (if again then 44 else 93) :: rest) := by
    simp only [List.append_assoc,List.singleton_append]
    rw [skipWhitespace_blank _ _ blankBefore,skipWhitespace_starts (valid.starts _ _ related)]
    exact valid.complete _ _ _ related (ends_item _ _ _ blankAfter delimiter)
  simp only [itemTurn,first,bind,Except.bind,blank_separator _ _ _ blankAfter delimiter,
    separator_complete 93 _ _ _ (by decide),pure,Except.pure]

/-- A member of an object whose value `reads` reads. -/
def ReadsMember (reads : Bytes → Value → Prop) (text : Bytes) (member : Bytes × Value) : Prop :=
  ∃ units before after front, member.1 = StringUnit.denote units ∧ Blank before ∧ Blank after ∧
    reads front member.2 ∧ text = StringUnit.literal units ++ before ++ 58 :: after ++ front

theorem parseKey_iff (text key rest : Bytes) : parseKey text = .ok (key,rest) ↔
    ∃ units, text = StringUnit.literal units ++ rest ∧ key = StringUnit.denote units := by
  constructor
  · intro parsed
    unfold parseKey at parsed
    split at parsed
    · obtain ⟨units,rfl,rfl⟩ := (parseString_iff _ _ _).mp parsed
      exact ⟨units,by simp [StringUnit.literal],rfl⟩
    · cases parsed
  · rintro ⟨units,rfl,rfl⟩
    have parsed := (parseString_iff (units.flatMap StringUnit.text ++ 34 :: rest) _ rest).mpr ⟨units,rfl,rfl⟩
    simpa [parseKey,StringUnit.literal] using parsed

theorem expect_ok (c : UInt8) (text rest : Bytes) : expect c text = .ok rest ↔ text = c :: rest := by
  cases text with
  | nil => simp [expect,fail]
  | cons first behind =>
    by_cases same : first = c <;> simp [expect,fail,same]

theorem literal_starts (units : List StringUnit) (rest : Bytes) :
    Starts (StringUnit.literal units ++ rest) :=
  ⟨34,units.flatMap StringUnit.text ++ [34] ++ rest,by simp [StringUnit.literal],rfl,by decide,by decide⟩

theorem memberTurn_sound (valid : ReadsValue element reads) :
    Sound (memberTurn element) (ItemTurn 125 (ReadsMember reads)) := by
  intro text turn rest read
  obtain ⟨⟨key,afterKey⟩,parsedKey,read⟩ := bind_ok.mp read
  obtain ⟨afterColon,colon,read⟩ := bind_ok.mp read
  obtain ⟨⟨value,afterValue⟩,parsed,read⟩ := bind_ok.mp read
  obtain ⟨⟨again,afterTurn⟩,separated,read⟩ := bind_ok.mp read
  simp only [pure,Except.pure,Except.ok.injEq,Prod.mk.injEq] at read
  obtain ⟨rfl,rfl⟩ := read
  obtain ⟨before,blankBefore,text_eq⟩ := skipWhitespace_sound text
  obtain ⟨units,key_eq,meaning⟩ := (parseKey_iff _ _ _).mp parsedKey
  obtain ⟨gap,blankGap,gap_eq⟩ := skipWhitespace_sound afterKey
  obtain ⟨lead,blankLead,lead_eq⟩ := skipWhitespace_sound afterColon
  obtain ⟨front,front_eq,related⟩ := valid.sound _ _ _ parsed
  obtain ⟨after,blankAfter,after_eq⟩ := skipWhitespace_sound afterValue
  refine ⟨_,?_,before,_,after,blankBefore,⟨units,gap,lead,front,meaning,blankGap,blankLead,related,rfl⟩,
    blankAfter,rfl⟩
  rw [text_eq,key_eq,gap_eq,(expect_ok _ _ _).mp colon,lead_eq,front_eq,after_eq,separator_sound separated]
  simp

theorem memberTurn_complete (valid : ReadsValue element reads) :
    Complete (memberTurn element) (ItemTurn 125 (ReadsMember reads)) := by
  rintro front ⟨⟨key,value⟩,again⟩ rest ⟨before,text,after,blankBefore,
    ⟨units,gap,lead,front,meaning,blankGap,blankLead,related,rfl⟩,blankAfter,rfl⟩
  dsimp only at meaning related
  have delimiter : (if again then 44 else 125 : UInt8) = 44 ∨ (if again then 44 else 125 : UInt8) = 93 ∨
      (if again then 44 else 125 : UInt8) = 125 := by cases again <;> simp
  have first : parseKey (skipWhitespace (before ++ (StringUnit.literal units ++ gap ++ 58 :: lead ++ front) ++
        after ++ [if again then 44 else 125] ++ rest)) =
      .ok (key,gap ++ 58 :: (lead ++ (front ++ (after ++ (if again then 44 else 125) :: rest)))) := by
    rw [parseKey_iff]
    refine ⟨units,?_,meaning⟩
    simp only [List.append_assoc,List.cons_append,List.nil_append]
    have starts := literal_starts units []
    rw [List.append_nil] at starts
    rw [skipWhitespace_blank _ _ blankBefore,skipWhitespace_starts starts]
  have colon : skipWhitespace (gap ++ 58 :: (lead ++ (front ++ (after ++ (if again then 44 else 125) :: rest)))) =
      58 :: (lead ++ (front ++ (after ++ (if again then 44 else 125) :: rest))) := by
    rw [skipWhitespace_blank _ _ blankGap]
    rfl
  have behind : element (skipWhitespace (lead ++ (front ++ (after ++ (if again then 44 else 125) :: rest)))) =
      .ok (value,after ++ (if again then 44 else 125) :: rest) := by
    rw [skipWhitespace_blank _ _ blankLead,skipWhitespace_starts (valid.starts _ _ related)]
    exact valid.complete _ _ _ related (ends_item _ _ _ blankAfter delimiter)
  simp only [memberTurn,first,bind,Except.bind,colon,(expect_ok 58 (58 :: _) _).mpr rfl,behind,
    blank_separator _ _ _ blankAfter delimiter,separator_complete 125 _ _ _ (by decide),pure,Except.pure]

theorem readsMember_starts (text : Bytes) (member : Bytes × Value)
    (related : ReadsMember reads text member) : Starts text := by
  obtain ⟨units,before,after,front,-,-,-,-,rfl⟩ := related
  simpa using literal_starts units (before ++ (58 :: after ++ front))

/-- What a container reads between its brackets: nothing, or separated items. -/
def ReadsItems (reads : Bytes → α → Prop) (body : Bytes) (items : List α) : Prop :=
  items = [] ∧ Blank body ∨ Separated (fun item text => reads text item) items body

theorem skipWhitespace_closing {text behind : Bytes} {closing : UInt8}
    (skipped : skipWhitespace text = closing :: behind) : ∃ blank, Blank blank ∧ text = blank ++ closing :: behind := by
  obtain ⟨blank,spaces,shape⟩ := skipWhitespace_sound text
  exact ⟨blank,spaces,skipped ▸ shape⟩

theorem parseArray_sound (valid : ReadsValue element reads) (text rest : Bytes) (value : Value)
    (parsed : parseArray element text = .ok (value,rest)) :
    ∃ body items, text = body ++ 93 :: rest ∧ value = .array items ∧ ReadsItems reads body items := by
  unfold parseArray at parsed
  split at parsed
  · next behind skipped =>
    simp only [Except.ok.injEq,Prod.mk.injEq] at parsed
    obtain ⟨rfl,rfl⟩ := parsed
    obtain ⟨blank,spaces,shape⟩ := skipWhitespace_closing skipped
    exact ⟨blank,[],shape,rfl,.inl ⟨rfl,spaces⟩⟩
  · split at parsed
    · cases parsed
    next items after turns =>
    simp only [Except.ok.injEq,Prod.mk.injEq] at parsed
    obtain ⟨rfl,rfl⟩ := parsed
    obtain ⟨blank,spaces,shape⟩ := skipWhitespace_sound text
    obtain ⟨front,front_eq,related⟩ := readItems_sound (itemTurn_sound valid) _ _ _ turns
    obtain ⟨body,rfl,separated⟩ := separated_of_turns related
    exact ⟨blank ++ body,items,by rw [shape,front_eq]; simp,rfl,.inr (separated.indent spaces)⟩

theorem parseArray_complete (valid : ReadsValue element reads) (body rest : Bytes) (items : List Value)
    (related : ReadsItems reads body items) :
    parseArray element (body ++ 93 :: rest) = .ok (.array items,rest) := by
  rcases related with ⟨rfl,spaces⟩ | separated
  · simp [parseArray,blank_separator body rest 93 spaces]
  · obtain ⟨blank,behind,spaces,rfl,separated,starts⟩ := separated.skip fun item text => valid.starts text item
    have skipped : skipWhitespace (blank ++ behind ++ 93 :: rest) = behind ++ 93 :: rest := by
      rw [List.append_assoc,skipWhitespace_blank _ _ spaces,skipWhitespace_starts starts]
    have turns := @readItems_complete _ _ _ unread _ _ (itemTurn_complete valid) itemTurn_takes _ _ rest
      (turns_of_separated rest separated)
    rw [List.append_assoc,List.singleton_append] at turns
    obtain ⟨c,others,rfl,-,notArray,-⟩ := starts
    rw [parseArray,skipped,List.cons_append]
    split
    · next same =>
      simp only [List.cons.injEq] at same
      exact absurd same.1 notArray
    · rw [← List.cons_append,turns]

theorem parseObject_sound (valid : ReadsValue element reads) (text rest : Bytes) (value : Value)
    (parsed : parseObject element text = .ok (value,rest)) :
    ∃ body members, text = body ++ 125 :: rest ∧ value = .object (lastWins members) ∧
      ReadsItems (ReadsMember reads) body members := by
  unfold parseObject at parsed
  split at parsed
  · next behind skipped =>
    simp only [Except.ok.injEq,Prod.mk.injEq] at parsed
    obtain ⟨rfl,rfl⟩ := parsed
    obtain ⟨blank,spaces,shape⟩ := skipWhitespace_closing skipped
    exact ⟨blank,[],shape,rfl,.inl ⟨rfl,spaces⟩⟩
  · split at parsed
    · cases parsed
    next members after turns =>
    simp only [Except.ok.injEq,Prod.mk.injEq] at parsed
    obtain ⟨rfl,rfl⟩ := parsed
    obtain ⟨blank,spaces,shape⟩ := skipWhitespace_sound text
    obtain ⟨front,front_eq,related⟩ := readItems_sound (memberTurn_sound valid) _ _ _ turns
    obtain ⟨body,rfl,separated⟩ := separated_of_turns related
    exact ⟨blank ++ body,members,by rw [shape,front_eq]; simp,Value.objectOf_eq members,
      .inr (separated.indent spaces)⟩

theorem parseObject_complete (valid : ReadsValue element reads) (body rest : Bytes)
    (members : List (Bytes × Value)) (related : ReadsItems (ReadsMember reads) body members) :
    parseObject element (body ++ 125 :: rest) = .ok (.object (lastWins members),rest) := by
  rcases related with ⟨rfl,spaces⟩ | separated
  · rw [parseObject,blank_separator body rest 125 spaces (by simp)]
    rfl
  · obtain ⟨blank,behind,spaces,rfl,separated,starts⟩ :=
      separated.skip fun member text => readsMember_starts text member
    have skipped : skipWhitespace (blank ++ behind ++ 125 :: rest) = behind ++ 125 :: rest := by
      rw [List.append_assoc,skipWhitespace_blank _ _ spaces,skipWhitespace_starts starts]
    have turns := @readItems_complete _ _ _ unread _ _ (memberTurn_complete valid) itemTurn_takes _ _ rest
      (turns_of_separated rest separated)
    rw [List.append_assoc,List.singleton_append] at turns
    obtain ⟨c,others,rfl,-,-,notObject⟩ := starts
    rw [parseObject,skipped,List.cons_append]
    split
    · next same =>
      simp only [List.cons.injEq] at same
      exact absurd same.1 notObject
    · rw [← List.cons_append,turns,← Value.objectOf_eq]

/-! ### The tree -/

theorem Node.itemValues_eq (items : List Node) : Node.itemValues items = items.map Node.value := by
  induction items with
  | nil => rfl
  | cons item rest ih => simp [Node.itemValues,ih]

theorem Node.memberValues_eq (members : List (List StringUnit × Node)) : Node.memberValues members =
    members.map fun member => (StringUnit.denote member.1,member.2.value) := by
  induction members with
  | nil => rfl
  | cons member rest ih => simp [Node.memberValues,ih]

theorem Node.itemDepth_le (items : List Node) (n : Nat) :
    Node.itemDepth items ≤ n ↔ ∀ item ∈ items, item.depth < n := by
  induction items with
  | nil => simp [Node.itemDepth]
  | cons item rest ih => rw [Node.itemDepth,Nat.max_le,ih,List.forall_mem_cons,Nat.succ_le_iff]

theorem Node.memberDepth_le (members : List (List StringUnit × Node)) (n : Nat) :
    Node.memberDepth members ≤ n ↔ ∀ member ∈ members, member.2.depth < n := by
  induction members with
  | nil => simp [Node.memberDepth]
  | cons member rest ih =>
    obtain ⟨key,node⟩ := member
    rw [Node.memberDepth,Nat.max_le,ih,List.forall_mem_cons,Nat.succ_le_iff]

/-- The texts of the values with no more containers around them than levels are left. -/
def Denotes (levels : Nat) (text : Bytes) (value : Value) : Prop :=
  ∃ node : Node, node.Spells text ∧ node.depth < levels ∧ node.value = value

theorem Numeral.starts (n : Numeral) (rest : Bytes) :
    ∃ c behind, n.text ++ rest = c :: behind ∧ (c = 45 ∨ isDigit c = true) := by
  obtain ⟨c,others,shape,numeric⟩ := n.whole.head
  rw [n.text_eq]
  cases n.negative with
  | true => exact ⟨45,_,rfl,.inl rfl⟩
  | false => exact ⟨c,_,by simp only [shape]; rfl,.inr numeric⟩

theorem denotes_starts (text : Bytes) (value : Value) (related : Denotes levels text value) : Starts text := by
  obtain ⟨node,spelled,-,-⟩ := related
  cases spelled with
  | number =>
    obtain ⟨c,behind,shape,first⟩ := Numeral.starts _ []
    rw [List.append_nil] at shape
    refine ⟨c,behind,shape,?_⟩
    rcases first with rfl | numeric
    · decide
    · have range := digit_range c numeric
      simp only [isBlank]
      grind
  | string => simpa using literal_starts _ []
  | null | true | false | emptyArray | array | emptyObject | object =>
    exact ⟨_,_,rfl,by decide,by decide,by decide⟩

theorem readsItems_preimages {spells : β → Bytes → Prop} {good : β → Prop} {image : β → α}
    (related : ReadsItems (fun text item => ∃ b, spells b text ∧ good b ∧ image b = item) body items) :
    ∃ list, (list = [] ∧ Blank body ∨ Separated spells list body) ∧ (∀ b ∈ list, good b) ∧ list.map image = items := by
  rcases related with ⟨rfl,spaces⟩ | separated
  · exact ⟨[],.inl ⟨rfl,spaces⟩,by simp,rfl⟩
  · obtain ⟨list,separated,fine,images⟩ := separated.preimages
    exact ⟨list,.inr separated,fine,images⟩

theorem readsMember_denotes (text : Bytes) (member : Bytes × Value) :
    ReadsMember (Denotes levels) text member ↔ ∃ tree : List StringUnit × Node,
      Member Node.Spells tree text ∧ tree.2.depth < levels ∧
        (StringUnit.denote tree.1,tree.2.value) = member := by
  constructor
  · rintro ⟨units,before,after,front,meaning,blankBefore,blankAfter,⟨node,spelled,shallow,value⟩,rfl⟩
    exact ⟨(units,node),.intro blankBefore blankAfter spelled,shallow,Prod.ext meaning.symm value⟩
  · rintro ⟨tree,spelled,shallow,rfl⟩
    cases spelled with
    | intro blankBefore blankAfter spelled =>
      exact ⟨_,_,_,_,rfl,blankBefore,blankAfter,⟨_,spelled,shallow,rfl⟩,rfl⟩

theorem consumeLiteral_sound {literal text rest : Bytes} {value result : Value}
    (parsed : consumeLiteral literal value text = .ok (result,rest)) :
    text = literal ++ rest ∧ result = value := by
  unfold consumeLiteral at parsed
  split at parsed
  · next starts =>
    simp only [Except.ok.injEq,Prod.mk.injEq] at parsed
    obtain ⟨rfl,rfl⟩ := parsed
    obtain ⟨behind,rfl⟩ := List.isPrefixOf_iff_prefix.mp starts
    simp
  · cases parsed

theorem consumeLiteral_complete (literal rest : Bytes) (value : Value) :
    consumeLiteral literal value (literal ++ rest) = .ok (value,rest) := by
  have starts : startsWith (literal ++ rest) literal = true :=
    List.isPrefixOf_iff_prefix.mpr (List.prefix_append _ _)
  simp [consumeLiteral,starts]

theorem parseValue_sound (levels : Nat) (valid : ReadsValue (parseValue levels) (Denotes levels))
    (text rest : Bytes) (value : Value) (parsed : parseValue (levels + 1) text = .ok (value,rest)) :
    ∃ front, text = front ++ rest ∧ Denotes (levels + 1) front value := by
  cases text with
  | nil => cases parsed
  | cons c behind =>
    rw [parseValue] at parsed
    split at parsed
    · obtain ⟨shape,rfl⟩ := consumeLiteral_sound parsed
      exact ⟨_,shape,.null,.null,by simp [Node.depth],rfl⟩
    split at parsed
    · obtain ⟨shape,rfl⟩ := consumeLiteral_sound parsed
      exact ⟨_,shape,.bool true,.true,by simp [Node.depth],rfl⟩
    split at parsed
    · obtain ⟨shape,rfl⟩ := consumeLiteral_sound parsed
      exact ⟨_,shape,.bool false,.false,by simp [Node.depth],rfl⟩
    split at parsed
    · next quote =>
      split at parsed
      · cases parsed
      next text after string =>
      simp only [Except.ok.injEq,Prod.mk.injEq] at parsed
      obtain ⟨rfl,rfl⟩ := parsed
      obtain ⟨units,rfl,rfl⟩ := (parseString_iff _ _ _).mp string
      exact ⟨StringUnit.literal units,by simp [quote,StringUnit.literal],.string units,.string,
        by simp [Node.depth],rfl⟩
    split at parsed
    · next bracket =>
      obtain ⟨body,items,rfl,rfl,related⟩ := parseArray_sound valid _ _ _ parsed
      obtain ⟨nodes,separated,shallow,values⟩ := readsItems_preimages related
      refine ⟨91 :: body ++ [93],by simp [bracket],.array nodes,?_,?_,?_⟩
      · rcases separated with ⟨rfl,spaces⟩ | separated
        · exact .emptyArray spaces
        · exact .array separated
      · rw [Node.depth,Nat.lt_succ_iff,Node.itemDepth_le]
        exact shallow
      · rw [Node.value,Node.itemValues_eq,values]
    split at parsed
    · next brace =>
      obtain ⟨body,members,rfl,rfl,related⟩ := parseObject_sound valid _ _ _ parsed
      have same : ReadsMember (Denotes levels) = fun text member => ∃ tree : List StringUnit × Node,
          Member Node.Spells tree text ∧ tree.2.depth < levels ∧
            (StringUnit.denote tree.1,tree.2.value) = member := by
        funext text member
        exact propext (readsMember_denotes text member)
      rw [same] at related
      obtain ⟨trees,separated,shallow,values⟩ := readsItems_preimages related
      refine ⟨123 :: body ++ [125],by simp [brace],.object trees,?_,?_,?_⟩
      · rcases separated with ⟨rfl,spaces⟩ | separated
        · exact .emptyObject spaces
        · exact .object separated
      · rw [Node.depth,Nat.lt_succ_iff,Node.memberDepth_le]
        exact shallow
      · rw [Node.value,Node.memberValues_eq,values]
    · obtain ⟨n,shape,rfl⟩ := parseNumber_sound parsed
      exact ⟨n.text,shape,.number n,.number,by simp [Node.depth],rfl⟩

theorem parseValue_complete (levels : Nat) (valid : ReadsValue (parseValue levels) (Denotes levels))
    (front rest : Bytes) (value : Value) (related : Denotes (levels + 1) front value) (ends : Ends rest) :
    parseValue (levels + 1) (front ++ rest) = .ok (value,rest) := by
  obtain ⟨node,spelled,shallow,rfl⟩ := related
  cases spelled with
  | null => exact consumeLiteral_complete (ascii "null") rest .null
  | true => exact consumeLiteral_complete (ascii "true") rest (.bool true)
  | false => exact consumeLiteral_complete (ascii "false") rest (.bool false)
  | @number n =>
    obtain ⟨c,behind,shape,first⟩ := n.starts rest
    have parsed := parseNumber_complete n rest ends
    rw [shape] at parsed ⊢
    have other : c ≠ 110 ∧ c ≠ 116 ∧ c ≠ 102 ∧ c ≠ 34 ∧ c ≠ 91 ∧ c ≠ 123 := by
      rcases first with rfl | numeric
      · decide
      · have range := digit_range c numeric
        grind
    simp [parseValue,other,parsed,Node.value]
  | @string units =>
    have parsed := (parseString_iff (units.flatMap StringUnit.text ++ 34 :: rest) _ rest).mpr ⟨units,rfl,rfl⟩
    simp [StringUnit.literal,parseValue,parsed,Node.value]
  | emptyArray spaces =>
    have parsed := parseArray_complete valid _ rest [] (.inl ⟨rfl,spaces⟩)
    simpa [parseValue,Node.value,Node.itemValues] using parsed
  | @array items body separated =>
    rw [Node.depth,Nat.lt_succ_iff,Node.itemDepth_le] at shallow
    have parsed := parseArray_complete valid body rest _ (.inr (separated.images shallow))
    simpa [parseValue,Node.value,Node.itemValues_eq] using parsed
  | emptyObject spaces =>
    have parsed := parseObject_complete valid _ rest [] (.inl ⟨rfl,spaces⟩)
    simpa [parseValue,Node.value,Node.memberValues] using parsed
  | @object members body separated =>
    rw [Node.depth,Nat.lt_succ_iff,Node.memberDepth_le] at shallow
    have images := @Separated.images _ _ _ _ _ (fun member => member.2.depth < levels)
      (fun member => (StringUnit.denote member.1,member.2.value)) separated shallow
    simp only [← readsMember_denotes] at images
    have parsed := parseObject_complete valid body rest _ (.inr images)
    simpa [parseValue,Node.value,Node.memberValues_eq] using parsed

theorem parseValue_reads (levels : Nat) : ReadsValue (parseValue levels) (Denotes levels) := by
  induction levels with
  | zero =>
    refine ⟨?_,?_,denotes_starts⟩
    · intro text value rest parsed
      cases text <;> cases parsed
    · rintro _ _ _ ⟨_,_,shallow,_⟩
      exact absurd shallow (Nat.not_lt_zero _)
  | succ levels ih =>
    refine ⟨?_,?_,denotes_starts⟩
    · intro text value rest
      exact parseValue_sound levels ih text rest value
    · intro front value rest
      exact parseValue_complete levels ih front rest value

theorem Ends.blank {after : Bytes} (spaces : Blank after) : Ends after := by
  intro c first
  have space := spaces c (List.mem_of_mem_head? first)
  simp only [isBlank,Bool.or_eq_true,beq_iff_eq] at space
  rcases space with ((rfl | rfl) | rfl) | rfl <;> decide

theorem parseDocument_iff (limits : ParseLimits) (text : Bytes) (value : Value) :
    parseDocument limits text = .ok value ↔
      ∃ node, Document node text ∧ node.depth ≤ limits.maxDepth ∧ node.value = value := by
  have valid := parseValue_reads (limits.maxDepth + 1)
  constructor
  · intro parsed
    unfold parseDocument at parsed
    split at parsed
    · cases parsed
    next result rest read =>
    split at parsed
    · next finished =>
      simp only [Except.ok.injEq] at parsed
      subst parsed
      obtain ⟨before,blankBefore,shape⟩ := skipWhitespace_sound text
      obtain ⟨front,front_eq,node,spelled,shallow,meaning⟩ := valid.sound _ _ _ read
      obtain ⟨after,blankAfter,after_eq⟩ := skipWhitespace_sound rest
      rw [finished,List.append_nil] at after_eq
      subst after_eq
      exact ⟨node,⟨before,front,rest,blankBefore,spelled,blankAfter,by rw [shape,front_eq]; simp⟩,
        Nat.lt_succ_iff.mp shallow,meaning⟩
    · cases parsed
  · rintro ⟨node,⟨before,body,after,blankBefore,spelled,blankAfter,rfl⟩,shallow,rfl⟩
    have related : Denotes (limits.maxDepth + 1) body node.value :=
      ⟨node,spelled,Nat.lt_succ_iff.mpr shallow,rfl⟩
    have read := valid.complete body _ after related (Ends.blank blankAfter)
    have finished : skipWhitespace after = [] := List.dropWhile_eq_nil_iff.mpr blankAfter
    rw [parseDocument,List.append_assoc,skipWhitespace_blank _ _ blankBefore,
      skipWhitespace_starts (denotes_starts _ _ related),read]
    simp [finished]

/-- What `parse` returns is what a document of the grammar denotes. -/
theorem parse_iff (limits : ParseLimits) (text : Bytes) (value : Value) :
    parse limits text = .ok value ↔ text.length ≤ limits.maxLength ∧
      ∃ node, Document node text ∧ node.depth ≤ limits.maxDepth ∧ node.value = value := by
  rw [← parseDocument_iff]
  unfold parse
  split
  · next long => simp; omega
  · next short =>
    split
    · next result parsed => simp [parsed]; omega
    · next failure parsed => simp [parsed]

/-- A text has one meaning, whatever tree spells it. -/
theorem Document.value_unique {a b : Node} {text : Bytes} (first : Document a text)
    (second : Document b text) : a.value = b.value := by
  have read : ∀ node, Document node text → node.depth ≤ max a.depth b.depth →
      parseDocument { maxDepth := max a.depth b.depth } text = .ok node.value :=
    fun node document shallow => (parseDocument_iff _ _ _).mpr ⟨node,document,shallow,rfl⟩
  have same := (read a first (Nat.le_max_left _ _)).symm.trans (read b second (Nat.le_max_right _ _))
  exact Except.ok.inj same

/-- The parser accepts exactly the short enough documents of the grammar in which
no value has more than `maxDepth` containers around it, and gives each its meaning. -/
theorem parse_correct (limits : ParseLimits) (text : Bytes) :
    ((∃ value, parse limits text = .ok value) ↔ text.length ≤ limits.maxLength ∧
      ∃ node, Document node text ∧ node.depth ≤ limits.maxDepth) ∧
    ∀ value node, parse limits text = .ok value → Document node text → value = node.value := by
  constructor
  · constructor
    · rintro ⟨value,parsed⟩
      obtain ⟨short,node,document,shallow,-⟩ := (parse_iff _ _ _).mp parsed
      exact ⟨short,node,document,shallow⟩
    · rintro ⟨short,node,document,shallow⟩
      exact ⟨node.value,(parse_iff _ _ _).mpr ⟨short,node,document,shallow,rfl⟩⟩
  · intro value node parsed document
    obtain ⟨-,other,spelled,-,rfl⟩ := (parse_iff _ _ _).mp parsed
    exact spelled.value_unique document

end TestForge.Json
