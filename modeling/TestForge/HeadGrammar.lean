import TestForge.HttpServer

/-! How the head of a request falls into lines, and what one line contributes. -/
namespace TestForge.HttpServer

open Sequence Strings Chunked HttpClient

/-- A line that cannot be mistaken for the end of a line or of the head. -/
structure PlainLine (line : Bytes) : Prop where
  nonempty : line ≠ []
  noReturn : 13 ∉ line
  noFeed : 10 ∉ line

def headLines (text : Bytes) : List Bytes := (split text 10 false).map stripCarriageReturn

/-- A plain line behind a line end can begin no blank line that was not there before it. -/
theorem line_fresh (text line more : Bytes) (clean : ¬headEnd <:+: text ++ crlf)
    (plain : PlainLine line) : ∀ early, early.length < (text ++ crlf ++ line).length →
      ¬early ++ headEnd <+: text ++ crlf ++ line ++ more := by
  intro early shorter pre
  by_cases inside : early.length + 4 ≤ text.length + 2
  · have within : early ++ headEnd <+: text ++ crlf := by
      refine List.prefix_of_prefix_length_le pre ?_ (by simpa [headEnd,crlf] using inside)
      exact ⟨line ++ more,by simp⟩
    exact clean ((List.infix_append' early headEnd []).trans (by simpa using within.isInfix))
  · obtain ⟨k,small,low,high⟩ : ∃ k, k < 4 ∧ text.length + 2 ≤ early.length + k ∧
        early.length + k < text.length + 2 + line.length := by
      have positive := List.length_pos_iff.mpr plain.nonempty
      simp only [List.length_append,crlf,List.length_cons,List.length_nil] at shorter
      by_cases late : text.length + 2 ≤ early.length
      · exact ⟨0,by omega,by omega,by omega⟩
      · exact ⟨text.length + 2 - early.length,by omega,by omega,by omega⟩
    obtain ⟨rest,equal⟩ := pre
    have left : (early ++ headEnd ++ rest)[early.length + k]? = headEnd[k]? := by
      rw [List.append_assoc,List.getElem?_append_right (by omega),
        List.getElem?_append_left (by simp [headEnd,crlf]; omega)]
      congr 1
      omega
    have right : (text ++ crlf ++ line ++ more)[early.length + k]? =
        (line)[early.length + k - (text.length + 2)]? := by
      rw [List.getElem?_append_left (by simp [crlf]; omega),
        List.getElem?_append_right (by simp [crlf]; omega)]
      simp [crlf]
    rw [equal,right] at left
    obtain ⟨c,found⟩ : ∃ c, headEnd[k]? = some c :=
      ⟨_,List.getElem?_eq_getElem (by simp [headEnd,crlf]; omega)⟩
    have member : c ∈ line := List.mem_of_getElem? (left.trans found)
    have control : c ∈ headEnd := List.mem_of_getElem? found
    simp only [headEnd,crlf,List.cons_append,List.nil_append,List.mem_cons,List.not_mem_nil,
      or_false] at control
    rcases control with rfl | rfl | rfl | rfl
    · exact plain.noReturn member
    · exact plain.noFeed member
    · exact plain.noReturn member
    · exact plain.noFeed member

theorem cutOn_line (text line more : Bytes) (clean : ¬headEnd <:+: text ++ crlf)
    (plain : PlainLine line) : cutOn headEnd (text ++ crlf ++ line ++ more) =
      (cutOn headEnd more).map fun p => (text ++ crlf ++ line ++ p.1,p.2) :=
  cutOn_append_right headEnd _ more (line_fresh text line more clean plain)

theorem clean_line (text line : Bytes) (clean : ¬headEnd <:+: text ++ crlf)
    (plain : PlainLine line) : ¬headEnd <:+: text ++ crlf ++ line ++ crlf := by
  rw [← cutOn_eq_none,cutOn_line text line crlf clean plain,Option.map_eq_none_iff,cutOn_eq_none]
  decide

theorem headLines_append (before after : Bytes) :
    headLines (before ++ crlf ++ after) = headLines (before ++ [13]) ++ headLines after := by
  have whole : before ++ crlf ++ after = (before ++ [13]) ++ 10 :: after := by simp [crlf]
  simp only [headLines,Strings.split,whole,List.splitOn_append_cons_self,Bool.false_eq_true,↓reduceIte,
    List.map_append]

theorem stripCarriageReturn_return (line : Bytes) : stripCarriageReturn (line ++ [13]) = line := by
  simp [stripCarriageReturn]

theorem PlainLine.headLines (plain : PlainLine line) : headLines line = [line] := by
  have last : line.getLast? ≠ some 13 := fun found =>
    plain.noReturn (List.mem_of_getLast? found)
  simp [HttpServer.headLines,Strings.split,List.splitOn_eq_singleton plain.noFeed,stripCarriageReturn,last]

theorem PlainLine.headLines_return (plain : PlainLine line) : HttpServer.headLines (line ++ [13]) = [line] := by
  have feed : (10 : UInt8) ∉ line ++ [13] := by simp [plain.noFeed]
  simp [HttpServer.headLines,Strings.split,List.splitOn_eq_singleton feed,stripCarriageReturn_return]

theorem splitLines_headLines (text first : Bytes) (rest : List Bytes)
    (lines : headLines text = first :: rest) (something : first ≠ [] ∨ rest ≠ []) :
    ∃ others, splitLines text = first :: others ∧
      others.filterMap parseHeaderLine = rest.filterMap parseHeaderLine := by
  have unfolded : splitLines text = if (first :: rest).getLast? = some [] then
      (first :: rest).dropLast else first :: rest := by
    rw [← lines]
    rfl
  rw [unfolded]
  split
  · next last =>
    cases rest using List.reverseRecOn with
    | nil => simp_all
    | append_singleton rest x =>
      rw [← List.cons_append,List.getLast?_concat,Option.some.injEq] at last
      subst last
      rw [← List.cons_append,List.dropLast_concat]
      exact ⟨rest,rfl,by simp [parseHeaderLine,cut]⟩
  · exact ⟨rest,rfl,rfl⟩

theorem parseHead_lines (raw head behind first : Bytes) (rest : List Bytes)
    (cuts : cutOn headEnd raw = some (head,behind)) (lines : headLines head = first :: rest)
    (something : first ≠ [] ∨ rest ≠ []) :
    parseHead raw = (parseRequestLine first).map fun request =>
      { request with headers := parseHeaderLines rest } := by
  obtain ⟨others,split,same⟩ := splitLines_headLines head first rest lines something
  simp [parseHead,cuts,split,parseHeaderLines,same]

theorem cutOn_crlf (more before after : Bytes) (cuts : cutOn headEnd (crlf ++ more) = some (before,after)) :
    before = [] ∨ ∃ rest, before = crlf ++ rest := by
  have split := cutOn_split _ _ _ _ cuts
  cases before with
  | nil => exact .inl rfl
  | cons c before =>
    cases before with
    | nil => simp [crlf,headEnd] at split
    | cons d before =>
      simp only [crlf,headEnd,List.cons_append,List.nil_append,List.append_assoc,
        List.cons.injEq] at split
      exact .inr ⟨before,by simp [crlf,← split.1,← split.2.1]⟩

/-- While the head has not ended before it, a plain line contributes exactly its own
field, at a fixed place among the others. -/
theorem parseHead_line (text more : Bytes) (clean : ¬headEnd <:+: text ++ crlf)
    (ends : headEnd <:+: crlf ++ more) :
    ∃ first before after, (headLines (text ++ [13])).head? = some first ∧ ∀ line, PlainLine line →
      parseHead (text ++ crlf ++ line ++ crlf ++ more) = (parseRequestLine first).map fun request =>
        { request with headers := ⟨before ++ (parseHeaderLine line).toList ++ after⟩ } := by
  obtain ⟨⟨before,behind⟩,tail⟩ := Option.ne_none_iff_exists'.mp
    ((cutOn_eq_none headEnd (crlf ++ more)).not.mpr (not_not.mpr ends))
  obtain ⟨first,rest,lines⟩ := List.exists_cons_of_ne_nil
    (show headLines (text ++ [13]) ≠ [] by simp [headLines,Strings.split])
  have shape (line : Bytes) (plain : PlainLine line) : headLines (line ++ before) =
      line :: if before = [] then [] else headLines (before.drop 2) := by
    rcases cutOn_crlf more before behind tail with rfl | ⟨inner,rfl⟩
    · simpa using plain.headLines
    · rw [← List.append_assoc,headLines_append,plain.headLines_return]
      simp [crlf]
  refine ⟨first,rest.filterMap parseHeaderLine,
    (if before = [] then [] else headLines (before.drop 2)).filterMap parseHeaderLine,
    by rw [lines]; rfl,fun line plain => ?_⟩
  have cuts := cutOn_line text line (crlf ++ more) clean plain
  rw [tail] at cuts
  simp only [← List.append_assoc,Option.map_some] at cuts
  have whole : headLines (text ++ crlf ++ line ++ before) = first :: (rest ++ line ::
      if before = [] then [] else headLines (before.drop 2)) := by
    rw [List.append_assoc _ line before,headLines_append,lines,shape line plain]
    rfl
  rw [parseHead_lines _ _ _ first _ cuts whole (by simp)]
  simp only [parseHeaderLines,List.filterMap_append,List.filterMap_cons]
  cases parseHeaderLine line <;> simp

/-- A head that ends before a line, or never, does not depend on the line. -/
theorem parseHead_unreached (text more : Bytes)
    (apart : headEnd <:+: text ++ crlf ∨ ¬headEnd <:+: crlf ++ more) :
    ∃ result, ∀ line, PlainLine line → parseHead (text ++ crlf ++ line ++ crlf ++ more) = result := by
  by_cases early : headEnd <:+: text ++ crlf
  · obtain ⟨⟨head,behind⟩,found⟩ := Option.ne_none_iff_exists'.mp
      ((cutOn_eq_none headEnd (text ++ crlf)).not.mpr (not_not.mpr early))
    have cuts (line : Bytes) := cutOn_append_left _ _ _ _ (line ++ crlf ++ more) found
    simp only [← List.append_assoc] at cuts
    exact ⟨_,fun line _ => by simp only [parseHead,cuts]; rfl⟩
  · have tail := (cutOn_eq_none headEnd (crlf ++ more)).mpr (apart.resolve_left early)
    refine ⟨none,fun line plain => ?_⟩
    have cuts := cutOn_line text line (crlf ++ more) early plain
    rw [tail] at cuts
    simp only [← List.append_assoc,Option.map_none] at cuts
    simp only [parseHead,cuts]

/-- A header line without its line end. -/
def itemLine (item : Bytes × Bytes) : Bytes := item.1 ++ ascii ": " ++ item.2

theorem headerLine_eq (item : Bytes × Bytes) : headerLine item = itemLine item ++ crlf := rfl

/-- The name under which the server reads back a header the client wrote. -/
def fieldName (name : Bytes) : Bytes := trim (((cut 58 name).map (·.1)).getD name)

/-- A written header comes back under its field name, and its value ends the field. -/
theorem parseHeaderLine_item (name : Bytes) : ∃ front, ∀ value,
    parseHeaderLine (itemLine (name,value)) = some (fieldName name,trim (front ++ value)) := by
  cases found : cut 58 name with
  | none =>
    have fresh := (cut_eq_none 58 name).mp found
    refine ⟨[32],fun value => ?_⟩
    have line : itemLine (name,value) = name ++ 58 :: ([32] ++ value) := by simp [itemLine,ascii]
    rw [line,parseHeaderLine,cut_append 58 name _ fresh]
    simp [fieldName,found]
  | some parts =>
    obtain ⟨before,after⟩ := parts
    obtain ⟨split,fresh⟩ := (cut_eq_some 58 name before after).mp found
    refine ⟨after ++ [58,32],fun value => ?_⟩
    have line : itemLine (name,value) = before ++ 58 :: (after ++ [58,32] ++ value) := by
      simp [itemLine,ascii,split]
    rw [line,parseHeaderLine,cut_append 58 before _ fresh]
    simp [fieldName,found]

theorem clean_items (text : Bytes) (items : List (Bytes × Bytes)) (clean : ¬headEnd <:+: text ++ crlf)
    (plain : ∀ item ∈ items, PlainLine (itemLine item)) :
    ∃ longer, text ++ crlf ++ items.flatMap headerLine = longer ++ crlf ∧
      ¬headEnd <:+: longer ++ crlf ∧
      (headLines (longer ++ [13])).head? = (headLines (text ++ [13])).head? := by
  induction items generalizing text with
  | nil => exact ⟨text,by simp,clean,rfl⟩
  | cons item rest ih =>
    have mine := plain item (by simp)
    obtain ⟨longer,equal,still,first⟩ := ih (text ++ crlf ++ itemLine item)
      (clean_line text _ clean mine) fun other member => plain other (by simp [member])
    refine ⟨longer,?_,still,?_⟩
    · rw [← equal,List.flatMap_cons,headerLine_eq]
      simp only [List.append_assoc]
    · obtain ⟨line,lines,found⟩ := List.exists_cons_of_ne_nil
        (show headLines (text ++ [13]) ≠ [] by simp [headLines,Strings.split])
      rw [first,List.append_assoc (text ++ crlf),headLines_append,found]
      rfl

theorem items_end (items : List (Bytes × Bytes)) :
    ∃ text, crlf ++ items.flatMap headerLine = text ++ crlf := by
  rcases List.eq_nil_or_concat' items with rfl | ⟨rest,item,rfl⟩
  · exact ⟨[],by simp⟩
  · exact ⟨crlf ++ rest.flatMap headerLine ++ itemLine item,by simp [headerLine_eq]⟩

/-- A request line without control characters does not end the head. -/
theorem clean_request (line : Bytes) (plain : PlainLine line) : ¬headEnd <:+: line ++ crlf := by
  intro occurs
  have count := occurs.sublist.count_le 13
  rw [List.count_append,List.count_eq_zero.mpr plain.noReturn] at count
  exact absurd count (by decide)

end TestForge.HttpServer
