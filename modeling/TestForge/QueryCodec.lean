import TestForge.RequestTarget

/-! Query strings: percent encoding, its inverse, and the list of pairs between them. No
encoded text contains a delimiter. -/
namespace TestForge

open Sequence Strings HttpServer

def hexUpper (n : Nat) : UInt8 := if n < 10 then UInt8.ofNat (48 + n) else UInt8.ofNat (55 + n)

/-- Bytes that an encoded text shows as they are. -/
def unreserved (c : UInt8) : Bool := isAlnum c || c == 45 || c == 95 || c == 46 || c == 126

def encodeByte (c : UInt8) : Bytes :=
  if unreserved c then [c] else [37,hexUpper (c.toNat / 16),hexUpper (c.toNat % 16)]

def urlEncode (text : Bytes) : Bytes := text.flatMap encodeByte

/-- A part without '=' is a key with an empty value. -/
def parsePair (part : Bytes) : Bytes × Bytes :=
  match cut 61 part with
  | none => (urlDecode part,[])
  | some (key,value) => (urlDecode key,urlDecode value)

def parseQuery (query : Bytes) : List (Bytes × Bytes) := (split query 38 true).map parsePair

/-- `key=value`, both encoded. -/
def encodePair (pair : Bytes × Bytes) : Bytes := urlEncode pair.1 ++ 61 :: urlEncode pair.2

/-! ### Single texts -/

theorem hexValue_hexUpper (n : Nat) (small : n < 16) : hexValue (hexUpper n) = some n :=
  (by decide : ∀ n, n < 16 → hexValue (hexUpper n) = some n) n small

theorem unreserved_hexUpper (n : Nat) (small : n < 16) : unreserved (hexUpper n) = true :=
  (by decide : ∀ n, n < 16 → unreserved (hexUpper n) = true) n small

theorem urlDecode_encodeByte (c : UInt8) (rest : Bytes) : urlDecode (encodeByte c ++ rest) = c :: urlDecode rest := by
  unfold encodeByte
  split
  · next plain =>
    apply urlDecode_cons
    · rintro rfl
      simp [unreserved,isAlnum,isDigit,isAlpha] at plain
    · rintro rfl
      simp [unreserved,isAlnum,isDigit,isAlpha] at plain
  · have small := c.toNat_lt
    have high := hexValue_hexUpper (c.toNat / 16) (by omega)
    have low := hexValue_hexUpper (c.toNat % 16) (by omega)
    have whole : 16 * (c.toNat / 16) + c.toNat % 16 = c.toNat := Nat.div_add_mod _ _
    simp only [List.cons_append,List.nil_append,urlDecode_percent,high,low,whole,UInt8.ofNat_toNat]

theorem urlDecode_urlEncode (text : Bytes) : urlDecode (urlEncode text) = text := by
  induction text with
  | nil => rfl
  | cons c rest ih => rw [urlEncode,List.flatMap_cons,urlDecode_encodeByte,← urlEncode,ih]

/-- An encoded text consists of unreserved bytes and '%'. -/
theorem mem_urlEncode (c : UInt8) (text : Bytes) (member : c ∈ urlEncode text) : unreserved c = true ∨ c = 37 := by
  obtain ⟨source,-,shown⟩ := List.mem_flatMap.mp member
  unfold encodeByte at shown
  split at shown
  · next plain =>
    obtain rfl := List.mem_singleton.mp shown
    exact .inl plain
  · have small := source.toNat_lt
    simp only [List.mem_cons,List.not_mem_nil,or_false] at shown
    rcases shown with rfl | rfl | rfl
    · exact .inr rfl
    · exact .inl (unreserved_hexUpper _ (by omega))
    · exact .inl (unreserved_hexUpper _ (by omega))

theorem urlEncode_fresh (c : UInt8) (text : Bytes) (reserved : unreserved c = false) (other : c ≠ 37) :
    c ∉ urlEncode text := by
  intro member
  rcases mem_urlEncode c text member with plain | percent
  · rw [reserved] at plain
    cases plain
  · exact other percent

/-! ### Lists of pairs -/

theorem parsePair_encodePair (pair : Bytes × Bytes) : parsePair (encodePair pair) = pair := by
  have fresh : 61 ∉ urlEncode pair.1 := urlEncode_fresh 61 pair.1 (by decide) (by decide)
  simp only [parsePair,encodePair,cut_append 61 _ _ fresh,urlDecode_urlEncode]

theorem encodePair_fresh (pair : Bytes × Bytes) : 38 ∉ encodePair pair := by
  have key := urlEncode_fresh 38 pair.1 (by decide) (by decide)
  have value := urlEncode_fresh 38 pair.2 (by decide) (by decide)
  simp [encodePair,key,value]

/-- No pair is lost as an empty part: each has its '='. -/
theorem split_encodePairs (pairs : List (Bytes × Bytes)) :
    split (join (pairs.map encodePair) [38]) 38 true = pairs.map encodePair := by
  have kept : (pairs.map encodePair).filter (· ≠ []) = pairs.map encodePair := by
    apply List.filter_eq_self.mpr
    intro part member
    obtain ⟨pair,-,rfl⟩ := List.mem_map.mp member
    simp [encodePair]
  cases pairs with
  | nil => rfl
  | cons first rest =>
    rw [split,if_pos rfl,join,List.splitOn_intercalate 38]
    · exact kept
    · intro part member
      obtain ⟨pair,-,rfl⟩ := List.mem_map.mp member
      exact encodePair_fresh pair
    · simp

/-- Decoding inverts encoding, of single texts and of lists of pairs. -/
theorem query_codec : (∀ text, urlDecode (urlEncode text) = text) ∧
    ∀ pairs, parseQuery (join (pairs.map encodePair) [38]) = pairs := by
  refine ⟨urlDecode_urlEncode,fun pairs => ?_⟩
  rw [parseQuery,split_encodePairs,List.map_map]
  exact (List.map_congr_left fun pair _ => parsePair_encodePair pair).trans (List.map_id pairs)

example : parseQuery (ascii "a=1&b=hello%20world&c&d=") = [(ascii "a",ascii "1"),
    (ascii "b",ascii "hello world"),(ascii "c",[]),(ascii "d",[])] := by decide

end TestForge
