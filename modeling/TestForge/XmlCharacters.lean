import TestForge.Escaping
import TestForge.Utf8

/-! The characters of an XML document, and that `escapeXml` leaves none that a document may not have. -/
namespace TestForge

open Strings

/-- The characters that a document may have. -/
def xmlCharacter (c : Char) : Bool :=
  32 ≤ c.toNat && c.toNat != 65534 && c.toNat != 65535 || c.toNat == 9 || c.toNat == 10 || c.toNat == 13

/-- The text is UTF-8, which a document is in when it declares nothing else, and has no other characters. -/
def XmlLegal (text : Bytes) : Prop := ∃ characters, Utf8.encode characters = text ∧ characters.all xmlCharacter = true

instance (text : Bytes) : Decidable (XmlLegal text) :=
  decidable_of_iff ((Utf8.decode text).any (·.all xmlCharacter) = true) (by
    simp only [XmlLegal,Option.any_eq_true,Utf8.decode_eq_some])

def readXml (text : Bytes) : Option Markup.Node := if XmlLegal text then Markup.parse xml text else none

/-- A text of which `escapeXml` makes one that is legal: UTF-8 without U+FFFE and U+FFFF. -/
def Legible (text : Bytes) : Prop :=
  ∃ characters, Utf8.encode characters = text ∧ ∀ c ∈ characters, c.toNat ≠ 65534 ∧ c.toNat ≠ 65535

theorem legible_encode (characters : List Char)
    (known : characters.all (fun c => c.toNat != 65534 && c.toNat != 65535) = true) : Legible (Utf8.encode characters) :=
  ⟨characters,rfl,fun c member => by simpa using List.all_eq_true.mp known c member⟩

/-- Printable ASCII, and the white space that XML keeps. -/
def isXmlAscii (c : UInt8) : Bool := 32 ≤ c && c < 128 || c == 9 || c == 10 || c == 13

theorem XmlLegal.append {front back : Bytes} (left : XmlLegal front) (right : XmlLegal back) : XmlLegal (front ++ back) := by
  obtain ⟨a,rfl,one⟩ := left
  obtain ⟨b,rfl,two⟩ := right
  exact ⟨a ++ b,Utf8.encode_append a b,by rw [List.all_append,one,two]; rfl⟩

theorem XmlLegal.nil : XmlLegal [] := ⟨[],rfl,rfl⟩

theorem XmlLegal.flatMap {α : Type} {items : List α} {text : α → Bytes} (legal : ∀ item ∈ items, XmlLegal (text item)) :
    XmlLegal (items.flatMap text) := by
  induction items with
  | nil => exact XmlLegal.nil
  | cons item rest ih =>
    rw [List.flatMap_cons]
    exact (legal item (by simp)).append (ih fun other later => legal other (by simp [later]))

theorem toNat_ofNat_ascii (c : UInt8) (ascii : c < 128) : (Char.ofNat c.toNat).toNat = c.toNat := by
  have small : c.toNat < 128 := UInt8.lt_iff_toNat_lt.mp ascii
  rw [Char.ofNat,dif_pos (Or.inl (by omega))]
  rfl

theorem XmlLegal.plain {text : Bytes} (plain : text.all isXmlAscii = true) : XmlLegal text := by
  induction text with
  | nil => exact XmlLegal.nil
  | cons c rest ih =>
    rw [List.all_cons,Bool.and_eq_true] at plain
    obtain ⟨characters,encoded,legal⟩ := ih plain.2
    have known := plain.1
    simp only [isXmlAscii,Bool.or_eq_true,Bool.and_eq_true,decide_eq_true_eq,beq_iff_eq] at known
    have small : c < 128 := by
      rcases known with ((⟨_,small⟩ | rfl) | rfl) | rfl
      · exact small
      all_goals decide
    refine ⟨Char.ofNat c.toNat :: characters,?_,?_⟩
    · rw [Utf8.encode_cons,Utf8.utf8EncodeChar_ascii c small,encoded]
      rfl
    · rw [List.all_cons,legal,Bool.and_true,xmlCharacter,toNat_ofNat_ascii c small]
      have below : c.toNat < 128 := UInt8.lt_iff_toNat_lt.mp small
      have values : c.toNat ≥ 32 ∨ c.toNat = 9 ∨ c.toNat = 10 ∨ c.toNat = 13 := by
        rcases known with ((⟨least,_⟩ | rfl) | rfl) | rfl
        · exact .inl (UInt8.le_iff_toNat_le.mp least)
        · exact .inr (.inl rfl)
        · exact .inr (.inr (.inl rfl))
        · exact .inr (.inr (.inr rfl))
      simp only [Bool.or_eq_true,Bool.and_eq_true,decide_eq_true_eq,beq_iff_eq,bne_iff_ne]
      omega

theorem escapeXmlByte_ascii : ∀ c : Fin 128, (escapeXmlByte (UInt8.ofNat c)).all isXmlAscii = true := by decide

theorem XmlLegal.escaped {text : Bytes} (plain : ∀ c ∈ text, c < 128) : XmlLegal (escapeXml text) := by
  refine .flatMap fun c member => .plain ?_
  have known := escapeXmlByte_ascii ⟨c.toNat,UInt8.lt_iff_toNat_lt.mp (plain c member)⟩
  rwa [UInt8.ofNat_toNat] at known

/-- What lies above ASCII is left alone. -/
theorem escapeXmlByte_above (c : UInt8) (above : ¬c < 128) : escapeXmlByte c = [c] := by
  have apart : ∀ other : UInt8, other < 128 → c ≠ other := fun other small same => above (same ▸ small)
  have large : ¬c < 32 := fun small => above (UInt8.lt_trans small (by decide))
  rw [escapeXmlByte,if_neg (apart 38 (by decide)),if_neg (apart 60 (by decide)),if_neg (apart 62 (by decide)),
    if_neg (apart 34 (by decide)),if_neg (apart 39 (by decide)),if_neg fun control => large control.1]

theorem escapeXml_character (ch : Char) (legible : ch.toNat ≠ 65534 ∧ ch.toNat ≠ 65535) :
    XmlLegal (escapeXml (String.utf8EncodeChar ch)) := by
  by_cases plain : ∃ c ∈ String.utf8EncodeChar ch, c < 128
  · obtain ⟨c,member,small⟩ := plain
    rw [Utf8.mem_utf8EncodeChar_ascii ch c small member]
    exact .escaped (by simp [small])
  · have same : escapeXml (String.utf8EncodeChar ch) = String.utf8EncodeChar ch := by
      rw [escapeXml,List.flatMap_congr fun c member => escapeXmlByte_above c fun small => plain ⟨c,member,small⟩]
      exact List.flatMap_pure_eq_map _ _ |>.trans (List.map_id _)
    have large : 128 ≤ ch.toNat := by
      by_contra small
      have byte : (UInt8.ofNat ch.toNat).toNat = ch.toNat := UInt8.toNat_ofNat_of_lt' (show ch.toNat < 2^8 by omega)
      have ascii : UInt8.ofNat ch.toNat < 128 := UInt8.lt_iff_toNat_lt.mpr (by rw [byte]; exact Nat.not_le.mp small)
      have encoded := Utf8.utf8EncodeChar_ascii (UInt8.ofNat ch.toNat) ascii
      rw [byte,Char.ofNat_toNat] at encoded
      exact plain ⟨_,by rw [encoded]; exact List.mem_singleton_self _,ascii⟩
    refine ⟨[ch],by rw [same,Utf8.encode_cons,Utf8.encode_nil,List.append_nil],?_⟩
    simp only [List.all_cons,List.all_nil,Bool.and_true,xmlCharacter,Bool.or_eq_true,Bool.and_eq_true,
      decide_eq_true_eq,bne_iff_ne]
    exact .inl (.inl (.inl ⟨⟨by omega,legible.1⟩,legible.2⟩))

/-- Of a legible text the report gets legal characters. -/
theorem Legible.escapeXml {text : Bytes} (legible : Legible text) : XmlLegal (escapeXml text) := by
  obtain ⟨characters,rfl,known⟩ := legible
  induction characters with
  | nil => exact XmlLegal.nil
  | cons ch rest ih =>
    rw [Utf8.encode_cons,Strings.escapeXml,List.flatMap_append]
    exact (escapeXml_character ch (known ch (by simp))).append (ih fun other later => known other (by simp [later]))

end TestForge
