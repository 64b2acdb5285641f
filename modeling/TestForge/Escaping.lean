import TestForge.Assertions
import TestForge.MarkupTree

/-! `escapeXml` and `escapeHtml`, and what a reader of either language makes of their results. -/
namespace TestForge

open Markup (Attributes Dialect Spells)
open Strings

/-- The markup of XML, with the references that need no declaration. -/
def xml : Dialect where
  entity name :=
    if name = ascii "amp" then some [38]
    else if name = ascii "lt" then some [60]
    else if name = ascii "gt" then some [62]
    else if name = ascii "quot" then some [34]
    else if name = ascii "apos" then some [39] else none
  permits c := 32 ≤ c || c == 9 || c == 10 || c == 13
  bare := false
  raw _ := false

/-- HTML with the references that the reports use. Others are refused here, as is every error a browser would
repair, so a page that is accepted means the same to both. -/
def html : Dialect where
  entity name :=
    if name = ascii "amp" then some [38]
    else if name = ascii "lt" then some [60]
    else if name = ascii "gt" then some [62]
    else if name = ascii "quot" then some [34]
    else if name = ascii "middot" then some [194,183]
    else if name = ascii "mdash" then some [226,128,148] else none
  permits _ := true
  bare := true
  raw tag := tag == ascii "style" || tag == ascii "script"

namespace Strings

def escapeXmlByte (c : UInt8) : Bytes :=
  if c = 38 then ascii "&amp;"
  else if c = 60 then ascii "&lt;"
  else if c = 62 then ascii "&gt;"
  else if c = 34 then ascii "&quot;"
  else if c = 39 then ascii "&apos;"
  else if c < 32 ∧ c ≠ 10 ∧ c ≠ 13 ∧ c ≠ 9 then [32] else [c]

def escapeXml (text : Bytes) : Bytes := text.flatMap escapeXmlByte

def escapeHtmlByte (c : UInt8) : Bytes :=
  if c = 38 then ascii "&amp;"
  else if c = 60 then ascii "&lt;"
  else if c = 62 then ascii "&gt;"
  else if c = 34 then ascii "&quot;"
  else if c = 39 then ascii "&#39;"
  else if c = 47 then ascii "&#47;" else [c]

def escapeHtml (text : Bytes) : Bytes := text.flatMap escapeHtmlByte

/-- What XML can tell of a byte. -/
def xmlByte (c : UInt8) : UInt8 := if c < 32 ∧ c ≠ 10 ∧ c ≠ 13 ∧ c ≠ 9 then 32 else c

def xmlText (text : Bytes) : Bytes := text.map xmlByte

/-- A byte that `escapeXml` keeps. -/
theorem permits_xml {c : UInt8} (kept : ¬(c < 32 ∧ c ≠ 10 ∧ c ≠ 13 ∧ c ≠ 9)) : xml.permits c = true := by
  by_contra refused
  simp only [xml,Bool.not_eq_true,Bool.or_eq_false_iff,decide_eq_false_iff_not,beq_eq_false_iff_ne,UInt8.not_le] at refused
  exact kept ⟨refused.1.1.1,refused.1.2,refused.2,refused.1.1.2⟩

theorem run_escapeXmlByte (c : UInt8) : xml.run .text (escapeXmlByte c) = (.text,[.character (xmlByte c)]) := by
  rw [escapeXmlByte]
  split
  · next same => subst same; rfl
  · next noReference =>
    split
    · next same => subst same; rfl
    · next noTag =>
      split
      · next same => subst same; rfl
      · split
        · next same => subst same; rfl
        · split
          · next same => subst same; rfl
          · rw [xmlByte]
            split
            · rfl
            · next kept => exact Dialect.run_text_plain (by simp [Dialect.Plain,noTag,noReference,permits_xml kept])

theorem run_escapeXmlByte_value (tag : List UInt8) (attributes : Attributes) (key written : List UInt8) (c : UInt8) :
    xml.run (.value tag attributes key 34 written) (escapeXmlByte c) =
      (.value tag attributes key 34 (written ++ [xmlByte c]),[]) := by
  rw [escapeXmlByte]
  split
  · next same => subst same; rfl
  · next noReference =>
    split
    · next same => subst same; rfl
    · next noTag =>
      split
      · next same => subst same; rfl
      · split
        · next same => subst same; rfl
        · next unquoted =>
          split
          · next same => subst same; rfl
          · rw [xmlByte]
            split
            · rfl
            · next kept =>
              have here : xml.step (.value tag attributes key 34 written) c =
                  (.value tag attributes key 34 (written ++ [c]),[]) := by
                rw [Dialect.step,if_neg unquoted,if_neg noReference,if_neg noTag,if_pos (permits_xml kept)]
              rw [Dialect.run_cons,here]
              rfl

theorem spells_escapeXml (text : Bytes) : Spells xml (escapeXml text) ((xmlText text).map .character) :=
  Spells.coded run_escapeXmlByte text

theorem means_escapeXml (text : Bytes) : Dialect.Means xml (escapeXml text) (xmlText text) :=
  fun tag attributes key => Dialect.run_value_coded run_escapeXmlByte_value tag attributes key [] text

/-- Whatever the text is, the page shows it and has no other token for it. -/
theorem run_escapeHtml (text : Bytes) : html.run .text (escapeHtml text) = (.text,text.map .character) := by
  have each : ∀ c, html.run .text (escapeHtmlByte c) = (.text,[.character (id c)]) := by
    intro c
    rw [escapeHtmlByte]
    split
    · next same => subst same; rfl
    · next noReference =>
      split
      · next same => subst same; rfl
      · next noTag =>
        split
        · next same => subst same; rfl
        · split
          · next same => subst same; rfl
          · split
            · next same => subst same; rfl
            · split
              · next same => subst same; rfl
              · exact Dialect.run_text_plain (by simp [Dialect.Plain,noTag,noReference,html])
  rw [escapeHtml,Dialect.run_text_coded each,List.map_id]

/-! ### Numbers -/

/-- The bytes that numbers are written with. -/
def isNumberByte (c : UInt8) : Bool := isDigit c || c == 45 || c == 46

theorem number_decimal (n : Nat) : ∀ c ∈ decimal n, isNumberByte c = true := by
  intro c member
  simp [isNumberByte,isDigit_decimal n c member]

theorem number_decimalInt (z : Int) : ∀ c ∈ decimalInt z, isNumberByte c = true := by
  intro c member
  rw [decimalInt] at member
  split at member
  · rcases List.mem_cons.mp member with rfl | member
    · rfl
    · exact number_decimal _ c member
  · exact number_decimal _ c member

theorem number_fixed (places : Nat) (d : Double) : ∀ c ∈ d.fixed places, isNumberByte c = true := by
  intro c member
  rw [Double.fixed,List.mem_append] at member
  rcases member with sign | digits
  · split at sign
    · exact (List.mem_singleton.mp sign) ▸ rfl
    · cases sign
  · rw [Double.formatFixed,List.mem_append,List.mem_cons,Clock.padTo,List.mem_append] at digits
    rcases digits with whole | rfl | zero | places
    · exact number_decimal _ c whole
    · rfl
    · exact (List.eq_of_mem_replicate zero) ▸ rfl
    · exact number_decimal _ c places

/-- No number touches the markup around it. -/
theorem plain_number {dialect : Dialect} (permits : ∀ c, 32 ≤ c → dialect.permits c = true) {c : UInt8}
    (number : isNumberByte c = true) : Dialect.Plain dialect c ∧ c ≠ 34 := by
  have low : 45 ≤ c ∧ c ≤ 57 := by
    simp only [isNumberByte,Bool.or_eq_true,beq_iff_eq] at number
    rcases number with (digit | rfl) | rfl
    · obtain ⟨low,high⟩ := digit_range c digit
      exact ⟨UInt8.le_trans (by decide) low,high⟩
    · decide
    · decide
  have apart : ∀ other : UInt8, other < 45 ∨ 57 < other → c ≠ other := by
    rintro other (below | above) rfl
    · exact absurd low.1 (UInt8.not_le.mpr below)
    · exact absurd low.2 (UInt8.not_le.mpr above)
  exact ⟨⟨apart 60 (by decide),apart 38 (by decide),permits c (UInt8.le_trans (by decide) low.1)⟩,apart 34 (by decide)⟩

theorem permits_xml_above (c : UInt8) (above : 32 ≤ c) : xml.permits c = true := by
  simp [xml,above]

end Strings
end TestForge
