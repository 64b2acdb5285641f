import TestForge.HttpClient
import TestForge.NumericAddress
import TestForge.UrlRejoin

/-! Which spellings of a link-local address the URL policy recognises. The resolver
reads more of them than the policy. -/
namespace TestForge

open Sequence Strings NumericAddress

/-- A number of a dotted quad as the policy reads it. -/
structure Octet (text : Bytes) : Prop where
  named : text ≠ []
  digits : ∀ c ∈ text, isDigit c = true
  small : digitsValue text ≤ 255

theorem digitsValue_concat (text : Bytes) (c : UInt8) :
    digitsValue (text ++ [c]) = digitsValue text * 10 + (c.toNat - 48) := by
  simp [digitsValue,Nat.mul_comm]

theorem ipv4Octets_digits (before digits rest : Bytes) (values : List Nat)
    (small : digitsValue before ≤ 255) (numeric : ∀ c ∈ digits, isDigit c = true) :
    ipv4Octets (digits ++ rest) values (some (digitsValue before)) =
      if digitsValue (before ++ digits) ≤ 255 then ipv4Octets rest values (some (digitsValue (before ++ digits)))
      else none := by
  induction digits generalizing before with
  | nil => simp [small]
  | cons c digits ih =>
    have grows (more : Bytes) : digitsValue (before ++ [c]) ≤ digitsValue (before ++ [c] ++ more) := by
      induction more using List.reverseRecOn with
      | nil => simp
      | append_singleton more x grown =>
        rw [← List.append_assoc,digitsValue_concat _ x]
        omega
    rw [List.cons_append,ipv4Octets,if_pos (numeric c (by simp)),Option.getD_some,← digitsValue_concat]
    dsimp only
    by_cases big : digitsValue (before ++ [c]) > 255
    · have wholly := grows digits
      rw [List.append_assoc,List.singleton_append] at wholly
      rw [if_pos big,if_neg (by omega)]
    · rw [if_neg big,ih (before ++ [c]) (by omega) fun x listed => numeric x (by simp [listed])]
      simp

theorem ipv4Octets_number (text rest : Bytes) (values : List Nat) (numeric : ∀ c ∈ text, isDigit c = true)
    (named : text ≠ []) : ipv4Octets (text ++ rest) values none =
      if digitsValue text ≤ 255 then ipv4Octets rest values (some (digitsValue text)) else none := by
  obtain ⟨c,digits,rfl⟩ := List.exists_cons_of_ne_nil named
  have digit := numeric c (by simp)
  have first : digitsValue [c] ≤ 255 := by
    have range := digit_range c digit
    have high := UInt8.le_iff_toNat_le.mp range.2
    simp only [digitsValue,List.foldl_cons,List.foldl_nil]
    have bound : c.toNat ≤ 57 := high
    omega
  have start : (Option.getD none 0 * 10 + (c.toNat - 48) : Nat) = digitsValue [c] := by simp [digitsValue]
  rw [List.cons_append,ipv4Octets,if_pos digit,start]
  dsimp only
  rw [if_neg (by omega),ipv4Octets_digits [c] digits rest values first
    fun x listed => numeric x (by simp [listed])]
  rfl

theorem ipv4Octets_octet {text : Bytes} (octet : Octet text) (rest : Bytes) (values : List Nat) :
    ipv4Octets (text ++ rest) values none = ipv4Octets rest values (some (digitsValue text)) := by
  rw [ipv4Octets_number text rest values octet.digits octet.named,if_pos octet.small]

theorem ipv4Octets_other {text rest : Bytes} (other : ¬Octet text) (fresh : 46 ∉ text)
    (ends : rest = [] ∨ ∃ after, rest = 46 :: after) (values : List Nat) :
    ipv4Octets (text ++ rest) values none = none := by
  by_cases named : text = []
  · subst named
    rcases ends with rfl | ⟨after,rfl⟩
    · rfl
    · simp [ipv4Octets,isDigit]
  by_cases numeric : ∀ c ∈ text, isDigit c = true
  · rw [ipv4Octets_number text rest values numeric named,if_neg fun small => other ⟨named,numeric,small⟩]
  · have stop : ∃ front c back, text = front ++ c :: back ∧ (∀ x ∈ front, isDigit x = true) ∧ isDigit c = false := by
      cases tail : text.dropWhile isDigit with
      | nil => exact absurd (List.dropWhile_eq_nil_iff.mp tail) numeric
      | cons c back =>
        have head := List.head?_dropWhile_not isDigit text
        rw [tail] at head
        refine ⟨text.takeWhile isDigit,c,back,?_,fun x listed => List.mem_takeWhile_imp listed,by simpa using head⟩
        rw [← tail,List.takeWhile_append_dropWhile]
    obtain ⟨front,c,back,rfl,digits,odd⟩ := stop
    have dot : c ≠ 46 := by
      rintro rfl
      simp at fresh
    have refused (current : Option Nat) : ipv4Octets (c :: (back ++ rest)) values current = none := by
      simp [ipv4Octets,odd,dot]
    rw [List.append_assoc,List.cons_append]
    by_cases empty : front = []
    · rw [empty,List.nil_append,refused]
    · rw [ipv4Octets_number front _ values digits empty,refused]
      split <;> rfl

theorem ipv4Octets_iff (text : Bytes) (values octets : List Nat) : ipv4Octets text values none = some octets ↔
    (∀ number ∈ text.splitOn 46, Octet number) ∧ octets = values ++ (text.splitOn 46).map digitsValue ∧
      values.length + (text.splitOn 46).length = 4 := by
  cases found : cut 46 text with
  | none =>
    have fresh := (cut_eq_none 46 text).mp found
    rw [List.splitOn_eq_singleton fresh,List.forall_mem_singleton]
    by_cases octet : Octet text
    · have read := ipv4Octets_octet octet [] values
      rw [List.append_nil] at read
      simp only [read,ipv4Octets,octet,true_and,List.map_cons,List.map_nil,List.length_singleton]
      split
      · next full => simp [full,eq_comm]
      · next other => simp; omega
    · have refused := ipv4Octets_other octet fresh (.inl rfl) values
      rw [List.append_nil] at refused
      simp [refused,octet]
  | some parts =>
    obtain ⟨first,after⟩ := parts
    obtain ⟨split,fresh⟩ := (cut_eq_some 46 _ _ _).mp found
    have shorter : after.length < text.length := by simp [split]; omega
    rw [split,List.splitOn_append_cons_self_of_not_mem fresh,List.forall_mem_cons]
    by_cases octet : Octet first
    · have next := ipv4Octets_iff after (values ++ [digitsValue first]) octets
      have more : 1 ≤ (after.splitOn 46).length := List.length_pos_iff.mpr (List.splitOn_ne_nil _ _)
      rw [ipv4Octets_octet octet,ipv4Octets,if_neg (by decide),if_pos rfl]
      split
      · next full =>
        simp only [reduceCtorEq,false_iff,not_and,List.length_cons]
        omega
      · rw [next]
        simp [octet]
        omega
    · rw [ipv4Octets_other octet fresh (.inr ⟨after,rfl⟩)]
      simp [octet]
termination_by text.length
decreasing_by exact shorter

/-- The octets of a dotted quad with every number written in decimal. -/
theorem isIpv4Literal_iff (host : Bytes) (octets : List Nat) : isIpv4Literal host = some octets ↔
    ∃ a b c d, host.splitOn 46 = [a,b,c,d] ∧ (Octet a ∧ Octet b ∧ Octet c ∧ Octet d) ∧
      octets = [digitsValue a,digitsValue b,digitsValue c,digitsValue d] := by
  rw [isIpv4Literal,ipv4Octets_iff]
  constructor
  · rintro ⟨numbers,rfl,four⟩
    obtain ⟨a,b,c,d,parts⟩ := List.length_eq_four.mp (show (host.splitOn 46).length = 4 by simpa using four)
    rw [parts] at numbers
    exact ⟨a,b,c,d,parts,by simpa using numbers,by simp [parts]⟩
  · rintro ⟨a,b,c,d,parts,numbers,rfl⟩
    rw [parts]
    exact ⟨by simpa using numbers,by simp,rfl⟩

theorem isIpv4Literal_bytes {host : Bytes} {octets : List Nat} (literal : isIpv4Literal host = some octets) :
    ∀ x ∈ host, isDigit x = true ∨ x = 46 := by
  obtain ⟨a,b,c,d,parts,⟨first,second,third,fourth⟩,-⟩ := (isIpv4Literal_iff host octets).mp literal
  have whole : host = a ++ 46 :: (b ++ 46 :: (c ++ 46 :: d)) := by
    have joined : [46].intercalate (host.splitOn 46) = host := List.intercalate_splitOn 46
    rw [← joined,parts]
    simp [List.intercalate]
  intro x listed
  simp only [whole,List.mem_append,List.mem_cons] at listed
  rcases listed with inside | rfl | inside | rfl | inside | rfl | inside
  · exact .inl (first.digits x inside)
  · exact .inr rfl
  · exact .inl (second.digits x inside)
  · exact .inr rfl
  · exact .inl (third.digits x inside)
  · exact .inr rfl
  · exact .inl (fourth.digits x inside)

/-- What the resolver makes of a host without a name server; it is given a C string. -/
def resolveLiteral (host : Bytes) : Option Address := numericAddress (host.takeWhile (· ≠ 0))

/-- A link-local address in a spelling that the policy knows: four decimal numbers
that start with 169 and 254, or a text that starts with `fe80:`. -/
def PlainLinkLocal (host : Bytes) : Prop :=
  (∃ a b c d, host.splitOn 46 = [a,b,c,d] ∧ (Octet a ∧ Octet b ∧ Octet c ∧ Octet d) ∧
    digitsValue a = 169 ∧ digitsValue b = 254) ∨ ascii "fe80:" <+: host

theorem plainLinkLocal_iff (host : Bytes) : PlainLinkLocal host ↔
    (∃ c d, isIpv4Literal host = some [169,254,c,d]) ∨ ascii "fe80:" <+: host := by
  refine or_congr_left ⟨?_,?_⟩
  · rintro ⟨a,b,c,d,parts,numbers,first,second⟩
    exact ⟨_,_,(isIpv4Literal_iff _ _).mpr ⟨a,b,c,d,parts,numbers,by rw [first,second]⟩⟩
  · rintro ⟨_,_,literal⟩
    obtain ⟨a,b,c,d,parts,numbers,same⟩ := (isIpv4Literal_iff _ _).mp literal
    simp only [List.cons.injEq,and_true] at same
    exact ⟨a,b,c,d,parts,numbers,same.1.symm,same.2.1.symm⟩

/-- The numbers of a dotted quad that the resolver takes for a link-local address. The
first one may be the octal 0251, which the policy reads as 251. -/
theorem linkLocal_octets {host : Bytes} {octets : List Nat} {address : Address}
    (literal : isIpv4Literal host = some octets) (denoted : resolveLiteral host = some address)
    (linkLocal : address.linkLocal = true) : ∃ c d, octets = [169,254,c,d] ∨ octets = [251,254,c,d] := by
  have bytes := isIpv4Literal_bytes literal
  have whole : host.takeWhile (· ≠ 0) = host := by
    refine List.takeWhile_eq_self_iff.mpr fun x listed => ?_
    rcases bytes x listed with digit | rfl
    · simpa using (digit_visible x digit).2.1
    · decide
  have noColon : 58 ∉ host := by
    intro listed
    rcases bytes 58 listed with digit | dot
    · cases digit
    · cases dot
  obtain ⟨a,b,c,d,parts,⟨first,second,-,-⟩,rfl⟩ := (isIpv4Literal_iff host octets).mp literal
  rw [resolveLiteral,whole,numericAddress] at denoted
  cases aton : inetAton host with
  | none =>
    rw [aton] at denoted
    obtain ⟨groups,read,-⟩ := Option.map_eq_some_iff.mp denoted
    exact absurd (inetPton6_colon read) noColon
  | some n =>
    rw [aton] at denoted
    obtain rfl := Option.some.inj denoted
    have network : n / 2^16 = 169 * 256 + 254 := by simpa [Address.linkLocal] using linkLocal
    simp only [inetAton,parts,List.mapM_cons,List.mapM_nil,Option.bind_eq_bind,Option.pure_def] at aton
    cases readA : part a with
    | none => simp [readA] at aton
    | some x =>
      cases readB : part b with
      | none => simp [readA,readB] at aton
      | some y =>
        cases readC : part c with
        | none => simp [readA,readB,readC] at aton
        | some z =>
          cases readD : part d with
          | none => simp [readA,readB,readC,readD] at aton
          | some w =>
            simp only [readA,readB,readC,readD,Option.bind_some,Option.ite_none_right_eq_some,
              Option.some.injEq] at aton
            obtain ⟨bounds,rfl⟩ := aton
            obtain ⟨rfl,rfl⟩ : x = 169 ∧ y = 254 := by omega
            have high : octalAsDecimal 254 = 376 := by decide
            have low : octalAsDecimal 169 = 251 := by decide
            have small := second.small
            have secondValue : digitsValue b = 254 := by
              rcases part_decimal readB second.digits with same | octal
              · exact same
              · omega
            rw [secondValue]
            rcases part_decimal readA first.digits with same | octal
            · exact ⟨_,_,.inl (by rw [same])⟩
            · exact ⟨_,_,.inr (by rw [octal,low])⟩

theorem rejectAddress_iff {policy : UrlPolicy} (blocks : policy.blockLinkLocal = true) {host : Bytes}
    (lowered : toLower host = host) {address : Address} (denoted : resolveLiteral host = some address)
    (linkLocal : address.linkLocal = true) : policy.rejectAddress host ≠ [] ↔ PlainLinkLocal host := by
  have named : equalsIgnoreCase host (ascii "localhost") = false := by
    rw [Bool.eq_false_iff,ne_eq,equalsIgnoreCase_iff,lowered]
    rintro rfl
    have unknown : resolveLiteral (toLower (ascii "localhost")) = none := by decide
    rw [unknown] at denoted
    cases denoted
  have other : (host == ascii "::1") = false := by
    rw [beq_eq_false_iff_ne]
    rintro rfl
    have loopback : resolveLiteral (ascii "::1") = some (.v6 [0,0,0,0,0,0,0,1]) := by decide
    rw [loopback] at denoted
    obtain rfl := Option.some.inj denoted
    cases linkLocal
  rw [plainLinkLocal_iff]
  cases literal : isIpv4Literal host with
  | none =>
    have unread : ¬∃ c d, none = some [169,254,c,d] := by simp
    have outcome : policy.rejectAddress host =
        if startsWith host (ascii "fe80:") then ascii "link-local addresses are blocked" else [] := by
      simp [UrlPolicy.rejectAddress,literal,named,other,blocks]
    rw [or_iff_right unread,outcome,startsWith,ne_eq,ite_eq_right_iff,← List.isPrefixOf_iff_prefix]
    simp [ascii]
  | some octets =>
    have bytes := isIpv4Literal_bytes literal
    have noLetter : ¬ascii "fe80:" <+: host := by
      intro starts
      rcases bytes 102 (starts.subset (by decide)) with digit | dot
      · cases digit
      · cases dot
    rw [or_iff_left noLetter]
    have noStart : startsWith host (ascii "fe80:") = false := by
      rw [Bool.eq_false_iff,startsWith,ne_eq,List.isPrefixOf_iff_prefix]
      exact noLetter
    obtain ⟨c,d,rfl | rfl⟩ := linkLocal_octets literal denoted linkLocal
    · have outcome : policy.rejectAddress host =
          ascii "link-local addresses (including cloud metadata endpoints) are blocked" := by
        simp [UrlPolicy.rejectAddress,literal,named,other,blocks]
      simp [outcome,ascii]
    · have outcome : policy.rejectAddress host = [] := by
        simp [UrlPolicy.rejectAddress,literal,named,other,noStart,UrlPolicy.privateRange]
      simp [outcome]

/-- A URL whose host is a link-local address to the resolver is rejected, and nothing
is opened for it, exactly when the policy knows the spelling or forbids the scheme. -/
theorem linkLocal_rejected_iff (options : HttpClientOptions) (blocks : options.policy.blockLinkLocal = true)
    (unlisted : options.policy.allowedHosts = []) (text : Bytes) (url : Url) (parsed : parseUrl text = some url)
    (address : Address) (denoted : resolveLiteral url.host = some address) (linkLocal : address.linkLocal = true) :
    (options.policy.rejectText text ≠ [] ∧ ∀ exchange request, request.url = text →
      (HttpClient.performOnce options exchange request).1 = none) ↔
      url.scheme ∉ options.policy.allowedSchemes ∨ PlainLinkLocal url.host := by
  have valid := parseUrl_wellFormed text url parsed
  have rejection : options.policy.rejectText text ≠ [] ↔
      url.scheme ∉ options.policy.allowedSchemes ∨ PlainLinkLocal url.host := by
    rw [← rejectAddress_iff blocks valid.hostLowered denoted linkLocal,UrlPolicy.rejectText,parsed]
    dsimp only [UrlPolicy.reject]
    by_cases known : url.scheme ∈ options.policy.allowedSchemes
    · simp [known,unlisted]
    · simp [known,ascii]
  rw [← rejection,and_iff_left_iff_imp]
  rintro rejected exchange request rfl
  rw [UrlPolicy.rejectText,parsed] at rejected
  simp only [HttpClient.performOnce,parsed,if_pos rejected]

theorem linkLocal_rejected_metadata : (({} : HttpClientOptions).policy.rejectText
    (ascii "http://169.254.169.254/latest/meta-data/") ≠ [] ∧ ∀ exchange request,
      request.url = ascii "http://169.254.169.254/latest/meta-data/" →
        (HttpClient.performOnce {} exchange request).1 = none) ↔
      ascii "http" ∉ ({} : HttpClientOptions).policy.allowedSchemes ∨ PlainLinkLocal (ascii "169.254.169.254") :=
  linkLocal_rejected_iff {} rfl rfl _
    { scheme := ascii "http", host := ascii "169.254.169.254", port := 80, path := ascii "/latest/meta-data/" }
    (by decide +kernel) (.v4 2852039166) (by decide +kernel) (by decide)

/-- The metadata address as one decimal number passes. -/
theorem decimalHost_passes : ¬∀ (policy : UrlPolicy) (text : Bytes) (url : Url) (address : Address),
    policy.blockLinkLocal = true → policy.allowedHosts = [] → parseUrl text = some url →
      resolveLiteral url.host = some address → address.linkLocal = true → policy.rejectText text ≠ [] := by
  intro blocked
  refine blocked {} (ascii "http://2852039166/latest/meta-data/")
    { scheme := ascii "http", host := ascii "2852039166", port := 80, path := ascii "/latest/meta-data/" }
    (.v4 2852039166) rfl rfl (by decide +kernel) (by decide +kernel) (by decide) ?_
  decide +kernel

end TestForge
