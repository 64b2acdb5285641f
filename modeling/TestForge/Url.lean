import TestForge.Strings

/-! URLs: parsing, joining, re-serialising, and the policy that guards requests. -/
namespace TestForge

open Sequence Strings

structure Url where
  scheme : Bytes
  host : Bytes
  port : Nat := 0
  path : Bytes := ascii "/"
  query : Bytes := []
  fragment : Bytes := []
  deriving DecidableEq, Repr

def defaultPortFor (scheme : Bytes) : Nat :=
  if scheme = ascii "https" then 443 else if scheme = ascii "http" then 80 else 0

namespace Url

def isHttps (url : Url) : Bool := url.scheme == ascii "https"

def requestTarget (url : Url) : Bytes :=
  let target := if url.path = [] then ascii "/" else url.path
  if url.query = [] then target else target ++ 63 :: url.query

def authority (url : Url) : Bytes :=
  if url.port = 0 ∨ url.port = defaultPortFor url.scheme then url.host
  else url.host ++ 58 :: decimal url.port

def toString (url : Url) : Bytes :=
  let text := url.scheme ++ ascii "://" ++ url.authority ++ url.requestTarget
  if url.fragment = [] then text else text ++ 35 :: url.fragment

end Url

/-- The four octets collected so far, and the octet being read. -/
def ipv4Octets : Bytes → List Nat → Option Nat → Option (List Nat)
  | [], values, some current => if values.length = 3 then some (values ++ [current]) else none
  | [], _, none => none
  | c :: rest, values, current =>
    if isDigit c then
      let next := current.getD 0 * 10 + (c.toNat - 48)
      if next > 255 then none else ipv4Octets rest values (some next)
    else if c = 46 then
      match current with
      | none => none
      | some value => if values.length ≥ 3 then none else ipv4Octets rest (values ++ [value]) none
    else none

def isIpv4Literal (host : Bytes) : Option (List Nat) := ipv4Octets host [] none

def schemeChar (c : UInt8) : Bool := isAlnum c || c == 43 || c == 45 || c == 46

def parsePort (text : Bytes) : Option Nat :=
  match parseInt text with
  | some port => if 0 < port ∧ port ≤ 65535 then some port.toNat else none
  | none => none

/-- Everything up to the first '@' is discarded. -/
def stripUserinfo (authority : Bytes) : Bytes :=
  match cut 64 authority with
  | some (_,rest) => rest
  | none => authority

/-- Host and explicit port; port zero stands for an absent one. -/
def parseAuthority : Bytes → Option (Bytes × Nat)
  | [] => none
  | 91 :: inside =>
    match cut 93 inside with
    | none => none
    | some (host,[]) => some (host,0)
    | some (host,58 :: port) => (parsePort port).map fun port => (host,port)
    | some (_,_) => none
  | authority =>
    match cutLast 58 authority with
    | some (host,port) => (parsePort port).map fun port => (host,port)
    | none => some (authority,0)

/-- Authority and path-with-query of the text behind the scheme, fragment removed. -/
def splitPath (rest : Bytes) : Bytes × Bytes :=
  match cut 47 rest with
  | some (authority,path) => (authority,47 :: path)
  | none => (rest,ascii "/")

def parseUrl (text : Bytes) : Option Url :=
  match cutOn (ascii "://") (trim text) with
  | none => none
  | some (rawScheme,behind) =>
    let scheme := toLower rawScheme
    if rawScheme = [] ∨ scheme.all schemeChar = false ∨ behind = [] then none
    else
      let (rest,fragment) := (cut 35 behind).getD (behind,[])
      let (authority,pathAndQuery) := splitPath rest
      match parseAuthority (stripUserinfo authority) with
      | none => none
      | some (host,port) =>
        if host = [] then none
        else
          let (path,query) := (cut 63 pathAndQuery).getD (pathAndQuery,[])
          some {
            scheme
            host := toLower host
            port := if port = 0 then defaultPortFor scheme else port
            path := if path = [] then ascii "/" else path
            query, fragment }

def joinUrl (base path : Bytes) : Option Bytes :=
  if contains path (ascii "..") then none
  else if startsWith path (ascii "http://") || startsWith path (ascii "https://") then
    (parseUrl path).map fun _ => path
  else
    match parseUrl base with
    | none => none
    | some parsedBase =>
      let basePath := parsedBase.path.rdropWhile (· == 47)
      let suffix := match path with
        | [] => ascii "/"
        | 47 :: rest => 47 :: rest
        | other => 47 :: other
      let (suffix,query) := (cut 63 suffix).getD (suffix,[])
      some ({ parsedBase with path := basePath ++ suffix, query, fragment := [] } : Url).toString

structure UrlPolicy where
  allowedSchemes : List Bytes := [ascii "http",ascii "https"]
  allowedHosts : List Bytes := []
  blockLinkLocal : Bool := true
  blockLoopback : Bool := false
  blockPrivateNetworks : Bool := false

namespace UrlPolicy

def privateRange : List Nat → Bool
  | first :: second :: _ =>
    first == 10 || (first == 172 && 16 ≤ second && second ≤ 31) || (first == 192 && second == 168)
  | _ => false

/-- The address rules, applied when there is no explicit allow-list. -/
def rejectAddress (policy : UrlPolicy) (host : Bytes) : Bytes :=
  let octets := isIpv4Literal host
  let first := octets.bind (·[0]?)
  let second := octets.bind (·[1]?)
  let loopbackName := equalsIgnoreCase host (ascii "localhost") || host == ascii "::1"
  if policy.blockLoopback && (loopbackName || first == some 127) then
    ascii "loopback addresses are blocked by policy"
  else if policy.blockLinkLocal && first == some 169 && second == some 254 then
    ascii "link-local addresses (including cloud metadata endpoints) are blocked"
  else if policy.blockLinkLocal && startsWith host (ascii "fe80:") then
    ascii "link-local addresses are blocked"
  else if policy.blockPrivateNetworks && (octets.map privateRange).getD false then
    ascii "private network addresses are blocked by policy"
  else []

/-- Empty when the URL is acceptable, the reason otherwise. -/
def reject (policy : UrlPolicy) (url : Url) : Bytes :=
  if url.scheme ∉ policy.allowedSchemes then
    ascii "scheme '" ++ url.scheme ++ ascii "' is not allowed"
  else if policy.allowedHosts ≠ [] then
    if policy.allowedHosts.any (equalsIgnoreCase · url.host) then []
    else ascii "host '" ++ url.host ++ ascii "' is not in the allow-list"
  else rejectAddress policy url.host

def rejectText (policy : UrlPolicy) (rawUrl : Bytes) : Bytes :=
  match parseUrl rawUrl with
  | none => ascii "not a valid absolute http(s) URL"
  | some url => policy.reject url

def restrictedTo (baseUrl : Bytes) : UrlPolicy :=
  match parseUrl baseUrl with
  | some url => { allowedHosts := [url.host] }
  | none => {}

end UrlPolicy

theorem stripUserinfo_subset (authority : Bytes) : stripUserinfo authority ⊆ authority := by
  intro c member
  simp only [stripUserinfo] at member
  split at member
  · next head rest found =>
    rw [((cut_eq_some 64 _ _ _).mp found).1]
    simp [member]
  · exact member

theorem parseAuthority_bracket (inside host : Bytes) (port : Nat)
    (parsed : parseAuthority (91 :: inside) = some (host,port)) :
    ∃ tail, inside = host ++ 93 :: tail ∧ 93 ∉ host := by
  simp only [parseAuthority] at parsed
  split at parsed
  · contradiction
  · next read found =>
    simp only [Option.some.injEq,Prod.mk.injEq] at parsed
    obtain ⟨rfl,_⟩ := parsed
    exact ⟨[],(cut_eq_some 93 _ _ _).mp found⟩
  · next read digits found =>
    simp only [Option.map_eq_some_iff,Prod.mk.injEq] at parsed
    obtain ⟨_,_,rfl,_⟩ := parsed
    exact ⟨58 :: digits,(cut_eq_some 93 _ _ _).mp found⟩
  · contradiction

theorem parseAuthority_plain (authority : Bytes) (nonempty : authority ≠ [])
    (plain : authority.head? ≠ some 91) :
    parseAuthority authority = match cutLast 58 authority with
      | some (host,port) => (parsePort port).map fun port => (host,port)
      | none => some (authority,0) := by
  unfold parseAuthority
  split
  · contradiction
  · simp at plain
  · rfl

theorem parseAuthority_plain_host (authority host : Bytes) (port : Nat) (nonempty : authority ≠ [])
    (plain : authority.head? ≠ some 91) (parsed : parseAuthority authority = some (host,port)) :
    (host = authority ∧ 58 ∉ authority ∧ port = 0) ∨
      ∃ digits, authority = host ++ 58 :: digits ∧ 58 ∉ digits ∧ parsePort digits = some port := by
  rw [parseAuthority_plain authority nonempty plain] at parsed
  split at parsed
  · next before after found =>
    simp only [Option.map_eq_some_iff,Prod.mk.injEq] at parsed
    obtain ⟨_,portText,rfl,rfl⟩ := parsed
    obtain ⟨split,fresh⟩ := (cutLast_eq_some 58 _ _ _).mp found
    exact .inr ⟨after,split,fresh,portText⟩
  · next absent =>
    simp only [Option.some.injEq,Prod.mk.injEq] at parsed
    obtain ⟨rfl,rfl⟩ := parsed
    exact .inl ⟨rfl,(cutLast_eq_none 58 _).mp absent,rfl⟩

theorem parseAuthority_subset (authority host : Bytes) (port : Nat)
    (parsed : parseAuthority authority = some (host,port)) : host ⊆ authority := by
  by_cases nonempty : authority = []
  · subst nonempty; simp [parseAuthority] at parsed
  by_cases bracket : authority.head? = some 91
  · obtain ⟨inside,rfl⟩ := List.head?_eq_some_iff.mp bracket
    obtain ⟨tail,split,_⟩ := parseAuthority_bracket inside host port parsed
    subst split
    intro c member
    simp [member]
  · rcases parseAuthority_plain_host authority host port nonempty bracket parsed with
      ⟨rfl,_⟩ | ⟨digits,split,_⟩
    · exact List.Subset.refl _
    · subst split
      intro c member
      simp [member]

/-- A host that still starts with '[' came from inside brackets, so holds no ']'. -/
theorem parseAuthority_open_bracket (authority host : Bytes) (port : Nat)
    (parsed : parseAuthority authority = some (host,port)) (opened : host.head? = some 91) :
    93 ∉ host := by
  have nonempty : authority ≠ [] := by
    rintro rfl
    simp [parseAuthority] at parsed
  by_cases bracket : authority.head? = some 91
  · obtain ⟨inside,rfl⟩ := List.head?_eq_some_iff.mp bracket
    obtain ⟨tail,_,fresh⟩ := parseAuthority_bracket inside host port parsed
    exact fresh
  · rcases parseAuthority_plain_host authority host port nonempty bracket parsed with
      ⟨rfl,_⟩ | ⟨digits,rfl,_⟩
    · exact absurd opened bracket
    · exact absurd (by simp [List.head?_append,opened]) bracket

/-- What a successful parse read, part by part. -/
theorem parseUrl_some (text : Bytes) (url : Url) (parsed : parseUrl text = some url) :
    ∃ rawScheme behind rest fragment authority pathAndQuery host port,
      cutOn (ascii "://") (trim text) = some (rawScheme,behind) ∧ rawScheme ≠ [] ∧
      (toLower rawScheme).all schemeChar = true ∧
      (cut 35 behind).getD (behind,[]) = (rest,fragment) ∧
      splitPath rest = (authority,pathAndQuery) ∧
      parseAuthority (stripUserinfo authority) = some (host,port) ∧ host ≠ [] ∧
      url.scheme = toLower rawScheme ∧ url.host = toLower host ∧
      url.port = (if port = 0 then defaultPortFor url.scheme else port) ∧
      url.path = (if ((cut 63 pathAndQuery).getD (pathAndQuery,[])).1 = [] then ascii "/"
        else ((cut 63 pathAndQuery).getD (pathAndQuery,[])).1) := by
  unfold parseUrl at parsed
  split at parsed
  · contradiction
  next rawScheme behind found =>
    simp only at parsed
    split at parsed
    · contradiction
    next accepted =>
      obtain ⟨named,accepted⟩ := not_or.mp accepted
      obtain ⟨letters,_⟩ := not_or.mp accepted
      split at parsed
      · contradiction
      next host port authorityParsed =>
        split at parsed
        · contradiction
        next hostNamed =>
          simp only [Option.some.injEq] at parsed
          subst parsed
          exact ⟨rawScheme,behind,_,_,_,_,host,port,found,named,
            by simpa using letters,rfl,rfl,authorityParsed,hostNamed,rfl,rfl,rfl,rfl⟩

theorem getD_cut_fst (c : UInt8) (text : Bytes) : c ∉ ((cut c text).getD (text,[])).1 := by
  cases found : cut c text with
  | none => simpa using (cut_eq_none c text).mp found
  | some p => simpa using ((cut_eq_some c text p.1 p.2).mp found).2

theorem getD_cut_fst_bound (c : UInt8) (text : Bytes) : ((cut c text).getD (text,[])).1 <+: text := by
  cases found : cut c text with
  | none => simp
  | some p => exact ⟨_,((cut_eq_some c text p.1 p.2).mp found).1.symm⟩

/-- Cutting at a letter absent from a prefix leaves that prefix in place. -/
theorem getD_cut_append (c : UInt8) (before after : Bytes) (fresh : c ∉ before) :
    ((cut c (before ++ after)).getD (before ++ after,[])).1 =
      before ++ ((cut c after).getD (after,[])).1 := by
  cases found : cut c after with
  | none =>
    have absent := (cut_eq_none c (before ++ after)).mpr
      (by simpa [fresh] using (cut_eq_none c after).mp found)
    simp [absent]
  | some p =>
    obtain ⟨split,freshAfter⟩ := (cut_eq_some c after p.1 p.2).mp found
    have whole : cut c (before ++ after) = some (before ++ p.1,p.2) :=
      (cut_eq_some c _ _ _).mpr ⟨by simp [split],by simp [fresh,freshAfter]⟩
    simp [whole]

theorem splitPath_fst (rest : Bytes) : 47 ∉ (splitPath rest).1 ∧ (splitPath rest).1 <+: rest := by
  unfold splitPath
  split
  · next authority path found =>
    obtain ⟨split,fresh⟩ := (cut_eq_some 47 _ _ _).mp found
    exact ⟨fresh,⟨47 :: path,split.symm⟩⟩
  · next absent => exact ⟨(cut_eq_none 47 rest).mp absent,List.prefix_rfl⟩

theorem splitPath_snd (rest : Bytes) : ∃ tail, (splitPath rest).2 = 47 :: tail ∧
    (tail = [] ∨ 47 :: tail <:+ rest) := by
  unfold splitPath
  split
  · next authority path found =>
    exact ⟨path,rfl,.inr ⟨authority,((cut_eq_some 47 _ _ _).mp found).1.symm⟩⟩
  · exact ⟨[],rfl,.inl rfl⟩

theorem parsePort_decimal (port : Nat) (positive : 0 < port) (small : port ≤ 65535) :
    parsePort (decimal port) = some port := by
  have read : parseInt (decimal port) = some (port : Int) := parseInt_decimal port (by omega)
  simp [parsePort,read,positive]
  omega

end TestForge
