import TestForge.Url

/-! What a parsed URL looks like, and what happens when a joined URL is serialised
and parsed again. The second parse is not the inverse of the serialiser: an odd
authority is rejected or comes back with another host. -/
namespace TestForge

open Sequence Strings

/-- The shape every successfully parsed URL has. -/
structure Url.WellFormed (url : Url) : Prop where
  schemeNamed : url.scheme ≠ []
  schemeLowered : toLower url.scheme = url.scheme
  schemeChars : ∀ c ∈ url.scheme, schemeChar c = true
  hostNamed : url.host ≠ []
  hostLowered : toLower url.host = url.host
  hostSlash : 47 ∉ url.host
  hostFragment : 35 ∉ url.host
  hostBracket : url.host.head? = some 91 → 93 ∉ url.host
  pathRooted : url.path.head? = some 47
  pathQuery : 63 ∉ url.path
  pathFragment : 35 ∉ url.path
  portKnown : defaultPortFor url.scheme ≠ 0 → 0 < url.port
  portSmall : url.port ≤ 65535

theorem parsePort_range (text : Bytes) (port : Nat) (parsed : parsePort text = some port) :
    0 < port ∧ port ≤ 65535 := by
  unfold parsePort at parsed
  split at parsed
  · split at parsed
    · simp only [Option.some.injEq] at parsed
      omega
    · contradiction
  · contradiction

theorem parseAuthority_port (authority host : Bytes) (port : Nat)
    (parsed : parseAuthority authority = some (host,port)) : port ≤ 65535 := by
  unfold parseAuthority at parsed
  split at parsed
  · contradiction
  all_goals
    split at parsed
    all_goals simp only [reduceCtorEq,Option.some.injEq,Prod.mk.injEq,Option.map_eq_some_iff] at parsed
  · omega
  · obtain ⟨read,found,_,rfl⟩ := parsed
    exact (parsePort_range _ _ found).2
  · obtain ⟨read,found,_,rfl⟩ := parsed
    exact (parsePort_range _ _ found).2
  · omega

theorem defaultPortFor_small (scheme : Bytes) : defaultPortFor scheme ≤ 65535 := by
  unfold defaultPortFor
  split
  · omega
  · split <;> omega

theorem head_of_toLower (c : UInt8) (text : Bytes) (other : isAlpha c = false) (front : (toLower text).head? = some c) :
    text.head? = some c := by
  cases text with
  | nil => cases front
  | cons first tail =>
    have lowered : lowerAscii first = c := by simpa [toLower] using front
    have member : c ∈ toLower [first] := by simp [toLower,lowered]
    have same : c = first := by simpa using (mem_toLower_of_not_letter c [first] other).mp member
    simp [same]

theorem parseUrl_wellFormed (text : Bytes) (url : Url) (parsed : parseUrl text = some url) :
    url.WellFormed := by
  obtain ⟨rawScheme,behind,rest,fragment,authority,pathAndQuery,host,port,_,schemeNamed,schemeChars,
    cutHash,cutSlash,authorityParsed,hostNamed,scheme,hostEq,portEq,pathEq⟩ :=
    parseUrl_some text url parsed
  have restHash : 35 ∉ rest := by
    have fresh := getD_cut_fst 35 behind
    rwa [cutHash] at fresh
  have authoritySlash : 47 ∉ authority ∧ authority <+: rest := by
    have fresh := splitPath_fst rest
    rwa [cutSlash] at fresh
  have hostSubset : host ⊆ authority :=
    List.Subset.trans (parseAuthority_subset _ _ _ authorityParsed) (stripUserinfo_subset authority)
  have kept (c : UInt8) (other : isAlpha c = false) (absent : c ∉ authority) : c ∉ url.host := by
    rw [hostEq,mem_toLower_of_not_letter c host other]
    exact fun member => absent (hostSubset member)
  obtain ⟨tail,rooted,suffix⟩ := splitPath_snd rest
  have pathAndQueryEq : pathAndQuery = 47 :: tail := by
    rw [cutSlash] at rooted
    exact rooted
  have pathPrefix : ∃ more, url.path = 47 :: more ∧ more <+: tail ∧ 63 ∉ url.path := by
    have split := getD_cut_append 63 [47] tail (by decide)
    have fresh := getD_cut_fst 63 pathAndQuery
    rw [pathAndQueryEq] at fresh pathEq
    rw [List.singleton_append] at split
    rw [if_neg (by simp [split])] at pathEq
    exact ⟨_,by rw [pathEq,split]; rfl,getD_cut_fst_bound 63 tail,by rwa [pathEq]⟩
  obtain ⟨more,pathSplit,morePrefix,pathQuery⟩ := pathPrefix
  exact {
    schemeNamed := by simpa [scheme,toLower] using schemeNamed
    schemeLowered := by rw [scheme,toLower_toLower]
    schemeChars := by rw [scheme]; exact List.all_eq_true.mp schemeChars
    hostNamed := by simpa [hostEq,toLower] using hostNamed
    hostLowered := by rw [hostEq,toLower_toLower]
    hostSlash := kept 47 (by decide) authoritySlash.1
    hostFragment := kept 35 (by decide) fun member => restHash (authoritySlash.2.subset member)
    hostBracket := by
      intro opened
      have inside := parseAuthority_open_bracket _ _ _ authorityParsed
        (head_of_toLower 91 host (by decide) (hostEq ▸ opened))
      rwa [hostEq,mem_toLower_of_not_letter 93 host (by decide)]
    pathRooted := by simp [pathSplit]
    pathQuery := pathQuery
    pathFragment := by
      rw [pathSplit]
      intro member
      rcases List.mem_cons.mp member with equal | member
      · exact absurd equal (by decide)
      · have inTail := morePrefix.subset member
        rcases suffix with rfl | suffix
        · simp at inTail
        · exact restHash (suffix.subset (by simp [inTail]))
    portKnown := by
      intro known
      rw [portEq]
      split <;> omega
    portSmall := by
      have small := parseAuthority_port _ _ _ authorityParsed
      have fallback := defaultPortFor_small url.scheme
      rw [portEq]
      split <;> omega }

/-- Hosts whose authority is read back as it was printed. -/
structure Url.Plain (url : Url) : Prop where
  noUserinfo : 64 ∉ url.host
  unbracketed : url.host.head? ≠ some 91
  portShown : 58 ∈ url.host → url.port ≠ defaultPortFor url.scheme

/-- What is printed behind the host: nothing for the port of the scheme. -/
def PortTail (url : Url) (tail : Bytes) : Prop :=
  (tail = [] ∧ url.port = defaultPortFor url.scheme) ∨ (tail = 58 :: decimal url.port ∧ url.port ≠ defaultPortFor url.scheme)

theorem authority_tail (url : Url) (positive : 0 < url.port) : ∃ tail, url.authority = url.host ++ tail ∧ PortTail url tail := by
  unfold Url.authority
  split
  · next usual => exact ⟨[],by simp,.inl ⟨rfl,usual.resolve_left (by omega)⟩⟩
  · next shown => exact ⟨_,rfl,.inr ⟨rfl,fun usual => shown (.inr usual)⟩⟩

theorem decimal_colonFree (n : Nat) : 58 ∉ decimal n := fun member =>
  (digit_visible 58 (isDigit_decimal n 58 member)).2.2.2.2.1 rfl

theorem PortTail.plain {url : Url} {tail : Bytes} (shape : PortTail url tail) : 64 ∉ tail ∧ 93 ∉ tail := by
  rcases shape with ⟨rfl,_⟩ | ⟨rfl,_⟩
  · simp
  · have digits (c : UInt8) (numeric : c ∈ decimal url.port) : c ≠ 64 ∧ c ≠ 93 :=
      have visible := digit_visible c (isDigit_decimal _ c numeric)
      ⟨visible.2.2.2.2.2.1,visible.2.2.2.2.2.2⟩
    constructor
    · simpa using fun member => (digits 64 member).1 rfl
    · simpa using fun member => (digits 93 member).2 rfl

theorem bracketed_shorter (inner tail inside host closing : Bytes) (tailPlain : 93 ∉ tail)
    (whole : inner ++ tail = 91 :: inside) (split : inside = host ++ 93 :: closing) (fresh : 93 ∉ host) :
    host.length < inner.length := by
  have closes : 93 ∈ inner := by
    have member : 93 ∈ inner ++ tail := by rw [whole,split]; simp
    exact (List.mem_append.mp member).resolve_right tailPlain
  by_contra longer
  have begins : inner <+: 91 :: host := by
    have first : inner <+: 91 :: inside := ⟨tail,whole⟩
    have second : 91 :: host <+: 91 :: inside := ⟨93 :: closing,by rw [split]; simp⟩
    exact List.prefix_of_prefix_length_le first second (by simp only [List.length_cons]; omega)
  rcases List.mem_cons.mp (begins.subset closes) with equal | member
  · exact absurd equal (by decide)
  · exact fresh member

theorem reparse_inner (url : Url) (inner tail host : Bytes) (port : Nat) (shape : PortTail url tail)
    (parsed : parseAuthority (inner ++ tail) = some (host,port)) : host.length ≤ inner.length := by
  by_cases bracket : (inner ++ tail).head? = some 91
  · obtain ⟨inside,whole⟩ := List.head?_eq_some_iff.mp bracket
    rw [whole] at parsed
    obtain ⟨closing,split,fresh⟩ := parseAuthority_bracket inside host port parsed
    exact (bracketed_shorter inner tail inside host closing shape.plain.2 whole split fresh).le
  · have filled : inner ++ tail ≠ [] := by
      intro empty
      rw [empty] at parsed
      simp [parseAuthority] at parsed
    rcases parseAuthority_plain_host _ host port filled bracket parsed with ⟨hostEq,noColon,_⟩ | ⟨digits,split,digitsFree,_⟩
    · rcases shape with ⟨rfl,_⟩ | ⟨rfl,_⟩
      · simp [hostEq]
      · exact absurd (by simp) noColon
    · rcases shape with ⟨rfl,_⟩ | ⟨rfl,_⟩
      · have total : inner.length = host.length + (digits.length + 1) := by simpa using congrArg List.length split
        omega
      · have cuts := cutLast_append 58 inner (decimal url.port) (decimal_colonFree url.port)
        rw [split,cutLast_append 58 host digits digitsFree] at cuts
        simp only [Option.some.injEq,Prod.mk.injEq] at cuts
        rw [cuts.1]

theorem reparse_userinfo (url : Url) (tail front rest host : Bytes) (port : Nat) (shape : PortTail url tail)
    (split : url.host ++ tail = front ++ 64 :: rest) (parsed : parseAuthority rest = some (host,port)) :
    host.length < url.host.length := by
  obtain ⟨inner,hostSplit,restSplit⟩ : ∃ inner, url.host = front ++ 64 :: inner ∧ rest = inner ++ tail := by
    rcases List.append_eq_append_iff.mp split with ⟨gap,frontEq,tailEq⟩ | ⟨gap,hostEq,restEq⟩
    · exact absurd (by simp [tailEq]) shape.plain.1
    · cases gap with
      | nil =>
        simp only [List.nil_append] at restEq
        exact absurd (by simp [← restEq]) shape.plain.1
      | cons c gap =>
        simp only [List.cons_append,List.cons.injEq] at restEq
        obtain ⟨rfl,rfl⟩ := restEq
        exact ⟨gap,hostEq,rfl⟩
  rw [restSplit] at parsed
  have short := reparse_inner url inner tail host port shape parsed
  have longer := congrArg List.length hostSplit
  simp only [List.length_append,List.length_cons] at longer
  omega

/-- A host without brackets is read back when nothing of it is taken for the port. -/
theorem reparse_host (url : Url) (valid : url.WellFormed) (positive : 0 < url.port) (tail host : Bytes) (port : Nat)
    (shape : PortTail url tail) (bracket : (url.host ++ tail).head? ≠ some 91)
    (parsed : parseAuthority (url.host ++ tail) = some (host,port)) (length : host.length = url.host.length) :
    host = url.host ∧ (if port = 0 then defaultPortFor url.scheme else port) = url.port ∧
      (58 ∈ url.host → url.port ≠ defaultPortFor url.scheme) := by
  have nonempty : url.host ++ tail ≠ [] := by simp [valid.hostNamed]
  rcases parseAuthority_plain_host _ host port nonempty bracket parsed with
    ⟨hostEq,noColon,portZero⟩ | ⟨digits,split,digitsFree,read⟩
  · rcases shape with ⟨rfl,usual⟩ | ⟨rfl,_⟩
    · simp only [List.append_nil] at hostEq noColon
      exact ⟨hostEq,by simp [portZero,usual],fun member => absurd member noColon⟩
    · simp at noColon
  · rcases shape with ⟨rfl,_⟩ | ⟨rfl,shown⟩
    · have total : url.host.length = host.length + (digits.length + 1) := by simpa using congrArg List.length split
      omega
    · have cuts := cutLast_append 58 url.host (decimal url.port) (decimal_colonFree url.port)
      rw [split,cutLast_append 58 host digits digitsFree] at cuts
      simp only [Option.some.injEq,Prod.mk.injEq] at cuts
      obtain ⟨rfl,rfl⟩ := cuts
      rw [parsePort_decimal url.port positive valid.portSmall] at read
      simp only [Option.some.injEq] at read
      exact ⟨rfl,by rw [← read,if_neg (by omega)],fun _ => shown⟩

/-- Parsing again what `Url.authority` printed either fails, or names another
host, or gives host and port back. -/
theorem reparse_authority (url : Url) (valid : url.WellFormed)
    (known : defaultPortFor url.scheme ≠ 0) (host : Bytes) (port : Nat)
    (parsed : parseAuthority (stripUserinfo url.authority) = some (host,port)) (same : toLower host = url.host) :
    host = url.host ∧ (if port = 0 then defaultPortFor url.scheme else port) = url.port ∧ url.Plain := by
  have length : host.length = url.host.length := by rw [← same,toLower_length]
  have positive := valid.portKnown known
  obtain ⟨tail,authority,shape⟩ := authority_tail url positive
  rw [authority] at parsed
  unfold stripUserinfo at parsed
  split at parsed
  · next front rest found =>
    have shorter := reparse_userinfo url tail front rest host port shape ((cut_eq_some 64 _ _ _).mp found).1 parsed
    omega
  · next absent =>
    have userinfo : 64 ∉ url.host := fun member => (cut_eq_none 64 _).mp absent (by simp [member])
    have front : (url.host ++ tail).head? = url.host.head? := by
      obtain ⟨c,more,equal⟩ := List.exists_cons_of_ne_nil valid.hostNamed
      simp [equal]
    have unbracketed : url.host.head? ≠ some 91 := by
      intro bracket
      obtain ⟨inside,whole⟩ := List.head?_eq_some_iff.mp (front.trans bracket)
      rw [whole] at parsed
      obtain ⟨closing,split,_⟩ := parseAuthority_bracket inside host port parsed
      have member : 93 ∈ url.host ++ tail := by rw [whole,split]; simp
      rcases List.mem_append.mp member with member | member
      · exact valid.hostBracket bracket member
      · exact shape.plain.2 member
    obtain ⟨hostEq,portEq,shown⟩ := reparse_host url valid positive tail host port shape (front ▸ unbracketed) parsed length
    exact ⟨hostEq,portEq,userinfo,unbracketed,shown⟩

/-- The authority of a well-formed URL ends before the first '/' and holds no '#'. -/
theorem authority_plain (url : Url) (valid : url.WellFormed) :
    47 ∉ url.authority ∧ 35 ∉ url.authority := by
  have digits (c : UInt8) (other : isDigit c = false) : c ∉ decimal url.port := by
    intro member
    simp [isDigit_decimal _ c member] at other
  unfold Url.authority
  split
  · exact ⟨valid.hostSlash,valid.hostFragment⟩
  · constructor
    · simp [valid.hostSlash,digits 47 (by decide)]
    · simp [valid.hostFragment,digits 35 (by decide)]

theorem schemeChar_visible (c : UInt8) (letter : schemeChar c = true) : isSpace c = false ∧ c ≠ 58 := by
  simp only [schemeChar,isAlnum,isDigit,isAlpha,Bool.or_eq_true,Bool.and_eq_true,decide_eq_true_eq,
    beq_iff_eq] at letter
  simp only [isSpace,Bool.or_eq_false_iff,beq_eq_false_iff_ne,Bool.and_eq_false_iff,
    decide_eq_false_iff_not]
  grind

theorem cutOn_scheme (scheme behind : Bytes) (chars : ∀ c ∈ scheme, schemeChar c = true) :
    cutOn (ascii "://") (scheme ++ ascii "://" ++ behind) = some (scheme,behind) := by
  apply cutOn_append
  intro early shorter pre
  have colon : scheme[early.length]? = some 58 := by
    have left : (early ++ ascii "://")[early.length]? = some 58 := by simp [ascii]
    have right := List.prefix_iff_getElem?.mp pre early.length (by simp [ascii])
    rw [List.append_assoc,List.getElem?_append_left shorter] at right
    rw [right,← left,List.getElem?_eq_getElem]
  exact (schemeChar_visible 58 (chars 58 (List.mem_of_getElem? colon))).2 rfl

theorem toString_below (base : Url) (basePath below query : Bytes) : ∃ more,
    ({ base with path := basePath ++ 47 :: below, query, fragment := [] } : Url).toString =
      base.scheme ++ ascii "://" ++ (base.authority ++ basePath ++ 47 :: more) := by
  have target : ({ base with path := basePath ++ 47 :: below, query, fragment := [] } : Url).requestTarget =
      if query = [] then basePath ++ 47 :: below else (basePath ++ 47 :: below) ++ 63 :: query := by
    have named : basePath ++ 47 :: below ≠ [] := by simp
    simp only [Url.requestTarget,if_neg named]
  have printed : ({ base with path := basePath ++ 47 :: below, query, fragment := [] } : Url).toString =
      base.scheme ++ ascii "://" ++ base.authority ++
        ({ base with path := basePath ++ 47 :: below, query, fragment := [] } : Url).requestTarget := by
    simp [Url.toString,Url.authority]
  rw [printed,target]
  split
  · exact ⟨below,by simp⟩
  · exact ⟨below ++ 63 :: query,by simp⟩

/-- Trimming takes nothing in front of the path below. -/
theorem trim_below (base : Url) (valid : base.WellFormed) (basePath more : Bytes) : ∃ kept,
    trim (base.scheme ++ ascii "://" ++ (base.authority ++ basePath ++ 47 :: more)) =
      base.scheme ++ ascii "://" ++ (base.authority ++ basePath ++ 47 :: kept) := by
  obtain ⟨kept,equal,_⟩ := rdropWhile_append_visible
    (base.scheme ++ ascii "://" ++ (base.authority ++ basePath)) more 47 (by decide)
  refine ⟨kept,?_⟩
  obtain ⟨c,rest,named⟩ := List.exists_cons_of_ne_nil valid.schemeNamed
  have visible := (schemeChar_visible c (valid.schemeChars c (by simp [named]))).1
  simp only [named,List.cons_append,List.append_assoc] at equal ⊢
  rw [trim_of_head c _ visible,equal]

theorem Url.WellFormed.base_rooted {home : Url} (valid : home.WellFormed) {base : Bytes} (part : base <+: home.path)
    (more : Bytes) : (base ++ 47 :: more).head? = some 47 := by
  cases base with
  | nil => rfl
  | cons c rest =>
    obtain ⟨tail,whole⟩ := part
    have root := valid.pathRooted
    rw [← whole] at root
    simpa using root

theorem splitPath_below (base : Url) (valid : base.WellFormed) (basePath left : Bytes) (pathRoot : basePath <+: base.path) :
    splitPath (base.authority ++ basePath ++ 47 :: left) = (base.authority,basePath ++ 47 :: left) := by
  obtain ⟨tail,rooted⟩ := List.head?_eq_some_iff.mp (valid.base_rooted pathRoot left)
  rw [List.append_assoc,rooted]
  simp [splitPath,cut_append 47 _ tail (authority_plain base valid).1]

/-- Serialising a base with a path below it and parsing the result: the scheme
survives, and where the host does, so do the port and the base path. -/
theorem reparse_join (base url : Url) (valid : base.WellFormed) (basePath below query : Bytes)
    (pathRoot : basePath <+: base.path)
    (parsed : parseUrl ({ base with path := basePath ++ 47 :: below, query, fragment := [] } : Url).toString =
      some url) :
    url.scheme = base.scheme ∧ (url.host = base.host → defaultPortFor base.scheme ≠ 0 →
      url.port = base.port ∧ basePath ++ [47] <+: url.path) := by
  obtain ⟨more,text⟩ := toString_below base basePath below query
  obtain ⟨kept,trimmed⟩ := trim_below base valid basePath more
  obtain ⟨rawScheme,behind,rest,fragment,authority,pathAndQuery,host,port,cutScheme,_,_,cutHash,
    cutSlash,authorityParsed,hostNamed,scheme,hostEq,portEq,pathEq⟩ := parseUrl_some _ url parsed
  rw [text,trimmed,cutOn_scheme _ _ valid.schemeChars] at cutScheme
  simp only [Option.some.injEq,Prod.mk.injEq] at cutScheme
  obtain ⟨rfl,rfl⟩ := cutScheme
  have schemeEq : url.scheme = base.scheme := by rw [scheme,valid.schemeLowered]
  refine ⟨schemeEq,fun same known => ?_⟩
  have pathHash : 35 ∉ basePath := fun member => valid.pathFragment (pathRoot.subset member)
  have pathQuery : 63 ∉ basePath := fun member => valid.pathQuery (pathRoot.subset member)
  obtain ⟨left,rfl⟩ : ∃ left, rest = base.authority ++ basePath ++ 47 :: left := by
    have cuts := getD_cut_append 35 (base.authority ++ basePath ++ [47]) kept
      (by simp [(authority_plain base valid).2,pathHash])
    rw [List.append_assoc _ [47],List.singleton_append,cutHash] at cuts
    exact ⟨_,by simpa using cuts⟩
  rw [splitPath_below base valid basePath left pathRoot,Prod.mk.injEq] at cutSlash
  obtain ⟨rfl,rfl⟩ := cutSlash
  obtain ⟨_,portBack,_⟩ := reparse_authority base valid known host port authorityParsed
    (hostEq ▸ same)
  refine ⟨by rw [portEq,schemeEq]; exact portBack,?_⟩
  have cuts := getD_cut_append 63 (basePath ++ [47]) left (by simp [pathQuery])
  rw [List.append_assoc,List.singleton_append] at cuts
  rw [pathEq,cuts,if_neg (by simp)]
  exact List.prefix_append _ _

end TestForge
