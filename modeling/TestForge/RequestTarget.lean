import TestForge.RequestBody
import TestForge.SpecTarget
import TestForge.UrlRoundTrip

/-! The target of a generated test's first request: what the spec asks for, what the client
writes after the URL was joined, printed and parsed again, and what the server reads of it. A
blank or a line feed ends the target early, and nothing else changes it. -/
namespace TestForge

open Sequence Strings Chunked HttpClient HttpServer

/-- Path and query of a target, not decoded. -/
def targetParts (target : Bytes) : Bytes × Bytes := (cut 63 target).getD (target,[])

/-- The target a spec asks for below a base URL. -/
def TestSpec.target (home : Url) (spec : TestSpec) : Bytes :=
  home.path.rdropWhile (· == 47) ++ spec.endpoint.takeWhile (· ≠ 35)

/-- Ends a target in the request line. -/
def endsTarget (c : UInt8) : Prop := c = 32 ∨ c = 10

instance (c : UInt8) : Decidable (endsTarget c) := inferInstanceAs (Decidable (_ ∨ _))

/-! ### Decoding a shortened target -/

theorem urlDecode_cons (c : UInt8) (rest : Bytes) (plus : c ≠ 43) (percent : c ≠ 37) :
    urlDecode (c :: rest) = c :: urlDecode rest := by
  rw [urlDecode.eq_4]
  · exact plus
  · exact fun _ _ _ equal => absurd equal percent

theorem urlDecode_plus (rest : Bytes) : urlDecode (43 :: rest) = 32 :: urlDecode rest := rfl

theorem urlDecode_percent (a b : UInt8) (rest : Bytes) : urlDecode (37 :: a :: b :: rest) =
    match hexValue a,hexValue b with
    | some high,some low => UInt8.ofNat (16 * high + low) :: urlDecode rest
    | _,_ => 37 :: urlDecode (a :: b :: rest) := rfl

theorem urlDecode_ne_nil (c : UInt8) (rest : Bytes) : urlDecode (c :: rest) ≠ [] := by
  by_cases plus : c = 43
  · subst plus
    exact List.cons_ne_nil _ _
  · by_cases percent : c = 37
    · subst percent
      match rest with
      | [] => exact List.cons_ne_nil _ _
      | [a] => exact List.cons_ne_nil _ _
      | a :: b :: more =>
        rw [urlDecode_percent]
        split
        · exact List.cons_ne_nil _ _
        · exact List.cons_ne_nil _ _
    · rw [urlDecode_cons c rest plus percent]
      exact List.cons_ne_nil _ _

theorem urlDecode_literal (rest : Bytes) (other : ∀ a b more high low, rest = a :: b :: more →
    hexValue a = some high → hexValue b = some low → False) : urlDecode (37 :: rest) = 37 :: urlDecode rest := by
  match rest,other with
  | [],_ => rfl
  | [a],_ => rfl
  | a :: b :: more,other =>
    rw [urlDecode_percent]
    split
    · next high low first second => exact (other a b more high low rfl first second).elim
    · rfl

/-- A byte that belongs to no escape stays where it is. -/
theorem urlDecode_mark (c : UInt8) (before after : Bytes) (plus : c ≠ 43) (percent : c ≠ 37) (digit : hexValue c = none) :
    urlDecode (before ++ c :: after) = urlDecode before ++ c :: urlDecode after := by
  have mark := urlDecode_cons c after plus percent
  induction before using urlDecode.induct with
  | case1 => exact mark
  | case2 rest ih => simpa only [List.cons_append,urlDecode_plus,List.cons.injEq,true_and] using ih
  | case3 a b rest high low first second ih =>
    simp only [List.cons_append,urlDecode_percent,first,second,ih]
  | case4 a b rest other ih =>
    have literal (more : Bytes) : urlDecode (37 :: a :: b :: more) = 37 :: urlDecode (a :: b :: more) := by
      refine urlDecode_literal _ fun x y _ high low same first second => ?_
      obtain ⟨rfl,rfl,-⟩ := by simpa using same
      exact other high low first second
    simp only [List.cons_append] at ih ⊢
    rw [literal,literal,ih,List.cons_append]
  | case5 x rest plus' percent' ih =>
    by_cases escape : x = 37
    · subst escape
      have short : rest = [] ∨ ∃ y, rest = [y] := by
        match rest,percent' with
        | [],_ => exact .inl rfl
        | [y],_ => exact .inr ⟨y,rfl⟩
        | y :: z :: more,percent' => exact (percent' y z more rfl rfl).elim
      rw [List.cons_append,urlDecode_literal rest,urlDecode_literal (rest ++ c :: after),ih,List.cons_append]
      · rintro a b more high low same first second
        rcases short with rfl | ⟨y,rfl⟩
        · obtain ⟨rfl,-⟩ := by simpa using same
          cases digit.symm.trans first
        · obtain ⟨-,rfl,-⟩ := by simpa using same
          cases digit.symm.trans second
      · rintro a b more high low same first second
        exact percent' a b more rfl same
    · simp only [List.cons_append,urlDecode_cons x _ plus' escape,ih]

theorem urlDecode_single (c : UInt8) : urlDecode [c] = [if c = 43 then 32 else c] := by
  by_cases plus : c = 43
  · subst plus
    rfl
  · rw [if_neg plus]
    by_cases percent : c = 37
    · subst percent
      exact urlDecode_literal [] (by simp)
    · exact urlDecode_cons c [] plus percent

/-- A percent sign with one byte behind it stands for itself until a second digit follows. -/
theorem urlDecode_open (c y : UInt8) (hidden after : Bytes) (fresh : c ≠ y) :
    urlDecode [37,y] ≠ urlDecode (37 :: y :: hidden) ++ c :: after := by
  intro same
  rw [urlDecode_literal [y] (by simp),urlDecode_single] at same
  have length := congrArg List.length same
  simp only [List.length_cons,List.length_nil,List.length_append] at length
  cases hidden with
  | nil =>
    rw [urlDecode_literal [y] (by simp),urlDecode_single] at length
    simp at length
  | cons z more =>
    obtain ⟨u,tail,shape⟩ := List.exists_cons_of_ne_nil (urlDecode_ne_nil y (z :: more))
    cases first : hexValue y with
    | none =>
      rw [urlDecode_percent,first,shape] at length
      simp at length
      omega
    | some high =>
      cases second : hexValue z with
      | none =>
        rw [urlDecode_percent,first,second,shape] at length
        simp at length
        omega
      | some low =>
        rw [urlDecode_percent,first,second] at same length
        have empty : urlDecode more = [] := by
          simp at length
          exact List.eq_nil_of_length_eq_zero (by omega)
        have digit : y ≠ 43 := by
          rintro rfl
          cases first
        rw [empty,if_neg digit] at same
        simp only [List.cons_append,List.nil_append,List.cons.injEq] at same
        exact fresh same.2.1.symm

/-- A text decodes to something else than a longer one with a byte of its own behind it. -/
theorem urlDecode_short (c : UInt8) (shown hidden after : Bytes) (fresh : c ∉ shown) :
    urlDecode shown ≠ urlDecode (shown ++ hidden) ++ c :: after := by
  induction shown using urlDecode.induct with
  | case1 => exact (List.append_ne_nil_of_right_ne_nil _ (List.cons_ne_nil _ _)).symm
  | case2 rest ih =>
    have later := ih fun member => fresh (by simp [member])
    simpa only [List.cons_append,urlDecode_plus,ne_eq,List.cons.injEq,true_and] using later
  | case3 a b rest high low first second ih =>
    have later := ih fun member => fresh (by simp [member])
    simpa only [List.cons_append,urlDecode_percent,first,second,ne_eq,List.cons.injEq,true_and] using later
  | case4 a b rest other ih =>
    have later := ih fun member => fresh (by simp at member ⊢; tauto)
    have literal (more : Bytes) : urlDecode (37 :: a :: b :: more) = 37 :: urlDecode (a :: b :: more) := by
      refine urlDecode_literal _ fun x y _ high low same first second => ?_
      obtain ⟨rfl,rfl,-⟩ := by simpa using same
      exact other high low first second
    simp only [List.cons_append] at later ⊢
    rw [literal,literal]
    simpa only [List.cons_append,ne_eq,List.cons.injEq,true_and] using later
  | case5 x rest plus percent ih =>
    by_cases escape : x = 37
    · subst escape
      match rest,percent with
      | [],_ =>
        intro same
        obtain ⟨y,more,shape⟩ := List.exists_cons_of_ne_nil (urlDecode_ne_nil 37 hidden)
        rw [List.cons_append,List.nil_append,shape] at same
        simpa [urlDecode_single] using congrArg List.length same
      | [y],_ => exact urlDecode_open c y hidden after fun equal => fresh (by simp [equal])
      | y :: z :: more,percent => exact (percent y z more rfl rfl).elim
    · have later := ih fun member => fresh (by simp [member])
      simpa only [List.cons_append,urlDecode_cons x _ plus escape,ne_eq,List.cons.injEq,true_and] using later

/-! ### Path and query of a shortened target -/

theorem targetParts_marked (path query : Bytes) (fresh : 63 ∉ path) : targetParts (path ++ 63 :: query) = (path,query) := by
  rw [targetParts,cut_append 63 path query fresh]
  rfl

theorem targetParts_plain (target : Bytes) (fresh : 63 ∉ target) : targetParts target = (target,[]) := by
  rw [targetParts,(cut_eq_none 63 target).mpr fresh]
  rfl

theorem targetParts_cases (target : Bytes) : 63 ∉ target ∨ ∃ path query, target = path ++ 63 :: query ∧ 63 ∉ path := by
  cases found : cut 63 target with
  | none => exact .inl ((cut_eq_none 63 target).mp found)
  | some parts => exact .inr ⟨parts.1,parts.2,(cut_eq_some 63 target _ _).mp found⟩

theorem targetParts_append (before after : Bytes) (fresh : 63 ∉ before) :
    targetParts (before ++ after) = (before ++ (targetParts after).1,(targetParts after).2) := by
  rcases targetParts_cases after with plain | ⟨path,query,rfl,free⟩
  · rw [targetParts_plain after plain,targetParts_plain _ (by simp [fresh,plain])]
  · rw [targetParts_marked path query free,← List.append_assoc,targetParts_marked _ query (by simp [fresh,free])]

/-- The query of a beginning is no longer than that of the whole. -/
theorem targetParts_prefix (seen path query : Bytes) (fresh : 63 ∉ path) (pre : seen <+: path ++ 63 :: query) :
    (targetParts seen).2.length ≤ query.length := by
  rcases targetParts_cases seen with plain | ⟨before,after,rfl,free⟩
  · rw [targetParts_plain seen plain]
    exact Nat.zero_le _
  · obtain ⟨rest,same⟩ := pre
    have parts := congrArg targetParts same
    rw [List.append_assoc,List.cons_append,targetParts_marked _ _ free,targetParts_marked _ _ fresh,Prod.mk.injEq] at parts
    rw [targetParts_marked _ _ free,← parts.2]
    simp

/-- Whoever reads no further than a blank or a line feed sees another path or another query. -/
theorem targetParts_apart (c : UInt8) (seen shown tail : Bytes) (ends : endsTarget c) (fresh : c ∉ shown)
    (pre : seen <+: shown) : ¬(urlDecode (targetParts seen).1 = urlDecode (targetParts (shown ++ c :: tail)).1 ∧
      (targetParts seen).2 = (targetParts (shown ++ c :: tail)).2) := by
  rintro ⟨path,query⟩
  rcases targetParts_cases shown with plain | ⟨before,after,rfl,free⟩
  · obtain ⟨hidden,rfl⟩ := pre
    have mark : c ≠ 63 ∧ c ≠ 43 ∧ c ≠ 37 ∧ hexValue c = none := by
      rcases ends with rfl | rfl <;> decide
    have whole : seen ++ hidden ++ c :: tail = (seen ++ hidden ++ [c]) ++ tail := by simp
    rw [targetParts_plain seen fun member => plain (by simp [member]),whole,
      targetParts_append _ tail (by simp at plain ⊢; tauto)] at path
    simp only [List.append_assoc,List.singleton_append] at path
    rw [← List.append_assoc,urlDecode_mark c (seen ++ hidden) _ mark.2.1 mark.2.2.1 mark.2.2.2] at path
    exact urlDecode_short c seen hidden _ (fun member => fresh (by simp [member])) path
  · have short := targetParts_prefix seen before after free pre
    rw [List.append_assoc,List.cons_append,targetParts_marked before _ free] at query
    rw [query] at short
    simp at short

/-! ### The target that is written -/

/-- A target as its two parts are printed: an empty query leaves no mark. -/
def printed (target : Bytes) : Bytes :=
  (targetParts target).1 ++ if (targetParts target).2 = [] then [] else 63 :: (targetParts target).2

theorem printed_or (target : Bytes) : printed target = target ∨ printed target ++ [63] = target := by
  unfold printed
  rcases targetParts_cases target with plain | ⟨path,query,rfl,free⟩
  · rw [targetParts_plain target plain]
    simp
  · rw [targetParts_marked path query free]
    by_cases empty : query = []
    · simp [empty]
    · simp [empty]

theorem printed_begins (target : Bytes) : printed target <+: target := by
  rcases printed_or target with same | marked
  · rw [same]
  · exact ⟨[63],marked⟩

theorem targetParts_printed (target : Bytes) : targetParts (printed target) = targetParts target := by
  unfold printed
  rcases targetParts_cases target with plain | ⟨path,query,rfl,free⟩
  · rw [targetParts_plain target plain]
    simp [targetParts_plain target plain]
  · rw [targetParts_marked path query free]
    by_cases empty : query = []
    · simp [empty,targetParts_plain path free]
    · simp only [empty,if_false]
      exact targetParts_marked path query free

theorem toString_printed (home : Url) (basePath target : Bytes) (named : (targetParts target).1 ≠ []) :
    ({ home with path := basePath ++ (targetParts target).1, query := (targetParts target).2, fragment := [] } : Url).toString =
      home.scheme ++ ascii "://" ++ (home.authority ++ (basePath ++ printed target)) := by
  rw [Url.toString_eq]
  have authority : ({ home with
      path := basePath ++ (targetParts target).1, query := (targetParts target).2, fragment := [] } : Url).authority =
        home.authority := rfl
  rw [authority]
  by_cases empty : (targetParts target).2 = []
  · simp [Url.requestTarget,Url.fragmentPart,printed,named,empty]
  · simp [Url.requestTarget,Url.fragmentPart,printed,named,empty]

theorem targetParts_rooted (rest : Bytes) : ∃ below, (targetParts (47 :: rest)).1 = 47 :: below := by
  have parts := targetParts_append [47] rest (by decide)
  rw [List.singleton_append] at parts
  exact ⟨(targetParts rest).1,by rw [parts]; rfl⟩

/-- An endpoint that begins with one '/' is printed below the base path. -/
theorem joinUrl_printed (base endpoint joined : Bytes) (rooted : endpoint.head? = some 47)
    (result : joinUrl base endpoint = some joined) : ∃ home, parseUrl base = some home ∧
      joined = home.scheme ++ ascii "://" ++ (home.authority ++ (home.path.rdropWhile (· == 47) ++ printed endpoint)) := by
  obtain ⟨rest,rfl⟩ := List.head?_eq_some_iff.mp rooted
  unfold joinUrl at result
  split at result
  · contradiction
  split at result
  · next web => simp [startsWith,ascii] at web
  split at result
  · contradiction
  next home parsed =>
    obtain ⟨below,path⟩ := targetParts_rooted rest
    refine ⟨home,parsed,?_⟩
    rw [← toString_printed home _ (47 :: rest) (by simp [path]),← Option.some.inj result]
    rfl

/-- What a URL is read back as from a text below a base path. -/
theorem parseUrl_below (home url : Url) (valid : home.WellFormed) (text : Bytes) (target hash fragment : Bytes)
    (rooted : target.head? = some 47) (fresh : 35 ∉ target)
    (marked : hash = 35 :: fragment ∨ (hash = [] ∧ fragment = []))
    (trimmed : trim text = home.scheme ++ ascii "://" ++ (home.authority ++ target ++ hash))
    (parsed : parseUrl text = some url) : (url.path,url.query) = targetParts target := by
  obtain ⟨slash,sharp⟩ := authority_plain home valid
  rw [parseUrl_parts valid.schemeNamed valid.schemeChars valid.schemeLowered slash sharp rooted fresh marked trimmed]
    at parsed
  obtain ⟨⟨host,port⟩,_,parsed⟩ := Option.bind_eq_some_iff.mp parsed
  dsimp only at parsed
  split at parsed
  · cases parsed
  · cases parsed
    rfl

theorem mem_takeWhile_ne (c : UInt8) (text : Bytes) : c ∉ text.takeWhile (· ≠ c) := by
  intro member
  simpa using List.mem_takeWhile_imp member

theorem printed_hash (endpoint : Bytes) (marked : 35 ∈ endpoint) :
    ∃ more, printed endpoint = endpoint.takeWhile (· ≠ 35) ++ 35 :: more := by
  obtain ⟨behind,whole⟩ : ∃ behind, endpoint = endpoint.takeWhile (· ≠ 35) ++ 35 :: behind := by
    cases found : cut 35 endpoint with
    | none => exact absurd marked ((cut_eq_none 35 endpoint).mp found)
    | some parts =>
      obtain ⟨split,fresh⟩ := (cut_eq_some 35 endpoint _ _).mp found
      refine ⟨parts.2,?_⟩
      have front : endpoint.takeWhile (· ≠ 35) = parts.1 := by
        rw [split,List.takeWhile_append_of_pos (by simpa using fun c member => ne_of_mem_of_not_mem member fresh)]
        simp
      rw [front]
      exact split
  rcases printed_or endpoint with same | lone
  · exact ⟨behind,by rw [same]; exact whole⟩
  · cases behind using List.reverseRecOn with
    | nil =>
      have last := congrArg List.getLast? (lone.trans whole)
      simp at last
    | append_singleton more c _ =>
      have cuts := lone.trans whole
      rw [← List.cons_append,← List.append_assoc] at cuts
      exact ⟨more,(List.append_inj' cuts rfl).1⟩

/-- Trimming a URL text keeps everything up to a visible byte of it. -/
theorem trim_behind (home : Url) (valid : home.WellFormed) (before after : Bytes) (c : UInt8) (visible : isSpace c = false) :
    ∃ kept, trim (home.scheme ++ before ++ c :: after) = home.scheme ++ before ++ c :: kept ∧ kept <+: after ∧
      ((∀ d ∈ (c :: after).getLast?, isSpace d = false) → kept = after) := by
  obtain ⟨kept,dropped,pre⟩ := rdropWhile_append_visible (home.scheme ++ before) after c visible
  obtain ⟨d,rest,named⟩ := List.exists_cons_of_ne_nil valid.schemeNamed
  have front := (schemeChar_visible d (valid.schemeChars d (by simp [named]))).1
  have trimmed : trim (home.scheme ++ before ++ c :: after) = home.scheme ++ before ++ c :: kept := by
    rw [named] at dropped ⊢
    simp only [List.cons_append,List.append_assoc] at dropped ⊢
    rw [trim_of_head d _ front,dropped]
  refine ⟨kept,trimmed,pre,fun last => ?_⟩
  have whole : trim (home.scheme ++ before ++ c :: after) = home.scheme ++ before ++ c :: after := by
    refine trim_of_ends _ (fun x first => ?_) fun x final => last x ?_
    · rw [named] at first
      obtain rfl : d = x := by simpa using first
      exact front
    · simpa [List.getLast?_append] using final
  have same := trimmed.symm.trans whole
  simpa using same

theorem isSpace_of_clean {text : Bytes} {c : UInt8} (clean : SpecValidator.hasControlCharacter text = false)
    (member : c ∈ text) (other : c ≠ 32) : isSpace c = false := by
  have control : SpecValidator.isControl c = false := by
    simpa using List.any_eq_false.mp clean c member
  simp only [SpecValidator.isControl,Bool.or_eq_false_iff,decide_eq_false_iff_not] at control
  simp only [isSpace,Bool.or_eq_false_iff,beq_eq_false_iff_ne,Bool.and_eq_false_iff,decide_eq_false_iff_not]
  refine ⟨other,.inr ?_⟩
  have high := control.1
  simp only [UInt8.not_lt,UInt8.le_iff_toNat_le] at high ⊢
  simp at high ⊢
  omega

/-- Where the first request of a spec goes, against where the spec says: what is missing at the
end are blanks, or the mark of an empty query. -/
theorem joined_target (home url : Url) (valid : home.WellFormed) (endpoint : Bytes) (rooted : endpoint.head? = some 47)
    (clean : SpecValidator.hasControlCharacter endpoint = false)
    (parsed : parseUrl (home.scheme ++ ascii "://" ++
      (home.authority ++ (home.path.rdropWhile (· == 47) ++ printed endpoint))) = some url) :
    ∃ target, target <+: home.path.rdropWhile (· == 47) ++ endpoint.takeWhile (· ≠ 35) ∧
      (url.path,url.query) = targetParts target ∧
        (32 ∉ home.path.rdropWhile (· == 47) ++ endpoint.takeWhile (· ≠ 35) → targetParts target =
          targetParts (home.path.rdropWhile (· == 47) ++ endpoint.takeWhile (· ≠ 35))) := by
  have base : home.path.rdropWhile (· == 47) <+: home.path := List.rdropWhile_prefix _ _
  have baseHash : 35 ∉ home.path.rdropWhile (· == 47) := fun member => valid.pathFragment (base.subset member)
  have baseMark : 63 ∉ home.path.rdropWhile (· == 47) := fun member => valid.pathQuery (base.subset member)
  obtain ⟨rest,rfl⟩ := List.head?_eq_some_iff.mp rooted
  by_cases marked : 35 ∈ (47 :: rest : Bytes)
  · obtain ⟨more,shape⟩ := printed_hash (47 :: rest) marked
    obtain ⟨kept,trimmed,-,-⟩ := trim_behind home valid (ascii "://" ++ (home.authority ++
      (home.path.rdropWhile (· == 47) ++ (47 :: rest).takeWhile (· ≠ 35)))) more 35 (by decide)
    refine ⟨_,List.prefix_rfl,?_,fun _ => rfl⟩
    refine parseUrl_below home url valid _ _ (35 :: kept) kept (valid.base_rooted base _) ?_ (.inl rfl) ?_ parsed
    · simp only [List.mem_append,not_or]
      exact ⟨baseHash,mem_takeWhile_ne 35 _⟩
    · rw [shape]
      simpa only [List.append_assoc] using trimmed
  · have whole : (47 :: rest : Bytes).takeWhile (· ≠ 35) = 47 :: rest :=
      List.takeWhile_eq_self_iff.mpr fun c member => by simpa using ne_of_mem_of_not_mem member marked
    obtain ⟨below,parts⟩ := targetParts_rooted rest
    obtain ⟨more,shape⟩ : ∃ more, printed (47 :: rest) = 47 :: more := ⟨_,by rw [printed,parts]; rfl⟩
    have part := printed_begins (47 :: rest)
    rw [shape] at part
    obtain ⟨kept,trimmed,pre,same⟩ := trim_behind home valid (ascii "://" ++ (home.authority ++
      home.path.rdropWhile (· == 47))) more 47 (by decide)
    have inside : 47 :: kept <+: 47 :: rest := ((List.prefix_cons_inj 47).mpr pre).trans part
    rw [whole]
    refine ⟨_,(List.prefix_append_right_inj _).mpr inside,?_,fun blank => ?_⟩
    · refine parseUrl_below home url valid _ _ [] [] (valid.base_rooted base kept) ?_ (.inr ⟨rfl,rfl⟩) ?_ parsed
      · simp only [List.mem_append,not_or]
        exact ⟨baseHash,fun member => marked (inside.subset member)⟩
      · rw [shape]
        simpa only [List.append_assoc,List.append_nil] using trimmed
    · have visible (c : UInt8) (member : c ∈ (47 :: rest : Bytes)) : isSpace c = false :=
        isSpace_of_clean clean member fun equal => blank (by simp [equal ▸ member])
      rw [same fun d last => visible d (part.subset (List.mem_of_getLast? last)),← shape,
        targetParts_append _ _ baseMark,targetParts_append _ _ baseMark,targetParts_printed]

end TestForge
