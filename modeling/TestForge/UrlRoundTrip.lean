import TestForge.UrlRejoin

/-! A parsed URL, serialised and parsed again. -/
namespace TestForge

open Sequence Strings

/-- The text of a URL taken apart: everything the parser looks at, but the authority. -/
theorem parseUrl_parts {text scheme authority target hash fragment : Bytes} (schemeNamed : scheme ≠ [])
    (schemeChars : ∀ c ∈ scheme, schemeChar c = true) (schemeLowered : toLower scheme = scheme)
    (authoritySlash : 47 ∉ authority) (authorityHash : 35 ∉ authority) (rooted : target.head? = some 47)
    (targetHash : 35 ∉ target) (marked : hash = 35 :: fragment ∨ (hash = [] ∧ fragment = []))
    (trimmed : trim text = scheme ++ ascii "://" ++ (authority ++ target ++ hash)) :
    parseUrl text = (parseAuthority (stripUserinfo authority)).bind fun (host,port) =>
      if host = [] then none
      else some {
        scheme
        host := toLower host
        port := if port = 0 then defaultPortFor scheme else port
        path := ((cut 63 target).getD (target,[])).1
        query := ((cut 63 target).getD (target,[])).2
        fragment } := by
  obtain ⟨tail,rfl⟩ := List.head?_eq_some_iff.mp rooted
  have cutHash : (cut 35 (authority ++ 47 :: tail ++ hash)).getD (authority ++ 47 :: tail ++ hash,[]) =
      (authority ++ 47 :: tail,fragment) := by
    have fresh : 35 ∉ authority ++ 47 :: tail := by simp_all
    rcases marked with rfl | ⟨rfl,rfl⟩
    · rw [cut_append 35 _ fragment fresh]
      rfl
    · rw [List.append_nil,(cut_eq_none 35 _).mpr fresh]
      rfl
  have cutSlash : splitPath (authority ++ 47 :: tail) = (authority,47 :: tail) := by
    simp [splitPath,cut_append 47 _ tail authoritySlash]
  have path : ((cut 63 (47 :: tail)).getD (47 :: tail,[])).1 ≠ [] := by
    have split := getD_cut_append 63 [47] tail (by decide)
    rw [List.singleton_append] at split
    simp [split]
  have accepted : ¬(scheme = [] ∨ scheme.all schemeChar = false ∨ authority ++ 47 :: tail ++ hash = []) := by
    simp [schemeNamed,List.all_eq_true.mpr schemeChars]
  unfold parseUrl
  rw [trimmed,cutOn_scheme _ _ schemeChars]
  dsimp only
  rw [schemeLowered,if_neg accepted,cutHash]
  dsimp only
  rw [cutSlash]
  dsimp only
  cases parseAuthority (stripUserinfo authority) with
  | none => rfl
  | some parts =>
    obtain ⟨host,port⟩ := parts
    dsimp only [Option.bind_some]
    rw [if_neg path]

theorem getD_cut_snd (c : UInt8) (text : Bytes) : ((cut c text).getD (text,[])).2 ⊆ text := by
  cases found : cut c text with
  | none => simp
  | some parts =>
    obtain ⟨split,-⟩ := (cut_eq_some c text parts.1 parts.2).mp found
    rw [split]
    intro x member
    simp [show x ∈ parts.2 from member]

/-- What `WellFormed` leaves out: where the query and the fragment come from. -/
theorem parseUrl_tail (text : Bytes) (url : Url) (parsed : parseUrl text = some url) :
    35 ∉ url.query ∧ ∀ c ∈ url.fragment.getLast?, isSpace c = false := by
  unfold parseUrl at parsed
  split at parsed
  · contradiction
  next rawScheme behind found =>
    dsimp only at parsed
    split at parsed
    · contradiction
    split at parsed
    · contradiction
    split at parsed
    · contradiction
    obtain rfl := Option.some.inj parsed
    dsimp only
    constructor
    · have fresh := getD_cut_fst 35 behind
      obtain ⟨tail,target,suffix⟩ := splitPath_snd ((cut 35 behind).getD (behind,[])).1
      intro member
      have inside := getD_cut_snd 63 _ member
      rw [target] at inside
      rcases List.mem_cons.mp inside with slash | inside
      · cases slash
      · rcases suffix with rfl | suffix
        · cases inside
        · exact fresh (suffix.subset (by simp [inside]))
    · intro c last
      cases hash : cut 35 behind with
      | none => simp [hash] at last
      | some parts =>
        rw [hash] at last
        obtain ⟨split,-⟩ := (cut_eq_some 35 behind parts.1 parts.2).mp hash
        refine (trim_ends text).2 c ?_
        rw [cutOn_split _ _ _ _ found,split]
        have ends : parts.2.getLast? = some c := last
        simp [List.getLast?_cons,ends]

/-! ### The serialised text -/

namespace Url

def fragmentPart (url : Url) : Bytes := if url.fragment = [] then [] else 35 :: url.fragment

theorem toString_eq (url : Url) : url.toString =
    url.scheme ++ ascii "://" ++ (url.authority ++ url.requestTarget ++ url.fragmentPart) := by
  unfold toString fragmentPart
  split <;> simp

variable {url : Url}

theorem WellFormed.requestTarget_eq (valid : url.WellFormed) :
    url.requestTarget = url.path ++ if url.query = [] then [] else 63 :: url.query := by
  have named : url.path ≠ [] := by
    intro empty
    simpa [empty] using valid.pathRooted
  simp only [requestTarget,if_neg named]
  split <;> simp

theorem WellFormed.target_rooted (valid : url.WellFormed) : url.requestTarget.head? = some 47 := by
  rw [valid.requestTarget_eq,List.head?_append,valid.pathRooted]
  rfl

theorem WellFormed.cut_target (valid : url.WellFormed) :
    (cut 63 url.requestTarget).getD (url.requestTarget,[]) = (url.path,url.query) := by
  rw [valid.requestTarget_eq]
  split
  · next empty => rw [List.append_nil,(cut_eq_none 63 _).mpr valid.pathQuery,empty]; rfl
  · rw [cut_append 63 _ _ valid.pathQuery]; rfl

theorem printed_length (target : Bytes) : (((cut 63 target).getD (target,[])).1 ++
    if ((cut 63 target).getD (target,[])).2 = [] then []
    else 63 :: ((cut 63 target).getD (target,[])).2).length ≤ target.length := by
  cases found : cut 63 target with
  | none => simp
  | some parts =>
    obtain ⟨split,-⟩ := (cut_eq_some 63 target parts.1 parts.2).mp found
    simp only [Option.getD_some]
    rw [split]
    split <;> simp

theorem WellFormed.authority_reparse (valid : url.WellFormed) (known : defaultPortFor url.scheme ≠ 0)
    (plain : url.Plain) : ∃ port, parseAuthority (stripUserinfo url.authority) = some (url.host,port) ∧
      (if port = 0 then defaultPortFor url.scheme else port) = url.port := by
  have positive := valid.portKnown known
  have digits : 64 ∉ decimal url.port ∧ 58 ∉ decimal url.port := by
    constructor
    · exact fun member => (digit_visible 64 (isDigit_decimal _ 64 member)).2.2.2.2.2.1 rfl
    · exact fun member => (digit_visible 58 (isDigit_decimal _ 58 member)).2.2.2.2.1 rfl
  have userinfo : 64 ∉ url.authority := by
    unfold authority
    split
    · exact plain.noUserinfo
    · simp [plain.noUserinfo,digits.1]
  have stripped : stripUserinfo url.authority = url.authority := by
    simp [stripUserinfo,(cut_eq_none 64 _).mpr userinfo]
  have front (tail : Bytes) : (url.host ++ tail).head? ≠ some 91 := by
    obtain ⟨c,more,equal⟩ := List.exists_cons_of_ne_nil valid.hostNamed
    have other := plain.unbracketed
    simpa [equal] using other
  rw [stripped,authority]
  split
  · next usual =>
    have port := usual.resolve_left (by omega)
    have colon : 58 ∉ url.host := fun member => plain.portShown member port
    have unbracketed := front []
    rw [List.append_nil] at unbracketed
    rw [parseAuthority_plain _ valid.hostNamed unbracketed,(cutLast_eq_none 58 _).mpr colon]
    exact ⟨0,rfl,by simp [port]⟩
  · rw [parseAuthority_plain _ (by simp [valid.hostNamed]) (front _),cutLast_append 58 _ _ digits.2]
    dsimp only
    rw [parsePort_decimal _ positive valid.portSmall]
    exact ⟨url.port,rfl,if_neg (by omega)⟩

/-- Nothing is trimmed off the text: a fragment closes it, or a visible byte. -/
def Closed (url : Url) : Prop := url.fragment = [] → ∀ c ∈ url.requestTarget.getLast?, isSpace c = false

theorem WellFormed.trim_toString (valid : url.WellFormed) (closing : ∀ c ∈ url.fragment.getLast?, isSpace c = false)
    (closed : url.Closed) : trim url.toString = url.toString := by
  have printed := url.toString_eq
  apply trim_of_ends
  · intro c first
    obtain ⟨d,more,named⟩ := List.exists_cons_of_ne_nil valid.schemeNamed
    rw [printed,named] at first
    obtain rfl : d = c := by simpa using first
    exact (schemeChar_visible d (valid.schemeChars d (by simp [named]))).1
  · intro c last
    obtain ⟨tail,rooted⟩ := List.head?_eq_some_iff.mp valid.target_rooted
    rw [printed,fragmentPart] at last
    by_cases empty : url.fragment = []
    · refine closed empty c ?_
      rw [rooted] at last ⊢
      simpa [empty] using last
    · rw [if_neg empty] at last
      cases ends : url.fragment.getLast? with
      | none => exact absurd (List.getLast?_eq_none_iff.mp ends) empty
      | some d =>
        obtain rfl : d = c := by simpa [List.getLast?_cons,ends] using last
        exact closing d ends

/-- What is left of the text once its end is trimmed: the target may have lost blanks. -/
theorem WellFormed.trim_kept (valid : url.WellFormed) (closing : ∀ c ∈ url.fragment.getLast?, isSpace c = false) :
    ∃ target, target.head? = some 47 ∧ target <+: url.requestTarget ∧
      trim url.toString = url.scheme ++ ascii "://" ++ (url.authority ++ target ++ url.fragmentPart) := by
  by_cases empty : url.fragment = []
  · obtain ⟨more,rooted⟩ := List.head?_eq_some_iff.mp valid.target_rooted
    obtain ⟨kept,dropped,pre⟩ := rdropWhile_append_visible (url.scheme ++ ascii "://" ++ url.authority) more 47 (by decide)
    refine ⟨47 :: kept,rfl,by rw [rooted]; exact List.cons_prefix_cons.mpr ⟨rfl,pre⟩,?_⟩
    obtain ⟨c,rest,named⟩ := List.exists_cons_of_ne_nil valid.schemeNamed
    have visible := (schemeChar_visible c (valid.schemeChars c (by simp [named]))).1
    rw [url.toString_eq,rooted,fragmentPart,if_pos empty]
    simp only [named,List.cons_append,List.append_assoc,List.append_nil] at dropped ⊢
    rw [trim_of_head c _ visible,dropped]
  · refine ⟨url.requestTarget,valid.target_rooted,List.prefix_rfl,?_⟩
    rw [valid.trim_toString closing fun none => absurd none empty,url.toString_eq]

end Url

/-- A parsed URL with an http scheme is given back by its text exactly when its
authority is plain and nothing at the end of the text is trimmed. -/
theorem url_restored_iff (text : Bytes) (url : Url) (parsed : parseUrl text = some url)
    (scheme : url.scheme = ascii "http" ∨ url.scheme = ascii "https") :
    parseUrl url.toString = some url ↔ url.Plain ∧ url.Closed := by
  have valid := parseUrl_wellFormed text url parsed
  obtain ⟨queryHash,closing⟩ := parseUrl_tail text url parsed
  have known : defaultPortFor url.scheme ≠ 0 := by rcases scheme with same | same <;> rw [same] <;> decide
  obtain ⟨authoritySlash,authorityHash⟩ := authority_plain url valid
  have targetHash : 35 ∉ url.requestTarget := by
    rw [valid.requestTarget_eq]
    split <;> simp [valid.pathFragment,queryHash]
  have marked : url.fragmentPart = 35 :: url.fragment ∨ (url.fragmentPart = [] ∧ url.fragment = []) := by
    unfold Url.fragmentPart
    split
    · next empty => exact .inr ⟨rfl,empty⟩
    · exact .inl rfl
  have read {target : Bytes} (rooted : target.head? = some 47) (within : target ⊆ url.requestTarget)
      (trimmed : trim url.toString = url.scheme ++ ascii "://" ++ (url.authority ++ target ++ url.fragmentPart)) :=
    parseUrl_parts valid.schemeNamed valid.schemeChars valid.schemeLowered authoritySlash authorityHash rooted
      (fun member => targetHash (within member)) marked trimmed
  constructor
  · intro again
    obtain ⟨target,rooted,pre,trimmed⟩ := valid.trim_kept closing
    rw [read rooted pre.subset trimmed] at again
    obtain ⟨⟨host,port⟩,authority,again⟩ := Option.bind_eq_some_iff.mp again
    dsimp only at again
    split at again
    · contradiction
    next named =>
      have fields := Option.some.inj again
      obtain ⟨-,-,plain⟩ := reparse_authority url valid known host port authority (congrArg Url.host fields)
      refine ⟨plain,fun empty c last => ?_⟩
      have long := Url.printed_length target
      rw [show ((cut 63 target).getD (target,[])).1 = url.path from congrArg Url.path fields,
        show ((cut 63 target).getD (target,[])).2 = url.query from congrArg Url.query fields,
        ← valid.requestTarget_eq] at long
      rw [pre.eq_of_length_le long] at trimmed
      refine (trim_ends url.toString).2 c ?_
      obtain ⟨tail,whole⟩ := List.head?_eq_some_iff.mp valid.target_rooted
      rw [trimmed,Url.fragmentPart,if_pos empty,whole]
      rw [whole] at last
      simpa using last
  · rintro ⟨plain,closed⟩
    obtain ⟨port,authority,same⟩ := valid.authority_reparse known plain
    have trimmed := valid.trim_toString closing closed
    rw [read valid.target_rooted (List.Subset.refl _) (trimmed.trans url.toString_eq),authority,Option.bind_some]
    dsimp only
    rw [if_neg valid.hostNamed,valid.hostLowered,same,valid.cut_target]

/-- An IPv6 host with a port of its own, and a question mark in the query. -/
def sampleUrl : Url where
  scheme := ascii "http"
  host := ascii "::1"
  port := 9000
  path := ascii "/a b"
  query := ascii "x=1?"

theorem url_restored_iff_sample : parseUrl sampleUrl.toString = some sampleUrl ↔ sampleUrl.Plain ∧ sampleUrl.Closed :=
  url_restored_iff (ascii "http://[::1]:9000/a b?x=1?#") sampleUrl (by decide +kernel) (.inl rfl)

/-- An IPv6 host loses its brackets, and its last group becomes a port. -/
theorem loopback_redirected : ¬∀ (text : Bytes) (url : Url), parseUrl text = some url →
    url.scheme = ascii "http" ∨ url.scheme = ascii "https" → parseUrl url.toString = some url := by
  intro reparses
  have again := reparses (ascii "http://[::1]/health")
    { scheme := ascii "http", host := ascii "::1", port := 80, path := ascii "/health" } (by decide +kernel) (.inl rfl)
  revert again
  decide +kernel

end TestForge
