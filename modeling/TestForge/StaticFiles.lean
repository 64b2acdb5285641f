import TestForge.Sequence
import TestForge.ServerConnection

/-! Static files: the paths the server can open for a request lie inside the directory it
serves, however the request line encodes them. -/
namespace TestForge.HttpServer

open Sequence Strings HttpClient Settings LexicalPath

/-- What a path resolves to without a look at the file system. -/
def pathRules (path : Bytes) : Rules Bytes := ⟨ascii ".",ascii "..",path.head? = some 47⟩

def lexical (path : Bytes) : List Bytes := resolve (pathRules path) (pathSegments path)

/-- A path that consists of the directory, one '/', and a relative path that leads down. -/
structure Confined (directory relative path : Bytes) : Prop where
  joined : ∃ stem, path = stem ++ 47 :: relative ∧
    (directory = stem ++ [47] ∨ directory = stem ∧ stem.getLast? ≠ some 47)
  segments : ∀ segment ∈ split relative 47 false, segment ≠ ascii "." ∧ segment ≠ ascii ".."
  noNul : 0 ∉ relative
  noBackslash : 92 ∉ relative
  inside : ∃ names, names ≠ [] ∧ lexical path = lexical directory ++ names

theorem pathSegments_append (before after : Bytes) :
    pathSegments (before ++ 47 :: after) = pathSegments before ++ pathSegments after := by
  simp [pathSegments,split,List.splitOn_append_cons_self]

theorem pathSegments_ne_nil (path : Bytes) (nonempty : path ≠ []) (plain : path.head? ≠ some 47) :
    pathSegments path ≠ [] := by
  obtain ⟨c,rest,rfl⟩ := List.exists_cons_of_ne_nil nonempty
  cases found : cut 47 (c :: rest) with
  | none =>
    simp [pathSegments,split,List.splitOn_eq_singleton ((cut_eq_none _ _).mp found)]
  | some parts =>
    obtain ⟨whole,fresh⟩ := (cut_eq_some _ _ parts.1 parts.2).mp found
    have first : parts.1 ≠ [] := fun empty => by
      rw [empty,List.nil_append] at whole
      exact plain (by rw [whole]; rfl)
    simp [pathSegments,split,whole,List.splitOn_append_cons_self_of_not_mem fresh,first]

theorem isSafeRelativePath_iff (path : Bytes) : isSafeRelativePath path = true ↔
    (path ≠ [] ∧ path.head? ≠ some 47 ∧ 0 ∉ path ∧ 92 ∉ path) ∧
      ∀ segment ∈ pathSegments path, segment ≠ ascii "." ∧ segment ≠ ascii ".." := by
  rw [isSafeRelativePath]
  split
  · next refused => simp only [Bool.false_eq_true,false_iff]; tauto
  · next accepted =>
    simp only [not_or] at accepted
    simp [accepted,pathSegments,and_comm]

theorem confined_of_safe (directory relative : Bytes) (nonempty : directory ≠ [])
    (safe : isSafeRelativePath relative = true) : Confined directory relative
      ((if directory.getLast? = some 47 then directory else directory ++ [47]) ++ relative) := by
  obtain ⟨⟨something,bare,noNul,noBackslash⟩,names⟩ := (isSafeRelativePath_iff relative).mp safe
  obtain ⟨stem,whole,written⟩ : ∃ stem,
      (if directory.getLast? = some 47 then directory else directory ++ [47]) = stem ++ [47] ∧
        (directory = stem ++ [47] ∨ directory = stem ∧ stem.getLast? ≠ some 47) := by
    split
    · next last =>
      have split := List.dropLast_append_getLast? 47 last
      exact ⟨directory.dropLast,split.symm,.inl split.symm⟩
    · next last => exact ⟨directory,rfl,.inr ⟨rfl,last⟩⟩
  rw [whole,List.append_assoc,List.singleton_append]
  refine ⟨⟨stem,rfl,written⟩,fun segment member => ?_,noNul,noBackslash,pathSegments relative,
    pathSegments_ne_nil relative something bare,?_⟩
  · by_cases empty : segment = []
    · rw [empty]
      exact ⟨by decide,by decide⟩
    · exact names segment (by simpa [pathSegments,split,empty] using member)
  · have same : pathSegments directory = pathSegments stem := by
      rcases written with rfl | ⟨rfl,_⟩
      · rw [pathSegments_append]
        simp [pathSegments,split]
      · rfl
    have begins : (stem ++ 47 :: relative).head? = directory.head? := by
      cases stem with
      | nil =>
        rcases written with rfl | ⟨rfl,_⟩
        · rfl
        · exact absurd rfl nonempty
      | cons c stem => rcases written with rfl | ⟨rfl,_⟩ <;> rfl
    rw [lexical,lexical,pathRules,begins,pathSegments_append,same]
    exact resolve_append _ _ _ names

theorem staticTarget_confined (impl : Impl) (request : ServerRequest) (relative full : Bytes)
    (target : impl.staticTarget request = .file relative full) :
    Confined impl.staticDirectory relative full := by
  rw [Impl.staticTarget] at target
  split at target
  · cases target
  · next served =>
    simp only at target
    split at target
    · cases target
    · next safe =>
      obtain ⟨rfl,rfl⟩ := by simpa using target
      exact confined_of_safe _ _ (not_or.mp served).1 (by simpa using safe)

/-- The path that is opened on a connection, and the part of it that the request gave. -/
def Impl.opens (impl : Impl) (clientAddress : Bytes) (pieces : List Bytes) : Option (Bytes × Bytes) :=
  match receiveRequest impl.config clientAddress pieces with
  | .error _ => none
  | .ok request =>
    match impl.handler request,impl.staticTarget request.toServerRequest with
    | none,.file relative full => some (relative,full)
    | _,_ => none

theorem handleConnection_opens (impl : Impl) (files others : Files) (clientAddress : Bytes) (pieces : List Bytes)
    (agree : ∀ relative full, impl.opens clientAddress pieces = some (relative,full) → files full = others full) :
    impl.handleConnection files clientAddress pieces = impl.handleConnection others clientAddress pieces := by
  rw [Impl.handleConnection,Impl.handleConnection]
  rw [Impl.opens] at agree
  cases received : receiveRequest impl.config clientAddress pieces with
  | error refusal => rfl
  | ok request =>
    simp only [received] at agree ⊢
    rw [Impl.dispatch,Impl.dispatch]
    cases called : impl.handler request with
    | some call => rfl
    | none =>
      simp only [called] at agree ⊢
      have same : impl.serveStatic files request.toServerRequest = impl.serveStatic others request.toServerRequest := by
        rw [Impl.serveStatic,Impl.serveStatic]
        cases target : impl.staticTarget request.toServerRequest with
        | declined => rfl
        | invalid => rfl
        | file relative full => simp only [agree relative full (by simp only [target])]
      rw [same]

/-- Whatever a client sends, the one file that can have an influence on the answer lies inside
the served directory. -/
theorem static_confined (impl : Impl) (clientAddress : Bytes) (pieces : List Bytes) :
    (∀ relative full, impl.opens clientAddress pieces = some (relative,full) →
      Confined impl.staticDirectory relative full) ∧
    ∀ files others : Files, (∀ relative full, Confined impl.staticDirectory relative full →
      files full = others full) → impl.handleConnection files clientAddress pieces =
        impl.handleConnection others clientAddress pieces := by
  have confined : ∀ relative full, impl.opens clientAddress pieces = some (relative,full) →
      Confined impl.staticDirectory relative full := by
    intro relative full opened
    rw [Impl.opens] at opened
    split at opened
    · cases opened
    · split at opened
      · next target =>
        obtain ⟨rfl,rfl⟩ := by simpa using opened
        exact staticTarget_confined impl _ _ _ target
      · cases opened
  exact ⟨confined,fun files others agree => handleConnection_opens impl files others clientAddress pieces
    fun relative full opened => agree relative full (confined relative full opened)⟩

/-- An encoded step up is refused, and encoded letters are read before the check. -/
example : ({ staticDirectory := ascii "www" } : Impl).opens [] [ascii "GET /a/%2e%2E/b HTTP/1.1\r\n\r\n"] = none := by
  decide

example : ({ staticDirectory := ascii "www" } : Impl).opens [] [ascii "GET //%61//b+c HTTP/1.1\r\n\r\n"] =
    some (ascii "a//b c",ascii "www/a//b c") := by
  decide

end TestForge.HttpServer
