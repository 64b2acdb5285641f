import TestForge.QueryCodec
import TestForge.RequestTarget
import TestForge.StaticFiles

/-! Routing over every table that registrations can build. A path is decoded as a whole and split
behind that, so an id reaches its handler unless it holds a '/' of its own. -/
namespace TestForge.HttpServer

open Sequence Strings HttpClient

def Inbound.pathParameter (request : Inbound) (name : Bytes) : Bytes := (request.pathParameters.lookup name).getD []

/-- What a handler knows of the place a segment of its pattern stands for. -/
def Inbound.segment (request : Inbound) : Bytes → Bytes
  | 58 :: name => request.pathParameter name
  | literal => literal

/-- The arguments of one call of `route`. -/
structure Registration where
  method : Bytes
  pattern : Bytes
  handler : Handler

/-- A server with these routes and no others. -/
def Impl.serving (settings : Impl) (registrations : List Registration) : Impl :=
  registrations.foldl (fun impl entry => impl.route entry.method entry.pattern entry.handler) { settings with routes := [] }

/-- The path a request line names, not decoded. -/
def headPath (head : Bytes) : Option Bytes :=
  match splitLines head with
  | [] => none
  | first :: _ =>
    match split first 32 true with
    | _ :: target :: _ => some (targetParts target).1
    | _ => none

/-- The pattern matches, whatever it captures. -/
def accepts : List Bytes → List Bytes → Bool
  | [],[] => true
  | pattern :: patterns,segment :: segments => (pattern.head? == some 58 || pattern == segment) && accepts patterns segments
  | _,_ => false

/-- A later capture of the same name has another text in the id's place. -/
def Overwritten (segments values : List Bytes) (k : Nat) (id : Bytes) : Prop :=
  ∃ j, k < j ∧ segments[j]? = segments[k]? ∧ (∀ i, j < i → segments[i]? ≠ segments[k]?) ∧ values[j]? ≠ some id

/-- No route overwrites the id that is the first of its method to accept the segments. -/
def Impl.Keeps (impl : Impl) (method : Bytes) (values : List Bytes) (k : Nat) (id : Bytes) : Prop :=
  ∀ earlier route later, impl.routes = earlier ++ route :: later → route.method = method →
    accepts route.segments values → (∀ other ∈ earlier, other.method = method → accepts other.segments values = false) →
      ¬Overwritten route.segments values k id

/-- The request goes to the route of this method and pattern, or to one in front of it that
matches as well, and the id is what the handler finds in its place. -/
def Impl.Delivers (impl : Impl) (request : Inbound) (method : Bytes) (segments : List Bytes) (k : Nat) (id : Bytes) : Prop :=
  ∃ earlier own later, impl.routes = earlier ++ own :: later ∧ own.method = method ∧ own.segments = segments ∧
    ∃ route ∈ earlier ++ [own], ∃ asked, impl.match request.method request.path = .route route asked.pathParameters ∧
      impl.handler request = some (route.handler,asked) ∧ (route.segments[k]?).map asked.segment = some id

/-! ### The table -/

theorem map_modify_same {α β : Type} (shape : α → β) (change : α → α) (same : ∀ x, shape (change x) = shape x)
    (xs : List α) (i : Nat) : (xs.modify i change).map shape = xs.map shape := by
  apply List.ext_getElem?
  intro j
  rw [List.getElem?_map,List.getElem?_map,List.getElem?_modify]
  cases xs[j]? with
  | none => rfl
  | some x => by_cases here : i = j <;> simp [here,same]

def Route.shape (route : Route) : Bytes × List Bytes := (route.method,route.segments)

/-- A registration changes a handler or puts a route behind the others. -/
theorem route_shapes (impl : Impl) (method pattern : Bytes) (handler : Handler) :
    ((impl.route method pattern handler).routes.map Route.shape = impl.routes.map Route.shape ∧
      (toUpper method,pathSegments pattern) ∈ impl.routes.map Route.shape) ∨
    (impl.route method pattern handler).routes.map Route.shape =
      impl.routes.map Route.shape ++ [(toUpper method,pathSegments pattern)] := by
  simp only [Impl.route]
  split
  · next i found =>
    refine .inl ⟨map_modify_same Route.shape (fun route => { route with handler }) (fun _ => rfl) _ _,?_⟩
    obtain ⟨inside,same,-⟩ := List.findIdx?_eq_some_iff_getElem.mp found
    have shape : impl.routes[i].shape = (toUpper method,pathSegments pattern) := by
      simpa [Route.shape,Prod.ext_iff] using same
    exact List.mem_map.mpr ⟨_,List.getElem_mem inside,shape⟩
  · exact .inr (by simp [Route.shape])

theorem mem_foldl_route (registrations : List Registration) (impl : Impl) (shape : Bytes × List Bytes) :
    shape ∈ (registrations.foldl (fun impl entry => impl.route entry.method entry.pattern entry.handler) impl).routes.map
      Route.shape ↔ shape ∈ impl.routes.map Route.shape ∨
        ∃ entry ∈ registrations, shape = (toUpper entry.method,pathSegments entry.pattern) := by
  induction registrations generalizing impl with
  | nil => simp
  | cons entry registrations ih =>
    rw [List.foldl_cons,ih]
    rcases route_shapes impl entry.method entry.pattern entry.handler with ⟨same,listed⟩ | grown
    · rw [same]
      simp only [List.mem_cons,exists_eq_or_imp]
      constructor
      · tauto
      · rintro (there | rfl | later)
        · exact .inl there
        · exact .inl listed
        · exact .inr later
    · rw [grown]
      simp only [List.mem_append,List.mem_cons,List.not_mem_nil,or_false,exists_eq_or_imp]
      tauto

/-- The table holds exactly the methods and patterns that were registered. -/
theorem mem_serving (settings : Impl) (registrations : List Registration) (shape : Bytes × List Bytes) :
    shape ∈ (settings.serving registrations).routes.map Route.shape ↔
      ∃ entry ∈ registrations, shape = (toUpper entry.method,pathSegments entry.pattern) := by
  rw [Impl.serving,mem_foldl_route]
  simp

theorem pathSegments_fresh (path segment : Bytes) (member : segment ∈ pathSegments path) : 47 ∉ segment := by
  intro slash
  have part : segment ∈ path.splitOn 47 := List.mem_of_mem_filter member
  exact ((mem_parts_iff path 47 47).mp ⟨segment,part,slash⟩).2 rfl

theorem serving_fresh (settings : Impl) (registrations : List Registration) (route : Route)
    (member : route ∈ (settings.serving registrations).routes) (segment : Bytes) (inside : segment ∈ route.segments) :
    47 ∉ segment := by
  obtain ⟨entry,-,shape⟩ := (mem_serving settings registrations route.shape).mp (List.mem_map_of_mem member)
  have segments : route.segments = pathSegments entry.pattern := congrArg Prod.snd shape
  exact pathSegments_fresh entry.pattern segment (segments ▸ inside)

/-! ### One pattern -/

theorem capture_name (name segment : Bytes) (patterns segments : List Bytes) (captured : List (Bytes × Bytes)) :
    capture ((58 :: name) :: patterns) (segment :: segments) captured =
      capture patterns segments (assign captured name segment) := rfl

theorem capture_literal (pattern segment : Bytes) (patterns segments : List Bytes) (captured : List (Bytes × Bytes))
    (plain : pattern.head? ≠ some 58) : capture (pattern :: patterns) (segment :: segments) captured =
      if pattern = segment then capture patterns segments captured else none := by
  apply capture.eq_3
  rintro name rfl
  exact plain rfl

theorem name_or_literal (pattern : Bytes) : (∃ name, pattern = 58 :: name) ∨ pattern.head? ≠ some 58 := by
  by_cases first : pattern.head? = some 58
  · obtain ⟨name,whole⟩ := List.head?_eq_some_iff.mp first
    exact .inl ⟨name,whole⟩
  · exact .inr first

theorem capture_isSome (patterns segments : List Bytes) (captured : List (Bytes × Bytes)) :
    (capture patterns segments captured).isSome = accepts patterns segments := by
  induction patterns generalizing segments captured with
  | nil => cases segments <;> rfl
  | cons pattern patterns ih =>
    cases segments with
    | nil => simp [capture,accepts]
    | cons segment segments =>
      rcases name_or_literal pattern with ⟨name,rfl⟩ | plain
      · rw [capture_name,ih]
        simp [accepts]
      · rw [capture_literal _ _ _ _ _ plain]
        split
        · next same => simp [ih,accepts,same]
        · next other => simp [accepts,plain,other]

theorem accepts_append {front behind before after : List Bytes} (first : accepts front before = true)
    (second : accepts behind after = true) : accepts (front ++ behind) (before ++ after) = true := by
  induction front generalizing before with
  | nil =>
    cases before with
    | nil => exact second
    | cons segment before => cases first
  | cons pattern front ih =>
    cases before with
    | nil => cases first
    | cons segment before =>
      simp only [accepts,List.cons_append,Bool.and_eq_true] at first ⊢
      exact ⟨first.1,ih first.2⟩

theorem accepts_length {patterns segments : List Bytes} (accepted : accepts patterns segments = true) :
    segments.length = patterns.length := by
  induction patterns generalizing segments with
  | nil =>
    cases segments with
    | nil => rfl
    | cons segment segments => cases accepted
  | cons pattern patterns ih =>
    cases segments with
    | nil => cases accepted
    | cons segment segments =>
      simp only [accepts,Bool.and_eq_true] at accepted
      simp [ih accepted.2]

theorem accepts_literal {patterns segments : List Bytes} (accepted : accepts patterns segments = true) (i : Nat)
    (pattern : Bytes) (here : patterns[i]? = some pattern) (plain : pattern.head? ≠ some 58) :
    segments[i]? = some pattern := by
  induction patterns generalizing segments i with
  | nil => cases here
  | cons first patterns ih =>
    cases segments with
    | nil => cases accepted
    | cons segment segments =>
      simp only [accepts,Bool.and_eq_true] at accepted
      cases i with
      | zero =>
        obtain rfl : first = pattern := Option.some.inj here
        have same : first = segment := by simpa [plain] using accepted.1
        rw [same]
        rfl
      | succ i => exact ih accepted.2 i (by simpa using here)

theorem lookup_filter_key (captured : List (Bytes × Bytes)) (name other : Bytes) (apart : other ≠ name) :
    (captured.filter (·.1 ≠ name)).lookup other = captured.lookup other := by
  induction captured with
  | nil => rfl
  | cons pair captured ih =>
    obtain ⟨key,text⟩ := pair
    by_cases dropped : key = name
    · have passed : (other == key) = false := by simpa [dropped] using apart
      rw [List.filter_cons_of_neg (by simpa using dropped),ih,List.lookup_cons,passed]
    · rw [List.filter_cons_of_pos (by simpa using dropped),List.lookup_cons,List.lookup_cons,ih]

theorem lookup_assign (captured : List (Bytes × Bytes)) (name segment other : Bytes) :
    (assign captured name segment).lookup other = if other = name then some segment else captured.lookup other := by
  rw [assign,List.lookup_append,List.lookup_singleton]
  by_cases same : other = name
  · subst same
    have gone : (captured.filter (·.1 ≠ other)).lookup other = none := by
      rw [List.lookup_eq_none_iff]
      intro pair member
      have apart : pair.1 ≠ other := by simpa using (List.mem_filter.mp member).2
      simpa using apart.symm
    rw [gone,if_pos rfl,if_pos BEq.rfl,Option.none_or]
  · rw [lookup_filter_key captured name other same,if_neg same,if_neg (by simpa using same),Option.or_none]

theorem lookup_capture_fresh {patterns segments : List Bytes} {captured result : List (Bytes × Bytes)} (name : Bytes)
    (done : capture patterns segments captured = some result) (fresh : 58 :: name ∉ patterns) :
    result.lookup name = captured.lookup name := by
  induction patterns generalizing segments captured with
  | nil =>
    cases segments with
    | nil =>
      obtain rfl : captured = result := Option.some.inj done
      rfl
    | cons segment segments => cases done
  | cons pattern patterns ih =>
    obtain ⟨first,later⟩ := not_or.mp (List.mem_cons.not.mp fresh)
    cases segments with
    | nil => simp [capture] at done
    | cons segment segments =>
      rcases name_or_literal pattern with ⟨other,rfl⟩ | plain
      · rw [capture_name] at done
        rw [ih done later,lookup_assign,if_neg fun same => first (by rw [same])]
      · rw [capture_literal _ _ _ _ _ plain] at done
        split at done
        · exact ih done later
        · cases done

/-- A name keeps what its last capture has taken. -/
theorem lookup_capture_last {patterns segments : List Bytes} {captured result : List (Bytes × Bytes)} (name : Bytes)
    (done : capture patterns segments captured = some result) (j : Nat) (here : patterns[j]? = some (58 :: name))
    (last : ∀ i, j < i → patterns[i]? ≠ some (58 :: name)) : result.lookup name = segments[j]? := by
  induction patterns generalizing segments captured j with
  | nil => cases here
  | cons pattern patterns ih =>
    cases segments with
    | nil => simp [capture] at done
    | cons segment segments =>
      cases j with
      | zero =>
        obtain rfl : pattern = 58 :: name := by simpa using here
        have fresh : 58 :: name ∉ patterns := by
          intro later
          obtain ⟨i,found⟩ := List.mem_iff_getElem?.mp later
          exact last (i + 1) (by omega) (by simpa using found)
        rw [capture_name] at done
        rw [lookup_capture_fresh name done fresh,lookup_assign,if_pos rfl]
        rfl
      | succ j =>
        have behind : ∀ i, j < i → patterns[i]? ≠ some (58 :: name) := fun i after =>
          last (i + 1) (by omega)
        rcases name_or_literal pattern with ⟨other,rfl⟩ | plain
        · rw [capture_name] at done
          exact ih done j here behind
        · rw [capture_literal _ _ _ _ _ plain] at done
          split at done
          · exact ih done j here behind
          · cases done

theorem capture_values {patterns segments : List Bytes} {captured result : List (Bytes × Bytes)}
    (done : capture patterns segments captured = some result) (pair : Bytes × Bytes) (member : pair ∈ result) :
    pair ∈ captured ∨ pair.2 ∈ segments := by
  induction patterns generalizing segments captured with
  | nil =>
    cases segments with
    | nil =>
      obtain rfl : captured = result := Option.some.inj done
      exact .inl member
    | cons segment segments => cases done
  | cons pattern patterns ih =>
    cases segments with
    | nil => simp [capture] at done
    | cons segment segments =>
      rcases name_or_literal pattern with ⟨name,rfl⟩ | plain
      · rw [capture_name] at done
        rcases ih done with before | later
        · simp only [assign,List.mem_append,List.mem_filter,List.mem_singleton] at before
          rcases before with ⟨there,-⟩ | rfl
          · exact .inl there
          · exact .inr List.mem_cons_self
        · exact .inr (List.mem_cons_of_mem _ later)
      · rw [capture_literal _ _ _ _ _ plain] at done
        split at done
        · exact (ih done).imp_right (List.mem_cons_of_mem _)
        · cases done

theorem exists_last {segments : List Bytes} {k : Nat} {c : Bytes} (here : segments[k]? = some c) :
    ∃ j, k ≤ j ∧ segments[j]? = some c ∧ ∀ i, j < i → segments[i]? ≠ some c := by
  have inside : k ≤ segments.length := by
    have bound := (List.getElem?_eq_some_iff.mp here).1
    omega
  refine ⟨Nat.findGreatest (fun i => segments[i]? = some c) segments.length,Nat.le_findGreatest inside here,
    Nat.findGreatest_spec (P := fun i => segments[i]? = some c) inside here,?_⟩
  intro i later found
  have bound := (List.getElem?_eq_some_iff.mp found).1
  exact Nat.findGreatest_is_greatest later (by omega) found

theorem segment_literal (request : Inbound) (literal : Bytes) (plain : literal.head? ≠ some 58) :
    request.segment literal = literal := by
  apply Inbound.segment.eq_2
  rintro name rfl
  exact plain rfl

/-- A handler finds the id in its place when no later capture of that name has overwritten it. -/
theorem segment_eq_iff {patterns values : List Bytes} {asked : Inbound}
    (done : capture patterns values [] = some asked.pathParameters) (k : Nat) (pattern id : Bytes)
    (here : patterns[k]? = some pattern) (value : values[k]? = some id) :
    asked.segment pattern = id ↔ ¬Overwritten patterns values k id := by
  have accepted : accepts patterns values = true := by rw [← capture_isSome patterns values [],done]; rfl
  rcases name_or_literal pattern with ⟨name,rfl⟩ | plain
  · obtain ⟨j,after,same,last⟩ := exists_last here
    have taken := lookup_capture_last name done j same last
    obtain ⟨text,found⟩ : ∃ text, values[j]? = some text := by
      have bound := (List.getElem?_eq_some_iff.mp same).1
      exact ⟨_,List.getElem?_eq_getElem (by rw [accepts_length accepted]; exact bound)⟩
    have shown : asked.segment (58 :: name) = text := by
      rw [Inbound.segment,Inbound.pathParameter,taken,found]
      rfl
    rw [shown]
    constructor
    · rintro rfl ⟨i,-,again,final,other⟩
      have equal : i = j := by
        rw [here] at again final
        by_contra apart
        rcases Nat.lt_or_gt_of_ne apart with less | more
        · exact final j less same
        · exact last i more again
      exact other (equal ▸ found)
    · intro kept
      by_contra other
      rcases Nat.eq_or_lt_of_le after with rfl | later
      · exact other (Option.some.inj (found.symm.trans value))
      · refine kept ⟨j,later,same.trans here.symm,?_,?_⟩
        · rw [here]
          exact last
        · rw [found]
          simpa using other
  · have literal := accepts_literal accepted k pattern here plain
    have same : pattern = id := Option.some.inj (literal.symm.trans value)
    rw [segment_literal asked pattern plain]
    refine iff_of_true same ?_
    rintro ⟨j,-,again,-,other⟩
    have second := accepts_literal accepted j pattern (again.trans here) plain
    exact other (same ▸ second)

/-! ### The route of a request -/

def Impl.answers (method : Bytes) (values : List Bytes) (route : Route) : Bool :=
  accepts route.segments values && route.method == method

theorem fits_isSome (route : Route) (path : Bytes) :
    (route.fits path).isSome = accepts route.segments (pathSegments path) := capture_isSome _ _ _

/-- The first route in the table that accepts the path and is of the method. -/
theorem find_fitting (impl : Impl) (method path : Bytes) :
    (impl.routes.filterMap fun route => (route.fits path).map (route,·)).find? (·.1.method = method) =
      (impl.routes.find? (Impl.answers method (pathSegments path))).bind fun route => (route.fits path).map (route,·) := by
  rw [List.find?_filterMap]
  congr 2
  funext route
  have fitting := fits_isSome route path
  cases found : route.fits path with
  | none => simp [Impl.answers,← fitting,found]
  | some parameters => simp [Impl.answers,← fitting,found,Bool.beq_eq_decide_eq]

theorem match_route_iff (impl : Impl) (method path : Bytes) (route : Route) (parameters : List (Bytes × Bytes)) :
    impl.match method path = .route route parameters ↔
      impl.routes.find? (Impl.answers method (pathSegments path)) = some route ∧ route.fits path = some parameters := by
  simp only [Impl.match,find_fitting]
  cases found : impl.routes.find? (Impl.answers method (pathSegments path)) with
  | none =>
    simp only [Option.bind_none,reduceCtorEq,false_and,iff_false]
    split <;> simp
  | some first =>
    have accepted : (first.fits path).isSome := by
      have answers := List.find?_some found
      rw [fits_isSome]
      simp only [Impl.answers,Bool.and_eq_true] at answers
      exact answers.1
    obtain ⟨own,fitting⟩ := Option.isSome_iff_exists.mp accepted
    simp only [Option.bind_some,fitting,Option.map_some,Match.route.injEq,Option.some.injEq]
    constructor
    · rintro ⟨rfl,rfl⟩
      exact ⟨rfl,fitting⟩
    · rintro ⟨rfl,same⟩
      exact ⟨rfl,Option.some.inj (fitting.symm.trans same)⟩

theorem match_methodNotAllowed_iff (impl : Impl) (method path : Bytes) : impl.match method path = .methodNotAllowed ↔
    (∃ route ∈ impl.routes, (route.fits path).isSome ∧ route.method ≠ method) ∧
      ∀ route ∈ impl.routes, (route.fits path).isSome → route.method ≠ method := by
  simp only [Impl.match,find_fitting]
  cases found : impl.routes.find? (Impl.answers method (pathSegments path)) with
  | some first =>
    have answers := List.find?_some found
    simp only [Impl.answers,Bool.and_eq_true,beq_iff_eq] at answers
    have accepted : (first.fits path).isSome := by rw [fits_isSome]; exact answers.1
    obtain ⟨own,fitting⟩ := Option.isSome_iff_exists.mp accepted
    simp only [Option.bind_some,fitting,Option.map_some,reduceCtorEq,false_iff,not_and,not_forall]
    intro _
    exact ⟨first,List.mem_of_find?_eq_some found,accepted,not_not.mpr answers.2⟩
  | none =>
    have missed : ∀ route ∈ impl.routes, (route.fits path).isSome → route.method ≠ method := by
      intro route member fitting same
      refine List.find?_eq_none.mp found route member ?_
      rw [fits_isSome] at fitting
      simp [Impl.answers,fitting,same]
    rw [Option.bind_none]
    simp only [and_iff_left missed]
    split
    · next empty =>
      simp only [List.isEmpty_iff,List.filterMap_eq_nil_iff,Option.map_eq_none_iff] at empty
      simp only [reduceCtorEq,false_iff]
      rintro ⟨route,member,fitting,-⟩
      rw [empty route member] at fitting
      cases fitting
    · next some =>
      simp only [List.isEmpty_iff,List.filterMap_eq_nil_iff,Option.map_eq_none_iff,not_forall] at some
      obtain ⟨route,member,fitting⟩ := some
      have fits : (route.fits path).isSome := Option.isSome_iff_ne_none.mpr fitting
      exact iff_of_true rfl ⟨route,member,fits,missed route member fits⟩

theorem handler_of_match {impl : Impl} {request : Inbound} {route : Route} {parameters : List (Bytes × Bytes)}
    (matched : impl.match request.method request.path = .route route parameters) :
    impl.handler request = some (route.handler,{ request with pathParameters := parameters }) := by
  rw [Impl.handler,matched]

theorem keeps_iff (impl : Impl) (method : Bytes) (values : List Bytes) (k : Nat) (id : Bytes) :
    impl.Keeps method values k id ↔ ∀ route, impl.routes.find? (Impl.answers method values) = some route →
      ¬Overwritten route.segments values k id := by
  constructor
  · intro keeps route found
    obtain ⟨answers,earlier,later,table,passed⟩ := List.find?_eq_some_iff_append.mp found
    simp only [Impl.answers,Bool.and_eq_true,beq_iff_eq] at answers
    refine keeps earlier route later table answers.2 answers.1 ?_
    intro other member same
    simpa [Impl.answers,same] using passed other member
  · intro keeps earlier route later table same accepted passed
    apply keeps
    rw [List.find?_eq_some_iff_append]
    refine ⟨by simp [Impl.answers,accepted,same],earlier,later,table,?_⟩
    intro other member
    by_cases equal : other.method = method
    · simp [Impl.answers,passed other member equal]
    · simp [Impl.answers,equal]

/-! ### The path of a request -/

theorem urlDecode_urlEncode_append (text rest : Bytes) : urlDecode (urlEncode text ++ rest) = text ++ urlDecode rest := by
  induction text with
  | nil => rfl
  | cons c text ih =>
    rw [urlEncode,List.flatMap_cons,List.append_assoc,urlDecode_encodeByte,List.cons_append]
    exact congrArg (c :: ·) ih

theorem requestOf_path {head : Bytes} {request : ServerRequest} (asked : requestOf head = some request) {path : Bytes}
    (named : headPath head = some path) : request.path = urlDecode path := by
  rw [requestOf] at asked
  rw [headPath] at named
  cases lines : splitLines head with
  | nil =>
    simp only [lines] at named
    cases named
  | cons first others =>
    simp only [lines,parseRequestLine] at asked named
    split at asked
    · next word target rest words =>
      simp only [words,Option.some.injEq] at named
      simp only [Option.map_some,Option.some.injEq] at asked
      rw [← asked,← named]
      rfl
    · cases asked

theorem pathSegments_plain (text : Bytes) (nonempty : text ≠ []) (fresh : 47 ∉ text) : pathSegments text = [text] := by
  simp [pathSegments,split,List.splitOn_eq_singleton fresh,nonempty]

theorem urlDecode_slash (before after : Bytes) : urlDecode (before ++ 47 :: after) = urlDecode before ++ 47 :: urlDecode after :=
  urlDecode_mark 47 before after (by decide) (by decide) rfl

theorem pathSegments_below (rest : Bytes) : pathSegments (47 :: rest) = pathSegments rest :=
  pathSegments_append [] rest

/-- The segments that are matched when the id holds no '/'. -/
theorem pathSegments_path (before id after : Bytes) (nonempty : id ≠ []) (closed : after = [] ∨ after.head? = some 47)
    (fresh : 47 ∉ id) : pathSegments (urlDecode (before ++ 47 :: (urlEncode id ++ after))) =
      pathSegments (urlDecode before) ++ id :: pathSegments (urlDecode after) := by
  rw [urlDecode_slash,pathSegments_append,urlDecode_urlEncode_append]
  rcases closed with rfl | slash
  · rw [urlDecode,List.append_nil,pathSegments_plain id nonempty fresh]
    rfl
  · obtain ⟨rest,rfl⟩ := List.head?_eq_some_iff.mp slash
    rw [urlDecode_cons 47 rest (by decide) (by decide),pathSegments_append,pathSegments_plain id nonempty fresh,
      pathSegments_below]
    rfl

/-! ### Delivery -/

theorem segment_fresh {settings : Impl} {registrations : List Registration} {method path : Bytes} {route : Route}
    {asked : Inbound}
    (matched : (settings.serving registrations).match method path = .route route asked.pathParameters)
    (pattern : Bytes) (member : pattern ∈ route.segments) : 47 ∉ asked.segment pattern := by
  obtain ⟨found,fits⟩ := (match_route_iff _ _ _ _ _).mp matched
  rcases name_or_literal pattern with ⟨name,rfl⟩ | plain
  · rw [Inbound.segment,Inbound.pathParameter]
    cases taken : asked.pathParameters.lookup name with
    | none => exact List.not_mem_nil
    | some text =>
      obtain ⟨front,behind,whole,-⟩ := List.lookup_eq_some_iff.mp taken
      have inside : (name,text) ∈ asked.pathParameters := by simp [whole]
      exact pathSegments_fresh path _ ((capture_values fits _ inside).resolve_left List.not_mem_nil)
  · rw [segment_literal asked pattern plain]
    exact serving_fresh settings registrations route (List.mem_of_find?_eq_some found) pattern member

/-- Every registration has a route in the table. -/
theorem serving_registered (settings : Impl) (registrations : List Registration) (entry : Registration)
    (registered : entry ∈ registrations) : ∃ earlier own later,
      (settings.serving registrations).routes = earlier ++ own :: later ∧ own.method = toUpper entry.method ∧
        own.segments = pathSegments entry.pattern := by
  have listed := (mem_serving settings registrations (toUpper entry.method,pathSegments entry.pattern)).mpr
    ⟨entry,registered,rfl⟩
  obtain ⟨own,member,shape⟩ := List.mem_map.mp listed
  obtain ⟨earlier,later,table⟩ := List.append_of_mem member
  obtain ⟨method,segments⟩ := Prod.mk.inj shape
  exact ⟨earlier,own,later,table,method,segments⟩

/-- A request that the pattern accepts is handled by its route or by one in front of it. -/
theorem find_registered {impl : Impl} {earlier later : List Route} {own : Route}
    (table : impl.routes = earlier ++ own :: later) {values : List Bytes} (accepted : accepts own.segments values = true) :
    ∃ route ∈ earlier ++ [own], impl.routes.find? (Impl.answers own.method values) = some route := by
  have answers : Impl.answers own.method values own = true := by simp [Impl.answers,accepted]
  rw [table,List.find?_append,List.find?_cons_of_pos answers]
  cases found : earlier.find? (Impl.answers own.method values) with
  | none => exact ⟨own,by simp,rfl⟩
  | some route => exact ⟨route,List.mem_append_left _ (List.mem_of_find?_eq_some found),rfl⟩

theorem serveStatic_status {impl : Impl} {files : Files} {request : ServerRequest} {response : ServerResponse}
    (served : impl.serveStatic files request = some response) : response.status ≠ 405 := by
  rw [Impl.serveStatic] at served
  split at served
  · cases served
  · obtain rfl := Option.some.inj served
    exact (by decide : (400 : Int) ≠ 405)
  · obtain ⟨body,-,rfl⟩ := Option.map_eq_some_iff.mp served
    exact (by decide : (200 : Int) ≠ 405)

/-- A 405 that no handler has chosen itself names a method that the path is not registered for. -/
theorem dispatch_405 (impl : Impl) (files : Files) (request : Inbound) (status : (impl.dispatch files request).status = 405) :
    (∃ handler asked response, impl.handler request = some (handler,asked) ∧ handler asked = some response ∧
      response.status = 405) ∨ impl.match request.method request.path = .methodNotAllowed := by
  rw [Impl.dispatch] at status
  cases called : impl.handler request with
  | some call =>
    obtain ⟨handler,asked⟩ := call
    simp only [called] at status
    cases answer : handler asked with
    | some response =>
      rw [answer,Option.getD_some] at status
      exact .inl ⟨handler,asked,response,rfl,answer,status⟩
    | none =>
      rw [answer,Option.getD_none] at status
      cases status
  | none =>
    simp only [called] at status
    cases served : impl.serveStatic files request.toServerRequest with
    | some response =>
      simp only [served] at status
      exact (serveStatic_status served status).elim
    | none =>
      simp only [served] at status
      split at status
      · next missed => exact .inr missed
      · cases status

section

variable {settings : Impl} {registrations : List Registration} {entry : Registration}
  {front behind : List Bytes} {name before id after head : Bytes} {request : Inbound}
  (pattern : pathSegments entry.pattern = front ++ (58 :: name) :: behind) (nonempty : id ≠ [])
  (closed : after = [] ∨ after.head? = some 47) (asked : requestOf head = some request.toServerRequest)
  (path : headPath head = some (before ++ 47 :: (urlEncode id ++ after)))
  (first : accepts front (pathSegments (urlDecode before)))
include nonempty closed asked path first

theorem Impl.Delivers.keeps (delivers : (settings.serving registrations).Delivers request (toUpper entry.method)
      (pathSegments entry.pattern) front.length id) :
    47 ∉ id ∧ (settings.serving registrations).Keeps request.method
      (pathSegments (urlDecode before) ++ id :: pathSegments (urlDecode after)) front.length id := by
  have decoded := requestOf_path asked path
  have value : (pathSegments (urlDecode before) ++ id :: pathSegments (urlDecode after))[front.length]? = some id := by
    rw [← accepts_length first]
    simp
  obtain ⟨earlier,own,later,-,-,-,route,-,asked,matched,-,delivered⟩ := delivers
  obtain ⟨segment,here,same⟩ := Option.map_eq_some_iff.mp delivered
  have fresh : 47 ∉ id := same ▸ segment_fresh matched segment (List.mem_of_getElem? here)
  obtain ⟨found,fits⟩ := (match_route_iff _ _ _ _ _).mp matched
  have segments := pathSegments_path before id after nonempty closed fresh
  rw [decoded,segments] at found
  rw [Route.fits,decoded,segments] at fits
  refine ⟨fresh,(keeps_iff _ _ _ _ _).mpr fun other chosen => ?_⟩
  obtain rfl : route = other := Option.some.inj (found.symm.trans chosen)
  exact (segment_eq_iff fits front.length segment id here value).mp same

include pattern in
theorem Impl.Keeps.delivers (registered : entry ∈ registrations) (method : request.method = toUpper entry.method)
    (second : accepts behind (pathSegments (urlDecode after))) (fresh : 47 ∉ id)
    (keeps : (settings.serving registrations).Keeps request.method
      (pathSegments (urlDecode before) ++ id :: pathSegments (urlDecode after)) front.length id) :
    (settings.serving registrations).Delivers request (toUpper entry.method) (pathSegments entry.pattern)
      front.length id := by
  have decoded := requestOf_path asked path
  have accepted : accepts (pathSegments entry.pattern)
      (pathSegments (urlDecode before) ++ id :: pathSegments (urlDecode after)) = true := by
    rw [pattern]
    exact accepts_append first (by simpa [accepts] using second)
  have value : (pathSegments (urlDecode before) ++ id :: pathSegments (urlDecode after))[front.length]? = some id := by
    rw [← accepts_length first]
    simp
  obtain ⟨earlier,own,later,table,ownMethod,ownSegments⟩ := serving_registered settings registrations entry registered
  have segments := pathSegments_path before id after nonempty closed fresh
  rw [← ownSegments] at accepted
  obtain ⟨route,member,found⟩ := find_registered table accepted
  rw [ownMethod,← method] at found
  have answers := List.find?_some found
  simp only [Impl.answers,Bool.and_eq_true] at answers
  obtain ⟨parameters,fits⟩ := Option.isSome_iff_exists.mp ((capture_isSome _ _ []).trans answers.1)
  have matched : (settings.serving registrations).match request.method request.path = .route route parameters := by
    rw [match_route_iff,Route.fits,decoded,segments]
    exact ⟨found,fits⟩
  obtain ⟨segment,here⟩ : ∃ segment, route.segments[front.length]? = some segment := by
    have bound := (List.getElem?_eq_some_iff.mp value).1
    rw [accepts_length answers.1] at bound
    exact ⟨_,List.getElem?_eq_getElem bound⟩
  refine ⟨earlier,own,later,table,ownMethod,ownSegments,route,member,{ request with pathParameters := parameters },
    matched,handler_of_match matched,?_⟩
  rw [here,Option.map_some]
  have kept := (keeps_iff _ _ _ _ _).mp keeps route found
  exact congrArg some ((segment_eq_iff fits front.length segment id here value).mpr kept)

end

/-- An encoded id comes back to a handler exactly when it holds no '/' and the name it is
captured under is not captured again. The answer 405 is given only where the path is
registered for other methods. -/
theorem route_parameters_iff (settings : Impl) (registrations : List Registration) :
    (∀ entry ∈ registrations, ∀ front name behind, pathSegments entry.pattern = front ++ (58 :: name) :: behind →
      ∀ before id after head request, id ≠ [] → (after = [] ∨ after.head? = some 47) →
        requestOf head = some request.toServerRequest → headPath head = some (before ++ 47 :: (urlEncode id ++ after)) →
        request.method = toUpper entry.method → accepts front (pathSegments (urlDecode before)) →
        accepts behind (pathSegments (urlDecode after)) →
        ((settings.serving registrations).Delivers request (toUpper entry.method) (pathSegments entry.pattern)
            front.length id ↔
          47 ∉ id ∧ (settings.serving registrations).Keeps request.method
            (pathSegments (urlDecode before) ++ id :: pathSegments (urlDecode after)) front.length id)) ∧
    ∀ files request, ((settings.serving registrations).dispatch files request).status = 405 →
      (∃ handler asked response, (settings.serving registrations).handler request = some (handler,asked) ∧
        handler asked = some response ∧ response.status = 405) ∨
      ((∃ route ∈ (settings.serving registrations).routes, (route.fits request.path).isSome ∧
          route.method ≠ request.method) ∧
        ∀ route ∈ (settings.serving registrations).routes, (route.fits request.path).isSome →
          route.method ≠ request.method) := by
  constructor
  · intro entry registered front name behind pattern before id after head request nonempty closed asked path method
      first second
    constructor
    · exact Impl.Delivers.keeps nonempty closed asked path first
    · rintro ⟨fresh,keeps⟩
      exact Impl.Keeps.delivers pattern nonempty closed asked path first registered method second fresh keeps
  · intro files request status
    exact (dispatch_405 _ files request status).imp_right (match_methodNotAllowed_iff _ _ _).mp

def runRoutes : List Registration := [
  ⟨ascii "GET",ascii "/api/runs/:id",fun _ => some {}⟩,
  ⟨ascii "get",ascii "/api/runs/:id/results",fun _ => some {}⟩]

def resultsRequest : Inbound := { method := ascii "GET", path := ascii "/api/runs/a b/results" }
def slashRequest : Inbound := { method := ascii "GET", path := ascii "/api/runs/a/b" }
def postRequest : Inbound := { method := ascii "POST", path := ascii "/api/runs/a" }

theorem route_parameters_results :
    (({} : Impl).serving runRoutes).Delivers resultsRequest (ascii "GET")
      [ascii "api",ascii "runs",ascii ":id",ascii "results"] 2 (ascii "a b") ∧
    ∃ route ∈ (({} : Impl).serving runRoutes).routes, (route.fits postRequest.path).isSome ∧ route.method ≠ ascii "POST" := by
  constructor
  · refine ((route_parameters_iff {} runRoutes).1 _ (List.mem_cons_of_mem _ List.mem_cons_self)
      [ascii "api",ascii "runs"] (ascii "id") [ascii "results"] (by decide) (ascii "/api/runs") (ascii "a b")
      (ascii "/results") (ascii "GET /api/runs/a%20b/results HTTP/1.1") resultsRequest (by decide) (.inr rfl) (by decide)
      (by decide) (by decide) (by decide) (by decide)).mpr ⟨by decide,?_⟩
    rw [keeps_iff]
    intro route found
    obtain rfl := Option.some.inj found
    rintro ⟨j,later,same,-,-⟩
    have bound : j < 4 := (List.getElem?_eq_some_iff.mp same).1
    obtain rfl : j = 3 := Nat.le_antisymm (Nat.le_of_lt_succ bound) later
    exact absurd same (by decide)
  · have answer := (route_parameters_iff {} runRoutes).2 (fun _ => none) postRequest rfl
    rcases answer with ⟨handler,asked,response,called,-⟩ | ⟨other,-⟩
    · cases called
    · exact other

/-- The run id "a/b", encoded as the client is meant to, is not found. -/
theorem slash_not_delivered :
    requestOf (ascii "GET /api/runs/a%2Fb HTTP/1.1") = some slashRequest.toServerRequest ∧
    headPath (ascii "GET /api/runs/a%2Fb HTTP/1.1") = some (ascii "/api/runs" ++ 47 :: urlEncode (ascii "a/b")) ∧
    ¬(({} : Impl).serving runRoutes).Delivers slashRequest (ascii "GET") [ascii "api",ascii "runs",ascii ":id"] 2
      (ascii "a/b") ∧
    ((({} : Impl).serving runRoutes).dispatch (fun _ => none) slashRequest).status = 404 := by
  refine ⟨by decide,by decide,?_,rfl⟩
  rintro ⟨earlier,own,later,-,-,-,route,-,asked,matched,-⟩
  cases matched

end TestForge.HttpServer
