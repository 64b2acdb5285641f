import TestForge.Redirect
import TestForge.SpecTestCase
import TestForge.UrlRejoin

/-! A generated test stays on the configured host. -/
namespace TestForge

open Sequence Strings HttpClient

namespace UrlPolicy

theorem restrictedTo_accepts (baseUrl : Bytes) (home url : Url) (parsed : parseUrl baseUrl = some home)
    (accepted : (restrictedTo baseUrl).reject url = []) :
    (url.scheme = ascii "http" ∨ url.scheme = ascii "https") ∧ toLower url.host = toLower home.host := by
  unfold reject at accepted
  split at accepted
  · simp [ascii] at accepted
  next scheme =>
    split at accepted
    · split at accepted
      · next host =>
        simp only [restrictedTo,parsed] at scheme host
        simp only [List.any_cons,List.any_nil,Bool.or_false,equalsIgnoreCase_iff] at host
        simp only [List.mem_cons,List.not_mem_nil,or_false,not_not] at scheme
        exact ⟨scheme,host.symm⟩
      · simp [ascii] at accepted
    · next unlisted => simp [restrictedTo,parsed] at unlisted

end UrlPolicy

theorem joinUrl_endpoint (base endpoint joined : Bytes) (rooted : endpoint.head? = some 47)
    (result : joinUrl base endpoint = some joined) :
    ∃ home below query, parseUrl base = some home ∧
      joined = ({ home with
        path := home.path.rdropWhile (· == 47) ++ 47 :: below, query, fragment := [] } : Url).toString := by
  obtain ⟨rest,rfl⟩ := List.head?_eq_some_iff.mp rooted
  unfold joinUrl at result
  split at result
  · contradiction
  split at result
  · next web => simp [startsWith,ascii] at web
  split at result
  · contradiction
  next home parsed =>
    simp only [Option.some.injEq] at result
    have cuts := getD_cut_append 63 [47] rest (by decide)
    simp only [List.singleton_append] at cuts
    exact ⟨home,_,_,parsed,by rw [← result,cuts]⟩

theorem joined_home (baseUrl endpoint joined : Bytes) (home url : Url)
    (parsed : parseUrl baseUrl = some home) (rooted : endpoint.head? = some 47)
    (result : joinUrl baseUrl endpoint = some joined) (reparsed : parseUrl joined = some url)
    (admitted : (UrlPolicy.restrictedTo baseUrl).reject url = []) :
    url.scheme = home.scheme ∧ url.port = home.port ∧
      home.path.rdropWhile (· == 47) ++ [47] <+: url.path := by
  obtain ⟨other,below,query,also,rfl⟩ := joinUrl_endpoint baseUrl endpoint joined rooted result
  obtain rfl : home = other := Option.some.inj (parsed.symm.trans also)
  have valid := parseUrl_wellFormed baseUrl home parsed
  have reached := parseUrl_wellFormed _ url reparsed
  obtain ⟨web,host⟩ := UrlPolicy.restrictedTo_accepts baseUrl home url parsed admitted
  have hostEq : url.host = home.host := by rw [← reached.hostLowered,host,valid.hostLowered]
  obtain ⟨scheme,rest⟩ := reparse_join home url valid _ below query (List.rdropWhile_prefix _ _) reparsed
  have known : defaultPortFor home.scheme ≠ 0 := by
    rw [← scheme]
    rcases web with named | named <;> rw [named] <;> decide
  exact ⟨scheme,rest hostEq known⟩

/-- The URLs a chain admits: all on the home host, the first one below the home path. -/
structure HomeBound (home : Url) (hops : List Hop) : Prop where
  host : ∀ hop ∈ hops, hop.url.host = home.host
  origin : ∀ first ∈ hops.head?, first.url.scheme = home.scheme ∧ first.url.port = home.port
  path : ∀ first ∈ hops.head?, home.path.rdropWhile (· == 47) ++ [47] <+: first.url.path

/-- Every URL the client admits while an accepted spec runs names the host of the
base URL, and the first one lies below the base. -/
theorem accepted_spec_homeBound (ai : AiConfig) (config : ApiConfig) (spec : TestSpec)
    (accepted : (registrationValidator ai config).Accepts spec) (network : Nat → Exchange) :
    ∃ home, parseUrl config.baseUrl = some home ∧
      ∃ hops response, SpecTestCase.execute config network spec = .ok (hops,response) ∧
        HomeBound home hops := by
  obtain ⟨safe,joined,result,_⟩ := accepted.endpoint
  change joinUrl config.baseUrl spec.endpoint = some joined at result
  have rooted : spec.endpoint.head? = some 47 := (SpecValidator.isSafeEndpoint_ok safe).2.2.1
  obtain ⟨home,_,_,parsed,_⟩ := joinUrl_endpoint _ _ _ rooted result
  have resolved : ApiClient.resolve config.baseUrl spec.endpoint = .ok joined := by
    obtain ⟨rest,equal⟩ := List.head?_eq_some_iff.mp rooted
    unfold ApiClient.resolve
    rw [if_neg (by simp [equal,startsWith,ascii]),result]
  have first (hop : Hop) (front : hop ∈ (send (optionsFrom config) network
      (SpecTestCase.buildRequest spec joined)).1.head?) : hop.url.scheme = home.scheme ∧
        hop.url.port = home.port ∧ home.path.rdropWhile (· == 47) ++ [47] <+: hop.url.path := by
    obtain ⟨_,reparsed⟩ := (perform_chain _ _ _ _ _).1 hop front
    have admitted := (perform_hops _ _ _ _ _ hop (List.mem_of_mem_head? front)).2.1
    have url : (SpecTestCase.buildRequest spec joined).url = joined := by
      unfold SpecTestCase.buildRequest
      split <;> rfl
    rw [url] at reparsed
    exact joined_home _ _ joined home hop.url parsed rooted result reparsed admitted
  refine ⟨home,parsed,_,_,by rw [SpecTestCase.execute,resolved],?_⟩
  exact {
    host := by
      intro hop member
      obtain ⟨reparsed,admitted,_⟩ := perform_hops _ _ _ _ _ hop member
      have host := (UrlPolicy.restrictedTo_accepts _ home hop.url parsed admitted).2
      rwa [(parseUrl_wellFormed _ _ reparsed).hostLowered,
        (parseUrl_wellFormed _ _ parsed).hostLowered] at host
    origin := fun hop front => ⟨(first hop front).1,(first hop front).2.1⟩
    path := fun hop front => (first hop front).2.2 }

theorem accepted_spec_homeBound_userinfo :
    ∃ home, parseUrl (ascii "http://u@Host.example:8080/api/") = some home ∧
      ∃ hops response, SpecTestCase.execute { baseUrl := ascii "http://u@Host.example:8080/api/" }
        (fun _ => {}) { name := ascii "users", endpoint := ascii "/users" } = .ok (hops,response) ∧
          HomeBound home hops :=
  accepted_spec_homeBound {} { baseUrl := ascii "http://u@Host.example:8080/api/" }
    { name := ascii "users", endpoint := ascii "/users" } ⟨0,by decide⟩ (fun _ => {})

end TestForge
