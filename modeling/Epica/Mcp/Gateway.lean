import Epica.Lib.Service
import Epica.Core.Graphs
import Epica.Mcp.Jwk

/-!
# The layers in front of the handlers

`buildRouter` puts three layers around the handlers that can answer a request: first the rate limit,
around that the check of the bearer token, and around both the CORS layer.  So preflights are
answered first, and then the token is checked.  The rate limit and the check let the probes and the
discovery paths through.

* `passes_checkAuth`          what is let through is exempt, or carries a token that is accepted;
* `gateway_noninterference`   a request that is not authorised has no effect, on the state or on the
                              answers to the others;
* `production_protected`      a server that starts outside of development checks every token.
-/

set_option linter.unusedSectionVars false

namespace Epica
open Lib Lib.Service

namespace Gateway

/-! ## tokens -/

structure JwtClaims where
  sub : String
  exp : Nat
  iat : Nat
  scope : List String

inductive Algorithm where
  | hs256
  | rs256

/-- JSON web tokens: the keys, and the decoding of a token at a time, which checks the signature,
the audience, the issuer and the expiry -/
class Jwt where
  Key : Type
  fromSecret : String → Key
  fromRsaPem : String → Except String Key
  decode : Algorithm → Key → (audience issuer : String) → (nowMs : Nat) → (token : String) →
    Except String JwtClaims

structure AuthConfig extends Epica.AuthConfig where
  audience : String
  issuer : String
  disabled : Bool

section
variable [Jwt]

def validateJwt (nowMs : Nat) (token : String) (config : AuthConfig) : Except String JwtClaims :=
  match config.algorithm with
  | .hs256 secret =>
    (Jwt.decode .hs256 (Jwt.fromSecret secret) config.audience config.issuer nowMs token).mapError
      fun e => s!"invalid JWT: {e}"
  | .rs256 publicKeyPem _ =>
    match Jwt.fromRsaPem publicKeyPem with
    | .error e => .error s!"invalid RSA public key PEM: {e}"
    | .ok key =>
      (Jwt.decode .rs256 key config.audience config.issuer nowMs token).mapError
        fun e => s!"invalid JWT: {e}"

end

/-! ## requests -/

/-- the headers are there when they are visible text -/
structure Request (P : Type) where
  path : String
  authorization : Option String
  forwardedFor : Option String
  nowMs : Nat
  payload : P

inductive Response (R : Type) where
  | handled (r : R)
  /-- by the CORS layer -/
  | preflight
  | unauthorized (error : String)
  | tooManyRequests (error : String)

def startsWith (s pre : String) : Bool := pre.toList.isPrefixOf s.toList

def stripPrefix (pre s : String) : Option String :=
  if startsWith s pre then some (.ofList (s.toList.drop pre.toList.length)) else none

section
variable {P R : Type}

def bearer (req : Request P) : Option String := req.authorization.bind (stripPrefix "Bearer ")

/-- the paths that `checkAuth` lets through -/
def isExempt (path : String) : Bool :=
  startsWith path "/.well-known/" || path == "/health" || path == "/ready" || path == "/metrics"

def checkAuth [Jwt] (config : AuthConfig) (req : Request P) : Except (Response R) Unit :=
  if config.disabled then .ok ()
  else if isExempt req.path then .ok ()
  else
    match bearer req with
    | none => .error (.unauthorized "missing Authorization: Bearer <token> header")
    | some token =>
      match validateJwt req.nowMs token config with
      | .ok _ => .ok ()
      | .error e => .error (.unauthorized e)

/-! ## the rate limit -/

/-- addresses of clients -/
class IpAddr (Ip : Type) where
  parse : String → Option Ip
  localhost : Ip

/-- a limiter keyed by address; `true` when the request is within the quota -/
structure RateLimiter (L Ip : Type) where
  checkKey : L → Nat → Ip → Bool × L

/-- the paths that `rateLimit` lets through -/
def isProbe (path : String) : Bool :=
  path == "/health" || path == "/ready" || path == "/metrics" || startsWith path "/.well-known/"

def extractClientIp {Ip : Type} [IpAddr Ip] (req : Request P) : Ip :=
  (req.forwardedFor.bind fun s =>
    IpAddr.parse (trim (.ofList (s.toList.takeWhile (· ≠ ','))))).getD IpAddr.localhost

section
variable {L Ip : Type} [IpAddr Ip]

def rateLimit (limiter : RateLimiter L Ip) (l : L) (req : Request P) : Bool × L :=
  if isProbe req.path then (true, l)
  else limiter.checkKey l req.nowMs (extractClientIp req)

/-- `preflight` says which requests the CORS library answers itself; to the answers of the others it
adds headers -/
def corsLayer (preflight : Request P → Bool) (req : Request P) : Except (Response R) Unit :=
  if preflight req then .error .preflight else .ok ()

/-- the handlers with their layers; a layer that is added later is further out, and the last one
only traces -/
def buildRouter [Jwt] {A : Type} (preflight : Request P → Bool) (config : AuthConfig)
    (limiter : RateLimiter L Ip) (handle : A → Request P → R × A) :
    Service (L × A) (Request P) (Response R) :=
  guard (corsLayer preflight) <| guard (checkAuth config) <|
    meter (rateLimit limiter) (.tooManyRequests "rate limit exceeded — retry after 1 second")
      fun a req => (.handled (handle a req).1, (handle a req).2)

end

/-- what the two outer layers say to a request -/
def admits [Jwt] (preflight : Request P → Bool) (config : AuthConfig) (req : Request P) :
    Except (Response R) Unit :=
  (corsLayer preflight req).bind fun _ => checkAuth config req

/-- it is no preflight, and the check lets it through -/
theorem passes_admits [Jwt] (preflight : Request P → Bool) (config : AuthConfig)
    (req : Request P) : passes (admits (R := R) preflight config) req =
      (!preflight req && passes (checkAuth (R := R) config) req) := by
  unfold passes admits corsLayer
  cases preflight req <;> rfl

/-- the token of the request is accepted when it arrives -/
def Accepted [Jwt] (config : AuthConfig) (req : Request P) : Prop :=
  ∃ token claims, bearer req = some token ∧ validateJwt req.nowMs token config = .ok claims

theorem passes_checkAuth [Jwt] {config : AuthConfig} {req : Request P}
    (h : passes (checkAuth (R := R) config) req = true) :
    config.disabled = true ∨ isExempt req.path = true ∨ Accepted config req := by
  rw [passes_iff] at h
  unfold checkAuth at h
  split at h
  · rename_i hd
    exact Or.inl hd
  · split at h
    · rename_i he
      exact Or.inr (Or.inl he)
    · split at h
      · cases h
      · rename_i token htoken
        split at h
        · rename_i claims hclaims
          exact Or.inr (Or.inr ⟨token, claims, htoken, hclaims⟩)
        · cases h

/-- what is not let through is answered by the layer -/
theorem not_passes_checkAuth [Jwt] {config : AuthConfig} {req : Request P} {r : Response R}
    (h : checkAuth config req = .error r) : ∃ e, r = .unauthorized e := by
  unfold checkAuth at h
  split at h
  · cases h
  · split at h
    · cases h
    · split at h
      · cases h
        exact ⟨_, rfl⟩
      · split at h
        · cases h
        · cases h
          exact ⟨_, rfl⟩

/-! ## what passes the layers -/

section
variable {L Ip A : Type} [IpAddr Ip] [Jwt]

theorem buildRouter_eq (preflight : Request P → Bool) (config : AuthConfig)
    (limiter : RateLimiter L Ip) (handle : A → Request P → R × A) :
    buildRouter preflight config limiter handle = guard (admits preflight config)
      (meter (rateLimit limiter) (.tooManyRequests "rate limit exceeded — retry after 1 second")
        fun a req => (.handled (handle a req).1, (handle a req).2)) :=
  guard_guard _ _ _

/-- a preflight is answered as one, and a request that is not authorised is told so -/
theorem refused_of_outputs (preflight : Request P → Bool) (config : AuthConfig)
    (limiter : RateLimiter L Ip) (handle : A → Request P → R × A) (s : L × A)
    (reqs : List (Request P)) :
    ∀ e ∈ outputs (buildRouter preflight config limiter handle).next
        (buildRouter preflight config limiter handle).answered s reqs,
      (preflight e.1 = true → e.2 = .preflight) ∧
      (preflight e.1 = false → passes (checkAuth (R := R) config) e.1 = false →
        ∃ error, e.2 = .unauthorized error) := by
  intro e he
  obtain ⟨t, req, -, he⟩ := mem_outputs.mp he
  obtain rfl := List.mem_singleton.mp he
  simp only
  unfold buildRouter
  constructor
  · intro hp
    have hno : passes (corsLayer (R := R) preflight) req = false := by
      unfold passes corsLayer
      rw [hp]
      rfl
    obtain ⟨r, hr, hs⟩ := guard_of_not_passes _ hno t
    unfold corsLayer at hr
    rw [hp] at hr
    obtain rfl := Except.error.inj hr
    exact congrArg Prod.fst hs
  · intro hp hno
    have hpass : passes (corsLayer (R := R) preflight) req = true := by
      unfold passes corsLayer
      rw [hp]
      rfl
    rw [guard_of_passes hpass]
    obtain ⟨r, hr, hs⟩ := guard_of_not_passes _ hno t
    obtain ⟨error, rfl⟩ := not_passes_checkAuth hr
    exact ⟨error, congrArg Prod.fst hs⟩

/-- **an unauthorised request has no effect**: a run leaves the limiter and the handlers in the
state, and gives the authorised requests the answers, that they have without the others; and of the
others the preflights are answered as such, and the rest are told that they are unauthorised -/
theorem gateway_noninterference (preflight : Request P → Bool) (config : AuthConfig)
    (limiter : RateLimiter L Ip) (handle : A → Request P → R × A) (s : L × A)
    (reqs : List (Request P)) :
    let router := buildRouter preflight config limiter handle
    let authorised := fun req => !preflight req && passes (checkAuth (R := R) config) req
    run router.next s reqs = run router.next s (reqs.filter authorised) ∧
    (outputs router.next router.answered s reqs).filter (fun e => authorised e.1) =
      outputs router.next router.answered s (reqs.filter authorised) ∧
    ∀ e ∈ outputs router.next router.answered s reqs,
      (preflight e.1 = true → e.2 = .preflight) ∧
      (preflight e.1 = false → passes (checkAuth (R := R) config) e.1 = false →
        ∃ error, e.2 = .unauthorized error) := by
  intro router authorised
  have hauthorised : passes (admits (R := R) preflight config) = authorised :=
    funext (passes_admits preflight config)
  have hrouter : router = _ := buildRouter_eq preflight config limiter handle
  have htwice : (reqs.filter authorised).filter authorised = reqs.filter authorised := by
    rw [List.filter_filter]
    exact List.filter_congr fun req _ => Bool.and_self _
  have hout : ∀ e ∈ outputs router.next router.answered s (reqs.filter authorised),
      authorised e.1 = true := by
    intro e he
    obtain ⟨t, req, hstep, he⟩ := mem_outputs.mp he
    obtain ⟨pre, post, hreqs, -⟩ := hstep
    have hmem : req ∈ reqs.filter authorised := by
      rw [hreqs]
      exact List.mem_append_right _ List.mem_cons_self
    rw [List.mem_singleton.mp he]
    exact (List.mem_filter.mp hmem).2
  refine ⟨?_, ?_, refused_of_outputs preflight config limiter handle s reqs⟩
  · rw [hrouter, run_guard, run_guard, hauthorised, htwice]
  · rw [← List.filter_eq_self.mpr hout, hrouter, ← hauthorised, outputs_guard, outputs_guard,
      hauthorised, htwice]

end
end

/-! ## the configuration -/

/-- the variables of the environment that are set -/
abbrev Env := String → Option String

def eqIgnoreAsciiCase (a b : String) : Bool :=
  a.toList.map Char.toLower == b.toList.map Char.toLower

def envFlag (env : Env) (key : String) : Bool :=
  ((env key).map fun v => v == "1" || eqIgnoreAsciiCase v "true").getD false

namespace AuthConfig

/-- the configuration the environment gives; `none` is a panic -/
def fromEnv (env : Env) (readToString : String → Option String) : Option AuthConfig :=
  let audience := (env "EPICA_JWT_AUDIENCE").getD "epica"
  let issuer := (env "EPICA_JWT_ISSUER").getD "epica"
  let disabled := envFlag env "EPICA_NO_AUTH"
  if eqIgnoreAsciiCase ((env "EPICA_JWT_ALG").getD "hs256") "rs256" then
    let pem :=
      match env "EPICA_JWT_RSA_PEM" with
      | some pem => some pem
      | none => (env "EPICA_JWT_RSA_PEM_FILE").bind readToString
    let kid := (env "EPICA_JWT_KID").getD "epica-rs256-1"
    pem.map fun pem => ⟨⟨.rs256 pem kid⟩, audience, issuer, disabled⟩
  else
    let secret := (env "EPICA_JWT_SECRET").getD "epica-dev-secret-change-in-production"
    some ⟨⟨.hs256 secret⟩, audience, issuer, disabled⟩

def noAuth : AuthConfig := ⟨⟨.hs256 ""⟩, "epica", "epica", true⟩

end AuthConfig

section
variable [Platform]

/-- `EPICA_ENV` names a development environment -/
def inDev (env : Env) : Bool :=
  ["development", "dev", "test"].contains (Platform.toLowercase ((env "EPICA_ENV").getD ""))

/-- the configuration that `main` starts with; `none` when it exits or panics -/
def mainAuth (env : Env) (readToString : String → Option String) : Option AuthConfig :=
  if envFlag env "EPICA_NO_AUTH" then
    if inDev env then some .noAuth else none
  else AuthConfig.fromEnv env readToString

theorem enabled_of_mainAuth {env : Env} {readToString : String → Option String}
    {config : AuthConfig} (hdev : inDev env = false)
    (h : mainAuth env readToString = some config) : config.disabled = false := by
  unfold mainAuth at h
  rw [hdev] at h
  split at h
  · cases h
  · rename_i hflag
    have hoff : envFlag env "EPICA_NO_AUTH" = false := by
      cases hf : envFlag env "EPICA_NO_AUTH" with
      | false => rfl
      | true => exact absurd hf hflag
    unfold AuthConfig.fromEnv at h
    simp only [hoff] at h
    split at h
    · obtain ⟨pem, -, rfl⟩ := Option.map_eq_some_iff.mp h
      rfl
    · cases h
      rfl

/-- **outside of development every token is checked**: in every run of a server that starts there,
a request that the handlers answer is for an exempt path, or carries a token that is accepted when
it arrives; and the handlers are in the state that these requests alone leave -/
theorem production_protected {P R L Ip A : Type} [IpAddr Ip] [Jwt] (env : Env)
    (readToString : String → Option String) (config : AuthConfig) (hdev : inDev env = false)
    (hmain : mainAuth env readToString = some config) (preflight : Request P → Bool)
    (limiter : RateLimiter L Ip) (handle : A → Request P → R × A) (s : L × A)
    (reqs : List (Request P)) :
    let router := buildRouter preflight config limiter handle
    (∀ req r, (req, .handled r) ∈ outputs router.next router.answered s reqs →
      isExempt req.path = true ∨ Accepted config req) ∧
    ∃ served : List (Request P), served.Sublist reqs ∧
      (∀ req ∈ served, isExempt req.path = true ∨ Accepted config req) ∧
      (run router.next s reqs).2 = run (fun a req => (handle a req).2) s.2 served := by
  intro router
  have henabled := enabled_of_mainAuth hdev hmain
  have hpass : ∀ req : Request P, passes (checkAuth (R := R) config) req = true →
      isExempt req.path = true ∨ Accepted config req := by
    intro req hp
    rcases passes_checkAuth hp with hd | hp
    · rw [henabled] at hd
      cases hd
    · exact hp
  refine ⟨fun req r he => ?_, ?_⟩
  · obtain ⟨hpreflight, hunauthorised⟩ :=
      refused_of_outputs preflight config limiter handle s reqs _ he
    cases hc : preflight req with
    | true => cases hpreflight hc
    | false =>
      cases hp : passes (checkAuth (R := R) config) req with
      | true => exact hpass req hp
      | false =>
        obtain ⟨error, h⟩ := hunauthorised hc hp
        cases h
  · refine ⟨admitted (rateLimit limiter) s.1
      (reqs.filter (passes (admits (R := R) preflight config))), ?_, ?_, ?_⟩
    · exact (admitted_sublist _ _ _).trans List.filter_sublist
    · intro req hreq
      have hboth := (List.mem_filter.mp ((admitted_sublist _ _ _).subset hreq)).2
      rw [passes_admits, Bool.and_eq_true] at hboth
      exact hpass req hboth.2
    · have hrouter : router = _ := buildRouter_eq preflight config limiter handle
      rw [hrouter, run_guard, run_meter]
      rfl

end

section
attribute [local instance] Platform.ascii

/-- tokens that are the secret itself -/
@[reducible] def Jwt.plain : Jwt where
  Key := String
  fromSecret secret := secret
  fromRsaPem pem := .ok pem
  decode _ key _ _ _ token := if token = key then .ok ⟨"user", 0, 0, []⟩ else .error "signature"

attribute [local instance] Jwt.plain

instance : IpAddr String := ⟨some, "127.0.0.1"⟩

/-- three requests of each client -/
def threeEach : RateLimiter (String → Nat) String where
  checkKey count _ ip :=
    (decide (count ip < 3), Function.update count ip (count ip + 1))

/-- what an environment without any settings gives -/
def defaultAuth : AuthConfig :=
  ⟨⟨.hs256 "epica-dev-secret-change-in-production"⟩, "epica", "epica", false⟩

/-- a request without a token, and one with the default secret -/
def visitors : List (Request String) :=
  [⟨"/v1/beliefs", none, some "10.0.0.1, 10.0.0.2", 0, "write"⟩,
    ⟨"/v1/beliefs", some "Bearer epica-dev-secret-change-in-production", none, 1, "read"⟩]

/-- the handlers see a part of them, all with a token -/
theorem production_protected_default :
    ∃ served : List (Request String), served.Sublist visitors ∧
      (∀ req ∈ served, isExempt req.path = true ∨ Accepted defaultAuth req) ∧
      (run (buildRouter (fun req => req.payload == "OPTIONS") defaultAuth threeEach
          (fun (log : List String) req => ((), log ++ [req.payload]))).next
        (fun _ => 0, []) visitors).2 =
        run (fun log (req : Request String) => log ++ [req.payload]) [] served := by
  have hdev : inDev (fun _ => none) = false := by decide +kernel
  exact (production_protected (fun _ => none) (fun _ => none) defaultAuth hdev rfl
    (fun req => req.payload == "OPTIONS") threeEach
    (fun log req => ((), log ++ [req.payload])) (fun _ => 0, []) visitors).2

end
end Gateway
end Epica
