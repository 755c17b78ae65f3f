import AsyncDataHub.PyError

/-! Remote media: the check of a URL's host and the request that follows it. The check looks the
host's name up, and the HTTP client looks it up again. -/
namespace AsyncDataHub.Media

structure ParsedUrl where
  scheme : String
  hostname : Option String

inductive LookupError
  | gaierror (text : String)
  | unicodeError (text : String)
  deriving DecidableEq

structure Request where
  url : String
  headers : List (String × String)

structure Upstream where
  statusCode : ℕ
  headers : String → Option String

structure Response where
  statusCode : ℕ
  mediaType : String
  headers : List (String × String)

structure Settings where
  allowedSchemes : List String
  allowedHosts : List String
  blockPrivateHosts : Bool

/-- Python's library and the network as one call of `remote_response` meets them. `getaddrinfo n` is
the call's lookup number `n`, `tries` tells which addresses of an answer the client connects to. -/
structure Environment (Address : Type*) where
  urlparse : String → Except String ParsedUrl
  lower : String → String
  ipAddress : String → Option Address
  isPrivate : Address → Bool
  isLoopback : Address → Bool
  isLinkLocal : Address → Bool
  isMulticast : Address → Bool
  isReserved : Address → Bool
  isUnspecified : Address → Bool
  getaddrinfo : ℕ → String → Except LookupError (List String)
  tries : String → Bool
  respond : Request → List String → Except String Upstream

variable {Address : Type*}

def isPrivateAddress (env : Environment Address) (address : Address) : Bool :=
  env.isPrivate address || env.isLoopback address || env.isLinkLocal address ||
    env.isMulticast address || env.isReserved address || env.isUnspecified address

def privateHost : PyError := .httpException 400 "Private remote media hosts are blocked"

/-- The loop over the answer: what is no address is skipped. The addresses that have passed are
returned. -/
def checkResolved (env : Environment Address) : List String → Except PyError (List Address)
  | [] => .ok []
  | resolvedHost :: rest =>
    match env.ipAddress resolvedHost with
    | none => checkResolved env rest
    | some resolvedIp =>
      if isPrivateAddress env resolvedIp then .error privateHost
      else (checkResolved env rest).map (resolvedIp :: ·)

/-- The addresses that have been checked and found non-private, or an exception. -/
def rejectPrivateHost (env : Environment Address) (host : String) :
    Except PyError (List Address) :=
  if host = "localhost" ∨ host = "localhost.localdomain" then .error privateHost
  else
    match env.ipAddress host with
    | some literalIp =>
      if isPrivateAddress env literalIp then .error privateHost else .ok [literalIp]
    | none =>
      match env.getaddrinfo 0 host with
      | .error (.gaierror _) =>
        .error (.httpException 400 "Remote media host could not be resolved")
      | .error (.unicodeError text) => .error (.valueError text)
      | .ok addressInfos => checkResolved env addressInfos

def validateRemoteUrl (env : Environment Address) (settings : Settings) (url : String) :
    Except PyError (List Address) :=
  match env.urlparse url with
  | .error text => .error (.valueError text)
  | .ok parsed =>
    if parsed.scheme ∉ settings.allowedSchemes then
      .error (.httpException 400 "Unsupported remote media URL scheme")
    else
      match parsed.hostname with
      | none => .error (.httpException 400 "Remote media URL must include a host")
      | some hostname =>
        if hostname = "" then .error (.httpException 400 "Remote media URL must include a host")
        else if settings.allowedHosts ≠ [] ∧ env.lower hostname ∉ settings.allowedHosts then
          .error (.httpException 400 "Remote media host is not allowed")
        else if env.lower hostname ∈ settings.allowedHosts then .ok []
        else if settings.blockPrivateHosts then rejectPrivateHost env (env.lower hostname)
        else .ok []

def remoteResponseHeaders (upstream : Upstream) : List (String × String) :=
  ["Content-Type", "Content-Length", "Content-Range", "Accept-Ranges"].filterMap fun name =>
    (upstream.headers name).map (name, ·)

def mediaType (upstream : Upstream) : String :=
  match upstream.headers "Content-Type" with
  | none => "application/octet-stream"
  | some value => if value = "" then "application/octet-stream" else value

/-- What the service makes of the upstream response. -/
def answer (upstream : Upstream) : Except PyError Response :=
  if upstream.statusCode = 416 then
    .error (.httpException 416 "Remote server rejected the requested range")
  else if upstream.statusCode = 404 then .error (.httpException 404 "Remote media was not found")
  else if upstream.statusCode ≠ 200 ∧ upstream.statusCode ≠ 206 then
    .error (.httpException 502
      ("Remote media returned unsupported status " ++ toString upstream.statusCode))
  else .ok {
    statusCode := upstream.statusCode
    mediaType := mediaType upstream
    headers := (remoteResponseHeaders upstream).filter (·.1 ≠ "Content-Type") }

def upstreamUnavailable (text : String) : PyError :=
  .httpException 502 ("Unable to open remote media stream: " ++ text)

/-- The addresses that the HTTP client has for a host: it resolves a name itself. -/
def clientAddresses (env : Environment Address) (host : String) :
    Except PyError (List String) :=
  match env.ipAddress host with
  | some _ => .ok [host]
  | none =>
    match env.getaddrinfo 1 host with
    | .error (.gaierror text) => .error (upstreamUnavailable text)
    | .error (.unicodeError text) => .error (.valueError text)
    | .ok addressInfos => .ok addressInfos

/-- The host of a URL; a name is the same name in capitals. -/
def host (env : Environment Address) (url : String) : Option String :=
  match env.urlparse url with
  | .error _ => none
  | .ok parsed => parsed.hostname.map env.lower

/-- A call of `remote_response`: its result, the addresses that it has checked and those that its
request has connected to. -/
structure Fetch (Address : Type*) where
  checked : List Address := []
  connected : List String := []
  result : Except PyError Response

def remoteResponse (env : Environment Address) (settings : Settings) (url : String)
    (rangeHeader : Option String) : Fetch Address :=
  match validateRemoteUrl env settings url, host env url with
  | .error error, _ => { result := .error error }
  | .ok checked, none => { checked, result := .error (upstreamUnavailable "no host") }
  | .ok checked, some host =>
    match clientAddresses env host with
    | .error error => { checked, result := .error error }
    | .ok addresses =>
      let connected := addresses.filter env.tries
      let request : Request := { url, headers := rangeHeader.toList.map ("Range", ·) }
      { checked, connected
        result :=
          match env.respond request connected with
          | .error text => .error (upstreamUnavailable text)
          | .ok upstream => answer upstream }

/-- Every address that the request has connected to has been checked, and is not private. -/
def Fetch.Pinned (env : Environment Address) (fetch : Fetch Address) : Prop :=
  ∀ address ∈ fetch.connected, ∃ ip ∈ fetch.checked,
    env.ipAddress address = some ip ∧ isPrivateAddress env ip = false

/-- The check lets a name pass, and the client's own lookup of it gives an address, to which the
client connects, that was not among the addresses of the check. -/
structure Rebinds (env : Environment Address) (settings : Settings) (url : String)
    (parsed : ParsedUrl) (hostname : String) (checked fresh : List String) : Prop where
  parses : env.urlparse url = .ok parsed
  allowed : parsed.scheme ∈ settings.allowedSchemes
  named : parsed.hostname = some hostname ∧ hostname ≠ ""
  anyHost : settings.allowedHosts = []
  remote : env.lower hostname ≠ "localhost" ∧ env.lower hostname ≠ "localhost.localdomain"
  name : env.ipAddress (env.lower hostname) = none
  looked : env.getaddrinfo 0 (env.lower hostname) = .ok checked
  passed : ∀ address ∈ checked, ∀ ip, env.ipAddress address = some ip →
    isPrivateAddress env ip = false
  again : env.getaddrinfo 1 (env.lower hostname) = .ok fresh
  unseen : ∃ address ∈ fresh, env.tries address = true ∧
    ∀ seen ∈ checked, ∀ ip, env.ipAddress seen = some ip → env.ipAddress address ≠ some ip

variable {env : Environment Address} {settings : Settings} {url : String}

lemma checkResolved_eq_ok {infos : List String} {checked : List Address} :
    checkResolved env infos = .ok checked ↔
      (∀ address ∈ infos, ∀ ip, env.ipAddress address = some ip →
        isPrivateAddress env ip = false) ∧ infos.filterMap env.ipAddress = checked := by
  induction infos generalizing checked with
  | nil => simp [checkResolved]
  | cons address rest ih =>
    unfold checkResolved
    cases hip : env.ipAddress address with
    | none => simp [hip, ih]
    | some ip =>
      cases hprivate : isPrivateAddress env ip with
      | true => simp [hip, hprivate]
      | false =>
        simp only [Bool.false_eq_true, if_false, List.forall_mem_cons, hip, Option.some.injEq,
          forall_eq', hprivate, true_and, List.filterMap_cons]
        cases hrest : checkResolved env rest with
        | error error =>
          simp only [Except.map, reduceCtorEq, false_iff, not_and]
          intro hall _
          have hok : checkResolved env rest = .ok (rest.filterMap env.ipAddress) :=
            ih.mpr ⟨hall, rfl⟩
          simp [hrest] at hok
        | ok found =>
          obtain ⟨hall, rfl⟩ := ih.mp hrest
          simp only [Except.map, Except.ok.injEq]
          exact ⟨fun h => ⟨hall, h⟩, And.right⟩

/-- A host that passes is a public literal, or a name whose lookup has given no private address. -/
lemma rejectPrivateHost_eq_ok {host : String} {checked : List Address}
    (h : rejectPrivateHost env host = .ok checked) :
    (host ≠ "localhost" ∧ host ≠ "localhost.localdomain") ∧
    ((∃ ip, env.ipAddress host = some ip ∧ isPrivateAddress env ip = false ∧ checked = [ip]) ∨
      env.ipAddress host = none ∧ ∃ infos, env.getaddrinfo 0 host = .ok infos ∧
        (∀ address ∈ infos, ∀ ip, env.ipAddress address = some ip →
          isPrivateAddress env ip = false) ∧ infos.filterMap env.ipAddress = checked) := by
  unfold rejectPrivateHost at h
  split_ifs at h with hlocal
  refine ⟨not_or.mp hlocal, ?_⟩
  cases hip : env.ipAddress host with
  | some ip =>
    simp only [hip] at h
    split_ifs at h with hprivate
    exact .inl ⟨ip, rfl, by simpa using hprivate, (Except.ok.inj h).symm⟩
  | none =>
    simp only [hip] at h
    cases hlookup : env.getaddrinfo 0 host with
    | error error => cases error <;> simp [hlookup] at h
    | ok infos =>
      simp only [hlookup] at h
      exact .inr ⟨rfl, infos, rfl, checkResolved_eq_ok.mp h⟩

lemma rejectPrivateHost_name {host : String} {infos : List String} (hip : env.ipAddress host = none)
    (hremote : host ≠ "localhost" ∧ host ≠ "localhost.localdomain")
    (hlookup : env.getaddrinfo 0 host = .ok infos)
    (hpassed : ∀ address ∈ infos, ∀ ip, env.ipAddress address = some ip →
      isPrivateAddress env ip = false) :
    rejectPrivateHost env host = .ok (infos.filterMap env.ipAddress) := by
  have hresolved := checkResolved_eq_ok.mpr ⟨hpassed, rfl⟩
  simp [rejectPrivateHost, hip, hremote, hlookup, hresolved]

lemma validateRemoteUrl_eq_ok {checked : List Address} (hblock : settings.blockPrivateHosts = true)
    (hlist : ∀ name, host env url = some name → name ∉ settings.allowedHosts) :
    validateRemoteUrl env settings url = .ok checked ↔
      ∃ parsed hostname, env.urlparse url = .ok parsed ∧
        parsed.scheme ∈ settings.allowedSchemes ∧
        (parsed.hostname = some hostname ∧ hostname ≠ "") ∧ settings.allowedHosts = [] ∧
        rejectPrivateHost env (env.lower hostname) = .ok checked := by
  unfold validateRemoteUrl
  cases hparse : env.urlparse url with
  | error text => simp
  | ok parsed =>
    have hhost : host env url = parsed.hostname.map env.lower := by simp [host, hparse]
    cases hname : parsed.hostname with
    | none =>
      simp only [hname]
      split_ifs <;> simp [hname]
    | some hostname =>
      have hout : env.lower hostname ∉ settings.allowedHosts :=
        hlist _ (by rw [hhost, hname]; rfl)
      by_cases hscheme : parsed.scheme ∈ settings.allowedSchemes
      · by_cases hempty : hostname = ""
        · simp [hname, hscheme, hempty]
        · by_cases hany : settings.allowedHosts = []
          · simp [hname, hscheme, hempty, hany, hblock]
          · simp [hname, hscheme, hempty, hany, hout]
      · simp [hname, hscheme]

lemma connected_of_error {error : PyError} (rangeHeader : Option String)
    (h : validateRemoteUrl env settings url = .error error) :
    (remoteResponse env settings url rangeHeader).connected = [] := by
  simp [remoteResponse, h]

lemma remoteResponse_of_ok {checked : List Address} {name : String} (rangeHeader : Option String)
    (h : validateRemoteUrl env settings url = .ok checked) (hhost : host env url = some name) :
    (remoteResponse env settings url rangeHeader).checked = checked ∧
      (remoteResponse env settings url rangeHeader).connected =
        match clientAddresses env name with
        | .error _ => []
        | .ok addresses => addresses.filter env.tries := by
  unfold remoteResponse
  simp only [h, hhost]
  cases clientAddresses env name <;> simp

/-- With private hosts blocked, a call connects to checked addresses only, exactly unless the name
is rebound between its two lookups. -/
theorem pinned_iff_not_rebinds (rangeHeader : Option String)
    (hblock : settings.blockPrivateHosts = true)
    (hlist : ∀ name, host env url = some name → name ∉ settings.allowedHosts) :
    (remoteResponse env settings url rangeHeader).Pinned env ↔
      ¬ ∃ parsed hostname checked fresh,
        Rebinds env settings url parsed hostname checked fresh := by
  constructor
  · rintro hpinned ⟨parsed, hostname, infos, fresh, hr⟩
    have hhost : host env url = some (env.lower hostname) := by
      simp [host, hr.parses, hr.named.1]
    have hvalid : validateRemoteUrl env settings url = .ok (infos.filterMap env.ipAddress) :=
      (validateRemoteUrl_eq_ok hblock hlist).mpr ⟨parsed, hostname, hr.parses, hr.allowed, hr.named,
        hr.anyHost, rejectPrivateHost_name hr.name hr.remote hr.looked hr.passed⟩
    obtain ⟨hchecked, hconnected⟩ := remoteResponse_of_ok rangeHeader hvalid hhost
    obtain ⟨address, hfresh, htries, hunseen⟩ := hr.unseen
    have hin : address ∈ (remoteResponse env settings url rangeHeader).connected := by
      simp [hconnected, clientAddresses, hr.name, hr.again, hfresh, htries]
    obtain ⟨ip, hip, haddress, _⟩ := hpinned address hin
    rw [hchecked] at hip
    obtain ⟨seen, hseen, hsame⟩ := List.mem_filterMap.mp hip
    exact hunseen seen hseen ip hsame haddress
  · intro hnot address hin
    cases hvalid : validateRemoteUrl env settings url with
    | error error => simp [connected_of_error rangeHeader hvalid] at hin
    | ok checked =>
      obtain ⟨parsed, hostname, hparses, hallowed, hnamed, hany, hreject⟩ :=
        (validateRemoteUrl_eq_ok hblock hlist).mp hvalid
      have hhost : host env url = some (env.lower hostname) := by
        simp [host, hparses, hnamed.1]
      obtain ⟨hchecked, hconnected⟩ := remoteResponse_of_ok rangeHeader hvalid hhost
      rw [hchecked]
      rw [hconnected] at hin
      obtain ⟨hremote, ⟨ip, hip, hpublic, rfl⟩ | ⟨hname, infos, hlooked, hpassed, rfl⟩⟩ :=
        rejectPrivateHost_eq_ok hreject
      · simp only [clientAddresses, hip, List.mem_filter, List.mem_singleton] at hin
        exact ⟨ip, by simp, hin.1 ▸ hip, hpublic⟩
      · cases hagain : env.getaddrinfo 1 (env.lower hostname) with
        | error error => cases error <;> simp [clientAddresses, hname, hagain] at hin
        | ok fresh =>
          simp only [clientAddresses, hname, hagain, List.mem_filter] at hin
          obtain ⟨hfresh, htries⟩ := hin
          by_contra hunchecked
          refine hnot ⟨parsed, hostname, infos, fresh, hparses, hallowed, hnamed, hany, hremote,
            hname, hlooked, hpassed, hagain, address, hfresh, htries, ?_⟩
          intro seen hseen ip hip haddress
          exact hunchecked ⟨ip, List.mem_filterMap.mpr ⟨seen, hseen, hip⟩, haddress,
            hpassed seen hseen ip hip⟩

def demoAddress (text : String) : Option ℕ :=
  if text = "93.184.216.34" then some 93 else if text = "127.0.0.1" then some 127 else none

/-- A library in which only the loopback network is private, and a name server that gives `second`
when it is asked again. -/
def demoEnvironment (second : String) : Environment ℕ where
  urlparse _ := .ok { scheme := "https", hostname := some "media.example" }
  lower := id
  ipAddress := demoAddress
  isPrivate octet := octet = 127
  isLoopback octet := octet = 127
  isLinkLocal _ := false
  isMulticast _ := false
  isReserved _ := false
  isUnspecified _ := false
  getaddrinfo n _ := .ok [if n = 0 then "93.184.216.34" else second]
  tries _ := true
  respond _ _ := .ok { statusCode := 200, headers := fun _ => none }

def demoSettings : Settings where
  allowedSchemes := ["http", "https"]
  allowedHosts := []
  blockPrivateHosts := true

def demoUrl : String := "https://media.example/a.mp3"

theorem pinned_iff_not_rebinds_sameAnswer :
    (remoteResponse (demoEnvironment "93.184.216.34") demoSettings demoUrl none).Pinned
      (demoEnvironment "93.184.216.34") := by
  refine (pinned_iff_not_rebinds none rfl fun _ _ => by simp [demoSettings]).mpr ?_
  rintro ⟨parsed, hostname, checked, fresh, hr⟩
  obtain ⟨address, hfresh, _, hunseen⟩ := hr.unseen
  have hchecked : checked = ["93.184.216.34"] := (Except.ok.inj hr.looked).symm
  have hagain : fresh = ["93.184.216.34"] := (Except.ok.inj hr.again).symm
  rw [hagain, List.mem_singleton] at hfresh
  subst hfresh hchecked
  have haddress : (demoEnvironment "93.184.216.34").ipAddress "93.184.216.34" = some 93 := by
    simp [demoEnvironment, demoAddress]
  exact hunseen "93.184.216.34" (by simp) 93 haddress haddress

/-- The check sees a public address, the request connects to the loopback. -/
theorem rebound_not_pinned : ¬ ∀ (env : Environment ℕ) (settings : Settings) (url : String),
    settings.blockPrivateHosts = true →
    (∀ name, host env url = some name → name ∉ settings.allowedHosts) →
    (remoteResponse env settings url none).Pinned env := by
  intro h
  have hpinned := h (demoEnvironment "127.0.0.1") demoSettings demoUrl rfl
    fun _ _ => by simp [demoSettings]
  obtain ⟨ip, _, haddress, hpublic⟩ := hpinned "127.0.0.1" (by decide)
  have hloopback : 127 = ip := by simpa [demoEnvironment, demoAddress] using haddress
  subst hloopback
  simp [isPrivateAddress, demoEnvironment] at hpublic

end AsyncDataHub.Media
