import AsyncDataHub.RemoteMedia
import AsyncDataHub.IpAddress

/-! Which hosts the check of a remote URL lets through, by the address classes of `ipaddress`. -/
namespace AsyncDataHub.Media

/-- The library's own address classes; its parser, the resolver and the client stay parameters. -/
def standard (env : Environment IpAddress) : Environment IpAddress :=
  { env with
    isPrivate := IpAddress.isPrivate
    isLoopback := IpAddress.isLoopback
    isLinkLocal := IpAddress.isLinkLocal
    isMulticast := IpAddress.isMulticast
    isReserved := IpAddress.isReserved
    isUnspecified := IpAddress.isUnspecified }

def GlobalUnicast (ip : IpAddress) : Prop := ip.isGlobal = true ∧ ip.isMulticast = false

/-- A public literal, or a name whose lookup gives public addresses and nothing else. -/
inductive Routable (env : Environment IpAddress) (name : String) : Prop
  | literal {ip : IpAddress} (parsed : env.ipAddress name = some ip) (routable : GlobalUnicast ip)
  | lookup {infos : List String} (unparsed : env.ipAddress name = none)
      (looked : env.getaddrinfo 0 name = .ok infos)
      (routable : ∀ text ∈ infos, ∃ ip, env.ipAddress text = some ip ∧ GlobalUnicast ip)

/-- What passes the check is routable. -/
def OnlyRoutable (env : Environment IpAddress) (settings : Settings) (url : String) : Prop :=
  ∀ checked, validateRemoteUrl (standard env) settings url = .ok checked →
    ∃ name, host env url = some name ∧ Routable env name

/-- A shared literal, or a lookup without private addresses in which something is shared or is no
address at all. -/
inductive Overlooked (env : Environment IpAddress) (name : String) : Prop
  | literal {ip : IpAddress} (parsed : env.ipAddress name = some ip) (shared : ip.isShared = true)
  | lookup {infos : List String} (unparsed : env.ipAddress name = none)
      (looked : env.getaddrinfo 0 name = .ok infos)
      (passed : ∀ text ∈ infos, ∀ ip, env.ipAddress text = some ip →
        isPrivateAddress (standard env) ip = false)
      (odd : ∃ text ∈ infos, ∀ ip, env.ipAddress text = some ip → ip.isShared = true)

/-- A URL whose scheme is allowed, with an overlooked host, when no list restricts the hosts. -/
structure Leaks (env : Environment IpAddress) (settings : Settings) (url : String)
    (parsed : ParsedUrl) (hostname : String) : Prop where
  parses : env.urlparse url = .ok parsed
  allowed : parsed.scheme ∈ settings.allowedSchemes
  named : parsed.hostname = some hostname ∧ hostname ≠ ""
  anyHost : settings.allowedHosts = []
  remote : env.lower hostname ≠ "localhost" ∧ env.lower hostname ≠ "localhost.localdomain"
  overlooked : Overlooked env (env.lower hostname)

variable {env : Environment IpAddress} {settings : Settings} {url name : String} {ip : IpAddress}

lemma isPrivateAddress_eq_false : isPrivateAddress (standard env) ip = false ↔
    ip.isPrivate = false ∧ ip.isLoopback = false ∧ ip.isLinkLocal = false ∧
      ip.isMulticast = false ∧ ip.isReserved = false ∧ ip.isUnspecified = false := by
  simp [isPrivateAddress, standard, and_assoc]

lemma passes_of_shared (h : ip.isShared = true) : isPrivateAddress (standard env) ip = false :=
  isPrivateAddress_eq_false.mpr (IpAddress.classes_of_shared h)

lemma not_globalUnicast_of_shared (h : ip.isShared = true) : ¬ GlobalUnicast ip := by
  rintro ⟨hglobal, -⟩
  simp [IpAddress.isGlobal_eq_false.mpr (.inr h)] at hglobal

/-- Of the addresses that pass only the shared ones are not routable. -/
lemma globalUnicast_of_passes (h : isPrivateAddress (standard env) ip = false)
    (hshared : ip.isShared ≠ true) : GlobalUnicast ip := by
  obtain ⟨hprivate, -, -, hmulticast, -, -⟩ := isPrivateAddress_eq_false.mp h
  refine ⟨?_, hmulticast⟩
  by_contra hglobal
  rcases IpAddress.isGlobal_eq_false.mp (Bool.not_eq_true _ ▸ hglobal) with hp | hs
  · simp [hp] at hprivate
  · exact hshared hs

lemma not_routable_of_overlooked (h : Overlooked env name) : ¬ Routable env name := by
  intro hroutable
  cases h with
  | literal hparsed hshared =>
    cases hroutable with
    | literal hparsed' hglobal =>
      rw [hparsed, Option.some.injEq] at hparsed'
      exact not_globalUnicast_of_shared hshared (hparsed' ▸ hglobal)
    | lookup hunparsed _ _ => simp [hparsed] at hunparsed
  | lookup hunparsed hlooked _ hodd =>
    cases hroutable with
    | literal hparsed _ => simp [hparsed] at hunparsed
    | lookup _ hlooked' hall =>
      rw [hlooked, Except.ok.injEq] at hlooked'
      obtain ⟨text, htext, hshared⟩ := hodd
      obtain ⟨ip, hip, hglobal⟩ := hall text (hlooked' ▸ htext)
      exact not_globalUnicast_of_shared (hshared ip hip) hglobal

lemma routable_of_rejectPrivateHost {checked : List IpAddress}
    (h : rejectPrivateHost (standard env) name = .ok checked) (hno : ¬ Overlooked env name) :
    Routable env name := by
  obtain ⟨-, ⟨ip, hip, hpasses, -⟩ | ⟨hname, infos, hlooked, hpassed, -⟩⟩ :=
    rejectPrivateHost_eq_ok h
  · refine .literal hip (globalUnicast_of_passes hpasses fun hshared => ?_)
    exact hno (.literal hip hshared)
  · refine .lookup hname hlooked fun text htext => ?_
    by_contra hnone
    refine hno (.lookup hname hlooked hpassed ⟨text, htext, fun ip hip => ?_⟩)
    by_contra hshared
    exact hnone ⟨ip, hip, globalUnicast_of_passes (hpassed text htext ip hip) hshared⟩

lemma rejectPrivateHost_of_overlooked (h : Overlooked env name)
    (hremote : name ≠ "localhost" ∧ name ≠ "localhost.localdomain") :
    ∃ checked, rejectPrivateHost (standard env) name = .ok checked := by
  cases h with
  | literal hparsed hshared =>
    rename_i ip
    have hpasses : isPrivateAddress (standard env) ip = false := passes_of_shared hshared
    have hip : (standard env).ipAddress name = some ip := hparsed
    exact ⟨[ip], by simp [rejectPrivateHost, hremote, hip, hpasses]⟩
  | lookup hunparsed hlooked hpassed _ =>
    exact ⟨_, rejectPrivateHost_name hunparsed hremote hlooked hpassed⟩

/-- With private hosts blocked, and a host that is on no list, what passes the check is public
exactly unless a shared address or something that is no address is overlooked. -/
theorem onlyRoutable_iff (hblock : settings.blockPrivateHosts = true)
    (hlist : ∀ name, host env url = some name → name ∉ settings.allowedHosts) :
    OnlyRoutable env settings url ↔
      ¬ ∃ parsed hostname, Leaks env settings url parsed hostname := by
  have hvalid : ∀ checked, validateRemoteUrl (standard env) settings url = .ok checked ↔ _ :=
    fun checked => validateRemoteUrl_eq_ok hblock hlist
  constructor
  · rintro honly ⟨parsed, hostname, hl⟩
    obtain ⟨checked, hreject⟩ := rejectPrivateHost_of_overlooked hl.overlooked hl.remote
    obtain ⟨name, hname, hroutable⟩ := honly checked ((hvalid checked).mpr
      ⟨parsed, hostname, hl.parses, hl.allowed, hl.named, hl.anyHost, hreject⟩)
    have hhost : host env url = some (env.lower hostname) := by simp [host, hl.parses, hl.named.1]
    rw [hhost, Option.some.injEq] at hname
    exact not_routable_of_overlooked hl.overlooked (hname ▸ hroutable)
  · intro hno checked hok
    obtain ⟨parsed, hostname, hparses, hallowed, hnamed, hany, hreject⟩ := (hvalid checked).mp hok
    refine ⟨env.lower hostname, ?_, routable_of_rejectPrivateHost hreject fun hover => ?_⟩
    · have hparses' : env.urlparse url = .ok parsed := hparses
      simp [host, hparses', hnamed.1]
    · exact hno ⟨parsed, hostname, hparses, hallowed, hnamed, hany,
        (rejectPrivateHost_eq_ok hreject).1, hover⟩

/-- A name server that gives one address. -/
def oneAddress (text : String) (ip : IpAddress) : Environment IpAddress where
  urlparse _ := .ok { scheme := "https", hostname := some "media.example" }
  lower := id
  ipAddress name := if name = text then some ip else none
  isPrivate _ := false
  isLoopback _ := false
  isLinkLocal _ := false
  isMulticast _ := false
  isReserved _ := false
  isUnspecified _ := false
  getaddrinfo _ _ := .ok [text]
  tries _ := true
  respond _ _ := .ok { statusCode := 200, headers := fun _ => none }

theorem onlyRoutable_iff_public :
    OnlyRoutable (oneAddress "93.184.216.34" (.v4 0x5db8d822#32)) demoSettings demoUrl := by
  refine (onlyRoutable_iff rfl fun _ _ => by simp [demoSettings]).mpr ?_
  rintro ⟨parsed, hostname, hl⟩
  have hhostname : parsed = ⟨"https", some "media.example"⟩ := (Except.ok.inj hl.parses).symm
  have hover := hl.overlooked
  cases hover with
  | literal hparsed hshared =>
    have hnamed := hl.named.1
    rw [hhostname, Option.some.injEq] at hnamed
    subst hnamed
    simp [oneAddress] at hparsed
  | lookup _ hlooked _ hodd =>
    obtain ⟨text, htext, hshared⟩ := hodd
    obtain rfl := Except.ok.inj hlooked
    obtain rfl := List.mem_singleton.mp htext
    have hpublic := hshared (.v4 0x5db8d822#32) (by simp [oneAddress])
    revert hpublic
    decide +kernel

/-- `100.64.0.1` passes, and it is not global. -/
theorem sharedAddress_passes : ¬ ∀ (env : Environment IpAddress) (settings : Settings)
    (url : String), settings.blockPrivateHosts = true →
    (∀ name, host env url = some name → name ∉ settings.allowedHosts) →
    OnlyRoutable env settings url := by
  intro h
  have honly := h (oneAddress "100.64.0.1" (.v4 0x64400001#32)) demoSettings demoUrl rfl
    fun _ _ => by simp [demoSettings]
  obtain ⟨name, hname, hroutable⟩ := honly [.v4 0x64400001#32] (by decide +kernel)
  have hshared : IpAddress.isShared (.v4 0x64400001#32) = true := by decide +kernel
  obtain rfl := Option.some.inj hname
  cases hroutable with
  | literal hparsed _ => simp [oneAddress] at hparsed
  | lookup _ hlooked hall =>
    obtain rfl := Except.ok.inj hlooked
    obtain ⟨ip, hip, hglobal⟩ := hall "100.64.0.1" (by simp)
    have hsame : ip = .v4 0x64400001#32 := by simpa [oneAddress, eq_comm] using hip
    exact not_globalUnicast_of_shared hshared (hsame ▸ hglobal)

end AsyncDataHub.Media
