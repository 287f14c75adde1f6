import Relay.Config.Validate
import Relay.Dns.Upstream.HostPort

/-!
`dns/upstream/resolver.rs`: which hosts a server resolves with the default name
servers, and whether `Config::validate` asks for these exactly when there is
such a host.
-/

namespace Relay.Dns.Upstream

open Binary Text

/-- A host of a URL: a name, or an address. -/
inductive Host where
  | domain (name : String)
  | ip (addr : IpAddr)
  deriving DecidableEq, Repr

/-- A host as `resolve` takes it. -/
def Host.ofText (T : NetText) (host : String) : Host :=
  match T.ipAddr host with
  | some addr => .ip addr
  | none => .domain host

variable (T : NetText) (urlHost : String → Option Host)

/-- The host of a server that is connected to by its host; for a DoH server as
the URL parser gives it. -/
def UpstreamKind.host? : UpstreamKind → Option Host
  | .tls host _ _ => some (.ofText T host)
  | .quic host _ _ => some (.ofText T host)
  | .https url _ => urlHost url
  | _ => none

/-- Some server of the configuration has a host that has to be resolved. -/
def ResolvesDomain (c : Config) : Prop :=
  ∃ g ∈ c.groups.values, ∃ url ∈ g.servers, ∃ kind name,
    parseUpstreamUrl T url g.insecure = .ok kind ∧ kind.host? T urlHost = some (.domain name)

/-! ### How the hosts are written -/

/-- The text begins with an IPv4 address that a slash, a colon or the end
follows. -/
def BeginsWithIpv4 (text : String) : Prop :=
  ∃ ip rest : String, text = ip ++ rest ∧ isIpv4 T ip = true ∧
    ∀ c, rest.toList.head? = some c → c = '/' ∨ c = ':'

/-- An IPv4 address is the first thing behind the scheme. -/
def WrittenIp (url : String) : Prop :=
  ∃ scheme rest, splitOnce url "://" = some (scheme, rest) ∧ BeginsWithIpv4 T rest

/-- What stands before the last colon, if there is one. -/
def beforePort (text : String) : String :=
  match splitLast ':' text with
  | none => text
  | some (host, _) => host

/-- A TLS or QUIC server has no bracket and no address before its port, or the
URL of a DoH server has a name for its host. -/
def DomainHost (url : String) : Prop :=
  ∃ scheme rest, splitOnce url "://" = some (scheme, rest) ∧
    (((scheme = "tls" ∨ scheme = "quic") ∧ (beforeFirst '/' rest).toList.head? ≠ some '[' ∧
        T.ipAddr (beforePort (beforeFirst '/' rest)) = none) ∨
      (scheme = "https" ∧ ∃ name, urlHost url = some (.domain name)))

/-- Groups with a TLS, DoH or QUIC server. -/
def encryptedGroups (c : Config) : List UpstreamGroupCfg :=
  c.groups.values.filter fun g => g.servers.any hasEncryptedScheme

/-- A name that the check sees as one. -/
def PlainDomain (c : Config) : Prop :=
  ∃ g ∈ encryptedGroups c, ∃ url ∈ g.servers, DomainHost T urlHost url ∧ ¬ WrittenIp T url

/-- A name that the check takes for an address. -/
def DisguisedDomain (c : Config) : Prop :=
  ∃ g ∈ encryptedGroups c, ∃ url ∈ g.servers, DomainHost T urlHost url ∧ WrittenIp T url

/-- A server without a name that the check takes for one. -/
def OpaqueServer (c : Config) : Prop :=
  ∃ g ∈ encryptedGroups c, ∃ url ∈ g.servers, ¬ DomainHost T urlHost url ∧ ¬ WrittenIp T url

variable {T : NetText} {urlHost : String → Option Host}

/-! ### The scheme of a URL -/

theorem splitOnce_scheme {scheme : String} (h : ':' ∉ scheme.toList) (rest : String) :
    splitOnce (scheme ++ "://" ++ rest) "://" = some (scheme, rest) := by
  have hchars : (scheme ++ "://" ++ rest).toList =
      scheme.toList ++ (':' :: ['/', '/']) ++ rest.toList := by simp
  have hsep : ("://" : String).toList = ':' :: ['/', '/'] := rfl
  rw [splitOnce, hchars, hsep, splitOnceChars_front h, Option.map_some]
  simp only [String.ofList_toList]

theorem eq_of_splitOnce {s sep front back : String} (h : splitOnce s sep = some (front, back)) :
    s = front ++ sep ++ back := by
  obtain ⟨⟨front', back'⟩, hchars, heq⟩ := Option.map_eq_some_iff.mp h
  cases heq
  apply String.toList_injective
  simp [splitOnceChars_eq_some hchars]

theorem stripPrefix_scheme_iff (scheme : String) {front url rest : String}
    (hfront : front = scheme ++ "://") (h : ':' ∉ scheme.toList) :
    stripPrefix url front = some rest ↔ splitOnce url "://" = some (scheme, rest) := by
  subst hfront
  constructor
  · intro hstrip
    rw [stripPrefix_eq_some hstrip]
    exact splitOnce_scheme h rest
  · intro hsplit
    rw [eq_of_splitOnce hsplit]
    exact stripPrefix_append _ rest

/-! ### What the check reads -/

/-- The check takes everything up to the first slash or colon behind the scheme. -/
theorem hostOfUrl_of_splitOnce {url scheme rest : String}
    (h : splitOnce url "://" = some (scheme, rest)) :
    hostOfUrl url = String.ofList (rest.toList.takeWhile fun c => c ≠ ':' ∧ c ≠ '/') := by
  have hnested : ∀ text : String, beforeFirst ':' (beforeFirst '/' text) =
      String.ofList (text.toList.takeWhile fun c => c ≠ ':' ∧ c ≠ '/') := by
    intro text
    simp only [beforeFirst, String.toList_ofList, List.takeWhile_takeWhile, decide_eq_true_eq]
  unfold hostOfUrl
  simp only [h]
  cases hsecond : splitOnce rest "://" with
  | none => exact hnested rest
  | some parts =>
      have hrest : rest.toList = parts.1.toList ++ ':' :: ('/' :: '/' :: parts.2.toList) := by
        conv => lhs; rw [eq_of_splitOnce hsecond]
        simp
      dsimp only
      rw [hnested, hrest, List.takeWhile_append]
      split
      · rename_i hlength
        have hall := (List.takeWhile_prefix _).eq_of_length hlength
        rw [hall]
        simp
      · simp

theorem IpLiterals.not_empty {T : NetText} (hT : IpLiterals T) : T.ipAddr "" = none := by
  cases h : T.ipAddr "" with
  | none => rfl
  | some addr =>
      cases addr with
      | v4 addr => exact absurd rfl (hT.v4 "" addr h).1
      | v6 addr => exact absurd (hT.v6 "" addr h).1 (by simp)

theorem ipAddr_takeWhile_iff (hT : IpLiterals T) (text : String) :
    (T.ipAddr (String.ofList (text.toList.takeWhile fun c => c ≠ ':' ∧ c ≠ '/'))).isSome = true ↔
      BeginsWithIpv4 T text := by
  constructor
  · intro hsome
    obtain ⟨addr, haddr⟩ := Option.isSome_iff_exists.mp hsome
    refine ⟨String.ofList (text.toList.takeWhile fun c => c ≠ ':' ∧ c ≠ '/'),
      String.ofList (text.toList.dropWhile fun c => c ≠ ':' ∧ c ≠ '/'), ?_, ?_, ?_⟩
    · apply String.toList_injective
      rw [String.toList_append, String.toList_ofList, String.toList_ofList,
        List.takeWhile_append_dropWhile]
    · cases addr with
      | v4 addr => exact isIpv4_iff.mpr ⟨addr, haddr⟩
      | v6 addr =>
          exfalso
          have hcolon := (hT.v6 _ addr haddr).1
          rw [String.toList_ofList] at hcolon
          simpa using List.mem_takeWhile_imp hcolon
    · intro c hc
      rw [String.toList_ofList] at hc
      have hstop := List.head?_dropWhile_not (fun c => decide (c ≠ ':' ∧ c ≠ '/')) text.toList
      rw [hc] at hstop
      by_contra hneither
      simp [not_or.mp hneither] at hstop
  · rintro ⟨ip, rest, rfl, hip, hrest⟩
    obtain ⟨hne, hchars⟩ := isDomain_of_isIpv4 hT hip
    have hall : ∀ c ∈ ip.toList, decide (c ≠ ':' ∧ c ≠ '/') = true := by
      intro c hc
      simpa using ⟨(hchars c hc).1, (hchars c hc).2.1⟩
    have hstop : rest.toList.takeWhile (fun c => decide (c ≠ ':' ∧ c ≠ '/')) = [] := by
      cases hcs : rest.toList with
      | nil => rfl
      | cons c cs =>
          rw [List.takeWhile_cons]
          rcases hrest c (by simp [hcs]) with rfl | rfl <;> simp
    rw [String.toList_append, List.takeWhile_append_of_pos hall, hstop, List.append_nil,
      String.ofList_toList]
    obtain ⟨addr, haddr⟩ := isIpv4_iff.mp hip
    rw [haddr]
    rfl

theorem ipAddr_hostOfUrl_iff (hT : IpLiterals T) (url : String) :
    (T.ipAddr (hostOfUrl url)).isNone = true ↔ ¬ WrittenIp T url := by
  rw [Option.isNone_iff_eq_none, ← Option.not_isSome_iff_eq_none, not_iff_not]
  cases hsplit : splitOnce url "://" with
  | none =>
      have hempty : hostOfUrl url = "" := by
        unfold hostOfUrl
        rw [hsplit]
        rfl
      simp [hempty, hT.not_empty, WrittenIp, hsplit]
  | some parts =>
      rw [hostOfUrl_of_splitOnce hsplit, ipAddr_takeWhile_iff hT]
      constructor
      · intro hbegins
        exact ⟨parts.1, parts.2, hsplit, hbegins⟩
      · rintro ⟨scheme, rest, heq, hbegins⟩
        cases hsplit.symm.trans heq
        exact hbegins

theorem hasDomainUpstream_iff (hT : IpLiterals T) (c : Config) :
    c.hasDomainUpstream T = true ↔
      ∃ g ∈ encryptedGroups c, ∃ url ∈ g.servers, ¬ WrittenIp T url := by
  simp only [Config.hasDomainUpstream, encryptedGroups, List.any_eq_true, Bool.and_eq_true,
    List.mem_filter, ipAddr_hostOfUrl_iff hT, and_assoc]

/-! ### What the server resolves -/

/-- The host of a server that is parsed has to be resolved when it has neither
brackets nor an address before its port. -/
theorem ofText_eq_domain_iff {s host : String} {defaultPort port : UInt16}
    (h : parseHostPort T s defaultPort = .ok (host, port)) :
    (∃ name, Host.ofText T host = .domain name) ↔
      (beforeFirst '/' s).toList.head? ≠ some '[' ∧
        T.ipAddr (beforePort (beforeFirst '/' s)) = none := by
  have hname : (∃ name, Host.ofText T host = .domain name) ↔ T.ipAddr host = none := by
    unfold Host.ofText
    cases T.ipAddr host <;> simp
  rw [hname]
  have hbracketed : isIpv6 T host = true → T.ipAddr host ≠ none := by
    intro hhost hnone
    obtain ⟨addr, haddr⟩ := isIpv6_iff.mp hhost
    rw [hnone] at haddr
    cases haddr
  have haccepts := accepts_of_parseHostPort rfl h
  generalize beforeFirst '/' s = text at haccepts ⊢
  cases haccepts with
  | bracketed hhost => simp [hbracketed hhost]
  | bracketedPort hhost hport => simp [hbracketed hhost]
  | plain hne hhead hcolon =>
      rw [beforePort, splitLast_eq_none hcolon]
      exact ⟨fun hnone => ⟨hhead, hnone⟩, And.right⟩
  | @plainPort _ digits _ hne hhead hport =>
      rw [beforePort, splitLast_append rfl hport.no_colon]
      refine ⟨fun hnone => ⟨?_, hnone⟩, And.right⟩
      rwa [String.append_assoc, head?_append_of_ne hne]

theorem startsWith_scheme_iff (scheme : String) {front url : String}
    (hfront : front = scheme ++ "://") (h : ':' ∉ scheme.toList) :
    startsWith url front = true ↔ ∃ rest, splitOnce url "://" = some (scheme, rest) := by
  have hstrip : startsWith url front = (stripPrefix url front).isSome := by
    simp [startsWith, stripPrefix]
  rw [hstrip, Option.isSome_iff_exists]
  simp only [stripPrefix_scheme_iff scheme hfront h]

theorem hasEncryptedScheme_of_domainHost {url : String} (h : DomainHost T urlHost url) :
    hasEncryptedScheme url = true := by
  obtain ⟨scheme, rest, hsplit, hscheme⟩ := h
  unfold hasEncryptedScheme
  rw [Bool.or_eq_true, Bool.or_eq_true]
  rcases hscheme with ⟨rfl | rfl, -⟩ | ⟨rfl, -⟩
  · exact Or.inl (Or.inl ((startsWith_scheme_iff "tls" rfl (by decide)).mpr ⟨rest, hsplit⟩))
  · exact Or.inr ((startsWith_scheme_iff "quic" rfl (by decide)).mpr ⟨rest, hsplit⟩)
  · exact Or.inl (Or.inr ((startsWith_scheme_iff "https" rfl (by decide)).mpr ⟨rest, hsplit⟩))

theorem domainHost_of_splitOnce {url scheme rest : String}
    (h : splitOnce url "://" = some (scheme, rest)) :
    DomainHost T urlHost url ↔
      ((scheme = "tls" ∨ scheme = "quic") ∧ (beforeFirst '/' rest).toList.head? ≠ some '[' ∧
        T.ipAddr (beforePort (beforeFirst '/' rest)) = none) ∨
      (scheme = "https" ∧ ∃ name, urlHost url = some (.domain name)) := by
  constructor
  · rintro ⟨scheme', rest', heq, hscheme⟩
    cases h.symm.trans heq
    exact hscheme
  · intro hscheme
    exact ⟨scheme, rest, h, hscheme⟩

theorem splitOnce_of_stripPrefix {url rest front : String} (scheme : String)
    (h : stripPrefix url front = some rest) (hfront : front = scheme ++ "://")
    (hcolon : ':' ∉ scheme.toList) : splitOnce url "://" = some (scheme, rest) :=
  (stripPrefix_scheme_iff scheme hfront hcolon).mp h

/-- What a URL is parsed to, by its scheme. -/
inductive Parsed (T : NetText) (url : String) (insecure : Bool) : UpstreamKind → Prop where
  | tls {rest host : String} {port : UInt16} : splitOnce url "://" = some ("tls", rest) →
      parseHostPort T rest 853 = .ok (host, port) → Parsed T url insecure (.tls host port insecure)
  | quic {rest host : String} {port : UInt16} : splitOnce url "://" = some ("quic", rest) →
      parseHostPort T rest 853 = .ok (host, port) → Parsed T url insecure (.quic host port insecure)
  | https {rest : String} : splitOnce url "://" = some ("https", rest) →
      Parsed T url insecure (.https url insecure)
  /-- No host is connected to by its name. -/
  | other {kind : UpstreamKind} : (∀ scheme rest, splitOnce url "://" = some (scheme, rest) →
      scheme ∈ ["udp", "tcp", "dhcp", "rcode"]) → (∀ urlHost, kind.host? T urlHost = none) →
      Parsed T url insecure kind

theorem parsed_of_parseUpstreamUrl {url : String} {insecure : Bool} {kind : UpstreamKind}
    (h : parseUpstreamUrl T url insecure = .ok kind) : Parsed T url insecure kind := by
  have hone : ∀ {scheme rest : String}, splitOnce url "://" = some (scheme, rest) →
      scheme ∈ ["udp", "tcp", "dhcp", "rcode"] → ∀ scheme' rest',
      splitOnce url "://" = some (scheme', rest') → scheme' ∈ ["udp", "tcp", "dhcp", "rcode"] := by
    intro scheme rest hsplit hscheme scheme' rest' hsplit'
    cases hsplit.symm.trans hsplit'
    exact hscheme
  unfold parseUpstreamUrl at h
  split at h
  · rename_i rest hstrip
    obtain ⟨addr, -, hkind⟩ := run_bind_eq_ok.mp h
    cases hkind
    exact Parsed.other (hone (splitOnce_of_stripPrefix "udp" hstrip rfl (by decide)) (by decide))
      (fun _ => rfl)
  split at h
  · rename_i rest hstrip
    obtain ⟨addr, -, hkind⟩ := run_bind_eq_ok.mp h
    cases hkind
    exact Parsed.other (hone (splitOnce_of_stripPrefix "tcp" hstrip rfl (by decide)) (by decide))
      (fun _ => rfl)
  split at h
  · rename_i rest hstrip
    obtain ⟨entry, hparse, hkind⟩ := run_bind_eq_ok.mp h
    cases hkind
    exact Parsed.tls (splitOnce_of_stripPrefix "tls" hstrip rfl (by decide)) hparse
  split at h
  · rename_i hstarts
    obtain ⟨rest, hsplit⟩ := (startsWith_scheme_iff "https" rfl (by decide)).mp hstarts
    split at h
    · cases h
      exact Parsed.https hsplit
    · cases h
  split at h
  · rename_i rest hstrip
    obtain ⟨entry, hparse, hkind⟩ := run_bind_eq_ok.mp h
    cases hkind
    exact Parsed.quic (splitOnce_of_stripPrefix "quic" hstrip rfl (by decide)) hparse
  split at h
  · rename_i rest hstrip
    cases h
    exact Parsed.other (hone (splitOnce_of_stripPrefix "dhcp" hstrip rfl (by decide)) (by decide))
      (fun _ => rfl)
  split at h
  · rename_i rest hstrip
    obtain ⟨code, -, hkind⟩ := run_bind_eq_ok.mp h
    cases hkind
    exact Parsed.other (hone (splitOnce_of_stripPrefix "rcode" hstrip rfl (by decide)) (by decide))
      (fun _ => rfl)
  split at h
  · cases h
  · rename_i hscheme
    unfold parseBareAddr at h
    split at h
    · cases h
      refine Parsed.other ?_ (fun _ => rfl)
      intro scheme rest hsplit
      exfalso
      apply hscheme
      obtain ⟨parts, hparts, -⟩ := Option.map_eq_some_iff.mp hsplit
      rw [contains, hparts]
      rfl
    · cases h

/-- A server that is parsed has to resolve its host when it is so written. -/
theorem host?_eq_domain_iff {url : String} {insecure : Bool} {kind : UpstreamKind}
    (h : parseUpstreamUrl T url insecure = .ok kind) :
    (∃ name, kind.host? T urlHost = some (.domain name)) ↔ DomainHost T urlHost url := by
  cases parsed_of_parseUpstreamUrl h with
  | tls hsplit hparse =>
      rw [domainHost_of_splitOnce hsplit, ← ofText_eq_domain_iff hparse]
      simp [UpstreamKind.host?]
  | quic hsplit hparse =>
      rw [domainHost_of_splitOnce hsplit, ← ofText_eq_domain_iff hparse]
      simp [UpstreamKind.host?]
  | https hsplit =>
      rw [domainHost_of_splitOnce hsplit]
      simp [UpstreamKind.host?]
  | other hscheme hnone =>
      rw [hnone]
      refine iff_of_false (by simp) ?_
      rintro ⟨scheme, rest, hsplit, hnamed⟩
      have hmem := hscheme scheme rest hsplit
      rcases hnamed with ⟨rfl | rfl, -⟩ | ⟨rfl, -⟩ <;> simp at hmem

theorem resolvesDomain_iff {c : Config}
    (hparse : ∀ g ∈ c.groups.values, ∀ url ∈ g.servers,
      ∃ kind, parseUpstreamUrl T url g.insecure = .ok kind) :
    ResolvesDomain T urlHost c ↔
      ∃ g ∈ encryptedGroups c, ∃ url ∈ g.servers, DomainHost T urlHost url := by
  constructor
  · rintro ⟨g, hg, url, hurl, kind, name, hkind, hhost⟩
    have hdomain : DomainHost T urlHost url := (host?_eq_domain_iff hkind).mp ⟨name, hhost⟩
    have hencrypted : g.servers.any hasEncryptedScheme = true :=
      List.any_eq_true.mpr ⟨url, hurl, hasEncryptedScheme_of_domainHost hdomain⟩
    exact ⟨g, List.mem_filter.mpr ⟨hg, hencrypted⟩, url, hurl, hdomain⟩
  · rintro ⟨g, hg, url, hurl, hdomain⟩
    obtain ⟨hgroup, -⟩ := List.mem_filter.mp hg
    obtain ⟨kind, hkind⟩ := hparse g hgroup url hurl
    obtain ⟨name, hhost⟩ := (host?_eq_domain_iff hkind).mpr hdomain
    exact ⟨g, hgroup, url, hurl, kind, name, hkind, hhost⟩

theorem validateRulesets_ne_required (c : Config) (entries : List RulesetEntry) :
    c.validateRulesets entries ≠ .error .defaultNameserverRequired := by
  induction entries with
  | nil =>
      intro h
      cases h
  | cons entry entries ih =>
      rw [Config.validateRulesets]
      split
      · exact ih
      · intro h
        cases h

theorem web_validate_ne_required (web : WebConfig) :
    web.validate ≠ .error .defaultNameserverRequired := by
  unfold WebConfig.validate
  intro h
  split at h
  · cases h
  split at h
  · cases h
  split at h <;> cases h

/-- The only check that fails for a missing default name server. -/
theorem validate_eq_required_iff {c : Config} (hdefault : c.groups.containsKey "default" = true)
    (hport : c.manageResolvConf = true → c.listen.port = 53)
    (hon : c.firewallEnabled = true ∨ c.manageResolvConf = true) (hempty : c.defaultNameserver = []) :
    c.validate T = .error .defaultNameserverRequired ↔ c.hasDomainUpstream T = true := by
  have hfirst : ¬ ¬ c.groups.containsKey "default" = true := not_not_intro hdefault
  have hsecond : ¬ (c.manageResolvConf = true ∧ c.listen.port ≠ 53) := by
    rintro ⟨hmanage, hne⟩
    exact hne (hport hmanage)
  unfold Config.validate
  rw [if_neg hfirst, if_neg hsecond]
  constructor
  · intro h
    by_contra hnone
    rw [if_neg fun hall => hnone hall.2.2] at h
    cases hrulesets : c.validateRulesets c.rulesets with
    | error e =>
        rw [hrulesets] at h
        cases h
        exact validateRulesets_ne_required c c.rulesets hrulesets
    | ok u =>
        rw [hrulesets] at h
        exact web_validate_ne_required c.web h
  · intro h
    exact if_pos ⟨hon, hempty, h⟩

theorem hasDomainUpstream_iff_plain_or_opaque (hT : IpLiterals T) (urlHost : String → Option Host)
    (c : Config) :
    c.hasDomainUpstream T = true ↔ PlainDomain T urlHost c ∨ OpaqueServer T urlHost c := by
  rw [hasDomainUpstream_iff hT]
  constructor
  · rintro ⟨g, hg, url, hurl, hwritten⟩
    by_cases hdomain : DomainHost T urlHost url
    · exact Or.inl ⟨g, hg, url, hurl, hdomain, hwritten⟩
    · exact Or.inr ⟨g, hg, url, hurl, hdomain, hwritten⟩
  · rintro (⟨g, hg, url, hurl, -, hwritten⟩ | ⟨g, hg, url, hurl, -, hwritten⟩) <;>
      exact ⟨g, hg, url, hurl, hwritten⟩

theorem resolvesDomain_iff_plain_or_disguised {c : Config}
    (hparse : ∀ g ∈ c.groups.values, ∀ url ∈ g.servers,
      ∃ kind, parseUpstreamUrl T url g.insecure = .ok kind) :
    ResolvesDomain T urlHost c ↔ PlainDomain T urlHost c ∨ DisguisedDomain T urlHost c := by
  rw [resolvesDomain_iff hparse]
  constructor
  · rintro ⟨g, hg, url, hurl, hdomain⟩
    by_cases hwritten : WrittenIp T url
    · exact Or.inr ⟨g, hg, url, hurl, hdomain, hwritten⟩
    · exact Or.inl ⟨g, hg, url, hurl, hdomain, hwritten⟩
  · rintro (⟨g, hg, url, hurl, hdomain, -⟩ | ⟨g, hg, url, hurl, hdomain, -⟩) <;>
      exact ⟨g, hg, url, hurl, hdomain⟩

/-- The check agrees with the resolver when some name is seen as one, or when
there is a server taken for a name just in case there is a name taken for an
address. -/
theorem validate_agrees_iff (T : NetText) (hT : IpLiterals T) (urlHost : String → Option Host)
    (c : Config) (hdefault : c.groups.containsKey "default" = true)
    (hport : c.manageResolvConf = true → c.listen.port = 53)
    (hon : c.firewallEnabled = true ∨ c.manageResolvConf = true) (hempty : c.defaultNameserver = [])
    (hparse : ∀ g ∈ c.groups.values, ∀ url ∈ g.servers,
      ∃ kind, parseUpstreamUrl T url g.insecure = .ok kind) :
    (c.validate T = .error .defaultNameserverRequired ↔ ResolvesDomain T urlHost c) ↔
      PlainDomain T urlHost c ∨ (OpaqueServer T urlHost c ↔ DisguisedDomain T urlHost c) := by
  rw [validate_eq_required_iff hdefault hport hon hempty,
    hasDomainUpstream_iff_plain_or_opaque hT urlHost c, resolvesDomain_iff_plain_or_disguised hparse]
  by_cases hplain : PlainDomain T urlHost c <;> simp [hplain]

/-- A standard library that reads the one address. -/
def oneAddressText : NetText where
  socketAddr _ := none
  ipAddr text := if text = "1.1.1.1" then some (.v4 0x01010101) else none
  validUrl _ := false

theorem oneAddressText_literals : IpLiterals oneAddressText where
  v4 := by
    intro text addr h
    change (if text = "1.1.1.1" then _ else _) = _ at h
    split at h
    · rename_i htext
      subst htext
      refine ⟨by decide, ?_⟩
      intro c hc
      have hone : c = '1' ∨ c = '.' := by
        simp only [String.reduceToList, List.mem_cons, List.not_mem_nil, or_false] at hc
        tauto
      rcases hone with rfl | rfl
      · exact Or.inl rfl
      · exact Or.inr rfl
    · cases h
  v6 := by
    intro text addr h
    change (if text = "1.1.1.1" then _ else _) = _ at h
    split at h <;> cases h

/-- The program serves resolv.conf, with these servers and no default ones. -/
def serversOnly (servers : List String) : Config where
  listen := ⟨.v4 0, 53⟩
  manageResolvConf := true
  groups := { entries := [("default", { servers := servers })] }

theorem serversOnly_parse {servers : List String}
    (h : ∀ url ∈ servers, ∃ kind, parseUpstreamUrl oneAddressText url false = .ok kind) :
    ∀ g ∈ (serversOnly servers).groups.values, ∀ url ∈ g.servers,
      ∃ kind, parseUpstreamUrl oneAddressText url g.insecure = .ok kind := by
  intro g hg url hurl
  obtain rfl := List.mem_singleton.mp hg
  exact h url hurl

/-- A DoT server with a name is seen, and needs the default name servers. -/
theorem named_server_agrees :
    (serversOnly ["tls://dns.google"]).validate oneAddressText =
        .error .defaultNameserverRequired ↔
      ResolvesDomain oneAddressText (fun _ => none) (serversOnly ["tls://dns.google"]) := by
  have hdomain : DomainHost oneAddressText (fun _ => none) "tls://dns.google" :=
    ⟨"tls", "dns.google", rfl, Or.inl ⟨Or.inl rfl, by decide, rfl⟩⟩
  have hwritten : ¬ WrittenIp oneAddressText "tls://dns.google" :=
    (ipAddr_hostOfUrl_iff oneAddressText_literals "tls://dns.google").mp rfl
  have hplain : PlainDomain oneAddressText (fun _ => none) (serversOnly ["tls://dns.google"]) :=
    ⟨{ servers := ["tls://dns.google"] }, List.mem_filter.mpr ⟨List.mem_cons_self, rfl⟩,
      "tls://dns.google", List.mem_cons_self, hdomain, hwritten⟩
  have hparse := serversOnly_parse (List.forall_mem_singleton.mpr
    ⟨.tls "dns.google" 853 false, (rfl : parseUpstreamUrl oneAddressText "tls://dns.google" false = _)⟩)
  exact (validate_agrees_iff oneAddressText oneAddressText_literals (fun _ => none)
    (serversOnly ["tls://dns.google"]) rfl (fun _ => rfl) (Or.inr rfl) rfl hparse).mpr (Or.inl hplain)

/-- An address and a server that answers REFUSED are rejected. -/
theorem mixed_group_rejected :
    ¬ ∀ (T : NetText), IpLiterals T → ∀ (urlHost : String → Option Host) (c : Config),
      c.groups.containsKey "default" = true → (c.manageResolvConf = true → c.listen.port = 53) →
      (c.firewallEnabled = true ∨ c.manageResolvConf = true) → c.defaultNameserver = [] →
      (∀ g ∈ c.groups.values, ∀ url ∈ g.servers,
        ∃ kind, parseUpstreamUrl T url g.insecure = .ok kind) →
      (c.validate T = .error .defaultNameserverRequired ↔ ResolvesDomain T urlHost c) := by
  intro hall
  have haddress : parseUpstreamUrl oneAddressText "tls://1.1.1.1" false =
      .ok (.tls "1.1.1.1" 853 false) := rfl
  have hrcode : parseUpstreamUrl oneAddressText "rcode://refused" false = .ok (.rcode .refused) := rfl
  have hparse := serversOnly_parse (List.forall_mem_cons.mpr
    ⟨⟨_, haddress⟩, List.forall_mem_singleton.mpr ⟨_, hrcode⟩⟩)
  have hdomain : (serversOnly ["tls://1.1.1.1", "rcode://refused"]).hasDomainUpstream
      oneAddressText = true := rfl
  have hrejected := (validate_eq_required_iff (c := serversOnly ["tls://1.1.1.1", "rcode://refused"])
    rfl (fun _ => rfl) (Or.inr rfl) rfl).mpr hdomain
  obtain ⟨g, hg, url, hurl, kind, name, hkind, hhost⟩ :=
    (hall oneAddressText oneAddressText_literals (fun _ => none) _ rfl (fun _ => rfl) (Or.inr rfl) rfl
      hparse).mp hrejected
  obtain rfl := List.mem_singleton.mp hg
  rcases List.mem_pair.mp hurl with rfl | rfl
  · cases haddress.symm.trans hkind
    cases hhost
  · cases hrcode.symm.trans hkind
    cases hhost

end Relay.Dns.Upstream
