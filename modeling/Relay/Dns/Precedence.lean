import Relay.Dns.Selection

/-!
Which names the hosts tables answer. The cache is asked before both tables, so
a table answers only what was never cached under the name's key; and a table's
response is built of the name as the crate parses it.
-/

namespace Relay.Dns

open Binary Text Upstream Ruleset Logic Storage

variable {F : FstCrate} {R : RegexCrate} {C : CacheCrate}

/-! ### The address a table has -/

def IpAddr.rdata : IpAddr → RData
  | .v4 addr => .a addr
  | .v6 addr => .aaaa addr

/-- The address is what a query of this type asks for. -/
def IpAddr.matchesType : IpAddr → RecordType → Bool
  | .v4 _, qtype => qtype = .a
  | .v6 _, qtype => qtype = .aaaa

section

variable (H : HickoryCrate) (U : UnicodeTables)

/-- The address of the asked family that a table has for a name. -/
def addressIn (map : StringMap IpAddr) (name : String) (qtype : RecordType) : Option IpAddr :=
  (map.lookup (U.toLowercase (trimEndDots name))).filter fun ip => ip.matchesType qtype

/-- What a table answers with. -/
def addressResponse (name : Name) (ip : IpAddr) (qtype : RecordType) (id : BitVec 16) :
    Message where
  id := id
  messageType := .response
  opCode := .query
  recursionDesired := true
  recursionAvailable := true
  responseCode := .noError
  answers := [{ name := name, recordType := qtype, ttl := 300, data := some ip.rdata }]

end

/-- The address is the answer. -/
def AnswersWith (ip : IpAddr) (response : Message) : Prop :=
  response.answers.map (·.data) = [some ip.rdata]

variable {H : HickoryCrate} {U : UnicodeTables}

theorem buildResponse_eq (name : String) (ip : IpAddr) (qtype : RecordType) (id : BitVec 16) :
    buildResponse H name ip qtype id =
      if ip.matchesType qtype then
        (H.fromStr name).map fun parsed => addressResponse parsed ip qtype id
      else none := by
  cases ip with
  | v4 addr =>
      rcases eq_or_ne qtype .a with rfl | htype
      · cases hparsed : H.fromStr name <;>
          simp [buildResponse, IpAddr.matchesType, addressResponse, IpAddr.rdata, hparsed]
      · simp [buildResponse, IpAddr.matchesType, htype]
  | v6 addr =>
      rcases eq_or_ne qtype .aaaa with rfl | htype
      · cases hparsed : H.fromStr name <;>
          simp [buildResponse, IpAddr.matchesType, addressResponse, IpAddr.rdata, hparsed]
      · simp [buildResponse, IpAddr.matchesType, htype]

/-- A table answers with the address it has, if the crate parses the name. -/
theorem lookup_buildResponse (map : StringMap IpAddr) (name : String) (qtype : RecordType)
    (id : BitVec 16) :
    ((map.lookup (U.toLowercase (trimEndDots name))).bind fun ip =>
      buildResponse H name ip qtype id) =
        (addressIn U map name qtype).bind fun ip =>
          (H.fromStr name).map fun parsed => addressResponse parsed ip qtype id := by
  unfold addressIn
  cases map.lookup (U.toLowercase (trimEndDots name)) with
  | none => rfl
  | some ip =>
      rw [Option.bind_some, buildResponse_eq, Option.filter_some]
      split <;> rfl

theorem HostsTable.lookup_eq (hosts : HostsTable) (name : String) (qtype : RecordType)
    (id : BitVec 16) :
    hosts.lookup H U name qtype id = (addressIn U hosts.map name qtype).bind fun ip =>
      (H.fromStr name).map fun parsed => addressResponse parsed ip qtype id :=
  lookup_buildResponse hosts.map name qtype id

theorem DynamicHosts.lookup_eq (hosts : DynamicHosts) (name : String) (qtype : RecordType)
    (id : BitVec 16) :
    hosts.lookup H U name qtype id = (addressIn U hosts.entries name qtype).bind fun ip =>
      (H.fromStr name).map fun parsed => addressResponse parsed ip qtype id :=
  lookup_buildResponse hosts.entries name qtype id

/-- Names with one key in the cache have one key in a table. -/
theorem addressIn_of_cacheKey (hU : U.Lawful) (map : StringMap IpAddr) {name name' : String}
    {qtype qtype' : RecordType} (hkey : cacheKey U name qtype = cacheKey U name' qtype') :
    addressIn U map name qtype = addressIn U map name' qtype' := by
  unfold cacheKey at hkey
  obtain ⟨hlower, hnumber⟩ := append_colon_number hkey
  have htype : qtype = qtype' := UInt16.toNat_inj.mp hnumber
  unfold addressIn
  rw [hU.trimEndDots, hU.trimEndDots, hlower, htype]

/-! ### The static table -/

section

variable (H U)

/-- A name in the static table is parsed by the crate as it is shown. -/
def StaticParses (router : Router F R C) (request : Message) : Prop :=
  ∀ query ∈ request.queries.head?, suppresses router.strategy query.queryType = false →
    (addressIn U router.hosts.map (H.display query.name) query.queryType).isSome = true →
      (H.fromStr (H.display query.name)).isSome = true

/-- A query that the static table has an address for is answered by the table,
with this address, and not from the cache. -/
def StaticWins (router : Router F R C) (env : Env) (request : Message) : Prop :=
  ∀ query ∈ request.queries.head?, suppresses router.strategy query.queryType = false →
    ∀ ip, addressIn U router.hosts.map (H.display query.name) query.queryType = some ip →
      ∃ response info, (router.resolveWithMeta H U env request).1 = .ok (response, info) ∧
        AnswersWith ip response ∧ info.cached = false ∧ info.upstream = "hosts" ∧
        info.rule = none

end

/-- Nothing is cached under the key of a name and type that the static table
has an address for. -/
def Router.NoStaticCached (U : UnicodeTables) (router : Router F R C) : Prop :=
  ∀ cache, router.cache = some cache → cache.All fun key _ =>
    ∀ name qtype, key = cacheKey U name qtype → addressIn U router.hosts.map name qtype = none

theorem noStaticCached_step (hU : U.Lawful) {router router' : Router F R C} {query : Env × Message}
    (h : router.NoStaticCached U) (hstep : Asked H U router query router')
    (hparses : StaticParses H U router query.2) : router'.NoStaticCached U := by
  obtain ⟨env, request⟩ := query
  intro cache' hcache' entry hentry name qtype hkey
  rw [hstep.keeps.hosts]
  rcases hstep.entries hcache' hentry with ⟨first, message, _, ttl, hforwards, _, hnew⟩ |
    ⟨cache, hcache, hold, _⟩
  · rw [hnew] at hkey
    obtain ⟨hhead, hsuppressed, _, hstatic, _, _⟩ := Router.forwards?_eq_some.mp hforwards
    rw [← addressIn_of_cacheKey hU router.hosts.map hkey]
    rw [HostsTable.lookup_eq] at hstatic
    cases haddress : addressIn U router.hosts.map (H.display first.name) first.queryType with
    | none => rfl
    | some ip =>
        have hknown := hparses first hhead hsuppressed (by rw [haddress]; rfl)
        obtain ⟨parsed, hparsed⟩ := Option.isSome_iff_exists.mp hknown
        rw [haddress, hparsed] at hstatic
        cases hstatic
  · exact h cache hcache entry hold name qtype hkey

theorem Router.NoStaticCached.miss {router : Router F R C} (h : router.NoStaticCached U)
    {name : String} {qtype : RecordType} {ip : IpAddr}
    (haddress : addressIn U router.hosts.map name qtype = some ip) (now : Nat) :
    (router.cacheGet U name qtype now).1 = none := by
  cases hget : (router.cacheGet U name qtype now).1 with
  | none => rfl
  | some hit =>
      unfold Router.cacheGet at hget
      split at hget
      · cases hget
      · rename_i cache hcache
        obtain ⟨entry, _, hmem, _, _⟩ := DnsCache.get_hit hget
        have hnone := h cache hcache _ hmem name qtype rfl
        rw [haddress] at hnone
        cases hnone

/-- What a group answers is not reported as a table's: a group that a rule chose
comes with the rule, and the other is the default group. -/
theorem sourceMeta_ne_label {router : Router F R C} {name label : String} {rcode : Bool}
    {qtype : RecordType} {response : Message} (hlabel : label ≠ "default") :
    ¬ ((sourceMeta H U (router.source name) rcode name qtype response).upstream = label ∧
      (sourceMeta H U (router.source name) rcode name qtype response).rule = none) := by
  rintro ⟨hupstream, hrule⟩
  cases hby : (router.source name).byRule with
  | true => simp [sourceMeta, hby] at hrule
  | false =>
      apply hlabel
      rw [← hupstream]
      exact Router.source_default hby

/-- Without its address, a query for a name of the static table is not answered
by the table. -/
private theorem staticParses_of_wins {router : Router F R C} (h : router.NoStaticCached U)
    {env : Env} {request : Message} (hwins : StaticWins H U router env request) :
    StaticParses H U router request := by
  intro query hquery hsuppressed hknown
  obtain ⟨ip, haddress⟩ := Option.isSome_iff_exists.mp hknown
  obtain ⟨response, info, hok, _, _, hupstream, hrule⟩ :=
    hwins query hquery hsuppressed ip haddress
  have hmiss := h.miss haddress env.lookedUpAt
  cases hparsed : H.fromStr (H.display query.name) with
  | some parsed => rfl
  | none =>
      have hstatic : router.hosts.lookup H U (H.display query.name) query.queryType request.id =
          none := by
        rw [HostsTable.lookup_eq, hparsed]
        cases addressIn U router.hosts.map (H.display query.name) query.queryType <;> rfl
      have hdynamic : (env.tables router.dynamicHosts).lookup H U (H.display query.name)
          query.queryType request.id = none := by
        rw [DynamicHosts.lookup_eq, hparsed]
        cases addressIn U _ (H.display query.name) query.queryType <;> rfl
      have hforwards : router.forwards? H U env request = some query := by
        rw [Router.forwards?_eq_some, hok]
        exact ⟨hquery, hsuppressed, hmiss, hstatic, hdynamic, rfl⟩
      obtain ⟨_, _, _, _, hreply, _⟩ := Router.forwards?_answer hforwards
      rw [hok] at hreply
      cases hreply
      exact absurd ⟨hupstream, hrule⟩ (sourceMeta_ne_label (by decide))

private theorem staticWins_of_parses {router : Router F R C} (h : router.NoStaticCached U)
    {env : Env} {request : Message} (hparses : StaticParses H U router request) :
    StaticWins H U router env request := by
  intro query hquery hsuppressed ip haddress
  have hmiss := h.miss haddress env.lookedUpAt
  obtain ⟨parsed, hparsed⟩ := Option.isSome_iff_exists.mp
    (hparses query hquery hsuppressed (by rw [haddress]; rfl))
  have hstatic : router.hosts.lookup H U (H.display query.name) query.queryType request.id =
      some (addressResponse parsed ip query.queryType request.id) := by
    rw [HostsTable.lookup_eq, haddress, hparsed]
    rfl
  exact ⟨_, _, Router.resolve_static hquery hsuppressed hmiss hstatic, rfl, rfl, rfl, rfl⟩

/-- In every run in which the crate parses the names of the static table that
are asked for, nothing is cached in the table's place; and the table answers a
query in any state of such a run exactly when its name is parsed too. -/
theorem static_hosts_win (hU : U.Lawful) {start router : Router F R C}
    {queries : List (Env × Message)} (hstart : start.Fresh)
    (run : Steps (guarded (Asked H U) fun r query => StaticParses H U r query.2) start queries
      router) :
    router.NoStaticCached U ∧
      ∀ env request, StaticWins H U router env request ↔ StaticParses H U router request := by
  have hcached : router.NoStaticCached U := by
    apply @Steps.invariant _ _ _ (fun r : Router F R C => r.NoStaticCached U) _ _ _ run
    · intro cache hcache entry hentry
      rw [hstart cache hcache] at hentry
      cases hentry
    · intro r query r' hr hstep
      exact noStaticCached_step hU hr hstep.1 hstep.2
  refine ⟨hcached, ?_⟩
  intro env request
  constructor
  · exact staticParses_of_wins hcached
  · exact staticWins_of_parses hcached

theorem static_hosts_win_twice :
    ∃ router, Steps (guarded (Asked questionCodec asciiTables) fun r query =>
        StaticParses questionCodec asciiTables r query.2)
        (refusingRouter [("a", .v4 0xc0000201)]) [(silentEnv, sampleRequest)] router ∧
      StaticWins questionCodec asciiTables router silentEnv sampleRequest := by
  have hparses : ∀ router : Router listFst literalRegex listLru,
      StaticParses questionCodec asciiTables router sampleRequest := by
    intro router query _ _ _
    rfl
  have run : Steps (guarded (Asked questionCodec asciiTables) fun r query =>
      StaticParses questionCodec asciiTables r query.2)
      (refusingRouter [("a", .v4 0xc0000201)]) [(silentEnv, sampleRequest)] _ :=
    Steps.single ⟨rfl, hparses _⟩
  have hwins := static_hosts_win asciiTables_lawful (refusingRouter_fresh _) run
  exact ⟨_, run, (hwins.2 silentEnv sampleRequest).mpr (hparses _)⟩

/-- `Name::from_str` on letters, digits, hyphens and underscores: an underscore
may stand at the front of a label only. -/
def strictCodec : HickoryCrate :=
  { questionCodec with
    fromStr := fun text =>
      if (text.toList.splitOn '.').all fun label =>
          label.head? = some '_' || !label.contains '_' then
        asciiFromStr text
      else none }

/-- A query for the address of `my_nas`. -/
def underscoreRequest : Message :=
  { recursionDesired := true
    queries := [⟨{ labels := [[109, 121, 95, 110, 97, 115]] }, .a, 1⟩] }

/-- A host with an underscore in its name is refused by the default group, and
the refusal is cached. -/
theorem underscore_host_loses :
    ¬ ∀ (H : HickoryCrate) (U : UnicodeTables) (F : FstCrate) (R : RegexCrate)
      (C : CacheCrate)
      (start router : Router F R C) (queries : List (Env × Message)), U.Lawful → start.Fresh →
      Steps (Asked H U) start queries router →
      router.NoStaticCached U ∧ ∀ env request, StaticWins H U router env request := by
  intro hclaim
  have hwins := (hclaim strictCodec asciiTables listFst literalRegex listLru
    (refusingRouter [("my_nas", .v4 0xc0000201)]) _ [] asciiTables_lawful
    (refusingRouter_fresh _) (Steps.done _)).2 silentEnv underscoreRequest
  obtain ⟨response, info, hok, hanswer, _, _, _⟩ := hwins
    ⟨{ labels := [[109, 121, 95, 110, 97, 115]] }, .a, 1⟩ rfl rfl (.v4 0xc0000201) rfl
  cases hok
  cases hanswer

end Relay.Dns
