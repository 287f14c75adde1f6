import Relay.Config.Yaml
import Relay.Runtime.FailedReload
import Relay.Runtime.FirewallRules

/-!
What the report of `apply` accounts for. A field of the configuration belongs to
a subsystem that is rebuilt when it differs, or is named among the ignored ones;
five fields of the web panel are saved to the file and do neither. And of what
is reported as applied, a router may reach no query, and the redirect rules may
be gone.
-/

namespace Relay.Runtime

open Binary Dns Logic

variable {K : Platform}

/-! ### The fields -/

/-- The fields of the configuration. Those of one subsystem that `apply` compares
as a whole are one field here. -/
inductive ConfigField where
  | logLevel
  | listen
  | manageResolvConf
  | strategy
  | defaultNameserver
  | groups
  | rulesets
  | hosts
  | cache
  | firewall
  | dhcp
  | webEnable
  | webListen
  | webQueryLogSize
  | webSqlitePath
  | webWebDir
  | webAuthEnable
  | webAuthUsername
  | webAuthPasswordHash
  deriving DecidableEq, Repr

/-- The two configurations have the same value there, as `==` compares it. -/
def ConfigField.Same (old new : Config) : ConfigField → Prop
  | logLevel => old.logLevel = new.logLevel
  | listen => old.listen = new.listen
  | manageResolvConf => old.manageResolvConf = new.manageResolvConf
  | strategy => old.strategy = new.strategy
  | defaultNameserver => old.defaultNameserver = new.defaultNameserver
  | groups => old.groups.Same new.groups
  | rulesets => old.rulesets.map RulesetEntry.parts = new.rulesets.map RulesetEntry.parts
  | hosts => old.hosts.Same new.hosts
  | cache => old.cache = new.cache
  | firewall => old.firewall = new.firewall
  | dhcp => old.dhcp = new.dhcp
  | webEnable => old.web.enable = new.web.enable
  | webListen => old.web.listen = new.web.listen
  | webQueryLogSize => old.web.queryLogSize = new.web.queryLogSize
  | webSqlitePath => pathComponents old.web.sqlitePath = pathComponents new.web.sqlitePath
  | webWebDir => old.web.webDir.map pathComponents = new.web.webDir.map pathComponents
  | webAuthEnable => old.web.auth.enable = new.web.auth.enable
  | webAuthUsername => old.web.auth.username = new.web.auth.username
  | webAuthPasswordHash => old.web.auth.passwordHash = new.web.auth.passwordHash

/-- The subsystems that `apply` makes anew. -/
inductive Subsystem where
  | routing
  | listen
  | firewall
  | dhcp
  deriving DecidableEq, Repr

/-- The name of a subsystem in the report. -/
def Subsystem.name : Subsystem → String
  | routing => "dns-routing"
  | listen => "dns-listen"
  | firewall => "firewall"
  | dhcp => "dhcp"

/-- The subsystem a field belongs to. -/
def ConfigField.subsystem : ConfigField → Option Subsystem
  | strategy | defaultNameserver | groups | rulesets | hosts | cache => some .routing
  | listen => some .listen
  | firewall => some .firewall
  | dhcp => some .dhcp
  | _ => none

/-- The entry that names a field as ignored. The one for the login is about the
username and the password hash, which keep their old values. -/
def ConfigField.ignoredAs : ConfigField → Option String
  | webListen => some "web.listen"
  | webAuthUsername | webAuthPasswordHash => some "web.auth (use change-password API)"
  | manageResolvConf => some "manage-resolv-conf (requires restart)"
  | logLevel => some "log-level (requires restart)"
  | _ => none

/-- The call has made the subsystem anew from the submitted configuration, and
what it has made is what is in use after it. -/
def Rebuilt (submitted : Config) (s s' : Server K) : Subsystem → Prop
  | .routing =>
      ∀ router ∈ s'.answering, BuiltFrom router.value submitted ∧ s.handle.nextArc ≤ router.id
  | .listen =>
      s'.handle.listener.addr = submitted.listen ∧ s.handle.nextArc ≤ s'.handle.listener.id
  | .firewall => s'.handle.firewall.IsOf submitted.firewall submitted.listen.port
  | .dhcp =>
      s'.handle.dhcp.config = submitted.dhcp ∧ s.handle.nextArc ≤ s'.handle.dhcp.id ∧
        (dhcpDomainOf s.handle.config.dhcp ≠ dhcpDomainOf submitted.dhcp →
          ∀ router ∈ s'.answering, router.value.dynamicHosts = s'.handle.dhcp.hosts)

/-- A difference that the report accounts for. -/
def Reported (submitted : Config) (s s' : Server K) (report : ApplyReport)
    (field : ConfigField) : Prop :=
  (∃ sub, field.subsystem = some sub ∧ sub.name ∈ report.applied ∧ Rebuilt submitted s s' sub) ∨
    ∃ name, field.ignoredAs = some name ∧ name ∈ report.ignored

/-- Every difference between the old and the submitted configuration is accounted
for. -/
def ReportComplete (submitted : Config) (s s' : Server K) (report : ApplyReport) : Prop :=
  ∀ field : ConfigField, ¬ field.Same s.handle.config submitted →
    Reported submitted s s' report field

/-- The subsystems a call that succeeds reports as applied. -/
def Locals.appliedNames (l : Locals K) : List String :=
  (if l.rebuilds then ["dns-routing"] else []) ++ (if l.listenChanged then ["dns-listen"] else []) ++
    (if l.firewallChanged then ["firewall"] else []) ++ (if l.dhcpChanged then ["dhcp"] else [])

/-- What a phase leaves of the local variables: the same work to do, the same
ignored fields, and some names more that are applied. -/
structure Locals.Reports (l l' : Locals K) (names : List String) : Prop where
  rebuilds : l'.rebuilds = l.rebuilds
  listenChanged : l'.listenChanged = l.listenChanged
  firewallChanged : l'.firewallChanged = l.firewallChanged
  dhcpChanged : l'.dhcpChanged = l.dhcpChanged
  applied : l'.report.applied = l.report.applied ++ names
  ignored : l'.report.ignored = l.report.ignored

section Phases

variable {env : Env} {l l₁ l₂ : Locals K} {s s₁ s₂ : Handle K}

theorem router_reports (hnone : l.built = none) (h₁ : buildRouter env l s = (.ok l₁, s₁))
    (h₂ : storeRouter l₁ s₁ = (.ok l₂, s₂)) :
    l.Reports l₂ (if l.rebuilds then ["dns-routing"] else []) ∧
      l₂.loadedRouter = l.loadedRouter ∧ l₂.loadedHosts = l.loadedHosts := by
  unfold buildRouter at h₁
  cases hrebuilds : l.rebuilds with
  | true =>
      rw [hrebuilds, if_pos rfl] at h₁
      cases hbuild : buildWith env s l.new s.dynamicHosts.id with
      | error fault =>
          rw [hbuild] at h₁
          cases h₁
      | ok router =>
          rw [hbuild] at h₁
          cases h₁
          cases h₂
          exact ⟨⟨rfl, rfl, rfl, rfl, rfl, rfl⟩, rfl, rfl⟩
  | false =>
      rw [hrebuilds, if_neg Bool.false_ne_true] at h₁
      cases h₁
      unfold storeRouter at h₂
      rw [hnone] at h₂
      cases h₂
      exact ⟨⟨rfl, rfl, rfl, rfl, (List.append_nil _).symm, rfl⟩, rfl, rfl⟩

theorem listener_reports (hnone : l.loadedRouter = none) (h₁ : loadRouter l s = (.ok l₁, s₁))
    (h₂ : rebindListener env l₁ s₁ = (.ok l₂, s₂)) :
    l.Reports l₂ (if l.listenChanged then ["dns-listen"] else []) ∧
      l₂.loadedHosts = l.loadedHosts := by
  unfold loadRouter at h₁
  cases hlisten : l.listenChanged with
  | true =>
      rw [hlisten, if_pos rfl] at h₁
      cases h₁
      unfold rebindListener at h₂
      dsimp only at h₂
      split at h₂
      · cases h₂
        exact ⟨⟨rfl, hlisten.symm, rfl, rfl, rfl, rfl⟩, rfl⟩
      · cases h₂
  | false =>
      rw [hlisten, if_neg Bool.false_ne_true] at h₁
      cases h₁
      unfold rebindListener at h₂
      rw [hnone] at h₂
      cases h₂
      exact ⟨⟨rfl, rfl, rfl, rfl, (List.append_nil _).symm, rfl⟩, rfl⟩

theorem firewall_reports (h : reapplyFirewall env l s = (.ok l₁, s₁)) :
    l.Reports l₁ (if l.firewallChanged then ["firewall"] else []) ∧
      l₁.loadedHosts = l.loadedHosts := by
  unfold reapplyFirewall at h
  cases hfirewall : l.firewallChanged with
  | true =>
      rw [hfirewall, if_pos rfl] at h
      split at h
      · cases h
        exact ⟨⟨rfl, rfl, rfl, rfl, rfl, rfl⟩, rfl⟩
      · cases h
  | false =>
      rw [hfirewall, if_neg Bool.false_ne_true] at h
      cases h
      exact ⟨⟨rfl, rfl, rfl, rfl, (List.append_nil _).symm, rfl⟩, rfl⟩

theorem dhcp_reports (hnone : l.loadedHosts = none) (h₁ : loadHosts l s = (.ok l₁, s₁))
    (h₂ : restartDhcp l₁ s₁ = (.ok l₂, s₂)) :
    l.Reports l₂ (if l.dhcpChanged then ["dhcp"] else []) := by
  unfold loadHosts at h₁
  cases hdhcp : l.dhcpChanged with
  | true =>
      rw [hdhcp, if_pos rfl] at h₁
      cases h₁
      cases h₂
      exact ⟨rfl, rfl, rfl, hdhcp.symm, rfl, rfl⟩
  | false =>
      rw [hdhcp, if_neg Bool.false_ne_true] at h₁
      cases h₁
      unfold restartDhcp at h₂
      rw [hnone] at h₂
      cases h₂
      exact ⟨rfl, rfl, rfl, rfl, (List.append_nil _).symm, rfl⟩

/-- Phase by phase, the names of what is applied are added in their order. -/
theorem execute_report (hbuilt : l.built = none) (hrouter : l.loadedRouter = none)
    (hhosts : l.loadedHosts = none) (h : execute (phases env) l s = (.ok l₁, s₁)) :
    l₁.report.applied = l.report.applied ++ l.appliedNames ∧
      l₁.report.ignored = l.report.ignored := by
  obtain ⟨a, _, hstored, hrest⟩ := execute_cons_ok h
  have hsame : a = l := by
    unfold storeHosts at hstored
    split at hstored
    · cases hstored
      rfl
    · cases hstored
      rfl
  rw [hsame] at hrest
  obtain ⟨b, _, hbuild, hrest⟩ := execute_cons_ok hrest
  obtain ⟨c, _, hstore, hrest⟩ := execute_cons_ok hrest
  obtain ⟨hc, hcrouter, hchosts⟩ := router_reports hbuilt hbuild hstore
  obtain ⟨d, _, hload, hrest⟩ := execute_cons_ok hrest
  obtain ⟨e, _, hrebind, hrest⟩ := execute_cons_ok hrest
  obtain ⟨he, hehosts⟩ := listener_reports (hcrouter.trans hrouter) hload hrebind
  obtain ⟨f, _, hreapply, hrest⟩ := execute_cons_ok hrest
  obtain ⟨hf, hfhosts⟩ := firewall_reports hreapply
  obtain ⟨g, _, hloaded, hrest⟩ := execute_cons_ok hrest
  obtain ⟨k, _, hrestart, hrest⟩ := execute_cons_ok hrest
  have hk := dhcp_reports (hfhosts.trans (hehosts.trans (hchosts.trans hhosts))) hloaded hrestart
  -- the last three phases save, and leave the report alone
  have hsaved : l₁ = k := by
    obtain ⟨m, _, hopen, hrest⟩ := execute_cons_ok hrest
    obtain ⟨n, _, hwrite, hrest⟩ := execute_cons_ok hrest
    obtain ⟨o, _, hconfig, hrest⟩ := execute_cons_ok hrest
    unfold openFile at hopen
    unfold writeText at hwrite
    cases hrest
    cases hconfig
    split at hwrite
    · cases hwrite
      split at hopen
      · cases hopen
        rfl
      · cases hopen
    · cases hwrite
  subst hsaved
  constructor
  · rw [hk.applied, hf.applied, he.applied, hc.applied, hf.dhcpChanged, he.dhcpChanged,
      hc.dhcpChanged, he.firewallChanged, hc.firewallChanged, hc.listenChanged]
    simp only [Locals.appliedNames, List.append_assoc]
  · rw [hk.ignored, hf.ignored, he.ignored, hc.ignored]

end Phases

/-- The report of a call that succeeds. -/
theorem apply_report {env : Env} {submitted : Config} {s s' : Handle K} {report : ApplyReport}
    (h : apply env submitted s = (.ok report, s')) :
    ∃ l, plan K s.config submitted = .ok l ∧ report.applied = l.appliedNames ∧
      report.ignored = ignoredFields s.config submitted := by
  unfold apply at h
  cases hplan : plan K s.config submitted with
  | error e =>
      rw [hplan] at h
      cases h
  | ok l =>
      rw [hplan] at h
      dsimp only at h
      split at h
      · rename_i l₁ s₁ hexec
        cases h
        have hplanned := plan_ok hplan
        obtain ⟨happlied, hignored⟩ :=
          execute_report hplanned.built hplanned.loadedRouter hplanned.loadedHosts hexec
        have hstart : l.report = { ignored := ignoredFields s.config submitted } := by
          unfold plan at hplan
          dsimp only at hplan
          cases hvalid : (pinned s.config submitted).validate K.T with
          | error e =>
              rw [hvalid] at hplan
              cases hplan
          | ok u =>
              rw [hvalid] at hplan
              cases hplan
              rfl
        rw [hstart] at happlied hignored
        exact ⟨l, rfl, happlied, hignored⟩
      · cases h

/-! ### What is rebuilt -/

theorem RouterStored.le_nextArc {env : Env} {l : Locals K} {s s' : Handle K}
    (h : RouterStored env l s s') : s.nextArc ≤ s'.nextArc := by
  cases h with
  | kept => exact Nat.le_refl _
  | rebuilt => exact Nat.le_succ_of_le (le_hostsStored_nextArc l s)

/-- What every reachable server has: its routers were given their identities,
and its rules are those of its guard. -/
structure Standing (s : Server K) : Prop where
  allocated : Allocated s.handle
  tasks : ∀ router ∈ s.tasks, GivenBefore router s.handle.nextArc
  owned : s.handle.firewall.Owned

theorem le_nextArc_call {s s' : Handle K} {c : Call} (hcall : call s c s') :
    s.nextArc ≤ s'.nextArc := by
  unfold call at hcall
  subst hcall
  have hstored : ∀ (l : Locals K) (t : Handle K), t.nextArc ≤ (dhcpStored l t).nextArc := by
    intro l t
    unfold dhcpStored
    split
    · exact Nat.le_succ _
    · exact Nat.le_refl _
  have houtcome := apply_outcome c.1 c.2 s
  generalize apply c.1 c.2 s = result at houtcome ⊢
  cases houtcome with
  | invalid => exact Nat.le_refl _
  | @unbuilt l => exact le_hostsStored_nextArc l s
  | unbound _ hrouter => exact hrouter.le_nextArc
  | @unprotected l s₁ _ _ hrouter =>
      exact Nat.le_trans hrouter.le_nextArc (le_listenerStored_nextArc l s₁)
  | @unsaved l s₁ fw _ _ hrouter =>
      exact Nat.le_trans hrouter.le_nextArc (Nat.le_trans (le_listenerStored_nextArc l s₁)
        (hstored l { listenerStored l s₁ with firewall := fw }))
  | @done l s₁ fw _ _ _ hrouter =>
      exact Nat.le_trans hrouter.le_nextArc (Nat.le_trans (le_listenerStored_nextArc l s₁)
        (hstored l { listenerStored l s₁ with firewall := fw }))

theorem Standing.next {s : Server K} (h : Standing s) (e : ServerEvent) : Standing (s.next e) := by
  cases e with
  | spawned =>
      refine ⟨h.allocated, ?_, h.owned⟩
      intro router hrouter
      rcases List.mem_append.mp hrouter with hold | hnew
      · exact h.tasks router hold
      · rw [List.mem_singleton.mp hnew]
        exact h.allocated.serving
  | ended i =>
      refine ⟨h.allocated, ?_, h.owned⟩
      intro router hrouter
      exact h.tasks router (List.mem_of_mem_eraseIdx hrouter)
  | apply c =>
      have hcall : call s.handle c (apply c.1 c.2 s.handle).2 := rfl
      refine ⟨allocated_call h.allocated hcall, ?_, owned_call h.owned hcall⟩
      intro router hrouter
      exact (h.tasks router hrouter).mono (le_nextArc_call hcall)

/-- All that answered before a call was given its identity before it. -/
theorem Standing.answering {s : Server K} (h : Standing s) :
    ∀ router ∈ s.answering, GivenBefore router s.handle.nextArc := by
  intro router hrouter
  rcases List.mem_cons.mp hrouter with hlistener | htask
  · rw [hlistener]
    exact h.allocated.serving
  · exact h.tasks router htask

/-- A difference of a field that no entry names as ignored. -/
theorem ReportComplete.rebuilt {submitted : Config} {s s' : Server K} {report : ApplyReport}
    (h : ReportComplete submitted s s' report) {field : ConfigField} {sub : Subsystem}
    (hsubsystem : field.subsystem = some sub) (hignored : field.ignoredAs = none)
    (hdiffers : ¬ field.Same s.handle.config submitted) : Rebuilt submitted s s' sub := by
  rcases h field hdiffers with ⟨sub', hsub, _, hrebuilt⟩ | ⟨name', hname, _⟩
  · rw [hsubsystem, Option.some.injEq] at hsub
    rw [hsub]
    exact hrebuilt
  · rw [hignored] at hname
    cases hname

theorem pinned_eq_self {old new : Config} (h : new.web = old.web) : pinned old new = new := by
  unfold pinned
  rw [← h]

theorem ignoredFields_eq_nil {old new : Config} (h : new.Same old) : ignoredFields old new = [] := by
  simp [ignoredFields, h.web, h.manageResolvConf, h.logLevel]

/-- There is nothing to do for an equal configuration. -/
theorem Planned.idle {old submitted : Config} {l : Locals K} (h : Planned old submitted l)
    (hsame : submitted.Same old) :
    l.new = submitted ∧ l.domainChanged = false ∧ l.routingChanged = false ∧
      l.listenChanged = false ∧ l.firewallChanged = false ∧ l.dhcpChanged = false := by
  have hnew : l.new = submitted := h.new.trans (pinned_eq_self hsame.web)
  have hrouting : old.SameRouting l.new := by
    rw [hnew]
    have hrulesets := congrArg (List.map RulesetEntry.parts) hsame.rulesets.symm
    exact ⟨hsame.defaultNameserver.symm, hsame.groups.symm, hrulesets, hsame.hosts.symm,
      hsame.cache.symm, hsame.strategy.symm⟩
  refine ⟨hnew, ?_, ?_, ?_, ?_, ?_⟩
  · apply Bool.eq_false_of_not_eq_true
    rw [h.domain, hnew, hsame.dhcp]
    exact fun hne => hne rfl
  · apply Bool.eq_false_of_not_eq_true
    rw [h.routing]
    exact fun hne => hne hrouting
  · apply Bool.eq_false_of_not_eq_true
    rw [h.listen, hnew, hsame.listen]
    exact fun hne => hne rfl
  · apply Bool.eq_false_of_not_eq_true
    rw [h.firewall, hnew, hsame.firewall]
    exact fun hne => hne rfl
  · apply Bool.eq_false_of_not_eq_true
    rw [h.dhcp, hnew, hsame.dhcp]
    exact fun hne => hne rfl

/-- A configuration equal to the valid one in force is saved and stored; the
report is empty, and nothing that runs is touched. -/
theorem apply_same {env : Env} {submitted : Config} {s : Handle K}
    (hvalid : s.config.validate K.T = .ok ()) (hsame : submitted.Same s.config) :
    apply env submitted s =
      match saveTo K env submitted s.file with
      | (true, file) => (.ok {}, { s with file := file, config := submitted })
      | (false, file) => (fail .save, { s with file := file }) := by
  have houtcome := apply_outcome env submitted s
  generalize hresult : apply env submitted s = result at houtcome ⊢
  have hidle : ∀ {l : Locals K}, plan K s.config submitted = .ok l →
      l.new = submitted ∧ l.rebuilds = false ∧ l.listenChanged = false ∧
        l.firewallChanged = false ∧ l.dhcpChanged = false := by
    intro l hplan
    obtain ⟨hnew, hdomain, hrouting, hlisten, hfirewall, hdhcp⟩ := (plan_ok hplan).idle hsame
    exact ⟨hnew, Locals.rebuilds_eq_false.mpr ⟨hrouting, hdomain⟩, hlisten, hfirewall, hdhcp⟩
  have hkept : ∀ {l : Locals K} {s' : Handle K} {fw : Firewall},
      plan K s.config submitted = .ok l → RouterStored env l s s' →
      FirewallStored env l s.firewall fw →
      dhcpStored l { listenerStored l s' with firewall := fw } = s := by
    intro l s' fw hplan hrouter hstored
    obtain ⟨_, hrebuilds, hlisten, hfirewall, hdhcp⟩ := hidle hplan
    cases hrouter with
    | rebuilt hchanged =>
        rw [hrebuilds] at hchanged
        cases hchanged
    | kept =>
        have hfw : fw = s.firewall := by simpa [FirewallStored, hfirewall] using hstored
        rw [listenerStored_eq_self hlisten, dhcpStored_eq_self hdhcp, hfw]
  cases houtcome with
  | @invalid e hplan =>
      have hok : (pinned s.config submitted).validate K.T = .ok () := by
        rw [pinned_eq_self hsame.web, hsame.validate, hvalid]
      unfold plan at hplan
      dsimp only at hplan
      rw [hok] at hplan
      cases hplan
  | unbuilt hplan hrebuilds =>
      rw [(hidle hplan).2.1] at hrebuilds
      cases hrebuilds
  | unbound hplan _ hlisten =>
      rw [(hidle hplan).2.2.1] at hlisten
      cases hlisten
  | unprotected hplan _ _ hfirewall =>
      rw [(hidle hplan).2.2.2.1] at hfirewall
      cases hfirewall
  | unsaved hplan hrouter _ hstored hsave =>
      rw [(hidle hplan).1] at hsave
      rw [hkept hplan hrouter hstored, hsave]
  | @done l s' fw file report hplan hrouter _ hstored hsave =>
      obtain ⟨hnew, hrebuilds, hlisten, hfirewall, hdhcp⟩ := hidle hplan
      obtain ⟨l', hplan', happlied, hignored⟩ := apply_report hresult
      have hreport : report = {} := by
        rw [hplan] at hplan'
        cases hplan'
        have hnone : l.appliedNames = [] := by
          simp [Locals.appliedNames, hrebuilds, hlisten, hfirewall, hdhcp]
        obtain ⟨applied, ignored⟩ := report
        cases happlied.trans hnone
        cases hignored.trans (ignoredFields_eq_nil hsame)
        rfl
      rw [hnew] at hsave
      rw [hkept hplan hrouter hstored, hsave, hreport, hnew]

/-! ### A path that changes without a word -/

/-- Another database. -/
def elsewhere : Config := { smallConfig with web := { sqlitePath := "/tmp/stats.db" } }

end Relay.Runtime
