import Relay.Runtime.Handle

/-!
The ways a call of `apply` ends and the state each of them leaves. Everything
about whole runs of calls is read off this list.
-/

namespace Relay.Runtime

open Binary Dns Logic

variable {K : Platform} (env : Env)

def hostsStored (l : Locals K) (s : Handle K) : Handle K :=
  if l.domainChanged then s.replaceHosts (dhcpDomainOf l.new.dhcp) else s

def listenerStored (l : Locals K) (s : Handle K) : Handle K :=
  if l.listenChanged then s.replaceListener l.new.listen s.router else s

def dhcpStored (l : Locals K) (s : Handle K) : Handle K :=
  if l.dhcpChanged then s.replaceDhcp l.new.dhcp s.dynamicHosts.id else s

/-- `save_to`: whether it succeeds, and the file after it. -/
def saveTo (K : Platform) (env : Env) (new : Config) (file : Option Bytes) :
    Bool × Option Bytes :=
  match K.yaml new with
  | none => (false, file)
  | some text =>
      if env.opens then
        match env.cutAt with
        | none => (true, some text)
        | some n => (false, some (text.take n))
      else (false, file)

/-- The router is built for the table in place by then. -/
def newRouter (l : Locals K) (s : Handle K) : Run BuildError (Router K.F K.R K.C) :=
  buildWith env s l.new (hostsStored l s).dynamicHosts.id

/-- The state after the router step, where that step succeeds. -/
inductive RouterStored (l : Locals K) (s : Handle K) : Handle K → Prop where
  | kept : l.rebuilds = false → RouterStored l s s
  | rebuilt {router : Router K.F K.R K.C} : l.rebuilds = true → newRouter env l s = .ok router →
      RouterStored l s ((hostsStored l s).replaceRouter router)

/-- The firewall after its step, where that step succeeds. -/
def FirewallStored (l : Locals K) (fw fw' : Firewall) : Prop :=
  if l.firewallChanged then
    fw.reapply l.new.firewall l.new.listen.port env.installs = (true, fw')
  else fw' = fw

/-- The ways a call ends, each with the state it leaves. -/
inductive Outcome (submitted : Config) (s : Handle K) :
    Run ApplyError ApplyReport × Handle K → Prop where
  | invalid {e : ValidateError} : plan K s.config submitted = .error e →
      Outcome submitted s (fail (.validation e), s)
  | unbuilt {l : Locals K} {fault : Fault BuildError} : plan K s.config submitted = .ok l →
      l.rebuilds = true → newRouter env l s = .error fault →
      Outcome submitted s (.error (fault.map .build), hostsStored l s)
  | unbound {l : Locals K} {s' : Handle K} : plan K s.config submitted = .ok l →
      RouterStored env l s s' → l.listenChanged = true → env.binds l.new.listen = false →
      Outcome submitted s (fail (.bind l.new.listen), s')
  | unprotected {l : Locals K} {s' : Handle K} {fw : Firewall} :
      plan K s.config submitted = .ok l → RouterStored env l s s' →
      (l.listenChanged = true → env.binds l.new.listen = true) → l.firewallChanged = true →
      s.firewall.reapply l.new.firewall l.new.listen.port env.installs = (false, fw) →
      Outcome submitted s (fail .firewall, { listenerStored l s' with firewall := fw })
  | unsaved {l : Locals K} {s' : Handle K} {fw : Firewall} {file : Option Bytes} :
      plan K s.config submitted = .ok l → RouterStored env l s s' →
      (l.listenChanged = true → env.binds l.new.listen = true) →
      FirewallStored env l s.firewall fw → saveTo K env l.new s.file = (false, file) →
      Outcome submitted s
        (fail .save, { dhcpStored l { listenerStored l s' with firewall := fw } with file := file })
  | done {l : Locals K} {s' : Handle K} {fw : Firewall} {file : Option Bytes}
      (report : ApplyReport) :
      plan K s.config submitted = .ok l → RouterStored env l s s' →
      (l.listenChanged = true → env.binds l.new.listen = true) →
      FirewallStored env l s.firewall fw → saveTo K env l.new s.file = (true, file) →
      Outcome submitted s
        (.ok report,
          { dhcpStored l { listenerStored l s' with firewall := fw } with
            file := file
            config := l.new })

variable {env}

/-! ### What the stores change -/

@[simp] theorem hostsStored_config (l : Locals K) (s : Handle K) :
    (hostsStored l s).config = s.config := by
  unfold hostsStored
  split <;> rfl

@[simp] theorem hostsStored_listener (l : Locals K) (s : Handle K) :
    (hostsStored l s).listener = s.listener := by
  unfold hostsStored
  split <;> rfl

@[simp] theorem hostsStored_firewall (l : Locals K) (s : Handle K) :
    (hostsStored l s).firewall = s.firewall := by
  unfold hostsStored
  split <;> rfl

@[simp] theorem hostsStored_file (l : Locals K) (s : Handle K) :
    (hostsStored l s).file = s.file := by
  unfold hostsStored
  split <;> rfl

@[simp] theorem hostsStored_baseDir (l : Locals K) (s : Handle K) :
    (hostsStored l s).baseDir = s.baseDir := by
  unfold hostsStored
  split <;> rfl

@[simp] theorem listenerStored_config (l : Locals K) (s : Handle K) :
    (listenerStored l s).config = s.config := by
  unfold listenerStored
  split <;> rfl

@[simp] theorem listenerStored_router (l : Locals K) (s : Handle K) :
    (listenerStored l s).router = s.router := by
  unfold listenerStored
  split <;> rfl

@[simp] theorem listenerStored_firewall (l : Locals K) (s : Handle K) :
    (listenerStored l s).firewall = s.firewall := by
  unfold listenerStored
  split <;> rfl

@[simp] theorem listenerStored_file (l : Locals K) (s : Handle K) :
    (listenerStored l s).file = s.file := by
  unfold listenerStored
  split <;> rfl

@[simp] theorem dhcpStored_config (l : Locals K) (s : Handle K) :
    (dhcpStored l s).config = s.config := by
  unfold dhcpStored
  split <;> rfl

@[simp] theorem dhcpStored_router (l : Locals K) (s : Handle K) :
    (dhcpStored l s).router = s.router := by
  unfold dhcpStored
  split <;> rfl

@[simp] theorem dhcpStored_listener (l : Locals K) (s : Handle K) :
    (dhcpStored l s).listener = s.listener := by
  unfold dhcpStored
  split <;> rfl

@[simp] theorem dhcpStored_firewall (l : Locals K) (s : Handle K) :
    (dhcpStored l s).firewall = s.firewall := by
  unfold dhcpStored
  split <;> rfl

@[simp] theorem dhcpStored_file (l : Locals K) (s : Handle K) :
    (dhcpStored l s).file = s.file := by
  unfold dhcpStored
  split <;> rfl

theorem hostsStored_eq_self {l : Locals K} (h : l.domainChanged = false) (s : Handle K) :
    hostsStored l s = s := by
  rw [hostsStored, h, if_neg Bool.false_ne_true]

theorem listenerStored_eq_self {l : Locals K} (h : l.listenChanged = false) (s : Handle K) :
    listenerStored l s = s := by
  rw [listenerStored, h, if_neg Bool.false_ne_true]

theorem dhcpStored_eq_self {l : Locals K} (h : l.dhcpChanged = false) (s : Handle K) :
    dhcpStored l s = s := by
  rw [dhcpStored, h, if_neg Bool.false_ne_true]

theorem hostsStored_eq {l : Locals K} (h : l.domainChanged = true) (s : Handle K) :
    hostsStored l s = s.replaceHosts (dhcpDomainOf l.new.dhcp) := by
  rw [hostsStored, if_pos h]

theorem listenerStored_eq {l : Locals K} (h : l.listenChanged = true) (s : Handle K) :
    listenerStored l s = s.replaceListener l.new.listen s.router := by
  rw [listenerStored, if_pos h]

theorem dhcpStored_eq {l : Locals K} (h : l.dhcpChanged = true) (s : Handle K) :
    dhcpStored l s = s.replaceDhcp l.new.dhcp s.dynamicHosts.id := by
  rw [dhcpStored, if_pos h]

theorem le_hostsStored_nextArc (l : Locals K) (s : Handle K) :
    s.nextArc ≤ (hostsStored l s).nextArc := by
  unfold hostsStored
  split
  · exact Nat.le_succ _
  · exact Nat.le_refl _

theorem le_listenerStored_nextArc (l : Locals K) (s : Handle K) :
    s.nextArc ≤ (listenerStored l s).nextArc := by
  unfold listenerStored
  split
  · exact Nat.le_succ _
  · exact Nat.le_refl _

theorem Locals.rebuilds_eq_false {l : Locals K} :
    l.rebuilds = false ↔ l.routingChanged = false ∧ l.domainChanged = false :=
  Bool.or_eq_false_iff

theorem RouterStored.config {l : Locals K} {s s' : Handle K} (h : RouterStored env l s s') :
    s'.config = s.config := by
  cases h with
  | kept => rfl
  | rebuilt => exact hostsStored_config l s

theorem RouterStored.listener {l : Locals K} {s s' : Handle K} (h : RouterStored env l s s') :
    s'.listener = s.listener := by
  cases h with
  | kept => rfl
  | rebuilt => exact hostsStored_listener l s

theorem RouterStored.newRouter_ok {l : Locals K} {s s' : Handle K} (h : RouterStored env l s s')
    (hrebuilds : l.rebuilds = true) : ∃ router, newRouter env l s = .ok router := by
  cases h with
  | kept hkept =>
      rw [hkept] at hrebuilds
      cases hrebuilds
  | @rebuilt router _ hnew => exact ⟨router, hnew⟩

/-- The first three phases: the hosts table, the build, the router. -/
private theorem execute_router {rest : List (ApplyPhase K)} {l : Locals K} {s : Handle K}
    (hbuilt : l.built = none) :
    execute (storeHosts :: buildRouter env :: storeRouter :: rest) l s =
      if l.rebuilds then
        match newRouter env l s with
        | .ok router =>
            execute rest (({ l with built := some router } : Locals K).applied "dns-routing")
              ((hostsStored l s).replaceRouter router)
        | .error fault => (.error (fault.map .build), hostsStored l s)
      else execute rest l s := by
  have hstore : storeHosts l s = (.ok l, hostsStored l s) := by
    unfold storeHosts hostsStored
    split <;> rfl
  have hbase := hostsStored_baseDir l s
  cases hrebuilds : l.rebuilds with
  | true =>
      simp only [execute, hstore, buildRouter, hrebuilds, if_true, newRouter, buildWith, hbase]
      cases Router.fromConfig K.T K.U K.F K.R K.C env.files s.baseDir
          (hostsStored l s).dynamicHosts.id l.new with
      | ok router => rfl
      | error fault => rfl
  | false =>
      have hdomain : l.domainChanged = false := (Locals.rebuilds_eq_false.mp hrebuilds).2
      have hsame := hostsStored_eq_self hdomain s
      simp [execute, hstore, hsame, buildRouter, hrebuilds, storeRouter, hbuilt]

private theorem execute_listener {rest : List (ApplyPhase K)} {l : Locals K} {s : Handle K}
    (hloaded : l.loadedRouter = none) :
    execute (loadRouter :: rebindListener env :: rest) l s =
      if l.listenChanged then
        if env.binds l.new.listen then
          execute rest (({ l with loadedRouter := some s.router } : Locals K).applied "dns-listen")
            (listenerStored l s)
        else (fail (.bind l.new.listen), s)
      else execute rest l (listenerStored l s) := by
  cases hlisten : l.listenChanged with
  | true =>
      cases hbind : env.binds l.new.listen with
      | true =>
          simp [execute, loadRouter, rebindListener, listenerStored, hlisten, hbind]
      | false => simp [execute, loadRouter, rebindListener, hlisten, hbind, fail]
  | false =>
      simp [execute, loadRouter, rebindListener, listenerStored, hlisten, hloaded]

private theorem execute_firewall (env : Env) (rest : List (ApplyPhase K)) (l : Locals K)
    (s : Handle K) :
    (∃ l' fw, (l' = l ∨ l' = l.applied "firewall") ∧ FirewallStored env l s.firewall fw ∧
        execute (reapplyFirewall env :: rest) l s = execute rest l' { s with firewall := fw }) ∨
      (l.firewallChanged = true ∧ ∃ fw,
        s.firewall.reapply l.new.firewall l.new.listen.port env.installs = (false, fw) ∧
        execute (reapplyFirewall env :: rest) l s = (fail .firewall, { s with firewall := fw })) := by
  cases hchanged : l.firewallChanged with
  | false =>
      refine Or.inl ⟨l, s.firewall, Or.inl rfl, by simp [FirewallStored, hchanged], ?_⟩
      simp [execute, reapplyFirewall, hchanged]
  | true =>
      obtain ⟨ok, fw, hfw⟩ : ∃ ok fw,
          s.firewall.reapply l.new.firewall l.new.listen.port env.installs = (ok, fw) := ⟨_, _, rfl⟩
      cases ok with
      | true =>
          refine Or.inl ⟨_, fw, Or.inr rfl, by simp [FirewallStored, hchanged, hfw], ?_⟩
          simp [execute, reapplyFirewall, hchanged, hfw]
      | false =>
          refine Or.inr ⟨rfl, fw, hfw, ?_⟩
          simp [execute, reapplyFirewall, hchanged, hfw, fail]

private theorem execute_dhcp (rest : List (ApplyPhase K)) {l : Locals K} (s : Handle K)
    (hloaded : l.loadedHosts = none) :
    ∃ l' : Locals K, l'.new = l.new ∧
      execute (loadHosts :: restartDhcp :: rest) l s = execute rest l' (dhcpStored l s) := by
  cases hchanged : l.dhcpChanged with
  | true =>
      refine ⟨({ l with loadedHosts := some s.dynamicHosts.id } : Locals K).applied "dhcp", rfl, ?_⟩
      simp [execute, loadHosts, restartDhcp, dhcpStored, hchanged]
  | false =>
      refine ⟨l, rfl, ?_⟩
      simp [execute, loadHosts, restartDhcp, dhcpStored, hchanged, hloaded]

/-- The two halves of `save_to` together. -/
theorem startSave_finishSave (env : Env) (new : Config) (s : Handle K) :
    (startSave env new s = (false, s) ∧ saveTo K env new s.file = (false, s.file)) ∨
      (startSave env new s = (true, { s with file := some [] }) ∧
        ∃ ok file, saveTo K env new s.file = (ok, file) ∧
          finishSave env new { s with file := some [] } = (ok, { s with file := file })) := by
  cases hyaml : K.yaml new with
  | none =>
      refine Or.inl ⟨?_, ?_⟩
      · simp [startSave, hyaml]
      · simp [saveTo, hyaml]
  | some text =>
      cases hopens : env.opens with
      | false =>
          refine Or.inl ⟨?_, ?_⟩
          · simp [startSave, hopens]
          · simp [saveTo, hyaml, hopens]
      | true =>
          refine Or.inr ⟨by simp [startSave, hyaml, hopens], ?_⟩
          cases hcut : env.cutAt with
          | none => simp [saveTo, finishSave, hyaml, hopens, hcut, overlay]
          | some n => simp [saveTo, finishSave, hyaml, hopens, hcut, overlay]

private theorem execute_save {l : Locals K} {s : Handle K} :
    execute [openFile env, writeText env, storeConfig] l s =
      match saveTo K env l.new s.file with
      | (true, file) => (.ok l, { s with file := file, config := l.new })
      | (false, file) => (fail .save, { s with file := file }) := by
  rcases startSave_finishSave env l.new s with
    ⟨hstart, hsave⟩ | ⟨hstart, ok, file, hsave, hfinish⟩
  · simp [execute, openFile, hstart, hsave, fail]
  · rw [hsave]
    cases ok with
    | true => simp [execute, openFile, writeText, storeConfig, hstart, hfinish]
    | false => simp [execute, openFile, writeText, hstart, hfinish, fail]

/-- A call's result from what its phases come to. -/
private def reported (result : Run ApplyError (Locals K) × Handle K) :
    Run ApplyError ApplyReport × Handle K :=
  match result with
  | (.ok l, s) => (.ok l.report, s)
  | (.error e, s) => (.error e, s)

private theorem outcome_after_listener {submitted : Config} {s s' : Handle K} {l l' : Locals K}
    (hplan : plan K s.config submitted = .ok l) (hrouter : RouterStored env l s s')
    (hbind : l.listenChanged = true → env.binds l.new.listen = true)
    (hfirewall : (listenerStored l s').firewall = s.firewall)
    (hfile : (listenerStored l s').file = s.file)
    (hsame : l'.new = l.new ∧ l'.firewallChanged = l.firewallChanged ∧
      l'.dhcpChanged = l.dhcpChanged ∧ l'.loadedHosts = none) :
    Outcome env submitted s (reported (execute (reapplyFirewall env :: loadHosts :: restartDhcp ::
      [openFile env, writeText env, storeConfig]) l' (listenerStored l s'))) := by
  obtain ⟨hnew, hfwChanged, hdhcpChanged, hloaded⟩ := hsame
  rcases execute_firewall env (loadHosts :: restartDhcp ::
      [openFile env, writeText env, storeConfig]) l' (listenerStored l s') with
    ⟨l₁, fw, hl₁, hstored, hexec⟩ | ⟨hchanged, fw, hfailed, hexec⟩
  · have hwork : l₁.new = l.new ∧ l₁.dhcpChanged = l.dhcpChanged ∧ l₁.loadedHosts = none := by
      rcases hl₁ with rfl | rfl
      · exact ⟨hnew, hdhcpChanged, hloaded⟩
      · exact ⟨hnew, hdhcpChanged, hloaded⟩
    obtain ⟨hnew₁, hdhcp₁, hloaded₁⟩ := hwork
    have hstored' : FirewallStored env l s.firewall fw := by
      unfold FirewallStored at hstored ⊢
      rwa [hnew, hfirewall, hfwChanged] at hstored
    rw [hexec]
    obtain ⟨l₂, hnew₂, hexec₂⟩ := execute_dhcp [openFile env, writeText env, storeConfig]
      { listenerStored l s' with firewall := fw } hloaded₁
    have hdhcp : dhcpStored l₁ { listenerStored l s' with firewall := fw } =
        dhcpStored l { listenerStored l s' with firewall := fw } := by
      unfold dhcpStored
      rw [hdhcp₁, hnew₁]
    have hfile₂ : (dhcpStored l { listenerStored l s' with firewall := fw }).file = s.file :=
      (dhcpStored_file l _).trans hfile
    rw [hexec₂, hdhcp, execute_save, hnew₂, hnew₁, hfile₂]
    cases hsave : saveTo K env l.new s.file with
    | mk ok file =>
        cases ok with
        | true => exact .done _ hplan hrouter hbind hstored' hsave
        | false => exact .unsaved hplan hrouter hbind hstored' hsave
  · rw [hexec]
    rw [hnew, hfirewall] at hfailed
    exact .unprotected hplan hrouter hbind (hfwChanged ▸ hchanged) hfailed

private theorem outcome_after_router {submitted : Config} {s s' : Handle K} {l l' : Locals K}
    (hplan : plan K s.config submitted = .ok l) (hrouter : RouterStored env l s s')
    (hfirewall : s'.firewall = s.firewall) (hfile : s'.file = s.file)
    (hsame : l'.new = l.new ∧ l'.listenChanged = l.listenChanged ∧
      l'.firewallChanged = l.firewallChanged ∧ l'.dhcpChanged = l.dhcpChanged ∧
      l'.loadedRouter = none ∧ l'.loadedHosts = none) :
    Outcome env submitted s (reported (execute (loadRouter :: rebindListener env ::
      reapplyFirewall env :: loadHosts :: restartDhcp ::
      [openFile env, writeText env, storeConfig]) l' s')) := by
  obtain ⟨hnew, hlisten, hfw, hdhcp, hrouter', hhosts⟩ := hsame
  have hstored : listenerStored l' s' = listenerStored l s' := by
    unfold listenerStored
    rw [hlisten, hnew]
  have hfirewall' := (listenerStored_firewall l s').trans hfirewall
  have hfile' := (listenerStored_file l s').trans hfile
  rw [execute_listener hrouter', hlisten, hnew, hstored]
  cases hchanged : l.listenChanged with
  | false =>
      rw [if_neg (by simp)]
      exact outcome_after_listener hplan hrouter (by simp [hchanged]) hfirewall' hfile'
        ⟨hnew, hfw, hdhcp, hhosts⟩
  | true =>
      rw [if_pos rfl]
      cases hbinds : env.binds l.new.listen with
      | false => exact .unbound hplan hrouter hchanged hbinds
      | true =>
          rw [if_pos rfl]
          exact outcome_after_listener hplan hrouter (fun _ => hbinds) hfirewall' hfile'
            ⟨rfl, hfw, hdhcp, hhosts⟩

/-- What a call sets out with: nothing built or loaded, and a flag for each
difference between the configurations. -/
structure Planned (old submitted : Config) (l : Locals K) : Prop where
  new : l.new = pinned old submitted
  domain : l.domainChanged = true ↔ dhcpDomainOf old.dhcp ≠ dhcpDomainOf l.new.dhcp
  routing : l.routingChanged = true ↔ ¬ old.SameRouting l.new
  listen : l.listenChanged = true ↔ old.listen ≠ l.new.listen
  firewall : l.firewallChanged = true ↔ old.firewall ≠ l.new.firewall
  dhcp : l.dhcpChanged = true ↔ old.dhcp ≠ l.new.dhcp
  built : l.built = none
  loadedRouter : l.loadedRouter = none
  loadedHosts : l.loadedHosts = none

theorem plan_ok {old submitted : Config} {l : Locals K} (h : plan K old submitted = .ok l) :
    Planned old submitted l := by
  unfold plan at h
  dsimp only at h
  cases hvalid : (pinned old submitted).validate K.T with
  | error e =>
      rw [hvalid] at h
      cases h
  | ok u =>
      rw [hvalid] at h
      cases h
      exact ⟨rfl, decide_eq_true_iff, decide_eq_true_iff, decide_eq_true_iff, decide_eq_true_iff,
        decide_eq_true_iff, rfl, rfl, rfl⟩

/-- Every call ends in one of the ways listed. -/
theorem apply_outcome (env : Env) (submitted : Config) (s : Handle K) :
    Outcome env submitted s (apply env submitted s) := by
  unfold apply
  cases hplan : plan K s.config submitted with
  | error e => exact .invalid hplan
  | ok l =>
      have hplanned := plan_ok hplan
      change Outcome env submitted s (reported (execute (phases env) l s))
      unfold phases
      rw [execute_router hplanned.built]
      cases hrebuilds : l.rebuilds with
      | false =>
          rw [if_neg (by simp)]
          exact outcome_after_router hplan (.kept hrebuilds) rfl rfl
            ⟨rfl, rfl, rfl, rfl, hplanned.loadedRouter, hplanned.loadedHosts⟩
      | true =>
          rw [if_pos rfl]
          cases hnew : newRouter env l s with
          | error fault => exact .unbuilt hplan hrebuilds hnew
          | ok router =>
              exact outcome_after_router hplan (.rebuilt hrebuilds hnew) (hostsStored_firewall l s)
                (hostsStored_file l s) ⟨rfl, rfl, rfl, rfl, hplanned.loadedRouter, hplanned.loadedHosts⟩

/-- A call that succeeds went through every phase. -/
theorem apply_ok {submitted : Config} {s s' : Handle K} {report : ApplyReport}
    (h : apply env submitted s = (.ok report, s')) :
    ∃ l s₁ fw file, plan K s.config submitted = .ok l ∧ RouterStored env l s s₁ ∧
      (l.listenChanged = true → env.binds l.new.listen = true) ∧
      FirewallStored env l s.firewall fw ∧ saveTo K env l.new s.file = (true, file) ∧
      s' = { dhcpStored l { listenerStored l s₁ with firewall := fw } with
        file := file
        config := l.new } := by
  have houtcome := apply_outcome env submitted s
  rw [h] at houtcome
  cases houtcome with
  | @done l s₁ fw file _ hplan hrouter hbinds hfirewall hsave =>
      exact ⟨l, s₁, fw, file, hplan, hrouter, hbinds, hfirewall, hsave, rfl⟩

/-- Nothing fails on the way of a call. -/
def Accepts (env : Env) (submitted : Config) (s : Handle K) : Prop :=
  ∃ l, plan K s.config submitted = .ok l ∧
    (l.rebuilds = true → ∃ router, newRouter env l s = .ok router) ∧
    (l.listenChanged = true → env.binds l.new.listen = true) ∧
    (l.firewallChanged = true →
      (s.firewall.reapply l.new.firewall l.new.listen.port env.installs).1 = true) ∧
    (saveTo K env l.new s.file).1 = true

/-- The configuration in force changes with the calls that nothing stops, and
with no others. -/
theorem apply_config_cases (env : Env) (submitted : Config) (s : Handle K) :
    (Accepts env submitted s ∧ (∃ report, (apply env submitted s).1 = .ok report) ∧
        (apply env submitted s).2.config = pinned s.config submitted) ∨
      (¬ Accepts env submitted s ∧ (∃ e, (apply env submitted s).1 = .error e) ∧
        (apply env submitted s).2.config = s.config) := by
  have houtcome := apply_outcome env submitted s
  generalize apply env submitted s = result at houtcome ⊢
  cases houtcome with
  | invalid hplan =>
      refine Or.inr ⟨?_, ⟨_, rfl⟩, rfl⟩
      rintro ⟨l, hplan', _⟩
      rw [hplan] at hplan'
      cases hplan'
  | @unbuilt l fault hplan hrebuilds hnew =>
      refine Or.inr ⟨?_, ⟨_, rfl⟩, hostsStored_config l s⟩
      rintro ⟨l', hplan', hbuilds, _⟩
      rw [hplan] at hplan'
      cases hplan'
      obtain ⟨router, hrouter⟩ := hbuilds hrebuilds
      rw [hnew] at hrouter
      cases hrouter
  | @unbound l s₁ hplan hrouter hlisten hbinds =>
      refine Or.inr ⟨?_, ⟨_, rfl⟩, hrouter.config⟩
      rintro ⟨l', hplan', _, hbound, _⟩
      rw [hplan] at hplan'
      cases hplan'
      rw [hbound hlisten] at hbinds
      cases hbinds
  | @unprotected l s₁ fw hplan hrouter _ hchanged hfailed =>
      refine Or.inr ⟨?_, ⟨_, rfl⟩, ?_⟩
      · rintro ⟨l', hplan', _, _, hinstalled, _⟩
        rw [hplan] at hplan'
        cases hplan'
        have hok := hinstalled hchanged
        rw [hfailed] at hok
        cases hok
      · exact (listenerStored_config l s₁).trans hrouter.config
  | @unsaved l s₁ fw file hplan hrouter _ _ hsave =>
      refine Or.inr ⟨?_, ⟨_, rfl⟩, ?_⟩
      · rintro ⟨l', hplan', _, _, _, hsaved⟩
        rw [hplan] at hplan'
        cases hplan'
        rw [hsave] at hsaved
        cases hsaved
      · exact (dhcpStored_config l _).trans ((listenerStored_config l s₁).trans hrouter.config)
  | @done l s₁ fw file report hplan hrouter hbinds hfirewall hsave =>
      refine Or.inl ⟨⟨l, hplan, hrouter.newRouter_ok, hbinds, ?_, ?_⟩, ⟨report, rfl⟩,
        (plan_ok hplan).new⟩
      · intro hchanged
        unfold FirewallStored at hfirewall
        rw [if_pos hchanged] at hfirewall
        rw [hfirewall]
      · rw [hsave]

theorem apply_config {submitted : Config} {s s' : Handle K} {report : ApplyReport}
    (h : apply env submitted s = (.ok report, s')) :
    Accepts env submitted s ∧ s'.config = pinned s.config submitted := by
  rcases apply_config_cases env submitted s with ⟨haccepts, _, hconfig⟩ | ⟨_, ⟨e, he⟩, _⟩
  · rw [h] at hconfig
    exact ⟨haccepts, hconfig⟩
  · rw [h] at he
    cases he

/-- A started runtime: one router, in the store and with the listener, and one
hosts table. -/
theorem start_ok {baseDir : String} {config : Config} {file : Option Bytes} {s : Handle K}
    (h : start env baseDir config file = .ok s) :
    ∃ router fw, Router.fromConfig K.T K.U K.F K.R K.C env.files baseDir 0 config = .ok router ∧
      ({} : Firewall).reapply config.firewall config.listen.port env.installs = (true, fw) ∧
      s = {
        baseDir := baseDir
        config := config
        router := ⟨1, router⟩
        dynamicHosts := ⟨0, DynamicHosts.new (dhcpDomainOf config.dhcp)⟩
        listener := ⟨2, config.listen, ⟨1, router⟩⟩
        firewall := fw
        dhcp := ⟨3, config.dhcp, 0⟩
        file := file
        nextArc := 4 } := by
  unfold start at h
  dsimp only at h
  cases hbuild : Router.fromConfig K.T K.U K.F K.R K.C env.files baseDir 0 config with
  | error fault =>
      rw [hbuild] at h
      cases h
  | ok router =>
      rw [hbuild] at h
      dsimp only at h
      rw [run_ok_bind] at h
      split at h
      · cases h
      · split at h
        · cases h
        · rename_i fw hfirewall
          cases h
          exact ⟨router, fw, rfl, hfirewall, rfl⟩

end Relay.Runtime
