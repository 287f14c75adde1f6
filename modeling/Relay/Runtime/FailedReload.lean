import Relay.Runtime.HotReload

/-!
What a rejected configuration leaves behind. A call that fails is meant to
change nothing but the firewall rules. It stores as it goes, though, so it
changes nothing exactly when it fails before its first store.
-/

namespace Relay.Runtime

open Binary Dns Logic

variable {K : Platform}

/-- The parts a failed call is to leave alone. -/
structure Untouched (s s' : Handle K) : Prop where
  config : s'.config = s.config
  router : s'.router = s.router
  dynamicHosts : s'.dynamicHosts = s.dynamicHosts
  listener : s'.listener = s.listener
  dhcp : s'.dhcp = s.dhcp
  file : s'.file = s.file

/-- No write to the configuration file is cut short, unless it was cut there
before. -/
def FileKept (env : Env) (new : Config) (file : Option Bytes) : Prop :=
  ∀ text n, K.yaml new = some text → env.opens = true → env.cutAt = some n →
    file = some (text.take n)

/-- The configuration is rejected before anything is stored. -/
def FailsFirst (env : Env) (submitted : Config) (s : Handle K) : Prop :=
  ∀ l, plan K s.config submitted = .ok l →
    if l.rebuilds then
      l.domainChanged = false ∧ ∀ router, newRouter env l s ≠ .ok router
    else if l.listenChanged then env.binds l.new.listen = false
    else if l.firewallChanged = true ∧
        (s.firewall.reapply l.new.firewall l.new.listen.port env.installs).1 = false then True
    else l.dhcpChanged = false ∧ FileKept (K := K) env l.new s.file

/-- A router and the table it reads have identities given out before this one. -/
def GivenBefore (router : Shared (Router K.F K.R K.C)) (arc : Arc) : Prop :=
  router.id < arc ∧ router.value.dynamicHosts < arc

theorem GivenBefore.mono {router : Shared (Router K.F K.R K.C)} {arc arc' : Arc}
    (h : GivenBefore router arc) (hle : arc ≤ arc') : GivenBefore router arc' :=
  ⟨Nat.lt_of_lt_of_le h.1 hle, Nat.lt_of_lt_of_le h.2 hle⟩

/-- Identities are given out once. -/
structure Allocated (s : Handle K) : Prop where
  router : GivenBefore s.router s.nextArc
  dynamicHosts : s.dynamicHosts.id < s.nextArc
  listener : s.listener.id < s.nextArc
  serving : GivenBefore s.listener.router s.nextArc
  dhcp : s.dhcp.id < s.nextArc

/-! ### Identities along runs -/

theorem Allocated.hostsStored {s : Handle K} (h : Allocated s) (l : Locals K) :
    Allocated (hostsStored l s) := by
  unfold Runtime.hostsStored
  split
  · exact ⟨h.router.mono (Nat.le_succ _), Nat.lt_succ_self _, Nat.lt_succ_of_lt h.listener,
      h.serving.mono (Nat.le_succ _), Nat.lt_succ_of_lt h.dhcp⟩
  · exact h

theorem Allocated.routerStored {env : Env} {s s' : Handle K} {l : Locals K} (h : Allocated s)
    (hrouter : RouterStored env l s s') : Allocated s' := by
  cases hrouter with
  | kept => exact h
  | rebuilt _ hnew =>
      have hhosts := h.hostsStored l
      have hreads := Router.fromConfig_dynamicHosts hnew
      refine ⟨⟨Nat.lt_succ_self _, ?_⟩, Nat.lt_succ_of_lt hhosts.dynamicHosts,
        Nat.lt_succ_of_lt hhosts.listener, hhosts.serving.mono (Nat.le_succ _),
        Nat.lt_succ_of_lt hhosts.dhcp⟩
      change _ < (Runtime.hostsStored l s).nextArc + 1
      dsimp only [Handle.replaceRouter]
      rw [hreads]
      exact Nat.lt_succ_of_lt hhosts.dynamicHosts

theorem Allocated.listenerStored {s : Handle K} (h : Allocated s) (l : Locals K) :
    Allocated (listenerStored l s) := by
  unfold Runtime.listenerStored
  split
  · exact ⟨h.router.mono (Nat.le_succ _), Nat.lt_succ_of_lt h.dynamicHosts, Nat.lt_succ_self _,
      h.router.mono (Nat.le_succ _), Nat.lt_succ_of_lt h.dhcp⟩
  · exact h

theorem Allocated.dhcpStored {s : Handle K} (h : Allocated s) (l : Locals K) :
    Allocated (dhcpStored l s) := by
  unfold Runtime.dhcpStored
  split
  · exact ⟨h.router.mono (Nat.le_succ _), Nat.lt_succ_of_lt h.dynamicHosts,
      Nat.lt_succ_of_lt h.listener, h.serving.mono (Nat.le_succ _), Nat.lt_succ_self _⟩
  · exact h

theorem Allocated.with_firewall {s : Handle K} (h : Allocated s) (fw : Firewall) :
    Allocated { s with firewall := fw } :=
  ⟨h.router, h.dynamicHosts, h.listener, h.serving, h.dhcp⟩

theorem allocated_call {s s' : Handle K} {c : Call} (h : Allocated s) (hcall : call s c s') :
    Allocated s' := by
  unfold call at hcall
  subst hcall
  have houtcome := apply_outcome c.1 c.2 s
  generalize apply c.1 c.2 s = result at houtcome ⊢
  cases houtcome with
  | invalid => exact h
  | @unbuilt l => exact h.hostsStored l
  | unbound _ hrouter => exact h.routerStored hrouter
  | @unprotected l s₁ fw _ hrouter =>
      exact ((h.routerStored hrouter).listenerStored l).with_firewall fw
  | @unsaved l s₁ fw _ _ hrouter =>
      have hstored := (((h.routerStored hrouter).listenerStored l).with_firewall fw).dhcpStored l
      exact ⟨hstored.router, hstored.dynamicHosts, hstored.listener, hstored.serving, hstored.dhcp⟩
  | @done l s₁ fw _ _ _ hrouter =>
      have hstored := (((h.routerStored hrouter).listenerStored l).with_firewall fw).dhcpStored l
      exact ⟨hstored.router, hstored.dynamicHosts, hstored.listener, hstored.serving, hstored.dhcp⟩

theorem allocated_start {env : Env} {baseDir : String} {config : Config} {file : Option Bytes}
    {s : Handle K} (h : start env baseDir config file = .ok s) : Allocated s := by
  obtain ⟨router, fw, hbuild, _, rfl⟩ := start_ok h
  have hreads : router.dynamicHosts = 0 := Router.fromConfig_dynamicHosts hbuild
  have hrouter : ∀ id < 4, GivenBefore (K := K) ⟨id, router⟩ 4 := by
    intro id hid
    refine ⟨hid, ?_⟩
    dsimp only
    rw [hreads]
    decide
  exact ⟨hrouter 1 (by decide), (by decide : 0 < 4), (by decide : 2 < 4), hrouter 1 (by decide),
    (by decide : 3 < 4)⟩

theorem allocated_run {env : Env} {baseDir : String} {config : Config} {file : Option Bytes}
    {s₀ s : Handle K} {calls : List Call} (hstart : start env baseDir config file = .ok s₀)
    (run : Steps call s₀ calls s) : Allocated s := by
  apply run.invariant (allocated_start hstart)
  intro t c u ht hcall
  exact allocated_call ht hcall

/-! ### What a failed call changes -/

/-- A stored router is a new one. -/
theorem RouterStored.router_ne {env : Env} {s s' : Handle K} {l : Locals K} (h : Allocated s)
    (hrouter : RouterStored env l s s') (hrebuilds : l.rebuilds = true) : s'.router ≠ s.router := by
  cases hrouter with
  | kept hkept =>
      rw [hkept] at hrebuilds
      cases hrebuilds
  | @rebuilt router _ _ =>
      intro heq
      have hid : (hostsStored l s).nextArc = s.router.id := congrArg Shared.id heq
      have hlt : s.router.id < (hostsStored l s).nextArc :=
        Nat.lt_of_lt_of_le h.router.1 (le_hostsStored_nextArc l s)
      rw [hid] at hlt
      exact Nat.lt_irrefl _ hlt

theorem RouterStored.eq_of_kept {env : Env} {s s' : Handle K} {l : Locals K}
    (hrouter : RouterStored env l s s') (hrebuilds : l.rebuilds = false) : s' = s := by
  cases hrouter with
  | kept => rfl
  | rebuilt hrebuilt =>
      rw [hrebuilds] at hrebuilt
      cases hrebuilt

theorem Untouched.refl (s : Handle K) : Untouched s s := ⟨rfl, rfl, rfl, rfl, rfl, rfl⟩

theorem failsFirst_iff {env : Env} {submitted : Config} {s : Handle K} {l : Locals K}
    (hplan : plan K s.config submitted = .ok l) :
    FailsFirst env submitted s ↔
      if l.rebuilds then
        l.domainChanged = false ∧ ∀ router, newRouter env l s ≠ .ok router
      else if l.listenChanged then env.binds l.new.listen = false
      else if l.firewallChanged = true ∧
          (s.firewall.reapply l.new.firewall l.new.listen.port env.installs).1 = false then True
      else l.dhcpChanged = false ∧ FileKept (K := K) env l.new s.file := by
  constructor
  · intro h
    exact h l hplan
  · intro h l' hplan'
    rw [hplan] at hplan'
    cases hplan'
    exact h

private theorem not_failsFirst_of_stored {env : Env} {submitted : Config} {s s' : Handle K}
    {l : Locals K} (hplan : plan K s.config submitted = .ok l)
    (hrouter : RouterStored env l s s') (hrebuilds : l.rebuilds = true) :
    ¬ FailsFirst env submitted s := by
  obtain ⟨router, hnew⟩ := hrouter.newRouter_ok hrebuilds
  rw [failsFirst_iff hplan, if_pos hrebuilds]
  intro h
  exact h.2 router hnew

private theorem not_failsFirst_of_bound {env : Env} {submitted : Config} {s : Handle K}
    {l : Locals K} (hplan : plan K s.config submitted = .ok l) (hrebuilds : l.rebuilds = false)
    (hlisten : l.listenChanged = true) (hbinds : env.binds l.new.listen = true) :
    ¬ FailsFirst env submitted s := by
  rw [failsFirst_iff hplan, if_neg (by simp [hrebuilds]), if_pos hlisten, hbinds]
  intro h
  cases h

/-- A rebound listener is a new one. -/
private theorem listenerStored_ne {s : Handle K} {l : Locals K} (h : Allocated s)
    (hlisten : l.listenChanged = true) : (listenerStored l s).listener ≠ s.listener := by
  rw [listenerStored_eq hlisten]
  intro heq
  have hid : s.nextArc = s.listener.id := congrArg DnsListener.id heq
  have hlt := h.listener
  rw [← hid] at hlt
  exact Nat.lt_irrefl _ hlt

private theorem saveTo_file_iff {env : Env} {new : Config} {before after : Option Bytes}
    (h : saveTo K env new before = (false, after)) :
    after = before ↔ FileKept (K := K) env new before := by
  unfold saveTo at h
  unfold FileKept
  cases hyaml : K.yaml new with
  | none =>
      rw [hyaml] at h
      cases h
      simp
  | some text =>
      rw [hyaml] at h
      dsimp only at h
      cases hopens : env.opens with
      | false =>
          rw [hopens] at h
          cases h
          simp
      | true =>
          rw [hopens, if_pos rfl] at h
          cases hcut : env.cutAt with
          | none =>
              rw [hcut] at h
              cases h
          | some n =>
              rw [hcut] at h
              cases h
              simp [eq_comm]

private theorem untouched_unsaved_iff {env : Env} {s : Handle K} {l : Locals K}
    {file : Option Bytes} (h : Allocated s) (fw : Firewall)
    (hsave : saveTo K env l.new s.file = (false, file)) :
    Untouched s { dhcpStored l { s with firewall := fw } with file := file } ↔
      l.dhcpChanged = false ∧ FileKept (K := K) env l.new s.file := by
  rw [← saveTo_file_iff hsave]
  cases hchanged : l.dhcpChanged with
  | false =>
      rw [dhcpStored_eq_self hchanged]
      constructor
      · intro hsame
        exact ⟨rfl, hsame.file⟩
      · intro hfile
        exact ⟨rfl, rfl, rfl, rfl, rfl, hfile.2⟩
  | true =>
      rw [dhcpStored_eq hchanged]
      refine iff_of_false ?_ (by simp)
      intro hsame
      have hid : s.nextArc = s.dhcp.id := congrArg DhcpServices.id hsame.dhcp
      have hlt := h.dhcp
      rw [← hid] at hlt
      exact Nat.lt_irrefl _ hlt

/-- Once the router or the listener has been stored, neither side can hold. -/
private theorem untouched_iff_of_stored {env : Env} {submitted : Config} {s s₁ s' : Handle K}
    {l : Locals K} (h : Allocated s) (hplan : plan K s.config submitted = .ok l)
    (hrouter : RouterStored env l s s₁)
    (hbinds : l.listenChanged = true → env.binds l.new.listen = true)
    (hsame : s'.router = s₁.router) (hlistener : s'.listener = (listenerStored l s₁).listener)
    (hstored : ¬ (l.rebuilds = false ∧ l.listenChanged = false)) :
    Untouched s s' ↔ FailsFirst env submitted s := by
  cases hrebuilds : l.rebuilds with
  | true =>
      refine iff_of_false ?_ (not_failsFirst_of_stored hplan hrouter hrebuilds)
      intro huntouched
      exact hrouter.router_ne h hrebuilds (hsame.symm.trans huntouched.router)
  | false =>
      obtain rfl := hrouter.eq_of_kept hrebuilds
      have hlisten : l.listenChanged = true := by
        rw [← Bool.not_eq_false]
        exact fun hkept => hstored ⟨hrebuilds, hkept⟩
      refine iff_of_false ?_ (not_failsFirst_of_bound hplan hrebuilds hlisten (hbinds hlisten))
      intro huntouched
      exact listenerStored_ne h hlisten (hlistener.symm.trans huntouched.listener)

/-- Without a new router and a new address the call has stored nothing yet. -/
private theorem eq_of_not_stored {env : Env} {s s₁ : Handle K} {l : Locals K}
    (hrouter : RouterStored env l s s₁) (hrebuilds : l.rebuilds = false)
    (hlisten : l.listenChanged = false) : s₁ = s ∧ listenerStored l s₁ = s := by
  obtain rfl := hrouter.eq_of_kept hrebuilds
  exact ⟨rfl, listenerStored_eq_self hlisten _⟩

/-- A failed call leaves everything but the firewall alone exactly when it
fails before its first store. -/
theorem untouched_iff_failsFirst {env₀ env : Env} {baseDir : String} {config submitted : Config}
    {file : Option Bytes} {s₀ s s' : Handle K} {calls : List Call} {e : ApplyError}
    (hstart : start env₀ baseDir config file = .ok s₀) (run : Steps call s₀ calls s)
    (hfailed : apply env submitted s = (.error (.error e), s')) :
    Untouched s s' ↔ FailsFirst env submitted s := by
  have hallocated := allocated_run hstart run
  have houtcome := apply_outcome env submitted s
  rw [hfailed] at houtcome
  generalize hresult : (.error (.error e) : Run ApplyError ApplyReport) = result at houtcome
  cases houtcome with
  | invalid hplan =>
      refine iff_of_true (.refl s) ?_
      intro l hplan'
      rw [hplan] at hplan'
      cases hplan'
  | @unbuilt l fault hplan hrebuilds hnew =>
      rw [failsFirst_iff hplan, if_pos hrebuilds, hnew]
      cases hdomain : l.domainChanged with
      | false =>
          refine iff_of_true ?_ ⟨rfl, by simp⟩
          rw [hostsStored_eq_self hdomain]
          exact .refl s
      | true =>
          refine iff_of_false ?_ (by simp)
          intro h
          have hhosts := h.dynamicHosts
          rw [hostsStored_eq hdomain] at hhosts
          have hid : s.nextArc = s.dynamicHosts.id := congrArg Shared.id hhosts
          have hlt := hallocated.dynamicHosts
          rw [← hid] at hlt
          exact Nat.lt_irrefl _ hlt
  | @unbound l s₁ hplan hrouter hlisten hbinds =>
      cases hrebuilds : l.rebuilds with
      | true =>
          refine iff_of_false ?_ (not_failsFirst_of_stored hplan hrouter hrebuilds)
          intro h
          exact hrouter.router_ne hallocated hrebuilds h.router
      | false =>
          obtain rfl := hrouter.eq_of_kept hrebuilds
          refine iff_of_true (.refl _) ?_
          rw [failsFirst_iff hplan, if_neg (by simp [hrebuilds]), if_pos hlisten]
          exact hbinds
  | @unprotected l s₁ fw hplan hrouter hbinds hchanged hfw =>
      by_cases hkept : l.rebuilds = false ∧ l.listenChanged = false
      · obtain ⟨rfl, hlistener⟩ := eq_of_not_stored hrouter hkept.1 hkept.2
        rw [failsFirst_iff hplan, if_neg (by simp [hkept.1]), if_neg (by simp [hkept.2]),
          if_pos ⟨hchanged, by rw [hfw]⟩, hlistener]
        exact iff_of_true ⟨rfl, rfl, rfl, rfl, rfl, rfl⟩ trivial
      · exact untouched_iff_of_stored hallocated hplan hrouter hbinds (listenerStored_router l s₁)
          rfl hkept
  | @unsaved l s₁ fw file hplan hrouter hbinds hfw hsave =>
      by_cases hkept : l.rebuilds = false ∧ l.listenChanged = false
      · obtain ⟨rfl, hlistener⟩ := eq_of_not_stored hrouter hkept.1 hkept.2
        have hinstalled : ¬ (l.firewallChanged = true ∧
            (s₁.firewall.reapply l.new.firewall l.new.listen.port env.installs).1 = false) := by
          rintro ⟨hchanged, hfails⟩
          unfold FirewallStored at hfw
          rw [if_pos hchanged] at hfw
          rw [hfw] at hfails
          cases hfails
        rw [failsFirst_iff hplan, if_neg (by simp [hkept.1]), if_neg (by simp [hkept.2]),
          if_neg hinstalled, hlistener]
        exact untouched_unsaved_iff hallocated fw hsave
      · exact untouched_iff_of_stored hallocated hplan hrouter hbinds
          ((dhcpStored_router l _).trans (listenerStored_router l s₁)) (dhcpStored_listener l _)
          hkept
  | done => cases hresult

/-! ### An address that is in use -/

/-- The address of `filteredAndMoved` is taken. -/
def takenEnv : Env := { quietEnv with binds := fun addr => addr.port != 5353 }

def movedOnly : Config := { smallConfig with listen := ⟨.v4 0x7f000001, 5353⟩ }

theorem untouched_after_bind_failure :
    ∃ s', apply takenEnv movedOnly smallRuntime = (.error (.error (.bind movedOnly.listen)), s') ∧
      Untouched smallRuntime s' := by
  have hfailed : apply takenEnv movedOnly smallRuntime =
      (.error (.error (.bind movedOnly.listen)), smallRuntime) := rfl
  refine ⟨smallRuntime, hfailed, ?_⟩
  apply (untouched_iff_failsFirst smallRuntime_start (.done _) hfailed).mpr
  intro l hplan
  cases hplan
  rfl

/-- A call that changes the strategy and fails to bind has stored the router. -/
theorem router_stored_by_failed_call :
    ¬ ∀ (K : Platform) (env₀ env : Env) (baseDir : String) (config submitted : Config)
      (file : Option Bytes) (s₀ s s' : Handle K) (calls : List Call) (e : ApplyError),
      start env₀ baseDir config file = .ok s₀ → Steps call s₀ calls s →
      apply env submitted s = (.error (.error e), s') → Untouched s s' := by
  intro h
  have huntouched := h smallPlatform quietEnv takenEnv "/" smallConfig filteredAndMoved none
    smallRuntime smallRuntime _ [] (.bind filteredAndMoved.listen) smallRuntime_start (.done _) rfl
  have hstrategy := congrArg (fun router => router.value.strategy) huntouched.router
  cases hstrategy

end Relay.Runtime
