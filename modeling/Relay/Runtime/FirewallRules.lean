import Relay.Runtime.HotReload

/-!
Whether the redirect rules follow the configuration. A call re-installs them
only when the firewall section differs, so a new port is not noticed; and when
it does, the guard of the old rules is dropped after the new ones are in place
and removes them, if both come from one backend. Along runs without such calls
the rules are those of the section in force and of the port the listener is
bound to.
-/

namespace Relay.Runtime

open Binary Dns Logic

variable {K : Platform}

/-- A call of `apply` that succeeds. -/
def applied (s : Handle K) (c : Call) (s' : Handle K) : Prop :=
  ∃ report, apply c.1 c.2 s = (.ok report, s')

/-- With an enabled section the installed rules are those of the section and of
the port, and else there are none. -/
def Firewall.IsOf (installed : Firewall) (config : Option FirewallConfig) (port : UInt16) : Prop :=
  match config with
  | some fw =>
      if fw.enable then ∃ backend, installed.rules = [⟨backend, fw, port⟩]
      else installed.rules = []
  | none => installed.rules = []

/-- The installed rules are those of the firewall section in force and of the
listener's port. -/
def RulesFollow (s : Handle K) : Prop :=
  s.firewall.IsOf s.config.firewall s.listener.addr.port

/-- A call that ends with the firewall enabled keeps the port with the section,
or finds no guard of the backend that installs the new rules. -/
def KeepsRules (s : Handle K) (c : Call) : Prop :=
  ∀ fw, c.2.firewall = some fw → fw.enable = true →
    if s.config.firewall = some fw then s.listener.addr.port = c.2.listen.port
    else s.firewall.guard ≠ c.1.installs fw

/-- The rules in the system, if there are any, are those of the guard that is
held. -/
def Firewall.Owned (fw : Firewall) : Prop :=
  fw.rules = [] ∨ ∃ r, fw.rules = [r] ∧ fw.guard = some r.backend

/-- What goes with the rules along a run. -/
structure Redirecting (s : Handle K) : Prop where
  bound : s.listener.addr = s.config.listen
  owned : s.firewall.Owned
  follow : RulesFollow s

theorem dropGuard_owned {fw : Firewall} (h : fw.Owned) : dropGuard fw.guard fw.rules = [] := by
  rcases h with hrules | ⟨r, hrules, hguard⟩
  · rw [hrules]
    cases fw.guard <;> rfl
  · rw [hguard, hrules]
    simp [dropGuard, cleanup]

/-- The new rules are left alone unless the old guard is of their backend. -/
theorem dropGuard_setup {fw : Firewall} (h : fw.Owned) (backend : BackendKind)
    (config : FirewallConfig) (port : UInt16) :
    dropGuard fw.guard (setup backend config port fw.rules) =
      if fw.guard = some backend then [] else [⟨backend, config, port⟩] := by
  rcases h with hrules | ⟨r, hrules, hguard⟩
  · rw [hrules]
    cases hguard : fw.guard with
    | none => simp [dropGuard, setup, cleanup]
    | some held =>
        by_cases hsame : held = backend
        · simp [dropGuard, setup, cleanup, hsame]
        · have hother : backend ≠ held := fun heq => hsame heq.symm
          simp [dropGuard, setup, cleanup, hsame, hother]
  · rw [hguard, hrules]
    by_cases hsame : r.backend = backend
    · simp [dropGuard, setup, cleanup, hsame]
    · have hother : backend ≠ r.backend := fun heq => hsame heq.symm
      simp [dropGuard, setup, cleanup, hsame, hother]

/-- Whether it succeeds or not, re-installing leaves no rules but the guard's. -/
theorem reapply_owned {fw : Firewall} (howned : fw.Owned) (config : Option FirewallConfig)
    (port : UInt16) (installs : FirewallConfig → Option BackendKind) :
    (fw.reapply config port installs).2.Owned := by
  have hnone := dropGuard_owned howned
  unfold Firewall.reapply
  cases config with
  | none => exact Or.inl hnone
  | some fwConfig =>
      dsimp only
      split
      · exact Or.inl hnone
      · cases installs fwConfig with
        | none => exact Or.inl hnone
        | some backend =>
            dsimp only
            rw [dropGuard_setup howned]
            split
            · exact Or.inl rfl
            · exact Or.inr ⟨_, rfl, rfl⟩

/-- What re-installing comes to when it succeeds. -/
theorem reapply_ok {fw fw' : Firewall} (howned : fw.Owned) {config : Option FirewallConfig}
    {port : UInt16} {installs : FirewallConfig → Option BackendKind}
    (h : fw.reapply config port installs = (true, fw')) :
    ((∀ f, config = some f → f.enable = false) ∧ fw' = ⟨[], none⟩) ∨
      ∃ f backend, config = some f ∧ f.enable = true ∧ installs f = some backend ∧
        fw' = ⟨if fw.guard = some backend then [] else [⟨backend, f, port⟩], some backend⟩ := by
  unfold Firewall.reapply at h
  cases config with
  | none =>
      cases h
      refine Or.inl ⟨(fun f hf => by cases hf), ?_⟩
      rw [dropGuard_owned howned]
  | some f =>
      dsimp only at h
      cases henable : f.enable with
      | false =>
          rw [henable, if_pos (by simp)] at h
          cases h
          refine Or.inl ⟨?_, ?_⟩
          · intro f' hf'
            cases hf'
            exact henable
          · rw [dropGuard_owned howned]
      | true =>
          rw [henable, if_neg (by simp)] at h
          cases hbackend : installs f with
          | none =>
              rw [hbackend] at h
              cases h
          | some backend =>
              rw [hbackend] at h
              cases h
              refine Or.inr ⟨f, backend, rfl, henable, hbackend, ?_⟩
              rw [dropGuard_setup howned]

/-- No call leaves rules of its own, however it ends. -/
theorem owned_call {s s' : Handle K} {c : Call} (howned : s.firewall.Owned) (hcall : call s c s') :
    s'.firewall.Owned := by
  unfold call at hcall
  subst hcall
  have hrouter : ∀ {l : Locals K} {s₁ : Handle K}, RouterStored c.1 l s s₁ →
      s₁.firewall.Owned := by
    intro l s₁ hstored
    cases hstored with
    | kept => exact howned
    | rebuilt =>
        change (hostsStored l s).firewall.Owned
        rw [hostsStored_firewall]
        exact howned
  have hstored : ∀ {l : Locals K} {fw : Firewall}, FirewallStored c.1 l s.firewall fw →
      fw.Owned := by
    intro l fw hfw
    unfold FirewallStored at hfw
    split at hfw
    · have hafter := reapply_owned howned l.new.firewall l.new.listen.port c.1.installs
      rw [hfw] at hafter
      exact hafter
    · rw [hfw]
      exact howned
  have houtcome := apply_outcome c.1 c.2 s
  generalize apply c.1 c.2 s = result at houtcome ⊢
  cases houtcome with
  | invalid => exact howned
  | @unbuilt l =>
      dsimp only
      rw [hostsStored_firewall]
      exact howned
  | unbound _ hrouterStored => exact hrouter hrouterStored
  | @unprotected l _ fw _ _ _ _ hfailed =>
      have hafter := reapply_owned howned l.new.firewall l.new.listen.port c.1.installs
      rw [hfailed] at hafter
      exact hafter
  | unsaved _ _ _ hfw =>
      dsimp only
      rw [dhcpStored_firewall]
      exact hstored hfw
  | done _ _ _ _ hfw =>
      dsimp only
      rw [dhcpStored_firewall]
      exact hstored hfw

/-- What a call that succeeds leaves of the parts that matter here. -/
private theorem applied_parts {s s' : Handle K} {c : Call} (hbound : s.listener.addr = s.config.listen)
    (h : applied s c s') :
    s'.config.firewall = c.2.firewall ∧ s'.config.listen = c.2.listen ∧
      s'.listener.addr = c.2.listen ∧
      if s.config.firewall = c.2.firewall then s'.firewall = s.firewall
      else s.firewall.reapply c.2.firewall c.2.listen.port c.1.installs = (true, s'.firewall) := by
  obtain ⟨report, h⟩ := h
  obtain ⟨l, s₁, fw, file, hplan, hrouter, _, hfirewall, _, rfl⟩ := apply_ok h
  have hplanned := plan_ok hplan
  have hnew : l.new.firewall = c.2.firewall ∧ l.new.listen = c.2.listen := by
    rw [hplanned.new]
    exact ⟨rfl, rfl⟩
  have haddr : (listenerStored l s₁).listener.addr = l.new.listen := by
    unfold listenerStored
    split
    · rfl
    · rename_i hsame
      have hlisten : s.config.listen = l.new.listen := by
        by_contra hdiffer
        exact hsame (hplanned.listen.mpr hdiffer)
      rw [hrouter.listener, hbound, hlisten]
  refine ⟨hnew.1, hnew.2, ?_, ?_⟩
  · dsimp only
    rw [dhcpStored_listener, ← hnew.2]
    exact haddr
  · dsimp only
    rw [dhcpStored_firewall, ← hnew.1, ← hnew.2]
    unfold FirewallStored at hfirewall
    split
    · rename_i hsame
      rw [if_neg] at hfirewall
      · exact hfirewall
      · intro hchanged
        exact hplanned.firewall.mp hchanged hsame
    · rename_i hdiffer
      rwa [if_pos (hplanned.firewall.mpr hdiffer)] at hfirewall

/-- From a state in order, a call that succeeds leaves the rules of its
configuration exactly when it meets the guard, and then the state is in order
again. -/
theorem rulesFollow_applied {s s' : Handle K} {c : Call} (hs : Redirecting s)
    (h : applied s c s') :
    (RulesFollow s' ↔ KeepsRules s c) ∧ (KeepsRules s c → Redirecting s') := by
  obtain ⟨hconfig, hlisten, haddr, hfirewall⟩ := applied_parts hs.bound h
  have hbound : s'.listener.addr = s'.config.listen := haddr.trans hlisten.symm
  have hfollow := hs.follow
  suffices hmain : (RulesFollow s' ↔ KeepsRules s c) ∧ (KeepsRules s c → s'.firewall.Owned) from
    ⟨hmain.1, fun hkeeps => ⟨hbound, hmain.2 hkeeps, hmain.1.mpr hkeeps⟩⟩
  unfold RulesFollow Firewall.IsOf KeepsRules
  rw [hconfig, haddr]
  by_cases hsame : s.config.firewall = c.2.firewall
  · rw [if_pos hsame] at hfirewall
    rw [hfirewall, hsame]
    refine ⟨?_, fun _ => hs.owned⟩
    unfold RulesFollow Firewall.IsOf at hfollow
    rw [hsame] at hfollow
    cases hsection : c.2.firewall with
    | none =>
        rw [hsection] at hfollow
        simpa using hfollow
    | some f =>
        rw [hsection] at hfollow
        cases henable : f.enable with
        | false =>
            simp only [henable, Bool.false_eq_true, if_false] at hfollow ⊢
            simp [hfollow, henable]
        | true =>
            simp only [henable, if_true] at hfollow ⊢
            obtain ⟨backend, hrules⟩ := hfollow
            simp [hrules, henable]
  · rw [if_neg hsame] at hfirewall
    rcases reapply_ok hs.owned hfirewall with
      ⟨hdisabled, hfw⟩ | ⟨f, backend, hsection, henable, hinstalls, hfw⟩
    · rw [hfw]
      refine ⟨?_, fun _ => Or.inl rfl⟩
      constructor
      · intro _ f hf hon
        rw [hdisabled f hf] at hon
        cases hon
      · intro _
        cases hsection : c.2.firewall with
        | none => rfl
        | some f =>
            dsimp only
            rw [hdisabled f hsection, if_neg (by simp)]
    · rw [hfw, hsection]
      rw [hsection] at hsame
      simp only [henable, if_true, Option.some.injEq, forall_eq']
      rw [if_neg hsame, hinstalls]
      constructor
      · by_cases hguard : s.firewall.guard = some backend
        · simp [hguard]
        · simp [hguard]
      · intro hother
        rw [if_neg (hother trivial)]
        exact Or.inr ⟨_, rfl, rfl⟩

theorem redirecting_start {env : Env} {baseDir : String} {config : Config} {file : Option Bytes}
    {s : Handle K} (h : start env baseDir config file = .ok s) : Redirecting s := by
  obtain ⟨router, fw, _, hfirewall, rfl⟩ := start_ok h
  have howned : ({} : Firewall).Owned := Or.inl rfl
  rcases reapply_ok howned hfirewall with
    ⟨hdisabled, rfl⟩ | ⟨f, backend, hsection, henable, _, rfl⟩
  · refine ⟨rfl, Or.inl rfl, ?_⟩
    unfold RulesFollow Firewall.IsOf
    dsimp only
    cases hsection : config.firewall with
    | none => rfl
    | some f =>
        dsimp only
        rw [hdisabled f hsection, if_neg (by simp)]
  · refine ⟨rfl, Or.inr ⟨_, rfl, rfl⟩, ?_⟩
    unfold RulesFollow Firewall.IsOf
    dsimp only
    rw [hsection]
    dsimp only
    rw [henable, if_pos rfl]
    exact ⟨backend, rfl⟩

/-- In a run of successful calls that all meet the guard the rules follow the
configuration in every state, and the next successful call breaks that exactly
when it does not meet it. -/
theorem rules_follow_of_keepsRules {env : Env} {baseDir : String} {config : Config}
    {file : Option Bytes} {s₀ s : Handle K} {calls : List Call}
    (hstart : start env baseDir config file = .ok s₀)
    (run : Steps (guarded applied KeepsRules) s₀ calls s) :
    RulesFollow s ∧ ∀ c s', applied s c s' → (RulesFollow s' ↔ KeepsRules s c) := by
  have hs : Redirecting s := by
    refine run.invariant (redirecting_start hstart) ?_
    intro t c u ht hstep
    exact (rulesFollow_applied ht hstep.1).2 hstep.2
  exact ⟨hs.follow, fun c s' happlied => (rulesFollow_applied hs happlied).1⟩

/-! ### Naming the backend -/

def redirectingConfig : Config := { smallConfig with firewall := some { enable := true } }

/-- The backend that is also found without its name. -/
def namedConfig : Config :=
  { smallConfig with firewall := some { enable := true, backend := "nftables" } }

def redirectingRuntime : Handle smallPlatform :=
  (start quietEnv "/" redirectingConfig none).toOption.get rfl

theorem redirectingRuntime_start :
    start quietEnv "/" redirectingConfig none = .ok redirectingRuntime := rfl

/-- Switching the firewall on in a runtime without rules. -/
theorem rules_follow_after_switching_on :
    ∃ s, Steps (guarded applied KeepsRules) smallRuntime [(quietEnv, redirectingConfig)] s ∧
      s.config.firewall = some { enable := true } ∧ RulesFollow s := by
  have hguard : KeepsRules smallRuntime (quietEnv, redirectingConfig) := by
    intro fw hfw henable
    cases hfw
    rw [if_neg]
    · intro hsame
      cases hsame
    · intro hsame
      cases hsame
  have run : Steps (guarded applied KeepsRules) smallRuntime [(quietEnv, redirectingConfig)] _ :=
    Steps.single ⟨⟨_, rfl⟩, hguard⟩
  exact ⟨_, run, rfl, (rules_follow_of_keepsRules smallRuntime_start run).1⟩

/-- A call that only names the backend in use succeeds and leaves no rules. -/
theorem no_rules_after_naming_backend :
    ¬ ∀ (K : Platform) (env : Env) (baseDir : String) (config : Config) (file : Option Bytes)
      (s₀ s : Handle K) (calls : List Call),
      start env baseDir config file = .ok s₀ → Steps applied s₀ calls s → RulesFollow s := by
  intro h
  have run : Steps applied redirectingRuntime [(quietEnv, namedConfig)] _ := Steps.single ⟨_, rfl⟩
  have hfollow := h smallPlatform quietEnv "/" redirectingConfig none redirectingRuntime _ _
    redirectingRuntime_start run
  obtain ⟨backend, hrules⟩ := hfollow
  cases hrules

end Relay.Runtime
