import Relay.Config.Types

/-!
`firewall/iptables.rs`: the commands that set the redirect up and clean it up,
over the nat table they work on. The table is its chains with their rules in
order. A command that fails leaves it as it is, and the program goes on.
-/

namespace Relay.Runtime.Iptables

/-- A rule: what it matches, the target it jumps to, and the target's options. -/
structure Rule where
  matches_ : List String
  jump : String
  options : List String := []
  deriving DecidableEq, Repr

abbrev NatTable := List (String × List Rule)

def hasChain (t : NatTable) (name : String) : Bool := t.any fun chain => chain.1 = name

def rulesOf (t : NatTable) (name : String) : List Rule :=
  ((t.find? fun chain => chain.1 = name).map Prod.snd).getD []

def onChain (t : NatTable) (name : String) (f : List Rule → List Rule) : NatTable :=
  t.map fun chain => if chain.1 = name then (chain.1, f chain.2) else chain

/-- Some rule jumps to the chain. -/
def refers (t : NatTable) (name : String) : Bool :=
  t.any fun chain => chain.2.any fun rule => rule.jump = name

/-- The target of a rule exists: of the built-in ones, those the program names. -/
def hasTarget (t : NatTable) (jump : String) : Bool :=
  jump = "RETURN" || jump = "REDIRECT" || hasChain t jump

inductive Command where
  /-- `-N` -/
  | new (chain : String)
  /-- `-A` -/
  | append (chain : String) (rule : Rule)
  /-- `-D` -/
  | delete (chain : String) (rule : Rule)
  /-- `-F` -/
  | flush (chain : String)
  /-- `-X` -/
  | deleteChain (chain : String)

/-- `iptables -t nat`: whether the command succeeds, and the table after it. -/
def ipt (t : NatTable) : Command → Bool × NatTable
  | .new chain => if hasChain t chain then (false, t) else (true, t ++ [(chain, [])])
  | .append chain rule =>
      if hasChain t chain && hasTarget t rule.jump then
        (true, onChain t chain fun rules => rules ++ [rule])
      else (false, t)
  | .delete chain rule =>
      if rule ∈ rulesOf t chain then (true, onChain t chain fun rules => rules.erase rule)
      else (false, t)
  | .flush chain =>
      if hasChain t chain then (true, onChain t chain fun _ => []) else (false, t)
  | .deleteChain chain =>
      if hasChain t chain && decide (rulesOf t chain = []) && !refers t chain then
        (true, t.filter fun c => c.1 ≠ chain)
      else (false, t)

/-- Commands one after another, whether they succeed or not. -/
def iptAll (commands : List Command) (t : NatTable) : NatTable :=
  commands.foldl (fun t command => (ipt t command).2) t

/-- `CHAIN_NAME`. -/
def chainName : String := "DNSROXY"

/-- `-j DNSROXY`. -/
def jumpRule : Rule := ⟨[], chainName, []⟩

/-- The own user is let through. -/
def ownerRule (uid : Nat) : Rule := ⟨["-m", "owner", "--uid-owner", toString uid], "RETURN", []⟩

def redirectRule (extra : List String) (proto : String) (port : UInt16) : Rule :=
  ⟨extra ++ ["-p", proto, "--dport", "53"], "REDIRECT", ["--to-ports", toString port]⟩

def cleanup (t : NatTable) : NatTable :=
  iptAll [.delete "OUTPUT" jumpRule, .delete "PREROUTING" jumpRule, .flush chainName,
    .deleteChain chainName] t

/-- The interface and the source a LAN rule is limited to. -/
def lanMatches (config : FirewallConfig) : List String :=
  (match config.lanInterface with
    | some iface => ["-i", iface]
    | none => []) ++
  (match config.lanCidr with
    | some cidr => ["-s", cidr]
    | none => [])

def setup (config : FirewallConfig) (port : UInt16) (uid : Nat) (t : NatTable) : NatTable :=
  let t := cleanup t
  let t := iptAll [.new chainName] t
  let t :=
    if config.localhostHijack then
      iptAll [.append chainName (ownerRule uid), .append chainName (redirectRule [] "udp" port),
        .append chainName (redirectRule [] "tcp" port), .append "OUTPUT" jumpRule] t
    else t
  if config.lanHijack then
    iptAll [.append "PREROUTING" (redirectRule (lanMatches config) "udp" port),
      .append "PREROUTING" (redirectRule (lanMatches config) "tcp" port)] t
  else t

/-! ### What a clean-up should undo -/

/-- A table with the built-in chains and nothing of the program in it. -/
structure Clean (t : NatTable) : Prop where
  output : hasChain t "OUTPUT" = true
  prerouting : hasChain t "PREROUTING" = true
  chain : hasChain t chainName = false
  references : refers t chainName = false

inductive Op where
  | setup (config : FirewallConfig) (port : UInt16) (uid : Nat)
  | cleanup

def apply (t : NatTable) : Op → NatTable
  | .setup config port uid => setup config port uid t
  | .cleanup => cleanup t

def applyAll (ops : List Op) (t : NatTable) : NatTable := ops.foldl apply t

/-- The rules of the private chain. -/
def localRules (config : FirewallConfig) (port : UInt16) (uid : Nat) : List Rule :=
  if config.localhostHijack then
    [ownerRule uid, redirectRule [] "udp" port, redirectRule [] "tcp" port]
  else []

def lanRules (config : FirewallConfig) (port : UInt16) : List Rule :=
  if config.lanHijack then
    [redirectRule (lanMatches config) "udp" port, redirectRule (lanMatches config) "tcp" port]
  else []

def outputRules (config : FirewallConfig) : List Rule :=
  if config.localhostHijack then [jumpRule] else []

/-- The rules a setup is for, each with its chain. -/
def relayRules (config : FirewallConfig) (port : UInt16) (uid : Nat) : List (String × Rule) :=
  (localRules config port uid).map (fun rule => (chainName, rule)) ++
    (outputRules config).map (fun rule => ("OUTPUT", rule)) ++
    (lanRules config port).map (fun rule => ("PREROUTING", rule))

/-- A clean-up after these calls gives the table back, and each setup among
them has its rules in place once. -/
structure Undone (initial : NatTable) (ops : List Op) : Prop where
  restored : cleanup (applyAll ops initial) = initial
  installed : ∀ before config port uid after, ops = before ++ .setup config port uid :: after →
    ∀ entry ∈ relayRules config port uid,
      (rulesOf (applyAll (before ++ [.setup config port uid]) initial) entry.1).count entry.2 = 1

/-! ### Chains -/

theorem onChain_eq_self {t : NatTable} {name : String} {f : List Rule → List Rule}
    (h : ∀ chain ∈ t, chain.1 = name → f chain.2 = chain.2) : onChain t name f = t := by
  have hsame : ∀ chain ∈ t, (if chain.1 = name then (chain.1, f chain.2) else chain) = chain := by
    intro chain hchain
    split
    · rename_i hname
      rw [h chain hchain hname]
    · rfl
  exact (List.map_congr_left hsame).trans (List.map_id' t)

theorem onChain_append_nil (t : NatTable) (name : String) :
    (onChain t name fun old => old ++ []) = t :=
  onChain_eq_self (fun chain _ _ => List.append_nil chain.2)

theorem hasChain_eq_false {t : NatTable} {name : String} :
    hasChain t name = false ↔ ∀ chain ∈ t, chain.1 ≠ name := by
  simp [hasChain]

@[simp] theorem hasChain_append (t s : NatTable) (name : String) :
    hasChain (t ++ s) name = (hasChain t name || hasChain s name) := List.any_append

@[simp] theorem hasChain_onChain (t : NatTable) (name other : String) (f : List Rule → List Rule) :
    hasChain (onChain t name f) other = hasChain t other := by
  have hname : ∀ chain : String × List Rule,
      (if chain.1 = name then (chain.1, f chain.2) else chain).1 = chain.1 := by
    intro chain
    split <;> rfl
  simp [hasChain, onChain, List.any_map, Function.comp_def, hname]

theorem onChain_append (t s : NatTable) (name : String) (f : List Rule → List Rule) :
    onChain (t ++ s) name f = onChain t name f ++ onChain s name f := List.map_append

/-- A chain of its own at the end of a table that has none of its name. -/
theorem onChain_last {t : NatTable} {name : String} (h : hasChain t name = false)
    (rules : List Rule) (f : List Rule → List Rule) :
    onChain (t ++ [(name, rules)]) name f = t ++ [(name, f rules)] := by
  rw [onChain_append, onChain_eq_self]
  · simp [onChain]
  · intro chain hchain hname
    exact absurd hname (hasChain_eq_false.mp h chain hchain)

theorem onChain_before {t : NatTable} {name other : String} (h : other ≠ name)
    (rules : List Rule) (f : List Rule → List Rule) :
    onChain (t ++ [(other, rules)]) name f = onChain t name f ++ [(other, rules)] := by
  rw [onChain_append]
  simp [onChain, h]

theorem onChain_onChain (t : NatTable) (name : String) (f g : List Rule → List Rule) :
    onChain (onChain t name f) name g = onChain t name fun rules => g (f rules) := by
  rw [onChain, onChain, List.map_map]
  apply List.map_congr_left
  intro chain _
  by_cases hname : chain.1 = name <;> simp [hname]

theorem onChain_comm {name other : String} (h : other ≠ name) (t : NatTable)
    (f g : List Rule → List Rule) :
    onChain (onChain t name f) other g = onChain (onChain t other g) name f := by
  simp only [onChain, List.map_map]
  apply List.map_congr_left
  intro chain _
  by_cases hname : chain.1 = name
  · simp [hname, h.symm]
  · by_cases hother : chain.1 = other <;> simp [hname, hother, h]

theorem rulesOf_of_mem {t : NatTable} {name : String} {rule : Rule} (h : rule ∈ rulesOf t name) :
    ∃ chain ∈ t, rule ∈ chain.2 := by
  unfold rulesOf at h
  cases hfind : t.find? fun chain => chain.1 = name with
  | none =>
      rw [hfind] at h
      cases h
  | some chain =>
      rw [hfind] at h
      exact ⟨chain, List.mem_of_find?_eq_some hfind, h⟩

theorem rulesOf_last {t : NatTable} {name : String} (h : hasChain t name = false)
    (rules : List Rule) : rulesOf (t ++ [(name, rules)]) name = rules := by
  have hnone : t.find? (fun chain => chain.1 = name) = none := by
    rw [List.find?_eq_none]
    intro chain hchain
    simpa using hasChain_eq_false.mp h chain hchain
  simp [rulesOf, hnone]

theorem rulesOf_onChain {t : NatTable} {name : String} (h : hasChain t name = true)
    (f : List Rule → List Rule) : rulesOf (onChain t name f) name = f (rulesOf t name) := by
  induction t with
  | nil => cases h
  | cons chain t ih =>
      by_cases hname : chain.1 = name
      · simp [rulesOf, onChain, hname]
      · have hrest : hasChain t name = true := by simpa [hasChain, hname] using h
        have hih := ih hrest
        simp only [rulesOf, onChain] at hih ⊢
        simpa [hname] using hih

theorem rulesOf_front {t : NatTable} {name other : String} (h : other ≠ name) (rules : List Rule) :
    rulesOf (t ++ [(other, rules)]) name = rulesOf t name := by
  simp [rulesOf, List.find?_append, h]

theorem refers_eq_false {t : NatTable} {name : String} :
    refers t name = false ↔ ∀ chain ∈ t, ∀ rule ∈ chain.2, rule.jump ≠ name := by
  simp [refers]

theorem refers_onChain_append {t : NatTable} {name other : String} {rules : List Rule}
    (h : refers t name = false) (hrules : ∀ rule ∈ rules, rule.jump ≠ name) :
    refers (onChain t other fun old => old ++ rules) name = false := by
  rw [refers_eq_false] at h ⊢
  intro chain hchain rule hrule
  obtain ⟨before, hbefore, rfl⟩ := List.mem_map.mp hchain
  split at hrule
  · rcases List.mem_append.mp hrule with hold | hnew
    · exact h before hbefore rule hold
    · exact hrules rule hnew
  · exact h before hbefore rule hrule

/-! ### Commands -/

/-- Rules are added to a chain that exists, in their order. -/
theorem iptAll_appends (chain : String) (rules : List Rule) {t : NatTable}
    (hchain : hasChain t chain = true) (htargets : ∀ rule ∈ rules, hasTarget t rule.jump = true) :
    iptAll (rules.map (.append chain)) t = onChain t chain fun old => old ++ rules := by
  induction rules generalizing t with
  | nil => exact (onChain_append_nil t chain).symm
  | cons rule rules ih =>
      have hone : (ipt t (.append chain rule)).2 = onChain t chain fun old => old ++ [rule] := by
        simp [ipt, hchain, htargets rule List.mem_cons_self]
      have hkept : ∀ jump, hasTarget (onChain t chain fun old => old ++ [rule]) jump =
          hasTarget t jump := by
        intro jump
        simp [hasTarget]
      rw [List.map_cons, iptAll, List.foldl_cons, hone]
      change iptAll (rules.map (.append chain)) _ = _
      rw [ih (by simpa using hchain), onChain_onChain]
      · simp
      · intro r hr
        rw [hkept]
        exact htargets r (List.mem_cons_of_mem rule hr)

theorem ipt_delete_absent {t : NatTable} (h : refers t chainName = false) (chain : String) :
    (ipt t (.delete chain jumpRule)).2 = t := by
  have habsent : jumpRule ∉ rulesOf t chain := by
    intro hmem
    obtain ⟨c, hc, hrule⟩ := rulesOf_of_mem hmem
    exact refers_eq_false.mp h c hc jumpRule hrule rfl
  simp [ipt, habsent]

/-! ### Setup and clean-up -/

theorem localRules_jump {config : FirewallConfig} {port : UInt16} {uid : Nat} {rule : Rule}
    (h : rule ∈ localRules config port uid) : rule.jump = "RETURN" ∨ rule.jump = "REDIRECT" := by
  unfold localRules at h
  split at h
  · simp only [List.mem_cons, List.not_mem_nil, or_false] at h
    rcases h with rfl | rfl | rfl
    · exact Or.inl rfl
    · exact Or.inr rfl
    · exact Or.inr rfl
  · cases h

theorem lanRules_jump {config : FirewallConfig} {port : UInt16} {rule : Rule}
    (h : rule ∈ lanRules config port) : rule.jump = "REDIRECT" := by
  unfold lanRules at h
  split at h
  · rcases List.mem_pair.mp h with rfl | rfl <;> rfl
  · cases h

/-- The private chain, and the jump to it. -/
def withLocal (config : FirewallConfig) (port : UInt16) (uid : Nat) (t : NatTable) : NatTable :=
  (onChain t "OUTPUT" fun old => old ++ outputRules config) ++
    [(chainName, localRules config port uid)]

def withLan (rules : List Rule) (t : NatTable) : NatTable :=
  onChain t "PREROUTING" fun old => old ++ rules

theorem Clean.withLan {t : NatTable} (h : Clean t) {rules : List Rule}
    (hrules : ∀ rule ∈ rules, rule.jump = "REDIRECT") : Clean (withLan rules t) where
  output := by simpa [Iptables.withLan] using h.output
  prerouting := by simpa [Iptables.withLan] using h.prerouting
  chain := by simpa [Iptables.withLan] using h.chain
  references := by
    apply refers_onChain_append h.references
    intro rule hrule
    rw [hrules rule hrule]
    decide

theorem cleanup_of_clean {t : NatTable} (h : Clean t) : cleanup t = t := by
  have hflush : (ipt t (.flush chainName)).2 = t := by simp [ipt, h.chain]
  have hdelete : (ipt t (.deleteChain chainName)).2 = t := by simp [ipt, h.chain]
  simp only [cleanup, iptAll, List.foldl_cons, List.foldl_nil, ipt_delete_absent h.references,
    hflush, hdelete]

theorem not_mem_of_refers {t : NatTable} (h : refers t chainName = false)
    {chain : String × List Rule} (hchain : chain ∈ t) : jumpRule ∉ chain.2 :=
  fun hrule => refers_eq_false.mp h chain hchain jumpRule hrule rfl

theorem refers_last {t : NatTable} {name : String} (h : refers t name = false) {rules : List Rule}
    (hrules : ∀ rule ∈ rules, rule.jump ≠ name) : refers (t ++ [(name, rules)]) name = false := by
  rw [refers_eq_false] at h ⊢
  intro chain hchain rule hrule
  rcases List.mem_append.mp hchain with hold | hnew
  · exact h chain hold rule hrule
  · rw [List.mem_singleton.mp hnew] at hrule
    exact hrules rule hrule

/-- Taking the jump out of OUTPUT. -/
theorem delete_jump {t : NatTable} (h : Clean t) {rules : List Rule}
    (hrules : ∀ rule ∈ rules, rule.jump ≠ chainName) (config : FirewallConfig) :
    (ipt ((onChain t "OUTPUT" fun old => old ++ outputRules config) ++ [(chainName, rules)])
      (.delete "OUTPUT" jumpRule)).2 = t ++ [(chainName, rules)] := by
  unfold outputRules
  cases config.localhostHijack with
  | false =>
      simp only [Bool.false_eq_true, if_false, onChain_append_nil]
      exact ipt_delete_absent (refers_last h.references hrules) "OUTPUT"
  | true =>
      have hne : chainName ≠ "OUTPUT" := by decide
      have hmem : jumpRule ∈ rulesOf ((onChain t "OUTPUT" fun old => old ++ [jumpRule]) ++
          [(chainName, rules)]) "OUTPUT" := by
        rw [rulesOf_front hne, rulesOf_onChain h.output]
        exact List.mem_append_right _ List.mem_cons_self
      simp only [if_true, ipt, if_pos hmem, onChain_before hne, onChain_onChain]
      rw [onChain_eq_self]
      intro chain hchain _
      rw [List.erase_append_right _ (not_mem_of_refers h.references hchain)]
      simp

/-- A clean-up removes the private chain and the jump to it. -/
theorem cleanup_withLocal {t : NatTable} (h : Clean t) (config : FirewallConfig) (port : UInt16)
    (uid : Nat) : cleanup (withLocal config port uid t) = t := by
  obtain ⟨rules, hrules⟩ : ∃ rules, rules = localRules config port uid := ⟨_, rfl⟩
  have hjumps : ∀ rule ∈ rules, rule.jump ≠ chainName := by
    intro rule hrule
    rcases localRules_jump (hrules ▸ hrule) with heq | heq <;> rw [heq] <;> decide
  have hjump := delete_jump h hjumps config
  have hprerouting := ipt_delete_absent (refers_last h.references hjumps) "PREROUTING"
  have hflush : (ipt (t ++ [(chainName, rules)]) (.flush chainName)).2 = t ++ [(chainName, [])] := by
    simp [ipt, hasChain, onChain_last h.chain]
  have hdelete : (ipt (t ++ [(chainName, [])]) (.deleteChain chainName)).2 = t := by
    have hunreferred : refers (t ++ [(chainName, [])]) chainName = false :=
      refers_last h.references (fun rule hrule => by cases hrule)
    have hothers : t.filter (fun c => c.1 ≠ chainName) = t := by
      rw [List.filter_eq_self]
      intro chain hchain
      simpa using hasChain_eq_false.mp h.chain chain hchain
    have hthere : hasChain (t ++ [(chainName, [])]) chainName = true := by simp [hasChain]
    simp only [ipt, hthere, rulesOf_last h.chain, hunreferred, decide_true, Bool.not_false,
      Bool.and_self, if_true, List.filter_append, hothers]
    simp
  rw [withLocal, ← hrules]
  simp only [cleanup, iptAll, List.foldl_cons, List.foldl_nil, hjump, hprerouting, hflush, hdelete]

/-- The commands for the own host, over the new private chain. -/
theorem localhost_commands {t : NatTable} (h : Clean t) (config : FirewallConfig) (port : UInt16)
    (uid : Nat) :
    (if config.localhostHijack then
      iptAll [.append chainName (ownerRule uid), .append chainName (redirectRule [] "udp" port),
        .append chainName (redirectRule [] "tcp" port), .append "OUTPUT" jumpRule]
        (t ++ [(chainName, [])])
    else t ++ [(chainName, [])]) = withLocal config port uid t := by
  unfold withLocal localRules outputRules
  cases config.localhostHijack with
  | false => simp only [Bool.false_eq_true, if_false, onChain_append_nil]
  | true =>
      have hne : chainName ≠ "OUTPUT" := by decide
      have hfill := iptAll_appends (t := t ++ [(chainName, [])]) chainName
        [ownerRule uid, redirectRule [] "udp" port, redirectRule [] "tcp" port]
        (by simp [hasChain]) (by simp [hasTarget, ownerRule, redirectRule])
      have hhook := iptAll_appends "OUTPUT" [jumpRule]
        (t := t ++ [(chainName, [ownerRule uid, redirectRule [] "udp" port,
          redirectRule [] "tcp" port])])
        (by simp [h.output]) (by simp [hasTarget, hasChain, jumpRule])
      rw [onChain_last h.chain] at hfill
      rw [onChain_before hne] at hhook
      simp only [if_true]
      rw [← hhook]
      exact congrArg (iptAll [.append "OUTPUT" jumpRule]) hfill

/-- The commands for the LAN, over the private chain. -/
theorem lan_commands {t : NatTable} (h : Clean t) (config : FirewallConfig) (port : UInt16)
    (uid : Nat) :
    (if config.lanHijack then
      iptAll [.append "PREROUTING" (redirectRule (lanMatches config) "udp" port),
        .append "PREROUTING" (redirectRule (lanMatches config) "tcp" port)]
        (withLocal config port uid t)
    else withLocal config port uid t) =
      withLocal config port uid (withLan (lanRules config port) t) := by
  unfold withLan lanRules
  cases config.lanHijack with
  | false => simp only [Bool.false_eq_true, if_false, onChain_append_nil]
  | true =>
      have hne : chainName ≠ "PREROUTING" := by decide
      have hother : "PREROUTING" ≠ "OUTPUT" := by decide
      have hrules := iptAll_appends "PREROUTING"
        [redirectRule (lanMatches config) "udp" port, redirectRule (lanMatches config) "tcp" port]
        (t := withLocal config port uid t)
        (by simp [withLocal, h.prerouting]) (by simp [hasTarget, redirectRule])
      simp only [if_true]
      refine hrules.trans ?_
      rw [withLocal, withLocal, onChain_before hne, onChain_comm hother]

/-- A setup over a table that a clean-up leaves clean. -/
theorem setup_eq {t : NatTable} (h : Clean (cleanup t)) (config : FirewallConfig) (port : UInt16)
    (uid : Nat) : setup config port uid t =
      withLocal config port uid (withLan (lanRules config port) (cleanup t)) := by
  have hnew : iptAll [.new chainName] (cleanup t) = cleanup t ++ [(chainName, [])] := by
    simp [iptAll, ipt, h.chain]
  unfold setup
  dsimp only
  rw [hnew, localhost_commands h, lan_commands h]

/-! ### Runs of setups and clean-ups -/

/-- The LAN rules a call leaves behind. -/
def lanOf : Op → List Rule
  | .setup config port _ => lanRules config port
  | .cleanup => []

theorem lanOf_jump {op : Op} {rule : Rule} (h : rule ∈ lanOf op) : rule.jump = "REDIRECT" := by
  cases op with
  | setup config port uid => exact lanRules_jump h
  | cleanup => cases h

theorem withLan_nil (t : NatTable) : withLan [] t = t := onChain_append_nil t "PREROUTING"

theorem withLan_withLan (rules more : List Rule) (t : NatTable) :
    withLan more (withLan rules t) = withLan (rules ++ more) t := by
  simp [withLan, onChain_onChain]

/-- One call adds its LAN rules to what a clean-up leaves. -/
theorem cleanup_apply {t : NatTable} (h : Clean (cleanup t)) (op : Op) :
    cleanup (apply t op) = withLan (lanOf op) (cleanup t) := by
  cases op with
  | setup config port uid =>
      have hlan : Clean (withLan (lanRules config port) (cleanup t)) :=
        h.withLan (fun _ hrule => lanRules_jump hrule)
      rw [apply, setup_eq h]
      exact cleanup_withLocal hlan config port uid
  | cleanup =>
      rw [apply, cleanup_of_clean h, lanOf, withLan_nil]

/-- A run adds those of all its calls. -/
theorem cleanup_applyAll {t : NatTable} (h : Clean (cleanup t)) (ops : List Op) :
    Clean (cleanup (applyAll ops t)) ∧
      cleanup (applyAll ops t) = withLan (ops.flatMap lanOf) (cleanup t) := by
  induction ops generalizing t with
  | nil => exact ⟨h, (withLan_nil (cleanup t)).symm⟩
  | cons op ops ih =>
      have hstep := cleanup_apply h op
      have hclean : Clean (cleanup (apply t op)) := by
        rw [hstep]
        exact h.withLan (fun _ hrule => lanOf_jump hrule)
      obtain ⟨hafter, hrun⟩ := ih hclean
      refine ⟨hafter, ?_⟩
      rw [hstep, withLan_withLan] at hrun
      exact hrun

/-- The rules added to PREROUTING show. -/
theorem withLan_eq_self_iff {t : NatTable} (h : Clean t) (rules : List Rule) :
    withLan rules t = t ↔ rules = [] := by
  constructor
  · intro hsame
    have hrules := rulesOf_onChain h.prerouting fun old => old ++ rules
    rw [← withLan, hsame] at hrules
    exact List.self_eq_append_right.mp hrules
  · rintro rfl
    exact withLan_nil t

theorem lanRules_eq_nil_iff (config : FirewallConfig) (port : UInt16) :
    lanRules config port = [] ↔ config.lanHijack = false := by
  cases h : config.lanHijack <;> simp [lanRules, h]

theorem lanOf_eq_nil_iff (ops : List Op) :
    ops.flatMap lanOf = [] ↔
      ∀ config port uid, Op.setup config port uid ∈ ops → config.lanHijack = false := by
  rw [List.flatMap_eq_nil_iff]
  constructor
  · intro hall config port uid hmem
    exact (lanRules_eq_nil_iff config port).mp (hall _ hmem)
  · intro hall op hmem
    cases op with
    | setup config port uid => exact (lanRules_eq_nil_iff config port).mpr (hall _ _ _ hmem)
    | cleanup => rfl

theorem nodup_localRules (config : FirewallConfig) (port : UInt16) (uid : Nat) :
    (localRules config port uid).Nodup := by
  unfold localRules
  split
  · simp [ownerRule, redirectRule]
  · exact List.nodup_nil

/-- What a setup without LAN rules is for is there once. -/
theorem count_withLocal {t : NatTable} (h : Clean t) {config : FirewallConfig} {port : UInt16}
    {uid : Nat} (hlan : config.lanHijack = false) {entry : String × Rule}
    (hentry : entry ∈ relayRules config port uid) :
    (rulesOf (withLocal config port uid t) entry.1).count entry.2 = 1 := by
  rw [relayRules, (lanRules_eq_nil_iff config port).mpr hlan, List.map_nil, List.append_nil] at hentry
  rcases List.mem_append.mp hentry with hlocal | hhook
  · obtain ⟨rule, hrule, rfl⟩ := List.mem_map.mp hlocal
    have hlast : rulesOf (withLocal config port uid t) chainName = localRules config port uid :=
      rulesOf_last (by simpa using h.chain) _
    dsimp only
    rw [hlast]
    exact List.count_eq_one_of_mem (nodup_localRules config port uid) hrule
  · obtain ⟨rule, hrule, rfl⟩ := List.mem_map.mp hhook
    have hne : chainName ≠ "OUTPUT" := by decide
    have houtput : rulesOf (withLocal config port uid t) "OUTPUT" =
        rulesOf t "OUTPUT" ++ outputRules config := by
      rw [withLocal, rulesOf_front hne, rulesOf_onChain h.output]
    have hold : jumpRule ∉ rulesOf t "OUTPUT" := by
      intro hmem
      obtain ⟨chain, hchain, hjump⟩ := rulesOf_of_mem hmem
      exact not_mem_of_refers h.references hchain hjump
    dsimp only
    rw [houtput]
    unfold outputRules at hrule ⊢
    cases hflag : config.localhostHijack with
    | false => simp [hflag] at hrule
    | true =>
        obtain rfl : rule = jumpRule := by simpa [hflag] using hrule
        simp [List.count_eq_zero_of_not_mem hold]

/-- The clean-up undoes the setups exactly when none of them has LAN rules. -/
theorem cleanup_undoes_iff {initial : NatTable} (h : Clean initial) (ops : List Op) :
    Undone initial ops ↔
      ∀ config port uid, Op.setup config port uid ∈ ops → config.lanHijack = false := by
  have hself := cleanup_of_clean h
  have hstart : Clean (cleanup initial) := hself.symm ▸ h
  constructor
  · intro hundone
    have hrun := (cleanup_applyAll hstart ops).2
    rw [hundone.restored, hself] at hrun
    exact (lanOf_eq_nil_iff ops).mp ((withLan_eq_self_iff h _).mp hrun.symm)
  · intro hnone
    refine ⟨?_, ?_⟩
    · rw [(cleanup_applyAll hstart ops).2, hself, (lanOf_eq_nil_iff ops).mpr hnone, withLan_nil]
    · intro before config port uid after hops entry hentry
      have hlan : config.lanHijack = false := hnone config port uid (by simp [hops])
      have hclean := (cleanup_applyAll hstart before).1
      have hrun : applyAll (before ++ [.setup config port uid]) initial =
          withLocal config port uid (cleanup (applyAll before initial)) := by
        rw [applyAll, List.foldl_append]
        change setup config port uid (applyAll before initial) = _
        rw [setup_eq hclean, (lanRules_eq_nil_iff config port).mpr hlan, withLan_nil]
      rw [hrun]
      exact count_withLocal hclean hlan hentry

/-- The nat table of a host on which nothing has been set up. -/
def builtInTable : NatTable :=
  [("PREROUTING", []), ("INPUT", []), ("OUTPUT", []), ("POSTROUTING", [])]

theorem builtInTable_clean : Clean builtInTable :=
  ⟨by decide, by decide, by decide, by decide⟩

/-- Two setups of the localhost redirect, the first not cleaned up by itself. -/
theorem localhost_setups_undone :
    Undone builtInTable [.setup { localhostHijack := true } 5353 1000, .cleanup,
      .setup { localhostHijack := true } 5354 1000] := by
  apply (cleanup_undoes_iff builtInTable_clean _).mpr
  intro config port uid hmem
  simp only [List.mem_cons, Op.setup.injEq, List.not_mem_nil, or_false, reduceCtorEq,
    false_or] at hmem
  rcases hmem with ⟨rfl, -, -⟩ | ⟨rfl, -, -⟩ <;> rfl

/-- The LAN rules of one setup are still there after the clean-up. -/
theorem lan_rules_left :
    ¬ ∀ initial, Clean initial → ∀ ops, Undone initial ops := by
  intro hall
  have hrestored := (hall builtInTable builtInTable_clean
    [.setup { lanHijack := true } 5353 1000]).restored
  revert hrestored
  decide

end Relay.Runtime.Iptables
