import Relay.Logic.Interleave
import Relay.Web.Auth

/-!
Concurrent requests that write settings. Neither `apply` nor the password
change takes a lock around its load and its stores, so another request may run
between any two phases of theirs.
-/

namespace Relay.Web

open Binary Logic Relay.Runtime

variable {K : Platform}

/-- A phase of `apply` on the panel's runtime. -/
def onRuntime (phase : ApplyPhase K) : Phase (Fault ApplyError) (Locals K) (Panel K) :=
  fun l p => ((phase l p.runtime).1, { p with runtime := (phase l p.runtime).2 })

/-- The phases of `apply`, each with what it takes for it to store something. -/
def applyActions (env : Env) : List (Action (Fault ApplyError) (Locals K) (Panel K)) :=
  [⟨onRuntime storeHosts, fun l => l.domainChanged⟩,
    ⟨onRuntime (buildRouter env), fun _ => false⟩,
    ⟨onRuntime storeRouter, fun l => l.built.isSome⟩,
    ⟨onRuntime loadRouter, fun _ => false⟩,
    ⟨onRuntime (rebindListener env), fun l => l.loadedRouter.isSome⟩,
    ⟨onRuntime (reapplyFirewall env), fun l => l.firewallChanged⟩,
    ⟨onRuntime loadHosts, fun _ => false⟩,
    ⟨onRuntime restartDhcp, fun l => l.loadedHosts.isSome⟩,
    ⟨onRuntime (openFile env), fun _ => true⟩,
    ⟨onRuntime (writeText env), fun _ => true⟩,
    ⟨onRuntime storeConfig, fun _ => true⟩]

def applyOperation (env : Env) (submitted : Config) : Operation (Panel K) where
  Fault := Fault ApplyError
  Local := Locals K
  load := fun p =>
    match plan K p.runtime.config submitted with
    | .error e => fail (.validation e)
    | .ok l => .ok l
  actions := applyActions env

/-- Every phase of a password change stores something. -/
def passwordOperation (B : BcryptCrate) (c : PasswordCall) : Operation (Panel K) where
  Fault := PasswordError
  Local := Config
  load := fun p => planPassword B p.runtime.config c
  actions := (passwordPhases c.env).map fun phase => ⟨phase, fun _ => true⟩

def Request.operation (B : BcryptCrate) : Request → Operation (Panel K)
  | .putConfig env submitted => applyOperation env submitted
  | .changePassword c => passwordOperation B c

/-- The request reports success. -/
def Request.Succeeds (B : BcryptCrate) (r : Request) (p p' : Panel K) : Prop :=
  match r with
  | .putConfig env submitted =>
      ∃ report s', apply env submitted p.runtime = (.ok report, s') ∧ p' = { p with runtime := s' }
  | .changePassword c => Web.changePassword B c p = (.ok (), p')

private theorem applyActions_quiet (env : Env) (l : Locals K) (p : Panel K) :
    ∀ action ∈ applyActions env, action.stores l = false → (action.phase l p).2 = p := by
  intro action haction hstores
  simp only [applyActions, List.mem_cons, List.not_mem_nil, or_false] at haction
  have hquiet : ∀ {phase : ApplyPhase K}, (phase l p.runtime).2 = p.runtime →
      (onRuntime phase l p).2 = p := by
    intro phase h
    unfold onRuntime
    rw [h]
  rcases haction with rfl | rfl | rfl | rfl | rfl | rfl | rfl | rfl | rfl | rfl | rfl
  · apply hquiet
    unfold storeHosts
    rw [if_neg (by simpa using hstores)]
  · apply hquiet
    unfold buildRouter
    split
    · split <;> rfl
    · rfl
  · apply hquiet
    unfold storeRouter
    rw [Option.isSome_eq_false_iff.mp hstores |> Option.isNone_iff_eq_none.mp]
  · apply hquiet
    unfold loadRouter
    split <;> rfl
  · apply hquiet
    unfold rebindListener
    rw [Option.isSome_eq_false_iff.mp hstores |> Option.isNone_iff_eq_none.mp]
  · apply hquiet
    unfold reapplyFirewall
    rw [if_neg (by simpa using hstores)]
  · apply hquiet
    unfold loadHosts
    split <;> rfl
  · apply hquiet
    unfold restartDhcp
    rw [Option.isSome_eq_false_iff.mp hstores |> Option.isNone_iff_eq_none.mp]
  · cases hstores
  · cases hstores
  · cases hstores

theorem applyOperation_lawful (env : Env) (submitted : Config) :
    (applyOperation env submitted : Operation (Panel K)).Lawful := by
  refine ⟨?_, ⟨onRuntime storeConfig, fun _ => true⟩, rfl, fun _ => rfl⟩
  intro action haction l p hstores
  exact applyActions_quiet env l p action haction hstores

theorem passwordOperation_lawful (B : BcryptCrate) (c : PasswordCall) :
    (passwordOperation B c : Operation (Panel K)).Lawful := by
  refine ⟨?_, ⟨storePasswordConfig, fun _ => true⟩, rfl, fun _ => rfl⟩
  intro action haction l p hstores
  obtain ⟨phase, _, rfl⟩ := List.mem_map.mp haction
  cases hstores

theorem Request.operation_lawful (B : BcryptCrate) (r : Request) :
    (r.operation B : Operation (Panel K)).Lawful := by
  cases r with
  | putConfig env submitted => exact applyOperation_lawful env submitted
  | changePassword c => exact passwordOperation_lawful B c

theorem execute_onRuntime (phases : List (ApplyPhase K)) (l : Locals K) (p : Panel K) :
    execute (phases.map onRuntime) l p =
      ((execute phases l p.runtime).1, { p with runtime := (execute phases l p.runtime).2 }) := by
  induction phases generalizing l p with
  | nil => rfl
  | cons phase rest ih =>
      rw [List.map_cons]
      unfold execute onRuntime
      rcases hphase : phase l p.runtime with ⟨e | l', s⟩
      · rfl
      · exact ih l' { p with runtime := s }

theorem applyOperation_succeeds {env : Env} {submitted : Config} {p p' : Panel K}
    (h : (applyOperation env submitted).Succeeds p p') :
    ∃ report s', apply env submitted p.runtime = (.ok report, s') ∧
      p' = { p with runtime := s' } := by
  obtain ⟨(l : Locals K), (l' : Locals K), hload, hexec⟩ := Operation.succeeds_iff.mp h
  have hrun : execute ((phases env).map onRuntime) l p = (.ok l', p') := hexec
  rw [execute_onRuntime, Prod.mk.injEq] at hrun
  obtain ⟨hok, rfl⟩ := hrun
  refine ⟨l'.report, _, ?_, rfl⟩
  cases hplan : plan K p.runtime.config submitted with
  | error e =>
      simp only [applyOperation, hplan] at hload
      cases hload
  | ok l₀ =>
      simp only [applyOperation, hplan] at hload
      cases hload
      unfold apply
      rw [hplan]
      dsimp only
      rcases hresult : execute (phases env) l p.runtime with ⟨e | l₁, s⟩
      · rw [hresult] at hok
        cases hok
      · rw [hresult] at hok
        cases hok
        rfl

theorem passwordOperation_succeeds {B : BcryptCrate} {c : PasswordCall} {p p' : Panel K}
    (h : (passwordOperation B c).Succeeds p p') : changePassword B c p = (.ok (), p') := by
  obtain ⟨(new : Config), (new' : Config), hload, hexec⟩ := Operation.succeeds_iff.mp h
  have hplan : planPassword B p.runtime.config c = .ok new := hload
  have hrun : execute (passwordPhases c.env) new p = (.ok new', p') := hexec
  unfold changePassword
  rw [hplan]
  dsimp only
  rw [hrun]

/-- The operations are the requests, phase by phase. -/
theorem Request.succeeds_of_operation {B : BcryptCrate} {r : Request} {p p' : Panel K}
    (h : (r.operation B).Succeeds p p') : r.Succeeds B p p' := by
  cases r with
  | putConfig env submitted => exact applyOperation_succeeds h
  | changePassword c => exact passwordOperation_succeeds h

/-- What later requests, a restart and a login see of a panel. -/
structure Observed where
  config : Config
  file : Option Bytes
  addr : Dns.SocketAddr
  login : WebAuthConfig

def Panel.observed (p : Panel K) : Observed where
  config := p.runtime.config
  file := p.runtime.file
  addr := p.runtime.listener.addr
  login := p.auth

/-- The requests in some order, one after another and each with success. -/
def OneByOne (B : BcryptCrate) {ι : Type} (requests : ι → Request) (p p' : Panel K) : Prop :=
  ∃ order : List ι, order.Nodup ∧ (∀ i, i ∈ order) ∧
    Steps (fun p i p' => (requests i).Succeeds B p p') p order p'

/-- When each request makes its first store alone and has read nothing that
has changed since, the requests come to what they come to one by one. -/
theorem concurrent_requests_serialize (B : BcryptCrate) {ι : Type} [DecidableEq ι]
    (requests : ι → Request) {p : Panel K} {events : List ι}
    {w : World fun i => (requests i).operation B}
    (run : Steps (guarded Interleaved StoresAlone) (World.begin _ p) events w)
    (hfinished : ∀ i, w.Finished i) :
    ∃ p', OneByOne B requests p p' ∧ w.shared.observed = p'.observed := by
  obtain ⟨order, hnodup, hall, hserial⟩ :=
    serializable (fun i => (requests i).operation_lawful B) run hfinished
  refine ⟨w.shared, ⟨order, hnodup, hall, ?_⟩, rfl⟩
  exact hserial.mono fun _ _ _ h => Request.succeeds_of_operation h

/-! ### A password change during `apply` -/

theorem apply_keeps_password {env : Env} {submitted : Config} {s s' : Handle K}
    {report : ApplyReport} (h : apply env submitted s = (.ok report, s')) :
    s'.config.web.auth.passwordHash = s.config.web.auth.passwordHash := by
  rw [(apply_config h).2]
  rfl

theorem changePassword_sets_password {B : BcryptCrate} {c : PasswordCall} {p p' : Panel K}
    (h : changePassword B c p = (.ok (), p')) :
    B.hash c.newPassword c.salt = .ok p'.runtime.config.web.auth.passwordHash := by
  rcases changePassword_cases B c p with
    ⟨e, _, hresult⟩ | ⟨new, file, hplan, ⟨_, hresult⟩ | ⟨_, hresult⟩⟩
  · rw [hresult] at h
    cases h
  · rw [hresult] at h
    cases h
    unfold planPassword at hplan
    split at hplan
    · cases hplan
    · split at hplan
      · cases hplan
      · split at hplan
        · cases hplan
        · rename_i hhash
          cases hplan
          exact hhash
  · rw [hresult] at h
    cases h

def openPanel : Panel smallPlatform := ⟨openRuntime, openConfig.web.auth⟩

/-- One request changes the strategy, the other one the password. -/
def twoRequests : Bool → Request
  | false => .putConfig quietEnv { openConfig with strategy := .onlyIpv4 }
  | true => .changePassword newPassword

theorem serialized_requests_serialize :
    ∃ events, ∃ w : World fun i => (twoRequests i).operation (K := smallPlatform) openBcrypt,
      Steps (guarded Interleaved StoresAlone) (World.begin _ openPanel) events w ∧
        (∀ i, w.Finished i) ∧
        ∃ p', OneByOne openBcrypt twoRequests openPanel p' ∧ w.shared.observed = p'.observed := by
  let ops : Bool → Operation (Panel smallPlatform) := fun i => (twoRequests i).operation openBcrypt
  have hlawful : ∀ i, (ops i).Lawful := fun i => (twoRequests i).operation_lawful openBcrypt
  have hpassword : (ops true).Succeeds openPanel _ := ⟨_, rfl⟩
  have hnone : ∀ j, ¬ (World.begin ops openPanel).Midway j := by
    rintro j ⟨n, l, hj, _⟩
    cases hj
  obtain ⟨events₁, w₁, hrun₁, hshared₁, hfinished₁, hothers₁⟩ :=
    Interleaved.solo (hlawful true) rfl hnone hpassword
  have hidle : w₁.progress false = .idle := hothers₁ false (by simp)
  have hnone₁ : ∀ j, ¬ w₁.Midway j := by
    rintro j ⟨n, l, hj, hn⟩
    cases j with
    | false =>
        rw [hidle] at hj
        cases hj
    | true =>
        obtain ⟨l', stored, htrue⟩ := hfinished₁
        rw [htrue] at hj
        cases hj
        exact absurd hn (Nat.lt_irrefl _)
  obtain ⟨p₂, happly⟩ : ∃ p₂, (ops false).Succeeds w₁.shared p₂ := by
    rw [hshared₁]
    exact ⟨_, _, rfl⟩
  obtain ⟨events₂, w₂, hrun₂, _, hfinished₂, hothers₂⟩ :=
    Interleaved.solo (hlawful false) hidle hnone₁ happly
  have hall : ∀ i, w₂.Finished i := by
    intro i
    cases i with
    | false => exact hfinished₂
    | true =>
        obtain ⟨l, stored, htrue⟩ := hfinished₁
        exact ⟨l, stored, (hothers₂ true (by simp)).trans htrue⟩
  have run := hrun₁.append hrun₂
  exact ⟨_, w₂, run, hall, concurrent_requests_serialize openBcrypt twoRequests run hall⟩

private theorem password_set_one_by_one {p p' : Panel smallPlatform} {order : List Bool}
    (run : Steps (fun p i p' => (twoRequests i).Succeeds openBcrypt p p') p order p')
    (hmem : true ∈ order) :
    p'.runtime.config.web.auth.passwordHash = "$2b$10$passphrase" := by
  induction run with
  | done => cases hmem
  | @next t u es i _ hstep ih =>
      cases i with
      | false =>
          obtain ⟨report, s', happly, rfl⟩ := hstep
          have htrue : true ∈ es := by simpa using hmem
          exact (apply_keeps_password happly).trans (ih htrue)
      | true =>
          have hset := changePassword_sets_password hstep
          injection hset with hset
          rw [← hset]
          rfl

/-- A password change that runs while `apply` is under way is undone by it in
the configuration and the file. -/
theorem password_change_undone :
    ¬ ∀ (B : BcryptCrate) (K : Platform) (ι : Type) [DecidableEq ι] (requests : ι → Request)
      (p : Panel K) (events : List ι) (w : World fun i => (requests i).operation B),
      Steps Interleaved (World.begin _ p) events w → (∀ i, w.Finished i) →
      ∃ p', OneByOne B requests p p' ∧ w.shared.observed = p'.observed := by
  intro h
  let ops : Bool → Operation (Panel smallPlatform) := fun i => (twoRequests i).operation openBcrypt
  let l : Locals smallPlatform :=
    (plan smallPlatform openConfig { openConfig with strategy := .onlyIpv4 }).toOption.get rfl
  have hlawful : (ops true).Lawful := (twoRequests true).operation_lawful openBcrypt
  -- `apply` loads, the password changes, and `apply` goes on.
  have hload : Interleaved (World.begin ops openPanel) false
      ((World.begin ops openPanel).move false openPanel (.reached 0 l false)) := .load rfl rfl
  have hpassword : (ops true).Succeeds openPanel _ := ⟨_, rfl⟩
  have hnone : ∀ j, ¬ ((World.begin ops openPanel).move false openPanel
      (.reached 0 l false)).Midway j := by
    rintro j ⟨n, l', hj, _⟩
    cases j with
    | false =>
        rw [World.move_self] at hj
        cases hj
    | true => cases hj
  obtain ⟨events₂, w₂, hrun₂, hshared₂, hfinished₂, hothers₂⟩ :=
    Interleaved.solo hlawful rfl hnone hpassword
  have hreached : w₂.progress false = .reached 0 l false :=
    (hothers₂ false (by simp)).trans (World.move_self ..)
  obtain ⟨l', p₃, hrest, hundone⟩ : ∃ l' p₃,
      execute (((ops false).actions.drop 0).map Action.phase) l w₂.shared = (.ok l', p₃) ∧
        p₃.runtime.config.web.auth.passwordHash = "$2b$10$password" := by
    rw [hshared₂]
    exact ⟨_, _, rfl, rfl⟩
  obtain ⟨events₃, w₃, hrun₃, hshared₃, hfinished₃, hothers₃⟩ :=
    Interleaved.finish hreached (Nat.zero_le _) hrest
  have hall : ∀ i, w₃.Finished i := by
    intro i
    cases i with
    | false => exact hfinished₃
    | true =>
        obtain ⟨l', stored, htrue⟩ := hfinished₂
        exact ⟨l', stored, (hothers₃ true (by simp)).trans htrue⟩
  have run := ((Steps.single hload).append (hrun₂.mono fun _ _ _ hstep => hstep.1)).append hrun₃
  obtain ⟨p', ⟨order, _, hmem, hserial⟩, hobserved⟩ :=
    h openBcrypt smallPlatform Bool twoRequests openPanel _ w₃ run hall
  have hset := password_set_one_by_one hserial (hmem true)
  have hsame := congrArg (fun o => o.config.web.auth.passwordHash) hobserved
  change w₃.shared.runtime.config.web.auth.passwordHash =
    p'.runtime.config.web.auth.passwordHash at hsame
  rw [hshared₃, hundone, hset] at hsame
  revert hsame
  decide

end Relay.Web
