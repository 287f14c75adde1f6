import Relay.Runtime.HotReload
import Relay.Text.Utf8

/-!
The web panel's authentication: `AuthState`, which the middleware consults, and
the password change of `web/api.rs`, which stores there, in the file and in the
runtime's configuration in turn. The panel starts with the two copies of the
settings equal.
-/

namespace Relay.Web

open Binary Logic Relay.Runtime Text

structure BcryptCrate where
  /-- `verify`, which fails on what is no hash. -/
  verify : String → String → Option Bool
  /-- `hash` at the cost the program uses, with the salt it draws. -/
  hash : String → Nat → Except String String

variable (B : BcryptCrate) (K : Platform)

/-- `ApiState`. -/
structure Panel where
  runtime : Handle K
  /-- `AuthState.config`. -/
  auth : WebAuthConfig

variable {K}

def isEnabled (auth : WebAuthConfig) : Bool := auth.enable

/-- `require_auth`: whether a request is let through, given whether its cookie
names a live session. -/
def requireAuth (p : Panel K) (session : Bool) : Bool :=
  if ¬ isEnabled p.auth then true else session

/-- `AuthState::login`, less the session. -/
def login (auth : WebAuthConfig) (username password : String) : Bool :=
  if username ≠ auth.username then false
  else if auth.passwordHash = "" then false
  else (B.verify password auth.passwordHash).getD false

/-- `ChangePasswordRequest`, and what the call meets. -/
structure PasswordCall where
  oldPassword : String
  newPassword : String
  salt : Nat
  env : Env

inductive PasswordError where
  | wrongPassword
  | tooShort
  | hash (e : String)
  | save
  deriving DecidableEq, Repr

/-- The checks of `auth_change_password`, up to the new configuration. The new
`AuthState` is that configuration's `web.auth`. -/
def planPassword (current : Config) (c : PasswordCall) : Except PasswordError Config :=
  if current.web.auth.enable ∧
      (B.verify c.oldPassword current.web.auth.passwordHash).getD false = false then
    .error .wrongPassword
  else if (octets c.newPassword).length < 8 then .error .tooShort
  else match B.hash c.newPassword c.salt with
    | .error e => .error (.hash e)
    | .ok newHash =>
        .ok { current with
          web := { current.web with auth := { current.web.auth with passwordHash := newHash } } }

abbrev PasswordPhase (K : Platform) := Phase PasswordError Config (Panel K)

/-- `state.auth.config.store(...)`. -/
def storeAuth : PasswordPhase K := fun new p => (.ok new, { p with auth := new.web.auth })

def openPasswordFile (env : Env) : PasswordPhase K := fun new p =>
  match startSave env new p.runtime with
  | (true, s) => (.ok new, { p with runtime := s })
  | (false, s) => (.error .save, { p with runtime := s })

def writePasswordFile (env : Env) : PasswordPhase K := fun new p =>
  match finishSave env new p.runtime with
  | (true, s) => (.ok new, { p with runtime := s })
  | (false, s) => (.error .save, { p with runtime := s })

/-- `state.runtime.config.store(...)`. -/
def storePasswordConfig : PasswordPhase K := fun new p =>
  (.ok new, { p with runtime := { p.runtime with config := new } })

def passwordPhases (env : Env) : List (PasswordPhase K) :=
  [storeAuth, openPasswordFile env, writePasswordFile env, storePasswordConfig]

/-- `auth_change_password`, with the panel after it. -/
def changePassword (c : PasswordCall) (p : Panel K) : Except PasswordError Unit × Panel K :=
  match planPassword B p.runtime.config c with
  | .error e => (.error e, p)
  | .ok new =>
      match execute (passwordPhases c.env) new p with
      | (.ok _, p) => (.ok (), p)
      | (.error e, p) => (.error e, p)

/-- The ways a password change ends. -/
theorem changePassword_cases (c : PasswordCall) (p : Panel K) :
    (∃ e, planPassword B p.runtime.config c = .error e ∧ changePassword B c p = (.error e, p)) ∨
      ∃ new file, planPassword B p.runtime.config c = .ok new ∧
        ((saveTo K c.env new p.runtime.file = (true, file) ∧
            changePassword B c p =
              (.ok (), ⟨{ p.runtime with file := file, config := new }, new.web.auth⟩)) ∨
          (saveTo K c.env new p.runtime.file = (false, file) ∧
            changePassword B c p =
              (.error .save, ⟨{ p.runtime with file := file }, new.web.auth⟩))) := by
  cases hplan : planPassword B p.runtime.config c with
  | error e => exact Or.inl ⟨e, rfl, by simp [changePassword, hplan]⟩
  | ok new =>
      refine Or.inr ⟨new, (saveTo K c.env new p.runtime.file).2, rfl, ?_⟩
      rcases startSave_finishSave c.env new p.runtime with
        ⟨hstart, hsave⟩ | ⟨hstart, ok, file, hsave, hfinish⟩
      · rw [hsave]
        refine Or.inr ⟨rfl, ?_⟩
        simp [changePassword, hplan, passwordPhases, execute, storeAuth, openPasswordFile, hstart]
      · rw [hsave]
        cases ok with
        | true =>
            refine Or.inl ⟨rfl, ?_⟩
            simp [changePassword, hplan, passwordPhases, execute, storeAuth, openPasswordFile,
              writePasswordFile, storePasswordConfig, hstart, hfinish]
        | false =>
            refine Or.inr ⟨rfl, ?_⟩
            simp [changePassword, hplan, passwordPhases, execute, storeAuth, openPasswordFile,
              writePasswordFile, hstart, hfinish]

/-! ### The two copies of the settings -/

/-- The requests that write settings. `put_config` fills in the fields that
`apply` overwrites before it calls it. -/
inductive Request where
  | putConfig (env : Env) (submitted : Config)
  | changePassword (c : PasswordCall)

def serveRequest (p : Panel K) : Request → Panel K → Prop
  | .putConfig env submitted, p' => p' = { p with runtime := (apply env submitted p.runtime).2 }
  | .changePassword c, p' => p' = (changePassword B c p).2

/-- The middleware and the configuration in force agree on all three fields. -/
def OneTruth (p : Panel K) : Prop := p.auth = p.runtime.config.web.auth

/-- An accepted configuration leaves `enable` as it is, and a password that
passes the checks is also saved, or is the one already set. -/
def KeepsTruth (p : Panel K) : Request → Prop
  | .putConfig env submitted =>
      Accepts env submitted p.runtime →
        submitted.web.auth.enable = p.runtime.config.web.auth.enable
  | .changePassword c =>
      ∀ new, planPassword B p.runtime.config c = .ok new →
        (saveTo K c.env new p.runtime.file).1 = true ∨
          new.web.auth.passwordHash = p.runtime.config.web.auth.passwordHash

theorem planPassword_auth {current new : Config} {c : PasswordCall}
    (h : planPassword B current c = .ok new) :
    new.web.auth = current.web.auth ↔
      new.web.auth.passwordHash = current.web.auth.passwordHash := by
  unfold planPassword at h
  split at h
  · cases h
  · split at h
    · cases h
    · split at h
      · cases h
      · cases h
        constructor
        · intro hsame
          rw [hsame]
        · intro hsame
          dsimp only at hsame ⊢
          rw [hsame]

theorem pinned_auth (old new : Config) :
    (pinned old new).web.auth = old.web.auth ↔ new.web.auth.enable = old.web.auth.enable := by
  constructor
  · intro hsame
    have henable : (pinned old new).web.auth.enable = old.web.auth.enable := by rw [hsame]
    exact henable
  · intro henable
    unfold pinned
    dsimp only
    rw [henable]

/-- A request keeps the copies equal exactly when it meets the guard. -/
theorem oneTruth_iff {p p' : Panel K} {r : Request} (h : OneTruth p)
    (hserve : serveRequest B p r p') : OneTruth p' ↔ KeepsTruth B p r := by
  unfold OneTruth at h ⊢
  cases r with
  | putConfig env submitted =>
      cases hserve
      unfold KeepsTruth
      rw [h]
      rcases apply_config_cases env submitted p.runtime with
        ⟨haccepts, _, hconfig⟩ | ⟨hrejects, _, hconfig⟩
      · rw [hconfig, eq_comm, pinned_auth]
        exact ⟨fun henable _ => henable, fun hkeeps => hkeeps haccepts⟩
      · rw [hconfig]
        exact iff_of_true rfl (fun haccepts => absurd haccepts hrejects)
  | changePassword c =>
      cases hserve
      unfold KeepsTruth
      dsimp only
      rcases changePassword_cases B c p with
        ⟨e, hplan, hresult⟩ | ⟨new, file, hplan, ⟨hsave, hresult⟩ | ⟨hsave, hresult⟩⟩
      · rw [hresult, hplan]
        refine iff_of_true h ?_
        intro new hnew
        cases hnew
      · rw [hresult, hplan]
        refine iff_of_true rfl ?_
        intro new' hnew
        cases hnew
        exact Or.inl (by rw [hsave])
      · rw [hresult, hplan]
        dsimp only
        rw [planPassword_auth B hplan]
        constructor
        · intro hsame new' hnew
          cases hnew
          exact Or.inr hsame
        · intro hkeeps
          rcases hkeeps new rfl with hsaved | hsame
          · rw [hsave] at hsaved
            cases hsaved
          · exact hsame

/-- In a run whose requests meet the guard the two copies are equal in every
state, and a configuration accepted with authentication is enforced. -/
theorem oneTruth_of_keepsTruth {env : Env} {baseDir : String} {config : Config}
    {file : Option Bytes} {s₀ : Handle K} {requests : List Request} {p : Panel K}
    (hstart : start env baseDir config file = .ok s₀)
    (run : Steps (guarded (serveRequest B) (KeepsTruth B)) ⟨s₀, config.web.auth⟩ requests p) :
    OneTruth p ∧
      ∀ env submitted report s', KeepsTruth B p (.putConfig env submitted) →
        apply env submitted p.runtime = (.ok report, s') → submitted.web.auth.enable = true →
        ∀ session, requireAuth { p with runtime := s' } session = session := by
  have hbegin : OneTruth (⟨s₀, config.web.auth⟩ : Panel K) := by
    obtain ⟨router, fw, _, _, rfl⟩ := start_ok hstart
    rfl
  have htruth : OneTruth p := by
    apply run.invariant hbegin
    intro t r u ht hstep
    exact (oneTruth_iff B ht hstep.1).mpr hstep.2
  refine ⟨htruth, ?_⟩
  intro env submitted report s' hkeeps happly henable session
  have hsame := hkeeps (apply_config happly).1
  have hon : p.auth.enable = true := by
    rw [htruth, ← hsame]
    exact henable
  unfold requireAuth isEnabled
  rw [hon, if_neg (by simp)]

/-! ### Authentication switched on -/

/-- A hash that shows the password. -/
def openBcrypt : BcryptCrate where
  verify := fun password hash => some (hash == "$2b$10$" ++ password)
  hash := fun password _ => .ok ("$2b$10$" ++ password)

/-- The panel is on, and its login is set but not asked for. -/
def openConfig : Config :=
  { smallConfig with
    web := {
      enable := true
      auth := { enable := false, username := "admin", passwordHash := "$2b$10$password" } } }

def openRuntime : Handle smallPlatform :=
  (start quietEnv "/" openConfig none).toOption.get rfl

theorem openRuntime_start : start quietEnv "/" openConfig none = .ok openRuntime := rfl

def lockedConfig : Config :=
  { openConfig with web := { openConfig.web with auth := { openConfig.web.auth with enable := true } } }

def newPassword : PasswordCall where
  oldPassword := "password"
  newPassword := "passphrase"
  salt := 0
  env := quietEnv

theorem oneTruth_after_password_change :
    ∃ p, Steps (guarded (serveRequest openBcrypt) (KeepsTruth openBcrypt))
        ⟨openRuntime, openConfig.web.auth⟩ [.changePassword newPassword] p ∧
      p.auth.passwordHash = "$2b$10$passphrase" ∧ OneTruth p := by
  have hkeeps : KeepsTruth openBcrypt (⟨openRuntime, openConfig.web.auth⟩ : Panel smallPlatform)
      (.changePassword newPassword) := by
    intro new hnew
    cases hnew
    exact Or.inl rfl
  have run : Steps (guarded (serveRequest openBcrypt) (KeepsTruth openBcrypt))
      (⟨openRuntime, openConfig.web.auth⟩ : Panel smallPlatform) [.changePassword newPassword] _ :=
    Steps.single ⟨rfl, hkeeps⟩
  exact ⟨_, run, rfl, (oneTruth_of_keepsTruth openBcrypt openRuntime_start run).1⟩

/-- A configuration that switches authentication on is accepted, and requests
without a session are still let through. -/
theorem open_after_enable :
    ¬ ∀ (B : BcryptCrate) (K : Platform) (env : Env) (baseDir : String) (config : Config)
      (file : Option Bytes) (s₀ : Handle K) (requests : List Request) (p : Panel K),
      start env baseDir config file = .ok s₀ →
      Steps (serveRequest B) ⟨s₀, config.web.auth⟩ requests p → OneTruth p := by
  intro h
  have hrun : Steps (serveRequest openBcrypt)
      (⟨openRuntime, openConfig.web.auth⟩ : Panel smallPlatform) [.putConfig quietEnv lockedConfig]
      _ := Steps.single rfl
  have htruth := h openBcrypt smallPlatform quietEnv "/" openConfig none openRuntime _ _
    openRuntime_start hrun
  have henable := congrArg WebAuthConfig.enable htruth
  cases henable

end Relay.Web
