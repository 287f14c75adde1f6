import Relay.Web.Auth

/-!
The sessions of the web panel: `AuthState` of `web/auth.rs` with its table, and
the login and logout calls of `web/api.rs`. A session lives by being used. An
expired one may stay in the table until somebody touches or sweeps it.
-/

namespace Relay.Web

open Logic Text

/-- The `DashMap` from tokens to when they were last active, in nanoseconds of
the monotone clock. -/
abbrev Sessions := String → Option Nat

/-- `SESSION_TTL`. -/
def sessionTtl : Nat := 24 * 3600 * 10 ^ 9

def sessionCookieName : String := "relay_session"

def Sessions.insert (sessions : Sessions) (token : String) (now : Nat) : Sessions :=
  Function.update sessions token (some now)

def Sessions.remove (sessions : Sessions) (token : String) : Sessions :=
  Function.update sessions token none

structure AuthState where
  config : WebAuthConfig
  sessions : Sessions

def AuthState.new (config : WebAuthConfig) : AuthState := ⟨config, fun _ => none⟩

variable (B : BcryptCrate)

/-- `auth_login`: whether a session is created. The token and the time are what
`generate_token` and the clock give the call. -/
def AuthState.authLogin (s : AuthState) (username password token : String) (now : Nat) :
    Bool × AuthState :=
  if ¬ isEnabled s.config then (false, s)
  else if login B s.config username password then
    (true, { s with sessions := s.sessions.insert token now })
  else (false, s)

/-- The values of the cookies with this name in a `Cookie` header. -/
def cookieValues (cookie : Option String) (name : String) : List String :=
  (cookie.toList.flatMap fun raw => splitChar ';' raw).filterMap fun part =>
    stripPrefix (trim part) (name ++ "=")

/-- The first of them. -/
def extractCookie (cookie : Option String) (name : String) : Option String :=
  (cookieValues cookie name).head?

/-- `auth_logout`: every session the cookie names is removed. -/
def AuthState.authLogout (s : AuthState) (cookie : Option String) : AuthState :=
  { s with sessions := (cookieValues cookie sessionCookieName).foldl Sessions.remove s.sessions }

/-- `touch`, which reads the clock for the test and again for the renewal. -/
def touch (sessions : Sessions) (token : String) (checked renewed : Nat) : Bool × Sessions :=
  match sessions token with
  | some last =>
      if sessionTtl < checked - last then (false, sessions.remove token)
      else (true, sessions.insert token renewed)
  | none => (false, sessions)

/-- The middleware: whether the request goes on. -/
def AuthState.requireAuth (s : AuthState) (cookie : Option String) (checked renewed : Nat) :
    Bool × AuthState :=
  if ¬ isEnabled s.config then (true, s)
  else match extractCookie cookie sessionCookieName with
    | some token =>
        let (authorized, sessions) := touch s.sessions token checked renewed
        (authorized, { s with sessions := sessions })
    | none => (false, s)

def AuthState.cleanupExpired (s : AuthState) (now : Nat) : AuthState :=
  { s with sessions := fun token => (s.sessions token).filter fun last => now - last ≤ sessionTtl }

/-! ### Runs -/

/-- A call, with the token it draws and the clock as it reads it. `store` is a
new configuration from a change of the password. -/
inductive AuthEvent where
  | login (username password token : String) (now : Nat)
  | logout (cookie : Option String)
  | request (cookie : Option String) (checked renewed : Nat)
  | cleanup (now : Nat)
  | store (config : WebAuthConfig)

def AuthState.serve (s : AuthState) : AuthEvent → Bool × AuthState
  | .login username password token now => s.authLogin B username password token now
  | .logout cookie => (true, s.authLogout cookie)
  | .request cookie checked renewed => s.requireAuth cookie checked renewed
  | .cleanup now => (true, s.cleanupExpired now)
  | .store config => (true, { s with config := config })

/-- A call that was served: whether authentication was on, and whether the
login was accepted or the request let through. -/
structure AuthEntry where
  event : AuthEvent
  enabled : Bool
  ok : Bool

/-- One served call. -/
def AuthStep (s : AuthState) (e : AuthEntry) (s' : AuthState) : Prop :=
  e.enabled = isEnabled s.config ∧ (e.ok, s') = s.serve B e.event

/-- The readings of the clock, in their order. -/
def AuthEvent.readings : AuthEvent → List Nat
  | .login _ _ _ now => [now]
  | .request _ checked renewed => [checked, renewed]
  | .cleanup now => [now]
  | .logout _ | .store _ => []

def readings (trace : List AuthEntry) : List Nat := trace.flatMap fun e => e.event.readings

/-- The clock of a run is monotone. -/
def Clocked (trace : List AuthEntry) : Prop := (readings trace).Pairwise (· ≤ ·)

/-- The token an accepted login has drawn. -/
def AuthEntry.drawn? (e : AuthEntry) : Option String :=
  match e.event with
  | .login _ _ token _ => if e.ok then some token else none
  | _ => none

/-- No token is drawn twice. -/
def Fresh (trace : List AuthEntry) : Prop := (trace.filterMap AuthEntry.drawn?).Nodup

def AuthEntry.isCleanup (e : AuthEntry) : Bool :=
  match e.event with
  | .cleanup _ => true
  | _ => false

/-! ### What a session should be -/

def AuthEntry.logsOut (e : AuthEntry) (token : String) : Prop :=
  match e.event with
  | .logout cookie => token ∈ cookieValues cookie sessionCookieName
  | _ => False

/-- The readings of a request that was admitted for the token. -/
def AuthEntry.use? (token : String) (e : AuthEntry) : Option (Nat × Nat) :=
  match e.event with
  | .request cookie checked renewed =>
      if e.enabled ∧ e.ok ∧ extractCookie cookie sessionCookieName = some token then
        some (checked, renewed)
      else none
  | _ => none

def usesOf (token : String) (trace : List AuthEntry) : List (Nat × Nat) :=
  trace.filterMap (AuthEntry.use? token)

/-- No gap from one activity to the next use is longer than 24 hours. -/
def GapsWithin (last : Nat) : List (Nat × Nat) → Prop
  | [] => True
  | (checked, renewed) :: uses => checked - last ≤ sessionTtl ∧ GapsWithin renewed uses

/-- The token was issued by an accepted login, has not been logged out since,
and every gap up to this use is within 24 hours. -/
def Admissible (trace : List AuthEntry) (token : String) (checked renewed : Nat) : Prop :=
  ∃ before username password now after,
    trace = before ++ ⟨.login username password token now, true, true⟩ :: after ∧
      (∀ e ∈ after, ¬ e.logsOut token) ∧
      GapsWithin now (usesOf token after ++ [(checked, renewed)])

/-- When a session was last active, if it is kept until it is logged out. -/
def activityStep (token : String) (last : Option Nat) (e : AuthEntry) : Option Nat :=
  match e.event with
  | .login _ _ issued now => if e.ok ∧ issued = token then some now else last
  | .logout cookie => if token ∈ cookieValues cookie sessionCookieName then none else last
  | .request _ _ _ =>
      match e.use? token with
      | some (_, renewed) => some renewed
      | none => last
  | .cleanup _ | .store _ => last

def activity (trace : List AuthEntry) (token : String) : Option Nat :=
  trace.foldl (activityStep token) none

/-- `m` has what `m'` has, but for what has been idle for too long at one of
the `times`. -/
def Lags (times : List Nat) (m m' : Sessions) : Prop :=
  ∀ token, m token = m' token ∨
    m token = none ∧ ∃ last, m' token = some last ∧ ∃ now ∈ times, sessionTtl < now - last

/-! ### The table -/

@[simp] theorem insert_self (m : Sessions) (token : String) (now : Nat) :
    m.insert token now token = some now := Function.update_self token _ m

theorem insert_of_ne {m : Sessions} {token other : String} (h : other ≠ token) (now : Nat) :
    m.insert token now other = m other := Function.update_of_ne h _ m

@[simp] theorem remove_self (m : Sessions) (token : String) : m.remove token token = none :=
  Function.update_self token _ m

theorem remove_of_ne {m : Sessions} {token other : String} (h : other ≠ token) :
    m.remove token other = m other := Function.update_of_ne h _ m

theorem foldl_remove (tokens : List String) (m : Sessions) (token : String) :
    tokens.foldl Sessions.remove m token = if token ∈ tokens then none else m token := by
  induction tokens generalizing m with
  | nil => simp
  | cons t tokens ih =>
      rw [List.foldl_cons, ih]
      rcases eq_or_ne token t with rfl | hne
      · simp
      · simp [hne, remove_of_ne hne]

/-- The three ways to touch a session. -/
theorem touch_cases (m : Sessions) (token : String) (checked renewed : Nat) :
    (∃ last, m token = some last ∧ checked - last ≤ sessionTtl ∧
        touch m token checked renewed = (true, m.insert token renewed)) ∨
      (∃ last, m token = some last ∧ sessionTtl < checked - last ∧
        touch m token checked renewed = (false, m.remove token)) ∨
      (m token = none ∧ touch m token checked renewed = (false, m)) := by
  unfold touch
  cases htoken : m token with
  | none => exact Or.inr (Or.inr ⟨rfl, rfl⟩)
  | some last =>
      rcases Nat.lt_or_ge sessionTtl (checked - last) with hlong | hshort
      · exact Or.inr (Or.inl ⟨last, rfl, hlong, if_pos hlong⟩)
      · exact Or.inl ⟨last, rfl, hshort, if_neg (Nat.not_lt.mpr hshort)⟩

theorem touch_authorized {m : Sessions} {token : String} {checked renewed : Nat} :
    (touch m token checked renewed).1 = true ↔
      ∃ last, m token = some last ∧ checked - last ≤ sessionTtl := by
  rcases touch_cases m token checked renewed with
    ⟨last, htoken, hshort, heq⟩ | ⟨last, htoken, hlong, heq⟩ | ⟨htoken, heq⟩
  · simp only [heq, htoken, Option.some.injEq, exists_eq_left', true_iff]
    exact hshort
  · simp only [heq, htoken, Option.some.injEq, exists_eq_left', Bool.false_eq_true, false_iff]
    exact Nat.not_le.mpr hlong
  · simp [heq, htoken]

/-! ### A table that lags -/

section Lags

variable {times times' : List Nat} {m m' : Sessions}

theorem Lags.refl (times : List Nat) (m : Sessions) : Lags times m m := fun _ => Or.inl rfl

theorem Lags.mono (h : Lags times m m') (hsub : times ⊆ times') : Lags times' m m' := by
  intro token
  rcases h token with hsame | ⟨hnone, last, hlast, now, hnow, hlong⟩
  · exact Or.inl hsame
  · exact Or.inr ⟨hnone, last, hlast, now, hsub hnow, hlong⟩

theorem Lags.insert (h : Lags times m m') (token : String) (now : Nat) :
    Lags times (m.insert token now) (m'.insert token now) := by
  intro other
  rcases eq_or_ne other token with rfl | hne
  · simp
  · rw [insert_of_ne hne, insert_of_ne hne]
    exact h other

theorem Lags.remove (h : Lags times m m') (token : String) :
    Lags times (m.remove token) (m'.remove token) := by
  intro other
  rcases eq_or_ne other token with rfl | hne
  · simp
  · rw [remove_of_ne hne, remove_of_ne hne]
    exact h other

theorem Lags.foldl_remove (h : Lags times m m') (tokens : List String) :
    Lags times (tokens.foldl Sessions.remove m) (tokens.foldl Sessions.remove m') := by
  induction tokens generalizing m m' with
  | nil => exact h
  | cons token tokens ih => exact ih (h.remove token)

/-- What has expired may be dropped. -/
theorem Lags.expire (h : Lags times m m') {m₀ : Sessions}
    (hdrop : ∀ token, m₀ token = m token ∨ m₀ token = none ∧ ∃ last, m token = some last ∧
      ∃ now ∈ times, sessionTtl < now - last) : Lags times m₀ m' := by
  intro token
  rcases hdrop token with hkept | ⟨hnone, last, hlast, hlong⟩
  · rw [hkept]
    exact h token
  · rcases h token with hsame | ⟨hgone, _⟩
    · exact Or.inr ⟨hnone, last, hsame ▸ hlast, hlong⟩
    · rw [hgone] at hlast
      cases hlast

theorem Lags.retain (h : Lags times m m') {now : Nat} (hnow : now ∈ times) :
    Lags times (fun token => (m token).filter fun last => now - last ≤ sessionTtl) m' := by
  apply h.expire
  intro token
  cases htoken : m token with
  | none => exact Or.inl rfl
  | some last =>
      rw [Option.filter_some]
      rcases Nat.lt_or_ge sessionTtl (now - last) with hlong | hshort
      · rw [decide_eq_false (Nat.not_le.mpr hlong)]
        exact Or.inr ⟨rfl, last, rfl, now, hnow, hlong⟩
      · rw [decide_eq_true hshort]
        exact Or.inl rfl

/-- The same tokens are admitted, as nothing expired comes back to life. -/
theorem Lags.touch_fst (h : Lags times m m') {checked : Nat} (hnow : ∀ now ∈ times, now ≤ checked)
    (token : String) (renewed : Nat) :
    (touch m token checked renewed).1 = (touch m' token checked renewed).1 := by
  rw [Bool.eq_iff_iff, touch_authorized, touch_authorized]
  rcases h token with hsame | ⟨hnone, last, hlast, now, hmem, hlong⟩
  · rw [hsame]
  · have hle := hnow now hmem
    rw [hnone, hlast]
    constructor
    · rintro ⟨_, hsome, _⟩
      cases hsome
    · rintro ⟨_, hsome, hshort⟩
      cases hsome
      omega

/-- To touch both tables, or to renew the token in the other when it is
admitted. -/
theorem Lags.touch_snd (h : Lags times m m') {checked : Nat} (hmem : checked ∈ times)
    (token : String) (renewed : Nat) :
    Lags times (touch m token checked renewed).2
      (if (touch m token checked renewed).1 then m'.insert token renewed else m') := by
  rcases touch_cases m token checked renewed with
    ⟨last, _, _, heq⟩ | ⟨last, htoken, hlong, heq⟩ | ⟨_, heq⟩
  · rw [heq]
    exact h.insert token renewed
  · rw [heq]
    apply h.expire
    intro other
    rcases eq_or_ne other token with rfl | hne
    · exact Or.inr ⟨remove_self m other, last, htoken, checked, hmem, hlong⟩
    · exact Or.inl (remove_of_ne hne)
  · rw [heq]
    exact h

end Lags

/-! ### The activity of a session -/

@[simp] theorem activity_nil (token : String) : activity [] token = none := rfl

theorem activity_concat (trace : List AuthEntry) (e : AuthEntry) (token : String) :
    activity (trace ++ [e]) token = activityStep token (activity trace token) e := by
  rw [activity, List.foldl_append]
  rfl

/-- A request goes on without a use when authentication is off, when it has no
session cookie, or when its token is refused. -/
theorem requireAuth_cases (s : AuthState) (cookie : Option String) (checked renewed : Nat) :
    (isEnabled s.config = false ∧ s.requireAuth cookie checked renewed = (true, s)) ∨
      (isEnabled s.config = true ∧ extractCookie cookie sessionCookieName = none ∧
        s.requireAuth cookie checked renewed = (false, s)) ∨
      ∃ token, isEnabled s.config = true ∧ extractCookie cookie sessionCookieName = some token ∧
        s.requireAuth cookie checked renewed =
          ((touch s.sessions token checked renewed).1,
            { s with sessions := (touch s.sessions token checked renewed).2 }) := by
  unfold AuthState.requireAuth
  cases henabled : isEnabled s.config with
  | false => exact Or.inl ⟨rfl, rfl⟩
  | true =>
      cases htoken : extractCookie cookie sessionCookieName with
      | none => exact Or.inr (Or.inl ⟨rfl, rfl, rfl⟩)
      | some token => exact Or.inr (Or.inr ⟨token, rfl, rfl, rfl⟩)

@[simp] theorem use?_request (cookie : Option String) (checked renewed : Nat) (enabled ok : Bool)
    (token : String) :
    (⟨.request cookie checked renewed, enabled, ok⟩ : AuthEntry).use? token =
      if enabled ∧ ok ∧ extractCookie cookie sessionCookieName = some token then
        some (checked, renewed)
      else none := rfl

/-- A request that is no use of the token leaves its activity. -/
theorem activityStep_of_no_use {e : AuthEntry} {token : String} {last : Option Nat}
    {cookie : Option String} {checked renewed : Nat} (he : e.event = .request cookie checked renewed)
    (hnone : e.use? token = none) : activityStep token last e = last := by
  simp only [activityStep, he, hnone]

theorem activityStep_of_use {e : AuthEntry} {token : String} {last : Option Nat}
    {checked renewed : Nat} (huse : e.use? token = some (checked, renewed)) :
    activityStep token last e = some renewed := by
  obtain ⟨event, enabled, ok⟩ := e
  cases event with
  | request cookie checked' renewed' => simp only [activityStep, huse]
  | _ => cases huse

/-- The activity after a request: renewed for the token it was admitted for. -/
theorem activity_request {trace : List AuthEntry} {cookie : Option String} {token : String}
    {checked renewed : Nat} {ok : Bool}
    (htoken : extractCookie cookie sessionCookieName = some token) :
    activity (trace ++ [⟨.request cookie checked renewed, true, ok⟩]) =
      if ok then Sessions.insert (activity trace) token renewed else activity trace := by
  funext other
  rw [activity_concat]
  cases ok with
  | false => exact activityStep_of_no_use rfl (by simp)
  | true =>
      rw [if_pos rfl]
      rcases eq_or_ne token other with rfl | hne
      · rw [insert_self]
        have huse : AuthEntry.use? token ⟨.request cookie checked renewed, true, true⟩ =
            some (checked, renewed) := by simp [htoken]
        exact activityStep_of_use huse
      · rw [insert_of_ne (Ne.symm hne)]
        exact activityStep_of_no_use rfl (by simp [htoken, hne])

/-- An entry that changes no token's activity. -/
theorem activity_unchanged {trace : List AuthEntry} {e : AuthEntry}
    (h : ∀ token last, activityStep token last e = last) :
    activity (trace ++ [e]) = activity trace := by
  funext token
  rw [activity_concat, h]

theorem activity_login (trace : List AuthEntry) (username password token : String) (now : Nat)
    (enabled : Bool) :
    activity (trace ++ [⟨.login username password token now, enabled, true⟩]) =
      Sessions.insert (activity trace) token now := by
  funext other
  rcases eq_or_ne token other with rfl | hne
  · simp [activity_concat, activityStep]
  · simp [activity_concat, activityStep, hne, insert_of_ne (Ne.symm hne)]

theorem activity_logout (trace : List AuthEntry) (cookie : Option String) (enabled ok : Bool) :
    activity (trace ++ [⟨.logout cookie, enabled, ok⟩]) =
      (cookieValues cookie sessionCookieName).foldl Sessions.remove (activity trace) := by
  funext other
  rw [activity_concat, foldl_remove]
  rfl

/-- The table lags behind the activity. -/
def Tracks (trace : List AuthEntry) (s : AuthState) : Prop :=
  Lags (readings trace) s.sessions (activity trace)

theorem readings_concat (trace : List AuthEntry) (e : AuthEntry) :
    readings (trace ++ [e]) = readings trace ++ e.event.readings := by
  rw [readings, List.flatMap_append, List.flatMap_singleton]
  rfl

variable {B}

/-- What every call keeps. -/
theorem tracks_step {trace : List AuthEntry} {s s' : AuthState} {e : AuthEntry}
    (h : Tracks trace s) (hstep : AuthStep B s e s') : Tracks (trace ++ [e]) s' := by
  unfold Tracks at h ⊢
  have hmono : Lags (readings (trace ++ [e])) s.sessions (activity trace) := by
    rw [readings_concat]
    exact h.mono (List.subset_append_left _ _)
  obtain ⟨event, enabled, ok⟩ := e
  obtain ⟨henabled, hserve⟩ := hstep
  dsimp only at henabled hserve
  cases event with
  | login username password token now =>
      simp only [AuthState.serve, AuthState.authLogin] at hserve
      split at hserve
      · cases hserve
        rw [activity_unchanged (by simp [activityStep])]
        exact hmono
      · split at hserve
        · cases hserve
          rw [activity_login]
          exact hmono.insert token now
        · cases hserve
          rw [activity_unchanged (by simp [activityStep])]
          exact hmono
  | logout cookie =>
      cases hserve
      rw [activity_logout]
      exact hmono.foldl_remove _
  | request cookie checked renewed =>
      have hread : checked ∈ readings (trace ++ [⟨.request cookie checked renewed, enabled, ok⟩]) := by
        rw [readings_concat]
        exact List.mem_append_right _ List.mem_cons_self
      rcases requireAuth_cases s cookie checked renewed with
        ⟨hoff, heq⟩ | ⟨hon, hnone, heq⟩ | ⟨token, hon, htoken, heq⟩
      · rw [AuthState.serve, heq] at hserve
        cases hserve
        rw [activity_unchanged fun _ _ => activityStep_of_no_use rfl (by simp [henabled, hoff])]
        exact hmono
      · rw [AuthState.serve, heq] at hserve
        cases hserve
        rw [activity_unchanged fun _ _ => activityStep_of_no_use rfl (by simp [hnone])]
        exact hmono
      · rw [AuthState.serve, heq] at hserve
        cases hserve
        rw [hon] at henabled
        subst henabled
        rw [activity_request htoken]
        exact hmono.touch_snd hread token renewed
  | cleanup now =>
      cases hserve
      rw [activity_unchanged fun _ _ => rfl]
      apply hmono.retain
      rw [readings_concat]
      exact List.mem_append_right _ List.mem_cons_self
  | store config =>
      cases hserve
      rw [activity_unchanged fun _ _ => rfl]
      exact hmono

theorem tracks_run {config : WebAuthConfig} {trace : List AuthEntry} {s : AuthState}
    (run : Steps (AuthStep B) (AuthState.new config) trace s) : Tracks trace s := by
  generalize hstart : AuthState.new config = start at run
  induction run with
  | done =>
      subst hstart
      exact Lags.refl [] _
  | next _ hstep ih => exact tracks_step ih hstep

/-! ### The history of a session -/

/-- When the last of the uses renewed the session. -/
def latest (last : Nat) : List (Nat × Nat) → Nat
  | [] => last
  | (_, renewed) :: uses => latest renewed uses

theorem latest_concat (last : Nat) (uses : List (Nat × Nat)) (use : Nat × Nat) :
    latest last (uses ++ [use]) = use.2 := by
  induction uses generalizing last with
  | nil => rfl
  | cons first uses ih => exact ih first.2

theorem gapsWithin_concat (last : Nat) (uses : List (Nat × Nat)) (checked renewed : Nat) :
    GapsWithin last (uses ++ [(checked, renewed)]) ↔
      GapsWithin last uses ∧ checked - latest last uses ≤ sessionTtl := by
  induction uses generalizing last with
  | nil => simp [GapsWithin, latest]
  | cons first uses ih =>
      rw [List.cons_append, GapsWithin, ih, GapsWithin, latest, and_assoc]

/-- The trace has an accepted login that drew the token, at `now`, and then
`after`, in which it is not logged out. -/
def IssuedBefore (trace : List AuthEntry) (token : String) (now : Nat) (after : List AuthEntry) :
    Prop :=
  ∃ before username password,
    trace = before ++ ⟨.login username password token now, true, true⟩ :: after ∧
      ∀ e ∈ after, ¬ e.logsOut token

theorem IssuedBefore.concat {trace after : List AuthEntry} {token : String} {now : Nat}
    (h : IssuedBefore trace token now after) {e : AuthEntry} (he : ¬ e.logsOut token) :
    IssuedBefore (trace ++ [e]) token now (after ++ [e]) := by
  obtain ⟨before, username, password, rfl, hafter⟩ := h
  refine ⟨before, username, password, by simp, ?_⟩
  intro e' he'
  rcases List.mem_append.mp he' with hold | hnew
  · exact hafter e' hold
  · rw [List.mem_singleton.mp hnew]
    exact he

theorem usesOf_concat (token : String) (trace : List AuthEntry) (e : AuthEntry) :
    usesOf token (trace ++ [e]) = usesOf token trace ++ (e.use? token).toList := by
  rw [usesOf, List.filterMap_append]
  cases huse : e.use? token <;> simp [usesOf, huse]

/-- The call leaves the session alone. -/
structure AuthEntry.Passes (e : AuthEntry) (token : String) : Prop where
  stays : ¬ e.logsOut token
  unused : e.use? token = none
  notDrawn : e.drawn? ≠ some token

theorem activityStep_of_passes {e : AuthEntry} {token : String} (h : e.Passes token)
    (last : Option Nat) : activityStep token last e = last := by
  obtain ⟨event, enabled, ok⟩ := e
  obtain ⟨hstays, hunused, hdrawn⟩ := h
  cases event with
  | login username password issued now =>
      apply if_neg
      rintro ⟨hok, rfl⟩
      exact hdrawn (if_pos hok)
  | logout cookie => exact if_neg hstays
  | request cookie checked renewed => exact activityStep_of_no_use rfl hunused
  | cleanup now => rfl
  | store config => rfl

/-- What a call is to a session: its login, its logout, a use of it, or
nothing. -/
theorem AuthEntry.cases_token (e : AuthEntry) (token : String) :
    (∃ username password now, e = ⟨.login username password token now, e.enabled, true⟩) ∨
      e.logsOut token ∨ (∃ checked renewed, e.use? token = some (checked, renewed)) ∨
      e.Passes token := by
  obtain ⟨event, enabled, ok⟩ := e
  cases event with
  | login username password issued now =>
      by_cases hdrawn : ok = true ∧ issued = token
      · obtain ⟨rfl, rfl⟩ := hdrawn
        exact Or.inl ⟨username, password, now, rfl⟩
      · refine Or.inr (Or.inr (Or.inr ⟨id, rfl, ?_⟩))
        intro heq
        simp only [AuthEntry.drawn?] at heq
        split at heq
        · rename_i hok
          exact hdrawn ⟨hok, Option.some.inj heq⟩
        · cases heq
  | logout cookie =>
      by_cases hout : token ∈ cookieValues cookie sessionCookieName
      · exact Or.inr (Or.inl hout)
      · exact Or.inr (Or.inr (Or.inr ⟨hout, rfl, fun heq => by cases heq⟩))
  | request cookie checked renewed =>
      cases huse : (⟨.request cookie checked renewed, enabled, ok⟩ : AuthEntry).use? token with
      | some use => exact Or.inr (Or.inr (Or.inl ⟨use.1, use.2, rfl⟩))
      | none => exact Or.inr (Or.inr (Or.inr ⟨id, huse, fun heq => by cases heq⟩))
  | cleanup now => exact Or.inr (Or.inr (Or.inr ⟨id, rfl, fun heq => by cases heq⟩))
  | store config => exact Or.inr (Or.inr (Or.inr ⟨id, rfl, fun heq => by cases heq⟩))

theorem authLogin_accepted {s s' : AuthState} {username password token : String} {now : Nat}
    (h : s.authLogin B username password token now = (true, s')) : isEnabled s.config = true := by
  unfold AuthState.authLogin at h
  split at h
  · cases h
  · rename_i henabled
    exact not_not.mp henabled

/-- A use is an admitted request for a session that was active within the last
24 hours. -/
theorem use_within {s s' : AuthState} {e : AuthEntry} {token : String} {checked renewed : Nat}
    (hstep : AuthStep B s e s') (huse : e.use? token = some (checked, renewed)) :
    ∃ last, s.sessions token = some last ∧ checked - last ≤ sessionTtl := by
  obtain ⟨event, enabled, ok⟩ := e
  obtain ⟨henabled, hserve⟩ := hstep
  cases event with
  | request cookie checked' renewed' =>
      rw [use?_request] at huse
      split at huse
      · rename_i hadmitted
        obtain ⟨hon, hok, htoken⟩ := hadmitted
        cases huse
        dsimp only at henabled hserve
        rw [AuthState.serve] at hserve
        rcases requireAuth_cases s cookie checked renewed with
          ⟨hoff, _⟩ | ⟨_, hnone, _⟩ | ⟨token', _, htoken', heq⟩
        · rw [hon, hoff] at henabled
          cases henabled
        · rw [hnone] at htoken
          cases htoken
        · rw [htoken] at htoken'
          cases htoken'
          rw [heq, hok] at hserve
          exact touch_authorized.mp (congrArg Prod.fst hserve).symm
      · cases huse
  | _ => cases huse

/-- The activity goes back to an accepted login and the uses since then. -/
theorem activity_issued {config : WebAuthConfig} {trace : List AuthEntry} {s : AuthState}
    (run : Steps (AuthStep B) (AuthState.new config) trace s) {token : String} {last : Nat}
    (hlast : activity trace token = some last) :
    ∃ now after, IssuedBefore trace token now after ∧ GapsWithin now (usesOf token after) ∧
      last = latest now (usesOf token after) := by
  induction run generalizing last with
  | done => cases hlast
  | @next t u trace e run hstep ih =>
      rw [activity_concat] at hlast
      rcases e.cases_token token with
        ⟨username, password, now, he⟩ | hout | ⟨checked, renewed, huse⟩ | hpasses
      · have henabled : e.enabled = true := by
          rw [he] at hstep
          rw [hstep.1]
          exact authLogin_accepted hstep.2.symm
        rw [henabled] at he
        subst he
        have hnow : some now = some last := by simpa [activityStep] using hlast
        cases hnow
        refine ⟨last, [], ⟨trace, username, password, rfl, fun e' he' => by cases he'⟩, ?_, rfl⟩
        trivial
      · obtain ⟨event, enabled, ok⟩ := e
        cases event with
        | logout cookie =>
            have hcleared : activityStep token (activity trace token)
                ⟨.logout cookie, enabled, ok⟩ = none := if_pos hout
            rw [hcleared] at hlast
            cases hlast
        | _ => exact hout.elim
      · obtain ⟨before, hbefore, hgap⟩ := use_within hstep huse
        have hactive : activity trace token = some before := by
          rcases tracks_run run token with hsame | ⟨hnone, _⟩
          · rw [← hsame, hbefore]
          · rw [hnone] at hbefore
            cases hbefore
        obtain ⟨now, after, hissued, hgaps, hlatest⟩ := ih hactive
        have hstays : ¬ e.logsOut token := by
          intro hout
          obtain ⟨event, enabled, ok⟩ := e
          cases event with
          | logout cookie => cases huse
          | _ => exact hout
        rw [activityStep_of_use huse] at hlast
        cases hlast
        refine ⟨now, after ++ [e], hissued.concat hstays, ?_, ?_⟩
        · rw [usesOf_concat, huse]
          exact (gapsWithin_concat _ _ _ _).mpr ⟨hgaps, hlatest ▸ hgap⟩
        · rw [usesOf_concat, huse, Option.toList_some, latest_concat]
      · rw [activityStep_of_passes hpasses] at hlast
        obtain ⟨now, after, hissued, hgaps, hlatest⟩ := ih hlast
        refine ⟨now, after ++ [e], hissued.concat hpasses.stays, ?_, ?_⟩
        · rw [usesOf_concat, hpasses.unused]
          simpa using hgaps
        · rw [usesOf_concat, hpasses.unused]
          simpa using hlatest

/-- While tokens are fresh, a session that was issued and is not logged out is
active. -/
theorem activity_of_issued {trace after : List AuthEntry} {token : String} {now : Nat}
    (hfresh : Fresh trace) (hissued : IssuedBefore trace token now after) :
    activity trace token = some (latest now (usesOf token after)) := by
  obtain ⟨before, username, password, rfl, hafter⟩ := hissued
  have hdrawn : ∀ e ∈ after, e.drawn? ≠ some token := by
    intro e he heq
    rw [Fresh, List.filterMap_append, List.filterMap_cons] at hfresh
    have htail := (List.nodup_append.mp hfresh).2.1
    exact (List.nodup_cons.mp htail).1 (List.mem_filterMap.mpr ⟨e, he, heq⟩)
  clear hfresh
  induction after using List.reverseRecOn with
  | nil =>
      rw [activity_concat]
      simp [activityStep, usesOf, latest]
  | append_singleton after e ih =>
      have hactive := ih (fun e' he' => hafter e' (List.mem_append_left _ he'))
        (fun e' he' => hdrawn e' (List.mem_append_left _ he'))
      have hlast : e ∈ after ++ [e] := List.mem_append_right _ List.mem_cons_self
      rw [← List.cons_append, ← List.append_assoc, activity_concat, hactive, usesOf_concat]
      rcases e.cases_token token with
        ⟨username', password', now', he⟩ | hout | ⟨checked, renewed, huse⟩ | hpasses
      · refine absurd ?_ (hdrawn e hlast)
        rw [he]
        rfl
      · exact absurd hout (hafter e hlast)
      · rw [activityStep_of_use huse, huse, Option.toList_some, latest_concat]
      · rw [activityStep_of_passes hpasses, hpasses.unused]
        simp

/-! ### Without the sweeps -/

theorem Clocked.before {trace : List AuthEntry} {e : AuthEntry} (h : Clocked (trace ++ [e])) :
    Clocked trace ∧ ∀ now ∈ readings trace, ∀ reading ∈ e.event.readings, now ≤ reading := by
  rw [Clocked, readings_concat] at h
  obtain ⟨htrace, _, hcross⟩ := List.pairwise_append.mp h
  exact ⟨htrace, hcross⟩

theorem Lags.remove_right {times : List Nat} {m m' : Sessions} (h : Lags times m m')
    {token : String} (hnone : m token = none) : Lags times m (m'.remove token) := by
  intro other
  rcases eq_or_ne other token with rfl | hne
  · exact Or.inl (by rw [hnone, remove_self])
  · rw [remove_of_ne hne]
    exact h other

/-- To touch both tables. -/
theorem Lags.touch_both {times : List Nat} {m m' : Sessions} (h : Lags times m m')
    {checked : Nat} (hnow : ∀ now ∈ times, now ≤ checked) (token : String) (renewed : Nat) :
    Lags (times ++ [checked, renewed]) (touch m token checked renewed).2
      (touch m' token checked renewed).2 := by
  have hsame := h.touch_fst hnow token renewed
  have hboth := (h.mono (List.subset_append_left times [checked, renewed])).touch_snd
    (List.mem_append_right _ List.mem_cons_self) token renewed
  rw [hsame] at hboth
  rcases touch_cases m' token checked renewed with
    ⟨last, _, _, heq⟩ | ⟨last, _, _, heq⟩ | ⟨_, heq⟩
  · rw [heq] at hboth ⊢
    exact hboth
  · rw [heq] at hboth hsame ⊢
    apply hboth.remove_right
    rcases touch_cases m token checked renewed with
      ⟨_, _, _, heq'⟩ | ⟨_, _, _, heq'⟩ | ⟨hnone, heq'⟩
    · rw [heq'] at hsame
      cases hsame
    · rw [heq']
      exact remove_self m token
    · rw [heq']
      exact hnone
  · rw [heq] at hboth ⊢
    exact hboth

/-- Two states that agree but for expired sessions serve a call alike, unless
it is a sweep. -/
theorem serve_lags {times : List Nat} {s s' : AuthState} (hconfig : s.config = s'.config)
    (h : Lags times s.sessions s'.sessions) {event : AuthEvent}
    (hnow : ∀ now ∈ times, ∀ reading ∈ event.readings, now ≤ reading)
    (hsweep : ∀ now, event ≠ .cleanup now) :
    (s.serve B event).1 = (s'.serve B event).1 ∧
      (s.serve B event).2.config = (s'.serve B event).2.config ∧
      Lags (times ++ event.readings) (s.serve B event).2.sessions
        (s'.serve B event).2.sessions := by
  have hmono : Lags (times ++ event.readings) s.sessions s'.sessions :=
    h.mono (List.subset_append_left _ _)
  cases event with
  | login username password token now =>
      simp only [AuthState.serve, AuthState.authLogin, hconfig]
      split
      · exact ⟨rfl, hconfig, hmono⟩
      · split
        · exact ⟨rfl, rfl, hmono.insert token now⟩
        · exact ⟨rfl, hconfig, hmono⟩
  | logout cookie => exact ⟨rfl, hconfig, hmono.foldl_remove _⟩
  | request cookie checked renewed =>
      rw [AuthState.serve, AuthState.serve]
      have hchecked : ∀ now ∈ times, now ≤ checked :=
        fun now hmem => hnow now hmem checked List.mem_cons_self
      rcases requireAuth_cases s cookie checked renewed with
        ⟨hoff, heq⟩ | ⟨hon, hnone, heq⟩ | ⟨token, hon, htoken, heq⟩
      · have heq' : s'.requireAuth cookie checked renewed = (true, s') := by
          rw [AuthState.requireAuth, ← hconfig, hoff]
          rfl
        rw [heq, heq']
        exact ⟨rfl, hconfig, hmono⟩
      · have heq' : s'.requireAuth cookie checked renewed = (false, s') := by
          rw [AuthState.requireAuth, ← hconfig, hon, hnone]
          rfl
        rw [heq, heq']
        exact ⟨rfl, hconfig, hmono⟩
      · have heq' : s'.requireAuth cookie checked renewed =
            ((touch s'.sessions token checked renewed).1,
              { s' with sessions := (touch s'.sessions token checked renewed).2 }) := by
          rw [AuthState.requireAuth, ← hconfig, hon, htoken]
          rfl
        rw [heq, heq']
        exact ⟨h.touch_fst hchecked token renewed, hconfig, h.touch_both hchecked token renewed⟩
  | cleanup now => exact absurd rfl (hsweep now)
  | store config => exact ⟨rfl, rfl, hmono⟩

/-- The run without its sweeps serves every other call as before. -/
theorem run_without_cleanup {config : WebAuthConfig} {trace : List AuthEntry} {s : AuthState}
    (run : Steps (AuthStep B) (AuthState.new config) trace s) (hclock : Clocked trace) :
    ∃ s', Steps (AuthStep B) (AuthState.new config) (trace.filter fun e => !e.isCleanup) s' ∧
      s.config = s'.config ∧ Lags (readings trace) s.sessions s'.sessions := by
  induction run with
  | done => exact ⟨_, .done _, rfl, Lags.refl _ _⟩
  | @next t u trace e run hstep ih =>
      obtain ⟨hbefore, hnow⟩ := hclock.before
      obtain ⟨t', run', hconfig, hlags⟩ := ih hbefore
      obtain ⟨henabled, hserve⟩ := hstep
      have hu : u = (t.serve B e.event).2 := congrArg Prod.snd hserve
      have hok : e.ok = (t.serve B e.event).1 := congrArg Prod.fst hserve
      rw [List.filter_append, readings_concat]
      by_cases hsweep : ∃ now, e.event = .cleanup now
      · obtain ⟨now, hevent⟩ := hsweep
        have hdropped : [e].filter (fun e => !e.isCleanup) = [] := by
          simp [AuthEntry.isCleanup, hevent]
        rw [hdropped, List.append_nil, hu, hevent]
        refine ⟨t', run', hconfig, ?_⟩
        apply (hlags.mono (List.subset_append_left _ _)).retain
        exact List.mem_append_right _ List.mem_cons_self
      · rw [not_exists] at hsweep
        have hkept : [e].filter (fun e => !e.isCleanup) = [e] := by
          apply List.filter_eq_self.mpr
          intro e' he'
          rw [List.mem_singleton.mp he', AuthEntry.isCleanup]
          split
          · rename_i now hevent
            exact absurd hevent (hsweep now)
          · rfl
        obtain ⟨hsame, hconfig', hlags'⟩ := serve_lags (B := B) hconfig hlags hnow hsweep
        rw [hkept, hu]
        refine ⟨_, run'.next ⟨?_, ?_⟩, hconfig', hlags'⟩
        · rw [henabled, hconfig]
        · rw [hok, hsame]

/-- With a monotone clock and fresh tokens a request is admitted, while
authentication is on, exactly when its session was issued, is not logged out
and was never idle for more than 24 hours. Without the sweeps the same calls
have the same outcomes. -/
theorem requireAuth_admits_iff {config : WebAuthConfig} {trace : List AuthEntry}
    {s s' : AuthState} {cookie : Option String} {checked renewed : Nat} {ok : Bool}
    (run : Steps (AuthStep B) (AuthState.new config) trace s)
    (hstep : AuthStep B s ⟨.request cookie checked renewed, true, ok⟩ s')
    (hclock : Clocked (trace ++ [⟨.request cookie checked renewed, true, ok⟩]))
    (hfresh : Fresh trace) :
    (ok = true ↔ ∃ token, extractCookie cookie sessionCookieName = some token ∧
      Admissible trace token checked renewed) ∧
    ∃ t t', Steps (AuthStep B) (AuthState.new config) (trace.filter fun e => !e.isCleanup) t ∧
      AuthStep B t ⟨.request cookie checked renewed, true, ok⟩ t' := by
  obtain ⟨hbefore, hnow⟩ := hclock.before
  obtain ⟨henabled, hserve⟩ := hstep
  have hok : ok = (s.requireAuth cookie checked renewed).1 := congrArg Prod.fst hserve
  constructor
  · rcases requireAuth_cases s cookie checked renewed with
      ⟨hoff, _⟩ | ⟨_, hnone, heq⟩ | ⟨token, _, htoken, heq⟩
    · rw [hoff] at henabled
      cases henabled
    · rw [hok, heq, hnone]
      simp
    · rw [hok, heq, htoken, touch_authorized]
      simp only [Option.some.injEq, exists_eq_left']
      constructor
      · rintro ⟨last, hlast, hgap⟩
        have hactive : activity trace token = some last := by
          rcases tracks_run run token with hsame | ⟨hnone, _⟩
          · rw [← hsame, hlast]
          · rw [hnone] at hlast
            cases hlast
        obtain ⟨now, after, ⟨before, username, password, htrace, hafter⟩, hgaps, hlatest⟩ :=
          activity_issued run hactive
        refine ⟨before, username, password, now, after, htrace, hafter, ?_⟩
        exact (gapsWithin_concat _ _ _ _).mpr ⟨hgaps, hlatest ▸ hgap⟩
      · rintro ⟨before, username, password, now, after, htrace, hafter, hgaps⟩
        have hgap := ((gapsWithin_concat _ _ _ _).mp hgaps).2
        have hactive := activity_of_issued hfresh ⟨before, username, password, htrace, hafter⟩
        rcases tracks_run run token with hsame | ⟨_, last, hlast, seen, hmem, hlong⟩
        · exact ⟨_, hsame.trans hactive, hgap⟩
        · -- an entry that was dropped is too old for every later request
          have hle := hnow seen hmem checked List.mem_cons_self
          rw [hactive] at hlast
          cases hlast
          omega
  · obtain ⟨t, run', hconfig, hlags⟩ := run_without_cleanup run hbefore
    obtain ⟨hsame, _, _⟩ := serve_lags (B := B) hconfig hlags hnow (fun now h => by cases h)
    refine ⟨t, (t.serve B (.request cookie checked renewed)).2, run', ?_, ?_⟩
    · rw [henabled, hconfig]
    · exact Prod.ext (hok.trans hsame) rfl

/-- A login, and a request with its token among other cookies. -/
theorem requireAuth_admits_after_login :
    ∃ token, extractCookie (some "theme=dark; relay_session=00ff") sessionCookieName = some token ∧
      Admissible [⟨.login "admin" "password" "00ff" 1000, true, true⟩] token 2000 2001 := by
  let start := AuthState.new lockedConfig.web.auth
  let signedIn := (start.serve openBcrypt (.login "admin" "password" "00ff" 1000)).2
  have run : Steps (AuthStep openBcrypt) start
      [⟨.login "admin" "password" "00ff" 1000, true, true⟩] signedIn := Steps.single ⟨rfl, rfl⟩
  have hstep : AuthStep openBcrypt signedIn
      ⟨.request (some "theme=dark; relay_session=00ff") 2000 2001, true, true⟩
      (signedIn.serve openBcrypt
        (.request (some "theme=dark; relay_session=00ff") 2000 2001)).2 :=
    ⟨rfl, Prod.ext (by decide) rfl⟩
  have hclock : Clocked [⟨.login "admin" "password" "00ff" 1000, true, true⟩,
      ⟨.request (some "theme=dark; relay_session=00ff") 2000 2001, true, true⟩] := by
    simp [Clocked, readings, AuthEvent.readings]
  have hfresh : Fresh [⟨.login "admin" "password" "00ff" 1000, true, true⟩] := by
    simp [Fresh, AuthEntry.drawn?]
  exact (requireAuth_admits_iff run hstep hclock hfresh).1.mp rfl

end Relay.Web
