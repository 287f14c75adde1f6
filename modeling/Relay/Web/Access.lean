import Relay.Web.Routes

/-!
Who changes what through the web panel. A run of requests is also a run of the
calls on the sessions, so that whatever is written comes from a request that a
login let through.
-/

namespace Relay.Web

open Binary Logic Relay.Runtime Text

variable (A : AxumCrate) (B : BcryptCrate) (files : StaticService) {K : Platform}

/-! ### The calls on the sessions -/

/-- The login or the logout that a handler makes. -/
def Endpoint.authEvent (a : Arrival) : Endpoint → Option AuthEvent
  | .authLogin =>
      match A.read a.payload LoginRequest.fromJson with
      | .ok request => some (.login request.username request.password a.token a.now)
      | .error _ => none
  | .authLogout => some (.logout a.cookie)
  | _ => none

/-- The check, the login or the logout that a request comes to. -/
def Arrival.authEvent (a : Arrival) : Option AuthEvent :=
  match A.target app a.method a.path with
  | .preflight | .staticService => none
  | .notAllowed authRequired =>
      if authRequired then some (.request a.cookie a.checked a.renewed) else none
  | .endpoint endpoint authRequired =>
      if authRequired then some (.request a.cookie a.checked a.renewed) else endpoint.authEvent A a

/-- A phase may store a login. -/
def Serving.authEvent (s : Serving K) : ServingEvent → Option AuthEvent
  | .receive a => a.authEvent A
  | .advance i => some (.store (s.serve A B files (.advance i)).2.auth.config)
  | .drop _ => none

/-- What is served, with the call on the sessions that it comes to. -/
structure ServingEntry where
  event : ServingEvent
  auth : Option AuthEntry

def ServingStep (s : Serving K) (e : ServingEntry) (s' : Serving K) : Prop :=
  e.auth = (s.authEvent A B files e.event).map
      (fun event => ⟨event, isEnabled s.auth.config, (s.auth.serve B event).1⟩) ∧
    s' = (s.serve A B files e.event).2

def authTrace (trace : List ServingEntry) : List AuthEntry := trace.filterMap ServingEntry.auth

def AuthState.after (s : AuthState) (event : Option AuthEvent) : AuthState :=
  match event with
  | some event => (s.serve B event).2
  | none => s

/-! ### Routes -/

/-- Only routes without the middleware log in and out. -/
theorem authRequired_app : ∀ route ∈ app, route.authRequired = true →
    route.endpoint ≠ .authLogin ∧ route.endpoint ≠ .authLogout := by
  decide

/-- What writes settings stands behind the middleware. -/
theorem authRequired_of_writes : ∀ route ∈ app,
    route.endpoint = .putConfig ∨ route.endpoint = .authChangePassword →
      route.authRequired = true := by
  decide

/-- PUT on the configuration, or POST on the password. -/
def Arrival.Writes (a : Arrival) : Prop :=
  (a.method = .put ∧ a.path = "/api/config") ∨ (a.method = .post ∧ a.path = "/api/password")

theorem writes_of_target {a : Arrival} {endpoint : Endpoint} {authRequired : Bool}
    (h : A.target app a.method a.path = .endpoint endpoint authRequired) :
    (endpoint = .putConfig → (a.method = .put ∧ a.path = "/api/config") ∧ authRequired = true) ∧
      (endpoint = .authChangePassword →
        (a.method = .post ∧ a.path = "/api/password") ∧ authRequired = true) := by
  obtain ⟨route, happ, hpath, htakes, rfl, rfl⟩ := A.route_of_target h
  have hroutes : ∀ route ∈ app, (route.endpoint = .putConfig →
      route.method = .put ∧ route.path = "/api/config") ∧ (route.endpoint = .authChangePassword →
        route.method = .post ∧ route.path = "/api/password") := by
    decide
  have htaken : ∀ method, route.method = method → method ≠ .get → a.method = method := by
    intro method hmethod hget
    unfold ApiRoute.takes at htakes
    rw [hmethod] at htakes
    simpa [hget, eq_comm] using htakes
  constructor
  · intro hput
    obtain ⟨hmethod, hconfig⟩ := (hroutes route happ).1 hput
    exact ⟨⟨htaken .put hmethod (by simp), hpath ▸ hconfig⟩,
      authRequired_of_writes route happ (Or.inl hput)⟩
  · intro hpost
    obtain ⟨hmethod, hpassword⟩ := (hroutes route happ).2 hpost
    exact ⟨⟨htaken .post hmethod (by simp), hpath ▸ hpassword⟩,
      authRequired_of_writes route happ (Or.inr hpost)⟩

/-- What a handler hands over to its phases. -/
def Work.begins : Work K → Option Endpoint
  | .putConfig _ => some .putConfig
  | .changePassword _ => some .authChangePassword
  | _ => none

/-- The request that this work is the beginning of. -/
def Work.AskedBy (a : Arrival) : Work K → Prop
  | .putConfig _ => a.method = .put ∧ a.path = "/api/config"
  | .changePassword _ => a.method = .post ∧ a.path = "/api/password"
  | _ => False

theorem Work.AskedBy.writes {a : Arrival} {work : Work K} (h : work.AskedBy a) : a.Writes := by
  cases work with
  | putConfig body => exact Or.inl h
  | changePassword c => exact Or.inr h
  | _ => exact h.elim

theorem askedBy_of_target {a : Arrival} {work : Work K} {endpoint : Endpoint} {authRequired : Bool}
    (h : A.target app a.method a.path = .endpoint endpoint authRequired)
    (hbegins : work.begins = some endpoint) : work.AskedBy a ∧ authRequired = true := by
  cases work with
  | putConfig body => exact (writes_of_target A h).1 (Option.some.inj hbegins).symm
  | changePassword c => exact (writes_of_target A h).2 (Option.some.inj hbegins).symm
  | _ => cases hbegins

/-! ### One step -/

section Step

variable {A B files} {s : Serving K} {a : Arrival}

theorem serve_config {auth : AuthState} {event : AuthEvent}
    (h : ∀ config, event ≠ .store config) : (auth.serve B event).2.config = auth.config := by
  cases event with
  | login username password token now =>
      simp only [AuthState.serve, AuthState.authLogin]
      split
      · rfl
      · split <;> rfl
  | logout cookie => rfl
  | request cookie checked renewed =>
      rcases requireAuth_cases auth cookie checked renewed with
        ⟨_, heq⟩ | ⟨_, _, heq⟩ | ⟨_, _, _, heq⟩ <;> rw [AuthState.serve, heq]
  | cleanup now => rfl
  | store config => exact absurd rfl (h config)

/-- A handler changes of the sessions what its call on them changes, and of the
rest only which requests are writing. -/
theorem handle_cases (endpoint : Endpoint) :
    (Serving.handle A B s a endpoint).2.auth = s.auth.after B (endpoint.authEvent A a) ∧
      (Serving.handle A B s a endpoint).2.runtime = s.runtime ∧
        ((Serving.handle A B s a endpoint).2.working = s.working ∨
          ∃ work : Work K, work.begins = some endpoint ∧
            (Serving.handle A B s a endpoint).2.working = s.working ++ [(a, work)]) := by
  cases endpoint with
  | authLogin =>
      unfold Serving.handle Endpoint.authEvent
      cases A.read a.payload LoginRequest.fromJson with
      | ok request => exact ⟨rfl, rfl, Or.inl rfl⟩
      | error response => exact ⟨rfl, rfl, Or.inl rfl⟩
  | authChangePassword =>
      unfold Serving.handle
      cases A.read a.payload ChangePasswordRequest.fromJson with
      | ok request => exact ⟨rfl, rfl, Or.inr ⟨_, rfl, rfl⟩⟩
      | error response => exact ⟨rfl, rfl, Or.inl rfl⟩
  | putConfig =>
      unfold Serving.handle
      cases A.read a.payload some with
      | ok body => exact ⟨rfl, rfl, Or.inr ⟨_, rfl, rfl⟩⟩
      | error response => exact ⟨rfl, rfl, Or.inl rfl⟩
  | _ => exact ⟨rfl, rfl, Or.inl rfl⟩

/-- The check that lets a writing request through. -/
def Arrival.checkEvent (a : Arrival) : AuthEvent := .request a.cookie a.checked a.renewed

variable (A B files s a) in
/-- A request that arrives leaves the settings alone. It is among those that
are writing only if it was let through. -/
theorem receive_cases :
    (s.receive A B files a).2.auth = s.auth.after B (a.authEvent A) ∧
      (s.receive A B files a).2.runtime = s.runtime ∧
        ((s.receive A B files a).2.working = s.working ∨
          a.authEvent A = some a.checkEvent ∧ (s.auth.serve B a.checkEvent).1 = true ∧
            ∃ work : Work K, work.AskedBy a ∧
              (s.receive A B files a).2.working = s.working ++ [(a, work)]) := by
  unfold Serving.receive Arrival.authEvent
  cases htarget : A.target app a.method a.path with
  | preflight => exact ⟨rfl, rfl, Or.inl rfl⟩
  | staticService => exact ⟨rfl, rfl, Or.inl rfl⟩
  | notAllowed authRequired =>
      dsimp only
      have hlet : (s.letThrough a authRequired).2 =
          s.auth.after B (if authRequired then some a.checkEvent else none) := by
        cases authRequired <;> rfl
      rcases hresult : s.letThrough a authRequired with ⟨_ | _, auth⟩ <;> rw [hresult] at hlet <;>
        exact ⟨hlet, rfl, Or.inl rfl⟩
  | endpoint endpoint authRequired =>
      dsimp only
      cases authRequired with
      | false =>
          obtain ⟨hauth, hruntime, hworking⟩ := handle_cases (B := B) (s := s) (a := a) endpoint
          refine ⟨hauth, hruntime, ?_⟩
          rcases hworking with hsame | ⟨work, hbegins, _⟩
          · exact Or.inl hsame
          · cases (askedBy_of_target A htarget hbegins).2
      | true =>
          obtain ⟨route, happ, _, _, rfl, hrequired⟩ := A.route_of_target htarget
          obtain ⟨hlogin, hlogout⟩ := authRequired_app route happ hrequired
          have hnone : route.endpoint.authEvent A a = none := by
            cases hendpoint : route.endpoint with
            | authLogin => exact absurd hendpoint hlogin
            | authLogout => exact absurd hendpoint hlogout
            | _ => rfl
          rcases hresult : s.auth.serve B a.checkEvent with ⟨_ | _, auth⟩
          · have hlet : s.letThrough a true = (false, auth) := hresult
            rw [hlet]
            exact ⟨congrArg Prod.snd hresult.symm, rfl, Or.inl rfl⟩
          · have hlet : s.letThrough a true = (true, auth) := hresult
            rw [hlet]
            obtain ⟨hauth, hruntime, hworking⟩ :=
              handle_cases (B := B) (s := { s with auth := auth }) (a := a) route.endpoint
            rw [hnone] at hauth
            refine ⟨hauth.trans (congrArg Prod.snd hresult.symm), hruntime, ?_⟩
            rcases hworking with hsame | ⟨work, hbegins, hmore⟩
            · exact Or.inl hsame
            · exact Or.inr ⟨rfl, rfl, work, (askedBy_of_target A htarget hbegins).1, hmore⟩

theorem authEvent_ne_store {config : WebAuthConfig} : a.authEvent A ≠ some (.store config) := by
  unfold Arrival.authEvent
  cases A.target app a.method a.path with
  | preflight => simp
  | staticService => simp
  | notAllowed authRequired => cases authRequired <;> simp
  | endpoint endpoint authRequired =>
      cases authRequired with
      | true => simp
      | false =>
          unfold Endpoint.authEvent
          cases endpoint with
          | authLogin => cases A.read a.payload LoginRequest.fromJson <;> simp
          | _ => simp

/-- The login is what it was. -/
theorem receive_config : (s.receive A B files a).2.auth.config = s.auth.config := by
  rw [(receive_cases A B files s a).1]
  cases hevent : a.authEvent A with
  | none => rfl
  | some event => exact serve_config fun config hstore => authEvent_ne_store (hstore ▸ hevent)

variable (A B files s) in
/-- A phase stores in the settings and the login, and no request is new
after it. -/
theorem advance_cases (i : Nat) :
    ((s.serve A B files (.advance i)).2.auth.sessions = s.auth.sessions) ∧
      (s.working[i]? = none ∧ (s.serve A B files (.advance i)).2 = s ∨
        ∃ entry, s.working[i]? = some entry) ∧
      ∀ entry ∈ (s.serve A B files (.advance i)).2.working,
        ∃ work, (entry.1, work) ∈ s.working := by
  have hkept : ∀ entry ∈ s.working, ∃ work, (entry.1, work) ∈ s.working :=
    fun entry hentry => ⟨entry.2, hentry⟩
  unfold Serving.serve
  dsimp only
  cases hat : s.working[i]? with
  | none => exact ⟨rfl, Or.inl ⟨rfl, rfl⟩, hkept⟩
  | some entry =>
      obtain ⟨a, work⟩ := entry
      dsimp only
      rcases work.advance B a.env ⟨s.runtime, s.auth.config⟩ with ⟨work' | response | _, p⟩
      · refine ⟨rfl, Or.inr ⟨_, rfl⟩, ?_⟩
        intro entry hentry
        rcases List.mem_or_eq_of_mem_set hentry with hold | rfl
        · exact hkept entry hold
        · exact ⟨work, List.mem_of_getElem? hat⟩
      · exact ⟨rfl, Or.inr ⟨_, rfl⟩, fun entry hentry => hkept entry (List.mem_of_mem_eraseIdx hentry)⟩
      · exact ⟨rfl, Or.inr ⟨_, rfl⟩, fun entry hentry => hkept entry (List.mem_of_mem_eraseIdx hentry)⟩

/-- Every step is the one call on the sessions. -/
theorem serve_auth (event : ServingEvent) :
    (s.serve A B files event).2.auth = s.auth.after B (s.authEvent A B files event) := by
  cases event with
  | receive a => exact (receive_cases A B files s a).1
  | advance i =>
      have hsessions := (advance_cases A B files s i).1
      exact congrArg (AuthState.mk (s.serve A B files (.advance i)).2.auth.config) hsessions
  | drop i => rfl

end Step

section Runs

variable {A B files} {runtime : Handle K} {config : WebAuthConfig} {trace : List ServingEntry}
  {s s' : Serving K}

theorem authTrace_append (trace : List ServingEntry) (e : ServingEntry) :
    authTrace (trace ++ [e]) = authTrace trace ++ e.auth.toList := by
  unfold authTrace
  rw [List.filterMap_append]
  cases hauth : e.auth <;> simp [hauth]

/-- A run of the panel is a run of the calls on its sessions. -/
theorem authSteps_of_run (run : Steps (ServingStep A B files) (.begin runtime config) trace s) :
    Steps (AuthStep B) (AuthState.new config) (authTrace trace) s.auth := by
  generalize hstart : Serving.begin runtime config = start at run
  induction run with
  | done =>
      subst hstart
      exact .done _
  | @next t u trace e run hstep ih =>
      obtain ⟨hauth, rfl⟩ := hstep
      rw [authTrace_append, serve_auth, hauth]
      cases t.authEvent A B files e.event with
      | none => simpa [AuthState.after] using ih
      | some event => exact ih.next ⟨rfl, rfl⟩

/-- The session of the request's cookie was issued by a login, was in use and
is not logged out. -/
def Arrival.SignedIn (a : Arrival) (before : List AuthEntry) : Prop :=
  ∃ token, extractCookie a.cookie sessionCookieName = some token ∧
    Admissible before token a.checked a.renewed

/-- A check that passes finds authentication off, or a session. -/
theorem signedIn_of_check {a : Arrival}
    (run : Steps (ServingStep A B files) (.begin runtime config) trace s)
    (hpassed : (s.auth.serve B a.checkEvent).1 = true) :
    isEnabled s.auth.config = false ∨ a.SignedIn (authTrace trace) := by
  have hsessions := authSteps_of_run run
  rw [Arrival.checkEvent, AuthState.serve] at hpassed
  rcases requireAuth_cases s.auth a.cookie a.checked a.renewed with
    ⟨hoff, _⟩ | ⟨_, _, heq⟩ | ⟨token, _, htoken, heq⟩
  · exact Or.inl hoff
  · rw [heq] at hpassed
    cases hpassed
  · right
    rw [heq, touch_authorized] at hpassed
    obtain ⟨last, hlast, hgap⟩ := hpassed
    have hactive : activity (authTrace trace) token = some last := by
      rcases tracks_run hsessions token with hsame | ⟨hnone, _⟩
      · rw [← hsame, hlast]
      · rw [hnone] at hlast
        cases hlast
    obtain ⟨now, after, ⟨before, username, password, htrace, hafter⟩, hgaps, hlatest⟩ :=
      activity_issued hsessions hactive
    refine ⟨token, htoken, before, username, password, now, after, htrace, hafter, ?_⟩
    exact (gapsWithin_concat _ _ _ _).mpr ⟨hgaps, hlatest ▸ hgap⟩

/-- The middleware let the request through, with authentication off or a session. -/
def LetThrough (trace : List ServingEntry) (a : Arrival) : Prop :=
  a.Writes ∧ ∃ earlier auth later, trace = earlier ++ ⟨.receive a, some auth⟩ :: later ∧
    auth.ok = true ∧ (auth.enabled = false ∨ a.SignedIn (authTrace earlier))

/-- Somebody with a session has asked to write settings. -/
def AskedBySession (trace : List ServingEntry) : Prop :=
  ∃ earlier a auth later, trace = earlier ++ ⟨.receive a, auth⟩ :: later ∧ a.Writes ∧
    a.SignedIn (authTrace earlier)

theorem LetThrough.append {a : Arrival} (h : LetThrough trace a) (e : ServingEntry) :
    LetThrough (trace ++ [e]) a := by
  obtain ⟨hwrites, earlier, auth, later, rfl, hok⟩ := h
  exact ⟨hwrites, earlier, auth, later ++ [e], by simp, hok⟩

theorem AskedBySession.append (h : AskedBySession trace) (e : ServingEntry) :
    AskedBySession (trace ++ [e]) := by
  obtain ⟨earlier, a, auth, later, rfl, hrest⟩ := h
  exact ⟨earlier, a, auth, later ++ [e], by simp, hrest⟩

/-- The settings or the login are not those of the start. -/
def Serving.Changed (s : Serving K) (runtime : Handle K) (config : WebAuthConfig) : Prop :=
  s.runtime ≠ runtime ∨ s.auth.config ≠ config

/-- The requests that are writing were let through, and with authentication on
from the start there was a session before anything changed. -/
structure Accounted (runtime : Handle K) (config : WebAuthConfig) (trace : List ServingEntry)
    (s : Serving K) : Prop where
  letThrough : ∀ entry ∈ s.working, LetThrough trace entry.1
  writing : config.enable = true → s.working ≠ [] → AskedBySession trace
  changed : config.enable = true → s.Changed runtime config → AskedBySession trace

theorem Accounted.begin (runtime : Handle K) (config : WebAuthConfig) :
    Accounted runtime config [] (.begin runtime config) where
  letThrough _ h := absurd h List.not_mem_nil
  writing _ h := absurd rfl h
  changed _ h := h.elim (absurd rfl) (absurd rfl)

/-- A request that arrives may start to write; with authentication on it is
somebody's with a session, or follows such a one. -/
theorem Accounted.receive {a : Arrival} {auth : Option AuthEntry}
    (h : Accounted runtime config trace s)
    (run : Steps (ServingStep A B files) (.begin runtime config) trace s)
    (hstep : ServingStep A B files s ⟨.receive a, auth⟩ s') :
    Accounted runtime config (trace ++ [⟨.receive a, auth⟩]) s' := by
  obtain ⟨hauth, rfl⟩ := hstep
  change auth = (a.authEvent A).map _ at hauth
  change Accounted runtime config _ (s.receive A B files a).2
  obtain ⟨_, hruntime, hworking⟩ := receive_cases A B files s a
  have hchanged : config.enable = true → (s.receive A B files a).2.Changed runtime config →
      AskedBySession (trace ++ [⟨.receive a, auth⟩]) := by
    unfold Serving.Changed
    rw [hruntime, receive_config]
    exact fun hon hchange => (h.changed hon hchange).append _
  rcases hworking with hsame | ⟨hcheck, hpassed, work, hasked, hmore⟩
  · refine ⟨?_, ?_, hchanged⟩
    · rw [hsame]
      exact fun entry hentry => (h.letThrough entry hentry).append _
    · rw [hsame]
      exact fun hon hbusy => (h.writing hon hbusy).append _
  · rw [hcheck] at hauth
    have hsigned := signedIn_of_check run hpassed
    refine ⟨?_, ?_, hchanged⟩
    · intro entry hentry
      rw [hmore] at hentry
      rcases List.mem_append.mp hentry with hold | hnew
      · exact (h.letThrough entry hold).append _
      · rw [List.mem_singleton.mp hnew]
        exact ⟨hasked.writes, trace, _, [], by rw [hauth]; rfl, hpassed, hsigned⟩
    · intro hon _
      rcases hsigned with hoff | hsession
      · have hother : s.auth.config ≠ config := by
          rintro rfl
          rw [isEnabled, hon] at hoff
          cases hoff
        exact (h.changed hon (Or.inr hother)).append _
      · exact ⟨trace, a, auth, [], rfl, hasked.writes, hsession⟩

/-- The phases of a request change things only while there is one. -/
theorem Accounted.advance {i : Nat} {auth : Option AuthEntry}
    (h : Accounted runtime config trace s)
    (hstep : ServingStep A B files s ⟨.advance i, auth⟩ s') :
    Accounted runtime config (trace ++ [⟨.advance i, auth⟩]) s' := by
  obtain ⟨_, rfl⟩ := hstep
  obtain ⟨_, hbusy, hkept⟩ := advance_cases A B files s i
  have hasked : config.enable = true → s.working ≠ [] →
      AskedBySession (trace ++ [⟨.advance i, auth⟩]) :=
    fun hon hbusy => (h.writing hon hbusy).append _
  refine ⟨?_, ?_, ?_⟩
  · intro entry hentry
    obtain ⟨work, hold⟩ := hkept entry hentry
    exact (h.letThrough _ hold).append _
  · intro hon hne
    obtain ⟨entry, hentry⟩ := List.exists_mem_of_ne_nil _ hne
    obtain ⟨work, hold⟩ := hkept entry hentry
    exact hasked hon (List.ne_nil_of_mem hold)
  · intro hon hchange
    rcases hbusy with ⟨_, hsame⟩ | ⟨entry, hat⟩
    · rw [hsame] at hchange
      exact (h.changed hon hchange).append _
    · exact hasked hon (List.ne_nil_of_mem (List.mem_of_getElem? hat))

theorem Accounted.drop {i : Nat} {auth : Option AuthEntry} (h : Accounted runtime config trace s) :
    Accounted runtime config (trace ++ [⟨.drop i, auth⟩])
      { s with working := s.working.eraseIdx i } where
  letThrough entry hentry := (h.letThrough entry (List.mem_of_mem_eraseIdx hentry)).append _
  writing hon hne := by
    obtain ⟨entry, hentry⟩ := List.exists_mem_of_ne_nil _ hne
    exact (h.writing hon (List.ne_nil_of_mem (List.mem_of_mem_eraseIdx hentry))).append _
  changed hon hchange := (h.changed hon hchange).append _

theorem accounted_run (run : Steps (ServingStep A B files) (.begin runtime config) trace s) :
    Accounted runtime config trace s := by
  generalize hstart : Serving.begin runtime config = start at run
  induction run with
  | done =>
      subst hstart
      exact .begin runtime config
  | @next t u trace e run hstep ih =>
      subst hstart
      obtain ⟨event, auth⟩ := e
      cases event with
      | receive a => exact ih.receive run hstep
      | advance i => exact ih.advance hstep
      | drop i =>
          rw [hstep.2]
          exact ih.drop

/-- Whatever the panel is asked, and however the requests overlap: a change of
the settings or the login is a phase of a request that the middleware let
through, and with authentication on at the start nothing changes before somebody
with a session has asked for it. -/
theorem changes_need_session
    (run : Steps (ServingStep A B files) (.begin runtime config) trace s) :
    (∀ e s', ServingStep A B files s e s' → s'.Changed s.runtime s.auth.config →
      ∃ i a work, e.event = .advance i ∧ s.working[i]? = some (a, work) ∧ LetThrough trace a) ∧
    (config.enable = true → s.Changed runtime config → AskedBySession trace) := by
  have haccounted := accounted_run run
  refine ⟨?_, haccounted.changed⟩
  rintro ⟨event, auth⟩ s' ⟨_, rfl⟩ hchange
  cases event with
  | receive a =>
      have hruntime := (receive_cases A B files s a).2.1
      exact hchange.elim (absurd hruntime) (absurd receive_config)
  | advance i =>
      rcases (advance_cases A B files s i).2.1 with
        ⟨_, hsame⟩ | ⟨⟨a, work⟩, hat⟩
      · rw [hsame] at hchange
        exact hchange.elim (absurd rfl) (absurd rfl)
      · exact ⟨i, a, work, rfl, hat, haccounted.letThrough _ (List.mem_of_getElem? hat)⟩
  | drop i => exact hchange.elim (absurd rfl) (absurd rfl)

end Runs

/-! ### A login and a new password -/

/-- The first route for the path and the method, as `axum` finds it. -/
def axumTarget (routes : List ApiRoute) (method : Method) (path : String) : Target :=
  match routes.filter fun route => route.path = path with
  | [] => .staticService
  | route :: routes =>
      if route.cors && decide (method = .options) then .preflight
      else
        match (route :: routes).find? fun route => route.takes method with
        | some route => .endpoint route.endpoint route.authRequired
        | none => .notAllowed route.authRequired

theorem route_of_axumTarget {routes : List ApiRoute} {method : Method} {path : String}
    {endpoint : Endpoint} {authRequired : Bool}
    (h : axumTarget routes method path = .endpoint endpoint authRequired) :
    ∃ route ∈ routes, route.path = path ∧ route.takes method = true ∧ route.endpoint = endpoint ∧
      route.authRequired = authRequired := by
  unfold axumTarget at h
  split at h
  · cases h
  · rename_i first rest hroutes
    split at h
    · cases h
    · split at h
      · rename_i route hfind
        cases h
        have hmem : route ∈ routes.filter fun route => route.path = path := by
          rw [hroutes]
          exact List.mem_of_find?_eq_some hfind
        obtain ⟨hroute, hpath⟩ := List.mem_filter.mp hmem
        exact ⟨route, hroute, by simpa using hpath, by simpa using List.find?_some hfind, rfl, rfl⟩
      · cases h

theorem axumTarget_fallback {routes : List ApiRoute} (method : Method) {path : String}
    (h : ∀ route ∈ routes, route.path ≠ path) : axumTarget routes method path = .staticService := by
  have hnone : (routes.filter fun route => route.path = path) = [] := by
    simpa using h
  unfold axumTarget
  rw [hnone]

def axumRouting : AxumCrate where
  target := axumTarget
  rejection
    | .dataError =>
        plainResponse 422 "Failed to deserialize the JSON body into the target type"
    | .syntaxError => plainResponse 400 "Failed to parse the request body as JSON"
    | .missingContentType =>
        plainResponse 415 "Expected request with `Content-Type: application/json`"
  route_of_target := route_of_axumTarget
  target_fallback := axumTarget_fallback

def lockedRuntime : Handle smallPlatform :=
  (start quietEnv "/" lockedConfig none).toOption.get rfl

def noFiles : StaticService := { embedded := [] }

def loginArrival : Arrival where
  method := .post
  path := "/api/auth/login"
  cookie := none
  payload := .json (.object [("password", .string "password"), ("username", .string "admin")])
  checked := 900
  renewed := 900
  token := "00ff"
  now := 1000
  salt := 0
  env := quietEnv

def passwordArrival : Arrival where
  method := .post
  path := "/api/password"
  cookie := some "theme=dark; relay_session=00ff"
  payload := .json (.object [("new_password", .string "passphrase"),
    ("old_password", .string "password")])
  checked := 2000
  renewed := 2001
  token := "0100"
  now := 2001
  salt := 0
  env := quietEnv

def passwordTrace : List ServingEntry :=
  [⟨.receive loginArrival, some ⟨.login "admin" "password" "00ff" 1000, true, true⟩⟩,
    ⟨.receive passwordArrival,
      some ⟨.request (some "theme=dark; relay_session=00ff") 2000 2001, true, true⟩⟩,
    ⟨.advance 0, some ⟨.store lockedConfig.web.auth, true, true⟩⟩,
    ⟨.advance 0, some ⟨.store { lockedConfig.web.auth with passwordHash := "$2b$10$passphrase" },
      true, true⟩⟩]

/-- A session with the old password sets a new one. -/
theorem changes_need_session_for_password :
    ∃ s : Serving smallPlatform,
      Steps (ServingStep axumRouting openBcrypt noFiles)
        (.begin lockedRuntime lockedConfig.web.auth) passwordTrace s ∧
      s.auth.config.passwordHash = "$2b$10$passphrase" ∧ AskedBySession passwordTrace := by
  let last : Serving smallPlatform := passwordTrace.foldl
    (fun s e => (s.serve axumRouting openBcrypt noFiles e.event).2)
    (.begin lockedRuntime lockedConfig.web.auth)
  have run : Steps (ServingStep axumRouting openBcrypt noFiles)
      (.begin lockedRuntime lockedConfig.web.auth) passwordTrace last :=
    ((((Steps.done _).next ⟨rfl, rfl⟩).next ⟨rfl, rfl⟩).next ⟨rfl, rfl⟩).next ⟨rfl, rfl⟩
  have hnew : last.auth.config.passwordHash = "$2b$10$passphrase" := rfl
  refine ⟨_, run, hnew, (changes_need_session run).2 rfl (Or.inr ?_)⟩
  intro hsame
  have hhash := congrArg WebAuthConfig.passwordHash hsame
  rw [hnew] at hhash
  exact absurd hhash (by decide)

end Relay.Web
