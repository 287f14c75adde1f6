import Relay.Web.Access

/-!
The calls of the panel's own pages, from `api.js`, on the routes that there are.
-/

namespace Relay.Web

open Binary Logic Relay.Runtime Text

/-- `api`. -/
inductive PanelCall where
  | login (username password : String)
  | logout
  | changePassword (oldPassword newPassword : String)
  | getConfig
  | putConfig (config : JsonValue)
  | dashboard
  | stats
  | upstreams
  | rules
  | clients
  | querylog

def PanelCall.path : PanelCall → String
  | .login _ _ => "/api/auth/login"
  | .logout => "/api/auth/logout"
  | .changePassword _ _ => "/api/auth/password"
  | .getConfig | .putConfig _ => "/api/config"
  | .dashboard => "/api/dashboard"
  | .stats => "/api/stats"
  | .upstreams => "/api/upstreams"
  | .rules => "/api/rules"
  | .clients => "/api/clients"
  | .querylog => "/api/querylog"

def PanelCall.method : PanelCall → Method
  | .login _ _ | .logout | .changePassword _ _ => .post
  | .putConfig _ => .put
  | _ => .get

/-- The body, under `Content-Type: application/json`. -/
def PanelCall.payload : PanelCall → Payload
  | .login username password =>
      .json (.object [("password", .string password), ("username", .string username)])
  | .changePassword oldPassword newPassword =>
      .json (.object [("new_password", .string newPassword), ("old_password", .string oldPassword)])
  | .putConfig config => .json config
  | _ => .malformed

/-- A request of the call, whenever and with whatever cookies it is sent. -/
def PanelCall.Sends (call : PanelCall) (a : Arrival) : Prop :=
  a.method = call.method ∧ a.path = call.path ∧ a.payload = call.payload

/-- What `request` throws. -/
inductive PanelError where
  | auth
  | api (status : Nat)
  deriving DecidableEq, Repr

/-- `request`, from the response on: what the call returns. -/
def panelRequest (response : Response) : Except PanelError ResponseBody :=
  if response.status = 401 then .error .auth
  else if 200 ≤ response.status ∧ response.status < 300 then .ok response.body
  else .error (.api response.status)

variable {A : AxumCrate} {B : BcryptCrate} {files : StaticService} {K : Platform}

/-! ### The phases of a configuration -/

/-- A phase stores the configuration that is applied, or none. -/
theorem phase_config {env : Env} {phase : ApplyPhase K} (h : phase ∈ phases env) (l : Locals K)
    (s : Handle K) :
    ((phase l s).2.config = s.config ∨ (phase l s).2.config = l.new) ∧
      ∀ l', (phase l s).1 = .ok l' → l'.new = l.new := by
  simp only [phases, List.mem_cons, List.not_mem_nil, or_false] at h
  rcases h with rfl | rfl | rfl | rfl | rfl | rfl | rfl | rfl | rfl | rfl | rfl
  · unfold storeHosts
    split <;> exact ⟨Or.inl rfl, by rintro _ ⟨⟩; rfl⟩
  · unfold buildRouter
    split
    · split
      · exact ⟨Or.inl rfl, by rintro _ ⟨⟩; rfl⟩
      · exact ⟨Or.inl rfl, by rintro _ ⟨⟩⟩
    · exact ⟨Or.inl rfl, by rintro _ ⟨⟩; rfl⟩
  · unfold storeRouter
    split <;> exact ⟨Or.inl rfl, by rintro _ ⟨⟩; rfl⟩
  · unfold loadRouter
    split <;> exact ⟨Or.inl rfl, by rintro _ ⟨⟩; rfl⟩
  · unfold rebindListener
    split
    · split
      · exact ⟨Or.inl rfl, by rintro _ ⟨⟩; rfl⟩
      · exact ⟨Or.inl rfl, by rintro _ ⟨⟩⟩
    · exact ⟨Or.inl rfl, by rintro _ ⟨⟩; rfl⟩
  · unfold reapplyFirewall
    split
    · split
      · exact ⟨Or.inl rfl, by rintro _ ⟨⟩; rfl⟩
      · exact ⟨Or.inl rfl, by rintro _ ⟨⟩⟩
    · exact ⟨Or.inl rfl, by rintro _ ⟨⟩; rfl⟩
  · unfold loadHosts
    split <;> exact ⟨Or.inl rfl, by rintro _ ⟨⟩; rfl⟩
  · unfold restartDhcp
    split <;> exact ⟨Or.inl rfl, by rintro _ ⟨⟩; rfl⟩
  · have hsame : (startSave env l.new s).2.config = s.config := by
      unfold startSave
      split <;> rfl
    unfold openFile
    rcases hopened : startSave env l.new s with ⟨_ | _, s'⟩
    · exact ⟨Or.inl (by rw [← hsame, hopened]), by rintro _ ⟨⟩⟩
    · exact ⟨Or.inl (by rw [← hsame, hopened]), by rintro _ ⟨⟩; rfl⟩
  · have hsame : (finishSave env l.new s).2.config = s.config := by
      unfold finishSave
      dsimp only
      split <;> rfl
    unfold writeText
    rcases hwritten : finishSave env l.new s with ⟨_ | _, s'⟩
    · exact ⟨Or.inl (by rw [← hsame, hwritten]), by rintro _ ⟨⟩⟩
    · exact ⟨Or.inl (by rw [← hsame, hwritten]), by rintro _ ⟨⟩; rfl⟩
  · exact ⟨Or.inr rfl, by rintro _ ⟨⟩; rfl⟩

/-! ### The login -/

/-- The login of a configuration is the one given. -/
def SameLogin (config : Config) (auth : WebAuthConfig) : Prop :=
  config.web.auth.username = auth.username ∧ config.web.auth.passwordHash = auth.passwordHash

/-- A configuration is applied, and its login is the one given. -/
def Work.KeepsLogin (auth : WebAuthConfig) (env : Env) : Work K → Prop
  | .putConfig _ | .apply _ => True
  | .applying l rest => SameLogin l.new auth ∧ ∀ phase ∈ rest, phase ∈ phases env
  | .changePassword _ | .storing _ _ => False

/-- The panel has the login it started with, and so has all that is written. -/
structure Serving.KeepsLogin (s : Serving K) (start auth : WebAuthConfig) : Prop where
  config : s.auth.config = start
  runtime : SameLogin s.runtime.config auth
  working : ∀ entry ∈ s.working, entry.2.KeepsLogin auth entry.1.env

/-- A phase of a configuration leaves the login alone. -/
theorem Work.KeepsLogin.advance {auth : WebAuthConfig} {env : Env} {work : Work K} {p : Panel K}
    (h : work.KeepsLogin auth env) (hlogin : SameLogin p.runtime.config auth) :
    (work.advance B env p).2.auth = p.auth ∧
      SameLogin (work.advance B env p).2.runtime.config auth ∧
        ∀ work', (work.advance B env p).1 = .goesOn work' → work'.KeepsLogin auth env := by
  cases work with
  | putConfig body =>
      rw [Work.advance]
      cases Config.fromJson K.T (restoreBody p.runtime.config body) with
      | none => exact ⟨rfl, hlogin, by rintro _ ⟨⟩⟩
      | some submitted => exact ⟨rfl, hlogin, by rintro _ ⟨⟩; trivial⟩
  | apply submitted =>
      rw [Work.advance]
      cases hplan : plan K p.runtime.config submitted with
      | error e => exact ⟨rfl, hlogin, by rintro _ ⟨⟩⟩
      | ok l =>
          refine ⟨rfl, hlogin, ?_⟩
          rintro _ ⟨⟩
          refine ⟨?_, fun phase hphase => hphase⟩
          rw [(plan_ok hplan).new]
          exact hlogin
  | applying l rest =>
      cases rest with
      | nil => exact ⟨rfl, hlogin, by rintro _ ⟨⟩⟩
      | cons phase rest =>
          obtain ⟨hnew, hphases⟩ := h
          obtain ⟨hconfig, hlocal⟩ := phase_config (hphases phase List.mem_cons_self) l p.runtime
          have hlogin' : SameLogin (phase l p.runtime).2.config auth := by
            rcases hconfig with hsame | hstored
            · rw [hsame]
              exact hlogin
            · rw [hstored]
              exact hnew
          rw [Work.advance]
          rcases hphase : phase l p.runtime with ⟨fault | l', s⟩
          · rw [hphase] at hlogin'
            refine ⟨rfl, hlogin', ?_⟩
            cases fault <;> rintro _ ⟨⟩
          · rw [hphase] at hlogin' hlocal
            refine ⟨rfl, hlogin', ?_⟩
            rintro _ ⟨⟩
            rw [Work.KeepsLogin, hlocal l' rfl]
            exact ⟨hnew, fun phase hphase => hphases phase (List.mem_cons_of_mem _ hphase)⟩
  | changePassword c => exact h.elim
  | storing new rest => exact h.elim

/-- No call of the panel reaches the route that changes the password. -/
theorem PanelCall.Sends.path_ne {call : PanelCall} {a : Arrival} (h : call.Sends a) :
    a.path ≠ "/api/password" := by
  rw [h.2.1]
  cases call <;> simp [PanelCall.path]

section Steps

variable {s : Serving K} {start auth : WebAuthConfig}

theorem Serving.KeepsLogin.receive (h : s.KeepsLogin start auth) {call : PanelCall} {a : Arrival}
    (hcall : call.Sends a) : (s.receive A B files a).2.KeepsLogin start auth := by
  obtain ⟨_, hruntime, hworking⟩ := receive_cases A B files s a
  refine ⟨receive_config.trans h.config, hruntime ▸ h.runtime, ?_⟩
  intro entry hentry
  rcases hworking with hsame | ⟨_, _, work, hasked, hmore⟩
  · rw [hsame] at hentry
    exact h.working entry hentry
  · rw [hmore] at hentry
    rcases List.mem_append.mp hentry with hold | hnew
    · exact h.working entry hold
    · rw [List.mem_singleton.mp hnew]
      cases work with
      | putConfig body => trivial
      | changePassword c => exact absurd hasked.2 hcall.path_ne
      | _ => exact hasked.elim

theorem Serving.KeepsLogin.advance (h : s.KeepsLogin start auth) (i : Nat) :
    (s.serve A B files (.advance i)).2.KeepsLogin start auth := by
  unfold Serving.serve
  dsimp only
  cases hat : s.working[i]? with
  | none => exact h
  | some entry =>
      obtain ⟨a, work⟩ := entry
      have hwork : work.KeepsLogin auth a.env := h.working (a, work) (List.mem_of_getElem? hat)
      obtain ⟨hauth, hruntime, hnext⟩ := Work.KeepsLogin.advance (B := B)
        (p := ⟨s.runtime, s.auth.config⟩) hwork h.runtime
      have hdone : ∀ entry ∈ s.working.eraseIdx i, entry.2.KeepsLogin auth entry.1.env :=
        fun entry hentry => h.working entry (List.mem_of_mem_eraseIdx hentry)
      dsimp only
      rcases hresult : work.advance B a.env ⟨s.runtime, s.auth.config⟩ with
        ⟨work' | response | _, p⟩ <;> rw [hresult] at hauth hruntime hnext
      · refine ⟨hauth.trans h.config, hruntime, ?_⟩
        intro entry hentry
        rcases List.mem_or_eq_of_mem_set hentry with hold | rfl
        · exact h.working entry hold
        · exact hnext work' rfl
      · exact ⟨hauth.trans h.config, hruntime, hdone⟩
      · exact ⟨hauth.trans h.config, hruntime, hdone⟩

theorem Serving.KeepsLogin.drop (h : s.KeepsLogin start auth) (i : Nat) :
    (s.serve A B files (.drop i)).2.KeepsLogin start auth :=
  ⟨h.config, h.runtime, fun entry hentry => h.working entry (List.mem_of_mem_eraseIdx hentry)⟩

end Steps

/-! ### The password dialog -/

/-- The pages' request for a new password goes to the static files. -/
theorem target_password_dialog (A : AxumCrate) :
    A.target app .post "/api/auth/password" = .staticService := by
  apply A.target_fallback
  decide

/-- Whatever the pages send, and however it overlaps: the login never changes.
Yet their call for a new password finds no route, is answered with the front
page, and returns as if it had succeeded. -/
theorem password_dialog_changes_nothing {runtime : Handle K} {config : WebAuthConfig}
    {trace : List ServingEntry} {s : Serving K} {page : Bytes}
    (run : Steps (ServingStep A B files) (.begin runtime config) trace s)
    (hpages : ∀ e ∈ trace, ∀ a, e.event = .receive a → ∃ call : PanelCall, call.Sends a)
    (hembedded : files.webDir = none) (hindex : files.getFile "index.html" = some page)
    (hnofile : files.getFile "api/auth/password" = none) :
    (s.auth.config = config ∧ SameLogin s.runtime.config runtime.config.web.auth) ∧
      ∀ oldPassword newPassword a,
        (PanelCall.changePassword oldPassword newPassword).Sends a →
          ∃ response, s.receive A B files a = (some response, s) ∧
            panelRequest response = .ok (.file page) := by
  constructor
  · have hkeeps : s.KeepsLogin config runtime.config.web.auth := by
      have hguarded : Steps (guarded (ServingStep A B files) fun _ e => ∀ a, e.event = .receive a →
          ∃ call : PanelCall, call.Sends a) (.begin runtime config) trace s :=
        run.guarded fun e he _ => hpages e he
      have hstart : (Serving.begin runtime config).KeepsLogin config runtime.config.web.auth :=
        ⟨rfl, ⟨rfl, rfl⟩, fun _ h => absurd h List.not_mem_nil⟩
      apply hguarded.invariant hstart
      rintro t ⟨event, auth⟩ u ht ⟨⟨_, rfl⟩, hpage⟩
      cases event with
      | receive a =>
          obtain ⟨call, hcall⟩ := hpage a rfl
          exact ht.receive hcall
      | advance i => exact ht.advance i
      | drop i => exact ht.drop i
    exact ⟨hkeeps.config, hkeeps.runtime⟩
  · intro oldPassword newPassword a hcall
    obtain ⟨hmethod, hpath, _⟩ := hcall
    have hpath' : a.path = "/api/auth/password" := hpath
    have hmethod' : a.method = .post := hmethod
    refine ⟨embeddedStaticHandler K.U files a.path, ?_, ?_⟩
    · unfold Serving.receive
      rw [hmethod', hpath', target_password_dialog]
      dsimp only
      rw [StaticService.respond, hembedded]
    · have hwanted : (if String.ofList ("/api/auth/password".toList.dropWhile (· = '/')) = ""
          then "index.html"
          else String.ofList ("/api/auth/password".toList.dropWhile (· = '/'))) =
            "api/auth/password" := by decide
      rw [hpath', embeddedStaticHandler, hwanted, hnofile, hindex]
      rfl

/-! ### A session that asks for a new password -/

def frontPage : StaticService := { embedded := [("index.html", [60, 104, 116, 109, 108, 62])] }

def dialogArrival : Arrival := { passwordArrival with path := "/api/auth/password" }

def dialogTrace : List ServingEntry :=
  [⟨.receive loginArrival, some ⟨.login "admin" "password" "00ff" 1000, true, true⟩⟩,
    ⟨.receive dialogArrival, none⟩]

theorem password_dialog_changes_nothing_signed_in :
    ∃ s : Serving smallPlatform,
      Steps (ServingStep axumRouting openBcrypt frontPage)
        (.begin lockedRuntime lockedConfig.web.auth) dialogTrace s ∧
      s.auth.config = lockedConfig.web.auth ∧
      ∃ response, s.receive axumRouting openBcrypt frontPage dialogArrival = (some response, s) ∧
        panelRequest response = .ok (.file [60, 104, 116, 109, 108, 62]) := by
  let last : Serving smallPlatform := dialogTrace.foldl
    (fun s e => (s.serve axumRouting openBcrypt frontPage e.event).2)
    (.begin lockedRuntime lockedConfig.web.auth)
  have run : Steps (ServingStep axumRouting openBcrypt frontPage)
      (.begin lockedRuntime lockedConfig.web.auth) dialogTrace last :=
    ((Steps.done _).next ⟨rfl, rfl⟩).next ⟨rfl, rfl⟩
  have hpages : ∀ e ∈ dialogTrace, ∀ a, e.event = .receive a → ∃ call : PanelCall, call.Sends a := by
    intro e he a ha
    rcases List.mem_cons.mp he with rfl | he
    · cases ha
      exact ⟨.login "admin" "password", rfl, rfl, rfl⟩
    · rw [List.mem_singleton.mp he] at ha
      cases ha
      exact ⟨.changePassword "password" "passphrase", rfl, rfl, rfl⟩
  have hsame := password_dialog_changes_nothing run hpages rfl rfl rfl
  exact ⟨last, run, hsame.1.1, hsame.2 "password" "passphrase" dialogArrival ⟨rfl, rfl, rfl⟩⟩

end Relay.Web
