import Relay.Web.ConfigApi
import Relay.Web.Sessions

/-!
The routes of the web panel, from `serve` of `web/mod.rs`, and the handlers of
`web/api.rs` behind them. A request is routed and checked as it arrives. What
it then writes it writes phase by phase, while other requests are served.
-/

namespace Relay.Web

open Binary Logic Relay.Runtime Text

/-! ### Requests and responses -/

inductive Method where
  | get
  | head
  | post
  | put
  | options
  | other
  deriving DecidableEq, Repr

/-- What the `Json` extractor finds in the body. -/
inductive Payload where
  | json (value : JsonValue)
  | malformed
  /-- The content type is another one. -/
  | untyped

/-- A request, with what the handling of it reads of the world: the clock for
the middleware's test and its renewal and for a login, the random token and
salt, and what `apply` meets. -/
structure Arrival where
  method : Method
  /-- Without the query. -/
  path : String
  cookie : Option String
  payload : Payload
  checked : Nat
  renewed : Nat
  token : String
  now : Nat
  salt : Nat
  env : Env

inductive Endpoint where
  | metrics
  | authLogin
  | authLogout
  | authChangePassword
  | stats
  | upstreams
  | rules
  | clients
  | querylog
  | dashboard
  | getConfig
  | putConfig
  deriving DecidableEq, Repr

inductive ResponseBody where
  | empty
  | text (s : String)
  | json (value : JsonValue)
  | file (bytes : Bytes)
  /-- The fault's text, under `error`. -/
  | applyError (fault : ApplyError)
  /-- What the collector counts. -/
  | statistics (endpoint : Endpoint)

structure Response where
  status : Nat
  contentType : Option String := none
  setCookie : Option String := none
  cacheControl : Option String := none
  body : ResponseBody := .empty

def jsonType : String := "application/json"

def jsonResponse (status : Nat) (value : JsonValue) : Response :=
  { status := status, contentType := some jsonType, body := .json value }

def jsonError (status : Nat) (text : String) : Response :=
  jsonResponse status (.object [("error", .string text)])

def plainResponse (status : Nat) (text : String) : Response :=
  { status := status, contentType := some "text/plain; charset=utf-8", body := .text text }

def jsonOk : JsonValue := .object [("ok", .bool true)]

/-! ### Routes -/

structure ApiRoute where
  path : String
  method : Method
  endpoint : Endpoint
  /-- `require_auth` stands before it. -/
  authRequired : Bool := false
  /-- `CorsLayer::permissive` stands before it. -/
  cors : Bool := false

/-- `Router::nest`. -/
def nest (root : String) (routes : List ApiRoute) : List ApiRoute :=
  routes.map fun route => { route with path := root ++ route.path }

/-- `route_layer` with `require_auth`. -/
def requireAuthLayer (routes : List ApiRoute) : List ApiRoute :=
  routes.map fun route => { route with authRequired := true }

def corsLayer (routes : List ApiRoute) : List ApiRoute :=
  routes.map fun route => { route with cors := true }

def metricsRouter : List ApiRoute := [⟨"/metrics", .get, .metrics, false, false⟩]

def authRoutes : List ApiRoute :=
  [⟨"/login", .post, .authLogin, false, false⟩, ⟨"/logout", .post, .authLogout, false, false⟩]

def authProtectedRoutes : List ApiRoute :=
  requireAuthLayer [⟨"/password", .post, .authChangePassword, false, false⟩]

def businessRoutes : List ApiRoute :=
  requireAuthLayer [
    ⟨"/stats", .get, .stats, false, false⟩,
    ⟨"/upstreams", .get, .upstreams, false, false⟩,
    ⟨"/rules", .get, .rules, false, false⟩,
    ⟨"/clients", .get, .clients, false, false⟩,
    ⟨"/querylog", .get, .querylog, false, false⟩,
    ⟨"/dashboard", .get, .dashboard, false, false⟩,
    ⟨"/config", .get, .getConfig, false, false⟩,
    ⟨"/config", .put, .putConfig, false, false⟩]

def apiRoutes : List ApiRoute :=
  corsLayer (nest "/auth" authRoutes ++ authProtectedRoutes ++ businessRoutes)

def app : List ApiRoute := nest "/api" apiRoutes ++ metricsRouter

/-- Where a request goes. -/
inductive Target where
  | endpoint (endpoint : Endpoint) (authRequired : Bool)
  /-- The path has no such method. -/
  | notAllowed (authRequired : Bool)
  | preflight
  | staticService
  deriving DecidableEq, Repr

/-- A route for GET serves HEAD as well. -/
def ApiRoute.takes (route : ApiRoute) (method : Method) : Bool :=
  decide (route.method = method) || (decide (route.method = .get) && decide (method = .head))

/-- What the `Json` extractor finds wrong. -/
inductive JsonRejection where
  | dataError
  | syntaxError
  | missingContentType
  deriving DecidableEq, Repr

/-- `axum` with the CORS layer of `tower-http`: where a request goes among the
routes, and how the `Json` extractor refuses a body. -/
structure AxumCrate where
  target : List ApiRoute → Method → String → Target
  rejection : JsonRejection → Response
  /-- A request comes to an endpoint by a route for its path and its method. -/
  route_of_target {routes : List ApiRoute} {method : Method} {path : String} {endpoint : Endpoint}
    {authRequired : Bool} (h : target routes method path = .endpoint endpoint authRequired) :
    ∃ route ∈ routes, route.path = path ∧ route.takes method = true ∧
      route.endpoint = endpoint ∧ route.authRequired = authRequired
  /-- What has no route goes to the fallback service. -/
  target_fallback {routes : List ApiRoute} (method : Method) {path : String}
    (h : ∀ route ∈ routes, route.path ≠ path) : target routes method path = .staticService

/-! ### Static files -/

/-- `build_static_service`. -/
structure StaticService where
  /-- `EMBEDDED_STATIC`. -/
  embedded : List (String × Bytes)
  /-- What `ServeDir` answers, when `web-dir` is set. -/
  webDir : Option (Method → String → Response) := none

/-- `EMBEDDED_STATIC.get_file`. -/
def StaticService.getFile (files : StaticService) (path : String) : Option Bytes :=
  (files.embedded.find? fun entry => entry.1 = path).map Prod.snd

/-- The endings that `mime_for_ext` looks for, in its order. -/
def mimeTypes : List (List String × String) :=
  [([".html", ".htm"], "text/html; charset=utf-8"),
    ([".js"], "application/javascript; charset=utf-8"),
    ([".css"], "text/css; charset=utf-8"),
    ([".json"], "application/json; charset=utf-8"),
    ([".svg"], "image/svg+xml"),
    ([".png"], "image/png"),
    ([".jpg", ".jpeg"], "image/jpeg"),
    ([".gif"], "image/gif"),
    ([".ico"], "image/x-icon"),
    ([".woff"], "font/woff"),
    ([".woff2"], "font/woff2"),
    ([".ttf"], "font/ttf"),
    ([".map"], "application/json")]

def mimeForExt (U : Dns.UnicodeTables) (path : String) : String :=
  let p := (U.toLowercase path).toList
  match mimeTypes.find? fun entry => entry.1.any fun ending => ending.toList.isSuffixOf p with
  | some entry => entry.2
  | none => "application/octet-stream"

def serveEmbeddedFile (U : Dns.UnicodeTables) (path : String) (contents : Bytes) : Response where
  status := 200
  contentType := some (mimeForExt U path)
  cacheControl := some (if path = "index.html" then "no-cache" else "public, max-age=86400")
  body := .file contents

/-- `embedded_static_handler`: the file, else the front page. -/
def embeddedStaticHandler (U : Dns.UnicodeTables) (files : StaticService) (path : String) :
    Response :=
  let path := String.ofList (path.toList.dropWhile (· = '/'))
  let wanted := if path = "" then "index.html" else path
  match files.getFile wanted with
  | some contents => serveEmbeddedFile U wanted contents
  | none =>
      match files.getFile "index.html" with
      | some contents => serveEmbeddedFile U "index.html" contents
      | none => plainResponse 404 "Not Found"

def StaticService.respond (U : Dns.UnicodeTables) (files : StaticService) (method : Method)
    (path : String) : Response :=
  match files.webDir with
  | some serveDir => serveDir method path
  | none => embeddedStaticHandler U files path

/-! ### Handlers -/

structure LoginRequest where
  username : String
  password : String

def LoginRequest.fromJson : JsonValue → Option LoginRequest := readStruct fun value => do
  let username ← JsonValue.field value "username" none JsonValue.asString
  let password ← JsonValue.field value "password" none JsonValue.asString
  return { username, password }

structure ChangePasswordRequest where
  oldPassword : String
  newPassword : String

def ChangePasswordRequest.fromJson : JsonValue → Option ChangePasswordRequest :=
  readStruct fun value => do
    let oldPassword ← JsonValue.field value "old_password" none JsonValue.asString
    let newPassword ← JsonValue.field value "new_password" none JsonValue.asString
    return { oldPassword, newPassword }

/-- The `Json` extractor. -/
def AxumCrate.read {α : Type} (A : AxumCrate) (payload : Payload)
    (fromJson : JsonValue → Option α) : Except Response α :=
  match payload with
  | .json value =>
      match fromJson value with
      | some request => .ok request
      | none => .error (A.rejection .dataError)
  | .malformed => .error (A.rejection .syntaxError)
  | .untyped => .error (A.rejection .missingContentType)

def sessionCookieHeader (token : String) : String :=
  sessionCookieName ++ "=" ++ token ++ "; Path=/; HttpOnly; SameSite=Lax; Max-Age=86400"

def clearSessionCookieHeader : String :=
  sessionCookieName ++ "=; Path=/; HttpOnly; SameSite=Lax; Max-Age=0"

def loginResponse (enabled accepted : Bool) (token : String) : Response :=
  if ¬ enabled then jsonResponse 200 jsonOk
  else if accepted then { jsonResponse 200 jsonOk with setCookie := some (sessionCookieHeader token) }
  else jsonResponse 401 (.object [("error", .string "用户名或密码错误"), ("ok", .bool false)])

def PasswordError.response : PasswordError → Response
  | .wrongPassword => jsonError 401 "原密码不正确"
  | .tooShort => jsonError 400 "新密码至少 8 位"
  | .hash e => jsonError 500 ("生成密码哈希失败: " ++ e)
  | .save => jsonError 500 "密码已更新但写入配置文件失败"

def ApplyReport.toJson (report : ApplyReport) : JsonValue :=
  .object [("applied", jsonList .string report.applied), ("ignored", jsonList .string report.ignored)]

/-- A request that writes settings, from where the middleware lets it through. -/
inductive Work (K : Platform) where
  | putConfig (body : JsonValue)
  /-- `apply` is called. -/
  | apply (submitted : Config)
  | applying (l : Locals K) (rest : List (ApplyPhase K))
  | changePassword (c : PasswordCall)
  | storing (new : Config) (rest : List (PasswordPhase K))

inductive Progress (K : Platform) where
  | goesOn (work : Work K)
  | responds (response : Response)
  /-- The handler panics, and its connection is closed. -/
  | dies

def failedApply {K : Platform} : Fault ApplyError → Progress K
  | .panic => .dies
  | .error e => .responds { status := 400, contentType := some jsonType, body := .applyError e }

variable (A : AxumCrate) (B : BcryptCrate) {K : Platform}

/-- The next phase of a request that writes. -/
def Work.advance (env : Env) (p : Panel K) : Work K → Progress K × Panel K
  | .putConfig body =>
      match Config.fromJson K.T (restoreBody p.runtime.config body) with
      | none => (.responds (jsonError 400 "配置格式错误"), p)
      | some submitted => (.goesOn (.apply submitted), p)
  | .apply submitted =>
      match plan K p.runtime.config submitted with
      | .error e => (failedApply (.error (.validation e)), p)
      | .ok l => (.goesOn (.applying l (phases env)), p)
  | .applying l [] => (.responds (jsonResponse 200 (ApplyReport.toJson l.report)), p)
  | .applying l (phase :: rest) =>
      match phase l p.runtime with
      | (.ok l, s) => (.goesOn (.applying l rest), { p with runtime := s })
      | (.error fault, s) => (failedApply fault, { p with runtime := s })
  | .changePassword c =>
      match planPassword B p.runtime.config c with
      | .error e => (.responds e.response, p)
      | .ok new => (.goesOn (.storing new (passwordPhases env)), p)
  | .storing _ [] => (.responds (jsonResponse 200 jsonOk), p)
  | .storing new (phase :: rest) =>
      match phase new p with
      | (.ok new, p) => (.goesOn (.storing new rest), p)
      | (.error e, p) => (.responds e.response, p)

/-- The panel while it serves. -/
structure Serving (K : Platform) where
  runtime : Handle K
  auth : AuthState
  /-- The requests that are still writing. -/
  working : List (Arrival × Work K) := []

/-- `serve` of `web/mod.rs` starts from the configuration's login and no session. -/
def Serving.begin (runtime : Handle K) (config : WebAuthConfig) : Serving K :=
  { runtime := runtime, auth := AuthState.new config }

/-- The middleware, where the route has it. -/
def Serving.letThrough (s : Serving K) (a : Arrival) (authRequired : Bool) : Bool × AuthState :=
  if authRequired then s.auth.requireAuth a.cookie a.checked a.renewed else (true, s.auth)

/-- The handler of an endpoint; one that writes responds later. -/
def Serving.handle (s : Serving K) (a : Arrival) : Endpoint → Option Response × Serving K
  | .authLogin =>
      match A.read a.payload LoginRequest.fromJson with
      | .error response => (some response, s)
      | .ok request =>
          let (accepted, auth) := s.auth.authLogin B request.username request.password a.token a.now
          (some (loginResponse (isEnabled s.auth.config) accepted a.token), { s with auth := auth })
  | .authLogout =>
      (some { status := 200, setCookie := some clearSessionCookieHeader },
        { s with auth := s.auth.authLogout a.cookie })
  | .authChangePassword =>
      match A.read a.payload ChangePasswordRequest.fromJson with
      | .error response => (some response, s)
      | .ok request =>
          let call := ⟨request.oldPassword, request.newPassword, a.salt, a.env⟩
          (none, { s with working := s.working ++ [(a, .changePassword call)] })
  | .putConfig =>
      match A.read a.payload some with
      | .error response => (some response, s)
      | .ok body => (none, { s with working := s.working ++ [(a, .putConfig body)] })
  | .getConfig => (some (jsonResponse 200 (getConfig s.runtime)), s)
  | endpoint =>
      (some { status := 200, contentType := some jsonType, body := .statistics endpoint }, s)

variable (files : StaticService)

/-- A request is routed, checked and handed over. -/
def Serving.receive (s : Serving K) (a : Arrival) : Option Response × Serving K :=
  match A.target app a.method a.path with
  | .preflight => (some { status := 200 }, s)
  | .staticService => (some (files.respond K.U a.method a.path), s)
  | .notAllowed authRequired =>
      match s.letThrough a authRequired with
      | (true, auth) => (some { status := 405 }, { s with auth := auth })
      | (false, auth) => (some (plainResponse 401 "Unauthorized"), { s with auth := auth })
  | .endpoint endpoint authRequired =>
      match s.letThrough a authRequired with
      | (true, auth) => Serving.handle A B { s with auth := auth } a endpoint
      | (false, auth) => (some (plainResponse 401 "Unauthorized"), { s with auth := auth })

inductive ServingEvent where
  | receive (a : Arrival)
  /-- The `i`-th of the requests that write goes through its next phase. -/
  | advance (i : Nat)
  /-- Its client is gone, and its handler is dropped. -/
  | drop (i : Nat)

def Serving.serve (s : Serving K) : ServingEvent → Option Response × Serving K
  | .receive a => s.receive A B files a
  | .advance i =>
      match s.working[i]? with
      | none => (none, s)
      | some (a, work) =>
          match work.advance B a.env ⟨s.runtime, s.auth.config⟩ with
          | (progress, p) =>
              let s := { s with runtime := p.runtime, auth := { s.auth with config := p.auth } }
              match progress with
              | .goesOn work => (none, { s with working := s.working.set i (a, work) })
              | .responds response => (some response, { s with working := s.working.eraseIdx i })
              | .dies => (none, { s with working := s.working.eraseIdx i })
  | .drop i => (none, { s with working := s.working.eraseIdx i })

end Relay.Web
