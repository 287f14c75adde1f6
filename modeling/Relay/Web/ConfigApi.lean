import Relay.Config.Serde
import Relay.Runtime.Report
import Relay.Web.Auth

/-!
The configuration in the web panel's API: `get_config`, which sends it without
the password hash, and `put_config`, which puts the hash back into what is
submitted and applies it. Both change the JSON object by the names of its
fields, between the configuration and the types it is read into.
-/

namespace Relay.Web

open Binary Logic Relay.Runtime Text

variable {K : Platform}

/-! ### The two requests -/

/-- `obj.contains_key(name)`. -/
def containsField (name : String) (fields : List (String × JsonValue)) : Bool :=
  fields.any fun field => field.1 = name

/-- `web.auth` as it is sent: whether a password is set takes the place of its hash. -/
def redactAuth (auth : JsonValue) : JsonValue :=
  let hasPassword := match (auth.get "password-hash").bind JsonValue.asString with
    | some hash => decide (hash ≠ "")
    | none => false
  auth.mapObject fun obj => insertKey "password-set" (.bool hasPassword) (removeKey "password-hash" obj)

/-- The body of `get_config`'s response. -/
def getConfig (s : Handle K) : JsonValue :=
  s.config.toJson.mapField "web" (JsonValue.mapField "auth" redactAuth)

/-- `web.auth` as it was submitted, with the current login. -/
def restoreAuth (current : Config) (auth : JsonValue) : JsonValue :=
  auth.mapObject fun obj =>
    let obj := insertKey "password-hash" (.string current.web.auth.passwordHash)
      (removeKey "password-set" obj)
    if containsField "username" obj then obj
    else insertKey "username" (.string current.web.auth.username) obj

/-- `web` as it was submitted, with the current address if it has none. -/
def restoreListen (current : Config) (web : JsonValue) : JsonValue :=
  web.mapObject fun obj =>
    if containsField "listen" obj then obj
    else insertKey "listen" (.string (socketAddrText current.web.listen)) obj

/-- The body that `put_config` reads the configuration from. -/
def restoreBody (current : Config) (body : JsonValue) : JsonValue :=
  body.mapField "web" fun web =>
    restoreListen current (web.mapField "auth" (restoreAuth current))

inductive PutError where
  | format
  | apply (e : ApplyError)

/-- `put_config`, with the runtime after it. -/
def putConfig (env : Env) (body : JsonValue) (s : Handle K) :
    Run PutError ApplyReport × Handle K :=
  match Config.fromJson K.T (restoreBody s.config body) with
  | none => (fail .format, s)
  | some newConfig =>
      match apply env newConfig s with
      | (.ok report, s) => (.ok report, s)
      | (.error e, s) => (.error (e.map .apply), s)

/-! ### What is sent -/

theorem ordered_jsonFields (auth : WebAuthConfig) : Ordered auth.jsonFields := by
  have hkeys : (auth.jsonFields.map Prod.fst).Pairwise (· < ·) := by
    change ["enable", "password-hash", "username"].Pairwise (· < ·)
    decide
  exact List.pairwise_map.mp hkeys

theorem removeKey_jsonFields (auth : WebAuthConfig) :
    removeKey "password-hash" auth.jsonFields =
      [("enable", .bool auth.enable), ("username", .string auth.username)] := by
  simp [removeKey, WebAuthConfig.jsonFields]

/-- Of the hash the response says whether there is one. -/
theorem redactAuth_toJson (auth : WebAuthConfig) :
    redactAuth auth.toJson = .object (insertKey "password-set"
      (.bool (decide (auth.passwordHash ≠ ""))) (removeKey "password-hash" auth.jsonFields)) := rfl

/-- The two configurations are equal but for their password hashes, and both have
one. -/
structure DifferInHash (c c' : Config) : Prop where
  same : Config.Same
    { c with web := { c.web with auth := { c.web.auth with
      passwordHash := c'.web.auth.passwordHash } } } c'
  left : c.web.auth.passwordHash ≠ ""
  right : c'.web.auth.passwordHash ≠ ""

/-- The response does not depend on the hash. -/
theorem getConfig_congr {s s' : Handle K} (h : DifferInHash s.config s'.config) :
    getConfig s = getConfig s' := by
  have hauth : redactAuth s.config.web.auth.toJson = redactAuth
      { s.config.web.auth with passwordHash := s'.config.web.auth.passwordHash }.toJson := by
    simp only [redactAuth_toJson, removeKey_jsonFields, decide_eq_true h.left,
      decide_eq_true h.right]
  have hsent : getConfig s = JsonValue.mapField "web" (JsonValue.mapField "auth" redactAuth)
      { s.config with web := { s.config.web with auth := { s.config.web.auth with
        passwordHash := s'.config.web.auth.passwordHash } } }.toJson := by
    simp [getConfig, Config.toJson, WebConfig.toJson, hauth]
  rw [hsent, h.same.toJson, getConfig]

/-! ### Sent back -/

/-- The hash is put back where it was taken out. -/
theorem restoreAuth_redactAuth (c : Config) :
    restoreAuth c (redactAuth c.web.auth.toJson) = c.web.auth.toJson := by
  have hordered := ordered_jsonFields c.web.auth
  have hnew : "password-set" ∉ (removeKey "password-hash" c.web.auth.jsonFields).map Prod.fst := by
    rw [removeKey_jsonFields]
    simp
  have hremoved := (hordered.removeKey "password-hash").removeKey_insertKey
    (JsonValue.bool (decide (c.web.auth.passwordHash ≠ ""))) hnew
  have hback : insertKey "password-hash" (.string c.web.auth.passwordHash)
      (removeKey "password-hash" c.web.auth.jsonFields) = c.web.auth.jsonFields :=
    hordered.insertKey_removeKey (by simp [WebAuthConfig.jsonFields])
  have husername : containsField "username" c.web.auth.jsonFields = true := by
    simp [containsField, WebAuthConfig.jsonFields]
  rw [redactAuth_toJson, restoreAuth, JsonValue.mapObject_object]
  dsimp only
  rw [hremoved, hback, if_pos husername]
  rfl

theorem restoreListen_eq_self (c : Config) {fields : List (String × JsonValue)}
    (h : containsField "listen" fields = true) :
    restoreListen c (.object fields) = .object fields := by
  rw [restoreListen, JsonValue.mapObject_object, if_pos h]

/-- The body the configuration is read from is the one it was written as. -/
theorem restoreBody_getConfig (s : Handle K) :
    restoreBody s.config (getConfig s) = s.config.toJson := by
  have hweb : restoreListen s.config ((s.config.web.toJson.mapField "auth" redactAuth).mapField "auth"
      (restoreAuth s.config)) = s.config.web.toJson := by
    have hauth := restoreAuth_redactAuth s.config
    simp [WebConfig.toJson, hauth, restoreListen_eq_self, containsField]
  simp [restoreBody, getConfig, Config.toJson, hweb]

/-- What is sent back unchanged is the configuration in force, and applying it
changes nothing that runs. -/
theorem putConfig_getConfig (env : Env) {s : Handle K} (hvalid : s.config.validate K.T = .ok ())
    (htexts : s.config.TextsRead K.T) :
    ∃ c, Config.fromJson K.T (restoreBody s.config (getConfig s)) = some c ∧ c.Same s.config ∧
      putConfig env (getConfig s) s =
        match saveTo K env c s.file with
        | (true, file) => (.ok {}, { s with file := file, config := c })
        | (false, file) => (fail (.apply .save), { s with file := file }) := by
  obtain ⟨c, hread, hsame⟩ := Config.fromJson_toJson htexts
  rw [← restoreBody_getConfig s] at hread
  refine ⟨c, hread, hsame, ?_⟩
  rw [putConfig, hread]
  dsimp only
  rw [apply_same hvalid hsame]
  cases hsave : saveTo K env c s.file with
  | mk ok file =>
      cases ok with
      | true => rfl
      | false => rfl

/-- Two runtimes whose configurations differ in their password hashes send the
same; and what a runtime sends is read back as its own configuration, the hash
included, and saved, with nothing applied, nothing ignored and everything that
runs as it was. If the file cannot be written, that is the error. -/
theorem config_sent_and_put_back (K : Platform) :
    (∀ s s' : Handle K, DifferInHash s.config s'.config → getConfig s = getConfig s') ∧
      ∀ (env : Env) (s : Handle K), s.config.validate K.T = .ok () → s.config.TextsRead K.T →
        ∃ c, Config.fromJson K.T (restoreBody s.config (getConfig s)) = some c ∧
          c.Same s.config ∧
          putConfig env (getConfig s) s =
            match saveTo K env c s.file with
            | (true, file) => (.ok {}, { s with file := file, config := c })
            | (false, file) => (fail (.apply .save), { s with file := file }) :=
  ⟨fun _ _ => getConfig_congr, fun env _ => putConfig_getConfig env⟩

/-! ### A panel with a login -/

/-- Reads the two addresses of `smallConfig`. -/
def readingPlatform : Platform :=
  { smallPlatform with
    T := {
      socketAddr := fun s =>
        if s = "127.0.0.1:53" then some ⟨.v4 0x7f000001, 53⟩
        else if s = "0.0.0.0:8087" then some ⟨.v4 0, 8087⟩
        else none
      ipAddr := fun _ => none
      validUrl := fun _ => false } }

def loginConfig (passwordHash : String) : Config :=
  { smallConfig with
    web := { enable := true, auth := { enable := true, username := "admin", passwordHash } } }

def loginRuntime (passwordHash : String) : Handle readingPlatform :=
  (start quietEnv "/" (loginConfig passwordHash) none).toOption.get rfl

theorem loginRuntime_start (passwordHash : String) :
    start quietEnv "/" (loginConfig passwordHash) none = .ok (loginRuntime passwordHash) := rfl

theorem loginRuntime_textsRead (passwordHash : String) :
    (loginRuntime passwordHash).config.TextsRead readingPlatform.T where
  socketAddrs addr haddr := by
    have haddrs : addr ∈ [⟨.v4 0x7f000001, 53⟩, ⟨.v4 0, 8087⟩] := haddr
    rcases List.mem_cons.mp haddrs with rfl | haddr
    · decide
    · rw [List.mem_singleton.mp haddr]
      decide
  ipAddrs ip hip := by cases hip

theorem loginRuntime_valid :
    (loginRuntime "$2b$10$abc").config.validate readingPlatform.T = .ok () := by decide

theorem config_sent_and_put_back_login :
    getConfig (loginRuntime "$2b$10$abc") = getConfig (loginRuntime "$2b$10$xyz") ∧
      ∃ c, Config.fromJson readingPlatform.T (restoreBody (loginConfig "$2b$10$abc")
          (getConfig (loginRuntime "$2b$10$abc"))) = some c ∧
        c.Same (loginConfig "$2b$10$abc") ∧
        putConfig quietEnv (getConfig (loginRuntime "$2b$10$abc")) (loginRuntime "$2b$10$abc") =
          (.ok {}, { loginRuntime "$2b$10$abc" with file := some [], config := c }) := by
  obtain ⟨hsent, hback⟩ := config_sent_and_put_back readingPlatform
  have hdiffer : DifferInHash (loginRuntime "$2b$10$abc").config
      (loginRuntime "$2b$10$xyz").config :=
    ⟨⟨rfl, rfl, rfl, rfl, rfl, .refl _, rfl, .refl _, rfl, rfl, rfl, rfl⟩, by decide, by decide⟩
  exact ⟨hsent _ _ hdiffer, hback quietEnv _ loginRuntime_valid (loginRuntime_textsRead _)⟩

/-- The configuration that is sent back is not accepted when the file cannot be
opened. -/
theorem put_back_unwritable :
    ¬ ∀ (K : Platform) (env : Env) (s : Handle K),
      (∃ env₀ baseDir config file, start env₀ baseDir config file = .ok s) →
      s.config.validate K.T = .ok () → s.config.TextsRead K.T →
      ∃ s', putConfig env (getConfig s) s = (.ok {}, s') := by
  intro hclaim
  obtain ⟨s', hput⟩ := hclaim readingPlatform { quietEnv with opens := false }
    (loginRuntime "$2b$10$abc") ⟨quietEnv, "/", _, none, loginRuntime_start _⟩
    loginRuntime_valid (loginRuntime_textsRead _)
  obtain ⟨c, _, _, hresult⟩ := putConfig_getConfig { quietEnv with opens := false }
    loginRuntime_valid (loginRuntime_textsRead _)
  have hsave : saveTo readingPlatform { quietEnv with opens := false } c
      (loginRuntime "$2b$10$abc").file = (false, none) := rfl
  rw [hresult, hsave] at hput
  cases hput

end Relay.Web
