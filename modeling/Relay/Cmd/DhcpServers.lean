import Relay.Cmd.ResolvConf
import Relay.Dns.Upstream.Server
import Relay.Text.Str

/-!
`resolve_dhcp_servers` of `dns/upstream/mod.rs`, which a `dhcp://` upstream asks
for its servers at each query. The last file it tries is the backup that
`ResolvConfGuard` makes, so what it finds depends on how earlier runs ended.
-/

namespace Relay.Cmd

open Binary Text Storage Dns Upstream

variable (T : NetText)

/-- The second word of a line that starts with `nameserver`. -/
def nameserverText (line : String) : Option String :=
  let line := trim line
  if startsWith line "nameserver" then (splitWhitespace line)[1]? else none

def nameserversOf (content : String) : List SocketAddr :=
  ((lines content).filterMap nameserverText).filterMap fun text =>
    (T.ipAddr text).map fun ip => ⟨ip, 53⟩

/-- The servers that a file names: none when it is not there, or not text. -/
def readServers (file : Option Bytes) : List SocketAddr :=
  ((file.bind fromUtf8).map (nameserversOf T)).getD []

/-- What other services leave: the first three candidates. -/
structure NetworkFiles where
  systemd : Option Bytes := none
  networkManager : Option Bytes := none
  dhclient : Option Bytes := none

/-- `resolve_dhcp_servers`: the servers of the first file that names any. -/
def resolveDhcpServers (files : NetworkFiles) (disk : Disk ResolvPath) : List SocketAddr :=
  let candidates := [files.systemd, files.networkManager, files.dhclient, disk .backup]
  ((candidates.map (readServers T)).find? (· ≠ [])).getD []

/-- No other service has left a name server. -/
structure NetworkFiles.Silent (files : NetworkFiles) : Prop where
  systemd : readServers T files.systemd = []
  networkManager : readServers T files.networkManager = []
  dhclient : readServers T files.dhclient = []

/-- A run of the program, with or without `manage-resolv-conf`. -/
structure ServerRun where
  managed : Bool
  ending : Ending
  deriving DecidableEq

/-- The files while a run serves. -/
def serving (managed : Bool) (disk : Disk ResolvPath) : Disk ResolvPath :=
  if managed then applyAll (install disk) disk else disk

def ServerRun.leaves (disk : Disk ResolvPath) (run : ServerRun) : Disk ResolvPath :=
  if run.managed then runOnce disk run.ending else disk

def afterRuns (history : List ServerRun) (disk : Disk ResolvPath) : Disk ResolvPath :=
  history.foldl ServerRun.leaves disk

/-- A run that does not crash, or spares `own` when it does. -/
def ServerRun.Spares (own : Bytes) (run : ServerRun) : Prop :=
  run.managed = true → match run.ending with
    | .clean => True
    | .crash effects => Cmd.Spares own effects

/-- It crashed when it had installed its file and not begun to give the other
back. -/
def ServerRun.CrashedServing (disk : Disk ResolvPath) (run : ServerRun) : Prop :=
  run.managed = true ∧ run.ending = .crash (install disk).length

/-- The text of the address in the generated file, cut short or whole. -/
structure ReadsLoopback : Prop where
  whole : T.ipAddr "127.0.0.1" = some (.v4 0x7f000001)
  cut : ∀ n < 9, T.ipAddr (String.ofList ("127.0.0.1".toList.take n)) = none

variable {T} {files : NetworkFiles} {disk : Disk ResolvPath} {own : Bytes} {run : ServerRun}

/-- With nothing from other services the backup decides. -/
theorem resolveDhcpServers_of_silent (h : files.Silent T) (disk : Disk ResolvPath) :
    resolveDhcpServers T files disk = readServers T (disk .backup) := by
  unfold resolveDhcpServers
  simp only [List.map_cons, List.map_nil, h.systemd, h.networkManager, h.dhclient]
  cases hbackup : readServers T (disk .backup) with
  | nil => rfl
  | cons server servers => rfl

/-- While a run serves, the backup is what it has found. -/
theorem serving_backup (hown : disk .resolvConf = some own) :
    serving true disk .backup = some own := by
  rw [serving, if_pos rfl, install, hown]
  simp [applyAll_append]

/-- What a run leaves in the file. -/
theorem ServerRun.leaves_of_some {found : Bytes} (h : disk .resolvConf = some found)
    (run : ServerRun) :
    run.leaves disk .resolvConf = some (match run.managed, run.ending with
      | true, .crash effects => leftAfter found effects
      | _, _ => found) := by
  unfold ServerRun.leaves
  cases run.managed with
  | false => exact h
  | true =>
      rw [if_pos rfl]
      cases run.ending with
      | clean =>
          rw [runOnce_clean_of_some h]
          rfl
      | crash effects => exact runOnce_crash_of_some h effects

theorem ServerRun.Spares.leaves (h : run.Spares own) (hown : disk .resolvConf = some own) :
    run.leaves disk .resolvConf = some own := by
  rw [run.leaves_of_some hown]
  cases hmanaged : run.managed with
  | false => rfl
  | true =>
      have hending := h hmanaged
      cases hcase : run.ending with
      | clean => rfl
      | crash effects =>
          rw [hcase] at hending
          exact congrArg some (Cmd.Spares.leftAfter hending)

theorem afterRuns_spared {history : List ServerRun} (h : ∀ run ∈ history, run.Spares own)
    (hown : disk .resolvConf = some own) : afterRuns history disk .resolvConf = some own := by
  induction history generalizing disk with
  | nil => exact hown
  | cons run history ih =>
      exact ih (fun r hr => h r (List.mem_cons_of_mem _ hr))
        ((h run List.mem_cons_self).leaves hown)

/-- A file that was there stays. -/
theorem afterRuns_isSome (history : List ServerRun) (h : (disk .resolvConf).isSome = true) :
    (afterRuns history disk .resolvConf).isSome = true := by
  induction history generalizing disk with
  | nil => exact h
  | cons run history ih =>
      obtain ⟨found, hfound⟩ := Option.isSome_iff_exists.mp h
      exact ih (Option.isSome_of_mem (run.leaves_of_some hfound))

/-- The file is the front of `content`. -/
def HoldsFront (content : Bytes) (disk : Disk ResolvPath) : Prop :=
  ∃ front, disk .resolvConf = some front ∧ front <+: content

/-- A run that finds a front of the generated file leaves one, wherever it
stops: what it copies back is what it found. -/
theorem HoldsFront.leaves (h : HoldsFront generated disk) (run : ServerRun) :
    HoldsFront generated (run.leaves disk) := by
  obtain ⟨front, hfront, hprefix⟩ := h
  refine ⟨_, run.leaves_of_some hfront, ?_⟩
  split
  · rename_i effects _ _
    rcases leftAfter_prefix front effects with hgenerated | hless
    · exact hgenerated
    · exact hless.trans hprefix
  · exact hprefix

theorem HoldsFront.afterRuns (history : List ServerRun) (h : HoldsFront generated disk) :
    HoldsFront generated (afterRuns history disk) := by
  induction history generalizing disk with
  | nil => exact h
  | cons run history ih => exact ih (h.leaves run)

/-! ### What the generated file names -/

def generatedText : String :=
  "# Generated by relay\n# Original backed up at /etc/resolv.conf.dnsroxy.bak\nnameserver 127.0.0.1\n"

/-- `nameserverText`, on characters. -/
def nameserverChars (line : List Char) : Option (List Char) :=
  let line := trimChars line
  if (stripPrefixChars "nameserver".toList line).isSome then
    ((line.splitOnP isWhitespace).filter (· ≠ []))[1]?
  else none

theorem nameserverText_ofList (line : List Char) :
    nameserverText (String.ofList line) = (nameserverChars line).map String.ofList := by
  simp only [nameserverText, nameserverChars, trim, startsWith, splitWhitespace,
    String.toList_ofList, List.getElem?_map]
  split <;> rfl

theorem nameserverTexts_ofList (content : List Char) :
    (lines (String.ofList content)).filterMap nameserverText =
      ((linesOfChars [] content).filterMap nameserverChars).map String.ofList := by
  have hline : nameserverText ∘ String.ofList =
      fun line => (nameserverChars line).map String.ofList := by
    funext line
    rw [Function.comp_apply, nameserverText_ofList]
  rw [lines, String.toList_ofList, List.filterMap_map, hline]
  exact (List.map_filterMap ..).symm

/-- A front of the generated file names no server, or a front of the one. -/
theorem generatedText_fronts : ∀ n < 96,
    (linesOfChars [] (generatedText.toList.take n)).filterMap nameserverChars ∈
      [] :: (List.range 10).map fun m => ["127.0.0.1".toList.take m] := by
  decide +kernel

theorem generatedText_ascii : ∀ c ∈ generatedText.toList, c.toNat < 128 := by
  have hall : (generatedText.toList.all fun c => c.toNat < 128) = true := by decide +kernel
  intro c hc
  exact of_decide_eq_true (List.all_eq_true.mp hall c hc)

theorem generated_eq : generated = octets generatedText := rfl

theorem readServers_octets (content : List Char) :
    readServers T (some (octets (String.ofList content))) =
      (((linesOfChars [] content).filterMap nameserverChars).map String.ofList).filterMap
        fun text => (T.ipAddr text).map fun ip => ⟨ip, 53⟩ := by
  rw [readServers, Option.bind_some, fromUtf8_octets, Option.map_some, Option.getD_some,
    nameserversOf, nameserverTexts_ofList]

/-- A front of the generated file names no server that can be read, or the
loopback address. -/
theorem readServers_front (hT : ReadsLoopback T) {front : Bytes} (h : front <+: generated) :
    readServers T (some front) = [] ∨
      readServers T (some front) = [⟨.v4 0x7f000001, 53⟩] := by
  obtain ⟨n, rfl⟩ := octets_prefix generatedText_ascii h
  have hcut : ∃ k < 96, generatedText.toList.take n = generatedText.toList.take k := by
    rcases Nat.lt_or_ge n 95 with hlt | hge
    · exact ⟨n, by omega, rfl⟩
    · have hlength : generatedText.toList.length = 95 := by decide +kernel
      refine ⟨95, by omega, ?_⟩
      rw [List.take_of_length_le (by omega), List.take_of_length_le (by omega)]
  obtain ⟨k, hk, hsame⟩ := hcut
  rw [hsame, readServers_octets]
  rcases List.mem_cons.mp (generatedText_fronts k hk) with hnone | hsome
  · rw [hnone]
    exact Or.inl rfl
  · obtain ⟨m, hm, hnamed⟩ := List.mem_map.mp hsome
    rw [← hnamed, List.map_singleton]
    rcases Nat.lt_or_ge m 9 with hlt | hge
    · left
      simp only [List.filterMap_cons, List.filterMap_nil, hT.cut m hlt, Option.map_none]
    · right
      obtain rfl : m = 9 := by
        have := List.mem_range.mp hm
        omega
      have hwhole : String.ofList ("127.0.0.1".toList.take 9) = "127.0.0.1" := by decide +kernel
      simp only [List.filterMap_cons, List.filterMap_nil, hwhole, hT.whole, Option.map_some]

/-- The whole file names the loopback address. -/
theorem readServers_generated (hT : ReadsLoopback T) :
    readServers T (some generated) = [⟨.v4 0x7f000001, 53⟩] := by
  have hnamed : (linesOfChars [] generatedText.toList).filterMap nameserverChars =
      ["127.0.0.1".toList] := by decide +kernel
  rw [generated_eq, ← String.ofList_toList (s := generatedText), readServers_octets, hnamed]
  simp only [List.map_cons, List.map_nil, String.ofList_toList, List.filterMap_cons,
    List.filterMap_nil, hT.whole, Option.map_some]

/-! ### The server a query asks -/

/-- What a `dhcp://` upstream does with the servers it finds: it asks the first. -/
theorem UpstreamServer.query_dhcp {H : HickoryCrate} {net : Network} {site : Site}
    {server : UpstreamServer} {interface : String} (hkind : server.kind = .dhcp interface)
    (request : Message) :
    server.query H net site request =
      match net.dhcpServers interface with
      | [] => fail (.noDhcpServers interface)
      | addr :: _ => udpQuery H net site addr request := by
  have hprepare : server.prepare H request = .ok request := by
    unfold UpstreamServer.prepare
    rw [hkind]
    cases server.clientSubnet <;> rfl
  unfold UpstreamServer.query
  rw [hprepare, hkind]
  rfl

/-- The network of a run that manages the file, at the time of a query. -/
def Finds (T : NetText) (files : NetworkFiles) (disk : Disk ResolvPath) (net : Network) : Prop :=
  ∀ interface, net.dhcpServers interface = resolveDhcpServers T files (serving true disk)

/-- The address where the program itself is meant to listen. -/
def loopback : SocketAddr := ⟨.v4 0x7f000001, 53⟩

/-- While a run manages the file and nothing else names a server, a query over a
`dhcp://` upstream asks the first server that the run has found in the file. It
is the machine's own as long as every run so far has spared the file. Once a run
has crashed while it served, the queries of every later run find no server or
ask the loopback address, and they ask it if the runs between have spared the
file. -/
theorem servers_asked_after_crashes {H : HickoryCrate} {net : Network} {site : Site}
    {server : UpstreamServer} {interface : String} (hkind : server.kind = .dhcp interface)
    (hT : ReadsLoopback T) (hsilent : files.Silent T) (hown : disk .resolvConf = some own)
    (history : List ServerRun) (hnet : Finds T files (afterRuns history disk) net)
    (request : Message) :
    let answer := server.query H net site request
    let firstOf (servers : List SocketAddr) := match servers with
      | [] => fail (.noDhcpServers interface)
      | addr :: _ => udpQuery H net site addr request
    (∃ found, afterRuns history disk .resolvConf = some found ∧
      answer = firstOf (readServers T (some found))) ∧
    ((∀ run ∈ history, run.Spares own) → answer = firstOf (readServers T (some own))) ∧
    ∀ before run after, history = before ++ run :: after →
      run.CrashedServing (afterRuns before disk) →
        (answer = fail (.noDhcpServers interface) ∨
          answer = udpQuery H net site loopback request) ∧
        ((∀ later ∈ after, later.Spares generated) →
          answer = udpQuery H net site loopback request) := by
  have hasked : ∀ {found}, afterRuns history disk .resolvConf = some found →
      server.query H net site request = match readServers T (some found) with
        | [] => fail (.noDhcpServers interface)
        | addr :: _ => udpQuery H net site addr request := by
    intro found hfound
    rw [UpstreamServer.query_dhcp hkind, hnet, resolveDhcpServers_of_silent hsilent,
      serving_backup hfound]
  dsimp only
  refine ⟨?_, ?_, ?_⟩
  · have hthere := afterRuns_isSome history (Option.isSome_of_mem hown)
    obtain ⟨found, hfound⟩ := Option.isSome_iff_exists.mp hthere
    exact ⟨found, hfound, hasked hfound⟩
  · intro hspared
    exact hasked (afterRuns_spared hspared hown)
  · rintro before run after rfl ⟨hmanaged, hending⟩
    have hcrashed : run.leaves (afterRuns before disk) .resolvConf = some generated := by
      rw [ServerRun.leaves, hmanaged, if_pos rfl, hending]
      exact runOnce_crash_installed _
    have hafter : afterRuns (before ++ run :: after) disk =
        afterRuns after (run.leaves (afterRuns before disk)) := by
      simp only [afterRuns, List.foldl_append, List.foldl_cons]
    constructor
    · obtain ⟨front, hfront, hprefix⟩ :
          HoldsFront generated (afterRuns (before ++ run :: after) disk) := by
        rw [hafter]
        exact HoldsFront.afterRuns after ⟨generated, hcrashed, List.prefix_refl generated⟩
      rw [hasked hfront]
      rcases readServers_front hT hprefix with hnone | hloopback
      · rw [hnone]
        exact Or.inl rfl
      · rw [hloopback]
        exact Or.inr rfl
    · intro hspared
      have hfound := afterRuns_spared hspared hcrashed
      rw [← hafter] at hfound
      rw [hasked hfound, readServers_generated hT]
      rfl

/-! ### A crash while serving -/

def twoAddresses : NetText where
  socketAddr _ := none
  ipAddr text :=
    if text = "127.0.0.1" then some (.v4 0x7f000001)
    else if text = "192.0.2.1" then some (.v4 0xc0000201)
    else none
  validUrl _ := false

def ownServer : Bytes := octets "nameserver 192.0.2.1\n"

theorem twoAddresses_readsLoopback : ReadsLoopback twoAddresses where
  whole := rfl
  cut := by decide +kernel

def ownResponse : Message := { sampleRequest with messageType := .response }

/-- A network in which 192.0.2.1 replies and no other address does, after these
runs. -/
def oneReplies (history : List ServerRun) : Network where
  exchange _ endpoint _ :=
    if endpoint = .udp ⟨.v4 0xc0000201, 53⟩ then
      .reply ((questionCodec.toVec ownResponse).getD [])
    else .timedOut
  queryId _ := 0
  pooled _ := false
  dhcpServers _ :=
    resolveDhcpServers twoAddresses {}
      (serving true (afterRuns history (initial (some ownServer))))
  expired _ _ := false
  completion _ := []

def dhcpUpstream : UpstreamServer := { kind := .dhcp "eth0", url := "dhcp://eth0" }

/-- Two runs: a crash while it served, and a clean one. -/
def crashedOnce : List ServerRun :=
  [⟨true, .crash (install (initial (some ownServer))).length⟩, ⟨true, .clean⟩]

/-- After a clean run the machine's own server answers; after a crash the
program asks itself. -/
theorem servers_asked_after_crashes_one :
    dhcpUpstream.query questionCodec (oneReplies [⟨true, .clean⟩]) ⟨false, 0, 0⟩ sampleRequest =
        .ok ownResponse ∧
      dhcpUpstream.query questionCodec (oneReplies crashedOnce) ⟨false, 0, 0⟩ sampleRequest =
        udpQuery questionCodec (oneReplies crashedOnce) ⟨false, 0, 0⟩ loopback sampleRequest := by
  have hsilent : NetworkFiles.Silent twoAddresses {} := ⟨rfl, rfl, rfl⟩
  have hown : initial (some ownServer) .resolvConf = some ownServer := rfl
  have hkind : dhcpUpstream.kind = .dhcp "eth0" := rfl
  have hfinds : ∀ history, Finds twoAddresses {} (afterRuns history (initial (some ownServer)))
      (oneReplies history) := fun _ _ => rfl
  constructor
  · have hservers : readServers twoAddresses (some ownServer) = [⟨.v4 0xc0000201, 53⟩] := by
      decide +kernel
    obtain ⟨_, hspared, _⟩ := servers_asked_after_crashes hkind twoAddresses_readsLoopback hsilent hown _
      (hfinds [⟨true, .clean⟩]) sampleRequest
    rw [hspared ?_, hservers]
    · rfl
    · intro run hrun _
      cases List.mem_singleton.mp hrun
      trivial
  · apply ((servers_asked_after_crashes hkind twoAddresses_readsLoopback hsilent hown _
      (hfinds crashedOnce) sampleRequest).2.2 [] _ _ rfl ⟨rfl, rfl⟩).2
    intro run hrun _
    cases List.mem_singleton.mp hrun
    trivial

end Relay.Cmd
