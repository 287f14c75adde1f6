import Relay.Dhcp.V4.Serve
import Relay.Dhcp.V4.Uniqueness
import Relay.Storage.Directory

/-!
Names follow leases. The dynamic table is to map a name to an address exactly
when an unexpired lease has both. Only grants and releases touch the table, so
the lapse of a lease leaves its names behind, and names are erased and
overwritten without a look at the other leases. The conditions under which a
step keeps the table right are stated on the leases alone.
-/

namespace Relay.Dhcp.V4

open Dns Logic Storage

variable (U : UnicodeTables)

/-! ### The names of a lease -/

/-- The keys `DynamicHosts` uses for a hostname. -/
def namesOf (domain : Option String) (hostname : String) : List String :=
  match domain with
  | some domain => [U.toLowercase hostname, U.toLowercase hostname ++ "." ++ domain]
  | none => [U.toLowercase hostname]

def Lease.names (domain : Option String) (lease : Lease) : List String :=
  match lease.hostname with
  | some hn => namesOf U domain hn
  | none => []

theorem insert_lookup (hosts : DynamicHosts) (hostname : String) (ip : IpAddr) :
    (fun name => (hosts.insert U hostname ip).entries.lookup name) =
      writeKeys (fun name => hosts.entries.lookup name) (namesOf U hosts.domain hostname) ip := by
  funext name
  unfold DynamicHosts.insert writeKeys namesOf
  cases hosts.domain with
  | none =>
      simp only [List.mem_singleton]
      split
      · rename_i h
        rw [h, AList.lookup_insert]
      · rename_i h
        rw [AList.lookup_insert_ne h]
  | some domain =>
      simp only [List.mem_cons, List.not_mem_nil, or_false]
      by_cases hfull : name = U.toLowercase hostname ++ "." ++ domain
      · rw [if_pos (Or.inr hfull), hfull, AList.lookup_insert]
      · rw [AList.lookup_insert_ne hfull]
        by_cases hbare : name = U.toLowercase hostname
        · rw [if_pos (Or.inl hbare), hbare, AList.lookup_insert]
        · rw [if_neg (by tauto), AList.lookup_insert_ne hbare]

theorem remove_lookup (hosts : DynamicHosts) (hostname : String) :
    (fun name => (hosts.remove U hostname).entries.lookup name) =
      eraseKeys (fun name => hosts.entries.lookup name) (namesOf U hosts.domain hostname) := by
  funext name
  unfold DynamicHosts.remove eraseKeys namesOf
  cases hosts.domain with
  | none =>
      simp only [List.mem_singleton]
      split
      · rename_i h
        rw [h, AList.lookup_erase]
      · rename_i h
        rw [AList.lookup_erase_ne h]
  | some domain =>
      simp only [List.mem_cons, List.not_mem_nil, or_false]
      by_cases hfull : name = U.toLowercase hostname ++ "." ++ domain
      · rw [if_pos (Or.inr hfull), hfull, AList.lookup_erase]
      · rw [AList.lookup_erase_ne hfull]
        by_cases hbare : name = U.toLowercase hostname
        · rw [if_pos (Or.inl hbare), hbare, AList.lookup_erase]
        · rw [if_neg (by tauto), AList.lookup_erase_ne hbare]

theorem registerLease_lookup (hosts : DynamicHosts) (lease : Lease) :
    (fun name => (registerLease U hosts lease).entries.lookup name) =
      writeKeys (fun name => hosts.entries.lookup name) (lease.names U hosts.domain)
        (.v4 lease.ip) := by
  unfold registerLease Lease.names
  cases lease.hostname with
  | none =>
      funext name
      simp [writeKeys]
  | some hn => exact insert_lookup U hosts hn (.v4 lease.ip)

@[simp] theorem registerLease_domain (hosts : DynamicHosts) (lease : Lease) :
    (registerLease U hosts lease).domain = hosts.domain := by
  unfold registerLease
  split <;> rfl

theorem foldl_registerLease (leases : List Lease) (hosts : DynamicHosts) :
    (leases.foldl (registerLease U) hosts).domain = hosts.domain ∧
      (fun name => (leases.foldl (registerLease U) hosts).entries.lookup name) =
        writeAll (fun name => hosts.entries.lookup name)
          (leases.map (fun lease => (lease.names U hosts.domain, .v4 lease.ip))) := by
  induction leases generalizing hosts with
  | nil => exact ⟨rfl, rfl⟩
  | cons lease leases ih =>
      obtain ⟨hdomain, htable⟩ := ih (registerLease U hosts lease)
      refine ⟨by simpa using hdomain, ?_⟩
      rw [List.foldl_cons, htable, registerLease_lookup, registerLease_domain]
      rfl

/-! ### The names the leases support -/

/-- The lease counts at this time and gives the address this name. -/
def Lease.Gives (domain : Option String) (now : Nat) (lease : Lease) (name : String)
    (ip : IpAddr) : Prop :=
  lease.isExpired now = false ∧ name ∈ lease.names U domain ∧ IpAddr.v4 lease.ip = ip

/-- Some lease of the store gives the address this name. -/
def Named (domain : Option String) (now : Nat) (store : LeaseStore) (name : String)
    (ip : IpAddr) : Prop :=
  ∃ key lease, store.leases.lookup key = some lease ∧ lease.Gives U domain now name ip

/-- A lease under another key does. -/
def NamedBeside (domain : Option String) (now : Nat) (store : LeaseStore) (key : String)
    (name : String) (ip : IpAddr) : Prop :=
  ∃ other lease, other ≠ key ∧ store.leases.lookup other = some lease ∧
    lease.Gives U domain now name ip

variable {U} {domain : Option String} {now : Nat} {store : LeaseStore}

theorem named_iff (key : String) {name : String} {ip : IpAddr} :
    Named U domain now store name ip ↔
      (∃ lease, store.leases.lookup key = some lease ∧ lease.Gives U domain now name ip) ∨
        NamedBeside U domain now store key name ip := by
  constructor
  · rintro ⟨other, lease, hlookup, hgives⟩
    by_cases hkey : other = key
    · subst hkey
      exact Or.inl ⟨lease, hlookup, hgives⟩
    · exact Or.inr ⟨other, lease, hkey, hlookup, hgives⟩
  · rintro (⟨lease, hlookup, hgives⟩ | ⟨other, lease, _, hlookup, hgives⟩)
    · exact ⟨key, lease, hlookup, hgives⟩
    · exact ⟨other, lease, hlookup, hgives⟩

theorem NamedBeside.named {key name : String} {ip : IpAddr}
    (h : NamedBeside U domain now store key name ip) : Named U domain now store name ip :=
  (named_iff key).mpr (Or.inr h)

theorem named_insert_iff (key : String) (lease : Lease) {name : String} {ip : IpAddr} :
    Named U domain now ⟨store.leases.insert key lease⟩ name ip ↔
      lease.Gives U domain now name ip ∨ NamedBeside U domain now store key name ip := by
  rw [named_iff key]
  refine or_congr ?_ ?_
  · simp [AList.lookup_insert]
  · unfold NamedBeside
    refine exists_congr fun other => exists_congr fun l => and_congr_right fun hne => ?_
    rw [AList.lookup_insert_ne hne]

theorem named_erase_iff (key : String) {name : String} {ip : IpAddr} :
    Named U domain now ⟨store.leases.erase key⟩ name ip ↔
      NamedBeside U domain now store key name ip := by
  rw [named_iff key]
  have hgone : ¬ ∃ lease, (store.leases.erase key).lookup key = some lease ∧
      lease.Gives U domain now name ip := by
    rintro ⟨lease, hlookup, _⟩
    rw [AList.lookup_erase] at hlookup
    cases hlookup
  rw [or_iff_right hgone]
  unfold NamedBeside
  refine exists_congr fun other => exists_congr fun l => and_congr_right fun hne => ?_
  rw [AList.lookup_erase_ne hne]

theorem Lease.Gives.earlier {lease : Lease} {later : Nat} {name : String} {ip : IpAddr}
    (h : lease.Gives U domain later name ip) (hle : now ≤ later) :
    lease.Gives U domain now name ip :=
  ⟨Lease.isExpired_mono hle h.1, h.2⟩

theorem Named.earlier {later : Nat} {name : String} {ip : IpAddr}
    (h : Named U domain later store name ip) (hle : now ≤ later) :
    Named U domain now store name ip := by
  obtain ⟨key, lease, hlookup, hgives⟩ := h
  exact ⟨key, lease, hlookup, hgives.earlier hle⟩

/-! ### The conditions on a step -/

variable (U)

/-- What a lease stops giving is given by another one as well. -/
def LapsesKeep (domain : Option String) (now later : Nat) (store : LeaseStore) : Prop :=
  ∀ name ip, Named U domain now store name ip → Named U domain later store name ip

/-- A grant that is written: every name of the new lease is still given by some
lease, and by none for another address; what the client's old lease alone gave
was one of these names. -/
def GrantKeeps (domain : Option String) (now : Nat) (store : LeaseStore) (lease : Lease) : Prop :=
  let beside := NamedBeside U domain now store (macKey lease.mac)
  (∀ name ∈ lease.names U domain,
    (lease.isExpired now = false ∨ beside name (.v4 lease.ip)) ∧
      ∀ ip, beside name ip → ip = .v4 lease.ip) ∧
  ∀ old, store.leases.lookup (macKey lease.mac) = some old →
    ∀ name ip, old.Gives U domain now name ip → name ∉ lease.names U domain → beside name ip

/-- A grant that is not written touches no name: the store gives the same names
as before. -/
def UnwrittenGrantKeeps (domain : Option String) (now : Nat) (store : LeaseStore)
    (lease : Lease) : Prop :=
  (∀ name ip, lease.Gives U domain now name ip → Named U domain now store name ip) ∧
  ∀ old, store.leases.lookup (macKey lease.mac) = some old →
    ∀ name ip, old.Gives U domain now name ip →
      lease.Gives U domain now name ip ∨ NamedBeside U domain now store (macKey lease.mac) name ip

/-- A release that is written: no other client's lease gives one of the names. -/
def ReleaseKeeps (domain : Option String) (now : Nat) (store : LeaseStore) (key : String)
    (lease : Lease) : Prop :=
  ∀ name ∈ lease.names U domain, ∀ ip, ¬ NamedBeside U domain now store key name ip

/-- A release that is not written removes the lease and no name. -/
def UnwrittenReleaseKeeps (domain : Option String) (now : Nat) (store : LeaseStore)
    (key : String) (lease : Lease) : Prop :=
  ∀ name ip, lease.Gives U domain now name ip → NamedBeside U domain now store key name ip

/-- The table follows the leases. -/
def NamesFollow (now : Nat) (st : ServerState) : Prop :=
  Follows (fun name => st.hosts.entries.lookup name) (Named U st.hosts.domain now st.pool.leases)

variable {U} {st : ServerState}

/-- The names of the leases after a lease went into the store. -/
private theorem grantKeeps_iff (lease : Lease) :
    GrantKeeps U domain now store lease ↔
      (∀ name ∈ lease.names U domain, ∀ ip,
        Named U domain now ⟨store.leases.insert (macKey lease.mac) lease⟩ name ip ↔
          ip = .v4 lease.ip) ∧
      ∀ name, name ∉ lease.names U domain → ∀ ip,
        Named U domain now ⟨store.leases.insert (macKey lease.mac) lease⟩ name ip ↔
          Named U domain now store name ip := by
  simp only [named_insert_iff]
  constructor
  · rintro ⟨hnew, hold⟩
    refine ⟨?_, ?_⟩
    · intro name hname ip
      obtain ⟨hgiven, hagree⟩ := hnew name hname
      constructor
      · rintro (hgives | hbeside)
        · exact hgives.2.2.symm
        · exact hagree ip hbeside
      · rintro rfl
        rcases hgiven with hlive | hbeside
        · exact Or.inl ⟨hlive, hname, rfl⟩
        · exact Or.inr hbeside
    · intro name hname ip
      constructor
      · rintro (hgives | hbeside)
        · exact absurd hgives.2.1 hname
        · exact hbeside.named
      · intro hnamed
        right
        rcases (named_iff (macKey lease.mac)).mp hnamed with ⟨old, hlookup, hgives⟩ | hbeside
        · exact hold old hlookup name ip hgives hname
        · exact hbeside
  · rintro ⟨hnew, hother⟩
    refine ⟨?_, ?_⟩
    · intro name hname
      refine ⟨?_, ?_⟩
      · rcases (hnew name hname _).mpr rfl with hgives | hbeside
        · exact Or.inl hgives.1
        · exact Or.inr hbeside
      · intro ip hbeside
        exact (hnew name hname ip).mp (Or.inr hbeside)
    · intro old hlookup name ip hgives hname
      have hnamed : Named U domain now store name ip := ⟨_, old, hlookup, hgives⟩
      rcases (hother name hname ip).mpr hnamed with hgives' | hbeside
      · exact absurd hgives'.2.1 hname
      · exact hbeside

private theorem unwrittenGrantKeeps_iff (lease : Lease) :
    UnwrittenGrantKeeps U domain now store lease ↔ ∀ name ip,
      Named U domain now ⟨store.leases.insert (macKey lease.mac) lease⟩ name ip ↔
        Named U domain now store name ip := by
  simp only [named_insert_iff]
  constructor
  · rintro ⟨hnew, hold⟩ name ip
    constructor
    · rintro (hgives | hbeside)
      · exact hnew name ip hgives
      · exact hbeside.named
    · intro hnamed
      rcases (named_iff (macKey lease.mac)).mp hnamed with ⟨old, hlookup, hgives⟩ | hbeside
      · exact hold old hlookup name ip hgives
      · exact Or.inr hbeside
  · intro hsame
    refine ⟨?_, ?_⟩
    · intro name ip hgives
      exact (hsame name ip).mp (Or.inl hgives)
    · intro old hlookup name ip hgives
      exact (hsame name ip).mpr ⟨_, old, hlookup, hgives⟩

private theorem releaseKeeps_iff {key : String} {lease : Lease}
    (hlookup : store.leases.lookup key = some lease) :
    ReleaseKeeps U domain now store key lease ↔
      (∀ name ∈ lease.names U domain, ∀ ip,
        ¬ Named U domain now ⟨store.leases.erase key⟩ name ip) ∧
      ∀ name, name ∉ lease.names U domain → ∀ ip,
        Named U domain now ⟨store.leases.erase key⟩ name ip ↔ Named U domain now store name ip := by
  simp only [named_erase_iff]
  constructor
  · intro hnone
    refine ⟨hnone, ?_⟩
    intro name hname ip
    constructor
    · exact NamedBeside.named
    · intro hnamed
      rcases (named_iff key).mp hnamed with ⟨old, hold, hgives⟩ | hbeside
      · rw [hlookup, Option.some.injEq] at hold
        subst hold
        exact absurd hgives.2.1 hname
      · exact hbeside
  · rintro ⟨hnone, _⟩
    exact hnone

private theorem unwrittenReleaseKeeps_iff {key : String} {lease : Lease}
    (hlookup : store.leases.lookup key = some lease) :
    UnwrittenReleaseKeeps U domain now store key lease ↔ ∀ name ip,
      Named U domain now ⟨store.leases.erase key⟩ name ip ↔ Named U domain now store name ip := by
  simp only [named_erase_iff]
  constructor
  · intro hkeep name ip
    constructor
    · exact NamedBeside.named
    · intro hnamed
      rcases (named_iff key).mp hnamed with ⟨old, hold, hgives⟩ | hbeside
      · rw [hlookup, Option.some.injEq] at hold
        subst hold
        exact hkeep name ip hgives
      · exact hbeside
  · intro hsame name ip hgives
    exact (hsame name ip).mpr ⟨key, lease, hlookup, hgives⟩

/-! ### Runs -/

/-- Between two packets time passes. -/
inductive NameEvent where
  | wait (later : Nat)
  | packet (env : Env) (msg : Packet)

structure NameWorld where
  state : ServerState
  now : Nat

variable (U)

inductive NameStep (cfg : ServerConfig) : NameWorld → NameEvent → NameWorld → Prop where
  | wait (w : NameWorld) (later : Nat) :
      w.now ≤ later → NameStep cfg w (.wait later) { w with now := later }
  | packet (w : NameWorld) (env : Env) (msg : Packet) :
      env.unix = w.now →
      env.order.Perm (w.state.pool.leases.leases.entries.map (fun entry => entry.2)) →
      NameStep cfg w (.packet env msg)
        { w with state := (handlePacket U cfg env w.state msg).1 }

/-- The condition on a step: the waits, grants and releases that keep the table
right. -/
def NamesKept (cfg : ServerConfig) (w : NameWorld) : NameEvent → Prop
  | .wait later => LapsesKeep U w.state.hosts.domain w.now later w.state.pool.leases
  | .packet env msg =>
      (∀ lease, createdLease cfg env msg = some lease →
        if env.flushed then GrantKeeps U w.state.hosts.domain w.now w.state.pool.leases lease
        else UnwrittenGrantKeeps U w.state.hosts.domain w.now w.state.pool.leases lease) ∧
      ∀ key lease, releasedLease w.state msg = some (key, lease) →
        if env.flushed then ReleaseKeeps U w.state.hosts.domain w.now w.state.pool.leases key lease
        else UnwrittenReleaseKeeps U w.state.hosts.domain w.now w.state.pool.leases key lease

variable {U}

private theorem unregisterLease_lookup (hosts : DynamicHosts) (lease : Lease) :
    (fun name => (unregisterLease U hosts lease).entries.lookup name) =
      eraseKeys (fun name => hosts.entries.lookup name) (lease.names U hosts.domain) := by
  unfold unregisterLease Lease.names
  cases lease.hostname with
  | none =>
      funext name
      simp [eraseKeys]
  | some hn => exact remove_lookup U hosts hn

private theorem unregisterLease_domain (hosts : DynamicHosts) (lease : Lease) :
    (unregisterLease U hosts lease).domain = hosts.domain := by
  unfold unregisterLease
  split <;> rfl

private theorem grant_follow_iff {st' : ServerState} {lease : Lease} {flushed : Bool}
    (h : NamesFollow U now st)
    (hstore : st'.pool.leases = ⟨st.pool.leases.leases.insert (macKey lease.mac) lease⟩)
    (hhosts : st'.hosts = if flushed then registerLease U st.hosts lease else st.hosts) :
    NamesFollow U now st' ↔
      if flushed then GrantKeeps U st.hosts.domain now st.pool.leases lease
      else UnwrittenGrantKeeps U st.hosts.domain now st.pool.leases lease := by
  unfold NamesFollow at h ⊢
  cases flushed with
  | true =>
      simp only [if_true] at hhosts ⊢
      rw [hhosts, hstore, registerLease_lookup, registerLease_domain, h.write_iff,
        grantKeeps_iff]
  | false =>
      simp only [Bool.false_eq_true, if_false] at hhosts ⊢
      rw [hhosts, hstore, h.keep_iff, unwrittenGrantKeeps_iff]

private theorem release_follow_iff {st' : ServerState} {key : String} {lease : Lease}
    {flushed : Bool} (h : NamesFollow U now st)
    (hlookup : st.pool.leases.leases.lookup key = some lease)
    (hstore : st'.pool.leases = ⟨st.pool.leases.leases.erase key⟩)
    (hhosts : st'.hosts = if flushed then unregisterLease U st.hosts lease else st.hosts) :
    NamesFollow U now st' ↔
      if flushed then ReleaseKeeps U st.hosts.domain now st.pool.leases key lease
      else UnwrittenReleaseKeeps U st.hosts.domain now st.pool.leases key lease := by
  unfold NamesFollow at h ⊢
  cases flushed with
  | true =>
      simp only [if_true] at hhosts ⊢
      rw [hhosts, hstore, unregisterLease_lookup, unregisterLease_domain, h.erase_iff,
        releaseKeeps_iff hlookup]
  | false =>
      simp only [Bool.false_eq_true, if_false] at hhosts ⊢
      rw [hhosts, hstore, h.keep_iff, unwrittenReleaseKeeps_iff hlookup]

/-- A step from a table that is right leaves it right exactly when it meets
the condition. -/
theorem nameStep_follow_iff {cfg : ServerConfig} {w w' : NameWorld} {e : NameEvent}
    (h : NamesFollow U w.now w.state) (hstep : NameStep U cfg w e w') :
    NamesFollow U w'.now w'.state ↔ NamesKept U cfg w e := by
  cases hstep with
  | wait later hle =>
      unfold NamesFollow at h ⊢
      rw [h.keep_iff]
      unfold NamesKept LapsesKeep
      constructor
      · intro hsame name ip
        exact (hsame name ip).mpr
      · intro hkeep name ip
        exact ⟨fun hnamed => hnamed.earlier hle, hkeep name ip⟩
  | packet env msg hunix _ =>
      unfold NamesKept
      rcases handlePacket_cases U cfg env w.state msg with
        ⟨lease, hcreated, hreleased, hstore, hhosts⟩ |
        ⟨key, lease, hcreated, hreleased, hlookup, hstore, hhosts⟩ |
        ⟨hcreated, hreleased, hstore, hhosts⟩
      · rw [grant_follow_iff h hstore hhosts]
        simp [hcreated, hreleased]
      · rw [release_follow_iff h hlookup hstore hhosts]
        simp [hcreated, hreleased]
      · have hsame : NamesFollow U w.now (handlePacket U cfg env w.state msg).1 := by
          unfold NamesFollow
          rw [hstore, hhosts]
          exact h
        simp [hcreated, hreleased, hsame]

/-! ### The start -/

variable (U)

/-- What a start registers, in order: the static leases, and the active ones of
the file. -/
def registered (domain : Option String) (cfg : DhcpV4Config) (env : StartEnv) :
    List (List String × IpAddr) :=
  (staticLeases cfg ++ activeDynamic env.order env.unix).map
    (fun lease => (lease.names U domain, .v4 lease.ip))

/-- The condition on a start from the table `hosts`, with `store` as loaded and
filled. The leases that count give every name at most one address; what is last
registered for a name is given by one of them; and a name that is not
registered is in the table exactly when one of them gives it. -/
structure StartKeeps (cfg : DhcpV4Config) (env : StartEnv) (hosts : DynamicHosts)
    (store : LeaseStore) : Prop where
  agree : ∀ name ip ip', Named U hosts.domain env.unix store name ip →
    Named U hosts.domain env.unix store name ip' → ip = ip'
  held : ∀ name ip, LastWrite (registered U hosts.domain cfg env) name ip →
    Named U hosts.domain env.unix store name ip
  others : ∀ name, (∀ w ∈ registered U hosts.domain cfg env, name ∉ w.1) →
    ∀ ip, hosts.entries.lookup name = some ip ↔ Named U hosts.domain env.unix store name ip

variable {U}

theorem serve_follow_iff {cfg : DhcpV4Config} {env : StartEnv} {hosts hosts' : DynamicHosts}
    {scfg : ServerConfig} {st : ServerState}
    (h : serve U cfg env hosts = (hosts', .ok (scfg, st))) :
    NamesFollow U env.unix st ↔ StartKeeps U cfg env hosts st.pool.leases := by
  obtain ⟨_, _, _, _, _, _, _, hhosts⟩ := serve_ok U h
  obtain ⟨hdomain, htable⟩ :=
    foldl_registerLease U (staticLeases cfg ++ activeDynamic env.order env.unix) hosts
  unfold NamesFollow
  rw [hhosts, htable, hdomain, follows_writeAll_iff]
  constructor
  · rintro ⟨hagree, hheld, hothers⟩
    exact ⟨hagree, hheld, hothers⟩
  · intro hstart
    exact ⟨hstart.agree, hstart.held, hstart.others⟩

/-- In every run of a server that starts with the leases and the table in
agreement, and whose waits, grants and releases meet the condition, the table
follows the leases in every state. -/
theorem names_follow_leases {cfg : DhcpV4Config} {env : StartEnv}
    {hosts hosts' : DynamicHosts} {scfg : ServerConfig} {st : ServerState}
    (started : serve U cfg env hosts = (hosts', .ok (scfg, st)))
    (start : StartKeeps U cfg env hosts st.pool.leases)
    {es : List NameEvent} {w : NameWorld}
    (run : Steps (guarded (NameStep U scfg) (NamesKept U scfg)) ⟨st, env.unix⟩ es w) :
    NamesFollow U w.now w.state := by
  have hstart : NamesFollow U env.unix st := (serve_follow_iff started).mpr start
  refine @Steps.invariant _ _ _ (fun w => NamesFollow U w.now w.state) _ _ _ run hstart ?_
  intro t e u ht hstep
  exact (nameStep_follow_iff ht hstep.1).mpr hstep.2

/-! ### A name outlives its lease -/

/-- A REQUEST for `ip` from the client whose address ends in `last`. -/
def namedRequest (last : UInt8) (ip : Ipv4Addr) (hostname : String) : Packet where
  msgType := some .request
  chaddr := [2, 0, 0, 0, 0, last]
  hostname := some hostname
  requestedIp := some ip

/-- The server once started. -/
def smallServer : ServerState := { emptyServer with hosts := .new (some "lan") }

private theorem smallConfig_serve :
    serve asciiTables smallConfig firstStart (.new (some "lan")) =
      (.new (some "lan"), .ok (smallPool, smallServer)) := by
  rfl

private theorem not_named_empty {domain : Option String} {now : Nat} {name : String}
    {ip : IpAddr} : ¬ Named U domain now ⟨∅⟩ name ip := by
  rintro ⟨key, lease, hlookup, _⟩
  simp at hlookup

private theorem smallServer_start :
    StartKeeps asciiTables smallConfig firstStart (.new (some "lan")) smallServer.pool.leases := by
  refine ⟨?_, ?_, ?_⟩
  · intro name ip ip' hnamed
    exact absurd hnamed not_named_empty
  · rintro name ip ⟨before, w, after, hwrites, _⟩
    have hnil : registered asciiTables (some "lan") smallConfig firstStart = [] := rfl
    simp [DynamicHosts.new, hnil] at hwrites
  · intro name _ ip
    constructor
    · intro hlookup
      simp [DynamicHosts.new] at hlookup
    · intro hnamed
      exact absurd hnamed not_named_empty

private def nasRequest : NameEvent := .packet (quietEnv 0 []) (namedRequest 1 0x0a00000a "NAS")

private def nasLease : Lease where
  mac := clientMac 1
  ip := 0x0a00000a
  hostname := some "NAS"
  expiresAt := 3600
  isStatic := false

private def afterNasRequest : NameWorld where
  state := (handlePacket asciiTables smallPool (quietEnv 0 []) smallServer
    (namedRequest 1 0x0a00000a "NAS")).1
  now := 0

private theorem nasRequest_step :
    NameStep asciiTables smallPool ⟨smallServer, 0⟩ nasRequest afterNasRequest :=
  .packet _ _ _ rfl (List.Perm.refl _)

theorem names_follow_leases_granted :
    ∃ w, Steps (guarded (NameStep asciiTables smallPool) (NamesKept asciiTables smallPool))
        ⟨smallServer, 0⟩ [nasRequest] w ∧
      w.state.hosts.entries.lookup "nas.lan" = some (.v4 0x0a00000a) ∧
      NamesFollow asciiTables w.now w.state := by
  have hkept : NamesKept asciiTables smallPool ⟨smallServer, 0⟩ nasRequest := by
    refine ⟨?_, ?_⟩
    · intro lease hlease
      cases hlease
      refine ⟨?_, ?_⟩
      · intro name _
        refine ⟨Or.inl rfl, ?_⟩
        intro ip hbeside
        exact absurd hbeside.named not_named_empty
      · intro old hlookup
        simp [smallServer, emptyServer] at hlookup
    · intro key lease hreleased
      cases hreleased
  have hstep : guarded (NameStep asciiTables smallPool) (NamesKept asciiTables smallPool)
      ⟨smallServer, 0⟩ nasRequest afterNasRequest := ⟨nasRequest_step, hkept⟩
  have run := Steps.single hstep
  exact ⟨_, run, by rfl, names_follow_leases smallConfig_serve smallServer_start run⟩

/-- An hour after the only grant the name is still there. -/
theorem name_stays_after_lapse :
    ¬ ∀ (U : UnicodeTables) (cfg : DhcpV4Config) (env : StartEnv) (domain : Option String)
      (hosts' : DynamicHosts) (scfg : ServerConfig) (st : ServerState) (es : List NameEvent)
      (w : NameWorld), serve U cfg env (.new domain) = (hosts', .ok (scfg, st)) →
      Steps (NameStep U scfg) ⟨st, env.unix⟩ es w → NamesFollow U w.now w.state := by
  intro h
  have hwait : NameStep asciiTables smallPool afterNasRequest (.wait 3600)
      { afterNasRequest with now := 3600 } := .wait _ _ (by decide)
  have hfollow := h asciiTables smallConfig firstStart (some "lan") _ _ _ _ _ smallConfig_serve
    ((Steps.single nasRequest_step).next hwait)
  have hlookup : afterNasRequest.state.hosts.entries.lookup "nas" = some (.v4 0x0a00000a) := by
    rfl
  have hstore : afterNasRequest.state.pool.leases =
      ⟨(∅ : StringMap Lease).insert (macKey nasLease.mac) nasLease⟩ := by
    rfl
  have hnamed := (hfollow "nas" (.v4 0x0a00000a)).mp hlookup
  dsimp only at hnamed
  rw [hstore, named_insert_iff] at hnamed
  rcases hnamed with hgives | hbeside
  · exact absurd hgives.1 (by decide)
  · exact absurd hbeside.named not_named_empty

end Relay.Dhcp.V4
