import Relay.Dns.Upstream.HostResolver
import Relay.Dns.Wire
import Relay.Logic.Run

/-!
Where the addresses of upstream hosts come from, over every run of calls to the
resolver.
-/

namespace Relay.Dns.Upstream

open Binary Logic

variable (H : HickoryCrate) (fromAscii : String → Option Name) (T : NetText) (r : HostResolver)

/-! ### What a run has seen -/

/-- The hosts of the calls, in order. -/
def callsOf (trace : List ResolveEvent) : List String :=
  trace.filterMap fun
    | .call host _ => some host
    | _ => none

/-- What the exchanges of the `i`-th call have brought, one after another. -/
def heardBy (i : Nat) (trace : List ResolveEvent) : List (List IpAddr) :=
  trace.filterMap fun
    | .exchange j datagram => if j = i then some (recordAddrs H datagram) else none
    | _ => none

/-- The calls for the host that have stored what they found, and when. -/
def storesFor (host : String) (trace : List ResolveEvent) : List (Nat × Nat) :=
  trace.filterMap fun
    | .store i host' now => if host' = host then some (i, now) else none
    | _ => none

/-- The addresses of the first server that has any, of either family. -/
def firstAnswered : List SocketAddr → List (List IpAddr) → Option (List IpAddr)
  | _ :: servers, a :: aaaa :: heard =>
      if a ++ aaaa ≠ [] then some (a ++ aaaa) else firstAnswered servers heard
  | _, _ => none

theorem firstAnswered_ne_nil {servers : List SocketAddr} {heard : List (List IpAddr)}
    {addrs : List IpAddr} (h : firstAnswered servers heard = some addrs) : addrs ≠ [] := by
  fun_induction firstAnswered servers heard with
  | case1 ns servers a aaaa heard hne =>
      cases h
      exact hne
  | case2 ns servers a aaaa heard hempty ih => exact ih h
  | case3 => cases h

/-- Servers that have nothing are passed over. -/
theorem firstAnswered_append (tried servers : List SocketAddr) (heard : List (List IpAddr)) :
    firstAnswered (tried ++ servers) (List.replicate (2 * tried.length) [] ++ heard) =
      firstAnswered servers heard := by
  induction tried with
  | nil => rfl
  | cons ns tried ih =>
      have hlength : 2 * (ns :: tried).length = 2 * tried.length + 1 + 1 := by
        rw [List.length_cons]
        omega
      rw [hlength, List.replicate_succ, List.replicate_succ]
      simpa [firstAnswered] using ih

section Traces

variable {H} {trace : List ResolveEvent} {i : Nat}

theorem callsOf_append (trace : List ResolveEvent) (e : ResolveEvent) :
    callsOf (trace ++ [e]) = callsOf trace ++ (match e with
      | .call host _ => [host]
      | _ => []) := by
  unfold callsOf
  rw [List.filterMap_append]
  cases e <;> rfl

theorem heardBy_append (trace : List ResolveEvent) (e : ResolveEvent) (i : Nat) :
    heardBy H i (trace ++ [e]) = heardBy H i trace ++ (match e with
      | .exchange j datagram => if j = i then [recordAddrs H datagram] else []
      | _ => []) := by
  unfold heardBy
  rw [List.filterMap_append]
  cases e with
  | exchange j datagram =>
      congr 1
      by_cases hj : j = i <;> simp [hj]
  | _ => rfl

theorem storesFor_append (host : String) (trace : List ResolveEvent) (e : ResolveEvent) :
    storesFor host (trace ++ [e]) = storesFor host trace ++ (match e with
      | .store j host' now => if host' = host then [(j, now)] else []
      | _ => []) := by
  unfold storesFor
  rw [List.filterMap_append]
  cases e with
  | store j host' now =>
      congr 1
      by_cases hhost : host' = host <;> simp [hhost]
  | _ => rfl

end Traces

/-! ### Where answers come from -/

section Origin

variable (trace : List ResolveEvent)

/-- The call has asked for the host, and the first server with addresses for it
had these. -/
def FoundBy (j : Nat) (host : String) (addrs : List IpAddr) : Prop :=
  (callsOf trace)[j]? = some host ∧ firstAnswered r.defaultNs (heardBy H j trace) = some addrs

/-- An answer is the address that was written as the host, what the call has
found itself, or what was the latest in the cache when it began and not too old. -/
inductive Origin (i : Nat) (host : String) (addrs : List IpAddr) (now : Nat) : Prop where
  | literal (ip : IpAddr) (parsed : T.ipAddr host = some ip) (only : addrs = [ip])
  | own (named : T.ipAddr host = none) (found : FoundBy H r trace i host addrs)
      (stored : .store i host now ∈ trace)
  | cached (named : T.ipAddr host = none) (before after : List ResolveEvent)
      (began : trace = before ++ .call host now :: after) (place : (callsOf before).length = i)
      (j storedAt : Nat) (latest : (storesFor host before).getLast? = some (j, storedAt))
      (found : FoundBy H r trace j host addrs) (fresh : now - storedAt < hostCacheTtl)

/-- Why a call fails: there is nobody to ask, the host is no name, or nobody
has an address for it. -/
def Unanswered (i : Nat) (host : String) : Prop :=
  T.ipAddr host = none ∧ (r.defaultNs = [] ∨ fromAscii host = none ∨
    heardBy H i trace = List.replicate (2 * r.defaultNs.length) [])

/-- Where a call is, by what it has heard. -/
def ResolvePhase.Accounted (i : Nat) (host : String) : ResolvePhase → Prop
  | .asking name servers found =>
      T.ipAddr host = none ∧ fromAscii host = some name ∧ servers ≠ [] ∧
        ∃ tried, r.defaultNs = tried ++ servers ∧
          heardBy H i trace = List.replicate (2 * tried.length) [] ++ found.toList
  | .storing addrs =>
      T.ipAddr host = none ∧ firstAnswered r.defaultNs (heardBy H i trace) = some addrs
  | .resolved addrs now => Origin H T r trace i host addrs now
  | .failed _ => Unanswered H fromAscii T r trace i host
  | .dropped => True

def ResolveTask.Accounted (i : Nat) (task : ResolveTask) : Prop :=
  (callsOf trace)[i]? = some task.host ∧
    task.phase.Accounted H fromAscii T r trace i task.host

/-- The cache has of each host what the latest store has put there. -/
def CacheAccounted (cache : String → Option HostEntry) : Prop :=
  ∀ host, match (storesFor host trace).getLast? with
    | some (j, storedAt) =>
        ∃ addrs, cache host = some ⟨addrs, storedAt⟩ ∧ FoundBy H r trace j host addrs
    | none => cache host = none

/-- Every query is for a host that was asked for and is no address, and goes to
a default name server. -/
def AskedRightly (asked : List (SocketAddr × Message)) : Prop :=
  ∀ query ∈ asked, query.1 ∈ r.defaultNs ∧ ∃ host ∈ callsOf trace, T.ipAddr host = none ∧
    ∃ name rtype id, fromAscii host = some name ∧ (rtype = .a ∨ rtype = .aaaa) ∧
      query.2 = hostQuery name rtype id

structure Resolving.Accounted (s : Resolving) : Prop where
  calls : (callsOf trace).length = s.tasks.length
  tasks : ∀ i (task : ResolveTask), s.tasks[i]? = some task → task.Accounted H fromAscii T r trace i
  cache : CacheAccounted H r trace s.cache
  asked : AskedRightly fromAscii T r trace s.asked
  /-- Only calls that have begun have heard anything. -/
  heard : ∀ i, s.tasks.length ≤ i → heardBy H i trace = []

end Origin

/-! ### One step -/

section Step

variable {H fromAscii T r} {trace : List ResolveEvent} {s s' : Resolving} {e : ResolveEvent}
  {i j : Nat} {host : String} {addrs : List IpAddr}

theorem callsOf_get_append {host : String} (h : (callsOf trace)[i]? = some host)
    (e : ResolveEvent) : (callsOf (trace ++ [e]))[i]? = some host := by
  obtain ⟨hlt, _⟩ := List.getElem?_eq_some_iff.mp h
  rw [callsOf_append, List.getElem?_append_left hlt, h]

theorem FoundBy.append (h : FoundBy H r trace j host addrs)
    (hheard : heardBy H j (trace ++ [e]) = heardBy H j trace) :
    FoundBy H r (trace ++ [e]) j host addrs :=
  ⟨callsOf_get_append h.1 e, by rw [hheard]; exact h.2⟩

/-- What every call has found stays found. -/
def KeepsFound (H : HickoryCrate) (r : HostResolver) (trace : List ResolveEvent)
    (e : ResolveEvent) : Prop :=
  ∀ j host addrs, FoundBy H r trace j host addrs → FoundBy H r (trace ++ [e]) j host addrs

theorem Origin.append {now : Nat} (h : Origin H T r trace i host addrs now)
    (hkeep : KeepsFound H r trace e) : Origin H T r (trace ++ [e]) i host addrs now := by
  cases h with
  | literal ip parsed only => exact .literal ip parsed only
  | own named found stored =>
      exact .own named (hkeep _ _ _ found) (List.mem_append_left _ stored)
  | cached named before after began place j storedAt latest found fresh =>
      exact .cached named before (after ++ [e]) (by simp [began]) place j storedAt latest
        (hkeep _ _ _ found) fresh

theorem ResolveTask.Accounted.append {task : ResolveTask}
    (h : task.Accounted H fromAscii T r trace i) (hkeep : KeepsFound H r trace e)
    (hheard : heardBy H i (trace ++ [e]) = heardBy H i trace) :
    task.Accounted H fromAscii T r (trace ++ [e]) i := by
  obtain ⟨host, phase⟩ := task
  obtain ⟨hcall, hphase⟩ := h
  refine ⟨callsOf_get_append hcall e, ?_⟩
  cases phase with
  | asking name servers found =>
      unfold ResolvePhase.Accounted
      rw [hheard]
      exact hphase
  | storing addrs =>
      unfold ResolvePhase.Accounted
      rw [hheard]
      exact hphase
  | resolved addrs now => exact Origin.append hphase hkeep
  | failed error =>
      unfold ResolvePhase.Accounted Unanswered
      rw [hheard]
      exact hphase
  | dropped => trivial

theorem CacheAccounted.append {cache : String → Option HostEntry}
    (h : CacheAccounted H r trace cache) (hkeep : KeepsFound H r trace e)
    (hstores : ∀ host, storesFor host (trace ++ [e]) = storesFor host trace) :
    CacheAccounted H r (trace ++ [e]) cache := by
  intro host
  have hhost := h host
  rw [hstores]
  cases hlast : (storesFor host trace).getLast? with
  | none =>
      rw [hlast] at hhost
      exact hhost
  | some latest =>
      rw [hlast] at hhost
      obtain ⟨addrs, hcache, hfound⟩ := hhost
      exact ⟨addrs, hcache, hkeep _ _ _ hfound⟩

theorem AskedRightly.append {asked : List (SocketAddr × Message)}
    (h : AskedRightly fromAscii T r trace asked) (e : ResolveEvent) :
    AskedRightly fromAscii T r (trace ++ [e]) asked := by
  intro query hquery
  obtain ⟨hns, host, hhost, hrest⟩ := h query hquery
  refine ⟨hns, host, ?_, hrest⟩
  rw [callsOf_append]
  exact List.mem_append_left _ hhost

/-- A call that is asking asks for its own host. -/
theorem Resolving.Accounted.ask (h : s.Accounted H fromAscii T r trace) {task : ResolveTask}
    (hat : s.tasks[i]? = some task) : (s.ask task.phase).Accounted H fromAscii T r trace := by
  unfold Resolving.ask
  split
  · rename_i ns name rtype hasks
    refine ⟨h.calls, h.tasks, h.cache, ?_, h.heard⟩
    intro query hquery
    rcases List.mem_append.mp hquery with hold | hnew
    · exact h.asked query hold
    · obtain ⟨host, phase⟩ := task
      obtain ⟨hcall, hphase⟩ := h.tasks i _ hat
      rw [List.mem_singleton.mp hnew]
      have hhost : host ∈ callsOf trace := List.mem_of_getElem? hcall
      cases phase with
      | asking name' servers found =>
          obtain ⟨hnamed, hname, hne, tried, hservers, _⟩ := hphase
          cases servers with
          | nil => exact absurd rfl hne
          | cons ns' servers =>
              have hmem : ns' ∈ r.defaultNs := by
                rw [hservers]
                exact List.mem_append_right _ List.mem_cons_self
              cases found with
              | none =>
                  cases hasks
                  exact ⟨hmem, host, hhost, hnamed, name, .a, _, hname, Or.inl rfl, rfl⟩
              | some found =>
                  cases hasks
                  exact ⟨hmem, host, hhost, hnamed, name, .aaaa, _, hname, Or.inr rfl, rfl⟩
      | _ => cases hasks
  · exact h

theorem freshAddrs_eq_some {entry : Option HostEntry} {now : Nat} :
    freshAddrs entry now = some addrs ↔
      ∃ storedAt, entry = some ⟨addrs, storedAt⟩ ∧ now - storedAt < hostCacheTtl := by
  unfold freshAddrs
  constructor
  · intro h
    obtain ⟨kept, hkept, rfl⟩ := Option.map_eq_some_iff.mp h
    obtain ⟨rfl, hfresh⟩ := Option.filter_eq_some_iff.mp hkept
    exact ⟨kept.insertedAt, rfl, by simpa using hfresh⟩
  · rintro ⟨storedAt, rfl, hfresh⟩
    simp [hfresh]

/-- Where a call is when it begins. -/
theorem start_accounted (h : s.Accounted H fromAscii T r trace) (host : String) (now : Nat) :
    (ResolveTask.mk host (r.start fromAscii T s.cache host now)).Accounted H fromAscii T r
      (trace ++ [.call host now]) s.tasks.length := by
  have hheard : heardBy H s.tasks.length (trace ++ [.call host now]) = [] := by
    rw [heardBy_append, h.heard _ (le_refl _)]
    rfl
  have hcall : (callsOf (trace ++ [.call host now]))[s.tasks.length]? = some host := by
    rw [callsOf_append, ← h.calls]
    simp
  refine ⟨hcall, ?_⟩
  dsimp only
  cases hnamed : T.ipAddr host with
  | some ip =>
      have hstart : r.start fromAscii T s.cache host now = .resolved [ip] now := by
        simp [HostResolver.start, hnamed]
      rw [hstart]
      exact .literal ip hnamed rfl
  | none =>
      cases hcached : freshAddrs (s.cache host) now with
      | some addrs =>
          have hstart : r.start fromAscii T s.cache host now = .resolved addrs now := by
            simp [HostResolver.start, hnamed, hcached]
          rw [hstart]
          obtain ⟨storedAt, hentry, hfresh⟩ := freshAddrs_eq_some.mp hcached
          have hhost := h.cache host
          cases hlast : (storesFor host trace).getLast? with
          | none =>
              rw [hlast] at hhost
              dsimp only at hhost
              rw [hhost] at hentry
              cases hentry
          | some latest =>
              obtain ⟨j, storedAt'⟩ := latest
              rw [hlast] at hhost
              obtain ⟨addrs', hcache, hfound⟩ := hhost
              rw [hcache] at hentry
              cases hentry
              have hkept : FoundBy H r (trace ++ [.call host now]) j host addrs := by
                apply hfound.append
                rw [heardBy_append]
                exact List.append_nil _
              exact .cached hnamed trace [] rfl h.calls j storedAt hlast hkept hfresh
      | none =>
          rcases eq_or_ne r.defaultNs [] with hnone | hsome
          · have hstart : r.start fromAscii T s.cache host now = .failed .noNameserver := by
              simp [HostResolver.start, hnamed, hcached, hnone]
            rw [hstart]
            exact ⟨hnamed, Or.inl hnone⟩
          · cases hname : fromAscii host with
            | none =>
                have hstart : r.start fromAscii T s.cache host now = .failed .unresolved := by
                  simp [HostResolver.start, hnamed, hcached, hsome, hname]
                rw [hstart]
                exact ⟨hnamed, Or.inr (Or.inl hname)⟩
            | some name =>
                have hstart : r.start fromAscii T s.cache host now =
                    .asking name r.defaultNs none := by
                  simp [HostResolver.start, hnamed, hcached, hsome, hname]
                rw [hstart]
                exact ⟨hnamed, hname, hsome, [], rfl, hheard⟩

theorem Resolving.Accounted.call (h : s.Accounted H fromAscii T r trace) (host : String)
    (now : Nat) :
    Resolving.Accounted H fromAscii T r (trace ++ [.call host now])
      { s with tasks := s.tasks ++ [⟨host, r.start fromAscii T s.cache host now⟩] } := by
  have hheard : ∀ i, heardBy H i (trace ++ [.call host now]) = heardBy H i trace := by
    intro i
    rw [heardBy_append]
    exact List.append_nil _
  have hkeep : KeepsFound H r trace (.call host now) :=
    fun j host addrs hfound => hfound.append (hheard j)
  have hstores : ∀ other, storesFor other (trace ++ [.call host now]) = storesFor other trace := by
    intro other
    rw [storesFor_append]
    exact List.append_nil _
  refine ⟨?_, ?_, h.cache.append hkeep hstores, h.asked.append _, ?_⟩
  · rw [callsOf_append, List.length_append, List.length_append, h.calls]
    rfl
  · intro i task hat
    rcases Nat.lt_trichotomy i s.tasks.length with hlt | rfl | hgt
    · rw [List.getElem?_append_left hlt] at hat
      exact (h.tasks i task hat).append hkeep (hheard i)
    · rw [List.getElem?_append_right (le_refl _), Nat.sub_self] at hat
      cases hat
      exact start_accounted h host now
    · rw [List.getElem?_eq_none (by simp; omega)] at hat
      cases hat
  · intro i hi
    rw [hheard]
    apply h.heard
    simp only [List.length_append, List.length_singleton] at hi
    omega

/-- A call that is still asking has found nothing. -/
theorem not_foundBy_of_asking {name : Name} {servers : List SocketAddr}
    {found : Option (List IpAddr)}
    (h : (ResolveTask.mk host (.asking name servers found)).Accounted H fromAscii T r trace i) :
    ∀ host addrs, ¬ FoundBy H r trace i host addrs := by
  rintro host addrs ⟨_, hfirst⟩
  obtain ⟨_, _, _, _, tried, hservers, hheard⟩ := h
  rw [hheard, hservers, firstAnswered_append] at hfirst
  cases found <;> cases servers <;> simp [firstAnswered] at hfirst

/-- What an exchange brings is the next thing that its call has heard. -/
theorem exchange_accounted {name : Name} {servers : List SocketAddr}
    {found : Option (List IpAddr)} {datagram : Option Bytes}
    (h : (ResolveTask.mk host (.asking name servers found)).Accounted H fromAscii T r trace i) :
    (ResolveTask.mk host ((ResolvePhase.asking name servers found).heard
      (recordAddrs H datagram))).Accounted H fromAscii T r (trace ++ [.exchange i datagram]) i := by
  obtain ⟨hcall, hnamed, hname, hne, tried, hservers, hheard⟩ := h
  refine ⟨callsOf_get_append hcall _, ?_⟩
  have hheard' : heardBy H i (trace ++ [.exchange i datagram]) =
      List.replicate (2 * tried.length) [] ++ (found.toList ++ [recordAddrs H datagram]) := by
    rw [heardBy_append, hheard, List.append_assoc]
    simp
  cases found with
  | none => exact ⟨hnamed, hname, hne, tried, hservers, hheard'⟩
  | some found =>
      cases servers with
      | nil => exact absurd rfl hne
      | cons ns rest =>
          have hfirst : firstAnswered r.defaultNs
              (heardBy H i (trace ++ [.exchange i datagram])) =
                if found ++ recordAddrs H datagram ≠ [] then
                  some (found ++ recordAddrs H datagram) else none := by
            rw [hheard', hservers, firstAnswered_append]
            simp [firstAnswered]
          dsimp only [ResolvePhase.heard]
          split
          · rename_i hsome
            rw [if_pos hsome] at hfirst
            exact ⟨hnamed, hfirst⟩
          · rename_i hnone
            obtain ⟨rfl, hempty⟩ := List.append_eq_nil_iff.mp (not_not.mp hnone)
            have hheard'' : heardBy H i (trace ++ [.exchange i datagram]) =
                List.replicate (2 * (tried ++ [ns]).length) [] := by
              rw [hheard', hempty, List.length_append, List.length_singleton, Nat.mul_add,
                List.replicate_add]
              rfl
            cases rest with
            | nil => exact ⟨hnamed, Or.inr (Or.inr (by rw [hheard'', hservers]))⟩
            | cons ns' rest =>
                exact ⟨hnamed, hname, by simp, tried ++ [ns], by simp [hservers],
                  by rw [hheard'']; simp⟩

/-- Another task's turn: what holds of the others still does. -/
theorem tasks_set {task : ResolveTask} (h : s.Accounted H fromAscii T r trace)
    (hkeep : KeepsFound H r trace e)
    (hheard : ∀ j, j ≠ i → heardBy H j (trace ++ [e]) = heardBy H j trace)
    (htask : task.Accounted H fromAscii T r (trace ++ [e]) i) :
    ∀ j (other : ResolveTask), (s.tasks.set i task)[j]? = some other →
      other.Accounted H fromAscii T r (trace ++ [e]) j := by
  intro j other hat
  rcases eq_or_ne i j with rfl | hne
  · obtain ⟨_, hset⟩ := List.getElem?_eq_some_iff.mp hat
    rw [List.getElem_set_self] at hset
    rw [← hset]
    exact htask
  · rw [List.getElem?_set_ne hne] at hat
    exact (h.tasks j other hat).append hkeep (hheard j hne.symm)

theorem Resolving.Accounted.exchange (h : s.Accounted H fromAscii T r trace) {name : Name}
    {servers : List SocketAddr} {found : Option (List IpAddr)} {datagram : Option Bytes}
    (hat : s.tasks[i]? = some ⟨host, .asking name servers found⟩) :
    Resolving.Accounted H fromAscii T r (trace ++ [.exchange i datagram])
      { s with
        tasks := s.tasks.set i
          ⟨host, (ResolvePhase.asking name servers found).heard (recordAddrs H datagram)⟩ } := by
  have htask := h.tasks i _ hat
  have hheard : ∀ j, j ≠ i → heardBy H j (trace ++ [.exchange i datagram]) = heardBy H j trace := by
    intro j hne
    rw [heardBy_append]
    simp [hne.symm]
  have hkeep : KeepsFound H r trace (.exchange i datagram) := by
    intro j other addrs hfound
    rcases eq_or_ne j i with rfl | hne
    · exact absurd hfound (not_foundBy_of_asking htask other addrs)
    · exact hfound.append (hheard j hne)
  have hstores : ∀ other,
      storesFor other (trace ++ [.exchange i datagram]) = storesFor other trace := by
    intro other
    rw [storesFor_append]
    exact List.append_nil _
  refine ⟨?_, tasks_set h hkeep hheard (exchange_accounted htask), h.cache.append hkeep hstores,
    h.asked.append _, ?_⟩
  · rw [callsOf_append, List.append_nil, List.length_set]
    exact h.calls
  · intro j hj
    obtain ⟨hlt, _⟩ := List.getElem?_eq_some_iff.mp hat
    rw [List.length_set] at hj
    rw [hheard j (by omega)]
    exact h.heard j hj

theorem Resolving.Accounted.store (h : s.Accounted H fromAscii T r trace) {now : Nat}
    (hat : s.tasks[i]? = some ⟨host, .storing addrs⟩) :
    Resolving.Accounted H fromAscii T r (trace ++ [.store i host now])
      { s with
        cache := Function.update s.cache host (some ⟨addrs, now⟩)
        tasks := s.tasks.set i ⟨host, .resolved addrs now⟩ } := by
  obtain ⟨hcall, hnamed, hfirst⟩ := h.tasks i _ hat
  have hheard : ∀ j, heardBy H j (trace ++ [.store i host now]) = heardBy H j trace := by
    intro j
    rw [heardBy_append]
    exact List.append_nil _
  have hkeep : KeepsFound H r trace (.store i host now) :=
    fun j other addrs hfound => hfound.append (hheard j)
  have hfound : FoundBy H r (trace ++ [.store i host now]) i host addrs :=
    hkeep i host addrs ⟨hcall, hfirst⟩
  have htask : (ResolveTask.mk host (.resolved addrs now)).Accounted H fromAscii T r
      (trace ++ [.store i host now]) i :=
    ⟨callsOf_get_append hcall _, .own hnamed hfound (by simp)⟩
  refine ⟨?_, tasks_set h hkeep (fun j _ => hheard j) htask, ?_, h.asked.append _, ?_⟩
  · rw [callsOf_append, List.append_nil, List.length_set]
    exact h.calls
  · intro other
    rcases eq_or_ne host other with rfl | hne
    · have hstored : storesFor host (trace ++ [.store i host now]) =
          storesFor host trace ++ [(i, now)] := by
        rw [storesFor_append]
        simp
      rw [hstored, List.getLast?_concat]
      exact ⟨addrs, Function.update_self host _ _, hfound⟩
    · have hstored : storesFor other (trace ++ [.store i host now]) = storesFor other trace := by
        rw [storesFor_append]
        simp [hne]
      rw [hstored]
      have hother := h.cache other
      cases hlast : (storesFor other trace).getLast? with
      | none =>
          rw [hlast] at hother
          exact (Function.update_of_ne hne.symm _ _).trans hother
      | some latest =>
          rw [hlast] at hother
          obtain ⟨addrs', hcache, hfound'⟩ := hother
          exact ⟨addrs', (Function.update_of_ne hne.symm _ _).trans hcache, hkeep _ _ _ hfound'⟩
  · intro j hj
    rw [List.length_set] at hj
    rw [hheard]
    exact h.heard j hj

theorem Resolving.Accounted.drop (h : s.Accounted H fromAscii T r trace) {phase : ResolvePhase}
    (hat : s.tasks[i]? = some ⟨host, phase⟩) :
    Resolving.Accounted H fromAscii T r (trace ++ [.drop i])
      { s with tasks := s.tasks.set i ⟨host, .dropped⟩ } := by
  have hheard : ∀ j, heardBy H j (trace ++ [.drop i]) = heardBy H j trace := by
    intro j
    rw [heardBy_append]
    exact List.append_nil _
  have hkeep : KeepsFound H r trace (.drop i) :=
    fun j other addrs hfound => hfound.append (hheard j)
  have hstores : ∀ other, storesFor other (trace ++ [.drop i]) = storesFor other trace := by
    intro other
    rw [storesFor_append]
    exact List.append_nil _
  have htask : (ResolveTask.mk host .dropped).Accounted H fromAscii T r (trace ++ [.drop i]) i :=
    ⟨callsOf_get_append (h.tasks i _ hat).1 _, trivial⟩
  refine ⟨?_, tasks_set h hkeep (fun j _ => hheard j) htask, h.cache.append hkeep hstores,
    h.asked.append _, ?_⟩
  · rw [callsOf_append, List.append_nil, List.length_set]
    exact h.calls
  · intro j hj
    rw [List.length_set] at hj
    rw [hheard]
    exact h.heard j hj

theorem Resolving.Accounted.next (h : s.Accounted H fromAscii T r trace)
    (hstep : s.next H fromAscii T r e = some s') :
    s'.Accounted H fromAscii T r (trace ++ [e]) := by
  cases e with
  | call host now =>
      cases hstep
      have hat : (s.tasks ++ [⟨host, r.start fromAscii T s.cache host now⟩])[s.tasks.length]? =
          some ⟨host, r.start fromAscii T s.cache host now⟩ := by
        simp
      exact (h.call host now).ask hat
  | exchange i datagram =>
      rw [Resolving.next] at hstep
      split at hstep
      · rename_i host name servers found hat
        cases hstep
        obtain ⟨hlt, _⟩ := List.getElem?_eq_some_iff.mp hat
        have hset : (s.tasks.set i ⟨host, (ResolvePhase.asking name servers found).heard
            (recordAddrs H datagram)⟩)[i]? = some ⟨host, (ResolvePhase.asking name servers
              found).heard (recordAddrs H datagram)⟩ := List.getElem?_set_self hlt
        exact (h.exchange hat).ask hset
      · cases hstep
  | store i host now =>
      rw [Resolving.next] at hstep
      split at hstep
      · rename_i host' addrs hat
        split at hstep
        · rename_i hhost
          subst hhost
          cases hstep
          exact h.store hat
        · cases hstep
      · cases hstep
  | drop i =>
      rw [Resolving.next] at hstep
      split at hstep
      · rename_i host name servers found hat
        cases hstep
        exact h.drop hat
      · rename_i host addrs hat
        cases hstep
        exact h.drop hat
      · cases hstep

end Step

/-! ### Runs -/

/-- However the calls overlap: a host is resolved to the address it is, to what
the first default name server with addresses had for it, or to the latest such
answer in the cache, which is at most five minutes old; a call fails only when
nobody has an address; and only default name servers are asked. -/
theorem hosts_resolved_rightly {trace : List ResolveEvent} {s : Resolving}
    (run : Steps (fun s e t => s.next H fromAscii T r e = some t) {} trace s) :
    (∀ i task, s.tasks[i]? = some task →
      (∀ addrs now, task.phase = .resolved addrs now →
        addrs ≠ [] ∧ Origin H T r trace i task.host addrs now) ∧
      (∀ e, task.phase = .failed e → Unanswered H fromAscii T r trace i task.host)) ∧
    AskedRightly fromAscii T r trace s.asked := by
  have haccounted : s.Accounted H fromAscii T r trace := by
    generalize hstart : ({} : Resolving) = start at run
    induction run with
    | done =>
        subst hstart
        exact ⟨rfl, fun _ _ h => (by cases h), fun _ => rfl, fun _ h => (by cases h), fun _ _ => rfl⟩
    | next _ hstep ih => exact ih.next hstep
  refine ⟨?_, haccounted.asked⟩
  intro i task hat
  obtain ⟨_, hphase⟩ := haccounted.tasks i task hat
  constructor
  · intro addrs now hresolved
    rw [hresolved] at hphase
    refine ⟨?_, hphase⟩
    cases hphase with
    | literal ip _ only => simp [only]
    | own _ found _ => exact firstAnswered_ne_nil found.2
    | cached _ _ _ _ _ _ _ _ found _ => exact firstAnswered_ne_nil found.2
  · intro e hfailed
    rw [hfailed] at hphase
    exact hphase

/-! ### Two calls, of which the first finds an address -/

/-- 10.0.0.1 for `a.`, with the question. -/
def addressDatagram : Bytes :=
  [0, 2, 0x80, 0, 0, 1, 0, 1, 0, 0, 0, 0] ++ [1, 97, 0, 0, 1, 0, 1] ++
    [0xc0, 12, 0, 1, 0, 1, 0, 0, 1, 0x2c, 0, 4, 10, 0, 0, 1]

def addressRecord : Record :=
  { name := { labels := [[97]] }, recordType := .a, ttl := 300, data := some (.a 0x0a000001) }

def addressMessage : Message where
  id := 2
  messageType := .response
  queries := [⟨{ labels := [[97]] }, .a, 1⟩]
  answers := [addressRecord]

def addressCodec : HickoryCrate :=
  { questionCodec with
    fromBytes := fun bytes =>
      if bytes = addressDatagram then some addressMessage else questionFromBytes bytes }

def noLiterals : NetText := ⟨fun _ => none, fun _ => none, fun _ => false⟩

/-- 8.8.8.8 and 9.9.9.9. -/
def twoServers : HostResolver := ⟨[⟨.v4 0x08080808, 53⟩, ⟨.v4 0x09090909, 53⟩]⟩

/-- The first server does not answer, and the second has an address. -/
def resolveTrace : List ResolveEvent :=
  [.call "a." 0, .exchange 0 none, .exchange 0 none, .exchange 0 (some addressDatagram),
    .exchange 0 none, .store 0 "a." 2000000000, .call "a." 5000000000]

theorem hosts_resolved_rightly_twice :
    ∃ s : Resolving,
      Steps (fun s e t => s.next addressCodec asciiFromStr noLiterals twoServers e = some t) {}
        resolveTrace s ∧
      (∃ task, s.tasks[1]? = some task ∧ task.phase = .resolved [.v4 0x0a000001] 5000000000 ∧
        Origin addressCodec noLiterals twoServers resolveTrace 1 task.host [.v4 0x0a000001]
          5000000000) ∧
      AskedRightly asciiFromStr noLiterals twoServers resolveTrace s.asked := by
  let result := resolveTrace.foldlM
    (fun s e => Resolving.next addressCodec asciiFromStr noLiterals twoServers s e) {}
  have hsome : result.isSome = true := rfl
  have run : Steps (fun s e t => s.next addressCodec asciiFromStr noLiterals twoServers e = some t)
      {} resolveTrace (result.get hsome) := .of_foldlM (Option.some_get hsome).symm
  have hat : (result.get hsome).tasks[1]? =
      some ⟨"a.", .resolved [.v4 0x0a000001] 5000000000⟩ := rfl
  have hrightly := hosts_resolved_rightly addressCodec asciiFromStr noLiterals twoServers run
  have horigin := ((hrightly.1 1 _ hat).1 _ _ rfl).2
  exact ⟨_, run, ⟨_, hat, rfl, horigin⟩, hrightly.2⟩

end Relay.Dns.Upstream
