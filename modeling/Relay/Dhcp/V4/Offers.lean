import Relay.Dhcp.V4.Uniqueness

/-!
Offers made by concurrent tasks. A DISCOVER is handled in a task of its own:
it drops the lapsed offers, looks for an address while it holds the leases, and
records its offer after it has let them go. Any other task may run between two
of these steps, and between the look and the record another one may offer the
same address.
-/

namespace Relay.Dhcp.V4

open Logic

/-- What the tasks share and no DISCOVER changes. A map that is not changed
always iterates in one order. -/
structure Shared where
  pool : AddressPool
  store : LeaseStore
  order : List Lease
  iterates : order.Perm (store.leases.entries.map (fun entry => entry.2))

/-- The time since the epoch in seconds, and the monotonic clock in
nanoseconds. -/
structure Clock where
  unix : Nat
  instant : Nat

def Clock.NotAfter (c c' : Clock) : Prop := c.unix ≤ c'.unix ∧ c.instant ≤ c'.instant

def Shared.env (s : Shared) (clock : Clock) : Env where
  unix := clock.unix
  instant := clock.instant
  order := s.order
  arpFree := fun _ => true
  flushed := true

/-- What the allocation reads of a DISCOVER. -/
structure Discover where
  mac : Mac
  requested : Option Ipv4Addr

/-- An offer, with the client it was made to. -/
structure Offer where
  mac : Mac
  ip : Ipv4Addr
  instant : Nat

/-- Younger than 30 seconds. -/
def Offer.Live (o : Offer) (instant : Nat) : Prop := instant - o.instant < offerCutoff

instance (o : Offer) (instant : Nat) : Decidable (o.Live instant) :=
  inferInstanceAs (Decidable (_ < _))

/-- How far a task has come. -/
inductive TaskPhase where
  | spawned
  /-- The lapsed offers are dropped. -/
  | swept
  /-- It holds the leases, and its client has none to renew. -/
  | locked
  /-- It holds the leases, and the requested address is none to offer. -/
  | refused
  /-- It has let the leases go and will offer this address. The number is that
  of the offers made when it looked. -/
  | chosen (ip : Ipv4Addr) (looked : Nat)
  | finished
  deriving DecidableEq

def TaskPhase.holdsLeases : TaskPhase → Bool
  | locked | refused => true
  | _ => false

variable {ι : Type} [DecidableEq ι]

/-- What changes: the clocks, the recorded offers, how far each task is, and
for the reader all offers ever made, with their clients. -/
structure OfferWorld (ι : Type) where
  clock : Clock
  offered : List (Ipv4Addr × Nat)
  made : List Offer
  phase : ι → TaskPhase

variable (s : Shared) (tasks : ι → Discover)

def OfferWorld.pool (w : OfferWorld ι) : PoolState where
  offered := w.offered
  leases := s.store

/-- The next phase of a task, by what it finds. -/
def TaskPhase.next (task : Discover) (clock : Clock) (st : PoolState) (made : Nat) :
    TaskPhase → TaskPhase
  | spawned => swept
  | swept =>
      match st.leases.current task.mac clock.unix with
      | some ip => chosen ip made
      | none => locked
  | locked =>
      match task.requested.filter
          (fun ip => s.pool.isInRange ip && st.isFree (s.env clock) ip) with
      | some ip => chosen ip made
      | none => refused
  | refused =>
      match s.pool.addresses.find?
          (fun ip => !usedInLease (s.env clock) ip && !st.isOffered ip) with
      | some ip => chosen ip made
      | none => finished
  | chosen _ _ => finished
  | finished => finished

/-- A task's next step at this time. -/
def OfferWorld.after (w : OfferWorld ι) (i : ι) (clock : Clock) : OfferWorld ι where
  clock := clock
  offered :=
    match w.phase i with
    | .spawned => ((w.pool s).expireOffers clock.instant).offered
    | .chosen ip _ => ((w.pool s).offer (s.env clock) ip).offered
    | _ => w.offered
  made :=
    match w.phase i with
    | .chosen ip _ => w.made ++ [⟨(tasks i).mac, ip, clock.instant⟩]
    | _ => w.made
  phase := Function.update w.phase i
    ((w.phase i).next s (tasks i) clock (w.pool s) w.made.length)

/-- One task takes one step; it takes the lock on the leases only when no task
holds it. -/
def offerStep (w : OfferWorld ι) (e : ι × Clock) (w' : OfferWorld ι) : Prop :=
  w.clock.NotAfter e.2 ∧
    (w.phase e.1 = .swept → ∀ j, (w.phase j).holdsLeases = false) ∧
    w' = w.after s tasks e.1 e.2

/-- A phase that only looks for an address: nothing is recorded in it. -/
def TaskPhase.looks : TaskPhase → Bool
  | swept | locked | refused => true
  | _ => false

theorem after_phase_self (w : OfferWorld ι) (i : ι) (clock : Clock) :
    (w.after s tasks i clock).phase i =
      (w.phase i).next s (tasks i) clock (w.pool s) w.made.length :=
  Function.update_self ..

theorem after_phase_of_ne (w : OfferWorld ι) {i j : ι} (clock : Clock) (h : j ≠ i) :
    (w.after s tasks i clock).phase j = w.phase j :=
  Function.update_of_ne h ..

theorem after_of_looks (w : OfferWorld ι) {i : ι} (clock : Clock)
    (h : (w.phase i).looks = true) :
    (w.after s tasks i clock).offered = w.offered ∧ (w.after s tasks i clock).made = w.made := by
  unfold OfferWorld.after
  cases hphase : w.phase i with
  | swept | locked | refused => exact ⟨rfl, rfl⟩
  | spawned | chosen | finished =>
      rw [hphase] at h
      cases h

theorem Clock.notAfter_refl (c : Clock) : c.NotAfter c := ⟨le_rfl, le_rfl⟩

/-! ### One task alone -/

/-- The steps of one task at one time, up to its end. -/
private def Finishes (i : ι) (w : OfferWorld ι)
    (offered : List (Ipv4Addr × Nat)) : Prop :=
  ∃ es w', (∀ e ∈ es, e = (i, w.clock)) ∧ Steps (offerStep s tasks) w es w' ∧
    w'.phase i = .finished ∧ w'.offered = offered

private theorem finishes_step {i : ι} {w : OfferWorld ι} {offered : List (Ipv4Addr × Nat)}
    (hlock : w.phase i = .swept → ∀ j, (w.phase j).holdsLeases = false)
    (h : Finishes s tasks i (w.after s tasks i w.clock) offered) :
    Finishes s tasks i w offered := by
  obtain ⟨es, w', hes, run, hend⟩ := h
  have hstep : offerStep s tasks w (i, w.clock) (w.after s tasks i w.clock) :=
    ⟨w.clock.notAfter_refl, hlock, rfl⟩
  refine ⟨(i, w.clock) :: es, w', ?_, (Steps.single hstep).append run, hend⟩
  intro e he
  rcases List.mem_cons.mp he with rfl | he
  · rfl
  · exact hes e he

private theorem finishes_of_finished {i : ι} {w : OfferWorld ι} (h : w.phase i = .finished) :
    Finishes s tasks i w w.offered :=
  ⟨[], w, by simp, .done w, h, rfl⟩

private theorem finishes_of_chosen {i : ι} {w : OfferWorld ι} {ip : Ipv4Addr} {looked : Nat}
    (h : w.phase i = .chosen ip looked) :
    Finishes s tasks i w (w.offered ++ [(ip, w.clock.instant)]) := by
  apply finishes_step
  · intro hswept
    rw [h] at hswept
    cases hswept
  · have hfinished : (w.after s tasks i w.clock).phase i = .finished := by
      rw [after_phase_self, h]
      rfl
    have hoffered : (w.after s tasks i w.clock).offered =
        w.offered ++ [(ip, w.clock.instant)] := by
      simp only [OfferWorld.after, h]
      rfl
    rw [← hoffered]
    exact finishes_of_finished s tasks hfinished

/-- One look, at a time and in a state that stay: what it finds is offered, and
the next look has the same to go by. -/
private theorem finishes_of_look {i : ι} {w : OfferWorld ι} {found : Option Ipv4Addr}
    (phase : TaskPhase) {offered : List (Ipv4Addr × Nat)} (hlooks : (w.phase i).looks = true)
    (hlock : w.phase i = .swept → ∀ j, (w.phase j).holdsLeases = false)
    (hnext : (w.phase i).next s (tasks i) w.clock (w.pool s) w.made.length =
      match found with
      | some ip => .chosen ip w.made.length
      | none => phase)
    (hrest : ∀ w', w'.clock = w.clock → w'.pool s = w.pool s → w'.phase i = phase →
      Finishes s tasks i w' offered) :
    Finishes s tasks i w
      (match found with
      | some ip => w.offered ++ [(ip, w.clock.instant)]
      | none => offered) := by
  apply finishes_step s tasks hlock
  obtain ⟨hoffered, _⟩ := after_of_looks s tasks w w.clock hlooks
  have hphase := (after_phase_self s tasks w i w.clock).trans hnext
  cases found with
  | some ip =>
      have hchosen := finishes_of_chosen s tasks hphase
      rw [hoffered] at hchosen
      exact hchosen
  | none =>
      have hpool : (w.after s tasks i w.clock).pool s = w.pool s := by
        unfold OfferWorld.pool
        rw [hoffered]
      exact hrest _ rfl hpool hphase

private theorem finishes_of_refused {i : ι} {w : OfferWorld ι} (h : w.phase i = .refused) :
    Finishes s tasks i w
      (match s.pool.addresses.find?
          (fun ip => !usedInLease (s.env w.clock) ip && !(w.pool s).isOffered ip) with
      | some ip => w.offered ++ [(ip, w.clock.instant)]
      | none => w.offered) := by
  refine finishes_of_look s tasks .finished ?_ ?_ ?_ ?_
  · rw [h]
    rfl
  · intro hswept
    rw [h] at hswept
    cases hswept
  · rw [h]
    rfl
  · intro w' _ hpool hfinished
    have hoffered : w'.offered = w.offered := congrArg PoolState.offered hpool
    rw [← hoffered]
    exact finishes_of_finished s tasks hfinished

private theorem finishes_of_locked {i : ι} {w : OfferWorld ι} (h : w.phase i = .locked) :
    Finishes s tasks i w
      (match (tasks i).requested.filter
          (fun ip => s.pool.isInRange ip && (w.pool s).isFree (s.env w.clock) ip) with
      | some ip => w.offered ++ [(ip, w.clock.instant)]
      | none =>
          match s.pool.addresses.find?
              (fun ip => !usedInLease (s.env w.clock) ip && !(w.pool s).isOffered ip) with
          | some ip => w.offered ++ [(ip, w.clock.instant)]
          | none => w.offered) := by
  refine finishes_of_look s tasks .refused ?_ ?_ ?_ ?_
  · rw [h]
    rfl
  · intro hswept
    rw [h] at hswept
    cases hswept
  · rw [h]
    rfl
  · intro w' hclock hpool hrefused
    have hoffered : w'.offered = w.offered := congrArg PoolState.offered hpool
    have hend := finishes_of_refused s tasks hrefused
    rw [hclock, hpool, hoffered] at hend
    exact hend

private theorem finishes_of_swept {i : ι} {w : OfferWorld ι} (h : w.phase i = .swept)
    (hfree : ∀ j, (w.phase j).holdsLeases = false) :
    Finishes s tasks i w
      (match s.store.current (tasks i).mac w.clock.unix with
      | some ip => w.offered ++ [(ip, w.clock.instant)]
      | none =>
          match (tasks i).requested.filter
              (fun ip => s.pool.isInRange ip && (w.pool s).isFree (s.env w.clock) ip) with
          | some ip => w.offered ++ [(ip, w.clock.instant)]
          | none =>
              match s.pool.addresses.find?
                  (fun ip => !usedInLease (s.env w.clock) ip && !(w.pool s).isOffered ip) with
              | some ip => w.offered ++ [(ip, w.clock.instant)]
              | none => w.offered) := by
  refine finishes_of_look s tasks .locked ?_ (fun _ => hfree) ?_ ?_
  · rw [h]
    rfl
  · rw [h]
    rfl
  · intro w' hclock hpool hlocked
    have hoffered : w'.offered = w.offered := congrArg PoolState.offered hpool
    have hend := finishes_of_locked s tasks hlocked
    rw [hclock, hpool, hoffered] at hend
    exact hend

/-- A task that no other one interrupts records the offer `handle_packet`
records. -/
theorem discover_alone (U : Dns.UnicodeTables) (cfg : ServerConfig) (hpool : cfg.pool = s.pool)
    (hosts : Dns.DynamicHosts) {msg : Packet} {w : OfferWorld ι} {i : ι}
    (htype : msg.msgType = some .discover) (hmac : macOf msg.chaddr = some (tasks i).mac)
    (hrequested : msg.requestedIp = (tasks i).requested) (hphase : w.phase i = .spawned)
    (hfree : ∀ j, (w.phase j).holdsLeases = false) :
    ∃ es w', (∀ e ∈ es, e = (i, w.clock)) ∧ Steps (offerStep s tasks) w es w' ∧
      w'.phase i = .finished ∧
      w'.pool s = (handlePacket U cfg (s.env w.clock) ⟨w.pool s, hosts⟩ msg).1.pool := by
  let w₁ := w.after s tasks i w.clock
  have hphase₁ : w₁.phase i = .swept := by
    rw [after_phase_self, hphase]
    rfl
  have hfree₁ : ∀ j, (w₁.phase j).holdsLeases = false := by
    intro j
    by_cases hj : j = i
    · rw [hj, hphase₁]
      rfl
    · rw [after_phase_of_ne s tasks w w.clock hj]
      exact hfree j
  have hpool₁ : w₁.pool s = (w.pool s).expireOffers w.clock.instant := by
    simp only [w₁, OfferWorld.pool, OfferWorld.after, hphase]
    rfl
  have hend := finishes_of_swept s tasks hphase₁ hfree₁
  have hsweep : offerStep s tasks w (i, w.clock) w₁ := by
    refine ⟨w.clock.notAfter_refl, ?_, rfl⟩
    intro hswept
    rw [hphase] at hswept
    cases hswept
  obtain ⟨es, w', hes, run, hfinished, hoffered⟩ := hend
  refine ⟨(i, w.clock) :: es, w', ?_, (Steps.single hsweep).append run, hfinished, ?_⟩
  · intro e he
    rcases List.mem_cons.mp he with rfl | he
    · rfl
    · exact hes e he
  · have hstate : w'.pool s = ⟨w'.offered, s.store⟩ := rfl
    have hoffered₁ : w₁.offered = ((w.pool s).expireOffers w.clock.instant).offered :=
      congrArg PoolState.offered hpool₁
    have hclock₁ : w₁.clock = w.clock := rfl
    rw [hstate, hoffered, hclock₁, hpool₁, hoffered₁]
    simp only [handlePacket, htype, hmac, AddressPool.allocate, hpool, hrequested]
    have hinstant : (s.env w.clock).instant = w.clock.instant := rfl
    have hcurrent : ((w.pool s).expireOffers w.clock.instant).leases.current (tasks i).mac
        (s.env w.clock).unix = s.store.current (tasks i).mac w.clock.unix := rfl
    rw [hinstant, hcurrent]
    cases s.store.current (tasks i).mac w.clock.unix with
    | some ip => rfl
    | none =>
        dsimp only
        cases (tasks i).requested.filter (fun ip => s.pool.isInRange ip &&
            ((w.pool s).expireOffers w.clock.instant).isFree (s.env w.clock) ip) with
        | some ip => rfl
        | none =>
            dsimp only
            cases s.pool.addresses.find? (fun ip => !usedInLease (s.env w.clock) ip &&
                !((w.pool s).expireOffers w.clock.instant).isOffered ip) with
            | some ip => rfl
            | none => rfl

/-! ### Exclusive offers -/

/-- The client holds an unexpired lease on the address. -/
def Holds (store : LeaseStore) (unix : Nat) (mac : Mac) (ip : Ipv4Addr) : Prop :=
  ∃ lease, store.getByMac mac = some lease ∧ lease.isExpired unix = false ∧ lease.ip = ip

/-- No address is under a live offer to two clients, or to one while another
client holds it. -/
structure OffersExclusive (store : LeaseStore) (clock : Clock) (made : List Offer) : Prop where
  single : ∀ o ∈ made, ∀ o' ∈ made, o.Live clock.instant → o'.Live clock.instant →
    o.ip = o'.ip → o.mac = o'.mac
  free : ∀ o ∈ made, o.Live clock.instant → ∀ mac, Holds store clock.unix mac o.ip → mac = o.mac

/-- The condition on the leases at the start. No two clients hold one address,
and while an address of the pool is held, the first lease on it that the map
comes to is unexpired. -/
structure LeasesSeen (unix : Nat) : Prop where
  unique : ∀ mac mac' ip, Holds s.store unix mac ip → Holds s.store unix mac' ip → mac = mac'
  seen : ∀ clock : Clock, unix ≤ clock.unix → ∀ mac ip, s.pool.isInRange ip = true →
    Holds s.store clock.unix mac ip → usedInLease (s.env clock) ip = true

/-- The condition on a step: of the offers made since the task looked, none that
is still live offers its address to another client. -/
def OfferedAlone (w : OfferWorld ι) (e : ι × Clock) : Prop :=
  ∀ ip looked, w.phase e.1 = .chosen ip looked →
    ∀ o ∈ w.made.drop looked, o.Live e.2.instant → o.ip = ip → o.mac = (tasks e.1).mac

/-- The address is as good as the client's: whoever holds it, or has had it
offered when the task looked, is this client. -/
structure Settled (clock : Clock) (made : List Offer) (mac : Mac) (ip : Ipv4Addr) : Prop where
  offers : ∀ o ∈ made, o.Live clock.instant → o.ip = ip → o.mac = mac
  holders : ∀ mac', Holds s.store clock.unix mac' ip → mac' = mac

/-- What holds between two steps. -/
structure OffersSound (w : OfferWorld ι) : Prop where
  exclusive : OffersExclusive s.store w.clock w.made
  recorded : ∀ o ∈ w.made, o.Live w.clock.instant → (o.ip, o.instant) ∈ w.offered
  chosen : ∀ i ip looked, w.phase i = .chosen ip looked →
    looked ≤ w.made.length ∧ Settled s w.clock (w.made.take looked) (tasks i).mac ip

variable {s tasks}

theorem Offer.Live.earlier {o : Offer} {instant later : Nat} (h : o.Live later)
    (hle : instant ≤ later) : o.Live instant := by
  unfold Offer.Live at h ⊢
  omega

theorem Holds.earlier {store : LeaseStore} {unix later : Nat} {mac : Mac} {ip : Ipv4Addr}
    (h : Holds store later mac ip) (hle : unix ≤ later) : Holds store unix mac ip := by
  obtain ⟨lease, hlease, hlive, hip⟩ := h
  exact ⟨lease, hlease, Lease.isExpired_mono hle hlive, hip⟩

theorem OffersExclusive.later {store : LeaseStore} {clock clock' : Clock} {made : List Offer}
    (h : OffersExclusive store clock made) (hle : clock.NotAfter clock') :
    OffersExclusive store clock' made := by
  refine ⟨?_, ?_⟩
  · intro o ho o' ho' hlive hlive'
    exact h.single o ho o' ho' (hlive.earlier hle.2) (hlive'.earlier hle.2)
  · intro o ho hlive mac hholds
    exact h.free o ho (hlive.earlier hle.2) mac (hholds.earlier hle.1)

theorem Settled.later {clock clock' : Clock} {made : List Offer} {mac : Mac} {ip : Ipv4Addr}
    (h : Settled s clock made mac ip) (hle : clock.NotAfter clock') :
    Settled s clock' made mac ip := by
  refine ⟨?_, ?_⟩
  · intro o ho hlive
    exact h.offers o ho (hlive.earlier hle.2)
  · intro mac' hholds
    exact h.holders mac' (hholds.earlier hle.1)

theorem LeasesSeen.later {unix later : Nat} (h : LeasesSeen s unix) (hle : unix ≤ later) :
    LeasesSeen s later := by
  refine ⟨?_, ?_⟩
  · intro mac mac' ip hholds hholds'
    exact h.unique mac mac' ip (hholds.earlier hle) (hholds'.earlier hle)
  · intro clock hclock
    exact h.seen clock (hle.trans hclock)

theorem AddressPool.isInRange_of_mem_addresses {pool : AddressPool} {ip : Ipv4Addr}
    (h : ip ∈ pool.addresses) : pool.isInRange ip = true := by
  obtain ⟨i, hi, rfl⟩ := List.mem_map.mp h
  rw [List.mem_range] at hi
  have hfinish : pool.finish.toNat < 2 ^ 32 := pool.finish.isLt
  simp only [AddressPool.isInRange, decide_eq_true_eq, BitVec.le_def, BitVec.toNat_ofNat]
  have hsmall : (pool.start.toNat + i) % 2 ^ 32 = pool.start.toNat + i :=
    Nat.mod_eq_of_lt (by omega)
  omega

omit [DecidableEq ι] in
/-- An address of the pool that no lease seen and no recorded offer takes is
nobody's. -/
private theorem settled_of_free {w : OfferWorld ι} {clock : Clock} {unix : Nat}
    (hleases : LeasesSeen s unix) (hunix : unix ≤ clock.unix)
    (hrecorded : ∀ o ∈ w.made, o.Live clock.instant → (o.ip, o.instant) ∈ w.offered)
    {mac : Mac} {ip : Ipv4Addr} (hrange : s.pool.isInRange ip = true)
    (hused : usedInLease (s.env clock) ip = false) (hoffered : (w.pool s).isOffered ip = false) :
    Settled s clock w.made mac ip := by
  refine ⟨?_, ?_⟩
  · intro o ho hlive hip
    have hmem := hrecorded o ho hlive
    have htaken : (w.pool s).isOffered ip = true := by
      refine List.any_eq_true.mpr ⟨_, hmem, ?_⟩
      simp [hip]
    rw [hoffered] at htaken
    cases htaken
  · intro mac' hholds
    have htaken := hleases.seen clock hunix mac' ip hrange hholds
    rw [hused] at htaken
    cases htaken

/-- The address a client has a current lease on is its own. -/
private theorem settled_of_current {clock : Clock} {made : List Offer} {unix : Nat}
    (hleases : LeasesSeen s unix) (hunix : unix ≤ clock.unix)
    (hexclusive : OffersExclusive s.store clock made) {mac : Mac} {ip : Ipv4Addr}
    (h : s.store.current mac clock.unix = some ip) : Settled s clock made mac ip := by
  have hholds : Holds s.store clock.unix mac ip := by
    unfold LeaseStore.current at h
    split at h
    · rename_i lease hlease
      split at h
      · rename_i hstatic
        cases h
        exact ⟨lease, hlease, by rw [Lease.isExpired, if_pos hstatic], rfl⟩
      · split at h
        · rename_i hlive
          cases h
          exact ⟨lease, hlease, by simpa using hlive, rfl⟩
        · cases h
    · cases h
  refine ⟨?_, ?_⟩
  · rintro o ho hlive rfl
    exact (hexclusive.free o ho hlive mac hholds).symm
  · intro mac' hholds'
    exact (hleases.later hunix).unique mac' mac ip hholds' hholds

omit [DecidableEq ι] in
/-- What a look settles on, of a state in which all live offers are recorded. -/
theorem settled_of_next {w : OfferWorld ι} {i : ι} {clock : Clock} {unix : Nat}
    (hleases : LeasesSeen s unix) (hunix : unix ≤ clock.unix)
    (hexclusive : OffersExclusive s.store clock w.made)
    (hrecorded : ∀ o ∈ w.made, o.Live clock.instant → (o.ip, o.instant) ∈ w.offered)
    {ip : Ipv4Addr} {looked : Nat}
    (h : (w.phase i).next s (tasks i) clock (w.pool s) w.made.length = .chosen ip looked) :
    looked = w.made.length ∧ Settled s clock w.made (tasks i).mac ip := by
  unfold TaskPhase.next at h
  split at h
  · cases h
  · split at h
    · rename_i hcurrent
      cases h
      exact ⟨rfl, settled_of_current hleases hunix hexclusive hcurrent⟩
    · cases h
  · split at h
    · rename_i hfilter
      cases h
      obtain ⟨_, hfree⟩ := Option.filter_eq_some_iff.mp hfilter
      simp only [PoolState.isFree, Bool.and_eq_true, Bool.not_eq_true'] at hfree
      exact ⟨rfl, settled_of_free hleases hunix hrecorded hfree.1 hfree.2.1 hfree.2.2⟩
    · cases h
  · split at h
    · rename_i hfind
      cases h
      have hrange := AddressPool.isInRange_of_mem_addresses (List.mem_of_find?_eq_some hfind)
      have hfree := List.find?_some hfind
      simp only [Bool.and_eq_true, Bool.not_eq_true'] at hfree
      exact ⟨rfl, settled_of_free hleases hunix hrecorded hrange hfree.1 hfree.2⟩
    · cases h
  · cases h
  · cases h

/-! ### One step -/

section Step

variable {w : OfferWorld ι} {i : ι} {clock : Clock} {unix : Nat}

omit [DecidableEq ι] in
private theorem recorded_later (h : OffersSound s tasks w) (htime : w.clock.NotAfter clock) :
    ∀ o ∈ w.made, o.Live clock.instant → (o.ip, o.instant) ∈ w.offered := by
  intro o ho hlive
  exact h.recorded o ho (hlive.earlier htime.2)

omit [DecidableEq ι] in
private theorem chosen_later (h : OffersSound s tasks w) (htime : w.clock.NotAfter clock)
    {j : ι} {ip : Ipv4Addr} {looked : Nat} (hj : w.phase j = .chosen ip looked) :
    looked ≤ w.made.length ∧ Settled s clock (w.made.take looked) (tasks j).mac ip := by
  obtain ⟨hle, hsettled⟩ := h.chosen j ip looked hj
  exact ⟨hle, hsettled.later htime⟩

/-- A step that makes no offer. -/
private theorem sound_of_made_eq (hleases : LeasesSeen s unix) (hunix : unix ≤ clock.unix)
    (h : OffersSound s tasks w) (htime : w.clock.NotAfter clock)
    (hmade : (w.after s tasks i clock).made = w.made)
    (hoffered : ∀ o ∈ w.made, o.Live clock.instant →
      (o.ip, o.instant) ∈ (w.after s tasks i clock).offered) :
    OffersSound s tasks (w.after s tasks i clock) := by
  have hexclusive := h.exclusive.later htime
  refine ⟨?_, ?_, ?_⟩
  · rw [hmade]
    exact hexclusive
  · rw [hmade]
    exact hoffered
  · intro j ip looked hj
    rw [hmade]
    by_cases hji : j = i
    · subst hji
      rw [after_phase_self] at hj
      obtain ⟨rfl, hsettled⟩ :=
        settled_of_next hleases hunix hexclusive (recorded_later h htime) hj
      refine ⟨le_rfl, ?_⟩
      rw [List.take_length]
      exact hsettled
    · rw [after_phase_of_ne s tasks w clock hji] at hj
      exact chosen_later h htime hj

/-- A step that makes an offer keeps the offers exclusive exactly when no live
one made since the look stands in its way. -/
private theorem sound_offer_iff (h : OffersSound s tasks w) (htime : w.clock.NotAfter clock)
    {ip : Ipv4Addr} {looked : Nat} (hphase : w.phase i = .chosen ip looked) :
    OffersSound s tasks (w.after s tasks i clock) ↔
      ∀ o ∈ w.made.drop looked, o.Live clock.instant → o.ip = ip → o.mac = (tasks i).mac := by
  have hmade : (w.after s tasks i clock).made = w.made ++ [⟨(tasks i).mac, ip, clock.instant⟩] := by
    simp only [OfferWorld.after, hphase]
  have hoffered : (w.after s tasks i clock).offered = w.offered ++ [(ip, clock.instant)] := by
    simp only [OfferWorld.after, hphase]
    rfl
  have hnew : Offer.Live ⟨(tasks i).mac, ip, clock.instant⟩ clock.instant := by
    simp [Offer.Live, offerCutoff]
  have hexclusive := h.exclusive.later htime
  obtain ⟨hle, hsettled⟩ := chosen_later h htime hphase
  constructor
  · intro h' o ho hlive hip
    have hsingle := h'.exclusive.single
    rw [hmade] at hsingle
    exact hsingle o (List.mem_append_left _ (List.mem_of_mem_drop ho)) _
      (List.mem_append_right _ (List.mem_singleton_self _)) hlive hnew hip
  · intro halone
    have hsame : ∀ o ∈ w.made, o.Live clock.instant → o.ip = ip → o.mac = (tasks i).mac := by
      intro o ho hlive hip
      rw [← List.take_append_drop looked w.made, List.mem_append] at ho
      rcases ho with hbefore | hsince
      · exact hsettled.offers o hbefore hlive hip
      · exact halone o hsince hlive hip
    refine ⟨⟨?_, ?_⟩, ?_, ?_⟩
    · intro o ho o' ho' hlive hlive' hip
      rw [hmade, List.mem_append, List.mem_singleton] at ho ho'
      rcases ho with ho | rfl
      · rcases ho' with ho' | rfl
        · exact hexclusive.single o ho o' ho' hlive hlive' hip
        · exact hsame o ho hlive hip
      · rcases ho' with ho' | rfl
        · exact (hsame o' ho' hlive' hip.symm).symm
        · rfl
    · intro o ho hlive mac hholds
      rw [hmade, List.mem_append, List.mem_singleton] at ho
      rcases ho with ho | rfl
      · exact hexclusive.free o ho hlive mac hholds
      · exact hsettled.holders mac hholds
    · intro o ho hlive
      rw [hmade, List.mem_append, List.mem_singleton] at ho
      rw [hoffered, List.mem_append, List.mem_singleton]
      rcases ho with ho | rfl
      · exact Or.inl (recorded_later h htime o ho hlive)
      · exact Or.inr rfl
    · intro j ip' looked' hj
      by_cases hji : j = i
      · subst hji
        rw [after_phase_self, hphase] at hj
        cases hj
      · rw [after_phase_of_ne s tasks w clock hji] at hj
        obtain ⟨hle', hsettled'⟩ := chosen_later h htime hj
        rw [hmade, List.length_append, List.take_append_of_le_length hle']
        exact ⟨by omega, hsettled'⟩

/-- A step from a sound state leads to one exactly when it meets the
condition. -/
theorem offerStep_sound_iff {w' : OfferWorld ι} {e : ι × Clock} (hleases : LeasesSeen s unix)
    (hunix : unix ≤ w.clock.unix) (h : OffersSound s tasks w)
    (hstep : offerStep s tasks w e w') : OffersSound s tasks w' ↔ OfferedAlone tasks w e := by
  obtain ⟨htime, _, rfl⟩ := hstep
  have hunix' : unix ≤ e.2.unix := hunix.trans htime.1
  have hrecorded := recorded_later h htime
  cases hphase : w.phase e.1 with
  | chosen ip looked =>
      rw [sound_offer_iff h htime hphase]
      constructor
      · intro halone ip' looked' heq
        rw [hphase] at heq
        cases heq
        exact halone
      · intro halone
        exact halone ip looked hphase
  | spawned =>
      have hsound : OffersSound s tasks (w.after s tasks e.1 e.2) := by
        apply sound_of_made_eq hleases hunix' h htime
        · simp only [OfferWorld.after, hphase]
        · intro o ho hlive
          simp only [OfferWorld.after, hphase]
          refine List.mem_filter.mpr ⟨hrecorded o ho hlive, ?_⟩
          exact decide_eq_true hlive
      refine iff_of_true hsound ?_
      intro ip looked heq
      rw [hphase] at heq
      cases heq
  | swept | locked | refused | finished =>
      have hsound : OffersSound s tasks (w.after s tasks e.1 e.2) := by
        apply sound_of_made_eq hleases hunix' h htime
        · simp only [OfferWorld.after, hphase]
        · intro o ho hlive
          simp only [OfferWorld.after, hphase]
          exact hrecorded o ho hlive
      refine iff_of_true hsound ?_
      intro ip looked heq
      rw [hphase] at heq
      cases heq

end Step

/-! ### Runs -/

/-- Nobody has been offered anything, and no task has begun. -/
def OfferWorld.start (clock : Clock) (offered : List (Ipv4Addr × Nat)) : OfferWorld ι where
  clock := clock
  offered := offered
  made := []
  phase := fun _ => .spawned

/-- In a run in which no task offers an address that has been offered to
another client since it looked, offers stay exclusive, now and later. -/
theorem offers_exclusive {clock : Clock} {offered : List (Ipv4Addr × Nat)}
    (hleases : LeasesSeen s clock.unix) {es : List (ι × Clock)} {w : OfferWorld ι}
    (run : Steps (guarded (offerStep s tasks) (OfferedAlone tasks)) (.start clock offered) es w) :
    ∀ later, w.clock.NotAfter later → OffersExclusive s.store later w.made := by
  have hstart : OffersSound s tasks (.start clock offered) := by
    refine ⟨⟨?_, ?_⟩, ?_, ?_⟩
    · intro o ho
      cases ho
    · intro o ho
      cases ho
    · intro o ho
      cases ho
    · intro i ip looked hphase
      cases hphase
  have hsound : clock.unix ≤ w.clock.unix ∧ OffersSound s tasks w := by
    refine @Steps.invariant _ _ _ (fun w => clock.unix ≤ w.clock.unix ∧ OffersSound s tasks w)
      _ _ _ run ⟨le_rfl, hstart⟩ ?_
    rintro t e u ⟨hunix, ht⟩ ⟨hstep, halone⟩
    refine ⟨?_, (offerStep_sound_iff hleases hunix ht hstep).mpr halone⟩
    obtain ⟨htime, _, rfl⟩ := hstep
    exact hunix.trans htime.1
  intro later hlater
  exact hsound.2.exclusive.later hlater

/-! ### Two clients and two addresses -/

private def emptyShared : Shared where
  pool := smallPool.pool
  store := ⟨∅⟩
  order := []
  iterates := List.Perm.refl _

/-- DISCOVERs of two clients, `true` and `false`. -/
private def twoClients (client : Bool) : Discover where
  mac := if client then clientMac 1 else clientMac 2
  requested := none

private abbrev firstMoment : Clock := ⟨0, 0⟩

private def afterAll (order : List Bool) (w : OfferWorld Bool) : OfferWorld Bool :=
  order.foldl (fun w i => w.after emptyShared twoClients i firstMoment) w

/-- No task that takes the lock finds it taken. -/
private def lockFree (w : OfferWorld Bool) (i : Bool) : Bool :=
  decide (w.phase i ≠ .swept) || !((w.phase true).holdsLeases || (w.phase false).holdsLeases)

/-- The check passes before every step. -/
private def allPass (check : OfferWorld Bool → Bool → Bool) : List Bool → OfferWorld Bool → Bool
  | [], _ => true
  | i :: order, w => check w i && allPass check order (w.after emptyShared twoClients i firstMoment)

private theorem offerStep_of_lockFree {w : OfferWorld Bool} {i : Bool}
    (hclock : w.clock = firstMoment) (h : lockFree w i = true) :
    offerStep emptyShared twoClients w (i, firstMoment)
      (w.after emptyShared twoClients i firstMoment) := by
  refine ⟨hclock ▸ Clock.notAfter_refl _, ?_, rfl⟩
  intro hswept j
  unfold lockFree at h
  simp only [hswept, ne_eq, not_true_eq_false, decide_false, Bool.false_or, Bool.not_eq_true',
    Bool.or_eq_false_iff] at h
  cases j with
  | true => exact h.1
  | false => exact h.2

private theorem steps_of_allPass {step : OfferWorld Bool → Bool × Clock → OfferWorld Bool → Prop}
    (check : OfferWorld Bool → Bool → Bool) (order : List Bool) (w : OfferWorld Bool)
    (hcheck : ∀ w i, w.clock = firstMoment → check w i = true →
      step w (i, firstMoment) (w.after emptyShared twoClients i firstMoment))
    (hclock : w.clock = firstMoment) (h : allPass check order w = true) :
    Steps step w (order.map (fun i => (i, firstMoment))) (afterAll order w) := by
  induction order generalizing w with
  | nil => exact .done w
  | cons i order ih =>
      simp only [allPass, Bool.and_eq_true] at h
      have first := Steps.single (hcheck w i hclock h.1)
      exact first.append (ih _ rfl h.2)

private theorem leasesSeen_empty : LeasesSeen emptyShared 0 := by
  have hnone : ∀ unix mac ip, ¬ Holds emptyShared.store unix mac ip := by
    rintro unix mac ip ⟨lease, hlease, _⟩
    simp [LeaseStore.getByMac, emptyShared] at hlease
  refine ⟨?_, ?_⟩
  · intro mac mac' ip hholds
    exact absurd hholds (hnone _ _ _)
  · intro clock _ mac ip _ hholds
    exact absurd hholds (hnone _ _ _)

/-- Nothing has been offered since this task looked. -/
private def nothingSince (w : OfferWorld Bool) (i : Bool) : Bool :=
  match w.phase i with
  | .chosen _ looked => (w.made.drop looked).isEmpty
  | _ => true

/-- The second client looks when the first one has its offer, and both are
offered an address of their own. -/
theorem offers_exclusive_two_clients :
    ∃ w, Steps (guarded (offerStep emptyShared twoClients) (OfferedAlone twoClients))
        (.start firstMoment [])
        ((List.replicate 5 true ++ List.replicate 5 false).map (fun i => (i, firstMoment))) w ∧
      w.made.map Offer.ip = [0x0a00000a, 0x0a00000b] ∧
      OffersExclusive emptyShared.store firstMoment w.made := by
  have hcheck : ∀ w i, w.clock = firstMoment → (lockFree w i && nothingSince w i) = true →
      guarded (offerStep emptyShared twoClients) (OfferedAlone twoClients) w (i, firstMoment)
        (w.after emptyShared twoClients i firstMoment) := by
    intro w i hclock h
    obtain ⟨hfree, hnothing⟩ := (Bool.and_eq_true _ _).mp h
    refine ⟨offerStep_of_lockFree hclock hfree, ?_⟩
    intro ip looked hphase o ho
    simp only [nothingSince, hphase, List.isEmpty_iff] at hnothing
    rw [hnothing] at ho
    cases ho
  have run := steps_of_allPass _ (List.replicate 5 true ++ List.replicate 5 false)
    (.start firstMoment []) hcheck rfl (by rfl)
  exact ⟨_, run, by rfl, offers_exclusive leasesSeen_empty run firstMoment ⟨le_rfl, le_rfl⟩⟩

private def bothLookFirst : List Bool :=
  [true, false, true, true, true, false, false, false, true, false]

private theorem bothLookFirst_made :
    (afterAll bothLookFirst (.start firstMoment [])).made =
      [⟨clientMac 1, 0x0a00000a, 0⟩, ⟨clientMac 2, 0x0a00000a, 0⟩] := by
  rfl

/-- Both clients look before either offer is recorded, and both are offered the
first address of the pool. -/
theorem address_offered_twice :
    ¬ ∀ (ι : Type) (_ : DecidableEq ι) (s : Shared) (tasks : ι → Discover) (clock : Clock)
      (offered : List (Ipv4Addr × Nat)) (es : List (ι × Clock)) (w : OfferWorld ι),
      Steps (offerStep s tasks) (.start clock offered) es w →
      OffersExclusive s.store w.clock w.made := by
  intro h
  have run := steps_of_allPass lockFree bothLookFirst (.start firstMoment [])
    (fun w i => offerStep_of_lockFree) rfl (by rfl)
  have hexclusive := h Bool inferInstance emptyShared twoClients firstMoment [] _ _ run
  have hclock : (afterAll bothLookFirst (.start firstMoment [])).clock = firstMoment := rfl
  rw [bothLookFirst_made, hclock] at hexclusive
  have hmac := hexclusive.single ⟨clientMac 1, 0x0a00000a, 0⟩ (by simp)
    ⟨clientMac 2, 0x0a00000a, 0⟩ (by simp) (by decide) (by decide) rfl
  revert hmac
  decide

end Relay.Dhcp.V4
