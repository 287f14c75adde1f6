import Relay.Dhcp.V4.Offers

/-!
What `allocate` finds. It goes by the first lease on an address that the map
comes to, and by offers that do not say whose they are. So it takes an address
that another client holds when an expired lease on it comes first, and leaves
one to its client no more than to the others.
-/

namespace Relay.Dhcp.V4

open Dns Logic

/-- Another client holds the address. -/
def HeldByOther (store : LeaseStore) (unix : Nat) (mac : Mac) (ip : Ipv4Addr) : Prop :=
  ∃ key lease, key ≠ macKey mac ∧ store.leases.lookup key = some lease ∧
    lease.isExpired unix = false ∧ lease.ip = ip

/-- No address has two unexpired leases. Expired ones may be on any. -/
def OneHolder (store : LeaseStore) (unix : Nat) : Prop :=
  ∀ k₁ k₂ l₁ l₂, store.leases.lookup k₁ = some l₁ → store.leases.lookup k₂ = some l₂ →
    l₁.isExpired unix = false → l₂.isExpired unix = false → l₁.ip = l₂.ip → k₁ = k₂

/-- What a client without a lease is looked for, in order: the address it
requests, when that is one of the pool, and the pool. -/
def AddressPool.candidates (pool : AddressPool) (requested : Option Ipv4Addr) : List Ipv4Addr :=
  (requested.filter pool.isInRange).toList ++ pool.addresses

theorem LeaseStore.current_eq_some {store : LeaseStore} {mac : Mac} {unix : Nat} {ip : Ipv4Addr} :
    store.current mac unix = some ip ↔ Holds store unix mac ip := by
  unfold LeaseStore.current Holds
  cases store.getByMac mac with
  | none =>
      constructor
      · intro h
        cases h
      · rintro ⟨lease, hlease, _⟩
        cases hlease
  | some lease =>
      have hstatic : lease.isStatic = true → lease.isExpired unix = false := by
        intro h
        rw [Lease.isExpired, if_pos h]
      cases hs : lease.isStatic <;> cases he : lease.isExpired unix <;> simp_all

/-- `allocate` in one line: the client's own lease, or the first candidate that
`is_free` accepts. -/
theorem AddressPool.allocate_found (pool : AddressPool) (env : Env) (st : PoolState) (mac : Mac)
    (requested : Option Ipv4Addr) :
    (pool.allocate env st mac requested).2 =
      (st.leases.current mac env.unix).or
        ((pool.candidates requested).find? ((st.expireOffers env.instant).isFree env)) := by
  have hcurrent : (st.expireOffers env.instant).leases.current mac env.unix =
      st.leases.current mac env.unix := rfl
  have hscan : (fun ip => !usedInLease env ip && !(st.expireOffers env.instant).isOffered ip) =
      (st.expireOffers env.instant).isFree env := rfl
  unfold AddressPool.allocate AddressPool.candidates
  dsimp only
  rw [hcurrent, hscan, List.find?_append]
  cases st.leases.current mac env.unix with
  | some ip => rfl
  | none =>
      rw [Option.none_or]
      dsimp only
      cases requested with
      | none => rfl
      | some ip =>
          rw [Option.filter_some, Option.filter_some]
          cases hrange : pool.isInRange ip with
          | false => rfl
          | true =>
              cases hfree : (st.expireOffers env.instant).isFree env ip with
              | false => simp [hfree]
              | true => simp [hfree]

theorem AddressPool.mem_addresses {pool : AddressPool} {ip : Ipv4Addr} :
    ip ∈ pool.addresses ↔ pool.isInRange ip = true := by
  refine ⟨AddressPool.isInRange_of_mem_addresses, ?_⟩
  intro hrange
  simp only [AddressPool.isInRange, decide_eq_true_eq, BitVec.le_def] at hrange
  refine List.mem_map.mpr ⟨ip.toNat - pool.start.toNat, ?_, ?_⟩
  · rw [List.mem_range]
    omega
  · rw [Nat.add_sub_cancel' hrange.1, BitVec.ofNat_toNat, BitVec.setWidth_eq]

theorem AddressPool.mem_candidates {pool : AddressPool} {requested : Option Ipv4Addr}
    {ip : Ipv4Addr} : ip ∈ pool.candidates requested ↔ pool.isInRange ip = true := by
  rw [AddressPool.candidates, List.mem_append, AddressPool.mem_addresses, Option.mem_toList,
    Option.filter_eq_some_iff]
  tauto

/-! ### Taken addresses -/

/-- What an allocated address is to be: nobody else's, and the client's own or
one of the pool that is under no live offer. -/
def AllocatesFree (pool : AddressPool) (env : Env) (st : PoolState) (mac : Mac)
    (requested : Option Ipv4Addr) : Prop :=
  ∀ ip, (pool.allocate env st mac requested).2 = some ip →
    ¬ HeldByOther st.leases env.unix mac ip ∧
      (Holds st.leases env.unix mac ip ∨
        pool.isInRange ip = true ∧ (st.expireOffers env.instant).isOffered ip = false)

/-- The first lease on the address that the map comes to has expired, if there
is one, and no offer of it is younger than 30 seconds. -/
def LooksFree (env : Env) (st : PoolState) (ip : Ipv4Addr) : Prop :=
  (∀ lease, env.order.find? (fun lease => decide (lease.ip = ip)) = some lease →
    lease.isExpired env.unix = true) ∧
  ∀ o ∈ st.offered, env.instant - o.2 < offerCutoff → o.1 ≠ ip

/-- Where the map comes to an expired lease before the one that another client
holds the address by, there is an earlier candidate that looks free too. -/
def HeldComeLater (pool : AddressPool) (env : Env) (st : PoolState) (mac : Mac)
    (requested : Option Ipv4Addr) : Prop :=
  ∀ before ip after, pool.candidates requested = before ++ ip :: after →
    HeldByOther st.leases env.unix mac ip → LooksFree env st ip →
    ∃ earlier ∈ before, LooksFree env st earlier

theorem isFree_iff {env : Env} {st : PoolState} {ip : Ipv4Addr} :
    (st.expireOffers env.instant).isFree env ip = true ↔ LooksFree env st ip := by
  have hlease : usedInLease env ip = false ↔ ∀ lease,
      env.order.find? (fun lease => decide (lease.ip = ip)) = some lease →
        lease.isExpired env.unix = true := by
    unfold usedInLease getByIp
    cases env.order.find? (fun lease => decide (lease.ip = ip)) <;> simp
  have hoffer : (st.expireOffers env.instant).isOffered ip = false ↔
      ∀ o ∈ st.offered, env.instant - o.2 < offerCutoff → o.1 ≠ ip := by
    simp [PoolState.isOffered, PoolState.expireOffers]
  rw [PoolState.isFree, Bool.and_eq_true, Bool.not_eq_true', Bool.not_eq_true', hlease, hoffer,
    LooksFree]

instance (env : Env) (st : PoolState) (ip : Ipv4Addr) : Decidable (LooksFree env st ip) :=
  decidable_of_iff _ isFree_iff

/-- The client's own address is nobody else's. -/
theorem OneHolder.not_heldByOther {store : LeaseStore} {unix : Nat} (h : OneHolder store unix)
    {mac : Mac} {ip : Ipv4Addr} (hholds : Holds store unix mac ip) :
    ¬ HeldByOther store unix mac ip := by
  obtain ⟨lease, hlease, hlive, hip⟩ := hholds
  rintro ⟨key, lease', hkey, hlease', hlive', hip'⟩
  exact hkey (h key (macKey mac) lease' lease hlease' hlease hlive' hlive (hip'.trans hip.symm))

/-- `allocate` hands out no taken address exactly when the client has a lease or
no held address is the first to be accepted. -/
theorem allocatesFree_iff {pool : AddressPool} {env : Env} {st : PoolState} {mac : Mac}
    {requested : Option Ipv4Addr} (hone : OneHolder st.leases env.unix) :
    AllocatesFree pool env st mac requested ↔
      (∃ ip, Holds st.leases env.unix mac ip) ∨ HeldComeLater pool env st mac requested := by
  unfold AllocatesFree
  rw [AddressPool.allocate_found]
  cases hcurrent : st.leases.current mac env.unix with
  | some own =>
      have hholds := LeaseStore.current_eq_some.mp hcurrent
      refine iff_of_true ?_ (Or.inl ⟨own, hholds⟩)
      intro ip hip
      rw [Option.some_or] at hip
      cases hip
      exact ⟨hone.not_heldByOther hholds, Or.inl hholds⟩
  | none =>
      have hnone : ∀ ip, ¬ Holds st.leases env.unix mac ip := by
        intro ip hholds
        rw [LeaseStore.current_eq_some.mpr hholds] at hcurrent
        cases hcurrent
      rw [Option.none_or]
      constructor
      · intro h
        right
        intro before ip after hsplit hheld hfree
        by_contra hfirst
        have hfound : (pool.candidates requested).find?
            ((st.expireOffers env.instant).isFree env) = some ip := by
          apply List.find?_eq_some_iff_append.mpr
          refine ⟨isFree_iff.mpr hfree, before, after, hsplit, ?_⟩
          intro earlier hearlier
          rw [Bool.not_eq_true', ← Bool.not_eq_true]
          exact fun haccepted => hfirst ⟨earlier, hearlier, isFree_iff.mp haccepted⟩
        exact (h ip hfound).1 hheld
      · intro hcase ip hfound
        obtain ⟨hfree, before, after, hsplit, hbefore⟩ := List.find?_eq_some_iff_append.mp hfound
        have hmem := List.mem_of_find?_eq_some hfound
        refine ⟨?_, Or.inr ⟨AddressPool.mem_candidates.mp hmem, ?_⟩⟩
        · intro hheld
          rcases hcase with ⟨own, hholds⟩ | hlater
          · exact hnone own hholds
          · obtain ⟨earlier, hearlier, haccepted⟩ :=
              hlater before ip after hsplit hheld (isFree_iff.mp hfree)
            have hrefused := hbefore earlier hearlier
            rw [isFree_iff.mpr haccepted] at hrefused
            cases hrefused
        · unfold PoolState.isFree at hfree
          exact (Bool.not_eq_true' _).mp (Bool.and_eq_true_iff.mp hfree).2

/-! ### An address with an expired lease -/

/-- The first client's lease on 10.0.0.10 has expired, and the second client
has got the address. -/
private def expiredLease : Lease := ⟨clientMac 1, 0x0a00000a, none, 100, false⟩

private def heldLease : Lease := ⟨clientMac 2, 0x0a00000a, none, 1000, false⟩

private def reusedAddress : PoolState where
  offered := []
  leases := ⟨(AList.insert (macKey (clientMac 1)) expiredLease ∅).insert (macKey (clientMac 2))
    heldLease⟩

private theorem lookup_reusedAddress {key : String} {lease : Lease}
    (h : reusedAddress.leases.leases.lookup key = some lease) :
    (key = macKey (clientMac 2) ∧ lease = heldLease) ∨ lease = expiredLease := by
  unfold reusedAddress at h
  dsimp only at h
  by_cases hheld : key = macKey (clientMac 2)
  · rw [hheld, AList.lookup_insert] at h
    exact Or.inl ⟨hheld, (Option.some.inj h).symm⟩
  · rw [AList.lookup_insert_ne hheld] at h
    by_cases hexpired : key = macKey (clientMac 1)
    · rw [hexpired, AList.lookup_insert] at h
      exact Or.inr (Option.some.inj h).symm
    · rw [AList.lookup_insert_ne hexpired] at h
      cases h

private theorem oneHolder_reusedAddress : OneHolder reusedAddress.leases 500 := by
  have hexpired : expiredLease.isExpired 500 = true := by decide
  intro k₁ k₂ l₁ l₂ h₁ h₂ hlive₁ hlive₂ _
  rcases lookup_reusedAddress h₁ with ⟨rfl, _⟩ | rfl
  · rcases lookup_reusedAddress h₂ with ⟨rfl, _⟩ | rfl
    · rfl
    · rw [hexpired] at hlive₂
      cases hlive₂
  · rw [hexpired] at hlive₁
    cases hlive₁

theorem allocatesFree_held_first :
    AllocatesFree smallPool.pool (quietEnv 500 [heldLease, expiredLease]) reusedAddress
      (clientMac 3) none := by
  apply (allocatesFree_iff oneHolder_reusedAddress).mpr
  right
  intro before ip after hsplit hheld hfree
  have hcandidates : smallPool.pool.candidates none = [0x0a00000a, 0x0a00000b] := by decide
  have hmem : ip ∈ smallPool.pool.candidates none := by
    rw [hsplit]
    simp
  rw [hcandidates] at hmem
  simp only [List.mem_cons, List.not_mem_nil, or_false] at hmem
  rcases hmem with rfl | rfl
  · exact absurd hfree (by decide)
  · obtain ⟨key, lease, _, hlookup, _, hip⟩ := hheld
    rcases lookup_reusedAddress hlookup with ⟨_, rfl⟩ | rfl
    · exact absurd hip (by decide)
    · exact absurd hip (by decide)

/-- The map comes to the expired lease first, and a third client is offered the
address that the second one holds. -/
theorem held_address_allocated :
    ¬ ∀ (pool : AddressPool) (env : Env) (st : PoolState) (mac : Mac)
      (requested : Option Ipv4Addr),
      env.order.Perm (st.leases.leases.entries.map (fun entry => entry.2)) →
      OneHolder st.leases env.unix → AllocatesFree pool env st mac requested := by
  intro h
  have hfree := h smallPool.pool (quietEnv 500 [expiredLease, heldLease]) reusedAddress
    (clientMac 3) none (by decide) oneHolder_reusedAddress 0x0a00000a (by decide)
  exact hfree.1 ⟨macKey (clientMac 2), heldLease, by decide, by decide, by decide, rfl⟩

end Relay.Dhcp.V4
