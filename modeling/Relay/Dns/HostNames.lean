import Relay.Dns.Leases
import Relay.Text.Case

/-!
Names as they are configured and names as they are asked. Both tables are
asked in lower case and without the dots at the end; what was configured is
only put into lower case, and the search domain not even that.
-/

namespace Relay.Dns

open Text

variable (H : HickoryCrate) (U : UnicodeTables)

/-- One name in any letter case, fully qualified or not. -/
def SameName (a b : String) : Prop :=
  toAsciiLowercase (trimEndDots a) = toAsciiLowercase (trimEndDots b)

/-- Some way to write the name is a query name. -/
def Askable (name : String) : Prop := ∃ q, SameName q name ∧ (H.fromStr q).isSome = true

/-- The tables of Unicode see a letter of ASCII in either case alike. -/
def UnicodeTables.Caseless : Prop :=
  ∀ s, U.toLowercase (toAsciiLowercase s) = U.toLowercase s

/-- The key that a query for the name looks up. -/
def askedKey (name : String) : String := U.toLowercase (trimEndDots name)

/-- The record type of an address's family. -/
def IpAddr.recordType : IpAddr → RecordType
  | .v4 _ => .a
  | .v6 _ => .aaaa

/-- Every query for a configured host in its address family is answered. -/
def HostAnswered (entries : List (String × IpAddr)) (entry : String × IpAddr) : Prop :=
  ∀ q id, SameName q entry.1 → (H.fromStr q).isSome = true →
    ((HostsTable.new U entries).lookup H U q entry.2.recordType id).isSome = true

/-- The entry that stays in the table for this name. -/
def entryFor (entries : List (String × IpAddr)) (name : String) : Option (String × IpAddr) :=
  (entries.filter fun e => U.toLowercase e.1 = askedKey U name).getLast?

/-- A DHCP client's host name, and that name within the search domain. -/
def leaseNames (domain : Option String) (hostname : String) : List String :=
  hostname :: (domain.map fun d => trimEndDots hostname ++ "." ++ d).toList

/-- Whatever the table holds, a lease answers to its names in its address
family, and once it is removed to none of them. -/
def LeaseAnswered (domain : Option String) (hostname : String) : Prop :=
  ∀ (table : DynamicHosts) (ip : IpAddr), table.domain = domain →
    ∀ name ∈ leaseNames domain hostname, ∀ q id, SameName q name → (H.fromStr q).isSome = true →
      ((table.insert U hostname ip).lookup H U q ip.recordType id).isSome = true ∧
        ∀ qtype, (table.remove U hostname).lookup H U q qtype id = none

/-- The name's key is in the table, and the entry that stays there has an
address of the same family. -/
def HostKeyed (entries : List (String × IpAddr)) (entry : String × IpAddr) : Prop :=
  Askable H entry.1 →
    ∃ e, entryFor U entries entry.1 = some e ∧ e.2.recordType = entry.2.recordType

/-- The keys the names are asked by are those a lease is written under. -/
def LeaseKeyed (domain : Option String) (hostname : String) : Prop :=
  ∀ name ∈ leaseNames domain hostname, Askable H name →
    askedKey U name ∈ hostKeys U domain hostname

variable {H U}

theorem askedKey_of_same (hU : U.Caseless) {a b : String} (h : SameName a b) :
    askedKey U a = askedKey U b := by
  rw [askedKey, askedKey, ← hU (trimEndDots a), h, hU]

theorem matchesType_recordType {ip ip' : IpAddr} :
    ip'.matchesType ip.recordType = true ↔ ip'.recordType = ip.recordType := by
  cases ip <;> cases ip' <;> simp [IpAddr.matchesType, IpAddr.recordType, RecordType.a,
    RecordType.aaaa]

/-- A query is answered when its key has an address of the asked family. -/
theorem isSome_lookup_iff (map : StringMap IpAddr) {q : String} {ip : IpAddr} {id : BitVec 16}
    (hq : (H.fromStr q).isSome = true) :
    ((addressIn U map q ip.recordType).bind fun found =>
      (H.fromStr q).map fun parsed => addressResponse parsed found ip.recordType id).isSome = true ↔
      ∃ found, map.lookup (askedKey U q) = some found ∧ found.recordType = ip.recordType := by
  obtain ⟨parsed, hparsed⟩ := Option.isSome_iff_exists.mp hq
  rw [addressIn, hparsed, askedKey]
  cases map.lookup (U.toLowercase (trimEndDots q)) with
  | none => simp
  | some found =>
      rw [Option.filter_some]
      by_cases hmatch : found.matchesType ip.recordType = true
      · simp [hmatch, matchesType_recordType.mp hmatch]
      · simp [hmatch, mt matchesType_recordType.mpr hmatch]

/-- Of the entries with one lower-cased key the last is found. -/
theorem lookup_hostsTable_new (entries : List (String × IpAddr)) (name : String) :
    (HostsTable.new U entries).map.lookup (askedKey U name) =
      (entryFor U entries name).map Prod.snd := by
  unfold HostsTable.new entryFor
  induction entries using List.reverseRecOn with
  | nil => rfl
  | append_singleton entries e ih =>
      rw [List.foldl_append, List.foldl_cons, List.foldl_nil, List.filter_append]
      by_cases hkey : U.toLowercase e.1 = askedKey U name
      · simp [hkey]
      · rw [AList.lookup_insert_ne (Ne.symm hkey)]
        simpa [hkey] using ih

/-- A configured host is answered exactly when the entry that stays for its
name, dots trimmed, has an address of its family. -/
theorem hostAnswered_iff (hU : U.Caseless) (entries : List (String × IpAddr))
    (entry : String × IpAddr) :
    HostAnswered H U entries entry ↔ HostKeyed H U entries entry := by
  have hone : ∀ q id, SameName q entry.1 → (H.fromStr q).isSome = true →
      (((HostsTable.new U entries).lookup H U q entry.2.recordType id).isSome = true ↔
        ∃ e, entryFor U entries entry.1 = some e ∧ e.2.recordType = entry.2.recordType) := by
    intro q id hsame hq
    rw [HostsTable.lookup_eq, isSome_lookup_iff _ hq, askedKey_of_same hU hsame,
      lookup_hostsTable_new]
    constructor
    · rintro ⟨found, hfound, hfamily⟩
      obtain ⟨e, he, rfl⟩ := Option.map_eq_some_iff.mp hfound
      exact ⟨e, he, hfamily⟩
    · rintro ⟨e, he, hfamily⟩
      exact ⟨e.2, Option.map_eq_some_iff.mpr ⟨e, he, rfl⟩, hfamily⟩
  constructor
  · rintro hanswered ⟨q, hsame, hq⟩
    exact (hone q 0 hsame hq).mp (hanswered q 0 hsame hq)
  · intro hentry q id hsame hq
    exact (hone q id hsame hq).mpr (hentry ⟨q, hsame, hq⟩)

/-- Both keys of a host name get the address. -/
theorem lookup_insert (table : DynamicHosts) (hostname : String) (ip : IpAddr) {key : String}
    (hkey : key ∈ hostKeys U table.domain hostname) :
    (table.insert U hostname ip).entries.lookup key = some ip := by
  unfold DynamicHosts.insert
  unfold hostKeys at hkey
  dsimp only
  cases hdomain : table.domain with
  | none =>
      rw [hdomain] at hkey
      rw [List.mem_singleton.mp hkey]
      exact AList.lookup_insert _
  | some domain =>
      rw [hdomain] at hkey
      dsimp only
      rcases eq_or_ne key (U.toLowercase hostname ++ "." ++ domain) with rfl | hlong
      · exact AList.lookup_insert _
      · rw [AList.lookup_insert_ne hlong]
        rcases List.mem_cons.mp hkey with rfl | hother
        · exact AList.lookup_insert _
        · exact absurd (List.mem_singleton.mp hother) hlong

/-- A lease answers to its names exactly when the key each is asked by is one
that the table is written under. -/
theorem leaseAnswered_iff (hU : U.Caseless) (domain : Option String) (hostname : String) :
    LeaseAnswered H U domain hostname ↔ LeaseKeyed H U domain hostname := by
  constructor
  · rintro hanswered name hname ⟨q, hsame, hq⟩
    -- over an empty table only the keys just written can answer
    have hempty := (hanswered (DynamicHosts.new domain) (.v4 0) rfl name hname q 0 hsame hq).1
    rw [DynamicHosts.lookup_eq, isSome_lookup_iff _ hq, askedKey_of_same hU hsame] at hempty
    obtain ⟨found, hfound, _⟩ := hempty
    by_contra hkey
    rw [lookup_insert_other (DynamicHosts.new domain) hostname _ hkey] at hfound
    cases hfound
  · rintro hkeys table ip rfl name hname q id hsame hq
    have hkey := hkeys name hname ⟨q, hsame, hq⟩
    rw [← askedKey_of_same hU hsame] at hkey
    constructor
    · rw [DynamicHosts.lookup_eq, isSome_lookup_iff _ hq]
      exact ⟨ip, lookup_insert table hostname ip hkey, rfl⟩
    · intro qtype
      have hgone := lookup_remove table hostname hkey
      rw [askedKey] at hgone
      rw [DynamicHosts.lookup_eq, addressIn, hgone]
      rfl

/-- Both tables answer to their configured names exactly when every name is
kept under the key it is asked by. -/
theorem configured_names_answered_iff (hU : U.Caseless) (entries : List (String × IpAddr))
    (domain : Option String) (hostname : String) :
    (∀ entry ∈ entries, HostAnswered H U entries entry) ∧ LeaseAnswered H U domain hostname ↔
      (∀ entry ∈ entries, HostKeyed H U entries entry) ∧ LeaseKeyed H U domain hostname := by
  rw [leaseAnswered_iff hU]
  apply and_congr_left
  intro _
  constructor
  · intro h entry hentry
    exact (hostAnswered_iff hU entries entry).mp (h entry hentry)
  · intro h entry hentry
    exact (hostAnswered_iff hU entries entry).mpr (h entry hentry)

theorem asciiTables_caseless : asciiTables.Caseless := toAsciiLowercase_toAsciiLowercase

/-- A host and a lease whose names are written without a dot at the end. -/
theorem undotted_names_answered :
    (∀ entry ∈ [("NAS.local", IpAddr.v4 0xc0a80002)],
      HostAnswered questionCodec asciiTables [("NAS.local", .v4 0xc0a80002)] entry) ∧
    LeaseAnswered questionCodec asciiTables (some "local") "Printer" := by
  apply (configured_names_answered_iff asciiTables_caseless _ _ _).mpr
  constructor
  · intro entry hentry _
    rw [List.mem_singleton.mp hentry]
    exact ⟨("NAS.local", .v4 0xc0a80002), by decide, rfl⟩
  · intro name hname _
    have hnames : leaseNames (some "local") "Printer" = ["Printer", "Printer.local"] := by decide
    rw [hnames] at hname
    rcases List.mem_pair.mp hname with rfl | rfl <;> decide

/-- A host configured as `nas.local.` is not found as `nas.local`. -/
theorem dotted_host_lost :
    ¬ ∀ (H : HickoryCrate) (U : UnicodeTables) (entries : List (String × IpAddr))
      (domain : Option String) (hostname : String), U.Caseless →
      (∀ entry ∈ entries, HostAnswered H U entries entry) ∧ LeaseAnswered H U domain hostname := by
  intro h
  have hanswered := (h questionCodec asciiTables [("nas.local.", .v4 0xc0a80002)] none "nas"
    asciiTables_caseless).1 _ List.mem_cons_self
  exact absurd (hanswered "nas.local" 0 rfl (by decide)) (by decide)

end Relay.Dns
