import Mathlib.Data.List.AList
import Relay.Dns.Message
import Relay.Text.Str

/-!
`dns/hosts.rs`: the static table of the configuration, the dynamic table the
DHCP servers fill, and the response both answer with.
-/

namespace Relay.Dns

open Text

/-- A `HashMap` with string keys. -/
abbrev StringMap (α : Type) := AList (fun _ : String => α)

/-- The methods of `str` whose tables are those of Unicode. -/
structure UnicodeTables where
  toLowercase : String → String
  toUppercase : String → String

/-- The tables of a text whose letters are all ASCII. -/
def asciiTables : UnicodeTables where
  toLowercase := toAsciiLowercase
  toUppercase := toAsciiUppercase

/-- What the program relies on in the tables: they are those of ASCII on a text
in ASCII, and a dot is neither the lower case of another character nor seen by
the rule for a final sigma. -/
structure UnicodeTables.Lawful (U : UnicodeTables) : Prop where
  ascii : ∀ s, isAscii s = true → U.toLowercase s = toAsciiLowercase s
  trimEndDots : ∀ s, U.toLowercase (trimEndDots s) = trimEndDots (U.toLowercase s)

theorem asciiTables_lawful : asciiTables.Lawful where
  ascii _ _ := rfl
  trimEndDots := toAsciiLowercase_trimEndDots

variable (H : HickoryCrate) (U : UnicodeTables)

def buildResponse (name : String) (ip : IpAddr) (qtype : RecordType) (id : BitVec 16) :
    Option Message :=
  let rdata := match ip with
    | .v4 v4 => if qtype = .a then some (RData.a v4) else none
    | .v6 v6 => if qtype = .aaaa then some (RData.aaaa v6) else none
  match rdata with
  | none => none
  | some rdata =>
      match H.fromStr name with
      | none => none
      | some nameParsed =>
          let record : Record :=
            { name := nameParsed, recordType := qtype, ttl := 300, data := some rdata }
          some {
            id := id
            messageType := .response
            opCode := .query
            recursionDesired := true
            recursionAvailable := true
            responseCode := .noError
            answers := [record] }

/-- `HostsTable`: immutable after startup. -/
structure HostsTable where
  map : StringMap IpAddr

/-- `HostsTable::new`: of entries with one lower-cased key the last stays. -/
def HostsTable.new (entries : List (String × IpAddr)) : HostsTable where
  map := entries.foldl (fun map entry => map.insert (U.toLowercase entry.1) entry.2) ∅

def HostsTable.lookup (hosts : HostsTable) (name : String) (qtype : RecordType)
    (id : BitVec 16) : Option Message := do
  let key := U.toLowercase (trimEndDots name)
  let ip ← hosts.map.lookup key
  buildResponse H name ip qtype id

/-- `DynamicHosts`: the entries, and the search domain they also get. -/
structure DynamicHosts where
  entries : StringMap IpAddr := ∅
  domain : Option String := none

def DynamicHosts.new (domain : Option String) : DynamicHosts where
  domain := domain

/-- Called when a DHCP lease is granted or renewed. -/
def DynamicHosts.insert (hosts : DynamicHosts) (hostname : String) (ip : IpAddr) :
    DynamicHosts :=
  let hostname := U.toLowercase hostname
  let map := hosts.entries.insert hostname ip
  { hosts with entries :=
      match hosts.domain with
      | some domain => map.insert (hostname ++ "." ++ domain) ip
      | none => map }

/-- Called when a DHCP lease is released. -/
def DynamicHosts.remove (hosts : DynamicHosts) (hostname : String) : DynamicHosts :=
  let hostname := U.toLowercase hostname
  let map := hosts.entries.erase hostname
  { hosts with entries :=
      match hosts.domain with
      | some domain => map.erase (hostname ++ "." ++ domain)
      | none => map }

def DynamicHosts.lookup (hosts : DynamicHosts) (name : String) (qtype : RecordType)
    (id : BitVec 16) : Option Message := do
  let key := U.toLowercase (trimEndDots name)
  let ip ← hosts.entries.lookup key
  buildResponse H name ip qtype id

/-- A table's response carries the ID it was given and no question. -/
theorem buildResponse_some {name : String} {ip : IpAddr} {qtype : RecordType} {id : BitVec 16}
    {response : Message} (h : buildResponse H name ip qtype id = some response) :
    response.id = id ∧ response.messageType = .response ∧ response.queries = [] := by
  unfold buildResponse at h
  simp only at h
  split at h
  · cases h
  · split at h
    · cases h
    · cases h
      exact ⟨rfl, rfl, rfl⟩

variable {H U}

theorem HostsTable.lookup_some {hosts : HostsTable} {name : String} {qtype : RecordType}
    {id : BitVec 16} {response : Message} (h : hosts.lookup H U name qtype id = some response) :
    response.id = id ∧ response.messageType = .response ∧ response.queries = [] := by
  obtain ⟨ip, _, hbuild⟩ := Option.bind_eq_some_iff.mp h
  exact buildResponse_some H hbuild

theorem DynamicHosts.lookup_some {hosts : DynamicHosts} {name : String} {qtype : RecordType}
    {id : BitVec 16} {response : Message} (h : hosts.lookup H U name qtype id = some response) :
    response.id = id ∧ response.messageType = .response ∧ response.queries = [] := by
  obtain ⟨ip, _, hbuild⟩ := Option.bind_eq_some_iff.mp h
  exact buildResponse_some H hbuild

end Relay.Dns
