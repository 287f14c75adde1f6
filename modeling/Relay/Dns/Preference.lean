import Relay.Dns.Router
import Relay.Dns.Wire

/-!
What is made of the two answers when one address family is preferred: which
records there are, in which order, and when one of them stands there twice.
-/

namespace Relay.Dns

open Binary Upstream

def RecordType.cname : RecordType := 5

def preferredType : IpStrategy → Option RecordType
  | .preferIpv4 => some .a
  | .preferIpv6 => some .aaaa
  | _ => none

def otherFamily (qtype : RecordType) : RecordType := if qtype = .a then .aaaa else .a

variable (H : HickoryCrate)

/-- What the upstream brings back for the request and for the other family, in
the order in which it is asked. -/
def pairOutcomes (net : Network) (group : UpstreamGroup) (request : Message) (altType : RecordType)
    (requestFirst : Bool) : Run QueryError Message × Run QueryError Message :=
  let alt := rewriteQtype request altType
  if requestFirst then
    let (own, group) := group.query H net false request
    (own, (group.query H net true alt).1)
  else
    let (other, group) := group.query H net true alt
    ((group.query H net false request).1, other)

/-- The other family's response, or none when its query failed. -/
def Settled : Run QueryError Message → Option Message → Prop
  | .ok response, some secondary => response = secondary
  | .error (.error _), none => True
  | _, _ => False

def answersOf : Option Message → List Record
  | some message => message.answers
  | none => []

variable {H}

theorem queryBoth_eq (net : Network) (group : UpstreamGroup) (request : Message)
    (altType : RecordType) (requestFirst : Bool) :
    (queryBoth H net group request altType requestFirst).1 =
      joinAnswers request (pairOutcomes H net group request altType requestFirst).1
        (pairOutcomes H net group request altType requestFirst).2 requestFirst := by
  unfold queryBoth pairOutcomes
  cases requestFirst <;> rfl

/-- Both queries are made for an address type under a preference, the preferred
family's first. -/
theorem queryWithStrategy_preferred {strategy : IpStrategy} {preferred qtype : RecordType}
    (hprefer : preferredType strategy = some preferred) (hqtype : qtype = .a ∨ qtype = .aaaa)
    (net : Network) (group : UpstreamGroup) (request : Message) :
    queryWithStrategy H strategy net group request qtype =
      queryBoth H net group request (otherFamily qtype) (decide (qtype = preferred)) := by
  cases strategy with
  | preferIpv4 =>
      cases hprefer
      rcases hqtype with rfl | rfl <;> rfl
  | preferIpv6 =>
      cases hprefer
      rcases hqtype with rfl | rfl <;> rfl
  | default => cases hprefer
  | onlyIpv4 => cases hprefer
  | onlyIpv6 => cases hprefer

theorem joinAnswers_ok {request own : Message} {other : Run QueryError Message}
    {secondary : Option Message} (h : Settled other secondary) (requestFirst : Bool) :
    joinAnswers request (.ok own) other requestFirst =
      .ok (mergeResponses request own secondary requestFirst) := by
  rcases other with (_ | e) | response
  · cases h
  · cases secondary with
    | none => rfl
    | some => cases h
  · cases secondary with
    | none => cases h
    | some =>
        cases h
        rfl

theorem mergeResponses_answers (request own : Message) (secondary : Option Message)
    (requestFirst : Bool) :
    (mergeResponses request own secondary requestFirst).answers =
      if requestFirst then own.answers ++ answersOf secondary
      else answersOf secondary ++ own.answers := by
  cases secondary <;> cases requestFirst <;> simp [mergeResponses, answersOf]

/-- All records of both responses and no others, each as often as it was there,
the preferred family's addresses before the other's, under the request's ID with
the question and the code of the response to the type asked for. -/
structure PreferredFirst (preferred : RecordType) (request own : Message)
    (secondary : List Record) (response : Message) : Prop where
  complete : response.answers.Perm (own.answers ++ secondary)
  ordered : response.answers.Pairwise fun first second =>
    second.recordType = preferred → first.recordType ≠ otherFamily preferred
  id_eq : response.id = request.id
  queries_eq : response.queries = own.queries
  responseCode_eq : response.responseCode = own.responseCode

/-- A part without the other family's addresses, before a part without the
preferred family's. -/
theorem ordered_append {preferred other : RecordType} {front back : List Record}
    (hfront : ∀ record ∈ front, record.recordType ≠ other)
    (hback : ∀ record ∈ back, record.recordType ≠ preferred) :
    (front ++ back).Pairwise fun first second =>
      second.recordType = preferred → first.recordType ≠ other := by
  apply List.pairwise_append.mpr
  refine ⟨?_, ?_, ?_⟩
  · apply List.pairwise_of_forall_mem_list
    intro first hfirst second _ _
    exact hfront first hfirst
  · apply List.pairwise_of_forall_mem_list
    intro first _ second hsecond hpreferred
    exact absurd hpreferred (hback second hsecond)
  · intro first hfirst second _ _
    exact hfront first hfirst

/-- Aliases and records of one family are not addresses of the other. -/
theorem ne_otherFamily {qtype : RecordType} (hqtype : qtype = .a ∨ qtype = .aaaa)
    {record : Record} (h : record.recordType = qtype ∨ record.recordType = .cname) :
    record.recordType ≠ otherFamily qtype := by
  rcases hqtype with rfl | rfl <;> rcases h with h | h <;> rw [h] <;> decide

theorem otherFamily_otherFamily {qtype : RecordType} (hqtype : qtype = .a ∨ qtype = .aaaa) :
    otherFamily (otherFamily qtype) = qtype := by
  rcases hqtype with rfl | rfl <;> rfl

theorem otherFamily_address (qtype : RecordType) :
    otherFamily qtype = .a ∨ otherFamily qtype = .aaaa := by
  unfold otherFamily
  split
  · exact Or.inr rfl
  · exact Or.inl rfl

theorem mergeResponses_preferredFirst {preferred qtype : RecordType} {request own : Message}
    {secondary : Option Message} (hpreferred : preferred = .a ∨ preferred = .aaaa)
    (hqtype : qtype = .a ∨ qtype = .aaaa)
    (hown : ∀ record ∈ own.answers, record.recordType = qtype ∨ record.recordType = .cname)
    (hother : ∀ record ∈ answersOf secondary,
      record.recordType = otherFamily qtype ∨ record.recordType = .cname) :
    PreferredFirst preferred request own (answersOf secondary)
      (mergeResponses request own secondary (decide (qtype = preferred))) where
  complete := by
    rw [mergeResponses_answers]
    split
    · exact List.Perm.refl _
    · exact List.perm_append_comm
  ordered := by
    have hback := otherFamily_otherFamily hqtype
    have hownFamily := fun record hrecord => ne_otherFamily hqtype (hown record hrecord)
    have hotherFamily := fun record hrecord =>
      ne_otherFamily (otherFamily_address qtype) (hother record hrecord)
    rw [hback] at hotherFamily
    rw [mergeResponses_answers]
    split
    · rename_i hfirst
      have heq := of_decide_eq_true hfirst
      subst heq
      exact ordered_append hownFamily hotherFamily
    · rename_i hsecond
      have hne : qtype ≠ preferred := fun heq => hsecond (decide_eq_true heq)
      have heq : preferred = otherFamily qtype := by
        rcases hqtype with rfl | rfl <;> rcases hpreferred with rfl | rfl <;>
          first | rfl | exact absurd rfl hne
      subst heq
      rw [hback]
      exact ordered_append hotherFamily hownFamily
  id_eq := rfl
  queries_eq := rfl
  responseCode_eq := rfl

theorem preferredType_address {strategy : IpStrategy} {preferred : RecordType}
    (h : preferredType strategy = some preferred) : preferred = .a ∨ preferred = .aaaa := by
  cases strategy <;> cases h
  · exact Or.inl rfl
  · exact Or.inr rfl

/-- The merged response is complete and in order, and no record stands in it twice
exactly when none does in either response and none is in both, whatever makes two
records the same. -/
theorem queryWithStrategy_merged {strategy : IpStrategy} {preferred qtype : RecordType}
    {net : Network} {group : UpstreamGroup} {request own : Message} {secondary : Option Message}
    (hprefer : preferredType strategy = some preferred) (hqtype : qtype = .a ∨ qtype = .aaaa)
    (hown : (pairOutcomes H net group request (otherFamily qtype)
      (decide (qtype = preferred))).1 = .ok own)
    (hother : Settled (pairOutcomes H net group request (otherFamily qtype)
      (decide (qtype = preferred))).2 secondary)
    (hownTypes : ∀ record ∈ own.answers,
      record.recordType = qtype ∨ record.recordType = .cname)
    (hotherTypes : ∀ record ∈ answersOf secondary,
      record.recordType = otherFamily qtype ∨ record.recordType = .cname) :
    ∃ response, (queryWithStrategy H strategy net group request qtype).1 = .ok response ∧
      PreferredFirst preferred request own (answersOf secondary) response ∧
      ∀ {β : Type} (identity : Record → β),
        (response.answers.map identity).Nodup ↔
          (own.answers.map identity).Nodup ∧ ((answersOf secondary).map identity).Nodup ∧
            ∀ record ∈ own.answers, ∀ other ∈ answersOf secondary,
              identity record ≠ identity other := by
  have hfirst : PreferredFirst preferred request own (answersOf secondary)
      (mergeResponses request own secondary (decide (qtype = preferred))) :=
    mergeResponses_preferredFirst (preferredType_address hprefer) hqtype hownTypes hotherTypes
  refine ⟨_, ?_, hfirst, ?_⟩
  · rw [queryWithStrategy_preferred hprefer hqtype, queryBoth_eq, hown]
    exact joinAnswers_ok hother _
  · intro β identity
    have hperm := hfirst.complete.map identity
    rw [hperm.nodup_iff, List.map_append, List.nodup_append]
    simp

/-! ### An alias that both responses name -/

/-- `a.` is an alias of `b.`. -/
def aliasRecord : Record where
  name := { labels := [[97]] }
  recordType := .cname
  ttl := 60
  data := some (.other [1, 98, 0])

def v4Record : Record where
  name := { labels := [[98]] }
  recordType := .a
  ttl := 60
  data := some (.a 0xc0000201)

def v6Record : Record where
  name := { labels := [[98]] }
  recordType := .aaaa
  ttl := 60
  data := some (.aaaa 1)

/-- The response to a query for the type with the alias and one record. -/
def aliasedResponse (qtype : RecordType) (record : Record) : Message where
  messageType := .response
  recursionDesired := true
  recursionAvailable := true
  queries := [⟨{ labels := [[97]] }, qtype, 1⟩]
  answers := [aliasRecord, record]

/-- A message of one question and two answers up to the record of the alias. -/
def aliasedFront (qtype : UInt8) : Bytes :=
  [0, 0, 0x81, 0x80, 0, 1, 0, 2, 0, 0, 0, 0, 1, 97, 0, 0, qtype, 0, 1,
    1, 97, 0, 0, 5, 0, 1, 0, 0, 0, 60, 0, 3, 1, 98, 0]

def v4Wire : Bytes :=
  aliasedFront 1 ++ [1, 98, 0, 0, 1, 0, 1, 0, 0, 0, 60, 0, 4, 192, 0, 2, 1]

def v6Wire : Bytes :=
  aliasedFront 28 ++ [1, 98, 0, 0, 28, 0, 1, 0, 0, 0, 60, 0, 16,
    0, 0, 0, 0, 0, 0, 0, 0, 0, 0, 0, 0, 0, 0, 0, 1]

/-- The codec on the two replies; on other bytes it reads no records. -/
def aliasCodec : HickoryCrate :=
  { questionCodec with
    fromBytes := fun bytes =>
      if bytes = v4Wire then some (aliasedResponse .a v4Record)
      else if bytes = v6Wire then some (aliasedResponse .aaaa v6Record)
      else questionFromBytes bytes }

/-- A server that answers the query for the other family with the second bytes. -/
def twoReplies (own other : Bytes) : Network where
  exchange := fun site _ _ => .reply (if site.alternate then other else own)
  queryId := fun _ => 0
  pooled := fun _ => false
  dhcpServers := fun _ => []
  expired := fun _ _ => false
  completion := fun _ => []

def tcpGroup : UpstreamGroup where
  servers := [{ kind := .tcp ⟨.v4 0x08080808, 53⟩, url := "tcp://8.8.8.8:53" }]
  strategy := .roundRobin

private theorem alias_outcomes :
    pairOutcomes aliasCodec (twoReplies v4Wire v6Wire) tcpGroup sampleRequest
        (otherFamily .a) (decide (RecordType.a = .a)) =
      (.ok (aliasedResponse .a v4Record), .ok (aliasedResponse .aaaa v6Record)) := by
  rfl

private theorem alias_settled :
    Settled (pairOutcomes aliasCodec (twoReplies v4Wire v6Wire) tcpGroup sampleRequest
        (otherFamily .a) (decide (RecordType.a = .a))).2
      (some (aliasedResponse .aaaa v6Record)) := by
  rw [alias_outcomes]
  rfl

private theorem aliased_types {qtype : RecordType} {record : Record}
    (h : record.recordType = qtype) :
    ∀ answer ∈ (aliasedResponse qtype record).answers,
      answer.recordType = qtype ∨ answer.recordType = .cname := by
  simp [aliasedResponse, aliasRecord, h]

theorem queryWithStrategy_merged_alias :
    ∃ response, (queryWithStrategy aliasCodec .preferIpv4 (twoReplies v4Wire v6Wire) tcpGroup
        sampleRequest .a).1 = .ok response ∧
      PreferredFirst .a sampleRequest (aliasedResponse .a v4Record) [aliasRecord, v6Record]
        response := by
  obtain ⟨response, hok, hfirst, _⟩ := queryWithStrategy_merged
    (show preferredType .preferIpv4 = some RecordType.a from rfl)
    (show RecordType.a = .a ∨ RecordType.a = .aaaa from Or.inl rfl)
    (congrArg Prod.fst alias_outcomes) alias_settled (aliased_types rfl) (aliased_types rfl)
  exact ⟨response, hok, hfirst⟩

/-- The alias `a.` stands twice in the answer to a query whose two responses name
it. -/
theorem queryWithStrategy_repeats_alias :
    ¬ ∀ (H : HickoryCrate) (strategy : IpStrategy) (preferred qtype : RecordType) (net : Network)
        (group : UpstreamGroup) (request own : Message) (secondary : Option Message)
        (response : Message),
      preferredType strategy = some preferred → (qtype = .a ∨ qtype = .aaaa) →
      (pairOutcomes H net group request (otherFamily qtype)
        (decide (qtype = preferred))).1 = .ok own →
      Settled (pairOutcomes H net group request (otherFamily qtype)
        (decide (qtype = preferred))).2 secondary →
      (∀ record ∈ own.answers, record.recordType = qtype ∨ record.recordType = .cname) →
      (∀ record ∈ answersOf secondary,
        record.recordType = otherFamily qtype ∨ record.recordType = .cname) →
      (queryWithStrategy H strategy net group request qtype).1 = .ok response →
      PreferredFirst preferred request own (answersOf secondary) response ∧
        response.answers.Nodup := by
  intro hclaim
  have hboth := hclaim aliasCodec .preferIpv4 .a .a (twoReplies v4Wire v6Wire) tcpGroup
    sampleRequest (aliasedResponse .a v4Record) (some (aliasedResponse .aaaa v6Record))
    { aliasedResponse .a v4Record with answers := [aliasRecord, v4Record, aliasRecord, v6Record] }
    rfl (Or.inl rfl) (congrArg Prod.fst alias_outcomes) alias_settled (aliased_types rfl)
    (aliased_types rfl) rfl
  have htwice := hboth.2
  simp at htwice

end Relay.Dns
