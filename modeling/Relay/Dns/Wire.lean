import Relay.Dns.Message

/-!
A codec for messages that carry no records: the header and the uncompressed
question section. It is a concrete `HickoryCrate`, used where a statement about
the program is instantiated.
-/

namespace Relay.Dns

open Binary

def bit (b : Bool) (weight : Nat) : Nat := if b then weight else 0

def OpCode.number : OpCode → Nat
  | .query => 0
  | .other code => code.toNat % 16

def ResponseCode.number : ResponseCode → Nat
  | .noError => 0
  | .servFail => 2
  | .nxDomain => 3
  | .refused => 5
  | .other code => code.toNat % 16

def OpCode.ofNumber (n : Nat) : OpCode :=
  if n = 0 then .query else .other (UInt8.ofNat n)

def ResponseCode.ofNumber (n : Nat) : ResponseCode :=
  if n = 0 then .noError
  else if n = 2 then .servFail
  else if n = 3 then .nxDomain
  else if n = 5 then .refused
  else .other (UInt16.ofNat n)

/-- The two flag bytes of a header. -/
def flagBytes (m : Message) : Bytes :=
  [UInt8.ofNat (bit (m.messageType = .response) 128 + m.opCode.number * 8 +
      bit m.authoritative 4 + bit m.truncated 2 + bit m.recursionDesired 1),
    UInt8.ofNat (bit m.recursionAvailable 128 + bit m.authenticData 32 +
      bit m.checkingDisabled 16 + m.responseCode.number)]

/-- A name without compression. -/
def encodeName (name : Name) : Option Bytes :=
  if name.labels.all (fun label => 1 ≤ label.length && label.length ≤ 63) then
    some (name.labels.flatMap prefixed ++ [0])
  else none

def encodeQuestion (q : Query) : Option Bytes :=
  (encodeName q.name).map fun name =>
    name ++ (beBytes 2 q.queryType.toNat ++ beBytes 2 q.queryClass.toNat)

def encodeQuestions : List Query → Option Bytes
  | [] => some []
  | q :: qs => do
      let front ← encodeQuestion q
      let back ← encodeQuestions qs
      some (front ++ back)

def decodeLabels : Nat → Bytes → Option (List Bytes × Bytes)
  | 0, _ => none
  | _ + 1, [] => none
  | fuel + 1, len :: rest =>
      if len = 0 then some ([], rest)
      else if len.toNat ≤ 63 ∧ len.toNat ≤ rest.length then
        (decodeLabels fuel (rest.drop len.toNat)).map fun (labels, rest') =>
          (rest.take len.toNat :: labels, rest')
      else none

def decodeQuestion (bytes : Bytes) : Option (Query × Bytes) := do
  let (labels, rest) ← decodeLabels bytes.length bytes
  if 4 ≤ rest.length then
    some ({ name := { labels := labels }
            queryType := UInt16.ofNat (ofBe (rest.take 2))
            queryClass := UInt16.ofNat (ofBe ((rest.drop 2).take 2)) }, rest.drop 4)
  else none

def decodeQuestions : Nat → Bytes → Option (List Query × Bytes)
  | 0, rest => some ([], rest)
  | n + 1, bytes => do
      let (q, rest) ← decodeQuestion bytes
      let (qs, rest) ← decodeQuestions n rest
      some (q :: qs, rest)

/-- The header and the questions; records are not covered. -/
def questionToVec (m : Message) : Option Bytes :=
  if m.answers = [] ∧ m.nameServers = [] ∧ m.additionals = [] ∧ m.queries.length < 65536 then
    (encodeQuestions m.queries).map fun questions =>
      toBe 2 m.id ++ flagBytes m ++ beBytes 2 m.queries.length ++ List.replicate 6 0 ++ questions
  else none

/-- The header fields and the questions of a message; what follows is ignored. -/
def questionFromBytes (bytes : Bytes) : Option Message := do
  let flags ← bytes[2]?
  let more ← bytes[3]?
  let (queries, _) ← decodeQuestions (ofBe ((bytes.drop 4).take 2)) (bytes.drop 12)
  some
    { id := BitVec.ofNat 16 (ofBe (bytes.take 2))
      messageType := if flags.toNat / 128 = 1 then .response else .query
      opCode := OpCode.ofNumber (flags.toNat / 8 % 16)
      authoritative := flags.toNat / 4 % 2 = 1
      truncated := flags.toNat / 2 % 2 = 1
      recursionDesired := flags.toNat % 2 = 1
      recursionAvailable := more.toNat / 128 = 1
      authenticData := more.toNat / 32 % 2 = 1
      checkingDisabled := more.toNat / 16 % 2 = 1
      responseCode := ResponseCode.ofNumber (more.toNat % 16)
      queries := queries }

/-- A name's presentation form: the bytes of its labels as characters. -/
def asciiDisplay (name : Name) : String :=
  String.ofList (List.intercalate ['.']
    (name.labels.map fun label => label.map fun b => Char.ofNat b.toNat)) ++
    (if name.isFqdn then "." else "")

/-- The name of a text in ASCII, with or without a dot at its end. -/
def asciiFromStr (text : String) : Option Name :=
  some
    { labels := (text.toList.splitOn '.').filterMap fun label =>
        if label = [] then none else some (label.map fun c => UInt8.ofNat c.toNat)
      isFqdn := text.toList.getLast? = some '.' }

def asciiDebugType (t : RecordType) : String :=
  if t = .a then "A"
  else if t = .aaaa then "AAAA"
  else "Unknown(" ++ toString t.toNat ++ ")"

def questionCodec : HickoryCrate where
  display := asciiDisplay
  debugType := asciiDebugType
  fromStr := asciiFromStr
  toVec := questionToVec
  fromBytes := questionFromBytes

/-- A query for the address of a one-letter name. -/
def sampleRequest : Message :=
  { recursionDesired := true
    queries := [⟨{ labels := [[97]] }, .a, 1⟩] }

/-- Reading the labels of an encoded name, whatever follows it. -/
theorem decodeLabels_encoded {labels : List Bytes}
    (h : ∀ label ∈ labels, 1 ≤ label.length ∧ label.length ≤ 63) (rest : Bytes) {fuel : Nat}
    (hfuel : labels.length < fuel) :
    decodeLabels fuel (labels.flatMap prefixed ++ 0 :: rest) = some (labels, rest) := by
  induction labels generalizing fuel with
  | nil =>
      cases fuel with
      | zero => omega
      | succ fuel => simp [decodeLabels]
  | cons label labels ih =>
      cases fuel with
      | zero => omega
      | succ fuel =>
          have hlabel := h label List.mem_cons_self
          have hnat : (UInt8.ofNat label.length).toNat = label.length :=
            toNat_ofNat_length (by omega)
          have hzero : UInt8.ofNat label.length ≠ 0 := by
            intro heq
            have := congrArg UInt8.toNat heq
            rw [hnat] at this
            simp at this
            subst this
            simp at hlabel
          have hrest : labels.length < fuel := by
            simp only [List.length_cons] at hfuel
            omega
          have hih := ih (fun l hl => h l (List.mem_cons_of_mem _ hl)) hrest
          simp only [List.flatMap_cons, prefixed, List.cons_append, decodeLabels, hzero,
            if_false, hnat, List.append_assoc]
          rw [if_pos ⟨hlabel.2, by simp⟩, List.drop_left, hih]
          simp

theorem encodeName_some {name : Name} {bytes : Bytes} (h : encodeName name = some bytes) :
    (∀ label ∈ name.labels, 1 ≤ label.length ∧ label.length ≤ 63) ∧
      bytes = name.labels.flatMap prefixed ++ [0] := by
  unfold encodeName at h
  split at h
  · rename_i hall
    cases h
    refine ⟨?_, rfl⟩
    intro label hlabel
    simpa using List.all_eq_true.mp hall label hlabel
  · cases h

private theorem ofNat_ofBe_word (x : UInt16) :
    UInt16.ofNat (ofBe (beBytes 2 x.toNat)) = x := by
  rw [ofBe_beBytes_of_lt (by have := x.toNat_lt; omega)]
  simp

/-- Reading back an encoded question gives the question on the wire. -/
theorem decodeQuestion_encoded {q : Query} {bytes : Bytes} (h : encodeQuestion q = some bytes)
    (rest : Bytes) :
    ∃ q', decodeQuestion (bytes ++ rest) = some (q', rest) ∧ q'.onWire = q.onWire := by
  unfold encodeQuestion at h
  rw [Option.map_eq_some_iff] at h
  obtain ⟨name, hname, rfl⟩ := h
  obtain ⟨hlabels, rfl⟩ := encodeName_some hname
  have hfuel : q.name.labels.length <
      (q.name.labels.flatMap prefixed ++ [0] ++
        (beBytes 2 q.queryType.toNat ++ beBytes 2 q.queryClass.toNat) ++ rest).length := by
    have hlen : q.name.labels.length ≤ (q.name.labels.flatMap prefixed).length := by
      rw [List.length_flatMap]
      simp
    simp only [List.length_append, List.length_singleton]
    omega
  have hdecode := decodeLabels_encoded hlabels
    (beBytes 2 q.queryType.toNat ++ beBytes 2 q.queryClass.toNat ++ rest) hfuel
  unfold decodeQuestion
  simp only [List.append_assoc, List.cons_append, List.nil_append] at hdecode ⊢
  rw [hdecode]
  have hdrop : (beBytes 2 q.queryType.toNat ++ (beBytes 2 q.queryClass.toNat ++ rest)).drop 2 =
      beBytes 2 q.queryClass.toNat ++ rest :=
    List.drop_left' (by simp)
  have htype : (beBytes 2 q.queryType.toNat ++ (beBytes 2 q.queryClass.toNat ++ rest)).take 2 =
      beBytes 2 q.queryType.toNat :=
    List.take_left' (by simp)
  have hclass : (beBytes 2 q.queryClass.toNat ++ rest).take 2 = beBytes 2 q.queryClass.toNat :=
    List.take_left' (by simp)
  have hrest : (beBytes 2 q.queryType.toNat ++ (beBytes 2 q.queryClass.toNat ++ rest)).drop 4 =
      rest := by
    rw [← List.append_assoc]
    exact List.drop_left' (by simp)
  refine ⟨⟨⟨q.name.labels, true⟩, q.queryType, q.queryClass⟩, ?_, rfl⟩
  simp only [Option.bind_eq_bind, Option.bind_some]
  rw [if_pos (by simp; omega), hrest, htype, hdrop, hclass, ofNat_ofBe_word, ofNat_ofBe_word]

theorem decodeQuestions_encoded {qs : List Query} {bytes : Bytes}
    (h : encodeQuestions qs = some bytes) (rest : Bytes) :
    ∃ qs', decodeQuestions qs.length (bytes ++ rest) = some (qs', rest) ∧
      qs'.map Query.onWire = qs.map Query.onWire := by
  induction qs generalizing bytes with
  | nil =>
      cases h
      exact ⟨[], rfl, rfl⟩
  | cons q qs ih =>
      simp only [encodeQuestions, Option.bind_eq_bind, Option.bind_eq_some_iff] at h
      obtain ⟨front, hfront, back, hback, heq⟩ := h
      cases heq
      obtain ⟨q', hq', hwire⟩ := decodeQuestion_encoded hfront (back ++ rest)
      obtain ⟨qs', hqs', hwires⟩ := ih hback
      refine ⟨q' :: qs', ?_, by simp [hwire, hwires]⟩
      simp [decodeQuestions, hq', hqs']

/-- The length of a header. -/
theorem questionToVec_shape {m : Message} {wire : Bytes} (h : questionToVec m = some wire) :
    ∃ questions, encodeQuestions m.queries = some questions ∧ m.queries.length < 65536 ∧
      wire = toBe 2 m.id ++ flagBytes m ++ beBytes 2 m.queries.length ++
        List.replicate 6 0 ++ questions := by
  unfold questionToVec at h
  split at h
  · rename_i hnone
    rw [Option.map_eq_some_iff] at h
    obtain ⟨questions, hquestions, rfl⟩ := h
    exact ⟨questions, hquestions, hnone.2.2.2, rfl⟩
  · cases h

end Relay.Dns
