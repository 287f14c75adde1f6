import Relay.Dns.Wire

/-!
`dns/upstream/util.rs`: walking the sections of a message on the wire, and the
injection of a client-subnet option into its OPT record. Walking past the end
of a message is an error; a slice or an index past the end is a panic.
-/

namespace Relay.Dns.Upstream

open Binary

/-- Why a query of an upstream, or of the router, fails. -/
inductive QueryError where
  | encode
  | parse
  | messageTooShort
  | qnameTruncated
  | rrHeaderTruncated
  | additionalRrHeaderTruncated
  | transport
  | timedOut
  | noDhcpServers (interface : String)
  | noServers
  | allFailed
  | emptyQuery
  | noDefaultUpstream
  deriving DecidableEq, Repr

/-- `u16::from_be_bytes([msg[i], msg[i + 1]])`. -/
def wordAt (msg : Bytes) (i : Nat) : Run QueryError Nat := do
  let hi ← byteAt msg i
  let lo ← byteAt msg (i + 1)
  return hi.toNat * 256 + lo.toNat

def skipQname (msg : Bytes) (pos : Nat) : Run QueryError Nat :=
  match h : msg[pos]? with
  | none => fail .qnameTruncated
  | some len =>
      if len = 0 then .ok (pos + 1)
      else if len &&& 0xC0 = 0xC0 then .ok (pos + 2)
      else skipQname msg (pos + 1 + len.toNat)
termination_by msg.length - pos
decreasing_by
  have hlt := (List.getElem?_eq_some_iff.mp h).1
  omega

def skipRr (msg : Bytes) (pos : Nat) : Run QueryError Nat := do
  let pos ← skipQname msg pos
  if msg.length < pos + 10 then fail .rrHeaderTruncated
  else do
    let rdlength ← wordAt msg (pos + 8)
    return pos + 10 + rdlength

/-- The question section: each name is followed by QTYPE and QCLASS. -/
def skipQuestions (msg : Bytes) : Nat → Nat → Run QueryError Nat
  | 0, pos => .ok pos
  | n + 1, pos => do
      let pos ← skipQname msg pos
      skipQuestions msg n (pos + 4)

def skipRrs (msg : Bytes) : Nat → Nat → Run QueryError Nat
  | 0, pos => .ok pos
  | n + 1, pos => do
      let pos ← skipRr msg pos
      skipRrs msg n pos

/-- Where an OPT record keeps its RDLENGTH and its RDATA. -/
structure OptPlace where
  rdlengthPos : Nat
  rdataPos : Nat
  rdataLen : Nat
  deriving DecidableEq, Repr

/-- The additional section: the place of the last OPT record, and the end of
the section. -/
def scanAdditional (msg : Bytes) : Nat → Nat → Option OptPlace →
    Run QueryError (Option OptPlace × Nat)
  | 0, pos, opt => .ok (opt, pos)
  | n + 1, pos, opt => do
      let pos ← skipQname msg pos
      if msg.length < pos + 10 then fail .additionalRrHeaderTruncated
      else do
        let rtype ← wordAt msg pos
        let rdlength ← wordAt msg (pos + 8)
        let rdataPos := pos + 10
        let opt := if rtype = 41 then some ⟨pos + 8, rdataPos, rdlength⟩ else opt
        scanAdditional msg n (rdataPos + rdlength) opt

/-- The client-subnet option: code, length, family, prefix, scope, address. -/
def ecsOption (family : Nat) (prefixLen : UInt8) (addr : Bytes) : Bytes :=
  beBytes 2 8 ++ beBytes 2 (4 + addr.length) ++ beBytes 2 family ++ [prefixLen, 0] ++ addr

/-- An OPT record of its own for the option. -/
def optRr (optionData : Bytes) : Bytes :=
  [0] ++ beBytes 2 41 ++ beBytes 2 1232 ++ beBytes 4 0 ++ beBytes 2 optionData.length ++ optionData

/-- The option goes to the end of the OPT record's RDATA; what follows the
record up to the end of the section is not copied. -/
def extendOpt (msg optionData : Bytes) (opt : OptPlace) (additionalEnd : Nat) :
    Run QueryError Bytes := do
  let front ← slice msg 0 additionalEnd
  let rdata ← slice msg opt.rdataPos (opt.rdataPos + opt.rdataLen)
  return front.take opt.rdlengthPos ++ beBytes 2 (opt.rdataLen + optionData.length) ++ rdata ++
    optionData ++ msg.drop additionalEnd

/-- A new OPT record at the end of the section, and one more in ARCOUNT. -/
def appendOpt (msg optionData : Bytes) (arcount additionalEnd : Nat) : Run QueryError Bytes := do
  let front ← slice msg 0 additionalEnd
  overwrite (front ++ optRr optionData ++ msg.drop additionalEnd) 10 (beBytes 2 (arcount + 1))

def wireInjectEcs (msg : Bytes) (family : Nat) (prefixLen : UInt8) (addr : Bytes) :
    Run QueryError Bytes :=
  if msg.length < 12 then fail .messageTooShort
  else do
    let optionData := ecsOption family prefixLen addr
    let qdcount ← wordAt msg 4
    let ancount ← wordAt msg 6
    let nscount ← wordAt msg 8
    let arcount ← wordAt msg 10
    let pos ← skipQuestions msg qdcount 12
    let pos ← skipRrs msg (ancount + nscount) pos
    let (opt, additionalEnd) ← scanAdditional msg arcount pos none
    match opt with
    | some opt => extendOpt msg optionData opt additionalEnd
    | none => appendOpt msg optionData arcount additionalEnd

variable (H : HickoryCrate)

/-- `message.to_vec()?`. -/
def encode (m : Message) : Run QueryError Bytes :=
  match H.toVec m with
  | some bytes => .ok bytes
  | none => fail .encode

/-- `Message::from_bytes(bytes)?`. -/
def parseMessage (bytes : Bytes) : Run QueryError Message :=
  match H.fromBytes bytes with
  | some m => .ok m
  | none => fail .parse

def injectClientSubnet (request : Message) (subnet : IpAddr × UInt8) :
    Run QueryError Message := do
  let bytes ← encode H request
  let (family, addrBytes) := match subnet.1 with
    | .v4 v4 => (1, toBe 4 v4)
    | .v6 v6 => (2, toBe 16 v6)
  let addrByteLen := min (max ((subnet.2.toNat + 7) / 8) 1) addrBytes.length
  let newBytes ← wireInjectEcs bytes family subnet.2 (addrBytes.take addrByteLen)
  parseMessage H newBytes

theorem skipQname_of_getElem? {msg : Bytes} {pos : Nat} {len : UInt8} (h : msg[pos]? = some len) :
    skipQname msg pos =
      if len = 0 then .ok (pos + 1)
      else if len &&& 0xC0 = 0xC0 then .ok (pos + 2)
      else skipQname msg (pos + 1 + len.toNat) := by
  rw [skipQname]
  split
  · rename_i hnone
    rw [h] at hnone
    cases hnone
  · rename_i len' hlen
    rw [h] at hlen
    cases hlen
    rfl

theorem skipQname_lt {msg : Bytes} {pos next : Nat} (h : skipQname msg pos = .ok next) :
    pos < next := by
  fun_induction skipQname msg pos with
  | case1 pos hnone => cases h
  | case2 pos hlen =>
      cases h
      omega
  | case3 pos len hlen hzero hpointer =>
      cases h
      omega
  | case4 pos len hlen hzero hpointer ih =>
      have := ih h
      omega

theorem skipRr_lt {msg : Bytes} {pos next : Nat} (h : skipRr msg pos = .ok next) :
    pos < next := by
  unfold skipRr at h
  obtain ⟨mid, hmid, h⟩ := run_bind_eq_ok.mp h
  have hlt := skipQname_lt hmid
  split at h
  · cases h
  · obtain ⟨rdlength, _, h⟩ := run_bind_eq_ok.mp h
    cases h
    omega

theorem skipQuestions_le {msg : Bytes} {n pos next : Nat}
    (h : skipQuestions msg n pos = .ok next) : pos ≤ next := by
  induction n generalizing pos with
  | zero =>
      cases h
      exact le_rfl
  | succ n ih =>
      obtain ⟨mid, hmid, h⟩ := run_bind_eq_ok.mp h
      have hlt := skipQname_lt hmid
      have := ih h
      omega

theorem skipRrs_le {msg : Bytes} {n pos next : Nat} (h : skipRrs msg n pos = .ok next) :
    pos ≤ next := by
  induction n generalizing pos with
  | zero =>
      cases h
      exact le_rfl
  | succ n ih =>
      obtain ⟨mid, hmid, h⟩ := run_bind_eq_ok.mp h
      have hlt := skipRr_lt hmid
      have := ih h
      omega

/-- The scan moves forward, and an OPT record it finds lies behind its start. -/
theorem scanAdditional_le {msg : Bytes} {n pos sectionEnd : Nat} {opt found : Option OptPlace}
    (h : scanAdditional msg n pos opt = .ok (found, sectionEnd)) :
    pos ≤ sectionEnd ∧ (found = opt ∨ ∃ place, found = some place ∧ pos ≤ place.rdlengthPos) := by
  induction n generalizing pos opt with
  | zero =>
      cases h
      exact ⟨le_rfl, Or.inl rfl⟩
  | succ n ih =>
      obtain ⟨mid, hmid, h⟩ := run_bind_eq_ok.mp h
      have hlt := skipQname_lt hmid
      split at h
      · cases h
      · obtain ⟨rtype, _, h⟩ := run_bind_eq_ok.mp h
        obtain ⟨rdlength, _, h⟩ := run_bind_eq_ok.mp h
        obtain ⟨hle, hfound⟩ := ih h
        refine ⟨by omega, ?_⟩
        rcases hfound with hsame | ⟨place, hplace, hpos⟩
        · split at hsame
          · exact Or.inr ⟨_, hsame, by simp only; omega⟩
          · exact Or.inl hsame
        · exact Or.inr ⟨place, hplace, by omega⟩

theorem slice_ok {ε : Type} {bytes out : Bytes} {lo hi : Nat}
    (h : slice bytes lo hi = (.ok out : Run ε Bytes)) :
    lo ≤ hi ∧ hi ≤ bytes.length ∧ out = (bytes.drop lo).take (hi - lo) := by
  unfold slice at h
  split at h
  · rename_i hbound
    cases h
    exact ⟨hbound.1, hbound.2, rfl⟩
  · cases h

private theorem take_drop_of_take {n e : Nat} {xs ys : Bytes} (h : xs.take e = ys.take e) :
    (xs.drop n).take (e - n) = (ys.drop n).take (e - n) := by
  rw [← List.drop_take, ← List.drop_take, h]

private theorem take_of_kept {msg rest : Bytes} {e kept : Nat} (h : e ≤ kept)
    (hlen : kept ≤ msg.length) : (msg.take kept ++ rest).take e = msg.take e := by
  rw [List.take_append_of_le_length (by simp; omega), List.take_take, Nat.min_eq_left h]

/-- The edit leaves the header up to ARCOUNT and the question section as they
are. -/
theorem wireInjectEcs_keeps_questions {msg addr out : Bytes} {family : Nat} {prefixLen : UInt8}
    (h : wireInjectEcs msg family prefixLen addr = .ok out) :
    ∃ qdcount sectionEnd, wordAt msg 4 = .ok qdcount ∧
      skipQuestions msg qdcount 12 = .ok sectionEnd ∧ out.take 10 = msg.take 10 ∧
      (out.drop 12).take (sectionEnd - 12) = (msg.drop 12).take (sectionEnd - 12) := by
  unfold wireInjectEcs at h
  split at h
  · cases h
  · obtain ⟨qdcount, hqd, h⟩ := run_bind_eq_ok.mp h
    obtain ⟨ancount, _, h⟩ := run_bind_eq_ok.mp h
    obtain ⟨nscount, _, h⟩ := run_bind_eq_ok.mp h
    obtain ⟨arcount, _, h⟩ := run_bind_eq_ok.mp h
    obtain ⟨sectionEnd, hquestions, h⟩ := run_bind_eq_ok.mp h
    obtain ⟨rrsEnd, hrrs, h⟩ := run_bind_eq_ok.mp h
    obtain ⟨⟨opt, additionalEnd⟩, hscan, h⟩ := run_bind_eq_ok.mp h
    have hstart := skipQuestions_le hquestions
    have hle := skipRrs_le hrrs
    obtain ⟨hend, hplace⟩ := scanAdditional_le hscan
    refine ⟨qdcount, sectionEnd, hqd, hquestions, ?_⟩
    cases opt with
    | none =>
        obtain ⟨front, hfront, h⟩ := run_bind_eq_ok.mp h
        obtain ⟨_, hlen, rfl⟩ := slice_ok hfront
        simp only [List.drop_zero, Nat.sub_zero] at h
        unfold overwrite at h
        split at h
        · rename_i hlong
          cases h
          rw [beBytes_length]
          obtain ⟨whole, hwhole⟩ : ∃ whole, msg.take additionalEnd ++ optRr
              (ecsOption family prefixLen addr) ++ msg.drop additionalEnd = whole := ⟨_, rfl⟩
          rw [hwhole] at hlong ⊢
          have hkept : ∀ e, e ≤ additionalEnd → whole.take e = msg.take e := by
            intro e he
            rw [← hwhole, List.append_assoc]
            exact take_of_kept he hlen
          have hten : (whole.take 10).length = 10 := by
            rw [beBytes_length] at hlong
            rw [List.length_take]
            omega
          constructor
          · rw [List.append_assoc, List.take_left' hten]
            exact hkept 10 (by omega)
          · rw [List.drop_left' (by rw [List.length_append, hten, beBytes_length])]
            exact take_drop_of_take (hkept sectionEnd (by omega))
        · cases h
    | some place =>
        obtain ⟨front, hfront, h⟩ := run_bind_eq_ok.mp h
        obtain ⟨rdata, _, h⟩ := run_bind_eq_ok.mp h
        obtain ⟨_, hlen, rfl⟩ := slice_ok hfront
        cases h
        have hrd : rrsEnd ≤ place.rdlengthPos := by
          rcases hplace with hnone | ⟨place', hsome, hpos⟩
          · cases hnone
          · cases hsome
            exact hpos
        simp only [List.drop_zero, Nat.sub_zero, List.take_take, List.append_assoc]
        have hkept : ∀ e, e ≤ sectionEnd → ∀ rest,
            (msg.take (min place.rdlengthPos additionalEnd) ++ rest).take e = msg.take e :=
          fun e he rest => take_of_kept (by omega) (by omega)
        exact ⟨hkept 10 (by omega) _, take_drop_of_take (hkept sectionEnd le_rfl _)⟩

/-! ### Questions as the codec without records writes them -/

private theorem getElem?_of_drop {msg rest : Bytes} {pos : Nat} {b : UInt8}
    (h : msg.drop pos = b :: rest) : msg[pos]? = some b := by
  rw [← List.head?_drop, h]
  rfl

private theorem label_is_no_pointer {label : Bytes} (h : 1 ≤ label.length ∧ label.length ≤ 63) :
    UInt8.ofNat label.length ≠ 0 ∧ UInt8.ofNat label.length &&& 0xC0 ≠ 0xC0 := by
  have hnat : (UInt8.ofNat label.length).toNat = label.length := toNat_ofNat_length (by omega)
  constructor
  · intro heq
    have hzero := congrArg UInt8.toNat heq
    rw [hnat] at hzero
    simp at hzero
    simp [hzero] at h
  · intro heq
    have hand := congrArg UInt8.toNat heq
    rw [UInt8.toNat_and, hnat] at hand
    have hle : label.length &&& (0xC0 : UInt8).toNat ≤ label.length := Nat.and_le_left
    have hc0 : (0xC0 : UInt8).toNat = 192 := rfl
    omega

theorem skipQname_encoded {labels : List Bytes}
    (h : ∀ label ∈ labels, 1 ≤ label.length ∧ label.length ≤ 63) {msg rest : Bytes} {pos : Nat}
    (hdrop : msg.drop pos = labels.flatMap prefixed ++ 0 :: rest) :
    skipQname msg pos = .ok (pos + (labels.flatMap prefixed).length + 1) := by
  induction labels generalizing pos with
  | nil =>
      rw [skipQname_of_getElem? (getElem?_of_drop hdrop)]
      rfl
  | cons label labels ih =>
      have hlabel := h label List.mem_cons_self
      obtain ⟨hzero, hpointer⟩ := label_is_no_pointer hlabel
      have hnat : (UInt8.ofNat label.length).toNat = label.length := toNat_ofNat_length (by omega)
      have hdrop' : msg.drop pos = UInt8.ofNat label.length ::
          (label ++ (labels.flatMap prefixed ++ 0 :: rest)) := by
        rw [hdrop]
        simp [prefixed]
      have hbyte := getElem?_of_drop hdrop'
      have htail : msg.drop (pos + 1 + label.length) = labels.flatMap prefixed ++ 0 :: rest := by
        rw [show pos + 1 + label.length = pos + (1 + label.length) by omega, ← List.drop_drop,
          hdrop', Nat.add_comm, List.drop_succ_cons, List.drop_left]
      rw [skipQname_of_getElem? hbyte, if_neg hzero, if_neg hpointer, hnat,
        ih (fun l hl => h l (List.mem_cons_of_mem _ hl)) htail]
      simp only [List.flatMap_cons, List.length_append, prefixed_length]
      congr 1
      omega

theorem skipQuestions_encoded {qs : List Query} {questions msg rest : Bytes} {pos : Nat}
    (h : encodeQuestions qs = some questions) (hdrop : msg.drop pos = questions ++ rest) :
    skipQuestions msg qs.length pos = .ok (pos + questions.length) := by
  induction qs generalizing pos questions with
  | nil =>
      cases h
      rfl
  | cons q qs ih =>
      simp only [encodeQuestions, Option.bind_eq_bind, Option.bind_eq_some_iff] at h
      obtain ⟨front, hfront, back, hback, heq⟩ := h
      cases heq
      unfold encodeQuestion at hfront
      obtain ⟨name, hname, rfl⟩ := Option.map_eq_some_iff.mp hfront
      obtain ⟨hlabels, rfl⟩ := encodeName_some hname
      have hlabelled : msg.drop pos = q.name.labels.flatMap prefixed ++ 0 ::
          (beBytes 2 q.queryType.toNat ++ beBytes 2 q.queryClass.toNat ++ (back ++ rest)) := by
        rw [hdrop]
        simp
      have hskip := skipQname_encoded hlabels hlabelled
      have htail : msg.drop (pos + (q.name.labels.flatMap prefixed).length + 1 + 4) =
          back ++ rest := by
        rw [show pos + (q.name.labels.flatMap prefixed).length + 1 + 4 =
          pos + ((q.name.labels.flatMap prefixed ++ [0]) ++ (beBytes 2 q.queryType.toNat ++
            beBytes 2 q.queryClass.toNat)).length by simp; omega, ← List.drop_drop, hdrop,
          List.append_assoc _ back, List.drop_left]
      rw [List.length_cons, skipQuestions, hskip, run_ok_bind, ih hback htail]
      congr 1
      simp only [List.length_append, List.length_singleton, beBytes_length]
      omega

end Relay.Dns.Upstream
