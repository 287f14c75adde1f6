import Relay.Binary.Reader
import Relay.Binary.Total

/-!
A DNS message as its sections on the wire: names with compression pointers,
resource records, and the options of an OPT record. Names inside the RDATA of
the record types that may compress them are read too, so that two records are
the same when they say the same, wherever the names are kept.
-/

namespace Relay.Dns.Sections

open Binary

/-- The 16-bit number at an offset. -/
def word (bytes : Bytes) (i : Nat) : Nat := ofBe ((bytes.drop i).take 2)

/-- The labels of a name at `pos` that ends by `bound`. A pointer leads to a
name that ends before the one it stands in begins. -/
def readName (bytes : Bytes) (bound start pos : Nat) : Option (List Bytes × Nat) :=
  match bytes[pos]? with
  | none => none
  | some len =>
      if bound ≤ pos then none
      else if len = 0 then some ([], pos + 1)
      else if len &&& 0xC0 = 0xC0 then
        let target := word bytes pos % 2 ^ 14
        if pos + 2 ≤ bound ∧ pos + 2 ≤ bytes.length ∧ 12 ≤ target ∧ target < start then
          (readName bytes start target target).map fun name => (name.1, pos + 2)
        else none
      else if len &&& 0xC0 = 0 ∧ pos + 1 + len.toNat < bound then
        (readName bytes bound start (pos + 1 + len.toNat)).map fun name =>
          ((bytes.drop (pos + 1)).take len.toNat :: name.1, name.2)
      else none
termination_by (start, bound - pos)
decreasing_by
  · apply Prod.Lex.left
    omega
  · apply Prod.Lex.right
    omega

def nameWithin (bound : Nat) : Reader (List Bytes) := fun bytes pos => readName bytes bound pos pos

structure Question where
  name : List Bytes
  qtype : Nat
  qclass : Nat
  deriving DecidableEq, Repr

def readQuestion : Reader Question := fun bytes pos => do
  let (name, pos) ← nameWithin bytes.length bytes pos
  if bytes.length < pos + 4 then none
  else some (⟨name, word bytes pos, word bytes (pos + 2)⟩, pos + 4)

/-- RDATA with the names in it: the bytes before them and behind them are of
no names. -/
structure Rdata where
  front : Bytes
  names : List (List Bytes)
  back : Bytes
  deriving DecidableEq, Repr

/-- How many bytes stand before the names of an RDATA, and how many names. -/
def rdataLayout (rtype : Nat) : Nat × Nat :=
  match rtype with
  -- NS, CNAME and PTR
  | 2 | 5 | 12 => (0, 1)
  -- SOA
  | 6 => (0, 2)
  -- MX
  | 15 => (2, 1)
  | _ => (0, 0)

def readRdata (bytes : Bytes) (rtype pos rdataEnd : Nat) : Option Rdata := do
  let (front, count) := rdataLayout rtype
  let (names, next) ← many (nameWithin rdataEnd) count bytes (pos + front)
  if rdataEnd < next then none
  else some ⟨(bytes.drop pos).take front, names, (bytes.drop next).take (rdataEnd - next)⟩

structure Rr where
  name : List Bytes
  rtype : Nat
  rclass : Nat
  ttl : Nat
  rdata : Rdata
  deriving DecidableEq, Repr

def readRr : Reader Rr := fun bytes pos => do
  let (name, pos) ← nameWithin bytes.length bytes pos
  let rdataEnd := pos + 10 + word bytes (pos + 8)
  if bytes.length < pos + 10 ∨ bytes.length < rdataEnd then none
  else do
    let rdata ← readRdata bytes (word bytes pos) (pos + 10) rdataEnd
    some (⟨name, word bytes pos, word bytes (pos + 2), ofBe ((bytes.drop (pos + 4)).take 4), rdata⟩,
      rdataEnd)

structure Packet where
  questions : List Question
  answers : List Rr
  authority : List Rr
  additional : List Rr
  deriving DecidableEq, Repr

/-- A message is its header and its sections, and nothing behind them. -/
def parse (bytes : Bytes) : Option Packet :=
  if bytes.length < 12 then none
  else do
    let (questions, pos) ← many readQuestion (word bytes 4) bytes 12
    let (answers, pos) ← many readRr (word bytes 6) bytes pos
    let (authority, pos) ← many readRr (word bytes 8) bytes pos
    let (additional, pos) ← many readRr (word bytes 10) bytes pos
    if pos = bytes.length then some ⟨questions, answers, authority, additional⟩ else none

structure EdnsOption where
  code : Nat
  data : Bytes
  deriving DecidableEq, Repr

/-- The options in the RDATA of an OPT record, up to its end. -/
def readOptions (rdata : Bytes) : Option (List EdnsOption) :=
  match rdata with
  | [] => some []
  | _ :: _ :: _ :: _ :: rest =>
      if rest.length < word rdata 2 then none
      else
        (readOptions (rest.drop (word rdata 2))).map
          (⟨word rdata 0, rest.take (word rdata 2)⟩ :: ·)
  | _ => none
termination_by rdata.length
decreasing_by
  simp only [List.length_drop, List.length_cons]
  omega

def Rr.isOpt (rr : Rr) : Bool := rr.rtype = 41

/-- An OPT record without its options. -/
def Rr.blank (rr : Rr) : Rr := if rr.isOpt then { rr with rdata := ⟨[], [], []⟩ } else rr

/-- The options of a record, all of whose RDATA they are. -/
def Rr.options (rr : Rr) : Option (List EdnsOption) := readOptions rr.rdata.back

def Packet.opts (p : Packet) : List Rr := p.additional.filter Rr.isOpt

/-- The message is this packet, with one OPT record at most, and its RDATA is
a row of options. -/
structure WellFormed (bytes : Bytes) (p : Packet) : Prop where
  parses : parse bytes = some p
  opts_le : p.opts.length ≤ 1
  options : ∀ opt ∈ p.opts, opt.options ≠ none

/-! ### Numbers and options -/

theorem word_lt (bytes : Bytes) (i : Nat) : word bytes i < 2 ^ 16 := by
  have h := ofBe_lt ((bytes.drop i).take 2)
  have hlen : ((bytes.drop i).take 2).length ≤ 2 := by
    rw [List.length_take]
    omega
  calc word bytes i < 256 ^ ((bytes.drop i).take 2).length := h
    _ ≤ 256 ^ 2 := Nat.pow_le_pow_right (by omega) hlen
    _ = 2 ^ 16 := by norm_num

theorem word_drop (bytes : Bytes) (i k : Nat) : word (bytes.drop i) k = word bytes (i + k) := by
  rw [word, word, List.drop_drop]

/-- A number that was written between two parts of a message, modulo its
width. -/
theorem word_beBytes (front back : Bytes) (n : Nat) :
    word (front ++ (beBytes 2 n ++ back)) front.length = n % 2 ^ 16 := by
  rw [word, List.drop_left, List.take_left' (beBytes_length 2 n), ofBe_beBytes]
  norm_num

/-- Options in front of others are read first. -/
theorem readOptions_append {rdata : Bytes} {options : List EdnsOption}
    (h : readOptions rdata = some options) (back : Bytes) :
    readOptions (rdata ++ back) = (readOptions back).map (options ++ ·) := by
  fun_induction readOptions rdata generalizing options with
  | case1 =>
      cases h
      rw [List.nil_append]
      cases readOptions back <;> rfl
  | case2 a b c d rest hlen =>
      rw [if_pos hlen] at h
      cases h
  | case3 a b c d rest hlen ih =>
      rw [if_neg hlen] at h
      obtain ⟨others, hothers, rfl⟩ := Option.map_eq_some_iff.mp h
      obtain ⟨len, hword⟩ : ∃ len, word (a :: b :: c :: d :: rest) 2 = len := ⟨_, rfl⟩
      have hword' : word (a :: b :: c :: d :: (rest ++ back)) 2 = len := hword
      rw [hword] at hlen ih hothers
      have hle : len ≤ rest.length := by omega
      rw [List.cons_append, List.cons_append, List.cons_append, List.cons_append, readOptions,
        hword', hword, if_neg (by rw [List.length_append]; omega),
        List.drop_append_of_le_length hle, List.take_append_of_le_length hle, ih hothers,
        Option.map_map]
      rfl
  | case4 => cases h

/-- An option lies within the RDATA, with its code and its length. -/
theorem readOptions_le {rdata : Bytes} {options : List EdnsOption}
    (h : readOptions rdata = some options) {option : EdnsOption} (hmem : option ∈ options) :
    4 + option.data.length ≤ rdata.length := by
  fun_induction readOptions rdata generalizing options with
  | case1 =>
      cases h
      cases hmem
  | case2 a b c d rest hlen =>
      rw [if_pos hlen] at h
      cases h
  | case3 a b c d rest hlen ih =>
      rw [if_neg hlen] at h
      obtain ⟨others, hothers, rfl⟩ := Option.map_eq_some_iff.mp h
      simp only [List.length_cons]
      rcases List.mem_cons.mp hmem with rfl | hlater
      · simp only [List.length_take]
        omega
      · have := ih hothers hlater
        rw [List.length_drop] at this
        omega
  | case4 => cases h

/-! ### What a reader depends on -/

theorem word_of_agree {base limit : Nat} {bytes other : Bytes} (h : Agree base limit bytes other)
    {i : Nat} (hlo : base ≤ i) (hhi : i + 2 ≤ limit) : word other i = word bytes i := by
  rw [word, word, h.slice hlo hhi]

theorem readName_advances {bytes : Bytes} {bound start pos next : Nat} {labels : List Bytes}
    (h : readName bytes bound start pos = some (labels, next)) :
    pos < next ∧ next ≤ bytes.length ∧ next ≤ bound := by
  fun_induction readName bytes bound start pos generalizing labels next with
  | case1 => cases h
  | case2 => cases h
  | case3 bound start pos hbound hget =>
      cases h
      have := (List.getElem?_eq_some_iff.mp hget).1
      omega
  | case4 bound start pos len hget hbound hroot hpointer target hcond =>
      obtain ⟨name, _, heq⟩ := Option.map_eq_some_iff.mp h
      cases heq
      omega
  | case5 => cases h
  | case6 bound start pos len hget hbound hroot hpointer hlabel ih =>
      obtain ⟨name, hname, heq⟩ := Option.map_eq_some_iff.mp h
      cases heq
      have := ih hname
      omega
  | case7 => cases h

theorem readName_frame {bytes other : Bytes} {bound bound' start pos next : Nat}
    {labels : List Bytes} (h : readName bytes bound start pos = some (labels, next))
    (hstart : 12 ≤ start) (hpos : start ≤ pos) (hbound' : next ≤ bound')
    (hagree : Agree 12 next bytes other) :
    readName other bound' start pos = some (labels, next) := by
  fun_induction readName bytes bound start pos generalizing labels next bound' with
  | case1 => cases h
  | case2 => cases h
  | case3 bound start pos hbound hget =>
      cases h
      rw [readName, hagree pos (by omega) (by omega), hget]
      simp only
      rw [if_neg (by omega), if_pos trivial]
  | case4 bound start pos len hget hbound hroot hpointer target hcond =>
      rename_i ih
      obtain ⟨name, hname, heq⟩ := Option.map_eq_some_iff.mp h
      cases heq
      obtain ⟨_, _, hinner⟩ := readName_advances hname
      have hlen := hagree.le_length (by omega) (by omega)
      have hword : word other pos = word bytes pos := word_of_agree hagree (by omega) le_rfl
      have hjump : readName other start target target = some (name.1, name.2) :=
        ih hname (by omega) le_rfl hinner (hagree.mono le_rfl (by omega))
      rw [readName, hagree pos (by omega) (by omega), hget]
      simp only
      rw [if_neg (by omega), if_neg hroot, if_pos hpointer, hword, if_pos (by omega), hjump]
      rfl
  | case5 => cases h
  | case6 bound start pos len hget hbound hroot hpointer hlabel ih =>
      obtain ⟨name, hname, heq⟩ := Option.map_eq_some_iff.mp h
      cases heq
      have hlt := (readName_advances hname).1
      have hrest := ih hname hstart (by omega) hbound' hagree
      rw [readName, hagree pos (by omega) (by omega), hget]
      simp only
      rw [if_neg (by omega), if_neg hroot, if_neg hpointer, if_pos ⟨hlabel.1, by omega⟩, hrest,
        hagree.slice (by omega) (by omega)]
      rfl
  | case7 => cases h

theorem nameWithin_local (bound : Nat) : Local 12 (nameWithin bound) where
  advances h := ⟨(readName_advances h).1, (readName_advances h).2.1⟩
  frame hpos h hagree := readName_frame h hpos le_rfl (readName_advances h).2.2 hagree

/-- A name that ends before the message does. -/
theorem nameWithin_length_frame {bytes other : Bytes} {pos next : Nat} {labels : List Bytes}
    (hpos : 12 ≤ pos) (h : nameWithin bytes.length bytes pos = some (labels, next))
    (hagree : Agree 12 next bytes other) :
    nameWithin other.length other pos = some (labels, next) := by
  obtain ⟨hlt, hle, _⟩ := readName_advances h
  exact readName_frame h hpos le_rfl (hagree.le_length (by omega) hle) hagree

theorem readQuestion_eq_some {bytes : Bytes} {pos next : Nat} {q : Question} :
    readQuestion bytes pos = some (q, next) ↔
      ∃ mid, nameWithin bytes.length bytes pos = some (q.name, mid) ∧
        mid + 4 ≤ bytes.length ∧ q.qtype = word bytes mid ∧ q.qclass = word bytes (mid + 2) ∧
          next = mid + 4 := by
  unfold readQuestion
  constructor
  · intro h
    obtain ⟨⟨name, mid⟩, hname, h⟩ := Option.bind_eq_some_iff.mp h
    dsimp only at h
    split at h
    · cases h
    · cases h
      exact ⟨mid, hname, by omega, rfl, rfl, rfl⟩
  · rintro ⟨mid, hname, hlen, htype, hclass, rfl⟩
    rw [hname]
    simp only [Option.bind_eq_bind, Option.bind_some, if_neg (not_lt.mpr hlen), ← htype, ← hclass]

theorem readQuestion_local : Local 12 readQuestion where
  advances h := by
    obtain ⟨mid, hname, hlen, _, _, rfl⟩ := readQuestion_eq_some.mp h
    have := (readName_advances hname).1
    omega
  frame hpos h hagree := by
    obtain ⟨mid, hname, hlen, htype, hclass, rfl⟩ := readQuestion_eq_some.mp h
    have hlt := (readName_advances hname).1
    apply readQuestion_eq_some.mpr
    refine ⟨mid, nameWithin_length_frame hpos hname (hagree.mono le_rfl (by omega)),
      hagree.le_length (by omega) hlen, ?_, ?_, rfl⟩
    · rw [htype, word_of_agree hagree (by omega) (by omega)]
    · rw [hclass, word_of_agree hagree (by omega) (by omega)]

theorem readRdata_eq_some {bytes : Bytes} {rtype pos rdataEnd : Nat} {rdata : Rdata} :
    readRdata bytes rtype pos rdataEnd = some rdata ↔
      ∃ next, many (nameWithin rdataEnd) (rdataLayout rtype).2 bytes
          (pos + (rdataLayout rtype).1) = some (rdata.names, next) ∧ next ≤ rdataEnd ∧
        rdata.front = (bytes.drop pos).take (rdataLayout rtype).1 ∧
          rdata.back = (bytes.drop next).take (rdataEnd - next) := by
  unfold readRdata
  constructor
  · intro h
    obtain ⟨⟨names, next⟩, hnames, h⟩ := Option.bind_eq_some_iff.mp h
    dsimp only at h
    split at h
    · cases h
    · cases h
      exact ⟨next, hnames, by omega, rfl, rfl⟩
  · rintro ⟨next, hnames, hle, hfront, hback⟩
    simp only [hnames, Option.bind_eq_bind, Option.bind_some, if_neg (not_lt.mpr hle), ← hfront,
      ← hback]

theorem readRdata_frame {bytes other : Bytes} {rtype pos rdataEnd : Nat} {rdata : Rdata}
    (hpos : 12 ≤ pos) (h : readRdata bytes rtype pos rdataEnd = some rdata)
    (hagree : Agree 12 rdataEnd bytes other) : readRdata other rtype pos rdataEnd = some rdata := by
  obtain ⟨next, hnames, hle, hfront, hback⟩ := readRdata_eq_some.mp h
  have hadvance := ((nameWithin_local rdataEnd).many_advances hnames).1
  apply readRdata_eq_some.mpr
  refine ⟨next, (nameWithin_local rdataEnd).many_frame (by omega) hnames (hagree.mono le_rfl hle),
    hle, ?_, ?_⟩
  · rw [hfront, hagree.slice hpos (by omega)]
  · rw [hback, hagree.slice (by omega) (by omega)]

/-- A record is a name, ten bytes, and as many bytes of RDATA as the last two
of these say. -/
theorem readRr_eq_some {bytes : Bytes} {pos next : Nat} {rr : Rr} :
    readRr bytes pos = some (rr, next) ↔
      ∃ mid, nameWithin bytes.length bytes pos = some (rr.name, mid) ∧
        mid + 10 ≤ bytes.length ∧ next ≤ bytes.length ∧ next = mid + 10 + word bytes (mid + 8) ∧
          rr.rtype = word bytes mid ∧ rr.rclass = word bytes (mid + 2) ∧
            rr.ttl = ofBe ((bytes.drop (mid + 4)).take 4) ∧
              readRdata bytes rr.rtype (mid + 10) next = some rr.rdata := by
  unfold readRr
  constructor
  · intro h
    obtain ⟨⟨name, mid⟩, hname, h⟩ := Option.bind_eq_some_iff.mp h
    dsimp only at h
    split at h
    · cases h
    · obtain ⟨rdata, hrdata, h⟩ := Option.bind_eq_some_iff.mp h
      cases h
      exact ⟨mid, hname, by omega, by omega, rfl, rfl, rfl, rfl, hrdata⟩
  · rintro ⟨mid, hname, hlen, hend, rfl, htype, hclass, httl, hrdata⟩
    rw [htype] at hrdata
    rw [hname]
    simp only [Option.bind_eq_bind, Option.bind_some]
    rw [if_neg (by omega), hrdata, Option.bind_some, ← htype, ← hclass, ← httl]

theorem readRr_local : Local 12 readRr where
  advances h := by
    obtain ⟨mid, hname, _, hend, hnext, _⟩ := readRr_eq_some.mp h
    have := (readName_advances hname).1
    omega
  frame hpos h hagree := by
    obtain ⟨mid, hname, hlen, hend, hnext, htype, hclass, httl, hrdata⟩ := readRr_eq_some.mp h
    have hlt := (readName_advances hname).1
    have hlen' := hagree.le_length (by omega) hend
    apply readRr_eq_some.mpr
    refine ⟨mid, nameWithin_length_frame hpos hname (hagree.mono le_rfl (by omega)), by omega,
      hlen', ?_, ?_, ?_, ?_, readRdata_frame (by omega) hrdata hagree⟩
    · rw [word_of_agree hagree (by omega) (by omega)]
      exact hnext
    · rw [htype, word_of_agree hagree (by omega) (by omega)]
    · rw [hclass, word_of_agree hagree (by omega) (by omega)]
    · rw [httl, hagree.slice (by omega) (by omega)]

/-- The RDATA of an OPT record is all options. -/
theorem readRr_opt_eq_some {bytes : Bytes} {pos next : Nat} {rr : Rr} (hopt : rr.isOpt) :
    readRr bytes pos = some (rr, next) ↔
      ∃ mid, nameWithin bytes.length bytes pos = some (rr.name, mid) ∧ next ≤ bytes.length ∧
        next = mid + 10 + word bytes (mid + 8) ∧ word bytes mid = 41 ∧
          rr.rclass = word bytes (mid + 2) ∧ rr.ttl = ofBe ((bytes.drop (mid + 4)).take 4) ∧
            rr.rdata = ⟨[], [], (bytes.drop (mid + 10)).take (word bytes (mid + 8))⟩ := by
  have htype : rr.rtype = 41 := of_decide_eq_true hopt
  have hrdata : ∀ mid, readRdata bytes 41 (mid + 10) (mid + 10 + word bytes (mid + 8)) =
      some ⟨[], [], (bytes.drop (mid + 10)).take (word bytes (mid + 8))⟩ := by
    intro mid
    apply readRdata_eq_some.mpr
    exact ⟨mid + 10, rfl, by omega, rfl, by rw [Nat.add_sub_cancel_left]⟩
  rw [readRr_eq_some, htype]
  constructor
  · rintro ⟨mid, hname, _, hend, rfl, hword, hclass, httl, hread⟩
    rw [hrdata] at hread
    exact ⟨mid, hname, hend, rfl, hword.symm, hclass, httl, (Option.some.inj hread).symm⟩
  · rintro ⟨mid, hname, hend, rfl, hword, hclass, httl, hread⟩
    refine ⟨mid, hname, by omega, hend, rfl, hword.symm, hclass, httl, ?_⟩
    rw [hrdata, hread]

theorem nameWithin_root {bytes : Bytes} {bound pos : Nat} (h : bytes[pos]? = some 0)
    (hbound : pos < bound) : nameWithin bound bytes pos = some ([], pos + 1) := by
  rw [nameWithin, readName, h]
  simp only
  rw [if_neg (by omega), if_pos trivial]

/-- Where each section of a message ends. -/
structure Places (bytes : Bytes) (p : Packet) (q an ns : Nat) : Prop where
  length : 12 ≤ bytes.length
  questions : many readQuestion (word bytes 4) bytes 12 = some (p.questions, q)
  answers : many readRr (word bytes 6) bytes q = some (p.answers, an)
  authority : many readRr (word bytes 8) bytes an = some (p.authority, ns)
  additional : many readRr (word bytes 10) bytes ns = some (p.additional, bytes.length)

theorem parse_eq_some {bytes : Bytes} {p : Packet} :
    parse bytes = some p ↔ ∃ q an ns, Places bytes p q an ns := by
  unfold parse
  constructor
  · intro h
    split at h
    · cases h
    · obtain ⟨⟨questions, q⟩, hq, h⟩ := Option.bind_eq_some_iff.mp h
      obtain ⟨⟨answers, an⟩, han, h⟩ := Option.bind_eq_some_iff.mp h
      obtain ⟨⟨authority, ns⟩, hns, h⟩ := Option.bind_eq_some_iff.mp h
      obtain ⟨⟨additional, ar⟩, har, h⟩ := Option.bind_eq_some_iff.mp h
      dsimp only at h
      split at h
      · rename_i hend
        cases h
        exact ⟨q, an, ns, by omega, hq, han, hns, by rw [← hend]; exact har⟩
      · cases h
  · rintro ⟨q, an, ns, hplaces⟩
    rw [if_neg (not_lt.mpr hplaces.length), hplaces.questions]
    simp only [Option.bind_eq_bind, Option.bind_some, hplaces.answers, hplaces.authority,
      hplaces.additional, if_true]

theorem Places.le_length {bytes : Bytes} {p : Packet} {q an ns : Nat}
    (h : Places bytes p q an ns) : 12 ≤ q ∧ q ≤ an ∧ an ≤ ns ∧ ns ≤ bytes.length := by
  have hq := (readQuestion_local.many_advances h.questions).1
  have han := (readRr_local.many_advances h.answers).1
  have hns := (readRr_local.many_advances h.authority).1
  have har := (readRr_local.many_advances h.additional).1
  exact ⟨hq, han, hns, har⟩

/-- An edit behind the authority section: the sections up to there are read as
before, and it is the additional section that decides. -/
theorem parse_of_agree {bytes other : Bytes} {p : Packet} {q an ns : Nat}
    (h : Places bytes p q an ns) (hagree : Agree 12 ns bytes other)
    (hlen : 12 ≤ other.length) (hcounts : ∀ i ∈ [4, 6, 8], word other i = word bytes i)
    (p' : Packet) :
    parse other = some p' ↔
      p'.questions = p.questions ∧ p'.answers = p.answers ∧ p'.authority = p.authority ∧
        many readRr (word other 10) other ns = some (p'.additional, other.length) := by
  obtain ⟨hq, han, hns, _⟩ := h.le_length
  have hquestions : many readQuestion (word other 4) other 12 = some (p.questions, q) := by
    rw [hcounts 4 (by simp)]
    exact readQuestion_local.many_frame le_rfl h.questions (hagree.mono le_rfl (by omega))
  have hanswers : many readRr (word other 6) other q = some (p.answers, an) := by
    rw [hcounts 6 (by simp)]
    exact readRr_local.many_frame hq h.answers (hagree.mono le_rfl hns)
  have hauthority : many readRr (word other 8) other an = some (p.authority, ns) := by
    rw [hcounts 8 (by simp)]
    exact readRr_local.many_frame (by omega) h.authority hagree
  rw [parse_eq_some]
  constructor
  · rintro ⟨q', an', ns', hplaces⟩
    obtain ⟨hqs, rfl⟩ := Prod.ext_iff.mp (Option.some.inj (hplaces.questions.symm.trans hquestions))
    obtain ⟨hans, rfl⟩ := Prod.ext_iff.mp (Option.some.inj (hplaces.answers.symm.trans hanswers))
    obtain ⟨hauth, rfl⟩ :=
      Prod.ext_iff.mp (Option.some.inj (hplaces.authority.symm.trans hauthority))
    exact ⟨hqs, hans, hauth, hplaces.additional⟩
  · rintro ⟨hqs, hans, hauth, hadditional⟩
    refine ⟨q, an, ns, hlen, ?_, ?_, ?_, hadditional⟩
    · rw [hqs, hquestions]
    · rw [hans, hanswers]
    · rw [hauth, hauthority]

end Relay.Dns.Sections
