import Relay.Dns.Sections
import Relay.Dns.Upstream.Ecs

/-!
What the injection of a client-subnet option makes of a whole message. The
walk over the sections stops where their readers do, so both ends of the edit
are known, and the edited message is read section by section.
-/

namespace Relay.Dns.Upstream

open Binary Sections

/-! ### The walk and the readers -/

theorem wordAt_eq_word {msg : Bytes} {i : Nat} (h : i + 2 ≤ msg.length) :
    wordAt msg i = .ok (word msg i) := by
  have htwo : (msg.drop i).take 2 = [msg[i], msg[i + 1]] := by
    rw [List.drop_eq_getElem_cons (by omega), List.drop_eq_getElem_cons (by omega)]
    rfl
  rw [wordAt, byteAt_of_lt (by omega), byteAt_of_lt (by omega), word, htwo]
  change Except.ok (msg[i].toNat * 256 + msg[i + 1].toNat) =
    Except.ok (msg[i + 1].toNat + 256 * (msg[i].toNat + 256 * 0))
  congr 1
  omega

theorem skipQname_of_readName {msg : Bytes} {bound start pos next : Nat} {labels : List Bytes}
    (h : readName msg bound start pos = some (labels, next)) : skipQname msg pos = .ok next := by
  fun_induction readName msg bound start pos generalizing labels next with
  | case1 => cases h
  | case2 => cases h
  | case3 bound start pos hbound hget =>
      cases h
      rw [skipQname_of_getElem? hget]
      rfl
  | case4 bound start pos len hget hbound hroot hpointer target hcond =>
      obtain ⟨name, _, heq⟩ := Option.map_eq_some_iff.mp h
      cases heq
      rw [skipQname_of_getElem? hget, if_neg hroot, if_pos hpointer]
  | case5 => cases h
  | case6 bound start pos len hget hbound hroot hpointer hlabel ih =>
      obtain ⟨name, hname, heq⟩ := Option.map_eq_some_iff.mp h
      cases heq
      rw [skipQname_of_getElem? hget, if_neg hroot, if_neg hpointer]
      exact ih hname
  | case7 => cases h

theorem skipQuestions_of_many {msg : Bytes} {n pos next : Nat} {questions : List Question}
    (h : many readQuestion n msg pos = some (questions, next)) :
    skipQuestions msg n pos = .ok next := by
  induction n generalizing pos questions with
  | zero =>
      cases h
      rfl
  | succ n ih =>
      obtain ⟨q, mid, rest, hq, hrest, rfl⟩ := many_succ_eq_some.mp h
      obtain ⟨nameEnd, hname, _, _, _, rfl⟩ := readQuestion_eq_some.mp hq
      rw [skipQuestions, skipQname_of_readName hname, run_ok_bind, ih hrest]

theorem skipRrs_of_many {msg : Bytes} {n pos next : Nat} {rrs : List Rr}
    (h : many readRr n msg pos = some (rrs, next)) : skipRrs msg n pos = .ok next := by
  induction n generalizing pos rrs with
  | zero =>
      cases h
      rfl
  | succ n ih =>
      obtain ⟨rr, mid, rest, hrr, hrest, rfl⟩ := many_succ_eq_some.mp h
      obtain ⟨nameEnd, hname, hlen, _, hmid, _⟩ := readRr_eq_some.mp hrr
      have hskip : skipRr msg pos = .ok mid := by
        rw [skipRr, skipQname_of_readName hname, run_ok_bind, if_neg (by omega),
          wordAt_eq_word (by omega), hmid]
        rfl
      rw [skipRrs, hskip, run_ok_bind, ih hrest]

/-- One record of the additional section. -/
private theorem scanAdditional_succ {msg : Bytes} {n pos next : Nat} {rr : Rr}
    {opt : Option OptPlace} (h : readRr msg pos = some (rr, next)) :
    ∃ mid, nameWithin msg.length msg pos = some (rr.name, mid) ∧
      scanAdditional msg (n + 1) pos opt = scanAdditional msg n next
        (if rr.isOpt then some ⟨mid + 8, mid + 10, word msg (mid + 8)⟩ else opt) := by
  obtain ⟨mid, hname, hlen, _, hnext, htype, _⟩ := readRr_eq_some.mp h
  refine ⟨mid, hname, ?_⟩
  rw [scanAdditional, skipQname_of_readName hname, run_ok_bind, if_neg (by omega),
    wordAt_eq_word (by omega), wordAt_eq_word (by omega), run_ok_bind, run_ok_bind, ← htype,
    hnext]
  simp only [Rr.isOpt, decide_eq_true_eq]

private theorem scanAdditional_of_many {msg : Bytes} {n pos next : Nat} {rrs : List Rr}
    {opt : Option OptPlace} (h : many readRr n msg pos = some (rrs, next))
    (hnone : ∀ rr ∈ rrs, ¬ rr.isOpt) (m : Nat) :
    scanAdditional msg (n + m) pos opt = scanAdditional msg m next opt := by
  induction n generalizing pos rrs with
  | zero =>
      cases h
      rw [Nat.zero_add]
  | succ n ih =>
      obtain ⟨rr, mid, rest, hrr, hrest, rfl⟩ := many_succ_eq_some.mp h
      obtain ⟨_, _, hscan⟩ := @scanAdditional_succ msg (n + m) pos mid rr opt hrr
      rw [Nat.succ_add, hscan, if_neg (hnone rr List.mem_cons_self)]
      exact ih hrest fun rr' hmem => hnone rr' (List.mem_cons_of_mem _ hmem)

/-- Up to the additional section the walk goes where the readers do. -/
private theorem wireInjectEcs_of_places {msg : Bytes} {p : Packet} {q an ns : Nat}
    (h : Places msg p q an ns) (family : Nat) (prefixLen : UInt8) (addr : Bytes) :
    wireInjectEcs msg family prefixLen addr =
      scanAdditional msg (word msg 10) ns none >>= fun (opt, additionalEnd) =>
        match opt with
        | some opt => extendOpt msg (ecsOption family prefixLen addr) opt additionalEnd
        | none => appendOpt msg (ecsOption family prefixLen addr) (word msg 10) additionalEnd := by
  have hlen := h.length
  have hrrs : skipRrs msg (word msg 6 + word msg 8) q = .ok ns :=
    skipRrs_of_many (many_append_eq_some.mpr ⟨_, _, _, h.answers, h.authority, rfl⟩)
  rw [wireInjectEcs, if_neg (by omega), wordAt_eq_word (by omega), wordAt_eq_word (by omega),
    wordAt_eq_word (by omega), wordAt_eq_word (by omega)]
  simp only [run_ok_bind]
  rw [skipQuestions_of_many h.questions, run_ok_bind, hrrs]
  rfl

/-! ### What the edit should make of a message -/

/-- The client-subnet option as it was asked for. -/
def clientSubnet (family : BitVec 16) (prefixLen : UInt8) (addr : Bytes) : EdnsOption :=
  ⟨8, toBe 2 family ++ [prefixLen, 0] ++ addr⟩

def originalOptions (p : Packet) : List EdnsOption :=
  p.opts.flatMap fun opt => opt.options.getD []

/-- The packet with one client-subnet option, in its OPT record or in a new
one. -/
structure WithOption (p p' : Packet) (added : EdnsOption) : Prop where
  questions : p'.questions = p.questions
  answers : p'.answers = p.answers
  authority : p'.authority = p.authority
  others : p'.additional.filter (fun rr => !rr.isOpt) = p.additional.filter (fun rr => !rr.isOpt)
  inPlace : p.opts ≠ [] → p'.additional.map Rr.blank = p.additional.map Rr.blank
  options : ∃ opt options, p'.opts = [opt] ∧ opt.options = some options ∧
    options.filter (fun o => o.code = 8) = [added] ∧
      options.filter (fun o => o.code ≠ 8) = (originalOptions p).filter (fun o => o.code ≠ 8)

def InjectsEcs (msg : Bytes) (p : Packet) (family : BitVec 16) (prefixLen : UInt8)
    (addr : Bytes) : Prop :=
  ∃ out p', wireInjectEcs msg family.toNat prefixLen addr = .ok out ∧ parse out = some p' ∧
    word out 10 = p'.additional.length ∧ WithOption p p' (clientSubnet family prefixLen addr)

/-- The layouts the edit is made for: no OPT record and room for one more
record, or an OPT record that is the last record, carries no client-subnet
option yet, and has room for the option. -/
def Room (p : Packet) (addrLen : Nat) : Prop :=
  match p.opts with
  | [] => p.additional.length + 1 < 2 ^ 16 ∧ 8 + addrLen < 2 ^ 16
  | opt :: _ =>
      p.additional.getLast? = some opt ∧ (∀ o ∈ originalOptions p, o.code ≠ 8) ∧
        opt.rdata.back.length + 8 + addrLen < 2 ^ 16

theorem ecsOption_length (family : Nat) (prefixLen : UInt8) (addr : Bytes) :
    (ecsOption family prefixLen addr).length = 8 + addr.length := by
  simp only [ecsOption, List.length_append, beBytes_length, List.length_cons, List.length_nil]

theorem clientSubnet_data_length (family : BitVec 16) (prefixLen : UInt8) (addr : Bytes) :
    (clientSubnet family prefixLen addr).data.length = 4 + addr.length := by
  simp only [clientSubnet, List.length_append, toBe_length, List.length_cons, List.length_nil]

theorem readOptions_ecsOption (family : BitVec 16) (prefixLen : UInt8) {addr : Bytes}
    (h : 4 + addr.length < 2 ^ 16) :
    readOptions (ecsOption family.toNat prefixLen addr) =
      some [clientSubnet family prefixLen addr] := by
  obtain ⟨data, hdata⟩ : ∃ data, (clientSubnet family prefixLen addr).data = data := ⟨_, rfl⟩
  have hlength := clientSubnet_data_length family prefixLen addr
  rw [hdata] at hlength
  obtain ⟨c, d, hlen⟩ : ∃ c d, beBytes 2 (4 + addr.length) = [c, d] := ⟨_, _, rfl⟩
  have hbytes : ecsOption family.toNat prefixLen addr = 0 :: 8 :: c :: d :: data := by
    rw [ecsOption, hlen, ← hdata, List.append_assoc, List.append_assoc, List.append_assoc]
    rfl
  have hword : word (0 :: 8 :: c :: d :: data) 2 = data.length := by
    change ofBe [c, d] = data.length
    rw [← hlen, ofBe_beBytes_of_lt h, hlength]
  have hcode : word (0 :: 8 :: c :: d :: data) 0 = 8 := rfl
  rw [hbytes, readOptions, hword, hcode, if_neg (lt_irrefl _), List.drop_length, List.take_length,
    readOptions, ← hdata]
  rfl

/-! ### A message without OPT record -/

/-- What `append_opt` makes of a message that ends with its sections. -/
private def appended (msg optionData : Bytes) : Bytes :=
  msg.take 10 ++ (beBytes 2 (word msg 10 + 1) ++ (msg.drop 12 ++ optRr optionData))

private theorem optRr_length (optionData : Bytes) :
    (optRr optionData).length = 11 + optionData.length := by
  simp only [optRr, List.length_append, beBytes_length, List.length_cons, List.length_nil]

section Appended

variable {msg : Bytes} (h : 12 ≤ msg.length) (optionData : Bytes)

include h

private theorem appended_length :
    (appended msg optionData).length = msg.length + 11 + optionData.length := by
  simp only [appended, List.length_append, List.length_take, List.length_drop, beBytes_length,
    optRr_length]
  omega

private theorem appended_ok :
    appendOpt msg optionData (word msg 10) msg.length = .ok (appended msg optionData) := by
  have hdrop : msg.drop msg.length = [] := List.drop_length
  rw [appendOpt, slice_of_le (Nat.zero_le _) le_rfl, run_ok_bind, hdrop, List.append_nil,
    List.drop_zero, Nat.sub_zero, List.take_length, overwrite, if_pos (by
      rw [List.length_append, beBytes_length]
      omega), beBytes_length, List.take_append_of_le_length (by omega),
    List.drop_append_of_le_length (by omega), appended, List.append_assoc]

private theorem appended_drop : (appended msg optionData).drop msg.length = optRr optionData := by
  rw [appended, ← List.append_assoc, ← List.append_assoc]
  apply List.drop_left'
  simp only [List.length_append, List.length_take, List.length_drop, beBytes_length]
  omega

private theorem appended_word (k : Nat) :
    word (appended msg optionData) (msg.length + k) = word (optRr optionData) k := by
  rw [← word_drop, appended_drop h optionData]

private theorem appended_agree : Agree 12 msg.length msg (appended msg optionData) := by
  intro i hlo hhi
  have hfront : (msg.take 10 ++ beBytes 2 (word msg 10 + 1)).length = 12 := by
    simp only [List.length_append, List.length_take, beBytes_length]
    omega
  rw [appended, ← List.append_assoc, List.getElem?_append_right (by omega), hfront,
    List.getElem?_append_left (by rw [List.length_drop]; omega), List.getElem?_drop]
  congr 1
  omega

private theorem appended_counts :
    (∀ i ∈ [4, 6, 8], word (appended msg optionData) i = word msg i) ∧
      word (appended msg optionData) 10 = (word msg 10 + 1) % 2 ^ 16 := by
  have hagree : Agree 0 10 msg (appended msg optionData) := Agree.of_take msg _ (by omega)
  constructor
  · intro i hi
    apply word_of_agree hagree (Nat.zero_le i)
    simp only [List.mem_cons, List.not_mem_nil, or_false] at hi
    omega
  · have hten : (msg.take 10).length = 10 := by
      rw [List.length_take]
      omega
    have hword := word_beBytes (msg.take 10) (msg.drop 12 ++ optRr optionData) (word msg 10 + 1)
    rw [hten] at hword
    exact hword

/-- The new record is read behind the old end, as far as its RDLENGTH goes. -/
private theorem appended_record :
    readRr (appended msg optionData) msg.length =
      some (⟨[], 41, 1232, 0, ⟨[], [], optionData.take (optionData.length % 2 ^ 16)⟩⟩,
        msg.length + 11 + optionData.length % 2 ^ 16) := by
  have hlen := appended_length h optionData
  have hmod : optionData.length % 2 ^ 16 ≤ optionData.length := Nat.mod_le _ _
  have hroot : (appended msg optionData)[msg.length]? = some 0 := by
    rw [← List.head?_drop, appended_drop h]
    rfl
  have hrdlength : word (appended msg optionData) (msg.length + 1 + 8) =
      optionData.length % 2 ^ 16 := by
    rw [Nat.add_assoc, appended_word h]
    exact word_beBytes ([0] ++ beBytes 2 41 ++ beBytes 2 1232 ++ beBytes 4 0) optionData _
  have httl : ((appended msg optionData).drop (msg.length + 1 + 4)).take 4 = beBytes 4 0 := by
    rw [Nat.add_assoc, ← List.drop_drop, appended_drop h]
    rfl
  have hdata : (appended msg optionData).drop (msg.length + 1 + 10) = optionData := by
    rw [Nat.add_assoc, ← List.drop_drop, appended_drop h]
    rfl
  rw [readRr_opt_eq_some rfl]
  refine ⟨msg.length + 1, nameWithin_root hroot (by omega), by omega, ?_, ?_, ?_, ?_, ?_⟩
  · rw [hrdlength]
  · rw [appended_word h]
    rfl
  · rw [Nat.add_assoc, appended_word h]
    rfl
  · rw [httl]
    rfl
  · rw [hrdlength, hdata]

end Appended

private theorem wireInjectEcs_of_no_opt {msg : Bytes} {p : Packet} {q an ns : Nat}
    (h : Places msg p q an ns) (hnone : ∀ rr ∈ p.additional, ¬ rr.isOpt) (family : Nat)
    (prefixLen : UInt8) (addr : Bytes) :
    wireInjectEcs msg family prefixLen addr =
      .ok (appended msg (ecsOption family prefixLen addr)) := by
  have hscan := @scanAdditional_of_many msg _ ns msg.length p.additional none h.additional hnone 0
  rw [Nat.add_zero] at hscan
  rw [wireInjectEcs_of_places h, hscan]
  exact appended_ok h.length _

private theorem filter_not_opt {rrs : List Rr} (hnone : ∀ rr ∈ rrs, ¬ rr.isOpt) :
    rrs.filter Rr.isOpt = [] ∧ rrs.filter (fun rr => !rr.isOpt) = rrs := by
  constructor
  · exact List.filter_eq_nil_iff.mpr hnone
  · apply List.filter_eq_self.mpr
    intro rr hmem
    rw [Bool.eq_false_iff.mpr (hnone rr hmem)]
    rfl

private theorem injects_iff_of_no_opt {msg : Bytes} {p : Packet} (h : parse msg = some p)
    (hnil : p.opts = []) (family : BitVec 16) (prefixLen : UInt8) (addr : Bytes) :
    InjectsEcs msg p family prefixLen addr ↔
      p.additional.length + 1 < 2 ^ 16 ∧ 8 + addr.length < 2 ^ 16 := by
  obtain ⟨q, an, ns, hplaces⟩ := parse_eq_some.mp h
  have hnone : ∀ rr ∈ p.additional, ¬ rr.isOpt := List.filter_eq_nil_iff.mp hnil
  obtain ⟨data, hdata⟩ : ∃ data, ecsOption family.toNat prefixLen addr = data := ⟨_, rfl⟩
  have hsize : data.length = 8 + addr.length := by rw [← hdata, ecsOption_length]
  have hlength := appended_length hplaces.length data
  have hagree := appended_agree hplaces.length data
  obtain ⟨hcounts, hcount⟩ := appended_counts hplaces.length data
  obtain ⟨hq, han, hns, har⟩ := hplaces.le_length
  have hparse := parse_of_agree hplaces (hagree.mono le_rfl har) (by omega) hcounts
  have harcount : p.additional.length = word msg 10 := many_length hplaces.additional
  have hword := word_lt msg 10
  have hadditional : many readRr (word msg 10) (appended msg data) ns =
      some (p.additional, msg.length) :=
    readRr_local.many_frame (by omega) hplaces.additional hagree
  constructor
  · rintro ⟨out, p', hout, hout', _, _⟩
    rw [wireInjectEcs_of_no_opt hplaces hnone, hdata] at hout
    cases hout
    obtain ⟨_, _, _, hmany⟩ := (hparse p').mp hout'
    rw [hcount] at hmany
    have hfits : word msg 10 + 1 < 2 ^ 16 := by
      by_contra hover
      rw [show (word msg 10 + 1) % 2 ^ 16 = 0 by omega] at hmany
      have hstop : ns = (appended msg data).length := congrArg Prod.snd (Option.some.inj hmany)
      omega
    refine ⟨by omega, ?_⟩
    rw [Nat.mod_eq_of_lt hfits] at hmany
    obtain ⟨front, mid, back, hfront, hback, heq⟩ := many_append_eq_some.mp hmany
    rw [hadditional] at hfront
    cases hfront
    obtain ⟨rr, stop, rest, hrr, hrest, rfl⟩ := many_succ_eq_some.mp hback
    rw [appended_record hplaces.length] at hrr
    have hstop := congrArg Prod.snd (Option.some.inj hrr)
    have hend := congrArg Prod.snd (Option.some.inj hrest)
    dsimp only at hstop hend
    omega
  · rintro ⟨hfits, hoption⟩
    have hmod : data.length % 2 ^ 16 = data.length := Nat.mod_eq_of_lt (by omega)
    have hrecord := appended_record hplaces.length data
    rw [hmod, List.take_length, ← hlength] at hrecord
    have hread := @readOptions_ecsOption family prefixLen addr (by omega)
    rw [hdata] at hread
    obtain ⟨hopts, hothers⟩ := filter_not_opt hnone
    have hmany : many readRr (word (appended msg data) 10) (appended msg data) ns =
        some (p.additional ++ [⟨[], 41, 1232, 0, ⟨[], [], data⟩⟩], (appended msg data).length) := by
      rw [hcount, Nat.mod_eq_of_lt (by omega)]
      apply many_append_eq_some.mpr
      refine ⟨_, _, _, hadditional, ?_, rfl⟩
      exact many_succ_eq_some.mpr ⟨_, _, [], hrecord, rfl, rfl⟩
    refine ⟨appended msg data,
      { p with additional := p.additional ++ [⟨[], 41, 1232, 0, ⟨[], [], data⟩⟩] }, ?_,
      (hparse _).mpr ⟨rfl, rfl, rfl, hmany⟩, (many_length hmany).symm, ?_⟩
    · rw [wireInjectEcs_of_no_opt hplaces hnone, hdata]
    · refine ⟨rfl, rfl, rfl, ?_, fun hsome => absurd hnil hsome, ?_⟩
      · rw [List.filter_append, hothers]
        exact List.append_nil _
      · refine ⟨⟨[], 41, 1232, 0, ⟨[], [], data⟩⟩, _, ?_, hread, ?_, ?_⟩
        · rw [Packet.opts, List.filter_append, hopts]
          rfl
        · rfl
        · rw [originalOptions, hnil]
          rfl

/-! ### A message with an OPT record -/

/-- What `extend_opt` makes of a message whose OPT record has its ten bytes at
`mid` and `back` for RDATA. -/
private def spliced (msg : Bytes) (mid : Nat) (back optionData : Bytes) : Bytes :=
  msg.take (mid + 8) ++ (beBytes 2 (back.length + optionData.length) ++ (back ++ optionData))

/-- The OPT record with other options. -/
private def withRdata (opt : Rr) (rdata : Bytes) : Rr := { opt with rdata := ⟨[], [], rdata⟩ }

/-- The one OPT record of a message: what stands before it, and where its name
ends. -/
private structure OptAt (msg : Bytes) (p : Packet) (ns : Nat) (pre : List Rr) (opt : Rr)
    (post : List Rr) (start mid : Nat) : Prop where
  additional : p.additional = pre ++ opt :: post
  isOpt : opt.isOpt
  noneBefore : ∀ rr ∈ pre, ¬ rr.isOpt
  noneBehind : ∀ rr ∈ post, ¬ rr.isOpt
  before : many readRr pre.length msg ns = some (pre, start)
  name : nameWithin msg.length msg start = some (opt.name, mid)
  type : word msg mid = 41
  rclass : opt.rclass = word msg (mid + 2)
  ttl : opt.ttl = ofBe ((msg.drop (mid + 4)).take 4)
  rdlength : opt.rdata.back.length = word msg (mid + 8)
  rdata : opt.rdata = ⟨[], [], (msg.drop (mid + 10)).take (word msg (mid + 8))⟩
  fits : mid + 10 + opt.rdata.back.length ≤ msg.length
  scan : scanAdditional msg (word msg 10) ns none =
    .ok (some ⟨mid + 8, mid + 10, word msg (mid + 8)⟩, msg.length)

private theorem exists_optAt {msg : Bytes} {p : Packet} {q an ns : Nat} {opt : Rr}
    (h : Places msg p q an ns) (hopts : p.opts = [opt]) :
    ∃ pre post start mid, OptAt msg p ns pre opt post start mid := by
  obtain ⟨pre, post, hadd, hpre, hopt, hpost⟩ := List.filter_eq_cons_iff.mp hopts
  have hpost' : ∀ rr ∈ post, ¬ rr.isOpt := List.filter_eq_nil_iff.mp hpost
  have hcount := many_length h.additional
  rw [hadd, List.length_append, List.length_cons] at hcount
  have hmany := h.additional
  rw [← hcount, hadd] at hmany
  obtain ⟨front, start, back, hfront, hback, heq⟩ := many_append_eq_some.mp hmany
  obtain ⟨rfl, rfl⟩ := List.append_inj heq (many_length hfront).symm
  obtain ⟨rr, stop, rest, hrr, hrest, heq'⟩ := many_succ_eq_some.mp hback
  cases heq'
  obtain ⟨mid, hname, hend, hnext, htype, hclass, httl, hrdata⟩ :=
    (readRr_opt_eq_some hopt).mp hrr
  have hlen : opt.rdata.back.length = word msg (mid + 8) := by
    rw [hrdata, List.length_take, List.length_drop]
    omega
  refine ⟨pre, post, start, mid, hadd, hopt, hpre, hpost', hfront, hname, htype, hclass, httl,
    hlen, hrdata, by omega, ?_⟩
  obtain ⟨mid', hname', hscan⟩ := @scanAdditional_succ msg post.length start stop opt none hrr
  rw [hname] at hname'
  cases hname'
  have hbehind := @scanAdditional_of_many msg _ stop msg.length post
    (some ⟨mid + 8, mid + 10, word msg (mid + 8)⟩) hrest hpost' 0
  rw [← hcount, scanAdditional_of_many hfront hpre, hscan, if_pos hopt, ← Nat.add_zero post.length,
    hbehind]
  rfl

section Spliced

variable {msg : Bytes} {p : Packet} {ns : Nat} {pre post : List Rr} {opt : Rr} {start mid : Nat}
  (h : OptAt msg p ns pre opt post start mid) (optionData : Bytes)

include h

private theorem spliced_ok :
    extendOpt msg optionData ⟨mid + 8, mid + 10, word msg (mid + 8)⟩ msg.length =
      .ok (spliced msg mid opt.rdata.back optionData) := by
  have hdrop : msg.drop msg.length = [] := List.drop_length
  have hfits := h.fits
  have hback : opt.rdata.back = (msg.drop (mid + 10)).take (word msg (mid + 8)) :=
    congrArg Rdata.back h.rdata
  rw [h.rdlength] at hfits
  rw [extendOpt, slice_of_le (Nat.zero_le _) le_rfl, run_ok_bind,
    slice_of_le (Nat.le_add_right _ _) hfits, run_ok_bind, Nat.add_sub_cancel_left, ← hback, hdrop, List.append_nil, List.drop_zero,
    Nat.sub_zero, List.take_length, spliced, h.rdlength, List.append_assoc, List.append_assoc]
  rfl

private theorem spliced_agree (base : Nat) :
    Agree base (mid + 8) msg (spliced msg mid opt.rdata.back optionData) :=
  Agree.of_take msg _ (by have := h.fits; omega)

private theorem spliced_front_length : (msg.take (mid + 8)).length = mid + 8 := by
  have := h.fits
  rw [List.length_take]
  omega

private theorem spliced_length :
    (spliced msg mid opt.rdata.back optionData).length =
      mid + 10 + opt.rdata.back.length + optionData.length := by
  rw [spliced, List.length_append, List.length_append, List.length_append, beBytes_length,
    spliced_front_length h]
  omega

/-- The OPT record is read with as many of the bytes behind it as its new
RDLENGTH says. -/
private theorem spliced_record (hstart : 12 ≤ start) {len : Nat}
    (hlen : len = (opt.rdata.back.length + optionData.length) % 2 ^ 16) :
    readRr (spliced msg mid opt.rdata.back optionData) start =
      some (withRdata opt ((opt.rdata.back ++ optionData).take len), mid + 10 + len) := by
  obtain ⟨out, hout⟩ : ∃ out, spliced msg mid opt.rdata.back optionData = out := ⟨_, rfl⟩
  have hagree : Agree 12 (mid + 8) msg out := by
    rw [← hout]
    exact spliced_agree h optionData 12
  have hlength : out.length = mid + 10 + opt.rdata.back.length + optionData.length := by
    rw [← hout]
    exact spliced_length h optionData
  have hmod : len ≤ opt.rdata.back.length + optionData.length := by
    rw [hlen]
    exact Nat.mod_le _ _
  have hmid := (readName_advances h.name).1
  have hword : word out (mid + 8) = len := by
    have hnumber := word_beBytes (msg.take (mid + 8)) (opt.rdata.back ++ optionData)
      (opt.rdata.back.length + optionData.length)
    rw [spliced_front_length h] at hnumber
    rw [← hout, hlen]
    exact hnumber
  have hdata : out.drop (mid + 10) = opt.rdata.back ++ optionData := by
    rw [← hout, spliced, ← List.append_assoc]
    apply List.drop_left'
    rw [List.length_append, spliced_front_length h, beBytes_length]
  rw [hout, @readRr_opt_eq_some out start _ (withRdata opt _) h.isOpt]
  refine ⟨mid, nameWithin_length_frame hstart h.name (hagree.mono le_rfl (by omega)), by omega,
    by rw [hword], ?_, ?_, ?_, ?_⟩
  · rw [word_of_agree hagree (by omega) (by omega), h.type]
  · rw [word_of_agree hagree (by omega) (by omega)]
    exact h.rclass
  · rw [hagree.slice (by omega) (by omega)]
    exact h.ttl
  · rw [hword, hdata]
    rfl

end Spliced

private theorem wireInjectEcs_of_opt {msg : Bytes} {p : Packet} {q an ns : Nat}
    (hplaces : Places msg p q an ns) {pre post : List Rr} {opt : Rr} {start mid : Nat}
    (h : OptAt msg p ns pre opt post start mid) (family : Nat) (prefixLen : UInt8)
    (addr : Bytes) :
    wireInjectEcs msg family prefixLen addr =
      .ok (spliced msg mid opt.rdata.back (ecsOption family prefixLen addr)) := by
  rw [wireInjectEcs_of_places hplaces, h.scan]
  exact spliced_ok h _

/-- The OPT record is the last one, if it is the same as the last one. -/
private theorem getLast?_iff {pre post : List Rr} {opt : Rr} (hopt : opt.isOpt)
    (hpost : ∀ rr ∈ post, ¬ rr.isOpt) :
    (pre ++ opt :: post).getLast? = some opt ↔ post = [] := by
  constructor
  · intro hlast
    by_contra hne
    rw [List.getLast?_append_of_ne_nil _ (List.cons_ne_nil _ _), List.getLast?_cons_of_ne_nil hne]
      at hlast
    exact hpost opt (List.mem_of_getLast? hlast) hopt
  · rintro rfl
    exact List.getLast?_concat

/-- What an extended message is read as, and where the records behind its OPT
record are looked for. -/
private theorem parse_spliced {msg : Bytes} {p : Packet} {q an ns : Nat}
    (hplaces : Places msg p q an ns) {pre post : List Rr} {opt : Rr} {start mid : Nat}
    (h : OptAt msg p ns pre opt post start mid) {optionData out : Bytes}
    (hout : spliced msg mid opt.rdata.back optionData = out) {len : Nat}
    (hlen : len = (opt.rdata.back.length + optionData.length) % 2 ^ 16) (p' : Packet) :
    parse out = some p' ↔
      p'.questions = p.questions ∧ p'.answers = p.answers ∧ p'.authority = p.authority ∧
        ∃ rest, many readRr post.length out (mid + 10 + len) = some (rest, out.length) ∧
          p'.additional =
            pre ++ withRdata opt ((opt.rdata.back ++ optionData).take len) :: rest := by
  obtain ⟨hq, han, hns, _⟩ := hplaces.le_length
  have hstart := (readRr_local.many_advances h.before).1
  have hmid := (readName_advances h.name).1
  have hlength := spliced_length h optionData
  have hagree : Agree 0 (mid + 8) msg out := by
    rw [← hout]
    exact spliced_agree h optionData 0
  have hrecord := spliced_record h optionData (by omega) hlen
  rw [hout] at hlength hrecord
  have hcount : word out 10 = pre.length + (post.length + 1) := by
    rw [word_of_agree hagree (Nat.zero_le 10) (by omega), ← many_length hplaces.additional,
      h.additional, List.length_append, List.length_cons]
  have hbefore : many readRr pre.length out ns = some (pre, start) :=
    readRr_local.many_frame (by omega) h.before (hagree.mono (Nat.zero_le 12) (by omega))
  rw [parse_of_agree hplaces (hagree.mono (Nat.zero_le 12) (by omega)) (by omega)
    (fun i hi => word_of_agree hagree (Nat.zero_le i) (by
      simp only [List.mem_cons, List.not_mem_nil, or_false] at hi
      omega)) p', hcount]
  constructor
  · rintro ⟨hqs, hans, hauth, hmany⟩
    obtain ⟨front, start', back, hfront, hback, heq⟩ := many_append_eq_some.mp hmany
    cases hbefore.symm.trans hfront
    obtain ⟨rr, stop, rest, hrr, hrest, rfl⟩ := many_succ_eq_some.mp hback
    cases hrecord.symm.trans hrr
    exact ⟨hqs, hans, hauth, rest, hrest, heq⟩
  · rintro ⟨hqs, hans, hauth, rest, hrest, heq⟩
    refine ⟨hqs, hans, hauth, many_append_eq_some.mpr ⟨_, _, _, hbefore, ?_, heq⟩⟩
    exact many_succ_eq_some.mpr ⟨_, _, rest, hrecord, hrest, rfl⟩

private theorem room_of_injects {msg : Bytes} {p : Packet} {q an ns : Nat}
    (hplaces : Places msg p q an ns) {pre post : List Rr} {opt : Rr} {start mid : Nat}
    (h : OptAt msg p ns pre opt post start mid) {original : List EdnsOption}
    (hread : opt.options = some original) {family : BitVec 16} {prefixLen : UInt8}
    {addr : Bytes} (hinjects : InjectsEcs msg p family prefixLen addr) :
    post = [] ∧ (∀ o ∈ original, o.code ≠ 8) ∧
      opt.rdata.back.length + 8 + addr.length < 2 ^ 16 := by
  obtain ⟨data, hdata⟩ : ∃ data, ecsOption family.toNat prefixLen addr = data := ⟨_, rfl⟩
  have hsize : data.length = 8 + addr.length := by rw [← hdata, ecsOption_length]
  obtain ⟨len, hlen⟩ : ∃ len, len = (opt.rdata.back.length + data.length) % 2 ^ 16 := ⟨_, rfl⟩
  obtain ⟨out, p', hout, hparse, _, hwith⟩ := hinjects
  rw [wireInjectEcs_of_opt hplaces h, hdata, Except.ok.injEq] at hout
  obtain ⟨_, _, _, rest, hrest, heq⟩ := (parse_spliced hplaces h hout hlen p').mp hparse
  obtain ⟨o, options, hopts', hoptions, hecs, _⟩ := hwith.options
  have hsame : o = withRdata opt ((opt.rdata.back ++ data).take len) := by
    rw [Packet.opts, heq, List.filter_append, (filter_not_opt h.noneBefore).1, List.nil_append,
      List.filter_cons_of_pos (by exact h.isOpt)] at hopts'
    exact (List.cons.inj hopts').1.symm
  rw [hsame] at hoptions
  have hmem : clientSubnet family prefixLen addr ∈ options.filter fun o => o.code = 8 := by
    rw [hecs]
    exact List.mem_singleton_self _
  -- The option fits the RDATA that is read, so the RDLENGTH did not wrap.
  have hfits := readOptions_le hoptions (List.mem_of_mem_filter hmem)
  rw [clientSubnet_data_length] at hfits
  simp only [withRdata, List.length_take, List.length_append] at hfits
  have hrdlength := word_lt msg (mid + 8)
  rw [← h.rdlength] at hrdlength
  have hroom : opt.rdata.back.length + data.length < 2 ^ 16 := by omega
  rw [Nat.mod_eq_of_lt hroom] at hlen
  have hlength := spliced_length h data
  rw [hout] at hlength
  have hstop : mid + 10 + len = out.length := by omega
  rw [hstop] at hrest
  have hpost : post.length = 0 := by
    rw [← many_length hrest, readRr_local.many_at_end hrest, List.length_nil]
  refine ⟨List.eq_nil_of_length_eq_zero hpost, ?_, by omega⟩
  rw [Rr.options, withRdata, List.take_of_length_le (by rw [List.length_append, hlen]),
    readOptions_append hread, ← hdata, readOptions_ecsOption family prefixLen (by omega)]
    at hoptions
  cases hoptions
  have hlast : [clientSubnet family prefixLen addr].filter (fun o => o.code = 8) =
      [clientSubnet family prefixLen addr] := rfl
  rw [List.filter_append, hlast, List.append_left_eq_self] at hecs
  intro ecs hmem' hcode
  exact List.filter_eq_nil_iff.mp hecs ecs hmem' (decide_eq_true hcode)

private theorem injects_of_room {msg : Bytes} {p : Packet} {q an ns : Nat}
    (hplaces : Places msg p q an ns) {pre : List Rr} {opt : Rr} {start mid : Nat}
    (h : OptAt msg p ns pre opt [] start mid) (hopts : p.opts = [opt])
    {original : List EdnsOption} (hread : opt.options = some original)
    (hcodes : ∀ o ∈ original, o.code ≠ 8) (family : BitVec 16) (prefixLen : UInt8) {addr : Bytes}
    (hroom : opt.rdata.back.length + 8 + addr.length < 2 ^ 16) :
    InjectsEcs msg p family prefixLen addr := by
  obtain ⟨data, hdata⟩ : ∃ data, ecsOption family.toNat prefixLen addr = data := ⟨_, rfl⟩
  have hsize : data.length = 8 + addr.length := by rw [← hdata, ecsOption_length]
  obtain ⟨out, hout⟩ : ∃ out, spliced msg mid opt.rdata.back data = out := ⟨_, rfl⟩
  obtain ⟨rr, hrr⟩ : ∃ rr, withRdata opt (opt.rdata.back ++ data) = rr := ⟨_, rfl⟩
  have hlen : (opt.rdata.back ++ data).length =
      (opt.rdata.back.length + data.length) % 2 ^ 16 := by
    rw [List.length_append, Nat.mod_eq_of_lt (by omega)]
  have hlength := spliced_length h data
  have hparse : parse out = some { p with additional := pre ++ [rr] } := by
    apply (parse_spliced hplaces h hout hlen _).mpr
    refine ⟨rfl, rfl, rfl, [], ?_, by rw [List.take_length, hrr]⟩
    rw [← hout, hlength, List.length_append, ← Nat.add_assoc]
    rfl
  obtain ⟨_, _, ns', hplaces'⟩ := parse_eq_some.mp hparse
  have hoptions : rr.options = some (original ++ [clientSubnet family prefixLen addr]) := by
    rw [← hrr, Rr.options, withRdata, readOptions_append hread, ← hdata,
      readOptions_ecsOption family prefixLen (by omega)]
    rfl
  have hisOpt : rr.isOpt := by
    rw [← hrr]
    exact h.isOpt
  have hblank : rr.blank = opt.blank := by
    rw [Rr.blank, Rr.blank, if_pos hisOpt, if_pos h.isOpt, ← hrr]
    rfl
  refine ⟨out, _, ?_, hparse, (many_length hplaces'.additional).symm, rfl, rfl, rfl, ?_, ?_, ?_⟩
  · rw [wireInjectEcs_of_opt hplaces h, hdata, hout]
  · rw [h.additional, List.filter_append, List.filter_append,
      List.filter_cons_of_neg (by simp [hisOpt]), List.filter_cons_of_neg (by simp [h.isOpt])]
  · intro _
    rw [h.additional, List.map_append, List.map_append, List.map_singleton, List.map_singleton,
      hblank]
  · refine ⟨rr, _, ?_, hoptions, ?_, ?_⟩
    · rw [Packet.opts, List.filter_append, (filter_not_opt h.noneBefore).1, List.nil_append,
        List.filter_cons_of_pos hisOpt, List.filter_nil]
    · rw [List.filter_append, List.filter_eq_nil_iff.mpr (by simpa using hcodes)]
      rfl
    · rw [originalOptions, hopts, List.flatMap_singleton, hread, List.filter_append]
      exact List.append_nil _

private theorem injects_iff_of_opt {msg : Bytes} {p : Packet} (h : parse msg = some p)
    {opt : Rr} (hopts : p.opts = [opt]) {original : List EdnsOption}
    (hread : opt.options = some original) (family : BitVec 16) (prefixLen : UInt8)
    (addr : Bytes) :
    InjectsEcs msg p family prefixLen addr ↔
      p.additional.getLast? = some opt ∧ (∀ o ∈ original, o.code ≠ 8) ∧
        opt.rdata.back.length + 8 + addr.length < 2 ^ 16 := by
  obtain ⟨q, an, ns, hplaces⟩ := parse_eq_some.mp h
  obtain ⟨pre, post, start, mid, hat⟩ := exists_optAt hplaces hopts
  rw [hat.additional, getLast?_iff hat.isOpt hat.noneBehind]
  constructor
  · exact room_of_injects hplaces hat hread
  · rintro ⟨rfl, hcodes, hroom⟩
    exact injects_of_room hplaces hat hopts hread hcodes family prefixLen hroom

/-- The injection is the edit it is meant to be exactly when the message has
room for it in the place where it is made. -/
theorem wireInjectEcs_injects_iff {msg : Bytes} {p : Packet} (h : WellFormed msg p)
    (family : BitVec 16) (prefixLen : UInt8) (addr : Bytes) :
    InjectsEcs msg p family prefixLen addr ↔ Room p addr.length := by
  rcases hopts : p.opts with _ | ⟨opt, rest⟩
  · rw [injects_iff_of_no_opt h.parses hopts, Room, hopts]
  · have hle := h.opts_le
    rw [hopts, List.length_cons] at hle
    obtain rfl : rest = [] := List.eq_nil_of_length_eq_zero (by omega)
    obtain ⟨original, hread⟩ :=
      Option.ne_none_iff_exists'.mp (h.options opt (by rw [hopts]; exact List.mem_singleton_self _))
    have horiginal : originalOptions p = original := by
      rw [originalOptions, hopts, List.flatMap_singleton, hread]
      rfl
    rw [injects_iff_of_opt h.parses hopts hread, Room, hopts, horiginal]

/-- A query for the address of the root, with an OPT record and `more` behind
it. -/
private def rootQuery (arcount : UInt8) (more : Bytes) : Bytes :=
  [0, 7, 1, 0, 0, 1, 0, 0, 0, 0, 0, arcount] ++ [0, 0, 1, 0, 1] ++
    [0, 0, 41, 4, 208, 0, 0, 0, 0, 0, 0] ++ more

private def rootPacket (more : List Rr) : Packet where
  questions := [⟨[], 1, 1⟩]
  answers := []
  authority := []
  additional := ⟨[], 41, 1232, 0, ⟨[], [], []⟩⟩ :: more

/-- The address of the root, as a record of 15 bytes. -/
private def rootAddress : Bytes := [0, 0, 1, 0, 1, 0, 0, 0, 60, 0, 4, 192, 0, 2, 1]

private theorem rootQuery_question (arcount : UInt8) (more : Bytes) :
    readQuestion (rootQuery arcount more) 12 = some (⟨[], 1, 1⟩, 17) := by
  apply readQuestion_eq_some.mpr
  refine ⟨13, nameWithin_root rfl ?_, ?_, rfl, rfl, rfl⟩ <;> simp [rootQuery]

private theorem rootQuery_opt (arcount : UInt8) (more : Bytes) :
    readRr (rootQuery arcount more) 17 = some (⟨[], 41, 1232, 0, ⟨[], [], []⟩⟩, 28) := by
  rw [readRr_opt_eq_some rfl]
  refine ⟨18, nameWithin_root rfl ?_, ?_, rfl, rfl, rfl, rfl, rfl⟩ <;> simp [rootQuery]

private theorem rootQuery_wellFormed : WellFormed (rootQuery 1 []) (rootPacket []) := by
  refine ⟨parse_eq_some.mpr ⟨17, 17, 17, ?_, ?_, rfl, rfl, ?_⟩, le_rfl, ?_⟩
  · decide
  · exact many_succ_eq_some.mpr ⟨_, 17, [], rootQuery_question 1 [], rfl, rfl⟩
  · exact many_succ_eq_some.mpr ⟨_, 28, [], rootQuery_opt 1 [], rfl, rfl⟩
  · intro opt hopt
    cases List.mem_singleton.mp hopt
    rw [Rr.options, readOptions]
    exact Option.some_ne_none _

/-- `192.0.2.0/24` in a query whose only additional record is the OPT. -/
theorem rootQuery_injects : InjectsEcs (rootQuery 1 []) (rootPacket []) 1 24 [192, 0, 2] := by
  apply (wireInjectEcs_injects_iff rootQuery_wellFormed 1 24 [192, 0, 2]).mpr
  refine ⟨rfl, ?_, by decide⟩
  have hnil : originalOptions (rootPacket []) = [] := by
    change (readOptions []).getD [] ++ [] = []
    rw [readOptions]
    rfl
  rw [hnil]
  simp

/-- The record behind the OPT is lost, and ARCOUNT still counts it. -/
theorem record_behind_opt_lost :
    ¬ ∀ (msg : Bytes) (p : Packet), WellFormed msg p → ∀ (family : BitVec 16)
      (prefixLen : UInt8) (addr : Bytes), InjectsEcs msg p family prefixLen addr := by
  intro h
  have haddress : readRr (rootQuery 2 rootAddress) 28 =
      some (⟨[], 1, 1, 60, ⟨[], [], [192, 0, 2, 1]⟩⟩, 43) := by
    apply readRr_eq_some.mpr
    exact ⟨29, nameWithin_root rfl (by decide), by decide, by decide, rfl, rfl, rfl, rfl,
      readRdata_eq_some.mpr ⟨39, rfl, by decide, rfl, rfl⟩⟩
  have hparse : parse (rootQuery 2 rootAddress) =
      some (rootPacket [⟨[], 1, 1, 60, ⟨[], [], [192, 0, 2, 1]⟩⟩]) := by
    refine parse_eq_some.mpr ⟨17, 17, 17, by decide, ?_, rfl, rfl, ?_⟩
    · exact many_succ_eq_some.mpr ⟨_, 17, [], rootQuery_question 2 rootAddress, rfl, rfl⟩
    · exact many_succ_eq_some.mpr ⟨_, 28, _, rootQuery_opt 2 rootAddress,
        many_succ_eq_some.mpr ⟨_, 43, [], haddress, rfl, rfl⟩, rfl⟩
  have hread : (⟨[], 41, 1232, 0, ⟨[], [], []⟩⟩ : Rr).options = some [] := by
    rw [Rr.options, readOptions]
  have hwell : WellFormed (rootQuery 2 rootAddress)
      (rootPacket [⟨[], 1, 1, 60, ⟨[], [], [192, 0, 2, 1]⟩⟩]) := by
    refine ⟨hparse, le_rfl, ?_⟩
    intro opt hopt
    cases List.mem_singleton.mp hopt
    rw [hread]
    exact Option.some_ne_none _
  have hlast := (injects_iff_of_opt hparse rfl hread 1 24 [192, 0, 2]).mp
    (h _ _ hwell 1 24 [192, 0, 2])
  exact absurd hlast.1 (by decide)

end Relay.Dns.Upstream
