import Relay.Ruleset.Drs

/-!
The suffix matcher. The loop over the fixed stack buffers computes what the
loop on the heap computes, whichever of its two fallbacks it takes, and both
accept a domain exactly when it is a suffix rule or a subdomain of one.
-/

namespace Relay.Ruleset

open Binary Text

/-- A suffix key is the labels of the suffix from last to first, each
followed by a dot. -/
theorem suffixToFstKey_eq (suffix : String) :
    suffixToFstKey suffix = terminated dot (labelsOf suffix).reverse := by
  have hne : (labelsOf suffix).reverse ≠ [] := by simp [labelsOf]
  obtain ⟨label, labels, hlabels⟩ := List.exists_cons_of_ne_nil hne
  rw [suffixToFstKey, hlabels, intercalate_terminated]

/-- The heap loop asks for the terminated form of every nonempty run of
labels it has passed. -/
theorem heapScan_iff (contains : Bytes → Bool) (labels : List Bytes) (key : Bytes) :
    heapScan contains labels key = true ↔
      ∃ front back, labels = front ++ back ∧ front ≠ [] ∧
        contains (key ++ terminated dot front) = true := by
  induction labels generalizing key with
  | nil =>
      constructor
      · intro h
        cases h
      · rintro ⟨front, back, hsplit, hne, _⟩
        have hfront : front = [] := (List.append_eq_nil_iff.mp hsplit.symm).1
        exact absurd hfront hne
  | cons label labels ih =>
      have hkey : key ++ label ++ [dot] = key ++ terminated dot [label] := by simp
      constructor
      · intro h
        by_cases hhit : contains (key ++ label ++ [dot]) = true
        · refine ⟨[label], labels, rfl, by simp, ?_⟩
          rwa [← hkey]
        · simp only [heapScan, if_neg hhit] at h
          obtain ⟨front, back, hsplit, hne, hfound⟩ := (ih (key ++ label ++ [dot])).mp h
          refine ⟨label :: front, back, by simp [hsplit], by simp, ?_⟩
          simpa using hfound
      · rintro ⟨front, back, hsplit, hne, hfound⟩
        obtain ⟨head, rest, rfl⟩ := List.exists_cons_of_ne_nil hne
        rw [List.cons_append, List.cons.injEq] at hsplit
        obtain ⟨rfl, hlabels⟩ := hsplit
        by_cases hhit : contains (key ++ label ++ [dot]) = true
        · simp only [heapScan, if_pos hhit]
        · simp only [heapScan, if_neg hhit]
          have hrest : rest ≠ [] := by
            rintro rfl
            exact hhit (by rwa [hkey])
          exact (ih (key ++ label ++ [dot])).mpr
            ⟨rest, back, hlabels, hrest, by simpa using hfound⟩

/-! ### The stack buffers -/

/-- The offset of label `i`: every label before it takes one more byte than
it is long. -/
def labelStart (labels : List Bytes) (i : Nat) : Nat :=
  (terminated dot (labels.take i)).length

/-- The first `n` cells of the array are the offsets of the first `n` labels. -/
def HoldsStarts (labels : List Bytes) (starts : List Nat) (n : Nat) : Prop :=
  ∀ i < n, starts[i]? = some (labelStart labels i)

private theorem labelStart_succ (labels : List Bytes) (i : Nat) (h : i < labels.length) :
    labelStart labels (i + 1) = labelStart labels i + labels[i].length + 1 := by
  unfold labelStart
  rw [List.take_succ_eq_append_getElem h, terminated_append]
  simp only [terminated_cons, terminated_nil, List.length_append, List.length_cons,
    List.length_nil]
  omega

private theorem intercalate_length (labels : List Bytes) (h : labels ≠ []) :
    ([dot].intercalate labels).length + 1 = labelStart labels labels.length := by
  obtain ⟨label, rest, rfl⟩ := List.exists_cons_of_ne_nil h
  have hlen := congrArg List.length (intercalate_terminated dot label rest)
  unfold labelStart
  rw [List.take_length, ← hlen]
  simp

/-- Label `i` stands at its offset. -/
private theorem slice_label (labels : List Bytes) (i : Nat) (h : i < labels.length) :
    slice ([dot].intercalate labels) (labelStart labels i)
      (labelStart labels i + labels[i].length) = (.ok labels[i] : Run Empty Bytes) := by
  have hne : labels ≠ [] := by
    rintro rfl
    simp at h
  obtain ⟨label, rest, hcons⟩ := List.exists_cons_of_ne_nil hne
  have hterm : [dot].intercalate labels ++ [dot] = terminated dot labels := by
    rw [hcons]
    exact intercalate_terminated dot label rest
  have hparts : terminated dot labels =
      terminated dot (labels.take i) ++ (labels[i] ++ dot :: terminated dot (labels.drop (i + 1))) := by
    conv_lhs => rw [← List.take_append_drop i labels, List.drop_eq_getElem_cons h]
    rw [terminated_append, terminated_cons]
  have hend : labelStart labels i + labels[i].length ≤ ([dot].intercalate labels).length := by
    have := congrArg List.length (hterm.trans hparts)
    simp only [List.length_append, List.length_cons, List.length_nil] at this
    unfold labelStart
    omega
  unfold slice
  rw [if_pos ⟨by omega, hend⟩, Nat.add_sub_cancel_left]
  congr 1
  have hdrop : ([dot].intercalate labels ++ [dot]).drop (labelStart labels i) =
      labels[i] ++ dot :: terminated dot (labels.drop (i + 1)) := by
    rw [hterm, hparts, labelStart, List.drop_left]
  rw [List.drop_append_of_le_length (by omega)] at hdrop
  have htake := congrArg (List.take labels[i].length) hdrop
  rwa [List.take_append_of_le_length (by simp only [List.length_drop]; omega),
    List.take_left] at htake

/-- The first loop finds the start of every label, or falls back. `done` are
the labels behind the offset and `cur` is what it has passed of the label it
stands in. -/
private theorem collectStarts_spec (labels : List Bytes) (rest : Bytes)
    (starts : List Nat) (done : List Bytes) (cur l : Bytes) (ls : List Bytes)
    (hrest : rest.splitOn dot = l :: ls) (hlabels : labels = done ++ (cur ++ l) :: ls)
    (hsize : starts.length = 128) (hbound : done.length < 128)
    (hstarts : HoldsStarts labels starts (done.length + 1)) :
    let n := done.length + 1
    let i := (terminated dot done).length + cur.length
    collectStarts starts n i rest = .ok none ∨
      ∃ starts', collectStarts starts n i rest = .ok (some (starts', labels.length)) ∧
        HoldsStarts labels starts' labels.length := by
  intro n i
  induction rest generalizing starts done cur l ls with
  | nil =>
      right
      simp only [List.splitOn_nil, List.cons.injEq] at hrest
      obtain ⟨rfl, rfl⟩ := hrest
      have hn : labels.length = done.length + 1 := by simp [hlabels]
      refine ⟨starts, by simp [collectStarts, hn, n], ?_⟩
      rw [hn]
      exact hstarts
  | cons b bytes ih =>
      obtain ⟨head, tail, hsplit⟩ := List.exists_cons_of_ne_nil (List.splitOn_ne_nil dot bytes)
      rw [List.splitOn_cons_eq_if_modifyHead, hsplit] at hrest
      by_cases hb : b = dot
      · simp only [hb, beq_self_eq_true, if_true, List.cons.injEq] at hrest
        obtain ⟨rfl, rfl⟩ := hrest
        by_cases hfull : 128 ≤ n
        · left
          simp only [collectStarts, hb, if_true, hfull]
        · have hcell : n < starts.length := by omega
          have hlabels' : labels = (done ++ [cur]) ++ ([] ++ head) :: tail := by
            simp [hlabels]
          have hcur : (done ++ [cur]).length = n := by simp [n]
          have hpos : i + 1 = (terminated dot (done ++ [cur])).length := by
            simp only [terminated_append, terminated_cons, terminated_nil, List.length_append,
              List.length_cons, List.length_nil, i]
            omega
          have hhere : labelStart labels n = i + 1 := by
            rw [labelStart, hpos, hlabels', ← hcur, List.take_left]
          have hset : HoldsStarts labels (starts.set n (i + 1)) ((done ++ [cur]).length + 1) := by
            intro k hk
            rw [hcur] at hk
            by_cases hkn : k = n
            · rw [hkn, List.getElem?_set_self hcell, hhere]
            · rw [List.getElem?_set_ne (Ne.symm hkn)]
              exact hstarts k (by omega)
          have hnext := ih (starts.set n (i + 1)) (done ++ [cur]) [] head tail hsplit hlabels'
            (by simpa using hsize) (by omega) hset
          simp only [collectStarts, hb, if_true, hfull, if_false, hcell]
          rw [List.length_nil, Nat.add_zero, ← hpos, hcur] at hnext
          exact hnext
      · simp only [beq_iff_eq, hb, if_false, List.modifyHead_cons, List.cons.injEq] at hrest
        obtain ⟨rfl, rfl⟩ := hrest
        have hnext := ih starts done (cur ++ [b]) head tail hsplit (by simp [hlabels]) hsize
          hbound hstarts
        simp only [collectStarts, hb, if_false]
        rw [List.length_append, List.length_singleton, ← Nat.add_assoc] at hnext
        exact hnext

private theorem endAt_spec (labels : List Bytes) (starts : List Nat)
    (hstarts : HoldsStarts labels starts labels.length) (i : Nat) (h : i < labels.length) :
    endAt starts labels.length ([dot].intercalate labels).length i =
      .ok (labelStart labels i + labels[i].length) := by
  have hsucc := labelStart_succ labels i h
  unfold endAt
  by_cases hlast : i + 1 < labels.length
  · have hnext : startAt starts (i + 1) = .ok (labelStart labels (i + 1)) := by
      simp [startAt, hstarts (i + 1) hlast]
    rw [if_pos hlast, hnext, run_ok_bind, checkedSub, if_pos (by omega), hsucc]
    rfl
  · have hlen := intercalate_length labels (by rintro rfl; simp at h)
    rw [show labels.length = i + 1 by omega] at hlen
    rw [if_neg hlast]
    congr 1
    omega

/-- The second loop answers as the heap loop does from the same key, or falls
back; no index of it is out of range. -/
private theorem stackScan_spec (contains : Bytes → Bool) (labels : List Bytes)
    (starts : List Nat) (hstarts : HoldsStarts labels starts labels.length)
    (i : Nat) (buf : Bytes) (bufLen : Nat) (hi : i ≤ labels.length)
    (hbuf : bufLen ≤ buf.length) :
    stackScan contains ([dot].intercalate labels) starts labels.length i buf bufLen = .ok none ∨
      stackScan contains ([dot].intercalate labels) starts labels.length i buf bufLen =
        .ok (some (heapScan contains (labels.take i).reverse (buf.take bufLen))) := by
  induction i generalizing buf bufLen with
  | zero =>
      right
      simp [stackScan, heapScan]
  | succ i ih =>
      have hlt : i < labels.length := by omega
      have hstart : startAt starts i = .ok (labelStart labels i) := by
        simp [startAt, hstarts i hlt]
      have hend := endAt_spec labels starts hstarts i hlt
      have hsub : checkedSub (labelStart labels i + labels[i].length) (labelStart labels i) =
          (.ok labels[i].length : Run Empty Nat) := by
        simp [checkedSub]
      simp only [stackScan, hstart, run_ok_bind, hend, hsub]
      by_cases hroom : buf.length < bufLen + labels[i].length + 1
      · left
        rw [if_pos hroom]
        rfl
      · rw [if_neg hroom]
        simp only [slice_label labels i hlt, run_ok_bind]
        have hlabel : overwrite buf bufLen labels[i] =
            (.ok (buf.take bufLen ++ labels[i] ++ buf.drop (bufLen + labels[i].length)) :
              Run Empty Bytes) := by
          rw [overwrite, if_pos (by omega)]
        obtain ⟨mid, hmid⟩ : ∃ mid,
            mid = buf.take bufLen ++ labels[i] ++ buf.drop (bufLen + labels[i].length) := ⟨_, rfl⟩
        have hmidLen : mid.length = buf.length := by
          simp only [hmid, List.length_append, List.length_take, List.length_drop]
          omega
        have hmidTake : mid.take (bufLen + labels[i].length) = buf.take bufLen ++ labels[i] := by
          rw [hmid]
          exact List.take_left' (by simp; omega)
        have hdot : overwrite mid (bufLen + labels[i].length) [dot] =
            (.ok (mid.take (bufLen + labels[i].length) ++ [dot] ++
              mid.drop (bufLen + labels[i].length + 1)) : Run Empty Bytes) := by
          rw [overwrite, if_pos (by simp only [List.length_singleton]; omega)]
          simp
        obtain ⟨next, hnext⟩ : ∃ next, next = mid.take (bufLen + labels[i].length) ++ [dot] ++
            mid.drop (bufLen + labels[i].length + 1) := ⟨_, rfl⟩
        have hnextLen : next.length = buf.length := by
          simp only [hnext, List.length_append, List.length_take, List.length_drop,
            List.length_singleton]
          omega
        have hnextTake : next.take (bufLen + labels[i].length + 1) =
            buf.take bufLen ++ labels[i] ++ [dot] := by
          rw [hnext, hmidTake]
          exact List.take_left' (by simp; omega)
        have hkey : slice next 0 (bufLen + labels[i].length + 1) =
            (.ok (buf.take bufLen ++ labels[i] ++ [dot]) : Run Empty Bytes) := by
          rw [slice, if_pos ⟨Nat.zero_le _, by omega⟩, List.drop_zero, Nat.sub_zero, hnextTake]
        have hlabels : (labels.take (i + 1)).reverse = labels[i] :: (labels.take i).reverse := by
          rw [List.take_succ_eq_append_getElem hlt, List.reverse_append]
          rfl
        rw [hlabel, run_ok_bind, ← hmid, hdot, run_ok_bind, ← hnext, hkey, run_ok_bind, hlabels]
        by_cases hhit : contains (buf.take bufLen ++ labels[i] ++ [dot]) = true
        · right
          rw [if_pos hhit]
          simp only [heapScan, if_pos hhit]
          rfl
        · rw [if_neg hhit]
          have hih := ih next (bufLen + labels[i].length + 1) (by omega) (by omega)
          rw [hnextTake] at hih
          simp only [heapScan, if_neg hhit]
          exact hih

/-- The allocation-free matcher is the heap matcher: both fallbacks and the
stack buffers give one answer. -/
theorem suffixMatchZeroAlloc_eq (contains : Bytes → Bool) (domain : String) (h : domain ≠ "") :
    suffixMatchZeroAlloc contains domain = .ok (suffixMatchHeap contains domain) := by
  have hbytes : (octets domain).isEmpty = false := by
    simpa [List.isEmpty_eq_false_iff] using h
  obtain ⟨label, labels, hlabels⟩ :=
    List.exists_cons_of_ne_nil (List.splitOn_ne_nil dot (octets domain))
  have hjoin : [dot].intercalate (labelsOf domain) = octets domain :=
    List.intercalate_splitOn dot
  have hfirst : HoldsStarts (labelsOf domain) (List.replicate 128 0) (([] : List Bytes).length + 1) := by
    intro i hi
    have hzero : i = 0 := by simpa using hi
    subst hzero
    simp [labelStart]
  have hcollect := collectStarts_spec (labelsOf domain) (octets domain) (List.replicate 128 0)
    [] [] label labels hlabels (by simpa [labelsOf] using hlabels) (by simp) (by simp) hfirst
  simp only [List.length_nil, Nat.zero_add, terminated_nil, Nat.add_zero] at hcollect
  simp only [suffixMatchZeroAlloc, hbytes, Bool.false_eq_true, if_false]
  rcases hcollect with hnone | ⟨starts, hsome, hstarts⟩
  · rw [hnone, run_ok_bind]
    rfl
  · rw [hsome, run_ok_bind]
    have hscan := stackScan_spec contains (labelsOf domain) starts hstarts
      (labelsOf domain).length (List.replicate 256 0) 0 le_rfl (Nat.zero_le _)
    rw [hjoin] at hscan
    rcases hscan with hnone | hfound
    · simp only [hnone, run_ok_bind]
      rfl
    · simp only [hfound, run_ok_bind, List.take_length, List.take_zero]
      rfl

/-- A set of suffix keys accepts a domain that is one of the suffixes, or
ends in a dot and one of them, and no other. -/
theorem suffixMatchHeap_iff (contains : Bytes → Bool) (suffixes : List String) (domain : String)
    (hset : ∀ key, contains key = true ↔ key ∈ suffixes.map suffixToFstKey) :
    suffixMatchHeap contains domain = true ↔
      ∃ s ∈ suffixes, octets domain = octets s ∨ (dot :: octets s) <:+ octets domain := by
  have hkey : ∀ (s : String) (front back : List Bytes),
      (labelsOf domain).reverse = front ++ back →
      terminated dot (labelsOf s).reverse = terminated dot front →
      (labelsOf s).reverse = front := by
    intro s front back hsplit hterm
    apply terminated_injective ?_ ?_ hterm
    · intro label hlabel
      exact not_mem_of_mem_splitOn (List.mem_reverse.mp hlabel)
    · intro label hlabel
      have hmem : label ∈ (labelsOf domain).reverse := by
        rw [hsplit]
        exact List.mem_append_left back hlabel
      exact not_mem_of_mem_splitOn (List.mem_reverse.mp hmem)
  unfold suffixMatchHeap
  rw [heapScan_iff]
  constructor
  · rintro ⟨front, back, hsplit, _, hfound⟩
    rw [List.nil_append, hset, List.mem_map] at hfound
    obtain ⟨s, hs, hterm⟩ := hfound
    rw [suffixToFstKey_eq] at hterm
    refine ⟨s, hs, (splitOn_suffix_iff dot (octets s) (octets domain)).mp ?_⟩
    rw [← List.reverse_prefix]
    have hfront := hkey s front back hsplit hterm
    exact ⟨back, by rw [show (List.splitOn dot (octets s)).reverse = front from hfront, ← hsplit]; rfl⟩
  · rintro ⟨s, hs, hsuffix⟩
    have hlabels := (splitOn_suffix_iff dot (octets s) (octets domain)).mpr hsuffix
    rw [← List.reverse_prefix] at hlabels
    obtain ⟨back, hback⟩ := hlabels
    refine ⟨(labelsOf s).reverse, back, hback.symm, ?_, ?_⟩
    · simp [labelsOf]
    · rw [List.nil_append, hset, List.mem_map]
      exact ⟨s, hs, suffixToFstKey_eq s⟩

/-- The text is the domain, or what stands behind one of its dots. -/
def LabelSuffix (s domain : String) : Prop := s = domain ∨ ∃ front, domain = front ++ "." ++ s

theorem octets_append_dot (front s : String) :
    octets (front ++ "." ++ s) = octets front ++ dot :: octets s := by
  simp [octets]
  rfl

/-- The labels of such a text end the labels of the domain. -/
theorem LabelSuffix.labels_suffix {s domain : String} (h : LabelSuffix s domain) :
    labelsOf s <:+ labelsOf domain := by
  apply (splitOn_suffix_iff dot (octets s) (octets domain)).mpr
  rcases h with rfl | ⟨front, rfl⟩
  · exact Or.inl rfl
  · rw [octets_append_dot]
    exact Or.inr (List.suffix_append _ _)

/-- Any last labels of a domain are the labels of such a text. -/
theorem exists_labelSuffix {domain : String} {labels : List Bytes} (hne : labels ≠ [])
    (h : labels <:+ labelsOf domain) : ∃ s, LabelSuffix s domain ∧ labelsOf s = labels := by
  have hdots : ∀ label ∈ labels, dot ∉ label := fun label hlabel =>
    not_mem_of_mem_splitOn (h.subset hlabel)
  have hsplit : ([dot].intercalate labels).splitOn dot = labels :=
    List.splitOn_intercalate dot hdots hne
  rw [← hsplit] at h
  rcases (splitOn_suffix_iff dot _ (octets domain)).mp h with heq | ⟨front, hfront⟩
  · refine ⟨domain, Or.inl rfl, ?_⟩
    rw [labelsOf, heq, hsplit]
  · obtain ⟨before, after, hdomain, _, hafter⟩ := octets_cut (c := '.') (by decide) hfront.symm
    refine ⟨after, Or.inr ⟨before, hdomain⟩, ?_⟩
    rw [labelsOf, hafter, hsplit]

/-- Both matchers answer alike, without an index out of range, and find the
key of some suffix of the domain that begins at a label. -/
theorem stack_and_heap_agree (contains : Bytes → Bool) (domain : String) (h : domain ≠ "") :
    suffixMatchZeroAlloc contains domain = .ok (suffixMatchHeap contains domain) ∧
      (suffixMatchHeap contains domain = true ↔
        ∃ s, LabelSuffix s domain ∧ contains (terminated dot (labelsOf s).reverse) = true) := by
  refine ⟨suffixMatchZeroAlloc_eq contains domain h, ?_⟩
  rw [suffixMatchHeap, heapScan_iff]
  constructor
  · rintro ⟨front, back, hsplit, hne, hfound⟩
    have hlabels : front.reverse <:+ labelsOf domain := by
      rw [← List.reverse_prefix, List.reverse_reverse]
      exact ⟨back, hsplit.symm⟩
    obtain ⟨s, hs, heq⟩ := exists_labelSuffix (by simpa using hne) hlabels
    refine ⟨s, hs, ?_⟩
    rw [heq, List.reverse_reverse]
    exact hfound
  · rintro ⟨s, hs, hfound⟩
    have hprefix := hs.labels_suffix
    rw [← List.reverse_prefix] at hprefix
    obtain ⟨back, hback⟩ := hprefix
    refine ⟨(labelsOf s).reverse, back, hback.symm, ?_, hfound⟩
    simp [labelsOf]

/-- A key of two labels, and a domain of three. -/
theorem stack_and_heap_agree_ads :
    suffixMatchZeroAlloc (fun key => key = octets "example.ads.") "x.ads.example" =
        .ok (suffixMatchHeap (fun key => key = octets "example.ads.") "x.ads.example") ∧
      (suffixMatchHeap (fun key => key = octets "example.ads.") "x.ads.example" = true ↔
        ∃ s, LabelSuffix s "x.ads.example" ∧
          (decide (terminated dot (labelsOf s).reverse = octets "example.ads.")) = true) :=
  stack_and_heap_agree (fun key => key = octets "example.ads.") "x.ads.example" (by decide)

/-! ### The matcher on names as they are asked -/

variable {F : FstCrate} {R : RegexCrate}

theorem holdsSuffix_total (stored : Option F.Set) (domain : String) :
    ∃ found, holdsSuffix F stored domain = .ok found := by
  cases stored with
  | none => exact ⟨false, rfl⟩
  | some set =>
      by_cases hempty : domain = ""
      · subst hempty
        exact ⟨false, rfl⟩
      · exact ⟨_, suffixMatchZeroAlloc_eq (F.contains set) domain hempty⟩

/-- The matcher indexes nothing out of range. -/
theorem DrsFile.matchesNormalized_total (drs : DrsFile F R) (domain : String) :
    ∃ result, drs.matchesNormalized domain = .ok result := by
  obtain ⟨excluded, hexcluded⟩ := holdsSuffix_total drs.excludeSuffixFst domain
  obtain ⟨found, hfound⟩ := holdsSuffix_total drs.suffixFst domain
  have hexclude : ∃ b, drs.domainIsExcluded domain = .ok b := by
    unfold DrsFile.domainIsExcluded
    rw [hexcluded, run_ok_bind]
    split
    · exact ⟨_, rfl⟩
    · split <;> exact ⟨_, rfl⟩
  obtain ⟨b, hb⟩ := hexclude
  have hsuffix : ∃ b, (if drs.hasSuffixMatchers then holdsSuffix F drs.suffixFst domain
      else .ok false) = (.ok b : Run Empty Bool) := by
    rw [hfound]
    split <;> exact ⟨_, rfl⟩
  obtain ⟨suffix, hsuffix⟩ := hsuffix
  unfold DrsFile.matchesNormalized
  rw [hb, run_ok_bind, hsuffix, run_ok_bind]
  repeat' split
  all_goals exact ⟨_, rfl⟩

/-- Without a matcher for domains nothing matches, so the fast path changes
nothing. -/
theorem DrsFile.matches_eq (drs : DrsFile F R) (domain : String) :
    drs.matches domain = drs.matchesNormalized (toAsciiLowercase (trimEndDots domain)) := by
  unfold DrsFile.matches
  split
  · rename_i hnone
    simp only [Bool.and_eq_true, Bool.not_eq_true'] at hnone
    obtain ⟨⟨⟨hdomain, hsuffix⟩, hkeyword⟩, hregex⟩ := hnone
    obtain ⟨result, hresult⟩ := drs.matchesNormalized_total (toAsciiLowercase (trimEndDots domain))
    rw [hresult]
    unfold DrsFile.matchesNormalized at hresult
    rw [hdomain, hsuffix, hkeyword, hregex] at hresult
    obtain ⟨excluded, hexcluded, hresult⟩ := run_bind_eq_ok.mp hresult
    cases excluded with
    | true => exact hresult
    | false => exact hresult
  · dsimp only
    split
    · rfl
    · rename_i hlower
      rw [toAsciiLowercase_eq_self (Bool.eq_false_iff.mpr hlower)]

/-- The ruleset accepts a name. -/
def DrsFile.accepts (drs : DrsFile F R) (name : String) : Bool :=
  match drs.matches name with
  | .ok (some _) => true
  | _ => false

end Relay.Ruleset
