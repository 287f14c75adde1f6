import Relay.Dhcp.Ra.Listener
import Relay.Logic.Latest

/-!
The prefix table that `listen_for_prefixes` keeps, over any packets it
receives. A packet is the first `n` bytes of its buffer; to read at `n` or
behind it is a `panic` of the walk, and so is a walk that does not end.
-/

namespace Relay.Dhcp.Ra

open Binary Logic

variable {ε : Type}

/-- Update or insert what one packet taught. -/
def updatePrefixes (table learned : List LearnedPrefix) : List LearnedPrefix :=
  learned.foldl (fun table lp => updateOrPush LearnedPrefix.netPrefix lp table) table

/-- One turn of the loop of `listen_for_prefixes`. -/
def receive (table : List LearnedPrefix) (packet : Bytes) : Run ε (List LearnedPrefix) := do
  let learned ← learnedPrefixes packet
  .ok (updatePrefixes table learned)

/-- The table after these packets. The table starts empty and only the
listener writes it. -/
def listenForPrefixes (packets : List Bytes) : Run ε (List LearnedPrefix) :=
  packets.foldlM receive []

/-- What `recv_from` leaves of a message in the buffer of `listen_for_prefixes`. -/
def received (message : Bytes) : Bytes := message.take 1500

/-! ### What there is to learn -/

/-- A router advertisement, at least as long as its header. -/
def isAdvertisement (packet : Bytes) : Bool :=
  decide (16 ≤ packet.length) && decide (packet.head? = some 134)

/-- The complete options of an advertisement, none for any other packet. -/
def optionsIn (packet : Bytes) : List Bytes :=
  if isAdvertisement packet then completeOptions 8 (packet.drop 16) else []

/-- Prefix Information. -/
def isPrefixInformation (opt : Bytes) : Bool :=
  decide (opt.head? = some 3) && decide (opt.length = 32)

/-- The Prefix Information options of all packets, in the order they came. -/
def prefixInformation (packets : List Bytes) : List LearnedPrefix :=
  ((packets.flatMap optionsIn).filter isPrefixInformation).map prefixIn

theorem flatMap_optionPrefixes_eq (opts : List Bytes) :
    opts.flatMap optionPrefixes =
      ((opts.filter isPrefixInformation).map prefixIn).filter fun lp => !skipped lp.netPrefix := by
  induction opts with
  | nil => rfl
  | cons opt opts ih =>
      rw [List.flatMap_cons, ih]
      by_cases hinfo : isPrefixInformation opt = true
      · have hparts : opt.head? = some 3 ∧ opt.length = 32 := by
          simpa [isPrefixInformation] using hinfo
        rw [List.filter_cons_of_pos hinfo, List.map_cons, List.filter_cons]
        cases hskip : skipped (prefixIn opt).netPrefix <;> simp [optionPrefixes, hparts, hskip]
      · have hnone : optionPrefixes opt = [] := by
          apply if_neg
          rintro ⟨hhead, hlength, _⟩
          exact hinfo (by simp [isPrefixInformation, hhead, hlength])
        rw [List.filter_cons_of_neg hinfo, hnone, List.nil_append]

/-- Every read of the walk is within the packet, and it teaches what its
complete options do. -/
theorem learnedPrefixes_eq (packet : Bytes) :
    (learnedPrefixes packet : Run ε _) = .ok ((optionsIn packet).flatMap optionPrefixes) := by
  unfold learnedPrefixes optionsIn isAdvertisement
  by_cases hshort : packet.length < 16
  · simp [hshort]
  · rw [if_neg hshort, byteAt_of_lt (by omega : 0 < packet.length), run_ok_bind]
    have hhead : packet.head? = some packet[0] := by
      rw [List.head?_eq_getElem?, List.getElem?_eq_getElem]
    by_cases hty : packet[0] = 134
    · have hwalk := walkOptions_eq_foldlM (ε := ε) (by omega : 2 ≤ 8)
        (fun learned opt => (.ok (learned ++ optionPrefixes opt) : Run ε _)) []
        (by omega : 16 ≤ packet.length) (visitsOption packet)
      rw [if_neg (not_not_intro hty), hwalk, foldlM_optionPrefixes, List.nil_append]
      simp [hhead, hty, Nat.le_of_not_lt hshort]
    · simp [hhead, hty]

theorem receive_eq (table : List LearnedPrefix) (packet : Bytes) :
    (receive table packet : Run ε _) =
      .ok (updatePrefixes table ((optionsIn packet).flatMap optionPrefixes)) := by
  rw [receive, learnedPrefixes_eq, run_ok_bind]

/-- The table is what all options of all packets together write. -/
theorem listenForPrefixes_eq (packets : List Bytes) :
    (listenForPrefixes packets : Run ε _) =
      .ok (updatePrefixes []
        ((prefixInformation packets).filter fun lp => !skipped lp.netPrefix)) := by
  have hfold := foldlM_of_good (ε := ε)
    (fun table (packet : Bytes) (_ : packet ∈ packets) => receive_eq table packet) []
  rw [listenForPrefixes, hfold, prefixInformation, ← flatMap_optionPrefixes_eq,
    List.flatMap_assoc, updatePrefixes, List.foldl_flatMap]
  rfl

/-- A packet's options up to the first malformed one are all that is read of
it, and each entry of the table is the last complete Prefix Information option
for its address in any advertisement. -/
theorem listenForPrefixes_latest (packets : List Bytes) :
    (∀ packet ∈ packets, ∃ opts rest,
      packet.drop 16 = opts.flatten ++ rest ∧ (∀ opt ∈ opts, Sized 8 opt) ∧
        (∀ opt, opt <+: rest → ¬ Sized 8 opt) ∧
        (isAdvertisement packet = true → optionsIn packet = opts) ∧
        (learnedPrefixes packet : Run Empty _) =
          .ok (if isAdvertisement packet then opts.flatMap optionPrefixes else [])) ∧
    ∃ table, (listenForPrefixes packets : Run Empty _) = .ok table ∧
      (table.map LearnedPrefix.netPrefix).Nodup ∧
      ∀ lp, lp ∈ table ↔
        LastOf LearnedPrefix.netPrefix (prefixInformation packets) lp ∧
          isLoopback lp.netPrefix = false ∧ isLinkLocal lp.netPrefix = false := by
  constructor
  · intro packet _
    obtain ⟨rest, hrest, hstops, hsized⟩ := completeOptions_spec (by omega : 2 ≤ 8)
      (packet.drop 16)
    refine ⟨_, rest, hrest, hsized, fun opt hopt => hstops.not_sized hopt, ?_, ?_⟩
    · intro hadvert
      simp [optionsIn, hadvert]
    · rw [learnedPrefixes_eq, optionsIn]
      split <;> rfl
  · obtain ⟨hnodup, hmem⟩ := foldl_updateOrPush LearnedPrefix.netPrefix
      ((prefixInformation packets).filter fun lp => !skipped lp.netPrefix)
    refine ⟨_, listenForPrefixes_eq packets, hnodup, ?_⟩
    intro lp
    rw [updatePrefixes, hmem, lastOf_filter (p := fun ip => !skipped ip)]
    simp [skipped]

end Relay.Dhcp.Ra
