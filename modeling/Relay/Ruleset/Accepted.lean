import Relay.Dns.Router
import Relay.Ruleset.CidrMatch
import Relay.Ruleset.Formats

/-!
What the parsers let through. Every entry they make is in the form its type
promises: a domain that passed `looks_like_domain` and is its own normal form, a
keyword in lower case, a pattern that compiles, a network address of the version
its type names, or a port range that is not empty.
-/

namespace Relay.Ruleset

open Binary Dns Text

variable {T : NetText} {R : RegexCrate}

/-- A prefix within the address, which has no bit behind it. -/
def IsNetwork {w : Nat} (addr : BitVec w) (bits : UInt8) : Prop :=
  bits.toNat ≤ w ∧ 2 ^ (w - bits.toNat) ∣ addr.toNat

/-- The invariant of an entry, by its type. -/
def RuleEntry.WellFormed (R : RegexCrate) (e : RuleEntry) : Prop :=
  match e.ruleType with
  | .domain | .domainSuffix | .excludeDomain | .excludeDomainSuffix =>
      looksLikeDomain e.domain = true ∧ normalizeDomain e.domain = e.domain
  | .domainKeyword => e.domain ≠ "" ∧ e.domain.toList.any Char.isUpper = false
  | .domainRegex | .excludeDomainRegex => R.compiles e.domain = .ok ()
  | .ipv4Cidr => ∃ addr bits, e.cidr = some (.v4 addr, bits) ∧ IsNetwork addr bits
  | .ipv6Cidr => ∃ addr bits, e.cidr = some (.v6 addr, bits) ∧ IsNetwork addr bits
  | .port => ∃ start finish, e.port = some (start, finish) ∧ start ≤ finish

/-- What the buckets and the writer rely on. -/
def RuleEntry.Accepted (R : RegexCrate) (e : RuleEntry) : Prop :=
  match e.ruleType with
  | .domain | .domainSuffix | .excludeDomain | .excludeDomainSuffix =>
      (octets e.domain).length ≤ 253
  | .domainRegex | .excludeDomainRegex => R.compiles e.domain = .ok ()
  | .ipv4Cidr => ∃ addr bits, e.cidr = some (.v4 addr, bits)
  | .ipv6Cidr => ∃ addr bits, e.cidr = some (.v6 addr, bits)
  | .domainKeyword | .port => True

/-- The types whose entries are domains. -/
def EntryType.isDomain : EntryType → Bool
  | .domain | .domainSuffix | .excludeDomain | .excludeDomainSuffix => true
  | _ => false

/-- A domain in lower case. -/
theorem wellFormed_of_isDomain {s : String} {ty : EntryType} (hty : ty.isDomain = true)
    (h : looksLikeDomain (toAsciiLowercase s) = true) :
    (domainEntry (toAsciiLowercase s) ty).WellFormed R := by
  have hnormal : normalizeDomain (toAsciiLowercase s) = toAsciiLowercase s := by
    rw [normalizeDomain, trimEndDots_of_looksLikeDomain h]
    exact toAsciiLowercase_eq_self (any_isUpper_toAsciiLowercase s)
  cases ty with
  | domain | domainSuffix | excludeDomain | excludeDomainSuffix => exact ⟨h, hnormal⟩
  | _ => cases hty

theorem wellFormed_keyword {s : String} (hne : s ≠ "") :
    (domainEntry (toAsciiLowercase s) .domainKeyword).WellFormed R := by
  refine ⟨?_, any_isUpper_toAsciiLowercase s⟩
  intro hempty
  apply hne
  rw [← String.toList_eq_nil_iff] at hempty ⊢
  simpa [domainEntry, toAsciiLowercase] using hempty

theorem isOk_iff {α ε : Type} {action : Except ε α} : action.isOk = true ↔ ∃ a, action = .ok a := by
  cases action with
  | ok a => simp [Except.isOk, Except.toBool]
  | error e => simp [Except.isOk, Except.toBool]

/-- Everything that has been pushed is in the form of its type. -/
def AllWellFormed (R : RegexCrate) (out : List RuleEntry) : Prop := ∀ e ∈ out, e.WellFormed R

theorem AllWellFormed.nil : AllWellFormed R [] := by simp [AllWellFormed]

theorem AllWellFormed.push {out : List RuleEntry} (h : AllWellFormed R out) {e : RuleEntry}
    (he : e.WellFormed R) : AllWellFormed R (out ++ [e]) := by
  intro e' he'
  rcases List.mem_append.mp he' with hold | hnew
  · exact h e' hold
  · rw [List.mem_singleton.mp hnew]
    exact he

/-- Steps that push such entries only, run over a list. -/
theorem AllWellFormed.foldlM {α : Type} {step : List RuleEntry → α → Run DrsError (List RuleEntry)}
    (hstep : ∀ {out x out'}, AllWellFormed R out → step out x = .ok out' → AllWellFormed R out')
    {xs : List α} {out out' : List RuleEntry} (h : AllWellFormed R out)
    (hfold : xs.foldlM step out = .ok out') : AllWellFormed R out' := by
  induction xs generalizing out with
  | nil =>
      cases hfold
      exact h
  | cons x xs ih =>
      rw [List.foldlM_cons] at hfold
      obtain ⟨next, hnext, hrest⟩ := run_bind_eq_ok.mp hfold
      exact ih (hstep h hnext) hrest

theorem atLine_ok {α : Type} {line : Nat} {action : Run DrsError α} {a : α}
    (h : atLine line action = .ok a) : action = .ok a := by
  cases action with
  | ok b => exact h
  | error e => cases h

/-- The address of a parsed CIDR is masked. -/
theorem parseCidr_isNetwork {w : Nat} {parseAddr : String → Option (BitVec w)} {s : String}
    {addr : BitVec w} {bits : UInt8} (h : parseCidr w parseAddr s = .ok (addr, bits)) :
    IsNetwork addr bits := by
  unfold parseCidr at h
  split at h
  · cases h
  · split at h
    · cases h
    · rename_i n _
      split at h
      · cases h
      · rename_i hwidth
        split at h
        · cases h
        · rename_i whole _
          have hbits : (UInt8.ofNat n).toNat ≤ w := by
            have hmod : (UInt8.ofNat n).toNat ≤ n := by
              rw [UInt8.toNat_ofNat']
              exact Nat.mod_le ..
            omega
          have hcidr : ((whole, UInt8.ofNat n) : BitVec w × UInt8).2.toNat ≤ w := hbits
          have hrange := cidrToRange_eq_rangeOf hcidr
          dsimp only at hrange
          rw [hrange] at h
          cases h
          refine ⟨hbits, ?_⟩
          change 2 ^ (w - (UInt8.ofNat n).toNat) ∣ (rangeOf w (whole, UInt8.ofNat n)).1.toNat
          rw [(rangeOf_toNat hcidr).1]
          exact Nat.dvd_mul_right ..

theorem parsePortRange_le {s : String} {start finish : BitVec 16}
    (h : parsePortRange s = .ok (start, finish)) : start ≤ finish := by
  unfold parsePortRange at h
  split at h
  · obtain ⟨first, _, h⟩ := run_bind_eq_ok.mp h
    obtain ⟨last, _, h⟩ := run_bind_eq_ok.mp h
    split at h
    · cases h
    · rename_i hordered
      cases h
      exact BitVec.not_lt.mp hordered
  · obtain ⟨port, _, h⟩ := run_bind_eq_ok.mp h
    cases h
    exact BitVec.le_refl _

theorem AllWellFormed.pushCidr {s : String} {line : Nat} {out out' : List RuleEntry}
    (h : AllWellFormed R out) (hpush : Ruleset.pushCidr T s line out = .ok out') :
    AllWellFormed R out' := by
  unfold Ruleset.pushCidr at hpush
  dsimp only at hpush
  split at hpush
  · rw [← Except.ok.inj hpush]
    exact h
  · split at hpush
    · obtain ⟨⟨addr, bits⟩, hcidr, hpush⟩ := run_bind_eq_ok.mp hpush
      rw [← Except.ok.inj hpush]
      exact h.push ⟨addr, bits, rfl, parseCidr_isNetwork (atLine_ok hcidr)⟩
    · obtain ⟨⟨addr, bits⟩, hcidr, hpush⟩ := run_bind_eq_ok.mp hpush
      rw [← Except.ok.inj hpush]
      exact h.push ⟨addr, bits, rfl, parseCidr_isNetwork (atLine_ok hcidr)⟩

/-- A port range that was read. -/
theorem AllWellFormed.pushPort {s : String} {line : Nat} {out out' : List RuleEntry}
    (h : AllWellFormed R out)
    (hpush : (atLine line (parsePortRange s) >>= fun range =>
      pure (out ++ [portEntry range.1 range.2])) = .ok out') : AllWellFormed R out' := by
  obtain ⟨⟨start, finish⟩, hrange, hpush⟩ := run_bind_eq_ok.mp hpush
  rw [← Except.ok.inj hpush]
  exact h.push ⟨start, finish, rfl, parsePortRange_le (atLine_ok hrange)⟩

/-! ### mihomo -/

namespace Mihomo

theorem pushName_wellFormed {s : String} {ty : EntryType} (hty : ty.isDomain = true)
    {out : List RuleEntry} (h : AllWellFormed R out) : AllWellFormed R (pushName s ty out) := by
  unfold pushName
  dsimp only
  split
  · rename_i hdomain
    exact h.push (wellFormed_of_isDomain hty hdomain)
  · exact h

theorem pushTypedLine_wellFormed {ty value : String} {lineNo : Nat} {out out' : List RuleEntry}
    (h : AllWellFormed R out) (hpush : pushTypedLine T R ty value lineNo out = .ok out') :
    AllWellFormed R out' := by
  unfold pushTypedLine at hpush
  split at hpush
  · rw [← Except.ok.inj hpush]
    exact pushName_wellFormed rfl h
  · rw [← Except.ok.inj hpush]
    exact pushName_wellFormed rfl h
  · rw [← Except.ok.inj hpush]
    split
    · exact h
    · rename_i hne
      exact h.push (wellFormed_keyword hne)
  · rw [← Except.ok.inj hpush]
    split
    · rename_i hvalid
      obtain ⟨_, hcompiles⟩ := isOk_iff.mp hvalid
      exact h.push hcompiles
    · exact h
  · exact h.pushCidr hpush
  · exact h.pushCidr hpush
  · exact h.pushPort hpush
  · rw [← Except.ok.inj hpush]
    exact h

theorem pushClassicalOrAuto_wellFormed {s : String} {lineNo : Nat} {behavior : Behavior}
    {out out' : List RuleEntry} (h : AllWellFormed R out)
    (hpush : pushClassicalOrAuto T R s lineNo behavior out = .ok out') : AllWellFormed R out' := by
  unfold pushClassicalOrAuto at hpush
  split at hpush
  · exact pushTypedLine_wellFormed h hpush
  · split at hpush
    · rw [← Except.ok.inj hpush]
      exact pushName_wellFormed rfl h
    · split at hpush
      · rename_i keyword hkeyword
        rw [← Except.ok.inj hpush]
        exact h.push (wellFormed_keyword (by simpa using (Option.filter_eq_some_iff.mp hkeyword).2))
      · split at hpush
        · split at hpush
          · rw [← Except.ok.inj hpush]
            exact h
          · split at hpush
            · exact h.pushCidr hpush
            · split at hpush
              · exact h.pushCidr hpush
              · rw [← Except.ok.inj hpush]
                exact pushName_wellFormed rfl h
        · rw [← Except.ok.inj hpush]
          exact h

theorem pushItem_wellFormed {behavior : Behavior} {item : YamlValue × Nat}
    {out out' : List RuleEntry} (h : AllWellFormed R out)
    (hpush : pushItem T R behavior out item = .ok out') : AllWellFormed R out' := by
  unfold pushItem at hpush
  dsimp only at hpush
  split at hpush
  · rw [← Except.ok.inj hpush]
    exact h
  · split at hpush
    · rw [← Except.ok.inj hpush]
      exact h
    · split at hpush
      · rw [← Except.ok.inj hpush]
        unfold pushDomainEntry
        dsimp only
        split
        · exact h
        · exact pushName_wellFormed rfl h
      · unfold pushIpcidrEntry at hpush
        dsimp only at hpush
        split at hpush
        · rw [← Except.ok.inj hpush]
          exact h
        · exact h.pushCidr hpush
      · exact pushClassicalOrAuto_wellFormed h hpush
      · exact pushClassicalOrAuto_wellFormed h hpush

theorem parseWithBehavior_wellFormed {fromStr : String → Except String YamlValue} {input : String}
    {behavior : Behavior} {entries : List RuleEntry}
    (h : parseWithBehavior T R fromStr input behavior = .ok entries) :
    AllWellFormed R entries := by
  unfold parseWithBehavior at h
  split at h
  · cases h
  · unfold parseDoc at h
    dsimp only at h
    split at h
    all_goals
      obtain ⟨effective, _, h⟩ := run_bind_eq_ok.mp h
      split at h
      · cases h
      · exact AllWellFormed.nil.foldlM pushItem_wellFormed h

end Mihomo

/-! ### sing-box -/

namespace Singbox

theorem pushStringArray_wellFormed {val : JsonValue} {ruleIdx : Nat} {field : String}
    {cb : String → List RuleEntry → Run DrsError (List RuleEntry)} {out out' : List RuleEntry}
    (hcb : ∀ {s out out'}, AllWellFormed R out → cb s out = .ok out' → AllWellFormed R out')
    (h : AllWellFormed R out) (hpush : pushStringArray val ruleIdx field cb out = .ok out') :
    AllWellFormed R out' := by
  unfold pushStringArray at hpush
  split at hpush
  · apply h.foldlM _ hpush
    intro out item out' hout hitem
    split at hitem
    · exact hcb hout hitem
    · cases hitem
  · exact hcb h hpush
  · cases hpush

theorem pushDomain_wellFormed {s : String} {ty : EntryType} (hty : ty.isDomain = true)
    {out : List RuleEntry} (h : AllWellFormed R out) : AllWellFormed R (pushDomain s ty out) := by
  unfold pushDomain
  dsimp only
  split
  · exact h
  · split
    · rename_i hdomain
      exact h.push (wellFormed_of_isDomain hty hdomain)
    · exact h

theorem pushStrPort_wellFormed {ruleIdx : Nat} {s : String} {out out' : List RuleEntry}
    (h : AllWellFormed R out) (hpush : pushStrPort ruleIdx s out = .ok out') :
    AllWellFormed R out' := by
  unfold pushStrPort at hpush
  dsimp only at hpush
  split at hpush
  · rw [← Except.ok.inj hpush]
    exact h
  · exact h.pushPort hpush

theorem pushNumberPort_wellFormed {asU64 : Option Nat} {error : DrsError}
    {out out' : List RuleEntry} (h : AllWellFormed R out)
    (hpush : pushNumberPort asU64 error out = .ok out') : AllWellFormed R out' := by
  unfold pushNumberPort at hpush
  split at hpush
  · split at hpush
    · rw [← Except.ok.inj hpush]
      exact h.push ⟨_, _, rfl, BitVec.le_refl _⟩
    · cases hpush
  · cases hpush

theorem parsePortValue_wellFormed {debug : JsonValue → String} {val : JsonValue} {ruleIdx : Nat}
    {out out' : List RuleEntry} (h : AllWellFormed R out)
    (hpush : parsePortValue debug val ruleIdx out = .ok out') : AllWellFormed R out' := by
  unfold parsePortValue at hpush
  split at hpush
  · apply h.foldlM _ hpush
    intro out v out' hout hitem
    unfold pushPortElement at hitem
    split at hitem
    · exact pushNumberPort_wellFormed hout hitem
    · exact pushStrPort_wellFormed hout hitem
    · cases hitem
  · exact pushStrPort_wellFormed h hpush
  · exact pushNumberPort_wellFormed h hpush
  · cases hpush

theorem parseField_wellFormed {debug : JsonValue → String} {ruleIdx : Nat}
    {field : String × JsonValue} {out out' : List RuleEntry} (h : AllWellFormed R out)
    (hpush : parseField T R debug ruleIdx out field = .ok out') : AllWellFormed R out' := by
  unfold parseField at hpush
  split at hpush
  · apply pushStringArray_wellFormed _ h hpush
    intro s out out' hout hcb
    rw [← Except.ok.inj hcb]
    exact pushDomain_wellFormed rfl hout
  · apply pushStringArray_wellFormed _ h hpush
    intro s out out' hout hcb
    rw [← Except.ok.inj hcb]
    exact pushDomain_wellFormed rfl hout
  · apply pushStringArray_wellFormed _ h hpush
    intro s out out' hout hcb
    rw [← Except.ok.inj hcb]
    split
    · exact hout
    · rename_i hne
      exact hout.push (wellFormed_keyword hne)
  · apply pushStringArray_wellFormed _ h hpush
    intro s out out' hout hcb
    rw [← Except.ok.inj hcb]
    split
    · rename_i hvalid
      obtain ⟨_, hcompiles⟩ := isOk_iff.mp hvalid
      exact hout.push hcompiles
    · exact hout
  · exact pushStringArray_wellFormed (fun hout hcb => hout.pushCidr hcb) h hpush
  · exact parsePortValue_wellFormed h hpush
  · rw [← Except.ok.inj hpush]
    exact h

theorem parseOneRule_wellFormed {debug : JsonValue → String} {rule : JsonValue × Nat}
    {out out' : List RuleEntry} (h : AllWellFormed R out)
    (hpush : parseOneRule T R debug out rule = .ok out') : AllWellFormed R out' := by
  unfold parseOneRule at hpush
  split at hpush
  · exact h.foldlM parseField_wellFormed hpush
  · cases hpush

theorem parse_wellFormed {debug : JsonValue → String} {fromStr : String → Except String JsonValue}
    {input : String} {entries : List RuleEntry} (h : parse T R debug fromStr input = .ok entries) :
    AllWellFormed R entries := by
  unfold parse at h
  split at h
  · cases h
  · unfold parseDoc at h
    split at h
    · exact AllWellFormed.nil.foldlM (fun hout hrule => parseOneRule_wellFormed hout hrule) h
    · split at h
      · exact parseOneRule_wellFormed AllWellFormed.nil h
      · cases h

end Singbox

/-! ### AdGuard -/

namespace Adguard

/-- The two types of an entry that is a pattern. -/
def patternType (isExclude : Bool) : EntryType :=
  if isExclude then .excludeDomainRegex else .domainRegex

theorem wellFormed_of_valid {pattern : String} (isExclude : Bool)
    (h : validateRegex R pattern = true) :
    (domainEntry pattern (patternType isExclude)).WellFormed R := by
  obtain ⟨_, hcompiles⟩ := isOk_iff.mp h
  cases isExclude <;> exact hcompiles

theorem wellFormed_of_domain {s : String} {ty : EntryType} (hty : ty.isDomain = true)
    (h : looksLikeDomain s = true) : (domainEntry (normalizeDomainStr s) ty).WellFormed R := by
  apply wellFormed_of_isDomain hty
  rwa [looksLikeDomain_toAsciiLowercase, trimEndDots_of_looksLikeDomain h]

theorem parseWildcardOrPlain_wellFormed {s : String} {ty : EntryType} {e : RuleEntry}
    (hty : ty.isDomain = true) (h : parseWildcardOrPlain R s ty = some e) : e.WellFormed R := by
  unfold parseWildcardOrPlain at h
  dsimp only at h
  split at h
  · cases h
  · split at h
    · split at h
      · cases h
      · rename_i hdomain
        rw [← Option.some.inj h]
        exact wellFormed_of_domain hty (by simpa using (not_or.mp hdomain).2)
    · split at h
      · rename_i rest hrest
        rw [← Option.some.inj h]
        apply wellFormed_of_domain hty
        unfold singlePrefix at hrest
        split at hrest
        · dsimp only at hrest
          split at hrest
          · rename_i hclean
            rw [← Option.some.inj hrest]
            exact hclean.2.2
          · cases hrest
        · cases hrest
      · split at h
        · rename_i hvalid
          rw [← Option.some.inj h]
          exact wellFormed_of_valid false hvalid
        · cases h

theorem parseRegexRule_wellFormed {isExclude : Bool} {rest : String} {e : RuleEntry}
    (h : parseRegexRule R isExclude rest = some e) : e.WellFormed R := by
  unfold parseRegexRule at h
  split at h
  · split at h
    · rename_i hvalid
      rw [← Option.some.inj h]
      exact wellFormed_of_valid isExclude hvalid.2
    · cases h
  · cases h

theorem parseSinglePipe_wellFormed {isExclude hasEnd : Bool} {rest : String} {e : RuleEntry}
    (h : parseSinglePipe R isExclude hasEnd rest = some e) : e.WellFormed R := by
  unfold parseSinglePipe at h
  dsimp only at h
  split at h
  · cases h
  · split at h
    · split at h
      · rename_i hdomain
        rw [← Option.some.inj h]
        exact wellFormed_of_domain (by cases isExclude <;> rfl) hdomain
      · cases h
    · split at h
      · rename_i hvalid
        rw [← Option.some.inj h]
        exact wellFormed_of_valid isExclude hvalid
      · cases h

theorem parseEndAnchored_wellFormed {isExclude : Bool} {ruleBody : String} {e : RuleEntry}
    (h : parseEndAnchored R isExclude ruleBody = some e) : e.WellFormed R := by
  unfold parseEndAnchored at h
  dsimp only at h
  split at h
  · cases h
  · split at h
    · split at h
      · rename_i hvalid
        rw [← Option.some.inj h]
        exact wellFormed_of_valid isExclude hvalid
      · cases h
    · split at h
      · split at h
        · rename_i hvalid
          rw [← Option.some.inj h]
          exact wellFormed_of_valid isExclude hvalid
        · cases h
      · cases h

theorem parseBody_wellFormed {isExclude : Bool} {ruleBody : String} {e : RuleEntry}
    (h : parseBody R isExclude ruleBody = some e) : e.WellFormed R := by
  have hty : (if isExclude then EntryType.excludeDomainSuffix else .domainSuffix).isDomain =
      true := by cases isExclude <;> rfl
  unfold parseBody at h
  dsimp only at h
  split at h
  · exact parseWildcardOrPlain_wellFormed hty h
  · split at h
    · exact parseSinglePipe_wellFormed h
    · split at h
      · exact parseEndAnchored_wellFormed h
      · exact parseWildcardOrPlain_wellFormed hty h

theorem tryParseHostsLine_wellFormed {s : String} {e : RuleEntry}
    (h : tryParseHostsLine T s = some (some e)) : e.WellFormed R := by
  unfold tryParseHostsLine at h
  split at h
  · split at h
    · cases h
    · dsimp only at h
      split at h
      · cases h
      · split at h
        · cases h
        · split at h
          · cases h
          · rename_i hdomain
            rw [← Option.some.inj (Option.some.inj h)]
            exact wellFormed_of_isDomain rfl (not_not.mp hdomain)
  · cases h

theorem parseRule_wellFormed {isExclude : Bool} {workingLine : String} {e : RuleEntry}
    (h : parseRule T R isExclude workingLine = .entry e) : e.WellFormed R := by
  unfold parseRule at h
  split at h
  · exact parseRegexRule_wellFormed (Parsed.eq_some_of_ofRule h)
  · dsimp only at h
    split at h
    · cases h
    · split at h
      · rename_i hhosts
        cases h
        exact tryParseHostsLine_wellFormed hhosts
      · cases h
      · exact parseBody_wellFormed (Parsed.eq_some_of_ofRule h)

theorem parseLine_wellFormed {line : String} {e : RuleEntry} (h : parseLine T R line = .entry e) :
    e.WellFormed R := by
  unfold parseLine at h
  split at h
  · cases h
  · split at h
    · cases h
    · split at h
      · rename_i hraw
        cases h
        unfold isRawDomainLine at hraw
        split at hraw
        · cases hraw
        · split at hraw
          · cases hraw
          · split at hraw
            · cases hraw
            · exact wellFormed_of_domain rfl (by rwa [looksLikeDomain_toAsciiLowercase] at hraw)
      · split at h
        · exact parseRule_wellFormed h
        · exact parseRule_wellFormed h

theorem parse_wellFormed (input : String) : AllWellFormed R (parse T R input).entries := by
  intro e he
  rw [parse, parseLines_entries] at he
  obtain ⟨raw, _, hline⟩ := List.mem_filterMap.mp he
  exact parseLine_wellFormed (lineEntry_eq_some.mp hline)

end Adguard

/-! ### Every parser -/

theorem length_le_of_looksLikeDomain {s : String} (h : looksLikeDomain s = true) :
    (octets s).length ≤ 253 := by
  unfold looksLikeDomain at h
  simp only [Bool.and_eq_true, decide_eq_true_eq] at h
  exact h.1.1.1.2

theorem RuleEntry.WellFormed.accepted {e : RuleEntry} (h : e.WellFormed R) : e.Accepted R := by
  obtain ⟨ty, domain, cidr, port⟩ := e
  cases ty with
  | domain | domainSuffix | excludeDomain | excludeDomainSuffix =>
      exact length_le_of_looksLikeDomain h.1
  | domainRegex | excludeDomainRegex => exact h
  | ipv4Cidr | ipv6Cidr =>
      obtain ⟨addr, bits, hcidr, _⟩ := h
      exact ⟨addr, bits, hcidr⟩
  | domainKeyword | port => trivial

def AllAccepted (R : RegexCrate) (out : List RuleEntry) : Prop := ∀ e ∈ out, e.Accepted R

theorem AllWellFormed.accepted {out : List RuleEntry} (h : AllWellFormed R out) :
    AllAccepted R out :=
  fun e he => (h e he).accepted

theorem EntryBuckets.push_of_accepted {e : RuleEntry} (h : e.Accepted R) (b : EntryBuckets) :
    ∃ b', b.push R e = .ok b' := by
  obtain ⟨ty, domain, cidr, port⟩ := e
  cases ty with
  | domainRegex | excludeDomainRegex =>
      have hcompiles : R.compiles domain = .ok () := h
      unfold EntryBuckets.push checkRegex
      simp only [hcompiles]
      exact ⟨_, rfl⟩
  | ipv4Cidr | ipv6Cidr =>
      obtain ⟨addr, bits, hcidr⟩ := h
      dsimp only at hcidr
      rw [hcidr]
      exact ⟨_, rfl⟩
  | port => cases port <;> exact ⟨_, rfl⟩
  | _ => exact ⟨_, rfl⟩

/-- What one of the parsers makes of a text that it accepts. -/
inductive ParserOutput (T : NetText) (R : RegexCrate) : List RuleEntry → Prop where
  | adguard (input : String) : ParserOutput T R (Adguard.parse T R input).entries
  | mihomo {fromStr : String → Except String YamlValue} {input : String}
      {behavior : Mihomo.Behavior} {entries : List RuleEntry} :
      Mihomo.parseWithBehavior T R fromStr input behavior = .ok entries →
        ParserOutput T R entries
  | singbox {debug : JsonValue → String} {fromStr : String → Except String JsonValue}
      {input : String} {entries : List RuleEntry} :
      Singbox.parse T R debug fromStr input = .ok entries → ParserOutput T R entries

/-- Every entry of a parser is in the form of its type, and the buckets take it. -/
theorem ParserOutput.wellFormed {entries : List RuleEntry} (h : ParserOutput T R entries) :
    ∀ e ∈ entries, e.WellFormed R ∧ ∀ b : EntryBuckets, ∃ b', b.push R e = .ok b' := by
  have hall : AllWellFormed R entries := by
    cases h with
    | adguard input => exact Adguard.parse_wellFormed input
    | mihomo hparse => exact Mihomo.parseWithBehavior_wellFormed hparse
    | singbox hparse => exact Singbox.parse_wellFormed hparse
  intro e he
  exact ⟨hall e he, EntryBuckets.push_of_accepted (hall e he).accepted⟩

theorem ParserOutput.wellFormed_hosts_line :
    (domainEntry "ads.com" .domain).WellFormed literalRegex := by
  have hall := ParserOutput.wellFormed
    (ParserOutput.adguard (T := Adguard.zeroAddressText) (R := literalRegex) "0.0.0.0 Ads.com")
  exact (hall _ (List.mem_singleton_self _)).1

end Relay.Ruleset
