import Relay.Binary.Total
import Relay.Ruleset.Accepted

/-!
Building a ruleset from the texts of its inputs. What the parsers accept goes
into the buckets without an error, and the writer refuses one thing of it: a
suffix whose domain has all the bytes that a domain may have, because its key
has one more.
-/

namespace Relay.Ruleset

open Binary Dns Text

/-! ### The build -/

inductive InputFormat where
  | mihomo
  | adguard
  | singbox
  deriving DecidableEq, Repr

/-- `serde_yaml::from_str`, `serde_json::from_str` and `{:?}` of a JSON value. -/
structure SerdeCrates where
  yaml : String → Except String YamlValue
  json : String → Except String JsonValue
  debug : JsonValue → String

/-- The errors of `push` are those of the module. -/
def PushError.toDrs : PushError → DrsError
  | .invalidRegex pattern err => .invalidRegex pattern err
  | .other message => .other message

variable (T : NetText) (R : RegexCrate) (S : SerdeCrates) (F : FstCrate)

/-- The parser of the input's format, on its content. -/
def parseInput (input : InputFormat × String) : Run DrsError (List RuleEntry) :=
  match input.1 with
  | .mihomo => Mihomo.parse T R S.yaml input.2
  | .adguard => .ok (Adguard.parse T R input.2).entries
  | .singbox => Singbox.parse T R S.debug S.json input.2

/-- `buckets.push(entry)?`. -/
def pushEntry (b : EntryBuckets) (entry : RuleEntry) : Run DrsError EntryBuckets :=
  (b.push R entry).mapError fun e => .error e.toDrs

/-- One turn of the loop of `build_from_files`. -/
def fillBuckets (b : EntryBuckets) (input : InputFormat × String) : Run DrsError EntryBuckets := do
  let entries ← parseInput T R S input
  entries.foldlM (pushEntry R) b

/-- `build_from_files`, on the contents of the files it reads and a writer that
takes every byte. -/
def buildFromFiles (now : BitVec 64) (sourceHash : Vector UInt8 32)
    (inputs : List (InputFormat × String)) : Run DrsError (Bytes × BuildStats) := do
  let b ← inputs.foldlM (fillBuckets T R S) {}
  (writeV2 F now b sourceHash).mapError .error

/-- A builder takes keys in strictly increasing order and writes them to
memory without an error, as long as they are no longer than a domain. -/
structure FstCrate.Builds (F : FstCrate) : Prop where
  builds : ∀ keys : List Bytes, keys.Pairwise (· < ·) → (∀ key ∈ keys, key.length ≤ 253) →
    ∃ builder bytes, keys.foldlM F.insert F.memory = .ok builder ∧ F.intoInner builder = .ok bytes

/-- The key of a suffix fits when its domain leaves a byte for the final dot. -/
def RuleEntry.FitsKey (e : RuleEntry) : Prop :=
  e.ruleType = .domainSuffix ∨ e.ruleType = .excludeDomainSuffix → (octets e.domain).length < 253

variable {T R S F}

/-! ### When the writer succeeds -/

theorem suffixToFstKey_length (s : String) : (suffixToFstKey s).length = (octets s).length + 1 := by
  have hcount : ∀ labels : List Bytes, (terminated dot labels).length =
      (labels.map fun label => label.length + 1).sum := by
    intro labels
    simp [terminated, List.length_flatMap]
  obtain ⟨head, tail, hsplit⟩ := List.exists_cons_of_ne_nil
    (List.splitOn_ne_nil dot (octets s))
  have hforward : terminated dot (labelsOf s) = octets s ++ [dot] := by
    rw [labelsOf, hsplit, ← intercalate_terminated, ← hsplit, List.intercalate_splitOn]
  rw [suffixToFstKey_eq, hcount, List.map_reverse, List.sum_reverse, ← hcount, hforward,
    List.length_append, List.length_singleton]

private theorem validateDomainLen_eq_ok {key : Bytes} :
    validateDomainLen key = .ok () ↔ key.length ≤ 253 := by
  unfold validateDomainLen
  split
  · rename_i hlong
    constructor
    · intro h
      cases h
    · intro h
      omega
  · rename_i hfits
    exact ⟨fun _ => Nat.le_of_not_lt hfits, fun _ => rfl⟩

private theorem insertKey_of_fits {keys : List Bytes} (hkeys : ∀ key ∈ keys, key.length ≤ 253)
    {builder result : F.Builder} (h : keys.foldlM F.insert builder = .ok result) :
    keys.foldlM (insertKey F) builder = .ok result := by
  induction keys generalizing builder with
  | nil =>
      cases h
      rfl
  | cons key keys ih =>
      rw [List.foldlM_cons] at h ⊢
      obtain ⟨next, hnext, hrest⟩ := run_bind_eq_ok.mp h
      have hvalid := validateDomainLen_eq_ok.mpr (hkeys key List.mem_cons_self)
      have hinsert : insertKey F builder key = .ok next := by
        simp only [insertKey, hvalid, hnext, Except.mapError, bind, Except.bind]
      rw [run_bind_eq_ok]
      exact ⟨next, hinsert, ih (fun k hk => hkeys k (List.mem_cons_of_mem key hk)) hrest⟩

/-- A set section is built exactly from keys that are no longer than a domain. -/
theorem buildSetFst_isOk (hF : F.Builds) {keys : List Bytes} :
    (∃ out, buildSetFst F keys = .ok out) ↔ ∀ key ∈ keys, key.length ≤ 253 := by
  constructor
  · rintro ⟨out, h⟩ key hkey
    unfold buildSetFst at h
    split at h
    · rename_i hempty
      rw [List.isEmpty_iff.mp hempty] at hkey
      cases hkey
    · dsimp only at h
      obtain ⟨builder, hbuilder, _⟩ := run_bind_eq_ok.mp h
      obtain ⟨before, after, hinsert⟩ := foldlM_eq_ok_mem hbuilder (mem_sortedKeys.mpr hkey)
      obtain ⟨_, hvalid, _⟩ := run_bind_eq_ok.mp hinsert
      exact validateDomainLen_eq_ok.mp hvalid
  · intro hkeys
    have hsorted : ∀ key ∈ sortedKeys keys, key.length ≤ 253 :=
      fun key hkey => hkeys key (mem_sortedKeys.mp hkey)
    obtain ⟨builder, bytes, hbuilder, hbytes⟩ :=
      hF.builds (sortedKeys keys) (sortedKeys_pairwise keys) hsorted
    unfold buildSetFst
    split
    · exact ⟨_, rfl⟩
    · dsimp only
      rw [insertKey_of_fits hsorted hbuilder]
      simp only [hbytes, Except.mapError, bind, Except.bind]
      exact ⟨_, rfl⟩

theorem writeV2_isOk (hF : F.Builds) {now : BitVec 64} {b : EntryBuckets}
    {sourceHash : Vector UInt8 32} :
    (∃ out, writeV2 F now b sourceHash = .ok out) ↔
      ((∀ s ∈ b.domains, (octets s).length ≤ 253) ∧ ∀ s ∈ b.suffixes, (octets s).length < 253) ∧
      (∀ s ∈ b.excludeDomains, (octets s).length ≤ 253) ∧
        ∀ s ∈ b.excludeSuffixes, (octets s).length < 253 := by
  have hdomains : ∀ xs : List String, (∃ out, buildSetFst F (xs.map octets) = .ok out) ↔
      ∀ s ∈ xs, (octets s).length ≤ 253 := by
    intro xs
    rw [buildSetFst_isOk hF, List.forall_mem_map]
  have hsuffixes : ∀ xs : List String, (∃ out, buildSetFst F (xs.map suffixToFstKey) = .ok out) ↔
      ∀ s ∈ xs, (octets s).length < 253 := by
    intro xs
    rw [buildSetFst_isOk hF, List.forall_mem_map]
    simp only [suffixToFstKey_length]
    exact Iff.rfl
  rw [← hdomains, ← hsuffixes, ← hdomains, ← hsuffixes]
  constructor
  · rintro ⟨out, h⟩
    obtain ⟨sections, hsections, _⟩ := run_bind_eq_ok.mp h
    obtain ⟨dom, suf, exDom, exSuf, hdom, hsuf, hexDom, hexSuf, _⟩ :=
      buildSections_eq_ok.mp hsections
    exact ⟨⟨⟨dom, hdom⟩, suf, hsuf⟩, ⟨exDom, hexDom⟩, exSuf, hexSuf⟩
  · rintro ⟨⟨⟨dom, hdom⟩, suf, hsuf⟩, ⟨exDom, hexDom⟩, exSuf, hexSuf⟩
    have hsections : buildSections F b = .ok (listedSections b dom suf exDom exSuf) :=
      buildSections_eq_ok.mpr ⟨dom, suf, exDom, exSuf, hdom, hsuf, hexDom, hexSuf, rfl⟩
    unfold writeV2
    rw [hsections]
    exact ⟨_, rfl⟩

/-! ### Filling the buckets -/

private theorem named_append (xs ys : List RuleEntry) (ty : EntryType) :
    named (xs ++ ys) ty = named xs ty ++ named ys ty := by
  simp [named]

/-- Accepted entries are pushed without an error, each string to the bucket of
its type. -/
theorem pushEntries_ok {entries : List RuleEntry} (h : AllAccepted R entries) (b : EntryBuckets) :
    ∃ b', entries.foldlM (pushEntry R) b = .ok b' ∧
      ∀ ty, ty.isNamed → b'.strings ty = b.strings ty ++ named entries ty := by
  induction entries generalizing b with
  | nil => exact ⟨b, rfl, fun ty _ => by simp [named]⟩
  | cons e entries ih =>
      obtain ⟨next, hnext⟩ := b.push_of_accepted (h e List.mem_cons_self)
      obtain ⟨b', hb', hstrings⟩ := ih (fun e' he' => h e' (List.mem_cons_of_mem e he')) next
      refine ⟨b', ?_, ?_⟩
      · rw [List.foldlM_cons, run_bind_eq_ok]
        exact ⟨next, by rw [pushEntry, hnext]; rfl, hb'⟩
      · intro ty hnamed
        rw [hstrings ty hnamed, EntryBuckets.push_strings hnext hnamed, List.append_assoc,
          ← named_append, List.singleton_append]

theorem parseInput_accepted {input : InputFormat × String} {entries : List RuleEntry}
    (h : parseInput T R S input = .ok entries) : AllAccepted R entries := by
  unfold parseInput at h
  split at h
  · exact (Mihomo.parseWithBehavior_wellFormed h).accepted
  · rw [← Except.ok.inj h]
    exact (Adguard.parse_wellFormed input.2).accepted
  · exact (Singbox.parse_wellFormed h).accepted

variable (T R S) in
/-- The entries of all inputs, in order. -/
def entriesOf (inputs : List (InputFormat × String)) : List RuleEntry :=
  inputs.flatMap fun input => (parseInput T R S input).toOption.getD []

theorem fillBuckets_ok {inputs : List (InputFormat × String)}
    (hparse : ∀ input ∈ inputs, ∃ entries, parseInput T R S input = .ok entries)
    (b : EntryBuckets) : ∃ b', inputs.foldlM (fillBuckets T R S) b = .ok b' ∧
      ∀ ty, ty.isNamed → b'.strings ty = b.strings ty ++ named (entriesOf T R S inputs) ty := by
  induction inputs generalizing b with
  | nil => exact ⟨b, rfl, fun ty _ => by simp [entriesOf, named]⟩
  | cons input inputs ih =>
      obtain ⟨entries, hentries⟩ := hparse input List.mem_cons_self
      obtain ⟨next, hnext, hpushed⟩ := pushEntries_ok (parseInput_accepted hentries) b
      obtain ⟨b', hb', hstrings⟩ := ih (fun i hi => hparse i (List.mem_cons_of_mem input hi)) next
      refine ⟨b', ?_, ?_⟩
      · rw [List.foldlM_cons, run_bind_eq_ok]
        exact ⟨next, by rw [fillBuckets, hentries, run_ok_bind, hnext], hb'⟩
      · intro ty hnamed
        have hall : entriesOf T R S (input :: inputs) = entries ++ entriesOf T R S inputs := by
          rw [entriesOf, List.flatMap_cons, hentries]
          rfl
        rw [hstrings ty hnamed, hpushed ty hnamed, hall, named_append, List.append_assoc]

private theorem forall_named {entries : List RuleEntry} {ty : EntryType} {p : String → Prop} :
    (∀ s ∈ named entries ty, p s) ↔ ∀ e ∈ entries, e.ruleType = ty → p e.domain := by
  simp only [named, List.forall_mem_map, List.mem_filter, decide_eq_true_eq, and_imp]

/-- Everything the parsers accept is built, exactly when the key of every
suffix among it fits. -/
theorem builds_iff (hF : F.Builds) {inputs : List (InputFormat × String)}
    (hparse : ∀ input ∈ inputs, ∃ entries, parseInput T R S input = .ok entries)
    (now : BitVec 64) (sourceHash : Vector UInt8 32) :
    (∃ file stats, buildFromFiles T R S F now sourceHash inputs = .ok (file, stats)) ↔
      ∀ input ∈ inputs, ∀ entries, parseInput T R S input = .ok entries →
        ∀ e ∈ entries, e.FitsKey := by
  obtain ⟨b, hb, hstrings⟩ := fillBuckets_ok hparse {}
  have hwrite : (∃ file stats, buildFromFiles T R S F now sourceHash inputs = .ok (file, stats)) ↔
      ∃ out, writeV2 F now b sourceHash = .ok out := by
    rw [buildFromFiles, hb, run_ok_bind]
    cases writeV2 F now b sourceHash with
    | error e => simp [Except.mapError]
    | ok out =>
        obtain ⟨file, stats⟩ := out
        simp [Except.mapError]
  have hdomains : b.domains = named (entriesOf T R S inputs) .domain := hstrings .domain rfl
  have hsuffixes : b.suffixes = named (entriesOf T R S inputs) .domainSuffix :=
    hstrings .domainSuffix rfl
  have hexDomains : b.excludeDomains = named (entriesOf T R S inputs) .excludeDomain :=
    hstrings .excludeDomain rfl
  have hexSuffixes : b.excludeSuffixes = named (entriesOf T R S inputs) .excludeDomainSuffix :=
    hstrings .excludeDomainSuffix rfl
  have hmem : ∀ e, e ∈ entriesOf T R S inputs ↔
      ∃ input ∈ inputs, ∃ entries, parseInput T R S input = .ok entries ∧ e ∈ entries := by
    intro e
    rw [entriesOf, List.mem_flatMap]
    constructor
    · rintro ⟨input, hinput, he⟩
      obtain ⟨entries, hentries⟩ := hparse input hinput
      rw [hentries] at he
      exact ⟨input, hinput, entries, hentries, he⟩
    · rintro ⟨input, hinput, entries, hentries, he⟩
      refine ⟨input, hinput, ?_⟩
      rw [hentries]
      exact he
  have haccepted : ∀ e ∈ entriesOf T R S inputs, e.Accepted R := by
    intro e he
    obtain ⟨input, _, entries, hentries, he⟩ := (hmem e).mp he
    exact parseInput_accepted hentries e he
  rw [hwrite, writeV2_isOk hF, hdomains, hsuffixes, hexDomains, hexSuffixes, forall_named,
    forall_named, forall_named, forall_named]
  constructor
  · rintro ⟨⟨_, hsuffix⟩, _, hexSuffix⟩ input hinput entries hentries e he
    have hin := (hmem e).mpr ⟨input, hinput, entries, hentries, he⟩
    rintro (hty | hty)
    · exact hsuffix e hin hty
    · exact hexSuffix e hin hty
  · intro hfits
    have hfits' : ∀ e ∈ entriesOf T R S inputs, e.FitsKey := by
      intro e he
      obtain ⟨input, hinput, entries, hentries, he⟩ := (hmem e).mp he
      exact hfits input hinput entries hentries e he
    have hdomain : ∀ e ∈ entriesOf T R S inputs, ∀ ty : EntryType, ty = .domain ∨ ty = .excludeDomain →
        e.ruleType = ty → (octets e.domain).length ≤ 253 := by
      intro e he ty hty heq
      have hacc := haccepted e he
      unfold RuleEntry.Accepted at hacc
      rw [heq] at hacc
      rcases hty with rfl | rfl <;> exact hacc
    exact ⟨⟨fun e he => hdomain e he .domain (Or.inl rfl),
        fun e he hty => hfits' e he (Or.inl hty)⟩,
      fun e he => hdomain e he .excludeDomain (Or.inr rfl),
      fun e he hty => hfits' e he (Or.inr hty)⟩

private theorem insertListKey_builds {keys : List Bytes} (hsorted : keys.Pairwise (· < ·))
    (hshort : ∀ key ∈ keys, key.length ≤ 253) {builder : List Bytes}
    (hlast : ∀ last ∈ builder.getLast?, ∀ key ∈ keys, last < key) :
    keys.foldlM insertListKey builder = .ok (builder ++ keys) := by
  induction keys generalizing builder with
  | nil =>
      rw [List.append_nil]
      rfl
  | cons key keys ih =>
      obtain ⟨hlater, hrest⟩ := List.pairwise_cons.mp hsorted
      have hkey := hshort key List.mem_cons_self
      have hinsert : insertListKey builder key = .ok (builder ++ [key]) := by
        rw [insertListKey, if_pos (by omega)]
        cases hend : builder.getLast? with
        | none => rfl
        | some last => exact if_pos (hlast last hend key List.mem_cons_self)
      rw [List.foldlM_cons, run_bind_eq_ok]
      refine ⟨builder ++ [key], hinsert, ?_⟩
      rw [ih hrest (fun k hk => hshort k (List.mem_cons_of_mem key hk)) ?_, List.append_assoc,
        List.singleton_append]
      intro last hend
      rw [List.getLast?_concat, Option.mem_some_iff] at hend
      rw [← hend]
      exact hlater

theorem listFst_builds : listFst.Builds where
  builds keys hsorted hshort := by
    have hnone : ∀ last ∈ ([] : List Bytes).getLast?, ∀ key ∈ keys, last < key := by simp
    exact ⟨keys, _, insertListKey_builds hsorted hshort hnone, rfl⟩

/-- Crates that read no document: the samples are AdGuard lists. -/
def noDocuments : SerdeCrates where
  yaml _ := .error "no document"
  json _ := .error "no document"
  debug _ := ""

theorem builds_iff_short :
    ∃ file stats, buildFromFiles Adguard.zeroAddressText literalRegex noDocuments listFst 7
      (Vector.replicate 32 0) [(.adguard, "||a.com^")] = .ok (file, stats) := by
  have hparse : ∀ input ∈ [(InputFormat.adguard, "||a.com^")], ∃ entries,
      parseInput Adguard.zeroAddressText literalRegex noDocuments input = .ok entries := by
    intro input hinput
    rw [List.mem_singleton.mp hinput]
    exact ⟨_, rfl⟩
  apply (builds_iff listFst_builds hparse 7 (Vector.replicate 32 0)).mpr
  intro input hinput entries hentries e he _
  rw [List.mem_singleton.mp hinput] at hentries
  have hentry : entries = [nameEntry "a.com" .domainSuffix] := by
    have hadguard := Adguard.parse_suffix (T := Adguard.zeroAddressText) (R := literalRegex)
      (show looksLikeDomain (trimEndDots "a.com") = true by decide)
    exact (Except.ok.inj hentries).symm.trans hadguard
  rw [hentry, List.mem_singleton] at he
  rw [he]
  decide

def letters (n : Nat) : List Char := List.replicate n 'a'

/-- A name of 253 bytes: three labels of 63 letters and one of 61. -/
def fullName : String :=
  String.ofList ('a' :: (letters 62 ++ '.' :: (letters 63 ++ '.' :: (letters 63 ++ '.' ::
    (letters 60 ++ ['a'])))))

private theorem letters_size (n : Nat) : ((letters n).map Char.utf8Size).sum = n := by
  rw [letters, List.map_replicate, List.sum_replicate, show Char.utf8Size 'a' = 1 from rfl,
    smul_eq_mul, Nat.mul_one]

private theorem letters_all (n : Nat) : (letters n).all isNameChar = true := by
  rw [letters, List.all_eq_true]
  intro c hc
  rw [List.eq_of_mem_replicate hc]
  rfl

private theorem fullName_length : (octets fullName).length = 253 := by
  rw [octets_length, fullName, String.toList_ofList]
  simp only [List.map_cons, List.map_append, List.map_nil, List.sum_cons, List.sum_append,
    List.sum_nil, letters_size]
  rfl

private theorem fullName_getLast? : fullName.toList.getLast? = some 'a' := by
  have hsplit : fullName.toList = ('a' :: (letters 62 ++ '.' :: (letters 63 ++ '.' ::
      (letters 63 ++ '.' :: letters 60)))) ++ ['a'] := by
    rw [fullName, String.toList_ofList]
    simp only [List.cons_append, List.append_assoc]
  rw [hsplit, List.getLast?_concat]

private theorem trimEndDots_fullName : trimEndDots fullName = fullName := by
  apply trimEndMatches_eq_self
  rw [fullName_getLast?]
  decide

private theorem looksLikeDomain_fullName : looksLikeDomain fullName = true := by
  have hne : fullName ≠ "" := by
    intro hempty
    have hlast := fullName_getLast?
    rw [hempty] at hlast
    cases hlast
  have hhead : fullName.toList.head? = some 'a' := by
    rw [fullName, String.toList_ofList]
    rfl
  have hall : fullName.toList.all (fun c => c.isAlphanum || c == '.' || c == '-') = true := by
    change fullName.toList.all isNameChar = true
    rw [fullName, String.toList_ofList]
    simp only [List.all_cons, List.all_append, List.all_nil, letters_all]
    rfl
  unfold looksLikeDomain
  rw [fullName_length, hhead, fullName_getLast?, hall]
  simp [hne]

/-- An AdGuard list of one rule, the suffix rule of such a name. -/
def fullNameRule : String := "||" ++ (fullName ++ "^")

theorem fullNameRule_fills :
    fillBuckets Adguard.zeroAddressText literalRegex noDocuments {} (.adguard, fullNameRule) =
      .ok { suffixes := [toAsciiLowercase (trimEndDots fullName)] } := by
  have hdomain : looksLikeDomain (trimEndDots fullName) = true := by
    rw [trimEndDots_fullName]
    exact looksLikeDomain_fullName
  have hentries : parseInput Adguard.zeroAddressText literalRegex noDocuments
      (.adguard, fullNameRule) = .ok [nameEntry fullName .domainSuffix] :=
    congrArg Except.ok (Adguard.parse_suffix hdomain)
  rw [fillBuckets, hentries]
  rfl

/-- Its key is too long for the writer. -/
theorem fullNameRule_not_written (now : BitVec 64) (sourceHash : Vector UInt8 32) :
    ∃ e, writeV2 listFst now { suffixes := [toAsciiLowercase (trimEndDots fullName)] } sourceHash =
      .error e := by
  cases hout : writeV2 listFst now { suffixes := [toAsciiLowercase (trimEndDots fullName)] }
      sourceHash with
  | error e => exact ⟨e, rfl⟩
  | ok out =>
      obtain ⟨⟨_, hsuffixes⟩, _⟩ := (writeV2_isOk listFst_builds).mp ⟨out, hout⟩
      have hshort := hsuffixes _ List.mem_cons_self
      rw [octets_length_toAsciiLowercase, trimEndDots_fullName, fullName_length] at hshort
      exact absurd hshort (Nat.lt_irrefl 253)

/-- The suffix rule of such a name ends the build. -/
theorem full_suffix_not_built :
    ¬ ∀ (T : NetText) (R : RegexCrate) (S : SerdeCrates) (F : FstCrate) (now : BitVec 64)
      (sourceHash : Vector UInt8 32) (inputs : List (InputFormat × String)),
      R.Lawful → F.Lawful → F.Builds →
      (∀ input ∈ inputs, ∃ entries, parseInput T R S input = .ok entries) →
      ∃ file stats, buildFromFiles T R S F now sourceHash inputs = .ok (file, stats) := by
  intro hclaim
  obtain ⟨entries, hentries, _⟩ := run_bind_eq_ok.mp fullNameRule_fills
  obtain ⟨file, stats, hbuild⟩ := hclaim Adguard.zeroAddressText literalRegex noDocuments listFst 7
    (Vector.replicate 32 0) [(.adguard, fullNameRule)] literalRegex_lawful
    listFst_lawful listFst_builds (by
      intro input hinput
      rw [List.mem_singleton.mp hinput]
      exact ⟨entries, hentries⟩)
  obtain ⟨e, hwrite⟩ := fullNameRule_not_written 7 (Vector.replicate 32 0)
  rw [buildFromFiles, List.foldlM_cons, fullNameRule_fills, run_ok_bind, List.foldlM_nil,
    run_pure_bind, hwrite] at hbuild
  cases hbuild

end Relay.Ruleset
