import Relay.Ruleset.Builds
import Relay.Ruleset.Fingerprint

/-!
`build_from_files` with its files: the inputs as they are read, and the output
from before the call to after it. The output is opened, and so emptied, once
the buckets are full, and before the sections are built.
-/

namespace Relay.Ruleset

open Binary Dns Text

/-- What a build meets outside. -/
structure BuildEnv where
  /-- What `read_to_string` of an input results in, and what the read for the
  fingerprint does. -/
  readText : String → Except String String
  readBytes : String → Except String Bytes
  sha256 : Bytes → Vector UInt8 32
  /-- `File::create(output_path)`, which empties the file or fails. -/
  create : Except String Unit
  /-- How many bytes the file takes before a write fails, if one does. -/
  room : Option (Nat × String)
  now : BitVec 64

variable (T : NetText) (R : RegexCrate) (S : SerdeCrates) (F : FstCrate)

/-- One turn of the loop over the inputs. -/
def readInput (env : BuildEnv) (b : EntryBuckets) (input : String × InputFormat) :
    Run DrsError EntryBuckets :=
  match env.readText input.1 with
  | .error e => fail (.io ("read " ++ input.1 ++ ": " ++ e))
  | .ok content => fillBuckets T R S b (input.2, content)

/-- The call up to where it opens the output. -/
def gatherInputs (env : BuildEnv) (inputs : List (String × InputFormat)) :
    Run DrsError (EntryBuckets × Vector UInt8 32) := do
  let b ← inputs.foldlM (readInput T R S env) {}
  let sourceHash ← (hashInputs env.sha256
    (inputs.map fun input => (input.1, env.readBytes input.1))).mapError .error
  .ok (b, sourceHash)

/-- `write_to` an empty file: its result, and what is in the file then. -/
def writeTo (env : BuildEnv) (b : EntryBuckets) (sourceHash : Vector UInt8 32) :
    Except DrsError BuildStats × Bytes :=
  match writeV2 F env.now b sourceHash with
  | .error e => (.error e, [])
  | .ok (bytes, stats) =>
      match env.room with
      | none => (.ok stats, bytes)
      | some (room, e) =>
          if bytes.length ≤ room then (.ok stats, bytes) else (.error (.io e), bytes.take room)

/-- `build_from_files`: its result, and the output file after it. -/
def buildOutput (env : BuildEnv) (inputs : List (String × InputFormat)) (output : Option Bytes) :
    Run DrsError BuildStats × Option Bytes :=
  match gatherInputs T R S env inputs with
  | .error e => (.error e, output)
  | .ok (b, sourceHash) =>
      match env.create with
      | .error e => (fail (.io e), output)
      | .ok () =>
          let (result, written) := writeTo F env b sourceHash
          (result.mapError .error, some written)

/-- Every input can be read, parsed and read again, and the output opened. -/
structure Opens (env : BuildEnv) (inputs : List (String × InputFormat)) : Prop where
  parsed : ∀ input ∈ inputs, ∃ content entries, env.readText input.1 = .ok content ∧
    parseInput T R S (input.2, content) = .ok entries
  reread : ∀ input ∈ inputs, ∃ data, env.readBytes input.1 = .ok data
  created : env.create = .ok ()

variable {T R S F}

/-! ### Up to the output -/

/-- A fold goes through when its step does from every state. -/
theorem foldlM_isOk {α σ ε : Type} {step : σ → α → Except ε σ} {xs : List α}
    (h : ∀ x ∈ xs, ∀ s, ∃ s', step s x = .ok s') (s : σ) : ∃ s', xs.foldlM step s = .ok s' := by
  induction xs generalizing s with
  | nil => exact ⟨s, rfl⟩
  | cons x xs ih =>
      obtain ⟨next, hnext⟩ := h x List.mem_cons_self s
      obtain ⟨s', hs'⟩ := ih (fun y hy => h y (List.mem_cons_of_mem x hy)) next
      exact ⟨s', by rw [List.foldlM_cons, run_bind_eq_ok]; exact ⟨next, hnext, hs'⟩⟩

/-- What is read and parsed goes into the buckets. -/
theorem readInput_isOk {env : BuildEnv} {b : EntryBuckets} {input : String × InputFormat} :
    (∃ b', readInput T R S env b input = .ok b') ↔
      ∃ content entries, env.readText input.1 = .ok content ∧
        parseInput T R S (input.2, content) = .ok entries := by
  unfold readInput
  constructor
  · rintro ⟨b', h⟩
    split at h
    · cases h
    · rename_i content hcontent
      obtain ⟨entries, hentries, _⟩ := run_bind_eq_ok.mp h
      exact ⟨content, entries, hcontent, hentries⟩
  · rintro ⟨content, entries, hcontent, hentries⟩
    obtain ⟨b', hb', _⟩ := pushEntries_ok (parseInput_accepted hentries) b
    refine ⟨b', ?_⟩
    rw [hcontent]
    exact run_bind_eq_ok.mpr ⟨entries, hentries, hb'⟩

theorem hashInputs_isOk {sha256 : Bytes → Vector UInt8 32}
    {files : List (String × Except String Bytes)} :
    (∃ hash, hashInputs sha256 files = .ok hash) ↔ ∀ file ∈ files, ∃ data, file.2 = .ok data := by
  have hread : (∃ read, files.mapM readFile = .ok read) ↔
      ∀ file ∈ files, ∃ data, file.2 = .ok data := by
    induction files with
    | nil => simp [pure, Except.pure]
    | cons file files ih =>
        rw [List.forall_mem_cons, ← ih, List.mapM_cons]
        constructor
        · rintro ⟨read, h⟩
          obtain ⟨first, hfirst, h⟩ := run_bind_eq_ok.mp h
          obtain ⟨rest, hrest, _⟩ := run_bind_eq_ok.mp h
          refine ⟨?_, rest, hrest⟩
          unfold readFile at hfirst
          split at hfirst
          · rename_i data hdata
            exact ⟨data, hdata⟩
          · cases hfirst
        · rintro ⟨⟨data, hdata⟩, rest, hrest⟩
          refine ⟨(file.1, data) :: rest, ?_⟩
          rw [hrest, readFile, hdata]
          rfl
  rw [← hread]
  constructor
  · rintro ⟨hash, h⟩
    obtain ⟨read, hfiles, _⟩ := run_bind_eq_ok.mp h
    exact ⟨read, hfiles⟩
  · rintro ⟨read, hfiles⟩
    exact ⟨sha256 (hashedFiles read), by rw [hashInputs, hfiles]; rfl⟩

theorem mapError_isOk {α ε ε' : Type} {f : ε → ε'} {x : Except ε α} :
    (∃ a, x.mapError f = .ok a) ↔ ∃ a, x = .ok a := by
  cases x <;> simp [Except.mapError]

/-- The call comes to open its output when all inputs are read and parsed. -/
theorem gatherInputs_isOk {env : BuildEnv} {inputs : List (String × InputFormat)} :
    (∃ out, gatherInputs T R S env inputs = .ok out) ↔
      (∀ input ∈ inputs, ∃ content entries, env.readText input.1 = .ok content ∧
        parseInput T R S (input.2, content) = .ok entries) ∧
      ∀ input ∈ inputs, ∃ data, env.readBytes input.1 = .ok data := by
  have hhash : (∃ hash, (hashInputs env.sha256 (inputs.map fun input =>
      (input.1, env.readBytes input.1))).mapError Fault.error = .ok hash) ↔
        ∀ input ∈ inputs, ∃ data, env.readBytes input.1 = .ok data := by
    rw [mapError_isOk, hashInputs_isOk, List.forall_mem_map]
  rw [← hhash]
  constructor
  · rintro ⟨out, h⟩
    obtain ⟨b, hfill, h⟩ := run_bind_eq_ok.mp h
    obtain ⟨hash, hhash, _⟩ := run_bind_eq_ok.mp h
    refine ⟨?_, hash, hhash⟩
    intro input hinput
    obtain ⟨before, after, hstep⟩ := foldlM_eq_ok_mem hfill hinput
    exact readInput_isOk.mp ⟨after, hstep⟩
  · rintro ⟨hparsed, hash, hhash⟩
    obtain ⟨b, hb⟩ := foldlM_isOk
      (fun input hinput s => readInput_isOk.mpr (hparsed input hinput)) {}
    exact ⟨(b, hash), by rw [gatherInputs, hb, run_ok_bind, hhash]; rfl⟩

/-! ### The output -/

/-- What a build leaves of the output: the file as it was, when it does not
come to open it, or something that does not depend on what was there. Its
result never does. -/
theorem buildOutput_cases (env : BuildEnv) (inputs : List (String × InputFormat)) :
    ∃ result, (¬ Opens T R S env inputs ∧
        ∀ output, buildOutput T R S F env inputs output = (result, output)) ∨
      Opens T R S env inputs ∧
        ∃ written, ∀ output, buildOutput T R S F env inputs output = (result, some written) := by
  unfold buildOutput
  cases hgather : gatherInputs T R S env inputs with
  | error e =>
      refine ⟨_, Or.inl ⟨?_, fun output => rfl⟩⟩
      intro hopens
      obtain ⟨out, hout⟩ := gatherInputs_isOk.mpr ⟨hopens.parsed, hopens.reread⟩
      rw [hgather] at hout
      cases hout
  | ok gathered =>
      obtain ⟨b, sourceHash⟩ := gathered
      obtain ⟨hparsed, hreread⟩ := gatherInputs_isOk.mp ⟨_, hgather⟩
      cases hcreate : env.create with
      | error e =>
          refine ⟨_, Or.inl ⟨?_, fun output => rfl⟩⟩
          intro hopens
          rw [hopens.created] at hcreate
          cases hcreate
      | ok _ => exact ⟨_, Or.inr ⟨⟨hparsed, hreread, hcreate⟩, _, fun output => rfl⟩⟩

/-- A build that returns an error keeps the output file, whatever is in it,
exactly when it does not come to open it. -/
theorem failed_build_keeps_iff {env : BuildEnv} {inputs : List (String × InputFormat)}
    (hfails : ∃ content e, (buildOutput T R S F env inputs (some content)).1 = .error (.error e)) :
    (∀ content e, (buildOutput T R S F env inputs (some content)).1 = .error (.error e) →
      (buildOutput T R S F env inputs (some content)).2 = some content) ↔
        ¬ Opens T R S env inputs := by
  obtain ⟨before, e, hbefore⟩ := hfails
  obtain ⟨result, ⟨hcloses, hkeeps⟩ | ⟨hopens, written, hwritten⟩⟩ :=
    buildOutput_cases (F := F) env inputs
  · refine iff_of_true ?_ hcloses
    intro content e' _
    rw [hkeeps]
  · refine iff_of_false ?_ (not_not_intro hopens)
    intro hkeeps
    rw [hwritten] at hbefore
    have hfile : ∀ content, written = content := by
      intro content
      have hkept := hkeeps content e (by rw [hwritten]; exact hbefore)
      rw [hwritten] at hkept
      exact Option.some.inj hkept
    have hdifferent := (hfile []).symm.trans (hfile [0])
    cases hdifferent

/-! ### A build that fails too late -/

/-- One input, which can be read twice, and a disk with room. -/
def oneInput (content : String) : BuildEnv where
  readText _ := .ok content
  readBytes _ := .ok (octets content)
  sha256 _ := Vector.replicate 32 0
  create := .ok ()
  room := none
  now := 7

/-- The input is gone. -/
def noInput : BuildEnv :=
  { oneInput "" with readText := fun _ => .error "No such file or directory (os error 2)" }

theorem missing_input_keeps_output :
    (buildOutput Adguard.zeroAddressText literalRegex noDocuments listFst noInput
      [("ads.txt", .adguard)] (some [0])).2 = some [0] := by
  have hcloses : ¬ Opens Adguard.zeroAddressText literalRegex noDocuments noInput
      [("ads.txt", .adguard)] := by
    intro hopens
    obtain ⟨content, _, hcontent, _⟩ := hopens.parsed _ List.mem_cons_self
    cases hcontent
  exact (failed_build_keeps_iff ⟨[], _, rfl⟩).mpr hcloses [0] _ rfl

/-- When the writer gives up, the output has been emptied already. -/
theorem buildOutput_of_write_error {env : BuildEnv} {inputs : List (String × InputFormat)}
    {output : Option Bytes} {b : EntryBuckets} {sourceHash : Vector UInt8 32} {e : DrsError}
    (hgather : gatherInputs T R S env inputs = .ok (b, sourceHash)) (hcreate : env.create = .ok ())
    (hwrite : writeV2 F env.now b sourceHash = .error e) :
    buildOutput T R S F env inputs output = (.error (.error e), some []) := by
  unfold buildOutput writeTo
  simp only [hgather, hcreate, hwrite]
  rfl

/-- The suffix rule that is too long for the writer is found once the output
has been emptied. -/
theorem full_suffix_empties_output :
    ¬ ∀ (T : NetText) (R : RegexCrate) (S : SerdeCrates) (F : FstCrate) (env : BuildEnv)
      (inputs : List (String × InputFormat)) (content : Bytes) (e : DrsError),
      (buildOutput T R S F env inputs (some content)).1 = .error (.error e) →
        (buildOutput T R S F env inputs (some content)).2 = some content := by
  intro h
  have hgather : gatherInputs Adguard.zeroAddressText literalRegex noDocuments
      (oneInput fullNameRule) [("ads.txt", .adguard)] =
        .ok ({ suffixes := [toAsciiLowercase (trimEndDots fullName)] }, Vector.replicate 32 0) := by
    have hread : [("ads.txt", InputFormat.adguard)].foldlM (readInput Adguard.zeroAddressText
        literalRegex noDocuments (oneInput fullNameRule)) {} =
          .ok { suffixes := [toAsciiLowercase (trimEndDots fullName)] } := by
      rw [List.foldlM_cons]
      exact run_bind_eq_ok.mpr ⟨_, fullNameRule_fills, rfl⟩
    rw [gatherInputs, hread]
    rfl
  obtain ⟨e, hwrite⟩ := fullNameRule_not_written 7 (Vector.replicate 32 0)
  have hbuild : buildOutput Adguard.zeroAddressText literalRegex noDocuments listFst
      (oneInput fullNameRule) [("ads.txt", .adguard)] (some [0]) = (.error (.error e), some []) :=
    buildOutput_of_write_error hgather rfl hwrite
  have hkept := h _ _ _ _ _ _ _ e (congrArg Prod.fst hbuild)
  rw [hbuild] at hkept
  cases hkept

end Relay.Ruleset
