import Relay.Ruleset.Format
import Relay.Text.Plain
import Relay.Text.Utf8

/-!
`hash_inputs` of `ruleset/builder.rs`, the fingerprint of the inputs in the
header of a ruleset: what it feeds to SHA-256, and which inputs it can tell
apart.
-/

namespace Relay.Ruleset

open Binary Text

/-- What one file adds to the hash: its path and its content, each behind a
byte of its own. -/
def hashedFile (file : String × Bytes) : Bytes := octets file.1 ++ [0] ++ file.2 ++ [1]

def hashedFiles (files : List (String × Bytes)) : Bytes := files.flatMap hashedFile

/-- `std::fs::read(path)?`, given what the read of this path results in. -/
def readFile (file : String × Except String Bytes) : Except DrsError (String × Bytes) :=
  match file.2 with
  | .ok data => .ok (file.1, data)
  | .error e => .error (.io e)

/-- `hash_inputs`, over the paths and what their reads result in. -/
def hashInputs (sha256 : Bytes → Vector UInt8 32) (files : List (String × Except String Bytes)) :
    Except DrsError (Vector UInt8 32) := do
  let files ← files.mapM readFile
  return sha256 (hashedFiles files)

/-- What is hashed for files whose contents are text. -/
def hashedTexts (files : List (String × String)) : Bytes :=
  hashedFiles (files.map fun file => (file.1, octets file.2))

/-- A path without the character NUL. -/
def IsPath (path : String) : Prop := '\x00' ∉ path.toList

/-- Every other list of files with such paths is hashed as other bytes. -/
def Distinguished (files : List (String × String)) : Prop :=
  ∀ others, (∀ file ∈ others, IsPath file.1) → others ≠ files → hashedTexts others ≠ hashedTexts files

/-! ### The characters hashed -/

def hashedChars (files : List (String × String)) : List Char :=
  files.flatMap fun file => file.1.toList ++ '\x00' :: (file.2.toList ++ ['\x01'])

theorem hashedTexts_eq (files : List (String × String)) :
    hashedTexts files = octets (String.ofList (hashedChars files)) := by
  have hchars : ∀ s : String, octets s = s.toList.flatMap String.utf8EncodeChar := by
    intro s
    rw [← octets_ofList, String.ofList_toList]
  have hnul : String.utf8EncodeChar '\x00' = [0] := by decide
  have hsoh : String.utf8EncodeChar '\x01' = [1] := by decide
  rw [octets_ofList]
  induction files with
  | nil => rfl
  | cons file files ih =>
      rw [hashedTexts, List.map_cons, hashedFiles, List.flatMap_cons, hashedChars,
        List.flatMap_cons, List.flatMap_append]
      change _ ++ hashedTexts files = _ ++ (hashedChars files).flatMap String.utf8EncodeChar
      rw [ih]
      simp [hashedFile, hchars, hnul, hsoh]

theorem hashedTexts_inj {files others : List (String × String)} :
    hashedTexts others = hashedTexts files ↔ hashedChars others = hashedChars files := by
  rw [hashedTexts_eq, hashedTexts_eq, octets_inj, String.ofList_inj]

theorem hashedChars_cons (file : String × String) (files : List (String × String)) :
    hashedChars (file :: files) =
      file.1.toList ++ '\x00' :: (file.2.toList ++ '\x01' :: hashedChars files) := by
  simp [hashedChars]

/-- The bytes of some files end in the mark behind a content, and have the one
between path and content before it. -/
theorem hashedChars_ends {files : List (String × String)} (h : files ≠ []) :
    ∃ init, hashedChars files = init ++ ['\x01'] ∧ '\x00' ∈ init := by
  induction files with
  | nil => exact absurd rfl h
  | cons file files ih =>
      rw [hashedChars_cons]
      rcases eq_or_ne files [] with rfl | hne
      · exact ⟨file.1.toList ++ '\x00' :: file.2.toList, by simp [hashedChars], by simp⟩
      · obtain ⟨init, hinit, _⟩ := ih hne
        refine ⟨file.1.toList ++ '\x00' :: (file.2.toList ++ '\x01' :: init), ?_, by simp⟩
        rw [hinit]
        simp

/-- Two files in a row are hashed like one whose content has the other in it. -/
theorem hashedChars_merge (p q c d : String) (files : List (String × String)) :
    hashedChars ((p, c ++ "\x01" ++ q ++ "\x00" ++ d) :: files) =
      hashedChars ((p, c) :: (q, d) :: files) := by
  simp [hashedChars_cons]

/-- Files that are read as text are hashed as these bytes. -/
theorem hashInputs_texts (sha256 : Bytes → Vector UInt8 32) (files : List (String × String)) :
    hashInputs sha256 (files.map fun file => (file.1, .ok (octets file.2))) =
      .ok (sha256 (hashedTexts files)) := by
  have hread : (files.map fun file => (file.1, (.ok (octets file.2) : Except String Bytes))).mapM
      readFile = .ok (files.map fun file => (file.1, octets file.2)) := by
    induction files with
    | nil => rfl
    | cons file files ih =>
        rw [List.map_cons, List.mapM_cons, ih]
        rfl
  rw [hashInputs, hread]
  rfl

/-- Two files and what follows are hashed as one with the mark and the path of
the second in its content. -/
theorem not_distinguished_merged {p c q d : String} {rest : List (String × String)}
    (hpaths : ∀ file ∈ (p, c) :: (q, d) :: rest, IsPath file.1) :
    ¬ Distinguished ((p, c) :: (q, d) :: rest) := by
  intro h
  apply h ((p, c ++ "\x01" ++ q ++ "\x00" ++ d) :: rest)
  · intro file hfile
    rcases List.mem_cons.mp hfile with rfl | hrest
    · exact hpaths (p, c) List.mem_cons_self
    · exact hpaths file (List.mem_cons_of_mem _ (List.mem_cons_of_mem _ hrest))
  · intro heq
    have hlength := congrArg List.length heq
    simp at hlength
  · rw [hashedTexts_inj, hashedChars_merge]

/-- The first NUL behind a mark ends the path of a second file. -/
theorem Distinguished.no_path {path content : String} (h : Distinguished [(path, content)])
    (hpath : IsPath path) {front back : List Char} (hcontent : content.toList = front ++ '\x01' :: back) :
    '\x00' ∉ back := by
  intro hnul
  obtain ⟨path', content', rfl, hpath'⟩ := List.eq_append_cons_of_mem hnul
  apply h [(path, String.ofList front), (String.ofList path', String.ofList content')]
  · intro file hfile
    rcases List.mem_pair.mp hfile with rfl | rfl
    · exact hpath
    · rw [IsPath, String.toList_ofList]
      exact hpath'
  · intro heq
    cases heq
  · rw [hashedTexts_inj]
    simp [hashedChars_cons, hcontent]

theorem distinguished_nil : Distinguished [] := by
  intro others _ hne heq
  rw [hashedTexts_inj] at heq
  obtain ⟨init, hinit, _⟩ := hashedChars_ends hne
  rw [hinit] at heq
  cases init <;> cases heq

theorem distinguished_single {path content : String} (hpath : IsPath path)
    (hcontent : ∀ front back, content.toList = front ++ '\x01' :: back → '\x00' ∉ back) :
    Distinguished [(path, content)] := by
  intro others hothers hne heq
  rw [hashedTexts_inj] at heq
  match others with
  | [] =>
      have hlength := congrArg List.length heq
      simp [hashedChars] at hlength
  | (path', content') :: rest =>
      have hpath' : IsPath path' := hothers _ List.mem_cons_self
      rw [hashedChars_cons, hashedChars_cons] at heq
      have hsplit := congrArg (splitOnceChars ['\x00']) heq
      rw [splitOnceChars_append hpath', splitOnceChars_append hpath] at hsplit
      obtain ⟨hsame, hrest⟩ := Prod.mk.inj (Option.some.inj hsplit)
      have hsame' : path' = path := String.toList_inj.mp hsame
      rcases eq_or_ne rest [] with rfl | hmore
      · have htext : content'.toList = content.toList := by
          simpa [hashedChars] using hrest
        exact hne (by rw [hsame', String.toList_inj.mp htext])
      · obtain ⟨init, hinit, hnul⟩ := hashedChars_ends hmore
        have htext : content'.toList ++ '\x01' :: init = content.toList := by
          have hlast : (content'.toList ++ '\x01' :: init) ++ ['\x01'] =
              content.toList ++ ['\x01'] := by
            rw [hinit] at hrest
            simpa [hashedChars] using hrest
          exact List.append_inj_left' hlast rfl
        exact hcontent content'.toList init htext.symm hnul

/-- A list of files is told apart from every other exactly when it is empty, or
one file whose content has no NUL behind a character 1. -/
theorem distinguished_iff {files : List (String × String)} (hpaths : ∀ file ∈ files, IsPath file.1) :
    (∀ sha256, hashInputs sha256 (files.map fun file => (file.1, .ok (octets file.2))) =
      .ok (sha256 (hashedTexts files))) ∧
    (Distinguished files ↔ files = [] ∨ ∃ path content, files = [(path, content)] ∧
      ∀ front back, content.toList = front ++ '\x01' :: back → '\x00' ∉ back) := by
  refine ⟨fun sha256 => hashInputs_texts sha256 files, ?_⟩
  constructor
  · intro h
    match files with
    | [] => exact Or.inl rfl
    | [(path, content)] =>
        have hpath : IsPath path := hpaths _ List.mem_cons_self
        exact Or.inr ⟨path, content, rfl, fun front back hcontent => h.no_path hpath hcontent⟩
    | (p, c) :: (q, d) :: rest => exact absurd h (not_distinguished_merged hpaths)
  · rintro (rfl | ⟨path, content, rfl, hcontent⟩)
    · exact distinguished_nil
    · exact distinguished_single (hpaths _ List.mem_cons_self) hcontent

/-! ### Files of plain text -/

/-- A ruleset built from one list of plain text. -/
theorem distinguished_plain : Distinguished [("block.txt", "||ads.example^\n")] := by
  apply (distinguished_iff (by simp [IsPath])).2.mpr
  refine Or.inr ⟨_, _, rfl, ?_⟩
  intro front back hcontent _
  have hmark : '\x01' ∈ ("||ads.example^\n" : String).toList := by
    rw [hcontent]
    exact List.mem_append_right _ List.mem_cons_self
  exact absurd hmark (by decide)

/-- Two files are hashed like one that has the second written into it. -/
theorem merged_files_hashed_alike :
    ¬ ∀ files others : List (String × String), (∀ file ∈ files, IsPath file.1) →
      (∀ file ∈ others, IsPath file.1) → others ≠ files →
        hashedTexts others ≠ hashedTexts files := by
  intro h
  apply h [("a", "x"), ("b", "y")] [("a", "x\x01b\x00y")]
  · simp [IsPath]
  · simp [IsPath]
  · simp
  · exact hashedTexts_inj.mpr (hashedChars_merge "a" "b" "x" "y" [])

end Relay.Ruleset
