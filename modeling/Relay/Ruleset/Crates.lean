import Relay.Binary.Scan
import Relay.Ruleset.Drs

/-!
Two small crates that keep the laws the loader and the matcher rely on: a set
stored as its keys, each behind a length byte, and a pattern language of
literal texts in which `[` starts a class that is never closed.
-/

namespace Relay.Ruleset

open Binary Text

/-! ### A set stored key by key -/

/-- One key of the stored set. -/
def readKey (bytes : Bytes) (i : Nat) (acc : List Bytes) : Run String (Nat × List Bytes) := do
  let l := (← byteAt bytes i).toNat
  let key ← slice bytes (i + 1) (i + 1 + l)
  return (i + 1 + l, acc ++ [key])

/-- Keys of at most 255 bytes, in strictly increasing order. -/
def insertListKey (keys : List Bytes) (key : Bytes) : Except String (List Bytes) :=
  if key.length ≤ 255 then
    match keys.getLast? with
    | none => .ok (keys ++ [key])
    | some last => if last < key then .ok (keys ++ [key]) else .error "out of order"
  else .error "key too long"

/-- The stored form starts with a version byte, so that it is never empty. -/
def loadListSet (bytes : Bytes) : Except String (List Bytes) :=
  match bytes with
  | 1 :: records =>
      match scan records (readKey records) [] with
      | .ok keys => .ok keys
      | .error _ => .error "corrupt"
  | _ => .error "version"

def listFst : FstCrate where
  Builder := List Bytes
  Set := List Bytes
  memory := []
  insert := insertListKey
  intoInner keys := .ok (1 :: keys.flatMap prefixed)
  new := loadListSet
  contains keys key := keys.contains key
  len keys := keys.length

private theorem insertListKey_ok {keys next : List Bytes} {key : Bytes}
    (h : insertListKey keys key = .ok next) : next = keys ++ [key] ∧ key.length ≤ 255 := by
  unfold insertListKey at h
  split at h
  · rename_i hfits
    split at h
    · cases h
      exact ⟨rfl, hfits⟩
    · split at h
      · cases h
        exact ⟨rfl, hfits⟩
      · cases h
  · cases h

private theorem insertListKey_foldlM {keys result : List Bytes} (builder : List Bytes)
    (h : keys.foldlM insertListKey builder = .ok result) :
    result = builder ++ keys ∧ ∀ key ∈ keys, key.length ≤ 255 := by
  induction keys generalizing builder with
  | nil =>
      cases h
      simp
  | cons key keys ih =>
      rw [List.foldlM_cons] at h
      cases hins : insertListKey builder key with
      | error e => simp [hins, bind, Except.bind] at h
      | ok next =>
          rw [hins] at h
          obtain ⟨rfl, hkey⟩ := insertListKey_ok hins
          obtain ⟨hresult, hkeys⟩ := ih (builder ++ [key]) h
          refine ⟨by rw [hresult, List.append_assoc]; rfl, ?_⟩
          intro k hk
          rcases List.mem_cons.mp hk with rfl | hk
          · exact hkey
          · exact hkeys k hk

private theorem readKey_reads (bytes key : Bytes) (h : key.length ≤ 255) :
    ReadsRecord bytes prefixed (fun acc k => acc ++ [k]) (readKey bytes) key := by
  intro i acc back hdrop hi
  obtain ⟨hbyte, hslice, _⟩ := prefixed_of_drop (ε := String) hdrop hi h
  simp only [readKey, hbyte, run_ok_bind, toNat_ofNat_length h, hslice]
  simp only [pure, Except.pure, Except.ok.injEq, Prod.mk.injEq, and_true, prefixed_length]
  omega

private theorem loadListSet_stored {keys : List Bytes} (h : ∀ key ∈ keys, key.length ≤ 255) :
    loadListSet (1 :: keys.flatMap prefixed) = .ok keys := by
  have hscan := scan_records prefixed (fun acc k => acc ++ [k]) [] rfl (fun k _ => by simp)
    (fun k hk => readKey_reads (keys.flatMap prefixed) k (h k hk))
  rw [foldl_push_eq_append (fun k => k), List.map_id', List.nil_append] at hscan
  simp only [loadListSet, hscan]

theorem listFst_lawful : listFst.Lawful := by
  refine ⟨fun keys builder bytes _ hbuild hinner => ?_⟩
  obtain ⟨hbuilder, hkeys⟩ := insertListKey_foldlM [] hbuild
  cases hinner
  refine ⟨by simp, keys, ?_, ?_⟩
  · rw [hbuilder]
    exact loadListSet_stored hkeys
  · intro key
    exact List.contains_iff_mem

/-! ### Literal patterns -/

def opensClass (pattern : String) : Bool := (octets pattern).contains 0x5b

/-- A pattern without `[` matches the texts that contain it. -/
def literalRegex : RegexCrate where
  RegexSet := List String
  compiles p := if opensClass p then .error "unclosed character class" else .ok ()
  isMatch p text := containsText text p
  newSet patterns :=
    if patterns.any opensClass then .error "unclosed character class" else .ok patterns
  isMatchSet patterns text := patterns.any (containsText text)

theorem literalRegex_lawful : literalRegex.Lawful where
  isMatchSet_iff patterns set hset text := by
    simp only [literalRegex] at hset ⊢
    split at hset
    · cases hset
    · cases hset
      exact List.any_eq_true
  newSet_ok patterns h := by
    have hnone : patterns.any opensClass = false := by
      rw [List.any_eq_false]
      intro p hp hbad
      have hcompiles := h p hp
      simp [literalRegex, hbad] at hcompiles
    exact ⟨patterns, by simp only [literalRegex, hnone]; rfl⟩

end Relay.Ruleset
