import Mathlib.Data.List.Basic

/-!
A table that is to follow a relation: a key has a value in the table exactly
when the relation says so. Keeping, writing and erasing entries while the
relation changes keeps the table right under conditions that name no table.
-/

namespace Relay.Storage

variable {κ β : Type}

def Follows (table : κ → Option β) (rel : κ → β → Prop) : Prop :=
  ∀ k b, table k = some b ↔ rel k b

variable {table : κ → Option β} {rel rel' : κ → β → Prop}

/-- The relation is a partial function of the key. -/
theorem Follows.functional (h : Follows table rel) {k : κ} {b b' : β} (hb : rel k b)
    (hb' : rel k b') : b = b' := by
  have hk := (h k b).mpr hb
  rw [(h k b').mpr hb', Option.some.injEq] at hk
  exact hk.symm

theorem Follows.keep_iff (h : Follows table rel) :
    Follows table rel' ↔ ∀ k b, rel' k b ↔ rel k b := by
  constructor
  · intro h' k b
    rw [← h' k b, h k b]
  · intro hrel k b
    rw [h k b, hrel k b]

variable [DecidableEq κ]

/-- All of `keys` get the value `b`. -/
def writeKeys (table : κ → Option β) (keys : List κ) (b : β) : κ → Option β :=
  fun k => if k ∈ keys then some b else table k

def eraseKeys (table : κ → Option β) (keys : List κ) : κ → Option β :=
  fun k => if k ∈ keys then none else table k

/-- The writes one after another. -/
def writeAll (table : κ → Option β) (writes : List (List κ × β)) : κ → Option β :=
  writes.foldl (fun table w => writeKeys table w.1 w.2) table

theorem Follows.write_iff (h : Follows table rel) (keys : List κ) (b : β) :
    Follows (writeKeys table keys b) rel' ↔
      (∀ k ∈ keys, ∀ b', rel' k b' ↔ b' = b) ∧ ∀ k, k ∉ keys → ∀ b', rel' k b' ↔ rel k b' := by
  constructor
  · intro h'
    refine ⟨?_, ?_⟩
    · intro k hk b'
      rw [← h' k b', writeKeys, if_pos hk, Option.some.injEq]
      exact eq_comm
    · intro k hk b'
      rw [← h' k b', writeKeys, if_neg hk, h k b']
  · rintro ⟨hwritten, hother⟩ k b'
    unfold writeKeys
    split
    · rename_i hk
      rw [hwritten k hk b', Option.some.injEq]
      exact eq_comm
    · rename_i hk
      rw [hother k hk b', h k b']

theorem Follows.erase_iff (h : Follows table rel) (keys : List κ) :
    Follows (eraseKeys table keys) rel' ↔
      (∀ k ∈ keys, ∀ b, ¬ rel' k b) ∧ ∀ k, k ∉ keys → ∀ b, rel' k b ↔ rel k b := by
  constructor
  · intro h'
    refine ⟨?_, ?_⟩
    · intro k hk b hb
      have hnone := (h' k b).mpr hb
      rw [eraseKeys, if_pos hk] at hnone
      cases hnone
    · intro k hk b
      rw [← h' k b, eraseKeys, if_neg hk, h k b]
  · rintro ⟨herased, hother⟩ k b
    unfold eraseKeys
    split
    · rename_i hk
      constructor
      · intro hnone
        cases hnone
      · intro hb
        exact absurd hb (herased k hk b)
    · rename_i hk
      rw [hother k hk b, h k b]

/-! ### A table that is filled -/

/-- The last of the writes to the key gave it the value. -/
def LastWrite (writes : List (List κ × β)) (k : κ) (b : β) : Prop :=
  ∃ before w after, writes = before ++ w :: after ∧ k ∈ w.1 ∧ w.2 = b ∧
    ∀ w' ∈ after, k ∉ w'.1

theorem writeAll_append (table : κ → Option β) (writes writes' : List (List κ × β)) :
    writeAll table (writes ++ writes') = writeAll (writeAll table writes) writes' := by
  simp [writeAll]

theorem writeAll_apply_of_not_mem {writes : List (List κ × β)} {k : κ}
    (h : ∀ w ∈ writes, k ∉ w.1) : writeAll table writes k = table k := by
  induction writes generalizing table with
  | nil => rfl
  | cons w writes ih =>
      have hrest : ∀ w' ∈ writes, k ∉ w'.1 := fun w' hw' => h w' (List.mem_cons_of_mem _ hw')
      have hstep : writeKeys table w.1 w.2 k = table k := if_neg (h w List.mem_cons_self)
      rw [← hstep]
      exact ih hrest

theorem LastWrite.apply {writes : List (List κ × β)} {k : κ} {b : β}
    (h : LastWrite writes k b) : writeAll table writes k = some b := by
  obtain ⟨before, w, after, rfl, hk, rfl, hafter⟩ := h
  have hsplit : before ++ w :: after = (before ++ [w]) ++ after := by simp
  rw [hsplit, writeAll_append, writeAll_apply_of_not_mem hafter, writeAll_append]
  exact if_pos hk

theorem exists_lastWrite {writes : List (List κ × β)} {k : κ} (h : ∃ w ∈ writes, k ∈ w.1) :
    ∃ b, LastWrite writes k b := by
  induction writes with
  | nil =>
      obtain ⟨w, hw, _⟩ := h
      cases hw
  | cons w writes ih =>
      by_cases hlater : ∃ w' ∈ writes, k ∈ w'.1
      · obtain ⟨b, before, w', after, hwrites, hw'⟩ := ih hlater
        exact ⟨b, w :: before, w', after, by rw [hwrites]; rfl, hw'⟩
      · obtain ⟨w', hw', hk⟩ := h
        rcases List.mem_cons.mp hw' with rfl | hw'
        · refine ⟨w'.2, [], w', writes, rfl, hk, rfl, ?_⟩
          intro w'' hw'' hk''
          exact hlater ⟨w'', hw'', hk''⟩
        · exact absurd ⟨w', hw', hk⟩ hlater

/-- After the writes the table follows a relation exactly when the relation
gives every written key one value, that of the last write to it, and the table
had the other keys right from the start. -/
theorem follows_writeAll_iff (writes : List (List κ × β)) :
    Follows (writeAll table writes) rel ↔
      (∀ k b b', rel k b → rel k b' → b = b') ∧
      (∀ k b, LastWrite writes k b → rel k b) ∧
      ∀ k, (∀ w ∈ writes, k ∉ w.1) → ∀ b, table k = some b ↔ rel k b := by
  constructor
  · intro h
    refine ⟨?_, ?_, ?_⟩
    · intro k b b' hb hb'
      exact h.functional hb hb'
    · intro k b hlast
      exact (h k b).mp hlast.apply
    · intro k hk b
      rw [← h k b, writeAll_apply_of_not_mem hk]
  · rintro ⟨hfun, hlast, hrest⟩ k b
    by_cases hk : ∃ w ∈ writes, k ∈ w.1
    · obtain ⟨b₀, hb₀⟩ := exists_lastWrite hk
      rw [hb₀.apply, Option.some.injEq]
      constructor
      · rintro rfl
        exact hlast k b₀ hb₀
      · intro hb
        exact hfun k b₀ b (hlast k b₀ hb₀) hb
    · have hnone : ∀ w ∈ writes, k ∉ w.1 := fun w hw hmem => hk ⟨w, hw, hmem⟩
      rw [writeAll_apply_of_not_mem hnone]
      exact hrest k hnone b

end Relay.Storage
