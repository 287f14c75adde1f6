import Relay.Binary.Bytes

/-!
Loops that walk a buffer by offset, and the one rule their round trips need:
where every record of a concatenation is read back by the loop's body, the
whole loop reads back the whole list.
-/

namespace Relay.Binary

variable {ε σ α : Type}

/-- `while i < len { body }` over the loop state `s`. Every body of a decoder
moves the offset forward, so `len` iterations are enough; running out of fuel
is a `panic`. -/
def whileLt (len : Nat) (body : Nat → σ → Run ε (Nat × σ)) : Nat → Nat → σ → Run ε σ
  | 0, i, s => if i < len then panicked else .ok s
  | fuel + 1, i, s =>
      if i < len then do
        let (next, s') ← body i s
        whileLt len body fuel next s'
      else .ok s

/-- The loop over a section from its first byte. -/
def scan (section_ : Bytes) (body : Nat → σ → Run ε (Nat × σ)) (s : σ) : Run ε σ :=
  whileLt section_.length body section_.length 0 s

/-- `body` reads the record `enc x` wherever it stands in `bytes`: it moves
past it and adds `val x` to what it has read. -/
def ReadsRecord (bytes : Bytes) (enc : α → Bytes) (push : σ → α → σ)
    (body : Nat → σ → Run ε (Nat × σ)) (x : α) : Prop :=
  ∀ i s back, bytes.drop i = enc x ++ back → i ≤ bytes.length →
    body i s = .ok (i + (enc x).length, push s x)

/-- `body` reads the record `enc x` wherever it stands in `bytes`: it runs
`step` on it and moves past it. -/
def RunsRecord (bytes : Bytes) (enc : α → Bytes) (step : σ → α → Run ε σ)
    (body : Nat → σ → Run ε (Nat × σ)) (x : α) : Prop :=
  ∀ i s back, bytes.drop i = enc x ++ back → i ≤ bytes.length →
    body i s = step s x >>= fun s' => .ok (i + (enc x).length, s')

private theorem whileLt_records (bytes : Bytes) (enc : α → Bytes) (step : σ → α → Run ε σ)
    (body : Nat → σ → Run ε (Nat × σ)) (xs : List α) (fuel i : Nat) (s : σ)
    (hpos : ∀ x ∈ xs, 0 < (enc x).length)
    (hread : ∀ x ∈ xs, RunsRecord bytes enc step body x)
    (hdrop : bytes.drop i = xs.flatMap enc) (hi : i ≤ bytes.length)
    (hfuel : bytes.length ≤ i + fuel) :
    whileLt bytes.length body fuel i s = xs.foldlM step s := by
  induction xs generalizing fuel i s with
  | nil =>
      have hend : ¬ i < bytes.length := by
        have := congrArg List.length hdrop
        simp only [List.length_drop, List.flatMap_nil, List.length_nil] at this
        omega
      cases fuel <;> simp [whileLt, hend, pure, Except.pure]
  | cons x xs ih =>
      have hlen := congrArg List.length hdrop
      simp only [List.length_drop, List.flatMap_cons, List.length_append] at hlen
      have hx : 0 < (enc x).length := hpos x (by simp)
      have hlt : i < bytes.length := by omega
      have hbody := hread x (by simp) i s (xs.flatMap enc) (by simpa using hdrop) hi
      have hnext : bytes.drop (i + (enc x).length) = xs.flatMap enc := by
        rw [← List.drop_drop, hdrop, List.flatMap_cons, List.drop_left]
      cases fuel with
      | zero => omega
      | succ fuel =>
          rw [whileLt, if_pos hlt, hbody, List.foldlM_cons]
          cases hstep : step s x with
          | error e => rfl
          | ok s' =>
              simp only [run_ok_bind]
              exact ih fuel (i + (enc x).length) s'
                (fun y hy => hpos y (by simp [hy])) (fun y hy => hread y (by simp [hy]))
                hnext (by omega) (by omega)

/-- Over the concatenation of encoded records the loop is the fold of the
step of one record, and it stops at the end. -/
theorem scan_foldlM {bytes : Bytes} (enc : α → Bytes) (step : σ → α → Run ε σ)
    {body : Nat → σ → Run ε (Nat × σ)} {xs : List α} (s : σ)
    (hbytes : bytes = xs.flatMap enc)
    (hpos : ∀ x ∈ xs, 0 < (enc x).length)
    (hread : ∀ x ∈ xs, RunsRecord bytes enc step body x) :
    scan bytes body s = xs.foldlM step s :=
  whileLt_records bytes enc step body xs bytes.length 0 s hpos hread
    (by simpa using hbytes) (Nat.zero_le _) (by omega)

/-- A section that is the concatenation of encoded records is read back as
the list of these records, in order, and the loop stops at its end. -/
theorem scan_records {bytes : Bytes} (enc : α → Bytes) (push : σ → α → σ)
    {body : Nat → σ → Run ε (Nat × σ)} {xs : List α} (s : σ)
    (hbytes : bytes = xs.flatMap enc)
    (hpos : ∀ x ∈ xs, 0 < (enc x).length)
    (hread : ∀ x ∈ xs, ReadsRecord bytes enc push body x) :
    scan bytes body s = .ok (xs.foldl push s) := by
  have hruns : ∀ x ∈ xs, RunsRecord bytes enc (fun s x => .ok (push s x)) body x :=
    fun x hx i s back hdrop hi => hread x hx i s back hdrop hi
  rw [scan_foldlM enc _ s hbytes hpos hruns]
  exact List.foldlM_pure

theorem foldl_push_eq_append (f : α → σ) (xs : List α) (acc : List σ) :
    xs.foldl (fun acc x => acc ++ [f x]) acc = acc ++ xs.map f := by
  induction xs generalizing acc with
  | nil => simp
  | cons x xs ih => simp [ih]

end Relay.Binary
