import Relay.Binary.Bytes

/-!
Options with a type byte and a length byte that counts units. The walk goes
from option to option by the length each declares and stops at one that
declares none or more than there is.
-/

namespace Relay.Binary

variable {ε σ : Type}

/-- The option declares its own length, in units. -/
def Sized (unit : Nat) (opt : Bytes) : Prop :=
  ∃ ty units body, opt = ty :: units :: body ∧ units.toNat * unit = opt.length

instance (unit : Nat) (opt : Bytes) : Decidable (Sized unit opt) :=
  match opt with
  | [] => isFalse fun ⟨_, _, _, h, _⟩ => by cases h
  | [_] => isFalse fun ⟨_, _, _, h, _⟩ => by cases h
  | ty :: units :: body =>
      decidable_of_iff (units.toNat * unit = (ty :: units :: body).length)
        ⟨fun h => ⟨ty, units, body, rfl, h⟩, fun ⟨_, _, _, heq, h⟩ => by cases heq; exact h⟩

/-- The walk over `packet` from offset `i`. `visit` sees the offset, the type
and the length of an option that lies within the packet. Each option moves the
offset on, so `packet.length` turns are enough; running out is a `panic`. -/
def walkOptions (unit : Nat) (packet : Bytes) (visit : Nat → UInt8 → Nat → σ → Run ε σ) :
    Nat → Nat → σ → Run ε σ
  | 0, i, s => if i + 2 ≤ packet.length then panicked else .ok s
  | fuel + 1, i, s =>
      if i + 2 ≤ packet.length then do
        let ty ← byteAt packet i
        let units ← byteAt packet (i + 1)
        let len := units.toNat * unit
        if len = 0 ∨ packet.length < i + len then .ok s
        else do
          let s ← visit i ty len s
          walkOptions unit packet visit fuel (i + len) s
      else .ok s

/-- `visit` runs `step` on this option wherever it stands in the packet. -/
def VisitsOption (packet : Bytes) (visit : Nat → UInt8 → Nat → σ → Run ε σ)
    (step : σ → Bytes → Run ε σ) (opt : Bytes) : Prop :=
  ∀ i ty rest back s, opt = ty :: rest → packet.drop i = opt ++ back → i ≤ packet.length →
    visit i ty opt.length s = step s opt

/-- No option starts here: too few bytes are left, or the length byte says
nothing or more than there is. -/
def Stops (unit : Nat) (rest : Bytes) : Prop :=
  ∀ ty units body, rest = ty :: units :: body →
    units.toNat * unit = 0 ∨ rest.length < units.toNat * unit

theorem stops_nil (unit : Nat) : Stops unit [] := by
  intro ty units body h
  cases h

/-- Where an option is cut off none of its beginnings is an option. -/
theorem Stops.not_sized {unit : Nat} {rest opt : Bytes} (h : Stops unit rest)
    (hopt : opt <+: rest) : ¬ Sized unit opt := by
  rintro ⟨ty, units, body, rfl, hlen⟩
  obtain ⟨back, rfl⟩ := hopt
  have hstop := h ty units (body ++ back) rfl
  simp only [List.length_append, List.length_cons] at hstop hlen
  omega

private theorem walkOptions_of_stops {unit : Nat} {packet rest : Bytes}
    {visit : Nat → UInt8 → Nat → σ → Run ε σ} (hrest : Stops unit rest) {fuel i : Nat} {s : σ}
    (hdrop : packet.drop i = rest) (hi : i ≤ packet.length) (hfuel : packet.length ≤ i + fuel) :
    walkOptions unit packet visit fuel i s = .ok s := by
  have hlength := congrArg List.length hdrop
  rw [List.length_drop] at hlength
  match rest, fuel with
  | [], 0 | [_], 0 | _ :: _ :: _, 0 =>
      rw [walkOptions, if_neg (by omega)]
  | [], fuel + 1 | [_], fuel + 1 =>
      simp only [List.length_cons, List.length_nil] at hlength
      rw [walkOptions, if_neg (by omega)]
  | ty :: units :: body, fuel + 1 =>
      have hunits : packet.drop (i + 1) = units :: body := by
        rw [← List.drop_drop, hdrop]
        rfl
      have hstop := hrest ty units body rfl
      rw [← hlength] at hstop
      simp only [List.length_cons] at hlength
      rw [walkOptions, if_pos (by omega), byteAt_of_drop hdrop, byteAt_of_drop hunits,
        run_ok_bind, run_ok_bind, if_pos (by omega)]

private theorem walkOptions_of_drop {unit : Nat} {packet rest : Bytes}
    {visit : Nat → UInt8 → Nat → σ → Run ε σ} {step : σ → Bytes → Run ε σ} {opts : List Bytes}
    (hsized : ∀ opt ∈ opts, Sized unit opt)
    (hvisit : ∀ opt ∈ opts, VisitsOption packet visit step opt) (hrest : Stops unit rest)
    {fuel i : Nat} {s : σ} (hdrop : packet.drop i = opts.flatten ++ rest)
    (hi : i ≤ packet.length) (hfuel : packet.length ≤ i + fuel) :
    walkOptions unit packet visit fuel i s = opts.foldlM step s := by
  induction opts generalizing fuel i s with
  | nil => exact walkOptions_of_stops hrest hdrop hi hfuel
  | cons opt opts ih =>
      obtain ⟨ty, units, body, rfl, hlen⟩ := hsized opt List.mem_cons_self
      have hlength := congrArg List.length hdrop
      simp only [List.length_drop, List.flatten_cons, List.length_append, List.length_cons]
        at hlength hlen
      have hty : byteAt packet i = (.ok ty : Run ε UInt8) := by
        apply byteAt_of_drop
        rw [hdrop]
        rfl
      have hunits : byteAt packet (i + 1) = (.ok units : Run ε UInt8) := by
        apply byteAt_of_drop
        rw [← List.drop_drop, hdrop]
        rfl
      cases fuel with
      | zero => omega
      | succ fuel =>
          have hback : packet.drop i = (ty :: units :: body) ++ (opts.flatten ++ rest) := by
            rw [hdrop, List.flatten_cons, List.append_assoc]
          have hvisited := hvisit _ List.mem_cons_self i ty (units :: body) _ s rfl hback hi
          simp only [List.length_cons] at hvisited
          have hnext : packet.drop (i + units.toNat * unit) = opts.flatten ++ rest := by
            rw [← List.drop_drop, hback, hlen]
            exact List.drop_left' rfl
          rw [walkOptions, if_pos (by omega), hty, hunits, run_ok_bind, run_ok_bind,
            if_neg (by omega), List.foldlM_cons, hlen, hvisited]
          cases step s (ty :: units :: body) with
          | error e => rfl
          | ok s' =>
              rw [run_ok_bind, run_ok_bind, ← hlen]
              exact ih (fun opt hopt => hsized opt (List.mem_cons_of_mem _ hopt))
                (fun opt hopt => hvisit opt (List.mem_cons_of_mem _ hopt)) hnext (by omega)
                (by omega)

/-- Over options that all declare their own length the walk is the fold of the
step of one option, up to the end of the packet. -/
theorem walkOptions_flatten {unit : Nat} {packet front : Bytes}
    {visit : Nat → UInt8 → Nat → σ → Run ε σ} (step : σ → Bytes → Run ε σ) {opts : List Bytes}
    (s : σ) (hpacket : packet = front ++ opts.flatten)
    (hsized : ∀ opt ∈ opts, Sized unit opt)
    (hvisit : ∀ opt ∈ opts, VisitsOption packet visit step opt) :
    walkOptions unit packet visit packet.length front.length s = opts.foldlM step s := by
  apply walkOptions_of_drop hsized hvisit (stops_nil unit)
  · rw [hpacket, List.drop_left, List.append_nil]
  · rw [hpacket, List.length_append]
    omega
  · omega

/-! ### Any packet -/

/-- The options in a row up to the first that is malformed or cut short. -/
def completeOptions (unit : Nat) (bytes : Bytes) : List Bytes :=
  match bytes with
  | ty :: units :: body =>
      let len := units.toNat * unit
      if 0 < len ∧ len ≤ (ty :: units :: body).length then
        (ty :: units :: body).take len :: completeOptions unit ((ty :: units :: body).drop len)
      else []
  | _ => []
termination_by bytes.length
decreasing_by
  rw [List.length_drop]
  simp only [List.length_cons] at *
  omega

/-- A byte string is its complete options and a rest where none starts. -/
theorem completeOptions_spec {unit : Nat} (hunit : 2 ≤ unit) (bytes : Bytes) :
    ∃ rest, bytes = (completeOptions unit bytes).flatten ++ rest ∧ Stops unit rest ∧
      ∀ opt ∈ completeOptions unit bytes, Sized unit opt := by
  fun_induction completeOptions unit bytes with
  | case1 ty units body len hfits ih =>
      obtain ⟨rest, hrest, hstops, hsized⟩ := ih
      refine ⟨rest, ?_, hstops, ?_⟩
      · rw [List.flatten_cons, List.append_assoc, ← hrest, List.take_append_drop]
      · intro opt hopt
        rcases List.mem_cons.mp hopt with rfl | hlater
        · have htwo : 2 ≤ len := by
            have hne : 1 ≤ units.toNat := Nat.pos_of_mul_pos_right hfits.1
            calc 2 ≤ unit := hunit
              _ ≤ units.toNat * unit := Nat.le_mul_of_pos_left unit hne
          obtain ⟨n, hn⟩ := Nat.exists_eq_add_of_le' htwo
          refine ⟨ty, units, body.take n, ?_, ?_⟩
          · rw [hn]
            rfl
          · exact (List.length_take_of_le hfits.2).symm
        · exact hsized opt hlater
  | case2 ty units body len hcut =>
      refine ⟨ty :: units :: body, rfl, ?_, fun opt hopt => by cases hopt⟩
      intro ty' units' body' h
      cases h
      omega
  | case3 bytes hshort =>
      refine ⟨bytes, rfl, ?_, fun opt hopt => by cases hopt⟩
      intro ty units body h
      exact absurd h (hshort ty units body)

/-- Options that declare their own length are read whatever is behind them. -/
theorem completeOptions_append {unit : Nat} {opts : List Bytes}
    (hsized : ∀ opt ∈ opts, Sized unit opt) (rest : Bytes) :
    completeOptions unit (opts.flatten ++ rest) = opts ++ completeOptions unit rest := by
  induction opts with
  | nil => rfl
  | cons opt opts ih =>
      obtain ⟨ty, units, body, rfl, hlen⟩ := hsized opt List.mem_cons_self
      have hrest := ih fun opt hopt => hsized opt (List.mem_cons_of_mem _ hopt)
      have hbytes : ((ty :: units :: body) :: opts).flatten ++ rest =
          ty :: units :: (body ++ (opts.flatten ++ rest)) := by simp
      have htake : (ty :: units :: (body ++ (opts.flatten ++ rest))).take
          (ty :: units :: body).length = ty :: units :: body := List.take_left' rfl
      have hdrop : (ty :: units :: (body ++ (opts.flatten ++ rest))).drop
          (ty :: units :: body).length = opts.flatten ++ rest := List.drop_left' rfl
      rw [hbytes, completeOptions, hlen]
      rw [htake, hdrop, if_pos (by simp), hrest]
      rfl

theorem length_le_of_mem_completeOptions {unit : Nat} (hunit : 2 ≤ unit) {bytes opt : Bytes}
    (h : opt ∈ completeOptions unit bytes) : opt.length ≤ bytes.length := by
  obtain ⟨rest, hbytes, _, _⟩ := completeOptions_spec hunit bytes
  have hlength := congrArg List.length hbytes
  rw [List.length_append] at hlength
  have hle : opt.length ≤ (completeOptions unit bytes).flatten.length :=
    (List.sublist_flatten_of_mem h).length_le
  omega

/-- The walk is the fold of the step of one option over the complete options,
and ends at the first that is none. -/
theorem walkOptions_eq_foldlM {unit : Nat} (hunit : 2 ≤ unit) {packet : Bytes}
    {visit : Nat → UInt8 → Nat → σ → Run ε σ} (step : σ → Bytes → Run ε σ) {i : Nat} (s : σ)
    (hi : i ≤ packet.length) (hvisit : ∀ opt, VisitsOption packet visit step opt) :
    walkOptions unit packet visit packet.length i s =
      (completeOptions unit (packet.drop i)).foldlM step s := by
  obtain ⟨rest, hrest, hstops, hsized⟩ := completeOptions_spec hunit (packet.drop i)
  exact walkOptions_of_drop hsized (fun opt _ => hvisit opt) hstops hrest hi
    (Nat.le_add_left _ _)

end Relay.Binary
