import Mathlib.Data.List.Destutter
import Mathlib.Data.List.TakeWhile
import Mathlib.Tactic

/-!
Lists read as runs of neighbours with one key. Within a run only the first of
equal entries may be kept; when that goes unnoticed by whoever ignores adjacent
duplicates is decided here.
-/

namespace Relay.Logic

variable {α κ β : Type} [DecidableEq κ] (run : α → κ) (out : α → β)

/-- What the run that `e` continues has shown; the entries before `e` stand in
`before`, the last one first. -/
def shown (before : List α) (e : α) : List β :=
  (before.takeWhile fun other => run other = run e).map out

/-- The entries that start a run; `prev` is the key of the run that goes on. -/
def runStarts (prev : Option κ) : List α → List α
  | [] => []
  | e :: rest =>
      if prev = some (run e) then runStarts (some (run e)) rest
      else e :: runStarts (some (run e)) rest

section Shown

variable {run out}

theorem runStarts_sublist (prev : Option κ) (entries : List α) :
    (runStarts run prev entries).Sublist entries := by
  induction entries generalizing prev with
  | nil => exact List.Sublist.refl _
  | cons e rest ih =>
      rw [runStarts]
      split
      · exact (ih _).cons e
      · exact (ih _).cons_cons e

theorem shown_cons_self {before : List α} {d e : α} (h : run d = run e) :
    shown run out (d :: before) e = out d :: shown run out before d := by
  rw [shown, shown, List.takeWhile_cons_of_pos (by simpa using h), List.map_cons, h]

theorem shown_cons_of_ne {before : List α} {d e : α} (h : run d ≠ run e) :
    shown run out (d :: before) e = [] := by
  rw [shown, List.takeWhile_cons_of_neg (by simpa using h), List.map_nil]

theorem shown_cons_congr {before : List α} {d e : α} (h : run d = run e) :
    shown run out (d :: before) e = shown run out (d :: before) d := by
  rw [shown_cons_self h, shown_cons_self rfl]

theorem mem_shown_self (before : List α) (e : α) : out e ∈ shown run out (e :: before) e := by
  rw [shown_cons_self rfl]
  exact List.mem_cons_self

theorem mem_shown_next {before : List α} {d e : α} {b : β} (h : run d = run e)
    (hb : b ∈ shown run out (d :: before) d) : b ∈ shown run out (e :: d :: before) e := by
  rw [shown_cons_self rfl, shown_cons_congr h]
  exact List.mem_cons_of_mem _ hb

end Shown

variable [DecidableEq β]

/-- The entries their run has not shown yet. -/
def dropRepeats (before : List α) : List α → List α
  | [] => []
  | e :: rest =>
      if out e ∈ shown run out before e then dropRepeats (e :: before) rest
      else e :: dropRepeats (e :: before) rest

/-- After its own copies, an equal entry of another run. -/
def HasTwin (e : α) (rest : List α) : Prop :=
  ∃ next ∈ (rest.dropWhile fun other => run other = run e ∧ out other = out e).head?,
    out next = out e

/-- An entry its run has shown before stands right behind its equal, or before one. -/
def RepeatsFine (before entries : List α) : Prop :=
  ∀ front e rest, entries = front ++ e :: rest →
    out e ∈ shown run out (front.reverse ++ before) e →
      (front.reverse ++ before).head?.map out = some (out e) ∨ HasTwin run out e rest

variable {run out}

theorem repeatsFine_nil {before : List α} : RepeatsFine run out before [] := by
  intro front e rest heq
  cases front <;> cases heq

theorem repeatsFine_cons {before rest : List α} {e : α} :
    RepeatsFine run out before (e :: rest) ↔
      (out e ∈ shown run out before e →
        before.head?.map out = some (out e) ∨ HasTwin run out e rest) ∧
      RepeatsFine run out (e :: before) rest := by
  constructor
  · intro h
    refine ⟨h [] e rest rfl, ?_⟩
    intro front e' rest' heq
    have hnext := h (e :: front) e' rest' (by rw [heq, List.cons_append])
    simpa using hnext
  · rintro ⟨hhead, htail⟩ front e' rest' heq
    cases front with
    | nil =>
        cases heq
        exact hhead
    | cons first front =>
        cases heq
        have hnext := htail front e' rest' rfl
        simpa using hnext

theorem hasTwin_nil {e : α} : ¬ HasTwin run out e [] := by
  rintro ⟨next, hnext, _⟩
  cases hnext

theorem hasTwin_cons_of_copy {d e : α} {rest : List α} (hrun : run e = run d)
    (hout : out e = out d) : HasTwin run out d (e :: rest) ↔ HasTwin run out e rest := by
  rw [HasTwin, HasTwin, List.dropWhile_cons_of_pos (by simp [hrun, hout]), hrun, hout]

theorem hasTwin_cons_of_other {d e : α} {rest : List α} (h : run e ≠ run d ∨ out e ≠ out d) :
    HasTwin run out d (e :: rest) ↔ out e = out d := by
  have hother : ¬ (run e = run d ∧ out e = out d) := by
    rw [not_and_or]
    exact h
  rw [HasTwin, List.dropWhile_cons_of_neg (by simpa using hother)]
  simp

/-! ### Adjacent duplicates -/

/-- `l` without adjacent duplicates, after `b`. -/
abbrev squeeze (b : β) (l : List β) : List β := l.destutter' (· ≠ ·) b

theorem squeeze_same {b : β} {l : List β} : squeeze b (b :: l) = squeeze b l :=
  List.destutter'_cons_neg _ (by simp)

theorem squeeze_other {b c : β} {l : List β} (h : c ≠ b) :
    squeeze b (c :: l) = b :: squeeze c l := List.destutter'_cons_pos _ (Ne.symm h)

theorem squeeze_eq_cons (b : β) (l : List β) : ∃ l', squeeze b l = b :: l' := by
  induction l with
  | nil => exact ⟨[], rfl⟩
  | cons c l ih =>
      rcases eq_or_ne c b with rfl | hne
      · rw [squeeze_same]
        exact ih
      · exact ⟨_, squeeze_other hne⟩

theorem squeeze_ne_cons {b c : β} {l l' : List β} (h : b ≠ c) : squeeze b l ≠ c :: l' := by
  obtain ⟨t, ht⟩ := squeeze_eq_cons b l
  rw [ht]
  intro heq
  injection heq with heq _
  exact h heq

theorem mem_squeeze {b c : β} {l : List β} : c ∈ squeeze b l ↔ c = b ∨ c ∈ l := by
  induction l generalizing b with
  | nil => simp [squeeze]
  | cons a l ih =>
      rcases eq_or_ne a b with rfl | hne
      · rw [squeeze_same, ih, List.mem_cons]
        tauto
      · rw [squeeze_other hne, List.mem_cons, ih, List.mem_cons]

theorem mem_destutter_ne {c : β} {l : List β} : c ∈ l.destutter (· ≠ ·) ↔ c ∈ l := by
  cases l with
  | nil => exact Iff.rfl
  | cons b l => rw [List.destutter_cons', mem_squeeze, List.mem_cons]

/-! ### What is kept and what was there

`d` is the entry before, `last` what was kept last; both belong to one run. -/

section Kept

variable {before : List α} {d : α} {last : β}

variable (run out) in
/-- A repeat is dropped; an entry new to its run is kept; so is one that starts a run. -/
theorem dropRepeats_cases (before rest : List α) (d e : α) :
    (run d = run e ∧ out e ∈ shown run out (d :: before) e ∧
      dropRepeats run out (d :: before) (e :: rest) = dropRepeats run out (e :: d :: before) rest) ∨
    (run d = run e ∧ out e ∉ shown run out (d :: before) d ∧ out e ∉ shown run out (d :: before) e ∧
      dropRepeats run out (d :: before) (e :: rest) =
        e :: dropRepeats run out (e :: d :: before) rest) ∨
    (run d ≠ run e ∧ out e ∉ shown run out (d :: before) e ∧
      dropRepeats run out (d :: before) (e :: rest) =
        e :: dropRepeats run out (e :: d :: before) rest) := by
  rcases eq_or_ne (run d) (run e) with hrun | hrun
  · by_cases hrepeat : out e ∈ shown run out (d :: before) e
    · exact Or.inl ⟨hrun, hrepeat, by rw [dropRepeats, if_pos hrepeat]⟩
    · have hfresh : out e ∉ shown run out (d :: before) d := by
        rw [← shown_cons_congr hrun]
        exact hrepeat
      exact Or.inr (Or.inl ⟨hrun, hfresh, hrepeat, by rw [dropRepeats, if_neg hrepeat]⟩)
  · have hfresh : out e ∉ shown run out (d :: before) e := by
      rw [shown_cons_of_ne hrun]
      exact List.not_mem_nil
    exact Or.inr (Or.inr ⟨hrun, hfresh, by rw [dropRepeats, if_neg hfresh]⟩)

/-- What was kept never shows more than what was there, the entry that is due apart. -/
theorem length_squeeze_dropRepeats {rest : List α} (hlast : last ∈ shown run out (d :: before) d) :
    (squeeze last ((dropRepeats run out (d :: before) rest).map out)).length ≤
      (squeeze (out d) (rest.map out)).length + (if last = out d then 0 else 1) := by
  induction rest generalizing before d last with
  | nil =>
      change 1 ≤ 1 + _
      omega
  | cons e rest ih =>
      have hkept := ih (mem_shown_self (d :: before) e)
      rw [if_pos rfl] at hkept
      obtain ⟨hrun, _, hdrop⟩ | ⟨_, hfresh, _, hdrop⟩ | ⟨_, _, hdrop⟩ :=
        dropRepeats_cases run out before rest d e
      · rw [hdrop, List.map_cons]
        have hrest := ih (mem_shown_next hrun hlast)
        rcases eq_or_ne (out e) (out d) with hout | hout
        · rw [← hout, squeeze_same]
          exact hrest
        · rw [squeeze_other hout, List.length_cons]
          split at hrest <;> omega
      · have hne : out e ≠ last := fun heq => hfresh (heq ▸ hlast)
        have hne' : out e ≠ out d := fun heq => hfresh (heq ▸ mem_shown_self before d)
        rw [hdrop, List.map_cons, List.map_cons, squeeze_other hne, squeeze_other hne',
          List.length_cons, List.length_cons]
        omega
      · rw [hdrop, List.map_cons, List.map_cons]
        rcases eq_or_ne (out e) last with rfl | hne
        · rw [squeeze_same]
          rcases eq_or_ne (out e) (out d) with hout | hout
          · rw [if_pos hout, ← hout, squeeze_same]
            exact hkept
          · rw [if_neg hout, squeeze_other hout, List.length_cons]
            omega
        · rw [squeeze_other hne, List.length_cons]
          rcases eq_or_ne (out e) (out d) with hout | hout
          · rw [← hout, squeeze_same, if_neg (Ne.symm hne)]
            omega
          · rw [squeeze_other hout, List.length_cons]
            omega

/-- Too much is due: what is kept cannot make up for it. -/
theorem squeeze_dropRepeats_ne {rest : List α} {b c : β}
    (hlast : last ∈ shown run out (d :: before) d) :
    squeeze last ((dropRepeats run out (d :: before) rest).map out) ≠
      b :: c :: squeeze (out d) (rest.map out) := by
  intro heq
  have hlength : (squeeze last ((dropRepeats run out (d :: before) rest).map out)).length ≤
      (squeeze (out d) (rest.map out)).length + (if last = out d then 0 else 1) :=
    length_squeeze_dropRepeats hlast
  rw [heq, List.length_cons, List.length_cons] at hlength
  split at hlength <;> omega

variable (run out before d last)

/-- What is kept from here on against what there is: they agree while nothing
is due, and while the entry `d` is, under the condition on the repeats. -/
def Agrees (rest : List α) : Prop :=
  (last = out d →
    (squeeze last ((dropRepeats run out (d :: before) rest).map out) =
      squeeze (out d) (rest.map out) ↔ RepeatsFine run out (d :: before) rest)) ∧
  (last ≠ out d →
    (squeeze last ((dropRepeats run out (d :: before) rest).map out) =
      last :: squeeze (out d) (rest.map out) ↔
      HasTwin run out d rest ∧ RepeatsFine run out (d :: before) rest))

variable {run out before d last}

theorem repeatsFine_cons_cons {e : α} {rest : List α} :
    RepeatsFine run out (d :: before) (e :: rest) ↔
      (out e ∈ shown run out (d :: before) e → out e = out d ∨ HasTwin run out e rest) ∧
      RepeatsFine run out (e :: d :: before) rest := by
  rw [repeatsFine_cons, List.head?_cons, Option.map_some, Option.some_inj, eq_comm]

theorem repeatsFine_of_new {e : α} {rest : List α} (h : out e ∉ shown run out (d :: before) e) :
    RepeatsFine run out (d :: before) (e :: rest) ↔
      RepeatsFine run out (e :: d :: before) rest := by
  rw [repeatsFine_cons_cons]
  exact and_iff_right fun hmem => absurd hmem h

theorem agrees_nil : Agrees run out before d last [] := by
  constructor
  · rintro rfl
    exact ⟨fun _ => repeatsFine_nil, fun _ => rfl⟩
  · intro _
    constructor
    · intro heq
      cases heq
    · rintro ⟨htwin, _⟩
      exact absurd htwin hasTwin_nil

theorem agrees_of_repeat {e : α} {rest : List α} (hlast : last ∈ shown run out (d :: before) d)
    (hrun : run d = run e) (hrepeat : out e ∈ shown run out (d :: before) e)
    (hdrop : dropRepeats run out (d :: before) (e :: rest) =
      dropRepeats run out (e :: d :: before) rest)
    (ih : Agrees run out (d :: before) e last rest) : Agrees run out before d last (e :: rest) := by
  unfold Agrees
  rw [hdrop, List.map_cons, repeatsFine_cons_cons]
  rcases eq_or_ne (out e) (out d) with hout | hout
  · rw [hasTwin_cons_of_copy hrun.symm hout, ← hout, squeeze_same]
    constructor
    · intro heq
      rw [ih.1 heq]
      simp
    · intro hne
      rw [ih.2 hne]
      simp
  · rw [hasTwin_cons_of_other (Or.inr hout), squeeze_other hout]
    constructor
    · rintro rfl
      rw [ih.2 (Ne.symm hout)]
      simp [hrepeat, hout]
    · intro _
      constructor
      · intro heq
        exact absurd heq (squeeze_dropRepeats_ne (mem_shown_next hrun hlast))
      · rintro ⟨htwin, _⟩
        exact absurd htwin hout

theorem agrees_of_new {e : α} {rest : List α} (hlast : last ∈ shown run out (d :: before) d)
    (hfresh : out e ∉ shown run out (d :: before) d)
    (hnew : out e ∉ shown run out (d :: before) e)
    (hdrop : dropRepeats run out (d :: before) (e :: rest) =
      e :: dropRepeats run out (e :: d :: before) rest)
    (ih : Agrees run out (d :: before) e (out e) rest) :
    Agrees run out before d last (e :: rest) := by
  have hne : out e ≠ last := fun heq => hfresh (heq ▸ hlast)
  have hne' : out e ≠ out d := fun heq => hfresh (heq ▸ mem_shown_self before d)
  unfold Agrees
  rw [hdrop, List.map_cons, List.map_cons, hasTwin_cons_of_other (Or.inr hne'),
    squeeze_other hne, squeeze_other hne', repeatsFine_of_new hnew]
  constructor
  · rintro rfl
    rw [List.cons_inj_right]
    exact ih.1 rfl
  · intro _
    constructor
    · intro heq
      rw [List.cons_inj_right] at heq
      exact absurd heq (squeeze_ne_cons hne')
    · rintro ⟨heq, _⟩
      exact absurd heq hne'

theorem agrees_of_newRun {e : α} {rest : List α} (hrun : run d ≠ run e)
    (hnew : out e ∉ shown run out (d :: before) e)
    (hdrop : dropRepeats run out (d :: before) (e :: rest) =
      e :: dropRepeats run out (e :: d :: before) rest)
    (ih : Agrees run out (d :: before) e (out e) rest) :
    Agrees run out before d last (e :: rest) := by
  unfold Agrees
  rw [hdrop, List.map_cons, List.map_cons, hasTwin_cons_of_other (Or.inl (Ne.symm hrun)),
    repeatsFine_of_new hnew]
  constructor
  · rintro rfl
    rcases eq_or_ne (out e) (out d) with hout | hout
    · rw [← hout, squeeze_same, squeeze_same]
      exact ih.1 rfl
    · rw [squeeze_other hout, squeeze_other hout, List.cons_inj_right]
      exact ih.1 rfl
  · intro hne
    rcases eq_or_ne (out e) (out d) with hout | hout
    · have hdue : out e ≠ last := by
        rw [hout]
        exact Ne.symm hne
      rw [squeeze_other hdue, ← hout, squeeze_same, List.cons_inj_right, ih.1 rfl]
      simp
    · rw [squeeze_other hout]
      constructor
      · intro heq
        rcases eq_or_ne (out e) last with rfl | hother
        · rw [squeeze_same] at heq
          exact absurd heq (squeeze_dropRepeats_ne (mem_shown_self _ e))
        · rw [squeeze_other hother, List.cons_inj_right] at heq
          exact absurd heq (squeeze_ne_cons hout)
      · rintro ⟨heq, _⟩
        exact absurd heq hout

theorem agrees {rest : List α} (hlast : last ∈ shown run out (d :: before) d) :
    Agrees run out before d last rest := by
  induction rest generalizing before d last with
  | nil => exact agrees_nil
  | cons e rest ih =>
      have hkept := ih (mem_shown_self (d :: before) e)
      obtain ⟨hrun, hrepeat, hdrop⟩ | ⟨_, hfresh, hnew, hdrop⟩ | ⟨hrun, hnew, hdrop⟩ :=
        dropRepeats_cases run out before rest d e
      · exact agrees_of_repeat hlast hrun hrepeat hdrop (ih (mem_shown_next hrun hlast))
      · exact agrees_of_new hlast hfresh hnew hdrop hkept
      · exact agrees_of_newRun hrun hnew hdrop hkept

end Kept

/-- Dropping repeats from every run goes unnoticed under the condition on them. -/
theorem destutter_dropRepeats {entries : List α} :
    ((dropRepeats run out [] entries).map out).destutter (· ≠ ·) =
        (entries.map out).destutter (· ≠ ·) ↔ RepeatsFine run out [] entries := by
  cases entries with
  | nil => exact ⟨fun _ => repeatsFine_nil, fun _ => rfl⟩
  | cons e rest =>
      have hnot : out e ∉ shown run out [] e := List.not_mem_nil
      rw [dropRepeats, if_neg hnot, List.map_cons, List.map_cons, List.destutter_cons',
        List.destutter_cons', (agrees (mem_shown_self [] e)).1 rfl, repeatsFine_cons]
      simp [hnot]

theorem dropRepeats_sublist (before entries : List α) :
    (dropRepeats run out before entries).Sublist entries := by
  induction entries generalizing before with
  | nil => exact List.Sublist.refl _
  | cons e rest ih =>
      rw [dropRepeats]
      split
      · exact (ih (e :: before)).cons e
      · exact (ih (e :: before)).cons_cons e

/-- Only which entries of a run are equal matters. -/
theorem dropRepeats_congr {γ : Type} [DecidableEq γ] {out' : α → γ} {before entries : List α}
    (h : ∀ a ∈ before ++ entries, ∀ b ∈ before ++ entries, run a = run b →
      (out a = out b ↔ out' a = out' b)) :
    dropRepeats run out before entries = dropRepeats run out' before entries := by
  induction entries generalizing before with
  | nil => rfl
  | cons e rest ih =>
      have hrest : dropRepeats run out (e :: before) rest =
          dropRepeats run out' (e :: before) rest := by
        apply ih
        intro a ha b hb
        exact h a (List.perm_middle.mem_iff.mpr ha) b (List.perm_middle.mem_iff.mpr hb)
      have hshown : out e ∈ shown run out before e ↔ out' e ∈ shown run out' before e := by
        rw [shown, shown, List.mem_map, List.mem_map]
        apply exists_congr
        intro d
        apply and_congr_right
        intro hd
        have hrun := List.mem_takeWhile_imp hd
        rw [decide_eq_true_eq] at hrun
        exact h d (List.mem_append_left _ (List.takeWhile_subset _ hd)) e
          (List.mem_append_right _ List.mem_cons_self) hrun
      rw [dropRepeats, dropRepeats, hrest]
      simp only [hshown]

end Relay.Logic
