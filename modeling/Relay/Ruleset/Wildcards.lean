import Relay.Ruleset.Accepted
import Relay.Ruleset.LetterCase
import Relay.Ruleset.WildcardRegex

/-!
What an AdGuard wildcard says and what its pattern does. A rule is about the
names that it matches and the names below them; a pattern that does not start
with a star is anchored to the start of the name, and a dot behind several stars
is lost, so that the pattern runs across the border of a label.
-/

namespace Relay.Ruleset.Adguard

open Binary Dns Text

/-! ### Names -/

/-- Labels that are not empty, without capitals and without the end of a line. -/
def NormalText (text : List Char) : Prop :=
  FullLabels '.' text ∧ ∀ c ∈ text, c.isUpper = false ∧ c ≠ '\n'

/-- A domain as the rulesets are asked for it: in its normal form, with labels
that are not empty and in one line. -/
structure NormalDomain (d : String) : Prop where
  normal : normalizeDomainStr d = d
  labels : FullLabels '.' d.toList
  oneLine : '\n' ∉ d.toList

theorem NormalText.labels {text : List Char} (h : NormalText text) : FullLabels '.' text := h.1

theorem NormalText.oneLine {text : List Char} (h : NormalText text) : '\n' ∉ text :=
  fun hmem => (h.2 _ hmem).2 rfl

theorem NormalText.of_boundary {back text : List Char} (h : NormalText text)
    (hback : AtBoundary '.' back text) : NormalText back :=
  ⟨h.labels.of_boundary hback, fun c hc => h.2 c (hback.mem hc)⟩

theorem normalDomain_iff (d : String) : NormalDomain d ↔ NormalText d.toList := by
  constructor
  · intro h
    refine ⟨h.labels, ?_⟩
    intro c hc
    have hlower : d.toList.any Char.isUpper = false := by
      rw [← h.normal]
      exact any_isUpper_toAsciiLowercase _
    refine ⟨?_, fun hnl => h.oneLine (hnl ▸ hc)⟩
    simpa using List.any_eq_false.mp hlower c hc
  · intro h
    refine ⟨?_, h.labels, h.oneLine⟩
    have hlast : d.toList.getLast? ≠ some '.' := h.labels.getLast?_ne
    have hlower : d.toList.any Char.isUpper = false := by
      rw [List.any_eq_false]
      intro c hc
      simp [(h.2 c hc).1]
    have htrim : trimEndDots d = d := trimEndMatches_eq_self hlast
    rw [normalizeDomainStr, htrim, toAsciiLowercase_eq_self hlower]

/-! ### What a rule says -/

/-- A rule is about a name if it matches the end of the name behind some label,
or from the start. Stars in front of a dot may stand for nothing, together with
the dot. -/
def Meant (pattern name : List Char) : Prop :=
  ∃ back, AtBoundary '.' back name ∧
    (Glob '*' pattern back ∨
      ∃ k rest, pattern = List.replicate (k + 1) '*' ++ '.' :: rest ∧ Glob '*' rest back)

/-- Stars in front of a dot are about what the rest matches. -/
theorem meant_stars_dot {k : Nat} {rest name : List Char} :
    Meant (List.replicate (k + 1) '*' ++ '.' :: rest) name ↔
      ∃ back, AtBoundary '.' back name ∧ Glob '*' rest back := by
  constructor
  · rintro ⟨back, hback, hglob | ⟨m, rest', heq, hglob⟩⟩
    · obtain ⟨front, _, rfl, hdot⟩ := (glob_stars k).mp hglob
      obtain ⟨back, rfl, hrest⟩ := (glob_cons (by decide)).mp hdot
      exact ⟨back, hback.trans (Or.inr ⟨front, rfl⟩), hrest⟩
    · have hsame := (stars_unique (by simp) (by simp) heq).2
      rw [(List.cons.inj hsame).2]
      exact ⟨back, hback, hglob⟩
  · rintro ⟨back, hback, hglob⟩
    exact ⟨back, hback, Or.inr ⟨k, rest, rfl, hglob⟩⟩

/-- Any other pattern is about what it matches itself. -/
theorem meant_other {k : Nat} {rest name : List Char} (hstar : rest.head? ≠ some '*')
    (hdot : k = 0 ∨ rest.head? ≠ some '.') :
    Meant (List.replicate k '*' ++ rest) name ↔
      ∃ back, AtBoundary '.' back name ∧ Glob '*' (List.replicate k '*' ++ rest) back := by
  constructor
  · rintro ⟨back, hback, hglob | ⟨m, rest', heq, _⟩⟩
    · exact ⟨back, hback, hglob⟩
    · obtain ⟨rfl, rfl⟩ := stars_unique hstar (by simp) heq
      rcases hdot with hk | hdot
      · omega
      · simp at hdot
  · rintro ⟨back, hback, hglob⟩
    exact ⟨back, hback, Or.inl hglob⟩

/-! ### Names of the same shape -/

/-- The pattern, as its pieces, matches the name. -/
def Matches (pattern name : List Char) : Prop :=
  name ∈ (piecesRegex (wildcardPieces true pattern)).language

theorem matches_labels {rest name : List Char} (h : NormalText name) :
    Matches ('*' :: '.' :: rest) name ↔
      ∃ back, AtBoundary '.' back name ∧ Glob '*' (undot false rest) back :=
  mem_wildcardPieces_labels h.oneLine h.labels

theorem matches_other {pattern name : List Char} (hother : ∀ rest, pattern ≠ '*' :: '.' :: rest)
    (h : NormalText name) : Matches pattern name ↔ Glob '*' (undot true pattern) name :=
  mem_wildcardPieces_other h.oneLine hother

theorem effective_other {pattern : List Char} (hother : ∀ rest, pattern ≠ '*' :: '.' :: rest) :
    effective pattern = undot true pattern := by
  unfold effective
  split
  · rename_i rest
    exact absurd rfl (hother rest)
  · rfl

/-- A letter that a star of a pattern may stand for. -/
def IsFiller (c : Char) : Prop := c.isUpper = false ∧ c ≠ '\n' ∧ c ≠ '.'

theorem isFiller_x : IsFiller 'x' := ⟨by decide, by decide, by decide⟩

theorem isFiller_y : IsFiller 'y' := ⟨by decide, by decide, by decide⟩

/-- A pattern that matches a domain is a domain itself, with a letter for every
star. -/
theorem NormalText.fill {filler : Char} (hfiller : IsFiller filler) {pattern name : List Char}
    (h : NormalText name) (hglob : Glob '*' pattern name) :
    NormalText (fill '*' filler pattern) := by
  refine ⟨hglob.fullLabels_fill hfiller.2.2 h.labels, ?_⟩
  intro c hc
  rcases mem_fill hc with rfl | ⟨hin, hne⟩
  · exact ⟨hfiller.1, hfiller.2.1⟩
  · exact h.2 c (hglob.mem hin hne)

/-- A name below it, with a label of one letter. -/
theorem NormalText.below {filler : Char} (hfiller : IsFiller filler) {name : List Char}
    (h : NormalText name) : NormalText (filler :: '.' :: name) := by
  have happend : FullLabels '.' ([filler] ++ '.' :: name) :=
    fullLabels_append.mpr ⟨fullLabels_singleton hfiller.2.2, h.labels⟩
  refine ⟨happend, ?_⟩
  intro c hc
  rcases List.mem_cons.mp hc with rfl | hc
  · exact ⟨hfiller.1, hfiller.2.1⟩
  · rcases List.mem_cons.mp hc with rfl | hc
    · exact ⟨by decide, by decide⟩
    · exact h.2 c hc

/-- Some domain is what the pattern matches. -/
def Matchable (pattern : List Char) : Prop := NormalText (fill '*' 'x' (effective pattern))

theorem Matchable.fill {pattern : List Char} (h : Matchable pattern) {filler : Char}
    (hfiller : IsFiller filler) : NormalText (fill '*' filler (effective pattern)) :=
  NormalText.fill hfiller h (glob_fill 'x' _)

theorem matches_fill {pattern : List Char} {filler : Char}
    (h : NormalText (fill '*' filler (effective pattern))) :
    Matches pattern (fill '*' filler (effective pattern)) := by
  by_cases hlabels : ∃ rest, pattern = '*' :: '.' :: rest
  · obtain ⟨rest, rfl⟩ := hlabels
    exact (matches_labels h).mpr ⟨_, Or.inl rfl, glob_fill filler _⟩
  · have hother := not_exists.mp hlabels
    rw [effective_other hother] at h ⊢
    exact (matches_other hother h).mpr (glob_fill filler _)

/-- Where the pattern is matched at all, its effective form is matched behind
some label. -/
theorem Matches.effective {pattern name : List Char} (hname : NormalText name)
    (h : Matches pattern name) :
    ∃ back, AtBoundary '.' back name ∧ Glob '*' (effective pattern) back := by
  by_cases hlabels : ∃ rest, pattern = '*' :: '.' :: rest
  · obtain ⟨rest, rfl⟩ := hlabels
    exact (matches_labels hname).mp h
  · have hother := not_exists.mp hlabels
    rw [effective_other hother]
    exact ⟨name, Or.inl rfl, (matches_other hother hname).mp h⟩

/-- A pattern has a dot behind one star, a dot behind several, or neither. -/
theorem pattern_cases {motive : List Char → Prop} (pattern : List Char)
    (labels : ∀ rest, motive ('*' :: '.' :: rest))
    (stars : ∀ k rest, motive (List.replicate (k + 2) '*' ++ '.' :: rest))
    (other : ∀ k rest, rest.head? ≠ some '*' → (k = 0 ∨ rest.head? ≠ some '.') →
      motive (List.replicate k '*' ++ rest)) : motive pattern := by
  obtain ⟨k, rest, rfl, hstar⟩ := exists_stars '*' pattern
  by_cases hdot : k = 0 ∨ rest.head? ≠ some '.'
  · exact other k rest hstar hdot
  · obtain ⟨hk, hhead⟩ := not_or.mp hdot
    obtain ⟨rest, rfl⟩ := List.head?_eq_some_iff.mp (not_not.mp hhead)
    match k with
    | 0 => exact absurd rfl hk
    | 1 => exact labels rest
    | k + 2 => exact stars k rest

theorem stars_ne_labels (k : Nat) (rest : List Char) :
    ∀ back, List.replicate (k + 2) '*' ++ '.' :: rest ≠ '*' :: '.' :: back := by
  intro back heq
  simp [List.replicate_succ] at heq

theorem other_ne_labels {k : Nat} {rest : List Char} (hstar : rest.head? ≠ some '*')
    (hdot : k = 0 ∨ rest.head? ≠ some '.') :
    ∀ back, List.replicate k '*' ++ rest ≠ '*' :: '.' :: back := by
  intro back heq
  have hone : List.replicate k '*' ++ rest = List.replicate 1 '*' ++ '.' :: back := heq
  obtain ⟨rfl, rfl⟩ := stars_unique hstar (by simp) hone
  simp at hdot

theorem Meant.effective {pattern name : List Char} (h : Meant pattern name) :
    ∃ back, AtBoundary '.' back name ∧ Glob '*' (effective pattern) back := by
  induction pattern using pattern_cases with
  | labels rest =>
      obtain ⟨back, hback, hglob⟩ := (meant_stars_dot (k := 0)).mp h
      exact ⟨back, hback, glob_undot false hglob⟩
  | stars k rest =>
      obtain ⟨back, hback, hglob⟩ := meant_stars_dot.mp h
      rw [effective_other (stars_ne_labels k rest), undot_stars_dot]
      exact ⟨back, hback, (glob_stars _).mpr ⟨[], back, rfl, glob_undot false hglob⟩⟩
  | other k rest hstar hdot =>
      obtain ⟨back, hback, hglob⟩ := (meant_other hstar hdot).mp h
      rw [effective_other (other_ne_labels hstar hdot)]
      exact ⟨back, hback, glob_undot true hglob⟩

/-! ### Where both agree -/

/-- The pieces match the domains that the rule is about. -/
def Agrees (pattern : List Char) : Prop :=
  ∀ name, NormalText name → (Matches pattern name ↔ Meant pattern name)

theorem Agrees.of_not_matchable {pattern : List Char} (h : ¬ Matchable pattern) :
    Agrees pattern := by
  intro name hname
  have hnone : ¬ ∃ back, AtBoundary '.' back name ∧ Glob '*' (effective pattern) back := by
    rintro ⟨back, hback, hglob⟩
    exact h (NormalText.fill isFiller_x (hname.of_boundary hback) hglob)
  exact iff_of_false (fun hmatch => hnone (hmatch.effective hname)) fun hmeant => hnone hmeant.effective

/-- If both agree, the rule is about the name that the pattern itself is. -/
theorem Agrees.meant_fill {pattern : List Char} (h : Agrees pattern) (hlive : Matchable pattern)
    {filler : Char} (hfiller : IsFiller filler) :
    Meant pattern (fill '*' filler (effective pattern)) :=
  (h _ (hlive.fill hfiller)).mp (matches_fill (hlive.fill hfiller))

/-- A pattern that matches behind a label of the filled pattern has no more
dots than that. -/
theorem count_le_of_boundary {filler : Char} (hfiller : IsFiller filler)
    {pattern back filled : List Char} (hback : AtBoundary '.' back (fill '*' filler filled))
    (hglob : Glob '*' pattern back) : pattern.count '.' ≤ filled.count '.' := by
  have hcount : (fill '*' filler filled).count '.' = filled.count '.' :=
    count_fill hfiller.2.2 (by decide)
  have hle := hglob.count_le (c := '.') (by decide)
  have hboundary := hback.count_le
  omega

/-- With as many dots it matches all of the filled pattern. -/
theorem eq_of_boundary {filler : Char} (hfiller : IsFiller filler)
    {pattern back filled : List Char} (hback : AtBoundary '.' back (fill '*' filler filled))
    (hglob : Glob '*' pattern back) (hcount : filled.count '.' ≤ pattern.count '.') :
    back = fill '*' filler filled := by
  apply hback.eq_of_count_le
  rw [count_fill hfiller.2.2 (by decide)]
  exact hcount.trans (hglob.count_le (by decide))

/-- A star and a dot, and then no dot behind several stars. -/
theorem agrees_labels_iff {rest : List Char} (hlive : Matchable ('*' :: '.' :: rest)) :
    Agrees ('*' :: '.' :: rest) ↔ undot false rest = rest := by
  have hmeant : ∀ name, Meant ('*' :: '.' :: rest) name ↔
      ∃ back, AtBoundary '.' back name ∧ Glob '*' rest back :=
    fun name => meant_stars_dot (k := 0)
  constructor
  · intro h
    obtain ⟨back, hback, hglob⟩ := (hmeant _).mp (h.meant_fill hlive isFiller_x)
    exact undot_eq_of_count_le (count_le_of_boundary isFiller_x hback hglob)
  · intro hsame name hname
    rw [matches_labels hname, hmeant, hsame]

/-- Several stars and a dot, and then a star. -/
theorem agrees_stars_dot_iff {k : Nat} {rest : List Char}
    (hlive : Matchable (List.replicate (k + 2) '*' ++ '.' :: rest)) :
    Agrees (List.replicate (k + 2) '*' ++ '.' :: rest) ↔
      undot false rest = rest ∧ rest.head? = some '*' := by
  have heffective : effective (List.replicate (k + 2) '*' ++ '.' :: rest) =
      List.replicate (k + 2) '*' ++ undot false rest := by
    rw [effective_other (stars_ne_labels k rest), undot_stars_dot]
  constructor
  · intro h
    have hfilled : ∀ filler, IsFiller filler → ∃ back,
        AtBoundary '.' back (fill '*' filler (List.replicate (k + 2) '*' ++ undot false rest)) ∧
          Glob '*' rest back := by
      intro filler hfiller
      have hmeant := h.meant_fill hlive hfiller
      rw [heffective] at hmeant
      exact meant_stars_dot.mp hmeant
    have hsame : undot false rest = rest := by
      obtain ⟨back, hback, hglob⟩ := hfilled 'x' isFiller_x
      have hle := count_le_of_boundary isFiller_x hback hglob
      rw [List.count_append, List.count_replicate] at hle
      exact undot_eq_of_count_le (by simpa using hle)
    -- otherwise the rest would start with every letter that a star may stand for
    have hstart : ∀ filler, IsFiller filler → rest.head? ≠ some '*' →
        rest.head? = some filler := by
      intro filler hfiller hstar
      obtain ⟨back, hback, hglob⟩ := hfilled filler hfiller
      rw [hsame] at hback
      have hnone : (List.replicate (k + 2) '*').count '.' = 0 := by simp [List.count_replicate]
      have hall := eq_of_boundary hfiller hback hglob (by rw [List.count_append]; omega)
      rw [hall] at hglob
      exact hglob.head? hstar
    refine ⟨hsame, by_contra fun hstar => ?_⟩
    have hletters := (hstart 'x' isFiller_x hstar).symm.trans (hstart 'y' isFiller_y hstar)
    revert hletters
    decide
  · rintro ⟨hsame, hhead⟩ name hname
    obtain ⟨rest, rfl⟩ := List.head?_eq_some_iff.mp hhead
    have hstars : List.replicate (k + 2) '*' ++ '*' :: rest =
        List.replicate (k + 3) '*' ++ rest := by
      simp [List.replicate_succ' (n := k + 2)]
    rw [matches_other (stars_ne_labels k _) hname, undot_stars_dot, hsame, meant_stars_dot,
      exists_boundary_star_iff, hstars, glob_stars, glob_star]

/-- Stars without a dot, and then no dot behind several stars. -/
theorem agrees_stars_iff {k : Nat} {rest : List Char} (hstar : rest.head? ≠ some '*')
    (hdot : rest.head? ≠ some '.') (hlive : Matchable (List.replicate (k + 1) '*' ++ rest)) :
    Agrees (List.replicate (k + 1) '*' ++ rest) ↔ undot true rest = rest := by
  have hother := other_ne_labels (k := k + 1) hstar (Or.inr hdot)
  have hundot := undot_stars (k + 1) hdot
  constructor
  · intro h
    have hmeant := h.meant_fill hlive isFiller_x
    rw [effective_other hother, hundot] at hmeant
    obtain ⟨back, hback, hglob⟩ := (meant_other hstar (Or.inr hdot)).mp hmeant
    have hle := count_le_of_boundary isFiller_x hback hglob
    rw [List.count_append, List.count_append] at hle
    exact undot_eq_of_count_le (by omega)
  · intro hsame name hname
    rw [matches_other hother hname, hundot, hsame, meant_other hstar (Or.inr hdot),
      List.replicate_succ, List.cons_append, exists_boundary_star_iff]

/-- A pattern that does not start with a star misses the names below. -/
theorem not_agrees {pattern : List Char} (hstar : pattern.head? ≠ some '*')
    (hlive : Matchable pattern) : ¬ Agrees pattern := by
  intro h
  have hother : ∀ rest, pattern ≠ '*' :: '.' :: rest := other_ne_labels (k := 0) hstar (Or.inl rfl)
  have hmeant : ∀ name, Meant pattern name ↔
      ∃ back, AtBoundary '.' back name ∧ Glob '*' pattern back :=
    fun name => meant_other (k := 0) hstar (Or.inl rfl)
  have hsame : undot true pattern = pattern := by
    obtain ⟨back, hback, hglob⟩ := (hmeant _).mp (h.meant_fill hlive isFiller_x)
    rw [effective_other hother] at hback
    exact undot_eq_of_count_le (count_le_of_boundary isFiller_x hback hglob)
  have hnormal : NormalText (fill '*' 'x' pattern) := by
    have hfill := hlive
    rwa [Matchable, effective_other hother, hsame] at hfill
  -- the pattern would start with every letter that a name below may start with
  have hstart : ∀ filler, IsFiller filler → pattern.head? = some filler := by
    intro filler hfiller
    have hbelow : Meant pattern (filler :: '.' :: fill '*' 'x' pattern) :=
      (hmeant _).mpr ⟨_, Or.inr ⟨[filler], rfl⟩, glob_fill 'x' pattern⟩
    have hmatch := (h _ (hnormal.below hfiller)).mpr hbelow
    rw [matches_other hother (hnormal.below hfiller), hsame] at hmatch
    exact hmatch.head? hstar
  have hletters := (hstart 'x' isFiller_x).symm.trans (hstart 'y' isFiller_y)
  revert hletters
  decide

/-! ### The condition -/

/-- Stars at the start, and no dot behind several stars; only the dot behind
those at the start may be one, if a star follows it. -/
def KeepsMeaning (pattern : List Char) : Prop :=
  ∃ k rest, pattern = List.replicate (k + 1) '*' ++ rest ∧ rest.head? ≠ some '*' ∧
    ¬ ['*', '*', '.'] <:+: rest ∧ (0 < k → rest.head? = some '.' → ['.', '*'] <+: rest)

theorem keepsMeaning_stars_iff {k : Nat} {rest : List Char} (hstar : rest.head? ≠ some '*') :
    KeepsMeaning (List.replicate (k + 1) '*' ++ rest) ↔
      ¬ ['*', '*', '.'] <:+: rest ∧ (0 < k → rest.head? = some '.' → ['.', '*'] <+: rest) := by
  constructor
  · rintro ⟨m, rest', heq, hstar', hclean, hdot⟩
    obtain ⟨hk, rfl⟩ := stars_unique hstar hstar' heq
    obtain rfl : k = m := by omega
    exact ⟨hclean, hdot⟩
  · rintro ⟨hclean, hdot⟩
    exact ⟨k, rest, rfl, hstar, hclean, hdot⟩

theorem not_keepsMeaning {pattern : List Char} (hstar : pattern.head? ≠ some '*') :
    ¬ KeepsMeaning pattern := by
  rintro ⟨k, rest, rfl, _⟩
  simp [List.replicate_succ] at hstar

/-- A dot in front changes nothing. -/
theorem undot_rest_iff (rest : List Char) :
    undot false rest = rest ↔ ¬ ['*', '*', '.'] <:+: '.' :: rest := by
  rw [undot_eq_self_iff, List.infix_cons_iff, List.cons_prefix_cons]
  simp

/-- Pattern and rule agree if the rule keeps its meaning, or no domain is
matched. -/
theorem agrees_iff (pattern : List Char) :
    Agrees pattern ↔ KeepsMeaning pattern ∨ ¬ Matchable pattern := by
  by_cases hlive : Matchable pattern
  · rw [or_iff_left (not_not.mpr hlive)]
    induction pattern using pattern_cases with
    | labels rest =>
        have hkeeps : KeepsMeaning ('*' :: '.' :: rest) ↔ ¬ ['*', '*', '.'] <:+: '.' :: rest :=
          (keepsMeaning_stars_iff (k := 0) (by simp)).trans (by simp)
        rw [agrees_labels_iff hlive, hkeeps, undot_rest_iff]
    | stars k rest =>
        rw [agrees_stars_dot_iff hlive, keepsMeaning_stars_iff (by simp), undot_rest_iff,
          List.cons_prefix_cons]
        cases rest <;> simp [eq_comm]
    | other k rest hstar hdot =>
        cases k with
        | zero => exact iff_of_false (not_agrees hstar hlive) (not_keepsMeaning hstar)
        | succ k =>
            have hnodot := hdot.resolve_left (Nat.succ_ne_zero k)
            have hprefix : ¬ ['*', '.'] <+: rest := by
              rintro ⟨back, rfl⟩
              exact hstar rfl
            rw [agrees_stars_iff hstar hnodot hlive, keepsMeaning_stars_iff hstar,
              undot_eq_self_iff]
            simp [hnodot, hprefix]
  · exact iff_of_true (Agrees.of_not_matchable hlive) (Or.inr hlive)

/-! ### The rule in a list -/

variable {T : NetText} {R : RegexCrate}

/-- Letters, digits, dashes, dots and stars. -/
def IsWildcard (p : String) : Prop := ∀ c ∈ p.toList, c = '*' ∨ isNameChar c = true

theorem isWildcard_of_all {p : String}
    (h : (p.toList.all fun c => c == '*' || isNameChar c) = true) : IsWildcard p := by
  intro c hc
  simpa using List.all_eq_true.mp h c hc

theorem IsWildcard.not_mem {p : String} (h : IsWildcard p) {d : Char}
    (hd : isNameChar d = false ∧ d ≠ '*') : d ∉ p.toList := by
  intro hmem
  have hname := (h d hmem).resolve_left hd.2
  rw [hd.1] at hname
  cases hname

theorem IsWildcard.not_isWhitespace {p : String} (h : IsWildcard p) :
    ∀ c ∈ p.toList, isWhitespace c = false := by
  intro c hc
  rcases h c hc with rfl | hname
  · decide
  · exact not_isWhitespace_of_isNameChar hname

/-- The line `||p^`. -/
theorem parse_wildcard {p : String} (hp : IsWildcard p) :
    (parse T R ("||" ++ (p ++ "^"))).entries = (parseWildcardOrPlain R p .domainSuffix).toList := by
  have hnot : ∀ d, isNameChar d = false ∧ d ≠ '*' ∧ d ≠ '|' ∧ d ≠ '^' →
      d ∉ ("||" ++ (p ++ "^")).toList := by
    rintro d ⟨hname, hstar, hpipe, hend⟩ hmem
    rw [String.toList_append, String.toList_append, List.mem_append, List.mem_append] at hmem
    rcases hmem with hmem | hmem | hmem
    · exact hpipe (by simpa using hmem)
    · exact hp.not_mem ⟨hname, hstar⟩ hmem
    · exact hend (List.mem_singleton.mp hmem)
  have hspace : ∀ c ∈ ("||" ++ (p ++ "^")).toList, isWhitespace c = false :=
    not_isWhitespace_append (not_isWhitespace_of_any rfl)
      (not_isWhitespace_append hp.not_isWhitespace (not_isWhitespace_of_any rfl))
  have hhead : ("||" ++ (p ++ "^")).toList.head? = some '|' := by
    rw [String.toList_append]
    rfl
  rw [parse_entries_of_line (hnot _ (by decide)), lineEntry_eq_toEntry, trim_eq_self hspace,
    parseLine_pipe hhead (hnot _ (by decide)) (hnot _ (by decide)) (hnot _ (by decide)) hspace,
    Parsed.toEntry_ofRule, parseBody, stripPrefix_append]
  dsimp only
  rw [stripAnchors_end (hp.not_mem (by decide)) (hp.not_mem (by decide)) hp.not_isWhitespace,
    if_neg Bool.false_ne_true]

/-- A single star and a dot make a suffix, and every other wildcard a pattern. -/
theorem parse_stars {p : String} (hp : IsWildcard p) (hstar : '*' ∈ p.toList) :
    (parse T R ("||" ++ (p ++ "^"))).entries =
      match singlePrefix p with
      | some rest => ((Reading.name rest .domainSuffix).rule R).toList
      | none => ((Reading.pattern (buildWildcardRegex p) .domainRegex).rule R).toList := by
  have hhost : wildcardHost p = p :=
    wildcardHost_eq_self (hp.not_mem (by decide)) (hp.not_mem (by decide))
      (hp.not_mem (by decide)) hp.not_isWhitespace
  rw [parse_wildcard hp, parseWildcardOrPlain_eq, readWildcardOrPlain, hhost,
    if_neg (by rw [contains_of_mem rfl hstar]; simp)]
  cases singlePrefix p <;> rfl

/-- The pattern of a wildcard is what `build_wildcard_regex` writes. -/
theorem regex_of_parse {p regex : String} (hp : IsWildcard p) (hstar : '*' ∈ p.toList)
    (hentry : domainEntry regex .domainRegex ∈ (parse T R ("||" ++ (p ++ "^"))).entries) :
    regex = buildWildcardRegex p ∧ R.compiles regex = .ok () := by
  rw [parse_stars hp hstar] at hentry
  cases hsingle : singlePrefix p with
  | some rest =>
      rw [hsingle] at hentry
      dsimp only at hentry
      rw [Reading.rule_name, Option.mem_toList] at hentry
      split at hentry
      · have htype : EntryType.domainSuffix = .domainRegex :=
          congrArg RuleEntry.ruleType (Option.some.inj hentry)
        cases htype
      · cases hentry
  | none =>
      rw [hsingle] at hentry
      dsimp only at hentry
      rw [Reading.rule_pattern, Option.mem_toList] at hentry
      split at hentry
      · rename_i hvalid
        have hdomain : buildWildcardRegex p = regex :=
          congrArg RuleEntry.domain (Option.some.inj hentry)
        rw [hdomain] at hvalid
        obtain ⟨_, hcompiles⟩ := isOk_iff.mp hvalid
        exact ⟨hdomain.symm, hcompiles⟩
      · cases hentry

/-- The pattern of a rule matches the domains that the rule is about if and
only if the rule keeps its meaning or no domain is matched. -/
theorem wildcard_means_iff (T : NetText) {R : RegexCrate} (hR : ReadsPieces R) {p regex : String}
    (hp : IsWildcard p) (hstar : '*' ∈ p.toList)
    (hentry : domainEntry regex .domainRegex ∈ (parse T R ("||" ++ (p ++ "^"))).entries) :
    (∀ d, NormalDomain d → (R.isMatch regex d = true ↔ Meant p.toList d.toList)) ↔
      KeepsMeaning p.toList ∨ ¬ Matchable p.toList := by
  obtain ⟨rfl, hcompiles⟩ := regex_of_parse hp hstar hentry
  have hmatch : ∀ d : String, R.isMatch (buildWildcardRegex p) d = true ↔
      Matches p.toList d.toList := by
    rw [buildWildcardRegex_eq] at hcompiles ⊢
    exact hR _ (wildcardPieces_isPlain hp) hcompiles
  rw [← agrees_iff]
  constructor
  · intro h name hname
    have hnormal : NormalDomain (String.ofList name) :=
      (normalDomain_iff _).mpr (by rwa [String.toList_ofList])
    have hdomain := h _ hnormal
    rwa [hmatch, String.toList_ofList] at hdomain
  · intro h d hd
    rw [hmatch]
    exact h _ ((normalDomain_iff d).mp hd)

/-! ### A crate that reads pieces -/

/-- The first piece of a text. -/
def readPiece (cs : List Char) : Option (Piece × List Char) :=
  match [Piece.labels, .dot, .anyText, .lit '.'].find? fun piece => piece.text.isPrefixOf cs with
  | some piece => some (piece, cs.drop piece.text.length)
  | none =>
      match cs with
      | [] => none
      | c :: rest => some (.lit c, rest)

def readPieces : Nat → List Char → List Piece
  | 0, _ => []
  | fuel + 1, cs =>
      match readPiece cs with
      | none => []
      | some (piece, rest) => piece :: readPieces fuel rest

/-- A crate that compiles everything, and reads the pieces between the first
and the last character of a pattern. -/
def pieceRegex : RegexCrate where
  RegexSet := List String
  compiles _ := .ok ()
  isMatch pattern text :=
    (piecesRegex (readPieces pattern.length pattern.toList.tail.dropLast)).accepts text.toList
  newSet patterns := .ok patterns
  isMatchSet patterns text := patterns.any fun pattern =>
    (piecesRegex (readPieces pattern.length pattern.toList.tail.dropLast)).accepts text.toList

theorem escapeRegexRange_of_isNameChar {c : Char} (h : isNameChar c = true) (hdot : c ≠ '.') :
    escapeRegexRange [c] = [c] := by
  rw [isNameChar, Bool.or_eq_true, Bool.or_eq_true, beq_iff_eq, beq_iff_eq] at h
  rw [escapeRegexRange, List.flatMap_singleton, if_neg hdot]
  rcases h with (halphanum | hname) | rfl
  · rw [if_pos halphanum, ite_self]
  · exact absurd hname hdot
  · rfl

theorem isPrefixOf_of_head {d c : Char} {front cs : List Char} (hfront : front.head? = some d)
    (h : d ≠ c) : front.isPrefixOf (c :: cs) = false := by
  obtain ⟨rest, rfl⟩ := List.head?_eq_some_iff.mp hfront
  rw [List.isPrefixOf_cons_cons, beq_false_of_ne h, Bool.false_and]

theorem readPiece_text {piece : Piece} (h : piece.isPlain = true) (rest : List Char) :
    readPiece (piece.text ++ rest) = some (piece, rest) := by
  cases piece with
  | labels => rfl
  | dot => rfl
  | anyText => rfl
  | lit c =>
      by_cases hdot : c = '.'
      · subst hdot
        rfl
      · have hname : isNameChar c = true := h
        have htext : (Piece.lit c).text = [c] := escapeRegexRange_of_isNameChar hname hdot
        have hnone : ([Piece.labels, .dot, .anyText, .lit '.'].find? fun piece =>
            piece.text.isPrefixOf (c :: rest)) = none := by
          have hother : ∀ d, isNameChar d = false → d ≠ c := by
            rintro d hd rfl
            rw [hname] at hd
            cases hd
          rw [List.find?_eq_none]
          intro piece hpiece
          rw [Bool.not_eq_true]
          simp only [List.mem_cons, List.not_mem_nil, or_false] at hpiece
          rcases hpiece with rfl | rfl | rfl | rfl
          · exact isPrefixOf_of_head rfl (hother '(' (by decide))
          · exact isPrefixOf_of_head rfl (hother '(' (by decide))
          · exact isPrefixOf_of_head rfl (Ne.symm hdot)
          · exact isPrefixOf_of_head rfl (hother '\\' (by decide))
        rw [htext, List.singleton_append, readPiece, hnone]

theorem readPieces_piecesText {pieces : List Piece} (h : ∀ piece ∈ pieces, piece.isPlain = true)
    {fuel : Nat} (hfuel : pieces.length ≤ fuel) : readPieces fuel (piecesText pieces) = pieces := by
  induction pieces generalizing fuel with
  | nil =>
      cases fuel with
      | zero => rfl
      | succ fuel => rfl
  | cons piece pieces ih =>
      cases fuel with
      | zero => simp at hfuel
      | succ fuel =>
          rw [piecesText_cons, readPieces, readPiece_text (h piece List.mem_cons_self)]
          have hrest := ih (fun q hq => h q (List.mem_cons_of_mem piece hq)) (Nat.le_of_succ_le_succ hfuel)
          dsimp only
          rw [hrest]

theorem length_le_piecesText (pieces : List Piece) :
    pieces.length ≤ (piecesText pieces).length := by
  induction pieces with
  | nil => exact Nat.le_refl 0
  | cons piece pieces ih =>
      have hpiece : 1 ≤ piece.text.length := by
        cases piece with
        | lit c =>
            rw [text_lit, escapeRegexRange, List.flatMap_singleton]
            split
            · simp
            · split
              · simp
              · split <;> simp
        | anyText => decide
        | labels => decide
        | dot => decide
      rw [piecesText_cons, List.length_append, List.length_cons]
      omega

theorem pieceRegex_readsPieces : ReadsPieces pieceRegex := by
  intro pieces hplain _ text
  have hpieces : readPieces (anchored pieces).length (anchored pieces).toList.tail.dropLast = pieces := by
    have htext : (anchored pieces).toList.tail.dropLast = piecesText pieces := by
      rw [anchored, String.toList_ofList, List.cons_append, List.tail_cons, List.dropLast_concat]
    have hfuel : pieces.length ≤ (anchored pieces).length := by
      have hle := length_le_piecesText pieces
      rw [anchored, String.length_ofList]
      simp
      omega
    rw [htext, readPieces_piecesText hplain hfuel]
  change (piecesRegex (readPieces (anchored pieces).length
    (anchored pieces).toList.tail.dropLast)).accepts text.toList = true ↔ _
  rw [hpieces, Regex.accepts_iff]

theorem pieceRegex_entry {p : String} (hp : IsWildcard p) (hstar : '*' ∈ p.toList)
    (hsingle : singlePrefix p = none) :
    domainEntry (buildWildcardRegex p) .domainRegex ∈
      (parse T pieceRegex ("||" ++ (p ++ "^"))).entries := by
  rw [parse_stars hp hstar, hsingle]
  exact List.mem_singleton.mpr rfl

/-- A star at the start. -/
theorem wildcard_means_ads :
    KeepsMeaning ("*ads.com").toList ∧ ∀ d, NormalDomain d →
      (pieceRegex.isMatch (buildWildcardRegex "*ads.com") d = true ↔
        Meant ("*ads.com").toList d.toList) := by
  have hkeeps : KeepsMeaning ("*ads.com").toList :=
    ⟨0, ("ads.com").toList, rfl, by decide, by decide, by simp⟩
  have hp : IsWildcard "*ads.com" := isWildcard_of_all (by decide)
  have hentry : domainEntry (buildWildcardRegex "*ads.com") .domainRegex ∈
      (parse zeroAddressText pieceRegex ("||" ++ ("*ads.com" ++ "^"))).entries :=
    pieceRegex_entry hp (by decide) (by decide)
  exact ⟨hkeeps, (wildcard_means_iff zeroAddressText pieceRegex_readsPieces hp (by decide)
    hentry).mpr (Or.inl hkeeps)⟩

/-- The dot behind two stars is lost. -/
example : pieceRegex.isMatch (buildWildcardRegex "**.example.org") "notexample.org" = true := by
  decide +kernel

/-- The rule `||ads*.com^` is about `x.ads1.com`, and its pattern `^ads.*\.com$`
is not. -/
theorem prefix_misses_subdomain :
    ¬ ∀ (T : NetText) (R : RegexCrate), ReadsPieces R → ∀ p regex : String, IsWildcard p →
      '*' ∈ p.toList →
      domainEntry regex .domainRegex ∈ (parse T R ("||" ++ (p ++ "^"))).entries →
      ∀ d, NormalDomain d → (R.isMatch regex d = true ↔ Meant p.toList d.toList) := by
  intro hclaim
  have hp : IsWildcard "ads*.com" := isWildcard_of_all (by decide)
  have hentry : domainEntry (buildWildcardRegex "ads*.com") .domainRegex ∈
      (parse zeroAddressText pieceRegex ("||" ++ ("ads*.com" ++ "^"))).entries :=
    pieceRegex_entry hp (by decide) (by decide)
  have hlabels : ∀ label ∈ ("x.ads1.com").toList.splitOn '.', label ≠ [] := by decide
  have hnormal : NormalDomain "x.ads1.com" := ⟨by decide +kernel, hlabels, by decide⟩
  have hfill : fill '*' '1' ("ads*.com").toList = ("ads1.com").toList := by decide
  have hglob : Glob '*' ("ads*.com").toList ("ads1.com").toList := hfill ▸ glob_fill '1' _
  have hmeant : Meant ("ads*.com").toList ("x.ads1.com").toList :=
    ⟨_, Or.inr ⟨['x'], rfl⟩, Or.inl hglob⟩
  have hmatch := (hclaim zeroAddressText pieceRegex pieceRegex_readsPieces _ _ hp (by decide)
    hentry "x.ads1.com" hnormal).mpr hmeant
  revert hmatch
  decide +kernel

end Relay.Ruleset.Adguard
