import Relay.Logic.Run
import Relay.Web.Objects

/-!
The table of static hosts, `KeyValueEditor` of `ListEditor.jsx` as `HostsTab.jsx`
uses it: an object that is taken apart into rows and put together again at every
keystroke.
-/

namespace Relay.Web

open Logic

/-- `setRow`. -/
def setRow (entries : IndexMap String) (i : Nat) (key value : String) : IndexMap String :=
  fromEntries ((objectEntries entries).set i (key, value))

def addRow (entries : IndexMap String) : IndexMap String :=
  fromEntries (objectEntries entries ++ [("", "")])

/-- A keystroke: the text that it leaves in one of a row's two inputs. -/
inductive Keystroke where
  | key (text : String)
  | value (text : String)
  deriving DecidableEq, Repr

def Keystroke.row (row : String × String) : Keystroke → String × String
  | .key text => (text, row.2)
  | .value text => (row.1, text)

/-- A keystroke in the inputs under an index. Without a row there is no input. -/
def typeAt (i : Nat) (hosts : IndexMap String) (e : Keystroke) : IndexMap String :=
  match (objectEntries hosts)[i]? with
  | some row => setRow hosts i (e.row row).1 (e.row row).2
  | none => hosts

/-- The rows stay as many, and every row but the one under the index keeps its
address. -/
def Framed (hosts : IndexMap String) (i : Nat) (hosts' : IndexMap String) : Prop :=
  (objectEntries hosts').length = (objectEntries hosts).length ∧
    ∀ row ∈ (objectEntries hosts).eraseIdx i, hosts'.get row.1 = some row.2

instance (hosts : IndexMap String) (i : Nat) (hosts' : IndexMap String) :
    Decidable (Framed hosts i hosts') := inferInstanceAs (Decidable (_ ∧ _))

/-- While the edited row is under its index, a keystroke leaves no name in it
that another row has; once another row is there, it changes nothing. -/
def KeepsToRow (hosts : IndexMap String) (i : Nat) (hosts' : IndexMap String) (e : Keystroke) :
    Prop :=
  ∀ row, (objectEntries hosts')[i]? = some row →
    if row.1 ∈ ((objectEntries hosts).eraseIdx i).map Prod.fst then e.row row = row
    else (e.row row).1 ∉ ((objectEntries hosts).eraseIdx i).map Prod.fst

variable {hosts hosts' : IndexMap String} {i : Nat}

/-- The other rows and one more. -/
theorem framed_iff (hi : i < (objectEntries hosts).length) :
    Framed hosts i hosts' ↔
      ∃ row, (objectEntries hosts').Perm (row :: (objectEntries hosts).eraseIdx i) := by
  have hlength : ((objectEntries hosts).eraseIdx i).length + 1 = (objectEntries hosts).length :=
    List.length_eraseIdx_add_one hi
  have hnodup : ((objectEntries hosts).eraseIdx i).Nodup :=
    ((objectEntries_nodup hosts).of_map Prod.fst).sublist (List.eraseIdx_sublist _ i)
  constructor
  · rintro ⟨hcount, hkept⟩
    have hsub : ((objectEntries hosts).eraseIdx i).Subperm (objectEntries hosts') := by
      apply List.subperm_of_subset hnodup
      intro row hrow
      exact get_eq_some_iff_row.mp (hkept row hrow)
    obtain ⟨row, hmore⟩ := hsub.exists_of_length_lt (by omega)
    refine ⟨row, (hmore.perm_of_length_le ?_).symm⟩
    rw [List.length_cons]
    omega
  · rintro ⟨row, hperm⟩
    refine ⟨?_, ?_⟩
    · rw [hperm.length_eq, List.length_cons, hlength]
    · intro other hother
      exact get_eq_some_iff_row.mpr (hperm.mem_iff.mpr (List.mem_cons_of_mem row hother))

/-- A row whose new name no other row has is replaced. -/
theorem setRow_perm {key : String} (hi : i < (objectEntries hosts).length)
    (hkey : key ∉ ((objectEntries hosts).eraseIdx i).map Prod.fst) (value : String) :
    (objectEntries (setRow hosts i key value)).Perm
      ((key, value) :: (objectEntries hosts).eraseIdx i) := by
  have hset := List.set_perm_cons_eraseIdx hi (key, value)
  have hnodup : (((objectEntries hosts).set i (key, value)).map Prod.fst).Nodup := by
    rw [(hset.map Prod.fst).nodup_iff, List.map_cons, List.nodup_cons]
    exact ⟨hkey, (objectEntries_nodup hosts).sublist ((List.eraseIdx_sublist _ i).map _)⟩
  have hentries := objectEntries_perm (setRow hosts i key value)
  unfold setRow at hentries ⊢
  rw [fromEntries_entries hnodup] at hentries
  exact hentries.trans hset

/-- Where a row is named like another one, a row is lost. -/
theorem not_mem_of_setRow_length {key value : String} (hi : i < (objectEntries hosts).length)
    (h : (objectEntries (setRow hosts i key value)).length = (objectEntries hosts).length) :
    key ∉ ((objectEntries hosts).eraseIdx i).map Prod.fst := by
  have hlength : (objectEntries (setRow hosts i key value)).length =
      ((objectEntries hosts).set i (key, value)).length := by
    rw [h, List.length_set]
  have hnodup := nodup_of_length_fromEntries hlength
  have hset := List.set_perm_cons_eraseIdx hi (key, value)
  rw [(hset.map Prod.fst).nodup_iff, List.map_cons, List.nodup_cons] at hnodup
  exact hnodup.1

/-- The row under the index, and the rows beside it. -/
theorem row_perm {row : String × String} (hrow : (objectEntries hosts)[i]? = some row) :
    (row :: (objectEntries hosts).eraseIdx i).Perm (objectEntries hosts) := by
  obtain ⟨hi, rfl⟩ := List.getElem?_eq_some_iff.mp hrow
  exact List.getElem_cons_eraseIdx_perm hi

theorem row_not_mem {row : String × String} (hrow : (objectEntries hosts)[i]? = some row) :
    row.1 ∉ ((objectEntries hosts).eraseIdx i).map Prod.fst := by
  have hnodup := ((row_perm hrow).map Prod.fst).nodup_iff.mpr (objectEntries_nodup hosts)
  exact (List.nodup_cons.mp hnodup).1

/-- Another row under the index, one of those that are to be kept. -/
theorem framed_set_other_iff (hi : i < (objectEntries hosts).length)
    (hframed : Framed hosts i hosts') {row row' : String × String}
    (hrow : (objectEntries hosts')[i]? = some row)
    (hother : row ∈ (objectEntries hosts).eraseIdx i) :
    Framed hosts i (setRow hosts' i row'.1 row'.2) ↔ row' = row := by
  obtain ⟨hi', -⟩ := List.getElem?_eq_some_iff.mp hrow
  constructor
  · intro hnext
    have hkey := not_mem_of_setRow_length hi' (hnext.1.trans hframed.1.symm)
    have hkept := get_eq_some_iff_row.mp (hnext.2 row hother)
    rcases List.mem_cons.mp ((setRow_perm hi' hkey _).mem_iff.mp hkept) with heq | hmem
    · exact heq.symm
    · exact absurd (List.mem_map_of_mem hmem) (row_not_mem hrow)
  · rintro rfl
    obtain ⟨edited, hperm⟩ := (framed_iff hi).mp hframed
    have hset := setRow_perm hi' (row_not_mem hrow) row'.2
    exact (framed_iff hi).mpr ⟨edited, (hset.trans (row_perm hrow)).trans hperm⟩

/-- The edited row under the index. -/
theorem framed_set_own_iff (hi : i < (objectEntries hosts).length)
    (hframed : Framed hosts i hosts') {row row' : String × String}
    (hrow : (objectEntries hosts')[i]? = some row)
    (hperm : (objectEntries hosts').Perm (row :: (objectEntries hosts).eraseIdx i)) :
    Framed hosts i (setRow hosts' i row'.1 row'.2) ↔
      row'.1 ∉ ((objectEntries hosts).eraseIdx i).map Prod.fst := by
  obtain ⟨hi', -⟩ := List.getElem?_eq_some_iff.mp hrow
  have hothers : ((objectEntries hosts').eraseIdx i).Perm ((objectEntries hosts).eraseIdx i) :=
    ((row_perm hrow).trans hperm).cons_inv
  have hkeys := (hothers.map Prod.fst).mem_iff (a := row'.1)
  constructor
  · intro hnext hmem
    exact not_mem_of_setRow_length hi' (hnext.1.trans hframed.1.symm) (hkeys.mpr hmem)
  · intro hkey
    have hset := setRow_perm hi' (fun hmem => hkey (hkeys.mp hmem)) row'.2
    exact (framed_iff hi).mpr ⟨row', hset.trans (hothers.cons row')⟩

/-- What a keystroke keeps of the other rows, when it keeps them. -/
theorem framed_typed_iff (hi : i < (objectEntries hosts).length)
    (hframed : Framed hosts i hosts') (e : Keystroke) :
    Framed hosts i (typeAt i hosts' e) ↔ KeepsToRow hosts i hosts' e := by
  obtain ⟨edited, hperm⟩ := (framed_iff hi).mp hframed
  have hi' : i < (objectEntries hosts').length := hframed.1 ▸ hi
  obtain ⟨row, hrow⟩ : ∃ row, (objectEntries hosts')[i]? = some row :=
    ⟨_, List.getElem?_eq_getElem hi'⟩
  have htyped : typeAt i hosts' e = setRow hosts' i (e.row row).1 (e.row row).2 := by
    unfold typeAt
    rw [hrow]
  have hkeeps : KeepsToRow hosts i hosts' e ↔
      if row.1 ∈ ((objectEntries hosts).eraseIdx i).map Prod.fst then e.row row = row
      else (e.row row).1 ∉ ((objectEntries hosts).eraseIdx i).map Prod.fst := by
    unfold KeepsToRow
    rw [hrow]
    simp
  have hmember := hperm.mem_iff.mp ((row_perm hrow).mem_iff.mp List.mem_cons_self)
  have hnodup := (hperm.map Prod.fst).nodup_iff.mp (objectEntries_nodup hosts')
  rw [List.map_cons, List.nodup_cons] at hnodup
  rw [htyped, hkeeps]
  -- The edited row is the one whose name no other row has.
  split
  · rename_i hmoved
    apply framed_set_other_iff hi hframed hrow
    rcases List.mem_cons.mp hmember with rfl | hother
    · exact absurd hmoved hnodup.1
    · exact hother
  · rename_i hown
    rcases List.mem_cons.mp hmember with rfl | hother
    · exact framed_set_own_iff hi hframed hrow hperm
    · exact absurd (List.mem_map_of_mem hother) hown

/-- Whatever is typed into a row: after every keystroke the other rows are as
they were, exactly when every keystroke keeps to the row. -/
theorem typing_keeps_other_rows_iff (hosts : IndexMap String) (i : Nat)
    (hi : i < (objectEntries hosts).length) (typed : List Keystroke) :
    (∀ seen, seen <+: typed → Framed hosts i (seen.foldl (typeAt i) hosts)) ↔
      ∀ seen e, seen ++ [e] <+: typed → KeepsToRow hosts i (seen.foldl (typeAt i) hosts) e := by
  constructor
  · intro h seen e hseen
    have hbefore := h seen ((List.prefix_append seen [e]).trans hseen)
    have hafter := h (seen ++ [e]) hseen
    rw [List.foldl_concat] at hafter
    exact (framed_typed_iff hi hbefore e).mp hafter
  · intro h seen
    induction seen using List.reverseRecOn with
    | nil =>
        intro _
        refine ⟨rfl, ?_⟩
        intro row hrow
        exact get_eq_some_iff_row.mpr ((List.eraseIdx_sublist _ i).subset hrow)
    | append_singleton seen e ih =>
        intro hseen
        rw [List.foldl_concat]
        have hbefore := ih ((List.prefix_append seen [e]).trans hseen)
        exact (framed_typed_iff hi hbefore e).mpr (h seen e hseen)

/-- What is typed into a new row: a name, and an address of it. -/
def laptopTyped : List Keystroke :=
  [.key "l", .key "la", .key "lap", .value "1", .value "10", .value "10.0.0.3"]

/-- With the name and with the address the row there was is as it was. -/
theorem typing_keeps_nas :
    Framed (addRow (fromEntries [("nas", "10.0.0.2")])) 1
        ((laptopTyped.take 3).foldl (typeAt 1) (addRow (fromEntries [("nas", "10.0.0.2")]))) ∧
      Framed (addRow (fromEntries [("nas", "10.0.0.2")])) 1
        (laptopTyped.foldl (typeAt 1) (addRow (fromEntries [("nas", "10.0.0.2")]))) := by
  have hkeeps := (typing_keeps_other_rows_iff (addRow (fromEntries [("nas", "10.0.0.2")])) 1
    (by decide) laptopTyped).mpr (by
      refine forall_step_cons.mpr ⟨?_, forall_step_cons.mpr ⟨?_, forall_step_cons.mpr ⟨?_,
        forall_step_cons.mpr ⟨?_, forall_step_cons.mpr ⟨?_, forall_step_cons.mpr ⟨?_,
          forall_step_nil⟩⟩⟩⟩⟩⟩
      all_goals
        intro row hrow
        cases hrow
        decide)
  exact ⟨hkeeps _ (List.take_prefix 3 _), hkeeps _ (List.prefix_refl _)⟩

/-- A new row that is to become `nas2` takes the place of `nas` on the way, and
one that begins with a digit hands the next keystroke to another row. -/
theorem typing_loses_nas :
    ¬ Framed (addRow (fromEntries [("nas", "10.0.0.2")])) 1
        ([.key "n", .key "na", .key "nas"].foldl (typeAt 1)
          (addRow (fromEntries [("nas", "10.0.0.2")]))) ∧
      ¬ Framed (addRow (fromEntries [("nas", "10.0.0.2")])) 1
        ([.key "1", .key "nas."].foldl (typeAt 1)
          (addRow (fromEntries [("nas", "10.0.0.2")]))) := by
  decide

end Relay.Web
