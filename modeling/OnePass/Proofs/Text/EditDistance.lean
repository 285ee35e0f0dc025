import Mathlib.Data.List.Infix
import Mathlib.Order.Bounds.Basic
import OnePass.Text.EditDistance

/-!
What the edit distance is. One edit inserts, deletes or replaces a character, at any place of a text. The table
of distances holds the least number of edits that lead from one text to the other, and that number is the
difference of their lengths exactly if dropping characters of one text leaves the other.
-/

namespace OnePass
namespace EditDistance

/-- The second text is the first after one edit. -/
inductive Edit : List Char → List Char → Prop where
  | insert (front rest : List Char) (c : Char) : Edit (front ++ rest) (front ++ c :: rest)
  | delete (front rest : List Char) (c : Char) : Edit (front ++ c :: rest) (front ++ rest)
  | replace (front rest : List Char) (c d : Char) : Edit (front ++ c :: rest) (front ++ d :: rest)

/-- A number of edits, one after the other, lead from the first text to the second. -/
inductive Edits : Nat → List Char → List Char → Prop where
  | none (as : List Char) : Edits 0 as as
  | more {n : Nat} {as bs cs : List Char} (first : Edit as bs) (later : Edits n bs cs) : Edits (n + 1) as cs

variable {as bs cs : List Char} {n m : Nat}

namespace Edit

theorem cons (h : Edit as bs) (c : Char) : Edit (c :: as) (c :: bs) := by
  cases h with
  | insert front rest d => exact .insert (c :: front) rest d
  | delete front rest d => exact .delete (c :: front) rest d
  | replace front rest d e => exact .replace (c :: front) rest d e

theorem symm (h : Edit as bs) : Edit bs as := by
  cases h with
  | insert front rest c => exact .delete front rest c
  | delete front rest c => exact .insert front rest c
  | replace front rest c d => exact .replace front rest d c

theorem length_le (h : Edit as bs) : bs.length ≤ as.length + 1 := by
  cases h <;> simp only [List.length_append, List.length_cons] <;> omega

/-- An edit that makes a text longer drops nothing of it. -/
theorem sublist (h : Edit as bs) (longer : bs.length = as.length + 1) : as.Sublist bs := by
  cases h with
  | insert front rest c => exact (List.Sublist.refl front).append (List.sublist_cons_self c rest)
  | delete front rest c =>
      simp only [List.length_append, List.length_cons] at longer
      omega
  | replace front rest c d =>
      simp only [List.length_append, List.length_cons] at longer
      omega

end Edit

namespace Edits

theorem cons (h : Edits n as bs) (c : Char) : Edits n (c :: as) (c :: bs) := by
  induction h with
  | none => exact .none _
  | more first _ ih => exact .more (first.cons c) ih

theorem trans (h : Edits n as bs) (h' : Edits m bs cs) : Edits (n + m) as cs := by
  induction h with
  | none => exact (Nat.zero_add m).symm ▸ h'
  | more first _ ih => exact Nat.add_right_comm _ 1 m ▸ .more first (ih h')

theorem symm (h : Edits n as bs) : Edits n bs as := by
  induction h with
  | none => exact .none _
  | more first _ ih => exact ih.trans (.more first.symm (.none _))

theorem length_le (h : Edits n as bs) : bs.length ≤ as.length + n := by
  induction h with
  | none => exact Nat.le_refl _
  | more first _ ih =>
      have := first.length_le
      omega

/-- Where each edit makes the text longer, nothing of it is dropped. -/
theorem sublist (h : Edits n as bs) (longer : bs.length = as.length + n) : as.Sublist bs := by
  induction h with
  | none => exact .refl _
  | more first later ih =>
      have hfirst := first.length_le
      have hlater := later.length_le
      exact (first.sublist (by omega)).trans (ih (by omega))

theorem ofSublist (h : as.Sublist bs) : Edits (bs.length - as.length) as bs := by
  induction h with
  | slnil => exact .none []
  | @cons as bs c h ih =>
      have hle := h.length_le
      rw [List.length_cons, Nat.sub_add_comm hle]
      exact .more (.insert [] as c) (ih.cons c)
  | @cons_cons as bs c _ ih =>
      rw [List.length_cons, List.length_cons, Nat.add_sub_add_right]
      exact ih.cons c

end Edits

/-- The fewer of two numbers of edits. -/
theorem Edits.min (h : Edits n as bs) (h' : Edits m as bs) : Edits (min n m) as bs := by
  rcases Nat.le_total n m with hle | hle
  · exact (Nat.min_eq_left hle).symm ▸ h
  · exact (Nat.min_eq_right hle).symm ▸ h'

/-! ### The distance by recursion -/

/-- The distance between two texts from those between their endings. -/
def distance : List Char → List Char → Nat
  | [], bs => bs.length
  | a :: as, [] => as.length + 1
  | a :: as, b :: bs =>
    min (min (distance as (b :: bs) + 1) (distance (a :: as) bs + 1))
      (if a = b then distance as bs else distance as bs + 1)
termination_by as bs => as.length + bs.length

theorem distance_nil (as : List Char) : distance as [] = as.length := by
  cases as with
  | nil => rw [distance]
  | cons => rw [distance]; rfl

theorem lengths_eq (bs : List Char) : lengths bs = bs.tails.map (distance []) := by
  induction bs with
  | nil => simp [lengths, distance]
  | cons b bs ih => simp [lengths, distance, ih]

theorem headD_tails (f : List Char → Nat) (bs : List Char) : (bs.tails.map f).headD 0 = f bs := by
  cases bs <;> rfl

/-- A row of the table holds the distances to all endings, if the row below it does. -/
theorem row_eq (a : Char) (as bs : List Char) :
    row a bs (bs.tails.map (distance as)) = bs.tails.map (distance (a :: as)) := by
  induction bs with
  | nil => simp [row, distance_nil]
  | cons b bs ih => simp only [List.tails, List.map_cons, row, ih, headD_tails, distance]

theorem rows_eq (as bs : List Char) : rows as bs = bs.tails.map (distance as) := by
  induction as with
  | nil => exact lengths_eq bs
  | cons a as ih =>
      rw [rows, List.foldr_cons, ← row_eq]
      exact congrArg (row a bs) ih

theorem editDistance_eq (s t : String) : editDistance s t = distance s.toList t.toList := by
  rw [editDistance, rows_eq, headD_tails]

/-! ### No fewer edits, and no more -/

theorem edits_distance (as bs : List Char) : Edits (distance as bs) as bs := by
  fun_induction distance as bs with
  | case1 bs => exact .ofSublist (List.nil_sublist bs)
  | case2 a as => exact (Edits.ofSublist (List.nil_sublist (a :: as))).symm
  | case3 a as b bs delete insert later =>
      have deleted : Edits (distance as (b :: bs) + 1) (a :: as) (b :: bs) := .more (.delete [] as a) delete
      have inserted : Edits (distance (a :: as) bs + 1) (a :: as) (b :: bs) :=
        .more (.insert [] (a :: as) b) (insert.cons b)
      have kept : Edits (if a = b then distance as bs else distance as bs + 1) (a :: as) (b :: bs) := by
        split
        · rename_i same
          exact same ▸ later.cons a
        · exact .more (.replace [] as a b) (later.cons b)
      exact (deleted.min inserted).min kept

section Bounds

variable (a : Char) (as : List Char) (c : Char) (cs : List Char)

theorem distance_cons_le : distance (a :: as) cs ≤ distance as cs + 1 := by
  cases cs with
  | nil => simp only [distance_nil, List.length_cons, Nat.le_refl]
  | cons => simp only [distance]; omega

theorem distance_le_add_one : distance as (c :: cs) ≤ distance as cs + 1 := by
  cases as with
  | nil => simp only [distance, List.length_cons, Nat.le_refl]
  | cons => simp only [distance]; omega

theorem distance_le_cons : distance as cs ≤ distance (a :: as) cs + 1 := by
  induction cs with
  | nil => simp only [distance_nil, List.length_cons]; omega
  | cons c cs ih =>
      have later := distance_le_add_one as c cs
      rw [distance.eq_3 a]
      split <;> omega

theorem distance_replace_le (b : Char) : distance (a :: as) cs ≤ distance (b :: as) cs + 1 := by
  induction cs with
  | nil => simp only [distance_nil, List.length_cons]; omega
  | cons c cs ih =>
      rw [distance.eq_3 a, distance.eq_3 b]
      split <;> split <;> omega

end Bounds

/-- An edit brings a text nearer to another by one at most. -/
theorem distance_le_of_edit (h : Edit as bs) (cs : List Char) : distance as cs ≤ distance bs cs + 1 := by
  -- what one edit does behind its place does not change when a character is put in front
  have front {as bs : List Char} (h : ∀ cs, distance as cs ≤ distance bs cs + 1) (xs cs : List Char) :
      distance (xs ++ as) cs ≤ distance (xs ++ bs) cs + 1 := by
    induction xs generalizing cs with
    | nil => exact h cs
    | cons x xs ih =>
        rw [List.cons_append, List.cons_append]
        induction cs with
        | nil =>
            have := ih []
            simp only [distance_nil, List.length_cons] at this ⊢
            omega
        | cons c cs ihcs =>
            have whole := ih (c :: cs)
            have later := ih cs
            rw [distance.eq_3 x, distance.eq_3 x]
            split <;> omega
  cases h with
  | insert xs rest c => exact front (distance_le_cons c rest) xs cs
  | delete xs rest c => exact front (distance_cons_le c rest) xs cs
  | replace xs rest c d => exact front (fun cs => distance_replace_le c rest cs d) xs cs

theorem distance_self (as : List Char) : distance as as = 0 := by
  induction as with
  | nil => rw [distance]; rfl
  | cons a as ih => rw [distance.eq_3, if_pos rfl, ih]; exact Nat.min_zero _

theorem distance_le (h : Edits n as bs) : distance as bs ≤ n := by
  induction h with
  | none as => exact Nat.le_of_eq (distance_self as)
  | more first _ ih => exact Nat.le_trans (distance_le_of_edit first _) (Nat.succ_le_succ ih)

/-- Texts whose distance is the difference of their lengths: one has all characters of the other, in order. -/
theorem distance_eq_iff_sublist (hle : as.length ≤ bs.length) :
    distance as bs = bs.length - as.length ↔ as.Sublist bs := by
  constructor
  · intro h
    refine (edits_distance as bs).sublist ?_
    omega
  · intro h
    have upper := distance_le (.ofSublist h)
    have lower := (edits_distance as bs).length_le
    omega

theorem distance_comm (as bs : List Char) : distance as bs = distance bs as :=
  Nat.le_antisymm (distance_le (edits_distance bs as).symm) (distance_le (edits_distance as bs).symm)

end EditDistance

open EditDistance

/-- A distance between texts that is the least number of edits that lead from one to the other. -/
def IsEditDistance (distance : String → String → Nat) : Prop :=
  ∀ s t, IsLeast {n | Edits n s.toList t.toList} (distance s t)

theorem isEditDistance_editDistance : IsEditDistance editDistance := by
  intro s t
  rw [editDistance_eq]
  exact ⟨edits_distance _ _, fun _ => distance_le⟩

theorem IsEditDistance.eq {distance : String → String → Nat} (h : IsEditDistance distance) :
    distance = editDistance :=
  funext fun s => funext fun t => (h s t).unique (isEditDistance_editDistance s t)

/-- The edit distance is the difference of the lengths exactly if one text is left when characters of the other
are dropped. -/
theorem editDistance_eq_iff (s t : String) :
    editDistance s t = max s.length t.length - min s.length t.length ↔
      s.toList.Sublist t.toList ∨ t.toList.Sublist s.toList := by
  rw [editDistance_eq, ← String.length_toList, ← String.length_toList]
  -- the shorter text is the one that is left
  rcases Nat.le_total s.toList.length t.toList.length with hle | hle
  · rw [Nat.max_eq_right hle, Nat.min_eq_left hle, distance_eq_iff_sublist hle]
    exact ⟨.inl, fun h => h.elim id fun h => h.eq_of_length_le hle ▸ .refl _⟩
  · rw [Nat.max_eq_left hle, Nat.min_eq_right hle, distance_comm, distance_eq_iff_sublist hle]
    exact ⟨.inr, fun h => h.elim (fun h => h.eq_of_length_le hle ▸ .refl _) id⟩

end OnePass
