import Mathlib

/-!
# Reading an ordered table page by page

A reader keeps a mark between the rows it has seen and the rows to come. The rows that satisfy
a test are counted to find out how far it has to read for a given number of them.
-/

universe u

namespace Paging

variable {α : Type u}

section Marks

variable [LinearOrder α] {mark a : α} {seen rest : List α}

/-- The mark lies between the rows that were seen and the rows to come. -/
structure Splits (mark : α) (seen rest : List α) : Prop where
  le : ∀ a ∈ seen, a ≤ mark
  lt : ∀ a ∈ rest, mark < a

/-- The rows after the mark are the rows to come. -/
theorem Splits.filter_eq (h : Splits mark seen rest) :
    (seen ++ rest).filter (fun a => decide (mark < a)) = rest := by
  rw [List.filter_append, List.filter_eq_nil_iff.mpr, List.filter_eq_self.mpr, List.nil_append]
  · exact fun a ha => decide_eq_true (h.lt a ha)
  · exact fun a ha => by simpa using h.le a ha

/-- In a table in order, a row is a mark between those up to it and those after it. -/
theorem splits_row (h : (seen ++ a :: rest).Pairwise (· < ·)) : Splits a (seen ++ [a]) rest := by
  obtain ⟨-, hrest, hseen⟩ := List.pairwise_append.mp h
  refine ⟨fun b hb => ?_, (List.pairwise_cons.mp hrest).1⟩
  rcases List.mem_append.mp hb with hb | hb
  · exact (hseen b hb a List.mem_cons_self).le
  · exact (List.mem_singleton.mp hb).le

end Marks

section CutMarks

variable [LinearOrder α] {a b : List α} {n : Nat}

theorem nil_le (b : List α) : [] ≤ b := by
  cases b with
  | nil => exact le_rfl
  | cons c b => exact le_of_lt List.Lex.nil

/-- Cutting a mark leaves it behind every short row that is before it. -/
theorem le_take (ha : a.length ≤ n) (h : a < b) : a ≤ b.take n := by
  induction n generalizing a b with
  | zero =>
    rw [List.length_eq_zero_iff.mp (Nat.le_zero.mp ha)]
    exact nil_le _
  | succ n ih =>
    cases h with
    | nil => exact nil_le _
    | rel hrel => exact le_of_lt (List.Lex.rel hrel)
    | cons htail =>
      rw [List.take_succ_cons]
      exact List.cons_le_cons _ (ih (by simpa using ha) htail)

/-- A mark that is cut falls behind. -/
theorem take_lt (h : n < b.length) : b.take n < b := by
  induction n generalizing b with
  | zero =>
    obtain ⟨c, cs, rfl⟩ := List.exists_cons_of_length_pos h
    exact List.Lex.nil
  | succ n ih =>
    obtain ⟨c, cs, rfl⟩ := List.exists_cons_of_length_pos (Nat.zero_lt_of_lt h)
    rw [List.take_succ_cons]
    exact List.Lex.cons (ih (by simpa using h))

end CutMarks

section Reach

variable (p : α → Bool)

/-- The number of rows to read until the test was met the given number of times. -/
def reach : Nat → List α → Nat
  | 0, _ => 0
  | _ + 1, [] => 0
  | n + 1, a :: l => 1 + reach (if p a then n else n + 1) l

variable {p}

@[simp] theorem reach_zero (l : List α) : reach p 0 l = 0 := by
  cases l <;> rfl

@[simp] theorem reach_nil (n : Nat) : reach p n [] = 0 := by
  cases n <;> rfl

theorem reach_le_length (n : Nat) (l : List α) : reach p n l ≤ l.length := by
  induction l generalizing n with
  | nil => simp
  | cons a l ih =>
    cases n with
    | zero => simp
    | succ n =>
      have := ih (if p a then n else n + 1)
      rw [reach, List.length_cons]
      omega

/-- Reading for some hits and then for more is reading for all of them. -/
theorem reach_add (m n : Nat) (l : List α) :
    reach p (m + n) l = reach p m l + reach p n (l.drop (reach p m l)) := by
  induction l generalizing m with
  | nil => simp
  | cons a l ih =>
    cases m with
    | zero => simp
    | succ m =>
      have hsucc : m + 1 + n = m + n + 1 := by omega
      rw [hsucc, reach, reach, Nat.add_comm 1 (reach p (if p a then m else m + 1) l),
        List.drop_succ_cons]
      cases ha : p a with
      | true =>
        have := ih m
        simp only [if_true]
        omega
      | false =>
        have := ih (m + 1)
        rw [hsucc] at this
        simp only [Bool.false_eq_true, if_false]
        omega

/-- How many hits are among the rows read. -/
theorem countP_take_reach (n : Nat) (l : List α) :
    (l.take (reach p n l)).countP p = min n (l.countP p) := by
  induction l generalizing n with
  | nil => simp
  | cons a l ih =>
    cases n with
    | zero => simp
    | succ n =>
      rw [reach, Nat.add_comm, List.take_succ_cons, List.countP_cons, List.countP_cons, ih]
      cases p a with
      | true => simp
      | false => simp

theorem countP_drop_reach (n : Nat) (l : List α) :
    (l.drop (reach p n l)).countP p = l.countP p - n := by
  have htake := countP_take_reach (p := p) n l
  have hall := congrArg (List.countP p) (List.take_append_drop (reach p n l) l)
  rw [List.countP_append] at hall
  omega

theorem reach_pos {n : Nat} {l : List α} (hn : 0 < n) (hl : l ≠ []) : 0 < reach p n l := by
  obtain ⟨a, l, rfl⟩ := List.exists_cons_of_ne_nil hl
  obtain ⟨n, rfl⟩ := Nat.exists_eq_succ_of_ne_zero hn.ne'
  rw [reach]
  omega

/-- With too few hits everything is read. -/
theorem reach_eq_length {n : Nat} {l : List α} (h : l.countP p < n) : reach p n l = l.length := by
  induction l generalizing n with
  | nil => simp
  | cons a l ih =>
    obtain ⟨n, rfl⟩ := Nat.exists_eq_succ_of_ne_zero (Nat.ne_zero_of_lt h)
    rw [List.countP_cons] at h
    rw [reach, ih, List.length_cons, Nat.add_comm]
    cases ha : p a with
    | true =>
      rw [ha] at h
      simp only [if_true] at h ⊢
      omega
    | false =>
      rw [ha] at h
      simpa using h

/-- Only the rows that are read matter. -/
theorem reach_append {n : Nat} {l l' : List α} (h : n ≤ l.countP p) :
    reach p n (l ++ l') = reach p n l := by
  induction l generalizing n with
  | nil =>
    obtain rfl : n = 0 := by simpa using h
    simp
  | cons a l ih =>
    cases n with
    | zero => simp
    | succ n =>
      rw [List.countP_cons] at h
      rw [List.cons_append, reach, reach, ih]
      cases ha : p a with
      | true =>
        rw [ha] at h
        simp only [if_true] at h ⊢
        omega
      | false =>
        rw [ha] at h
        simpa using h

/-- Where the first rows hold too few hits, they are all read. -/
theorem reach_append_of_lt {n : Nat} {l l' : List α} (h : l.countP p < n) :
    reach p n (l ++ l') = l.length + reach p (n - l.countP p) l' := by
  induction l generalizing n with
  | nil => simp
  | cons a l ih =>
    obtain ⟨n, rfl⟩ := Nat.exists_eq_succ_of_ne_zero (Nat.ne_zero_of_lt h)
    rw [List.countP_cons] at h ⊢
    rw [List.cons_append, reach, List.length_cons]
    cases ha : p a with
    | true =>
      rw [ha] at h
      simp only [if_true] at h ⊢
      rw [ih (by omega), Nat.succ_sub_succ]
      omega
    | false =>
      rw [ha] at h
      simp only [Bool.false_eq_true, if_false, Nat.add_zero] at h ⊢
      rw [ih h]
      omega

end Reach

/-- The least multiple of `m` that is not below `n`. -/
def roundUp (m n : Nat) : Nat := (n + m - 1) / m * m

theorem roundUp_eq_self {m n : Nat} (hn : 0 < n) (h : n ≤ m) : roundUp m n = m := by
  have hdiv : (n + m - 1) / m = 1 := by
    rw [Nat.div_eq_iff (by omega)]
    omega
  rw [roundUp, hdiv, Nat.one_mul]

theorem roundUp_add {m n : Nat} (hm : 0 < m) : roundUp m (m + n) = m + roundUp m n := by
  have hsum : m + n + m - 1 = n + m - 1 + m := by omega
  rw [roundUp, roundUp, hsum, Nat.add_div_right _ hm, Nat.succ_mul, Nat.add_comm]

/-! ## Following marks -/

section Following

universe v

variable {ρ : Type u} {μ : Type v}

/-- What is answered to a mark: some rows, and the mark to go on from. -/
structure Answer (ρ : Type u) (μ : Type v) where
  rows : List ρ
  next : Option μ

/-- The rows of the first answers, each asked for by the mark of the one before, and whether the
last of them had no mark. The answers may change while they are asked for. -/
def run (ask : Nat → Option μ → Answer ρ μ) : Nat → Nat → Option μ → List ρ × Bool
  | 0, _, _ => ([], false)
  | n + 1, i, mark =>
    match (ask i mark).next with
    | none => ((ask i mark).rows, true)
    | some m =>
      ((ask i mark).rows ++ (run ask n (i + 1) (some m)).1, (run ask n (i + 1) (some m)).2)

/-- A mark that is answered with one like it is followed for ever. -/
theorem run_endless {ask : Nat → Option μ → Answer ρ μ} {J : Option μ → Prop}
    (hask : ∀ i mark, J mark → ∃ m, (ask i mark).next = some m ∧ J (some m)) (n i : Nat)
    {mark : Option μ} (hmark : J mark) : (run ask n i mark).2 = false := by
  induction n generalizing i mark with
  | zero => rfl
  | succ n ih =>
    obtain ⟨m, hnext, hm⟩ := hask i mark hmark
    rw [run, hnext]
    exact ih (i + 1) hm

/-- Two ways of asking give the same rows, if they agree on the marks that are reached. -/
theorem run_congr {ν : Type v} {ask : Nat → Option μ → Answer ρ μ}
    {ask' : Nat → Option ν → Answer ρ ν} (f : μ → ν) {J : Option μ → Prop}
    (hask : ∀ i mark, J mark → (ask i mark).rows = (ask' i (mark.map f)).rows ∧
      (ask i mark).next.map f = (ask' i (mark.map f)).next ∧
      ∀ m, (ask i mark).next = some m → J (some m))
    (n i : Nat) {mark : Option μ} (hmark : J mark) :
    run ask n i mark = run ask' n i (mark.map f) := by
  induction n generalizing i mark with
  | zero => rfl
  | succ n ih =>
    obtain ⟨hrows, hnext, hJ⟩ := hask i mark hmark
    rw [run, run, hrows, ← hnext]
    cases hm : (ask i mark).next with
    | none => rfl
    | some m =>
      have hrest := ih (i + 1) (hJ m hm)
      rw [Option.map_some] at hrest
      rw [Option.map_some]
      dsimp only
      rw [hrest]

end Following

section Keyset

universe v

variable {ρ : Type u} {κ : Type v} [LinearOrder κ] (key : ρ → κ) (limit : Nat)

/-- The rows after the mark. -/
def rowsAfter (rows : List ρ) (mark : Option κ) : List ρ :=
  rows.filter fun r => mark.all fun m => decide (m < key r)

/-- A page of the rows after the mark, and the mark of its last row if there are more. -/
def pageAfter (rows : List ρ) (mark : Option κ) : Answer ρ κ where
  rows := (rowsAfter key rows mark).take limit
  next :=
    if limit < (rowsAfter key rows mark).length then
      ((rowsAfter key rows mark).take limit).getLast?.map key
    else none

variable {key limit} {rows : List ρ} {mark : Option κ}

/-- The rows are in the order of their keys, and no two have one. -/
def Ordered (key : ρ → κ) (rows : List ρ) : Prop := rows.Pairwise fun a b => key a < key b

theorem mem_rowsAfter {r : ρ} :
    r ∈ rowsAfter key rows mark ↔ r ∈ rows ∧ ∀ m, mark = some m → m < key r := by
  cases mark <;> simp [rowsAfter]

theorem Ordered.rowsAfter (h : Ordered key rows) (mark : Option κ) :
    Ordered key (rowsAfter key rows mark) :=
  List.Pairwise.filter _ h

/-- The mark of a page is the key of a row. -/
theorem pageAfter_next_mem {m : κ} (h : (pageAfter key limit rows mark).next = some m) :
    ∃ r ∈ rows, key r = m := by
  unfold pageAfter at h
  dsimp only at h
  split at h
  · obtain ⟨last, hlast, rfl⟩ := Option.map_eq_some_iff.mp h
    exact ⟨last, (mem_rowsAfter.mp (List.mem_of_mem_take (List.mem_of_getLast? hlast))).1, rfl⟩
  · cases h

/-- A page without a mark holds all rows that are left. -/
theorem pageAfter_last (h : (pageAfter key limit rows mark).next = none) (hlimit : 0 < limit) :
    (pageAfter key limit rows mark).rows = rowsAfter key rows mark := by
  have hshort : ¬ limit < (rowsAfter key rows mark).length := by
    intro hlong
    rw [pageAfter, if_pos hlong, Option.map_eq_none_iff, List.getLast?_eq_none_iff,
      List.take_eq_nil_iff] at h
    rcases h with h | h
    · omega
    · rw [h] at hlong
      exact Nat.not_lt_zero _ hlong
  exact List.take_of_length_le (by omega)

/-- A page with a mark ends in the row of the mark, which comes before the rows that are left. -/
theorem pageAfter_more {m : κ} (h : (pageAfter key limit rows mark).next = some m)
    (hrows : Ordered key rows) :
    (pageAfter key limit rows mark).rows ≠ [] ∧
      (∀ r ∈ (pageAfter key limit rows mark).rows, key r ≤ m) ∧
      rowsAfter key rows mark =
        (pageAfter key limit rows mark).rows ++ (rowsAfter key rows mark).drop limit ∧
      ∀ r ∈ (rowsAfter key rows mark).drop limit, m < key r := by
  have hordered := hrows.rowsAfter mark
  unfold pageAfter at h ⊢
  dsimp only at h ⊢
  split at h
  · obtain ⟨last, hlast, rfl⟩ := Option.map_eq_some_iff.mp h
    obtain ⟨before, hbefore⟩ := List.getLast?_eq_some_iff.mp hlast
    have hsplit := (List.take_append_drop limit (rowsAfter key rows mark)).symm
    rw [Ordered, hsplit, List.pairwise_append] at hordered
    obtain ⟨htake, -, hacross⟩ := hordered
    refine ⟨List.ne_nil_of_mem (List.mem_of_getLast? hlast), fun r hr => ?_, hsplit,
      fun r hr => hacross last (List.mem_of_getLast? hlast) r hr⟩
    rw [hbefore, List.pairwise_append] at htake
    rw [hbefore] at hr
    rcases List.mem_append.mp hr with hr | hr
    · exact (htake.2.2 r hr last (List.mem_singleton.mpr rfl)).le
    · rw [List.mem_singleton.mp hr]
  · cases h

/-- What is left after the mark of a page is what the page has left out. -/
theorem rowsAfter_next {m : κ} (h : (pageAfter key limit rows mark).next = some m)
    (hrows : Ordered key rows) :
    rowsAfter key rows (some m) = (rowsAfter key rows mark).drop limit := by
  obtain ⟨hne, hle, hsplit, hlt⟩ := pageAfter_more h hrows
  have hm : ∀ m', mark = some m' → m' < m := by
    rintro m' rfl
    obtain ⟨r, hr⟩ := List.exists_mem_of_ne_nil _ hne
    have hmem : r ∈ rowsAfter key rows (some m') := List.mem_of_mem_take hr
    exact lt_of_lt_of_le ((mem_rowsAfter.mp hmem).2 m' rfl) (hle r hr)
  have hfilter : rowsAfter key rows (some m) =
      (rowsAfter key rows mark).filter fun r => decide (m < key r) := by
    rw [rowsAfter, rowsAfter, List.filter_filter]
    refine List.filter_congr fun r _ => ?_
    cases mark with
    | none => simp
    | some m' =>
      have := hm m' rfl
      by_cases hr : m < key r
      · simp [hr, this.trans hr]
      · simp [hr]
  rw [hfilter]
  conv_lhs => rw [hsplit]
  rw [List.filter_append, List.filter_eq_nil_iff.mpr fun r hr => by simpa using hle r hr,
    List.nil_append, List.filter_eq_self.mpr fun r hr => decide_eq_true (hlt r hr)]

/-- The mark of a page is the least key only where the page is of one row, and not the last. -/
theorem pageAfter_next_least {m : κ} (hleast : ∀ k, ¬ k < m)
    (h : (pageAfter key limit rows mark).next = some m) (hrows : Ordered key rows) :
    limit = 1 ∧ (∃ r ∈ rows, key r = m) ∧ ∃ r ∈ rows, m < key r := by
  obtain ⟨hne, hle, hsplit, hlt⟩ := pageAfter_more h hrows
  have hordered := hrows.rowsAfter mark
  rw [Ordered, hsplit, List.pairwise_append] at hordered
  have hlong : limit < (rowsAfter key rows mark).length := by
    by_contra hshort
    rw [pageAfter, if_neg hshort] at h
    cases h
  have hone : (pageAfter key limit rows mark).rows.length = limit := by
    rw [pageAfter, List.length_take]
    omega
  cases hpage : (pageAfter key limit rows mark).rows with
  | nil => exact absurd hpage hne
  | cons first others =>
    rw [hpage] at hordered hone hle
    cases others with
    | cons second others =>
      have hbefore := (List.pairwise_cons.mp hordered.1).1 second List.mem_cons_self
      have hsecond := hle second (List.mem_cons_of_mem _ List.mem_cons_self)
      exact absurd (hbefore.trans_le hsecond) (hleast _)
    | nil =>
      have hdrop : (rowsAfter key rows mark).drop limit ≠ [] := by
        rw [ne_eq, List.drop_eq_nil_iff]
        omega
      obtain ⟨r, hr⟩ := List.exists_mem_of_ne_nil _ hdrop
      exact ⟨hone.symm, pageAfter_next_mem h, r,
        (mem_rowsAfter.mp (List.mem_of_mem_drop hr)).1, hlt r hr⟩

/-- A first page of one row, that of the least key, has it as its mark. -/
theorem pageAfter_one_least {m : κ} (hleast : ∀ k, ¬ k < m) (hrows : Ordered key rows)
    (hm : ∃ r ∈ rows, key r = m) (hother : ∃ r ∈ rows, key r ≠ m) :
    (pageAfter key 1 rows none).next = some m := by
  obtain ⟨r, hr, hkey⟩ := hm
  obtain ⟨other, hmem, hne⟩ := hother
  have hall : rowsAfter key rows none = rows := List.filter_eq_self.mpr fun _ _ => rfl
  rw [pageAfter, hall]
  cases rows with
  | nil => cases hr
  | cons first rest =>
    have hfirst : key first = m := by
      obtain rfl | hr := List.mem_cons.mp hr
      · exact hkey
      · exact absurd (hkey ▸ (List.pairwise_cons.mp hrows).1 r hr) (hleast _)
    obtain rfl | hmem := List.mem_cons.mp hmem
    · exact absurd hfirst hne
    · have hpos := List.length_pos_of_mem hmem
      rw [if_pos (by rw [List.length_cons]; omega)]
      exact congrArg some hfirst

/-- Sorting rows of which no two have one key puts them in order. -/
theorem ordered_mergeSort (h : (rows.map key).Nodup) :
    Ordered key (rows.mergeSort fun a b => decide (key a ≤ key b)) := by
  have hsorted : (rows.mergeSort fun a b => decide (key a ≤ key b)).Pairwise
      fun a b => decide (key a ≤ key b) = true := by
    apply List.pairwise_mergeSort
    · intro a b c hab hbc
      exact decide_eq_true (le_trans (of_decide_eq_true hab) (of_decide_eq_true hbc))
    · intro a b
      simpa using le_total (key a) (key b)
  have hdistinct : (rows.mergeSort fun a b => decide (key a ≤ key b)).Pairwise
      fun a b => key a ≠ key b := by
    have hperm := (List.mergeSort_perm rows fun a b => decide (key a ≤ key b)).map key
    exact List.pairwise_map.mp (hperm.nodup_iff.mpr h)
  exact (hsorted.and hdistinct).imp fun hab => lt_of_le_of_ne (of_decide_eq_true hab.1) hab.2

/-- The rows after a mark may be cut out before they are sorted. -/
theorem rowsAfter_mergeSort (h : (rows.map key).Nodup) (mark : Option κ) :
    rowsAfter key (rows.mergeSort fun a b => decide (key a ≤ key b)) mark =
      (rowsAfter key rows mark).mergeSort fun a b => decide (key a ≤ key b) := by
  have hsub : ((rowsAfter key rows mark).map key).Nodup :=
    h.sublist (List.filter_sublist.map key)
  have hleft := (ordered_mergeSort h).rowsAfter mark
  have hright := ordered_mergeSort hsub
  refine List.Perm.eq_of_pairwise (fun a b _ _ hab hba => ?_) hleft hright ?_
  · exact absurd hab (lt_asymm hba)
  · exact ((List.mergeSort_perm rows _).filter _).trans (List.mergeSort_perm _ _).symm

section Runs

variable {tables : Nat → List ρ}

/-- The pages of a table that stays as it is give every row after the mark, and end. -/
theorem run_pageAfter (hlimit : 0 < limit) (hrows : Ordered key rows) (i : Nat)
    (mark : Option κ) :
    ∃ n, run (fun _ => pageAfter key limit rows) n i mark = (rowsAfter key rows mark, true) := by
  induction hlength : (rowsAfter key rows mark).length using Nat.strong_induction_on
    generalizing i mark with
  | _ length ih =>
    cases hnext : (pageAfter key limit rows mark).next with
    | none =>
      refine ⟨1, ?_⟩
      rw [run, hnext]
      exact Prod.ext (pageAfter_last hnext hlimit) rfl
    | some m =>
      obtain ⟨hne, -, hsplit, -⟩ := pageAfter_more hnext hrows
      have hrest := rowsAfter_next hnext hrows
      have hshorter : (rowsAfter key rows (some m)).length < length := by
        have hpos := List.length_pos_of_ne_nil hne
        rw [hrest, ← hlength]
        conv_rhs => rw [hsplit]
        rw [List.length_append]
        omega
      obtain ⟨n, hn⟩ := ih _ hshorter (i + 1) (some m) rfl
      refine ⟨n + 1, ?_⟩
      rw [run, hnext]
      dsimp only
      rw [hn, hrest]
      exact Prod.ext hsplit.symm rfl

/-- Whatever becomes of the table between two pages, the rows come in order, and after the
mark. -/
theorem run_ordered (htables : ∀ i, Ordered key (tables i)) (n i : Nat) (mark : Option κ) :
    Ordered key (run (fun i => pageAfter key limit (tables i)) n i mark).1 ∧
      ∀ r ∈ (run (fun i => pageAfter key limit (tables i)) n i mark).1,
        ∀ m, mark = some m → m < key r := by
  induction n generalizing i mark with
  | zero => exact ⟨List.Pairwise.nil, fun r hr => absurd hr List.not_mem_nil⟩
  | succ n ih =>
    have hpage : Ordered key (pageAfter key limit (tables i) mark).rows :=
      ((htables i).rowsAfter mark).sublist (List.take_sublist _ _)
    have hafter : ∀ r ∈ (pageAfter key limit (tables i) mark).rows,
        ∀ m, mark = some m → m < key r :=
      fun r hr => (mem_rowsAfter.mp (List.mem_of_mem_take hr)).2
    rw [run]
    cases hnext : (pageAfter key limit (tables i) mark).next with
    | none => exact ⟨hpage, hafter⟩
    | some m =>
      obtain ⟨hne, hle, -, -⟩ := pageAfter_more hnext (htables i)
      obtain ⟨hrest, hm⟩ := ih (i + 1) (some m)
      refine ⟨List.pairwise_append.mpr ⟨hpage, hrest, fun a ha b hb => ?_⟩, fun r hr m' hm' => ?_⟩
      · exact lt_of_le_of_lt (hle a ha) (hm b hb m rfl)
      · rcases List.mem_append.mp hr with hr | hr
        · exact hafter r hr m' hm'
        · obtain ⟨first, hfirst⟩ := List.exists_mem_of_ne_nil _ hne
          exact ((hafter first hfirst m' hm').trans_le (hle first hfirst)).trans (hm r hr m rfl)

/-- Rows that are added behind the mark are behind it in what is left. -/
theorem rowsAfter_append {more : List ρ} (hmore : ∀ r ∈ more, ∀ m, mark = some m → m < key r) :
    rowsAfter key (rows ++ more) mark = rowsAfter key rows mark ++ more := by
  rw [rowsAfter, List.filter_append, rowsAfter]
  congr 1
  refine List.filter_eq_self.mpr fun r hr => ?_
  cases hm : mark with
  | none => rfl
  | some m => exact decide_eq_true (hmore r hr m hm)

theorem exists_append (happend : ∀ i, ∃ more, tables (i + 1) = tables i ++ more) {i j : Nat}
    (h : i ≤ j) : ∃ more, tables j = tables i ++ more := by
  induction j, h using Nat.le_induction with
  | base => exact ⟨[], (List.append_nil _).symm⟩
  | succ j _ ih =>
    obtain ⟨more, hmore⟩ := ih
    obtain ⟨last, hlast⟩ := happend j
    exact ⟨more ++ last, by rw [hlast, hmore, List.append_assoc]⟩

/-- Where rows are only added, and behind all others, the pages give the rows of the table at the
time of the last page, once there is no mark. -/
theorem run_of_appended (hlimit : 0 < limit) (htables : ∀ i, Ordered key (tables i))
    (happend : ∀ i, ∃ more, tables (i + 1) = tables i ++ more) (n i : Nat) (mark : Option κ)
    (hend : (run (fun i => pageAfter key limit (tables i)) n i mark).2 = true) :
    ∃ j, i ≤ j ∧ j < i + n ∧ (run (fun i => pageAfter key limit (tables i)) n i mark).1 =
      rowsAfter key (tables j) mark := by
  induction n generalizing i mark with
  | zero => cases hend
  | succ n ih =>
    rw [run] at hend ⊢
    cases hnext : (pageAfter key limit (tables i) mark).next with
    | none => exact ⟨i, le_rfl, by omega, pageAfter_last hnext hlimit⟩
    | some m =>
      rw [hnext] at hend
      obtain ⟨j, hij, hjn, hrest⟩ := ih (i + 1) (some m) hend
      obtain ⟨more, hmore⟩ := exists_append happend (Nat.le_of_succ_le hij)
      obtain ⟨hne, hle, hsplit, -⟩ := pageAfter_more hnext (htables i)
      obtain ⟨last, hlast, rfl⟩ := pageAfter_next_mem hnext
      have hbehind : ∀ r ∈ more, key last < key r := by
        have hordered := htables j
        rw [Ordered, hmore, List.pairwise_append] at hordered
        exact hordered.2.2 last hlast
      have hmark : ∀ m, mark = some m → m < key last := by
        obtain ⟨r, hr⟩ := List.exists_mem_of_ne_nil _ hne
        intro m hm
        exact ((mem_rowsAfter.mp (List.mem_of_mem_take hr)).2 m hm).trans_le (hle r hr)
      have hfirst : rowsAfter key (tables j) mark = rowsAfter key (tables i) mark ++ more := by
        rw [hmore]
        exact rowsAfter_append fun r hr m hm => (hmark m hm).trans (hbehind r hr)
      have hsecond : rowsAfter key (tables j) (some (key last)) =
          (rowsAfter key (tables i) mark).drop limit ++ more := by
        rw [← rowsAfter_next hnext (htables i), hmore]
        exact rowsAfter_append fun r hr m hm => Option.some.inj hm ▸ hbehind r hr
      refine ⟨j, by omega, by omega, ?_⟩
      dsimp only
      rw [hrest, hfirst, hsecond, ← List.append_assoc, ← hsplit]

/-- Every row given is a row of the table at the time of its page. -/
theorem run_sound (n i : Nat) (mark : Option κ) {r : ρ}
    (hr : r ∈ (run (fun i => pageAfter key limit (tables i)) n i mark).1) :
    ∃ j, i ≤ j ∧ j < i + n ∧ r ∈ tables j := by
  induction n generalizing i mark with
  | zero => cases hr
  | succ n ih =>
    have hpage : ∀ r ∈ (pageAfter key limit (tables i) mark).rows, r ∈ tables i :=
      fun r hr => (mem_rowsAfter.mp (List.mem_of_mem_take hr)).1
    rw [run] at hr
    cases hnext : (pageAfter key limit (tables i) mark).next with
    | none =>
      rw [hnext] at hr
      exact ⟨i, le_rfl, by omega, hpage r hr⟩
    | some m =>
      rw [hnext] at hr
      rcases List.mem_append.mp hr with hr | hr
      · exact ⟨i, le_rfl, by omega, hpage r hr⟩
      · obtain ⟨j, hj, hlt, hmem⟩ := ih (i + 1) (some m) hr
        exact ⟨j, by omega, by omega, hmem⟩

/-- A key that stays in the table is among those given, once the pages have ended. -/
theorem run_mem (hlimit : 0 < limit) (htables : ∀ i, Ordered key (tables i)) (n i : Nat)
    (mark : Option κ)
    (hended : (run (fun i => pageAfter key limit (tables i)) n i mark).2 = true) {k : κ}
    (hk : ∀ j, i ≤ j → j < i + n → ∃ r ∈ tables j, key r = k)
    (hmark : ∀ m, mark = some m → m < k) :
    ∃ r ∈ (run (fun i => pageAfter key limit (tables i)) n i mark).1, key r = k := by
  induction n generalizing i mark with
  | zero => cases hended
  | succ n ih =>
    obtain ⟨r, hr, rfl⟩ := hk i le_rfl (by omega)
    have hafter : r ∈ rowsAfter key (tables i) mark := mem_rowsAfter.mpr ⟨hr, hmark⟩
    rw [run] at hended ⊢
    cases hnext : (pageAfter key limit (tables i) mark).next with
    | none =>
      rw [hnext] at hended
      dsimp only
      rw [pageAfter_last hnext hlimit]
      exact ⟨r, hafter, rfl⟩
    | some m =>
      obtain ⟨-, -, hsplit, hlt⟩ := pageAfter_more hnext (htables i)
      rw [hnext] at hended
      rw [hsplit] at hafter
      dsimp only at hended ⊢
      rcases List.mem_append.mp hafter with hpage | hrest
      · exact ⟨r, List.mem_append_left _ hpage, rfl⟩
      · obtain ⟨r', hr', hkey⟩ := ih (i + 1) (some m) hended
          (fun j hj hlt => hk j (by omega) (by omega)) (fun m' hm' => by
            cases hm'
            exact hlt r hrest)
        exact ⟨r', List.mem_append_right _ hr', hkey⟩

end Runs

end Keyset

end Paging
