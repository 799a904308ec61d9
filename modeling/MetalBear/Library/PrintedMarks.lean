import MetalBear.Library.Paging

/-!
# Following marks that are printed

A mark goes to the reader as a text, and the reader sends it back. Some marks may not be read as
what was printed. In a table that stays as it is, the reader comes past the same marks on every
way, and gets all rows if and only if every one of them is read back.
-/

universe u v w x

namespace Paging

variable {ρ : Type u} {κ : Type v} {γ : Type w} {σ : Type x}

/-- The rows in another form, and the mark printed. -/
def Answer.print (item : ρ → σ) (text : κ → γ) (answer : Answer ρ κ) : Answer σ γ where
  rows := answer.rows.map item
  next := answer.next.map text

section Following

variable (ask : Option γ → Option (Answer σ γ))

/-- The rows of all answers, where none is refused and the last has no mark. -/
def follow : Nat → Option γ → Option (List σ)
  | 0, _ => none
  | n + 1, mark =>
    match ask mark with
    | none => none
    | some answer =>
      match answer.next with
      | none => some answer.rows
      | some m => (follow n (some m)).map (answer.rows ++ ·)

/-- What a reader asks with that begins at the beginning and follows the marks. -/
inductive Asked : Option γ → Prop
  | first : Asked none
  | next {mark : Option γ} {answer : Answer σ γ} {m : γ} :
    Asked mark → ask mark = some answer → answer.next = some m → Asked (some m)

variable {ask} {mark mark' : Option γ}

/-- A mark that is answered like another is followed like it. -/
theorem follow_congr (h : ask mark = ask mark') (n : Nat) :
    follow ask n mark = follow ask n mark' := by
  cases n with
  | zero => rfl
  | succ n => rw [follow, follow, h]

theorem follow_refused (h : ask mark = none) (n : Nat) : follow ask n mark = none := by
  cases n with
  | zero => rfl
  | succ n => rw [follow, h]

end Following

variable (key : ρ → κ) (limit : Nat) (rows : List ρ)

/-- The mark that so many pages lead to. -/
def markAt (pages : Nat) : Option κ :=
  if pages = 0 then none else rows[pages * limit - 1]?.map key

/-- All rows are good on which a page ends and is not the last. -/
def EndsGood (Good : ρ → Prop) : Prop :=
  ∀ k, 0 < k → k * limit < rows.length → ∀ r, rows[k * limit - 1]? = some r → Good r

variable {key limit rows} {Good : ρ → Prop} {k n : Nat}

theorem markAt_succ : markAt key limit rows (k + 1) = rows[(k + 1) * limit - 1]?.map key :=
  if_neg k.succ_ne_zero

/-- A page that does not reach the end has a last row, and its key is the mark. -/
theorem exists_markAt (key : ρ → κ) (hk : (k + 1) * limit < rows.length) :
    ∃ r ∈ rows, rows[(k + 1) * limit - 1]? = some r ∧
      markAt key limit rows (k + 1) = some (key r) := by
  have hget : rows[(k + 1) * limit - 1]? = some rows[(k + 1) * limit - 1] :=
    List.getElem?_eq_getElem (by omega)
  exact ⟨_, List.mem_of_getElem? hget, hget, by rw [markAt_succ, hget, Option.map_some]⟩

/-- The mark of the last row of a page that does not reach the end. -/
theorem getLast?_take_drop (hlimit : 0 < limit) (hlong : (k + 1) * limit < rows.length) :
    ((rows.drop (k * limit)).take limit).getLast? = rows[(k + 1) * limit - 1]? := by
  have hend : (k + 1) * limit = k * limit + limit := Nat.succ_mul k limit
  have hlength : ((rows.drop (k * limit)).take limit).length = limit := by
    rw [List.length_take, List.length_drop]
    omega
  rw [List.getLast?_eq_getElem?, hlength, List.getElem?_take_of_lt (by omega),
    List.getElem?_drop]
  congr 1
  omega

variable [LinearOrder κ]

/-- How a printed mark is answered, if it is read back; and what else may become of it: it is
refused, or taken for the beginning. -/
structure PrintsMarks (key : ρ → κ) (limit : Nat) (rows : List ρ) (item : ρ → σ)
    (text : κ → γ) (Good : ρ → Prop) (ask : Option γ → Option (Answer σ γ)) : Prop where
  first : ask none = some ((pageAfter key limit rows none).print item text)
  good : ∀ r ∈ rows, Good r → ask (some (text (key r))) =
    some ((pageAfter key limit rows (some (key r))).print item text)
  bad : ∀ r ∈ rows, ¬ Good r →
    ask (some (text (key r))) = none ∨ ask (some (text (key r))) = ask none

variable {item : ρ → σ} {text : κ → γ} {ask : Option γ → Option (Answer σ γ)}

/-- The rows that are left after so many pages. -/
theorem rowsAfter_markAt (hrows : Ordered key rows) (hlimit : 0 < limit)
    (hk : 0 < k → k * limit < rows.length) :
    rowsAfter key rows (markAt key limit rows k) = rows.drop (k * limit) := by
  induction k with
  | zero =>
    rw [Nat.zero_mul, List.drop_zero]
    exact List.filter_eq_self.mpr fun _ _ => rfl
  | succ k ih =>
    have hend : (k + 1) * limit = k * limit + limit := Nat.succ_mul k limit
    have hlong := hk k.succ_pos
    have hleft := ih fun _ => by omega
    have hnext : (pageAfter key limit rows (markAt key limit rows k)).next =
        markAt key limit rows (k + 1) := by
      rw [pageAfter, hleft, if_pos (by rw [List.length_drop]; omega), markAt_succ,
        getLast?_take_drop hlimit hlong]
    obtain ⟨r, -, -, hmark⟩ := exists_markAt key hlong
    rw [hmark] at hnext ⊢
    rw [rowsAfter_next hnext hrows, hleft, List.drop_drop, hend]

/-- What a page is that begins after so many pages. -/
theorem pageAfter_markAt (hrows : Ordered key rows) (hlimit : 0 < limit)
    (hk : 0 < k → k * limit < rows.length) :
    (pageAfter key limit rows (markAt key limit rows k)).rows =
        (rows.drop (k * limit)).take limit ∧
      (pageAfter key limit rows (markAt key limit rows k)).next =
        if (k + 1) * limit < rows.length then markAt key limit rows (k + 1) else none := by
  have hend : (k + 1) * limit = k * limit + limit := Nat.succ_mul k limit
  rw [pageAfter, rowsAfter_markAt hrows hlimit hk]
  refine ⟨rfl, ?_⟩
  dsimp only
  by_cases hlong : (k + 1) * limit < rows.length
  · rw [if_pos hlong, if_pos (by rw [List.length_drop]; omega), markAt_succ,
      getLast?_take_drop hlimit hlong]
  · rw [if_neg hlong, if_neg (by rw [List.length_drop]; omega)]

namespace PrintsMarks

variable (h : PrintsMarks key limit rows item text Good ask)

include h

/-- A mark that is read back is answered with the page that begins there. -/
theorem ask_markAt (hrows : Ordered key rows) (hlimit : 0 < limit)
    (hk : 0 < k → k * limit < rows.length)
    (hgood : 0 < k → ∀ r, rows[k * limit - 1]? = some r → Good r) :
    ∃ answer, ask ((markAt key limit rows k).map text) = some answer ∧
      answer.rows = ((rows.drop (k * limit)).take limit).map item ∧
      answer.next =
        if (k + 1) * limit < rows.length then (markAt key limit rows (k + 1)).map text
        else none := by
  have hask : ask ((markAt key limit rows k).map text) =
      some ((pageAfter key limit rows (markAt key limit rows k)).print item text) := by
    cases k with
    | zero => exact h.first
    | succ k =>
      obtain ⟨r, hr, hget, hmark⟩ := exists_markAt key (hk k.succ_pos)
      rw [hmark]
      exact h.good r hr (hgood k.succ_pos r hget)
  obtain ⟨hpage, hnext⟩ := pageAfter_markAt hrows hlimit hk
  refine ⟨_, hask, ?_, ?_⟩
  · rw [Answer.print, hpage]
  · rw [Answer.print, hnext, apply_ite (Option.map text), Option.map_none]

/-- Where all marks are read back, the pages from one of them on give all rows that are left. -/
theorem follow_markAt (hrows : Ordered key rows) (hlimit : 0 < limit)
    (hgood : EndsGood limit rows Good) (hk : 0 < k → k * limit < rows.length) :
    ∃ n, follow ask n ((markAt key limit rows k).map text) =
      some ((rows.drop (k * limit)).map item) := by
  -- the induction is on the number of rows that are left
  induction hleft : rows.length - k * limit using Nat.strong_induction_on generalizing k with
  | _ left ih =>
    have hend : (k + 1) * limit = k * limit + limit := Nat.succ_mul k limit
    obtain ⟨answer, hask, hpage, hnext⟩ :=
      h.ask_markAt hrows hlimit hk fun hpos => hgood k hpos (hk hpos)
    by_cases hlong : (k + 1) * limit < rows.length
    · obtain ⟨r, -, -, hm⟩ := exists_markAt key hlong
      rw [if_pos hlong, hm, Option.map_some] at hnext
      obtain ⟨n, hn⟩ := ih _ (by omega) (fun _ => hlong) rfl
      rw [hm, Option.map_some] at hn
      refine ⟨n + 1, ?_⟩
      rw [follow, hask]
      dsimp only
      rw [hnext]
      dsimp only
      rw [hn, hpage, hend, Option.map_some, ← List.drop_drop, ← List.map_append,
        List.take_append_drop]
    · rw [if_neg hlong] at hnext
      refine ⟨1, ?_⟩
      rw [follow, hask]
      dsimp only
      rw [hnext, hpage, List.take_of_length_le (by rw [List.length_drop]; omega)]

/-- Where all marks are read back, the pages give all rows. -/
theorem follow_eq (hrows : Ordered key rows) (hlimit : 0 < limit)
    (hgood : EndsGood limit rows Good) : ∃ n, follow ask n none = some (rows.map item) := by
  have hall := h.follow_markAt hrows hlimit hgood fun h0 => absurd h0 (Nat.lt_irrefl 0)
  rwa [Nat.zero_mul, List.drop_zero] at hall

/-- Before a mark that is not read back, no way comes to an end. -/
theorem follow_eq_none (hrows : Ordered key rows) (hlimit : 0 < limit) {j : Nat} (hj : 0 < j)
    (hjl : j * limit < rows.length) (hbad : ∀ r, rows[j * limit - 1]? = some r → ¬ Good r)
    (hbefore : ∀ k < j, 0 < k → ∀ r, rows[k * limit - 1]? = some r → Good r) (n : Nat) :
    ∀ k ≤ j, follow ask n ((markAt key limit rows k).map text) = none := by
  induction n with
  | zero => exact fun k _ => rfl
  | succ n ih =>
    have hgo : ∀ k < j, follow ask (n + 1) ((markAt key limit rows k).map text) = none := by
      intro k hk
      have hnextk : (k + 1) * limit < rows.length :=
        lt_of_le_of_lt (Nat.mul_le_mul_right limit hk) hjl
      have hkl : k * limit < rows.length :=
        lt_of_le_of_lt (Nat.mul_le_mul_right limit k.le_succ) hnextk
      obtain ⟨answer, hask, -, hnext⟩ := h.ask_markAt hrows hlimit (fun _ => hkl) (hbefore k hk)
      obtain ⟨r, -, -, hm⟩ := exists_markAt key hnextk
      have hrest := ih (k + 1) hk
      rw [hm, Option.map_some] at hrest
      rw [if_pos hnextk, hm, Option.map_some] at hnext
      rw [follow, hask]
      dsimp only
      rw [hnext]
      dsimp only
      rw [hrest, Option.map_none]
    intro k hk
    rcases Nat.lt_or_eq_of_le hk with hlt | rfl
    · exact hgo k hlt
    · obtain ⟨i, rfl⟩ := Nat.exists_eq_succ_of_ne_zero hj.ne'
      obtain ⟨r, hr, hget, hm⟩ := exists_markAt key hjl
      rw [Nat.succ_eq_add_one, hm, Option.map_some]
      -- the mark is refused, or the reader is back at the beginning
      rcases h.bad r hr (hbad r hget) with hrefused | hagain
      · exact follow_refused hrefused _
      · rw [follow_congr hagain]
        exact hgo 0 hj

/-- A reader that gets to an end has had all marks read back. -/
theorem endsGood_of_follow (hrows : Ordered key rows) (hlimit : 0 < limit) {given : List σ}
    (hend : follow ask n none = some given) : EndsGood limit rows Good := by
  by_contra hread
  have hex : ∃ k, 0 < k ∧ k * limit < rows.length ∧
      ∃ r, rows[k * limit - 1]? = some r ∧ ¬ Good r := by
    unfold EndsGood at hread
    push Not at hread
    exact hread
  classical
  -- the first mark that is not read back
  obtain ⟨hpos, hlong, r, hr, hbad⟩ := Nat.find_spec hex
  have hfirst : ∀ r', rows[Nat.find hex * limit - 1]? = some r' → ¬ Good r' :=
    fun r' hr' => Option.some.inj (hr.symm.trans hr') ▸ hbad
  have hbefore : ∀ k < Nat.find hex, 0 < k → ∀ r, rows[k * limit - 1]? = some r → Good r := by
    intro k hk hk0 r hr
    by_contra hgood
    have hkl : k * limit < rows.length :=
      lt_of_le_of_lt (Nat.mul_le_mul_right limit hk.le) hlong
    exact Nat.find_min hex hk ⟨hk0, hkl, r, hr, hgood⟩
  have hnone : follow ask n none = none :=
    h.follow_eq_none hrows hlimit hpos hlong hfirst hbefore n 0 (Nat.zero_le _)
  rw [hend] at hnone
  cases hnone

/-- Where all marks are read back, nothing that is asked is refused. -/
theorem asked_answered (hrows : Ordered key rows) (hlimit : 0 < limit)
    (hgood : EndsGood limit rows Good) {mark : Option γ} (hmark : Asked ask mark) :
    ∃ answer, ask mark = some answer := by
  have hreach : ∃ k, (0 < k → k * limit < rows.length) ∧
      mark = (markAt key limit rows k).map text := by
    induction hmark with
    | first => exact ⟨0, fun h0 => absurd h0 (Nat.lt_irrefl 0), rfl⟩
    | next _ hask hnext ih =>
      obtain ⟨k, hk, rfl⟩ := ih
      obtain ⟨answer, hask', -, hnext'⟩ :=
        h.ask_markAt hrows hlimit hk fun hpos => hgood k hpos (hk hpos)
      obtain rfl := Option.some.inj (hask.symm.trans hask')
      rw [hnext] at hnext'
      split at hnext'
      · next hlong => exact ⟨k + 1, fun _ => hlong, hnext'⟩
      · cases hnext'
  obtain ⟨k, hk, rfl⟩ := hreach
  obtain ⟨answer, hask, -⟩ := h.ask_markAt hrows hlimit hk fun hpos => hgood k hpos (hk hpos)
  exact ⟨answer, hask⟩

end PrintsMarks

end Paging
