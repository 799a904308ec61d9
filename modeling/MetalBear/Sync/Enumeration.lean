import MetalBear.Sync.ListRepos

/-!
# Following the cursor through the registry

The listings give every repository once, in the order of the DIDs, if no cursor is cut and every
batch in which a page fills up before the last repository is a whole one.
-/

namespace MetalBear.Sync

open ByteOrder WhileLoop Paging

section Pages

variable {ρ : Type} {registry : AccountRegistry} {item : Text → Option ρ} {limit : Nat}

/-! ## The entries of a batch -/

/-- The entry gives an item. -/
def given (item : Text → Option ρ) (did : Text) : Bool := (item did).isSome

theorem length_filterMap_item (entries : List Text) :
    (entries.filterMap item).length = entries.countP (given item) := by
  induction entries with
  | nil => rfl
  | cons did entries ih =>
    rw [List.filterMap_cons, List.countP_cons]
    cases h : item did with
    | none => simp [given, h, ih]
    | some it => simp [given, h, ih]

/-- What the loop over the entries of a batch leaves. -/
theorem readEntries_eq (entries : List Text) (s : PageState ρ) :
    readEntries item limit entries s =
      let read := entries.take (reach (given item) (limit - s.repos.length) entries)
      { s with lastDid := (read.getLast?.map lastDidOf).getD s.lastDid
               repos := s.repos ++ read.filterMap item } := by
  induction entries generalizing s with
  | nil => simp [readEntries]
  | cons did entries ih =>
    rw [readEntries]
    split
    · next hroom =>
      obtain ⟨room, hn⟩ := Nat.exists_eq_succ_of_ne_zero (Nat.sub_ne_zero_of_lt hroom)
      have hnext : limit - (s.repos ++ (item did).toList).length =
          if given item did then room else room + 1 := by
        cases h : item did with
        | none =>
          simp only [given, h, Option.toList_none, List.append_nil, Option.isSome_none,
            Bool.false_eq_true, if_false]
          omega
        | some it =>
          simp only [given, h, Option.toList_some, List.length_append, List.length_singleton,
            Option.isSome_some, if_true]
          omega
      rw [ih]
      simp only [hnext, hn, reach, Nat.add_comm 1, List.take_succ_cons]
      congr 1
      · cases hlast : (entries.take (reach (given item)
          (if given item did then room else room + 1) entries)) with
        | nil => simp
        | cons next rest =>
          rw [List.getLast?_cons_cons, List.getLast?_eq_some_getLast (List.cons_ne_nil next rest)]
          rfl
      · rw [List.append_assoc, List.filterMap_cons]
        cases item did <;> rfl
    · next hfull =>
      have hroom : limit - s.repos.length = 0 := by omega
      simp [hroom]

/-! ## Where the listing has got to -/

/-- No DID is cut in `last_did`. -/
def ShortDids (registry : AccountRegistry) : Prop := ∀ did ∈ registry.dids, did.length < 256

theorem lastDidOf_of_short {did : Text} (h : did.length < 256) : lastDidOf did = did :=
  List.take_of_length_le (by omega)

/-- The entries after the mark. -/
def Remaining (registry : AccountRegistry) (mark : Text) (rest : List Text) : Prop :=
  ∃ seen, registry.dids = seen ++ rest ∧ Splits mark seen rest

theorem Remaining.mem {mark : Text} {rest : List Text} (h : Remaining registry mark rest)
    {did : Text} (hdid : did ∈ rest) : did ∈ registry.dids := by
  obtain ⟨seen, hdids, -⟩ := h
  rw [hdids]
  exact List.mem_append_right seen hdid

theorem remaining_start : Remaining registry [] registry.dids := by
  refine ⟨[], rfl, nofun, fun did hdid => ?_⟩
  obtain ⟨b, bs, rfl⟩ := List.exists_cons_of_ne_nil (registry.nonempty did hdid)
  exact List.Lex.nil

theorem Remaining.listAfter {mark : Text} {rest : List Text} (h : Remaining registry mark rest) :
    registry.listAfter mark limit = rest.take limit := by
  obtain ⟨seen, hdids, hsplits⟩ := h
  rw [AccountRegistry.listAfter, hdids]
  refine congrArg (List.take limit) (Eq.trans ?_ hsplits.filter_eq)
  exact List.filter_congr fun did _ => decide_eq_decide.mpr Iff.rfl

/-- One entry further. -/
theorem Remaining.next {mark did : Text} {rest : List Text}
    (h : Remaining registry mark (did :: rest)) : Remaining registry did rest := by
  obtain ⟨seen, hdids, -⟩ := h
  refine ⟨seen ++ [did], by rw [hdids, List.append_assoc]; rfl, splits_row ?_⟩
  rw [← hdids]
  exact registry.sorted

/-- Some entries further. -/
theorem Remaining.drop {mark : Text} {rest : List Text} (h : Remaining registry mark rest)
    (hshort : ShortDids registry) (n : Nat) :
    Remaining registry (((rest.take n).getLast?.map lastDidOf).getD mark) (rest.drop n) := by
  induction n generalizing mark rest with
  | zero => simpa using h
  | succ n ih =>
    cases rest with
    | nil => simpa using h
    | cons did rest =>
      have hdid := lastDidOf_of_short (hshort did (h.mem List.mem_cons_self))
      have hn := ih h.next
      rw [List.take_succ_cons, List.drop_succ_cons]
      cases hread : rest.take n with
      | nil =>
        rw [hread] at hn
        simpa [hdid] using hn
      | cons next read =>
        rw [hread, List.getLast?_eq_some_getLast (List.cons_ne_nil next read)] at hn
        rw [List.getLast?_cons_cons, List.getLast?_eq_some_getLast (List.cons_ne_nil next read)]
        exact hn

/-! ## A page -/

theorem wantsBatch_eq_true {s : PageState ρ} :
    wantsBatch limit s = true ↔ s.repos.length < limit ∧ s.exhausted = false := by
  simp [wantsBatch]

/-- What one turn of the loop leaves, when the page has room for `n` more. -/
theorem readBatch_eq {s : PageState ρ} {rest : List Text} {n : Nat}
    (h : Remaining registry s.lastDid rest) (hexhausted : s.exhausted = false)
    (hroom : s.repos.length + n = limit) :
    readBatch registry item limit s =
      let read := (rest.take limit).take (reach (given item) n (rest.take limit))
      ⟨(read.getLast?.map lastDidOf).getD s.lastDid, decide (rest.length < limit),
        s.repos ++ read.filterMap item⟩ := by
  have hn : limit - s.repos.length = n := by omega
  rw [readBatch, readEntries_eq]
  simp only [h.listAfter, hexhausted, Bool.false_or, List.length_take, hn]
  congr 1
  exact decide_eq_decide.mpr (by omega)

/-- The entries up to the one that fills the page lie in a batch that fills it. -/
theorem reach_take {rest : List Text} {n : Nat}
    (hfull : n ≤ (rest.take limit).countP (given item)) :
    reach (given item) n (rest.take limit) = reach (given item) n rest := by
  conv_rhs => rw [← List.take_append_drop limit rest]
  exact (reach_append hfull).symm

theorem reach_le_limit {rest : List Text} {n : Nat}
    (hfull : n ≤ (rest.take limit).countP (given item)) : reach (given item) n rest ≤ limit := by
  have hle := reach_le_length (p := given item) n (rest.take limit)
  rw [List.length_take, reach_take hfull] at hle
  exact hle.trans (Nat.min_le_left _ _)

/-- A batch in which the page fills up. -/
theorem readBatch_of_full {s : PageState ρ} {rest : List Text} {n : Nat}
    (h : Remaining registry s.lastDid rest) (hexhausted : s.exhausted = false)
    (hroom : s.repos.length + n = limit) (hfull : n ≤ (rest.take limit).countP (given item)) :
    readBatch registry item limit s =
      let read := rest.take (reach (given item) n rest)
      ⟨(read.getLast?.map lastDidOf).getD s.lastDid, decide (rest.length < limit),
        s.repos ++ read.filterMap item⟩ := by
  rw [readBatch_eq h hexhausted hroom]
  simp only [reach_take hfull, List.take_take, Nat.min_eq_left (reach_le_limit hfull)]

/-- A batch in which it does not. -/
theorem readBatch_of_not_full {s : PageState ρ} {rest : List Text} {n : Nat}
    (h : Remaining registry s.lastDid rest) (hexhausted : s.exhausted = false)
    (hroom : s.repos.length + n = limit) (hfull : (rest.take limit).countP (given item) < n) :
    readBatch registry item limit s =
      let read := rest.take limit
      ⟨(read.getLast?.map lastDidOf).getD s.lastDid, decide (rest.length < limit),
        s.repos ++ read.filterMap item⟩ := by
  rw [readBatch_eq h hexhausted hroom]
  simp only [reach_eq_length hfull, List.take_length]

variable (item) in
/-- The loop over the batches, from a page with room for `n` more on. -/
theorem readBatches_eq (hshort : ShortDids registry) (rest : List Text) (s : PageState ρ) (n : Nat)
    (h : Remaining registry s.lastDid rest) (hexhausted : s.exhausted = false)
    (hroom : s.repos.length + n = limit) (hn : 0 < n) :
    ∃ turns s', whileLoop (wantsBatch limit) (readBatch registry item limit) turns s = some s' ∧
      s'.repos = s.repos ++ (rest.take (reach (given item) n rest)).filterMap item ∧
      s'.lastDid = ((rest.take (reach (given item) n rest)).getLast?.map lastDidOf).getD s.lastDid ∧
      (s'.exhausted = true ↔ rest.countP (given item) < n ∨
        rest.length < roundUp limit (reach (given item) n rest)) := by
  induction hlength : rest.length using Nat.strong_induction_on generalizing rest s n with
  | _ length ih =>
  subst hlength
  have hwants : wantsBatch limit s = true := wantsBatch_eq_true.mpr ⟨by omega, hexhausted⟩
  have hsplit : (rest.take limit).countP (given item) + (rest.drop limit).countP (given item) =
      rest.countP (given item) := by
    rw [← List.countP_append, List.take_append_drop]
  by_cases hfull : n ≤ (rest.take limit).countP (given item)
  · have hbatch := readBatch_of_full h hexhausted hroom hfull
    have hcount : ((rest.take (reach (given item) n rest)).filterMap item).length = n := by
      rw [length_filterMap_item, countP_take_reach]
      omega
    have hstops : wantsBatch limit (readBatch registry item limit s) = false := by
      rw [hbatch, wantsBatch, decide_eq_false (by simp only [List.length_append]; omega)]
      rfl
    refine ⟨2, readBatch registry item limit s, ?_, ?_⟩
    · rw [whileLoop_of_true hwants, whileLoop_of_false hstops]
    · rw [hbatch]
      have hne : rest ≠ [] := by
        rintro rfl
        simp at hfull
        omega
      rw [roundUp_eq_self (reach_pos hn hne) (reach_le_limit hfull), decide_eq_true_iff]
      exact ⟨rfl, rfl, ⟨Or.inr, fun hor => hor.resolve_left (by omega)⟩⟩
  · have hfull : (rest.take limit).countP (given item) < n := Nat.lt_of_not_le hfull
    have hbatch := readBatch_of_not_full h hexhausted hroom hfull
    by_cases hlast : rest.length < limit
    · have htake : rest.take limit = rest := List.take_of_length_le hlast.le
      rw [htake] at hfull hbatch
      have hstops : wantsBatch limit (readBatch registry item limit s) = false := by
        rw [hbatch, wantsBatch]
        simp [hlast]
      refine ⟨2, readBatch registry item limit s, ?_, ?_⟩
      · rw [whileLoop_of_true hwants, whileLoop_of_false hstops]
      · rw [hbatch, reach_eq_length hfull, List.take_length]
        exact ⟨rfl, rfl, iff_of_true (decide_eq_true hlast) (Or.inl hfull)⟩
    · -- The whole batch is read and the loop goes on.
      have hlen : (rest.take limit).length = limit := by
        rw [List.length_take]
        omega
      have hreach : reach (given item) n rest = limit +
          reach (given item) (n - (rest.take limit).countP (given item)) (rest.drop limit) := by
        conv_lhs => rw [← List.take_append_drop limit rest]
        rw [reach_append_of_lt hfull, hlen]
      obtain ⟨turns, s', hloop, hrepos, hmark, hexh⟩ :=
        ih (rest.drop limit).length (by rw [List.length_drop]; omega) (rest.drop limit)
          (readBatch registry item limit s) (n - (rest.take limit).countP (given item))
          (by rw [hbatch]; exact h.drop hshort limit)
          (by rw [hbatch]; exact decide_eq_false hlast)
          (by
            rw [hbatch, List.length_append, length_filterMap_item]
            omega)
          (by omega) rfl
      refine ⟨turns + 1, s', by rw [whileLoop_of_true hwants, hloop], ?_, ?_, ?_⟩
      · rw [hrepos, hbatch, hreach, List.take_add, List.filterMap_append, List.append_assoc]
      · rw [hmark, hbatch, hreach, List.take_add, List.getLast?_append]
        cases hmore : ((rest.drop limit).take (reach (given item)
          (n - (rest.take limit).countP (given item)) (rest.drop limit))).getLast? with
        | none => simp
        | some last => simp
      · rw [hexh, hreach, roundUp_add (by omega), List.length_drop]
        constructor
        · rintro (hcount | hround)
          · exact Or.inl (by omega)
          · exact Or.inr (by omega)
        · rintro (hcount | hround)
          · exact Or.inl (by omega)
          · exact Or.inr (by omega)

/-! ## The pages one after another -/

theorem followCursor_mono (page : Nat → Text → Option (Page ρ))
    (hpage : ∀ m n cursor p, m ≤ n → page m cursor = some p → page n cursor = some p)
    {m n : Nat} {cursor : Text} {items : List ρ} (hmn : m ≤ n)
    (h : followCursor page m cursor = some items) : followCursor page n cursor = some items := by
  induction m generalizing n cursor items with
  | zero => cases h
  | succ m ih =>
    obtain ⟨n, rfl⟩ := Nat.exists_eq_add_of_le' hmn
    rw [← Nat.add_assoc] at hmn ⊢
    have hle := Nat.le_of_succ_le_succ hmn
    rw [followCursor] at h ⊢
    cases hp : page m cursor with
    | none => simp [hp] at h
    | some p =>
      rw [hpage m _ cursor p hle hp]
      rw [hp] at h
      cases hnext : p.cursor with
      | none => simpa only [hnext] using h
      | some next =>
        simp only [hnext, Option.map_eq_some_iff] at h ⊢
        obtain ⟨rest, hrest, rfl⟩ := h
        exact ⟨rest, ih hle hrest, rfl⟩

theorem listPage_mono {m n : Nat} {cursor : Text} {p : Page ρ} (hmn : m ≤ n)
    (h : listPage registry item limit m cursor = some p) :
    listPage registry item limit n cursor = some p := by
  rw [listPage, Option.map_eq_some_iff] at h ⊢
  obtain ⟨s, hs, rfl⟩ := h
  exact ⟨s, whileLoop_mono hmn hs, rfl⟩

/-- The condition: the batch in which a page fills up is a whole one, if there are more items
after it. The page that starts after `j` others reads the entries from `reach (j * limit)` on. -/
def WholeBatches (p : Text → Bool) (limit : Nat) (dids : List Text) : Prop :=
  ∀ j, (j + 1) * limit < dids.countP p →
    reach p (j * limit) dids +
      roundUp limit (reach p ((j + 1) * limit) dids - reach p (j * limit) dids) ≤ dids.length

theorem wholeBatches_of_countP_le {p : Text → Bool} {dids : List Text}
    (h : dids.countP p ≤ limit) : WholeBatches p limit dids := by
  intro j hj
  have hmul : 1 * limit ≤ (j + 1) * limit := Nat.mul_le_mul_right limit (by omega)
  omega

/-- The condition after a page whose batch was a whole one. -/
theorem wholeBatches_drop {p : Text → Bool} {dids : List Text}
    (h : roundUp limit (reach p limit dids) ≤ dids.length) :
    WholeBatches p limit dids ↔ WholeBatches p limit (dids.drop (reach p limit dids)) := by
  have hstep : ∀ j, reach p ((j + 1) * limit) dids =
      reach p limit dids + reach p (j * limit) (dids.drop (reach p limit dids)) := fun j => by
    rw [Nat.succ_mul, Nat.add_comm, reach_add]
  have hlength : (dids.drop (reach p limit dids)).length + reach p limit dids = dids.length := by
    have := reach_le_length (p := p) limit dids
    rw [List.length_drop]
    omega
  constructor
  · intro hwhole j hj
    rw [countP_drop_reach] at hj
    have hj' : (j + 1 + 1) * limit < dids.countP p := by
      rw [Nat.succ_mul]
      omega
    have := hwhole (j + 1) hj'
    rw [hstep, hstep, Nat.add_sub_add_left] at this
    omega
  · intro hwhole j hj
    cases j with
    | zero => simpa using h
    | succ j =>
      have hj' : (j + 1) * limit < (dids.drop (reach p limit dids)).countP p := by
        rw [countP_drop_reach]
        rw [Nat.succ_mul] at hj
        omega
      have := hwhole j hj'
      rw [hstep, hstep, Nat.add_sub_add_left]
      omega

/-- A page that is the last one gives all the items there are if these are not too many. -/
theorem lastPage_eq_iff {rest : List Text} (hlast : rest.countP (given item) < limit ∨
      rest.length < roundUp limit (reach (given item) limit rest)) :
    (rest.take (reach (given item) limit rest)).filterMap item = rest.filterMap item ↔
      WholeBatches (given item) limit rest := by
  have hread := countP_take_reach (p := given item) limit rest
  have hunread := countP_drop_reach (p := given item) limit rest
  constructor
  · intro heq
    have hcount := congrArg List.length heq
    rw [length_filterMap_item, length_filterMap_item] at hcount
    exact wholeBatches_of_countP_le (by omega)
  · intro hwhole
    have hle : rest.countP (given item) ≤ limit := by
      by_contra hmore
      have := hwhole 0 (by omega)
      simp only [Nat.zero_mul, reach_zero, Nat.zero_add, Nat.one_mul, Nat.sub_zero] at this
      omega
    have hnothing : (rest.drop (reach (given item) limit rest)).filterMap item = [] := by
      rw [← List.length_eq_zero_iff, length_filterMap_item]
      omega
    conv_rhs => rw [← List.take_append_drop (reach (given item) limit rest) rest]
    rw [List.filterMap_append, hnothing, List.append_nil]

variable (item) in
/-- Following the cursor comes to an end, and gives every item if and only if the condition
holds. -/
theorem followCursor_eq (hshort : ShortDids registry) (hlimit : 0 < limit) (rest : List Text)
    (cursor : Text) (hcursor : cursor.length < 256) (h : Remaining registry cursor rest) :
    ∃ turns items, followCursor (listPage registry item limit) turns cursor = some items ∧
      items <+: rest.filterMap item ∧
      (items = rest.filterMap item ↔ WholeBatches (given item) limit rest) := by
  induction hlength : rest.length using Nat.strong_induction_on generalizing rest cursor with
  | _ length ih =>
  subst hlength
  obtain ⟨turns, s, hloop, hrepos, hmark, hexh⟩ :=
    readBatches_eq item hshort rest ⟨lastDidOf cursor, false, []⟩ limit
      (by rw [lastDidOf_of_short hcursor]; exact h) rfl (Nat.zero_add limit) hlimit
  simp only [List.nil_append, lastDidOf_of_short hcursor] at hrepos hmark
  have hpage : listPage registry item limit turns cursor = some s.page := by
    rw [listPage, hloop]
    rfl
  cases hexhausted : s.exhausted with
  | true =>
    refine ⟨turns + 1, s.repos, ?_, ?_, ?_⟩
    · rw [followCursor, hpage]
      simp [PageState.page, hexhausted]
    · rw [hrepos]
      exact (List.take_prefix _ rest).filterMap item
    · rw [hrepos]
      exact lastPage_eq_iff (hexh.mp hexhausted)
  | false =>
    have hmore : limit ≤ rest.countP (given item) ∧
        roundUp limit (reach (given item) limit rest) ≤ rest.length := by
      simpa [hexhausted] using hexh
    have hne : rest ≠ [] := by
      rintro rfl
      simp at hmore
      omega
    have hpos := reach_pos (p := given item) hlimit hne
    have hle := reach_le_length (p := given item) limit rest
    have hremaining := h.drop hshort (reach (given item) limit rest)
    -- The cursor is the whole DID that was read last.
    obtain ⟨last, hlast⟩ : ∃ last, (rest.take (reach (given item) limit rest)).getLast? =
        some last := by
      refine ⟨_, List.getLast?_eq_some_getLast ?_⟩
      rw [ne_eq, List.take_eq_nil_iff]
      exact fun hor => hor.elim (fun hzero => by omega) hne
    have hmem : last ∈ registry.dids := h.mem (List.mem_of_mem_take (List.mem_of_getLast? hlast))
    rw [hlast, Option.map_some, Option.getD_some, lastDidOf_of_short (hshort last hmem)]
      at hmark hremaining
    obtain ⟨turns', items, hitems, hinit, hiff⟩ := ih (rest.drop (reach (given item) limit rest)).length
      (by rw [List.length_drop]; omega) _ last (hshort last hmem) hremaining rfl
    have hsplit : rest.filterMap item = s.repos ++
        (rest.drop (reach (given item) limit rest)).filterMap item := by
      rw [hrepos, ← List.filterMap_append, List.take_append_drop]
    refine ⟨max turns turns' + 1, s.repos ++ items, ?_, ?_, ?_⟩
    · have hnext : s.page.cursor = some last := by
        rw [PageState.page, if_pos ⟨hexhausted, by rw [hmark]; exact registry.nonempty last hmem⟩,
          hmark]
      rw [followCursor, listPage_mono (le_max_left turns turns') hpage]
      simp only [hnext]
      have hrest := followCursor_mono (listPage registry item limit)
        (fun _ _ _ _ => listPage_mono) (le_max_right turns turns') hitems
      rw [hrest]
      rfl
    · rw [hsplit, List.prefix_append_right_inj]
      exact hinit
    · rw [wholeBatches_drop hmore.2, ← hiff, hsplit, List.append_cancel_left_eq]

/-! ## A cursor that is cut -/

theorem lastDidOf_lastDidOf (did : Text) : lastDidOf (lastDidOf did) = lastDidOf did := by
  simp [lastDidOf, List.take_take]

/-- A client that follows the cursor from here never comes to an end. -/
def Stuck (registry : AccountRegistry) (item : Text → Option ρ) (cursor : Text) : Prop :=
  ∀ turns, followCursor (listPage registry item 1) turns cursor = none

/-- With a limit of one, a batch is one entry. -/
theorem readBatch_one {cursor did : Text} {rest : List Text}
    (h : Remaining registry (lastDidOf cursor) (did :: rest)) :
    readBatch registry item 1 ⟨lastDidOf cursor, false, []⟩ =
      ⟨lastDidOf did, false, (item did).toList⟩ := by
  simp [readBatch, h.listAfter, readEntries]

/-- A page of one item, if the next entry gives one. -/
theorem listPage_one_of_some {cursor did : Text} {rest : List Text} {it : ρ} {turns : Nat}
    {p : Page ρ} (h : Remaining registry (lastDidOf cursor) (did :: rest))
    (hitem : item did = some it) (hdid : lastDidOf did ≠ [])
    (hp : listPage registry item 1 turns cursor = some p) : p.cursor = some (lastDidOf did) := by
  rw [listPage, Option.map_eq_some_iff] at hp
  obtain ⟨s, hs, rfl⟩ := hp
  have hturns := whileLoop_mono (Nat.le_add_right turns 2) hs
  rw [whileLoop_of_true rfl, readBatch_one h, hitem] at hturns
  have hstops : wantsBatch 1 (⟨lastDidOf did, false, [it]⟩ : PageState ρ) = false := rfl
  rw [Option.toList_some, whileLoop_of_false hstops] at hturns
  cases hturns
  exact if_pos ⟨rfl, hdid⟩

/-- The page of the next entry, if that gives no item. -/
theorem listPage_one_of_none {cursor did : Text} {rest : List Text} {turns : Nat}
    (h : Remaining registry (lastDidOf cursor) (did :: rest)) (hitem : item did = none) :
    listPage registry item 1 (turns + 1) cursor =
      listPage registry item 1 turns (lastDidOf did) := by
  rw [listPage, listPage, whileLoop_of_true rfl, readBatch_one h, hitem, lastDidOf_lastDidOf]
  rfl

/-- A client that gets to where it cannot go on is stuck before. -/
theorem stuck_of_next {cursor did : Text} {rest : List Text}
    (h : Remaining registry (lastDidOf cursor) (did :: rest)) (hdid : lastDidOf did ≠ [])
    (hnext : Stuck registry item (lastDidOf did)) : Stuck registry item cursor := by
  intro turns
  cases turns with
  | zero => rfl
  | succ turns =>
    cases hitem : item did with
    | some it =>
      rw [followCursor]
      cases hp : listPage registry item 1 turns cursor with
      | none => rfl
      | some p =>
        simp only [listPage_one_of_some h hitem hdid hp, hnext turns, Option.map_none]
    | none =>
      cases turns with
      | zero => rfl
      | succ turns =>
        rw [followCursor, listPage_one_of_none h hitem]
        cases hp : listPage registry item 1 turns (lastDidOf did) with
        | none => rfl
        | some p =>
          have hstuck := hnext (turns + 1 + 1)
          rw [followCursor, listPage_mono (Nat.le_succ turns) hp] at hstuck
          exact hstuck

/-- An entry after its own cut DID is read again and again. -/
theorem stuck_of_cut {did : Text} {rest : List Text}
    (h : Remaining registry (lastDidOf did) (did :: rest)) (hdid : lastDidOf did ≠ []) :
    Stuck registry item (lastDidOf did) := by
  have h' : Remaining registry (lastDidOf (lastDidOf did)) (did :: rest) := by
    rw [lastDidOf_lastDidOf]
    exact h
  intro turns
  induction turns with
  | zero => rfl
  | succ turns ih =>
    rw [followCursor]
    cases hitem : item did with
    | some it =>
      cases hp : listPage registry item 1 turns (lastDidOf did) with
      | none => rfl
      | some p => simp only [listPage_one_of_some h' hitem hdid hp, ih, Option.map_none]
    | none =>
      have hloop : listPage registry item 1 turns (lastDidOf did) = none := by
        rw [listPage, whileLoop_eq_none (J := fun s => s = ⟨lastDidOf did, false, []⟩)]
        · rfl
        · rw [lastDidOf_lastDidOf]
        · rintro _ rfl
          rfl
        · rintro _ rfl
          conv_lhs => rw [← lastDidOf_lastDidOf did]
          rw [readBatch_one h', hitem]
          rfl
      rw [hloop]

/-- A DID that is cut keeps a client from getting past it. -/
theorem stuck_of_long (hlong : ¬ ShortDids registry) : Stuck registry item [] := by
  obtain ⟨did, hfind⟩ : ∃ did, registry.dids.find? (fun did => decide (256 ≤ did.length)) =
      some did := by
    simp only [ShortDids, not_forall, not_lt] at hlong
    obtain ⟨did, hmem, hle⟩ := hlong
    rw [← Option.isSome_iff_exists, List.find?_isSome]
    exact ⟨did, hmem, decide_eq_true hle⟩
  obtain ⟨hdid, seen, rest, hdids, hseen⟩ := List.find?_eq_some_iff_append.mp hfind
  have hdid : 255 < did.length := Nat.lt_of_succ_le (of_decide_eq_true hdid)
  have hsorted := registry.sorted
  rw [hdids] at hsorted
  obtain ⟨-, hrest, hbefore⟩ := List.pairwise_append.mp hsorted
  have hcut : lastDidOf did < did := take_lt hdid
  have hcutRemaining : Remaining registry (lastDidOf did) (did :: rest) := by
    refine ⟨seen, hdids, fun a ha => ?_, fun a ha => ?_⟩
    · have hshort : ¬ 256 ≤ a.length := by simpa using hseen a ha
      exact le_take (by omega) (hbefore a ha did List.mem_cons_self)
    · rcases List.mem_cons.mp ha with rfl | ha
      · exact hcut
      · exact hcut.trans ((List.pairwise_cons.mp hrest).1 a ha)
  have hcutNe : lastDidOf did ≠ [] := by
    rw [ne_eq, ← List.length_eq_zero_iff, lastDidOf, List.length_take]
    omega
  -- From the start, all entries before the long one are read one by one.
  suffices hall : ∀ before cursor, (∀ a ∈ before, a ∈ seen) →
      Remaining registry (lastDidOf cursor) (before ++ did :: rest) →
      Stuck registry item cursor by
    refine hall seen [] (fun a ha => ha) ?_
    rw [← hdids]
    exact remaining_start
  intro before
  induction before with
  | nil => exact fun cursor _ h => stuck_of_next h hcutNe (stuck_of_cut hcutRemaining hcutNe)
  | cons a before ih =>
    intro cursor hmem h
    have ha : a ∈ seen := hmem a List.mem_cons_self
    have hshort : ¬ 256 ≤ a.length := by simpa using hseen a ha
    have hkeep : lastDidOf a = a := lastDidOf_of_short (by omega)
    refine stuck_of_next h ?_ (ih _ (fun b hb => hmem b (List.mem_cons_of_mem a hb)) ?_)
    · rw [hkeep]
      exact registry.nonempty a (h.mem List.mem_cons_self)
    · rw [lastDidOf_lastDidOf, hkeep]
      exact h.next

/-! ## The main result -/

/-- Two clients that come to an end have got the same. -/
theorem followCursor_unique {m n : Nat} {cursor : Text} {items items' : List ρ}
    (h : followCursor (listPage registry item limit) m cursor = some items)
    (h' : followCursor (listPage registry item limit) n cursor = some items') : items = items' := by
  have hmax := followCursor_mono (listPage registry item limit) (fun _ _ _ _ => listPage_mono)
    (le_max_left m n) h
  have hmax' := followCursor_mono (listPage registry item limit) (fun _ _ _ _ => listPage_mono)
    (le_max_right m n) h'
  exact Option.some.inj (hmax.symm.trans hmax')

/-- A client that follows the cursor from the start comes to an end and has got, by their DIDs,
the entries that meet the test. -/
def Enumerates (page : Nat → Text → Option (Page ρ)) (didOf : ρ → Text) (p : Text → Bool)
    (dids : List Text) : Prop :=
  ∃ turns items, followCursor page turns [] = some items ∧ items.map didOf = dids.filter p

theorem map_filterMap_item {didOf : ρ → Text}
    (hdid : ∀ did it, item did = some it → didOf it = did) (dids : List Text) :
    (dids.filterMap item).map didOf = dids.filter (given item) := by
  induction dids with
  | nil => rfl
  | cons did dids ih =>
    rw [List.filterMap_cons, List.filter_cons]
    cases h : item did with
    | none => simpa [given, h] using ih
    | some it => simpa [given, h, hdid did it h] using ih

variable (registry) in
/-- A listing enumerates its entries with every limit up to a bound, if and only if no cursor is
cut and every batch in which a page fills up before the last item is a whole one. -/
theorem enumerates_iff {didOf : ρ → Text} (hdid : ∀ did it, item did = some it → didOf it = did)
    {max : Nat} (hmax : 1 ≤ max) :
    (∀ limit, 1 ≤ limit → limit ≤ max →
        Enumerates (listPage registry item limit) didOf (given item) registry.dids) ↔
      ShortDids registry ∧
        ∀ limit, 1 ≤ limit → limit ≤ max → WholeBatches (given item) limit registry.dids := by
  constructor
  · intro hall
    have hshort : ShortDids registry := by
      by_contra hlong
      obtain ⟨turns, items, hitems, -⟩ := hall 1 le_rfl hmax
      rw [stuck_of_long hlong turns] at hitems
      cases hitems
    refine ⟨hshort, fun limit hpos hle => ?_⟩
    obtain ⟨turns, items, hitems, hdids⟩ := hall limit hpos hle
    obtain ⟨turns', items', hitems', hinit, hiff⟩ :=
      followCursor_eq item hshort hpos registry.dids [] (by simp) remaining_start
    obtain rfl := followCursor_unique hitems hitems'
    refine hiff.mp (hinit.eq_of_length ?_)
    have hlength := congrArg List.length (hdids.trans (map_filterMap_item hdid _).symm)
    simpa using hlength
  · rintro ⟨hshort, hwhole⟩ limit hpos hle
    obtain ⟨turns, items, hitems, -, hiff⟩ :=
      followCursor_eq item hshort hpos registry.dids [] (by simp) remaining_start
    refine ⟨turns, items, hitems, ?_⟩
    rw [hiff.mpr (hwhole limit hpos hle), map_filterMap_item hdid]

end Pages

/-! ## The two queries -/

theorem queryParamInt_mem (p : LimitParam) {fallback min max : Int} (h : min ≤ fallback)
    (h' : fallback ≤ max) :
    min ≤ queryParamInt p fallback min max ∧ queryParamInt p fallback min max ≤ max := by
  have hclamp : ∀ v, min ≤ clampLimit v min max ∧ clampLimit v min max ≤ max := by
    intro v
    simp only [clampLimit]
    split <;> split <;> omega
  cases p with
  | absent => exact hclamp fallback
  | number value => exact hclamp value
  | string s =>
    rw [queryParamInt]
    dsimp only
    split
    · exact hclamp fallback
    · split
      · exact ⟨h, h'⟩
      · exact hclamp _
  | other => exact hclamp fallback

theorem queryParamInt_number {value fallback min max : Int} (h : min ≤ value) (h' : value ≤ max) :
    queryParamInt (.number value) fallback min max = value := by
  simp only [queryParamInt, clampLimit]
  rw [if_neg (not_lt.mpr h), if_neg (not_lt.mpr h')]

/-- What holds for every limit that a handler admits. -/
theorem forall_limit_iff {P : Nat → Prop} {max : Nat} (hmax : 500 ≤ max) :
    (∀ limit : LimitParam, P (queryParamInt limit 500 1 max).toNat) ↔
      ∀ limit, 1 ≤ limit → limit ≤ max → P limit := by
  constructor
  · intro h limit hpos hle
    have := h (.number limit)
    rwa [queryParamInt_number (by omega) (by omega), Int.toNat_natCast] at this
  · intro h limit
    have hmem : 1 ≤ queryParamInt limit 500 1 max ∧ queryParamInt limit 500 1 max ≤ max :=
      queryParamInt_mem limit (by omega) (by omega)
    exact h _ (by omega) (by omega)

variable {ρ : Type} {item : Text → Option ρ}

theorem enumerates_limit_iff (registry : AccountRegistry) {didOf : ρ → Text} (max : Nat)
    (hmax : 500 ≤ max) (hdid : ∀ did it, item did = some it → didOf it = did) :
    (∀ limit : LimitParam,
        Enumerates (listPage registry item (queryParamInt limit 500 1 max).toNat) didOf
          (given item) registry.dids) ↔
      ShortDids registry ∧
        ∀ limit, 1 ≤ limit → limit ≤ max → WholeBatches (given item) limit registry.dids := by
  rw [← enumerates_iff registry hdid (by omega : 1 ≤ max)]
  exact forall_limit_iff
    (P := fun limit => Enumerates (listPage registry item limit) didOf (given item) registry.dids)
    hmax

/-- The account has a repository. -/
def SyncServer.hasRepo (s : SyncServer) (did : Text) : Bool :=
  (s.contextForDid did).any fun acct => acct.head.isSome

/-- The account's repository holds a record of the collection. -/
def SyncServer.holdsRecordOf (s : SyncServer) (collection did : Text) : Bool :=
  (s.contextForDid did).any fun acct =>
    acct.keys.any fun key => decide (collectionOf key = some collection)

theorem mem_addCollection {cols : List Text} {key collection : Text} :
    collection ∈ addCollection cols key ↔
      collection ∈ cols ∨ collectionOf key = some collection := by
  rw [addCollection]
  cases collectionOf key with
  | none => simp
  | some c =>
    dsimp only
    split
    · next hmem =>
      constructor
      · exact Or.inl
      · rintro (h | h)
        · exact h
        · cases h
          exact hmem
    · simp [eq_comm]

theorem AccountContext.mem_collections {acct : AccountContext} {collection : Text} :
    collection ∈ acct.collections ↔ ∃ key ∈ acct.keys, collectionOf key = some collection := by
  have hfold : ∀ keys cols, collection ∈ List.foldl addCollection cols keys ↔
      collection ∈ cols ∨ ∃ key ∈ keys, collectionOf key = some collection := by
    intro keys
    induction keys with
    | nil => simp
    | cons key keys ih =>
      intro cols
      rw [List.foldl_cons, ih, mem_addCollection, or_assoc, List.exists_mem_cons_iff]
  rw [AccountContext.collections, hfold]
  simp

section Queries

variable (s : SyncServer)

theorem given_repoItem : given s.repoItem = s.hasRepo := by
  funext did
  rw [given, SyncServer.repoItem, SyncServer.hasRepo]
  cases s.contextForDid did with
  | none => rfl
  | some acct => cases hhead : acct.head <;> simp [hhead]

theorem repoItem_did {did : Text} {it : RepoItem} (h : s.repoItem did = some it) :
    it.did = did := by
  rw [SyncServer.repoItem] at h
  cases hacct : s.contextForDid did with
  | none => simp [hacct] at h
  | some acct =>
    cases hhead : acct.head with
    | none => simp [hacct, hhead] at h
    | some head =>
      simp only [hacct, hhead, Option.some.injEq] at h
      rw [← h]
      exact s.contextForDid_did did acct hacct

theorem given_collectionItem (collection : Text) :
    given (s.collectionItem collection) = s.holdsRecordOf collection := by
  funext did
  rw [given, SyncServer.collectionItem, SyncServer.holdsRecordOf, Bool.eq_iff_iff]
  cases s.contextForDid did with
  | none => simp
  | some acct => simp [AccountContext.mem_collections]

theorem collectionItem_did {collection did it : Text}
    (h : s.collectionItem collection did = some it) : it = did := by
  rw [SyncServer.collectionItem] at h
  cases hacct : s.contextForDid did with
  | none => simp [hacct] at h
  | some acct =>
    simp only [hacct, Option.ite_none_right_eq_some, Option.some.injEq] at h
    rw [← h.2]
    exact s.contextForDid_did did acct hacct

/-- `listRepos`, with any limit, gives every repository. -/
def EnumeratesRepos : Prop :=
  ∀ limit, Enumerates (listRepos s limit) RepoItem.did s.hasRepo s.registry.dids

/-- `listReposByCollection`, with any limit, gives every repository with a record of the
collection. -/
def EnumeratesCollection (collection : RequiredString) : Prop :=
  ∀ limit, Enumerates
    (fun turns cursor =>
      (listReposByCollection s (some collection.text) limit turns cursor).toOption.join)
    id (s.holdsRecordOf collection.text) s.registry.dids

theorem enumeratesRepos_iff : EnumeratesRepos s ↔ ShortDids s.registry ∧
    ∀ limit, 1 ≤ limit → limit ≤ 1000 → WholeBatches s.hasRepo limit s.registry.dids := by
  have hiff := enumerates_limit_iff s.registry 1000 (by omega) fun _ _ => repoItem_did s
  rw [given_repoItem] at hiff
  exact hiff

theorem enumeratesCollection_iff (collection : RequiredString) :
    EnumeratesCollection s collection ↔ ShortDids s.registry ∧ ∀ limit, 1 ≤ limit →
      limit ≤ 2000 → WholeBatches (s.holdsRecordOf collection.text) limit s.registry.dids := by
  have hdid : ∀ did it, s.collectionItem collection.text did = some it → id it = did :=
    fun _ _ => collectionItem_did s
  have hiff := enumerates_limit_iff s.registry 2000 (by omega) hdid
  rw [given_collectionItem] at hiff
  simp only [EnumeratesCollection, listReposByCollection, requireString_text]
  exact hiff

/-- Each of the two listings is complete exactly when no DID is cut in the cursor and every batch
in which a page fills up before the last item is a whole one. -/
theorem listings_enumerate_iff :
    (EnumeratesRepos s ↔ ShortDids s.registry ∧
      ∀ limit, 1 ≤ limit → limit ≤ 1000 → WholeBatches s.hasRepo limit s.registry.dids) ∧
    ∀ collection : RequiredString, (EnumeratesCollection s collection ↔ ShortDids s.registry ∧
      ∀ limit, 1 ≤ limit → limit ≤ 2000 →
        WholeBatches (s.holdsRecordOf collection.text) limit s.registry.dids) :=
  ⟨enumeratesRepos_iff s, enumeratesCollection_iff s⟩

end Queries

/-! ## A repository that is passed over -/

section PassedOver

/-- `did:plc:` and one letter. -/
def letterDid (c : Char) : Text := ("did:plc:" ++ c.toString).toUTF8.toList

/-- Five accounts; the first has no repository. -/
def fiveAccounts : SyncServer where
  registry :=
    ⟨['a', 'b', 'c', 'd', 'e'].map letterDid, by decide +kernel, by decide +kernel⟩
  contextForDid did := if did = letterDid 'a' then none else some ⟨did, some ⟨[1], [2]⟩, [], true⟩
  contextForDid_did did acct h := by
    split at h
    · cases h
    · cases h
      rfl
  accountTakedownRef _ := none

/-- With three to a page, the last two entries are a short batch; the page fills up with the first
of them, and there is no cursor. -/
theorem last_repo_is_passed_over :
    (followCursor (listRepos fiveAccounts (.string "3")) 4 []).map (List.map RepoItem.did) =
        some (['b', 'c', 'd'].map letterDid) ∧
      ¬ EnumeratesRepos fiveAccounts := by
  have hlisted : (followCursor (listRepos fiveAccounts (.string "3")) 4 []).map
      (List.map RepoItem.did) = some (['b', 'c', 'd'].map letterDid) := by
    decide +kernel
  refine ⟨hlisted, fun hall => ?_⟩
  obtain ⟨turns, items, hitems, hdids⟩ := hall (.string "3")
  obtain ⟨items', hitems', hdids'⟩ := Option.map_eq_some_iff.mp hlisted
  rw [followCursor_unique hitems hitems', hdids'] at hdids
  exact absurd hdids (by decide +kernel)

end PassedOver

end MetalBear.Sync
