import MetalBear.Video.UploadRuns

/-!
# Finishing an upload

A call of `metalbear_video_upload_finish` marks its session, assembles the parts outside the lock,
puts the blob and settles. Between its critical sections nobody else can touch the session: the
mark refuses new writers and other finish calls, and there is none of either when it is set.
-/

namespace MetalBear.Video

namespace Job

variable {cidOf : Bytes → String} {stores : ℕ → Bool} {j : Job} {u : Upload} {call : ℕ} {f : Finish}

/-- The finish calls of a session with one alone. -/
theorem eq_of_update {finishes : ℕ → Option Finish} (honly : ∀ c, finishes c ≠ none → c = call)
    {c : ℕ} {g : Finish} (h : Function.update finishes call (some f) c = some g) :
    c = call ∧ g = f := by
  by_cases hc : c = call
  · rw [hc, Function.update_self, Option.some.injEq] at h
    exact ⟨hc, h.symm⟩
  · rw [Function.update_of_ne hc] at h
    exact absurd (honly c (by simp [h])) hc

/-- A finish call alone is every one. -/
theorem update_only {finishes : ℕ → Option Finish} (honly : ∀ c, finishes c ≠ none → c = call)
    {c c' : ℕ} (hc : Function.update finishes call (some f) c ≠ none)
    (hc' : Function.update finishes call (some f) c' ≠ none) : c = c' := by
  obtain ⟨g, hg⟩ := Option.ne_none_iff_exists'.mp hc
  obtain ⟨g', hg'⟩ := Option.ne_none_iff_exists'.mp hc'
  rw [(eq_of_update honly hg).1, (eq_of_update honly hg').1]

/-- A finish call is the only one of its session. -/
theorem Traced.alone (h : Traced cidOf j) (hf : j.finishes call = some f) (c : ℕ)
    (hc : j.finishes c ≠ none) : c = call := h.only c call hc (by simp [hf])

/-! ## Marking -/

/-- What the first critical section of `metalbear_video_upload_finish` can do: nothing, or mark an
open session on which its store object holds no part active. -/
theorem finishMark_cases (store call : ℕ) (e : Marking) (j : Job) :
    (j.finishMark store call e).1 = j ∨
    ∃ u, j.row = some u ∧ u.state = .created ∧ j.active store = [] ∧
      (j.finishMark store call e).1 =
        { j.updateRow (·.state = .created) ({ · with state := .finishing }) with
          finishes := Function.update j.finishes call (some ⟨store, u, .marked⟩) } := by
  rw [finishMark]
  cases hload : j.loadStatus e.loads with
  | none => exact .inl rfl
  | some u =>
    simp only
    by_cases hcompleted : u.state = .completed
    · rw [if_pos hcompleted]
      exact .inl rfl
    rw [if_neg hcompleted]
    by_cases hok : stateResult u = .ok
    swap
    · rw [if_pos hok]
      exact .inl rfl
    rw [if_neg (not_not.mpr hok)]
    by_cases hactive : j.active store = []
    swap
    · rw [if_pos hactive]
      exact .inl rfl
    rw [if_neg (not_not.mpr hactive)]
    split
    · exact .inl rfl
    split
    · exact .inl rfl
    split
    · exact .inl rfl
    · exact .inr ⟨u, loadStatus_eq_some hload, state_eq_created hok, hactive, rfl⟩

/-- The store object that is alone holds every writer. -/
theorem Guarded.no_writer {store : ℕ} (h : Guarded stores j)
    (hsingle : ∀ i, stores i = true → i = store) (hactive : j.active store = []) (w : ℕ) :
    j.writers w = none := by
  cases hx : j.writers w with
  | none => rfl
  | some x =>
    obtain ⟨hopen, hmem⟩ := h.active w x hx
    rw [hsingle x.store hopen, hactive] at hmem
    cases hmem

theorem Sound.finishMark {store : ℕ} {e : Marking} (h : Sound cidOf stores j)
    (hopen : stores store = true) (hsingle : ∀ i, stores i = true → i = store) :
    Sound cidOf stores (j.finishMark store call e).1 ∧
      j.Keeps (j.finishMark store call e).1 := by
  obtain heq | ⟨u, hrow, hcreated, hactive, heq⟩ := finishMark_cases store call e j
  · rw [heq]
    exact ⟨h, h.guarded.keeps_rfl⟩
  rw [heq]
  refine ⟨?_, keeps_of_created hrow hcreated⟩
  have hnone := h.traced.no_finish hrow (by rw [hcreated]; decide)
  have hwriters := h.guarded.no_writer hsingle hactive
  have hrow' : (j.updateRow (·.state = .created) ({ · with state := .finishing })).row =
      some { u with state := .finishing } := by
    simp [Job.updateRow, hrow, hcreated]
  have hblobs : blobs j.history = [] := by
    refine h.traced.unpublished (fun v hv => ?_) (not_owes hnone)
    rw [hrow, Option.some.injEq] at hv
    rw [← hv, hcreated]
    decide
  have halone : ∀ c, j.finishes c ≠ none → c = call := fun c hc => absurd (hnone c) hc
  refine ⟨⟨fun c g hg => ?_, h.guarded.active, h.guarded.unique, fun _ _ _ => hwriters⟩,
    ⟨h.traced.final, h.traced.output, fun c c' hc hc' => update_only halone hc hc',
      fun c g hg => ?_, fun c g hg => ?_, fun _ _ => hblobs, fun v hv hstate => ?_⟩⟩
  · rw [(eq_of_update halone hg).2]
    exact hopen
  · rw [(eq_of_update halone hg).2]
    exact ⟨_, hrow', rfl, rfl, rfl⟩
  · rw [(eq_of_update halone hg).2]
    trivial
  · rw [show _ = some v from hv, Option.some.injEq] at hrow'
    rw [hrow'] at hstate
    cases hstate

/-! ## Outside the lock -/

/-- A session that is being finished keeps its parts when nobody gets a writer, part files only
go and no part is reported. -/
theorem Guarded.keeps_of_finishing {after : Job} (h : Guarded stores j) (hrow : j.row = some u)
    (hstate : u.state = .finishing) (hwriters : ∀ w, j.writers w = none → after.writers w = none)
    (hfinals : ∀ n, after.finals n = j.finals n ∨ after.finals n = none)
    (hbodies : ∀ n, lastBody after.history n = lastBody j.history n) : j.Keeps after where
  terminal v hv hterminal := by
    rw [hrow, Option.some.injEq] at hv
    rw [← hv, hstate] at hterminal
    exact hterminal.elim
  parts v hv hv' :=
    have hnone := h.finishing v hv hv'
    ⟨hnone, fun w => hwriters w (hnone w), hfinals, hbodies⟩

/-- A finish call goes on to another stage, with `assembled.tmp` and the outputs as it left
them. -/
theorem Sound.advance {stage : Stage} (assembled : Option ℕ) (outputs : List Bytes)
    (h : Sound cidOf stores j) (hf : j.finishes call = some f)
    (howes : ∀ cid, f.stage ≠ .settled .ok cid)
    (houtput : ∀ o, assembled = some o → o < outputs.length)
    (hreached : Reached cidOf { j with assembled := assembled, outputs := outputs } f.status stage) :
    Sound cidOf stores { j with
      finishes := Function.update j.finishes call (some { f with stage := stage })
      assembled := assembled
      outputs := outputs } := by
  have halone := h.traced.alone hf
  refine ⟨⟨fun c g hg => ?_, h.guarded.active, h.guarded.unique, h.guarded.finishing⟩,
    ⟨h.traced.final, houtput, fun c c' hc hc' => update_only halone hc hc',
      fun c g hg => ?_, fun c g hg => ?_, fun hne _ => ?_, h.traced.completed⟩⟩
  · rw [(eq_of_update halone hg).2]
    exact h.guarded.held call f hf
  · rw [(eq_of_update halone hg).2]
    exact h.traced.marked call f hf
  · rw [(eq_of_update halone hg).2]
    exact hreached
  · refine h.traced.unpublished hne ?_
    rintro c ⟨g, cid, hg, hstage⟩
    obtain rfl := h.traced.only c call (by simp [hg]) (by simp [hf])
    rw [hg, Option.some.injEq] at hf
    exact howes cid (hf ▸ hstage)

/-- What a finish call leaves alone outside the lock. -/
theorem Sound.keeps_advance {stage : Stage} (assembled : Option ℕ) (outputs : List Bytes)
    (h : Sound cidOf stores j) (hf : j.finishes call = some f) :
    j.Keeps { j with
      finishes := Function.update j.finishes call (some { f with stage := stage })
      assembled := assembled
      outputs := outputs } := by
  obtain ⟨u, hrow, hstate, -⟩ := h.traced.marked call f hf
  exact h.guarded.keeps_of_finishing hrow hstate (fun _ hw => hw) (fun _ => .inl rfl) fun _ => rfl

theorem Sound.settle {result : UploadResult} {cid : String} (h : Sound cidOf stores j)
    (hf : j.finishes call = some f) (howes : ∀ cid, f.stage ≠ .settled .ok cid)
    (hresult : result ≠ .ok) :
    Sound cidOf stores (j.settle call f result cid) ∧ j.Keeps (j.settle call f result cid) := by
  refine ⟨h.advance none j.outputs hf howes nofun ?_,
    h.keeps_advance none j.outputs hf⟩
  cases result <;> first | exact absurd rfl hresult | trivial

theorem Sound.finishOpen {opens : Bool} (h : Sound cidOf stores j) :
    Sound cidOf stores (j.finishOpen call opens) ∧ j.Keeps (j.finishOpen call opens) := by
  rw [Job.finishOpen]
  split
  · rename_i store u hf
    have howes : ∀ cid, Stage.marked ≠ .settled .ok cid := nofun
    split
    · exact h.settle hf howes (by decide)
    split
    · rename_i o ho
      have hlt := h.traced.output o ho
      refine ⟨h.advance j.assembled (j.outputs.set o []) hf howes ?_ ?_,
        h.keeps_advance j.assembled (j.outputs.set o []) hf⟩
      · intro o' ho'
        rw [List.length_set]
        exact h.traced.output o' ho'
      · exact ⟨0, rfl, Nat.zero_le _, concatenates_zero _, ho, by simp [hlt]⟩
    · refine ⟨h.advance (some j.outputs.length) (j.outputs ++ [[]]) hf howes ?_ ?_,
        h.keeps_advance (some j.outputs.length) (j.outputs ++ [[]]) hf⟩
      · intro o' ho'
        obtain rfl := Option.some.inj ho'
        simp
      · exact ⟨0, rfl, Nat.zero_le _, concatenates_zero _, rfl, by simp⟩
  · exact ⟨h, h.guarded.keeps_rfl⟩

/-- Writing at the end of a file. -/
theorem overwrite_end (content data : Bytes) :
    overwrite content content.length data = content ++ data := by
  simp [overwrite]

/-- What `assemble_upload` reports is not success. -/
theorem assembleResult_error {bytes : Bytes} {header closes : Bool} {result r : UploadResult}
    {cid : Option String} (h : assembleResult u bytes header result closes cid = .error r) :
    r ≠ .ok := by
  unfold assembleResult at h
  split at h
  · rename_i hne
    obtain rfl := Except.error.inj h
    exact hne
  · cases cid with
    | none =>
      obtain rfl := Except.error.inj h
      decide
    | some c => cases h

/-- The loop of `assemble_upload` was left without an error and with the declared size. -/
theorem closedResult_eq_ok {bytes : Bytes} {header closes : Bool} {result : UploadResult}
    (h : closedResult u bytes header result closes = .ok) :
    bytes.length = u.sizeBytes ∧ result = .ok := by
  cases closes with
  | false => simp [closedResult] at h
  | true =>
    by_cases hlength : bytes.length = u.sizeBytes
    · by_cases hheader : result = .ok ∧ header = false
      · simp [closedResult, hlength, hheader] at h
      · simp only [closedResult, hlength, ne_eq, not_true, if_false, if_true, hheader] at h
        exact ⟨hlength, h⟩
    · simp [closedResult, hlength] at h

/-- `assemble_upload` succeeds with the declared size, having left its loop without an error. -/
theorem assembleResult_ok {bytes : Bytes} {header closes : Bool} {result : UploadResult}
    {cid : Option String} {c : String}
    (h : assembleResult u bytes header result closes cid = .ok c) :
    bytes.length = u.sizeBytes ∧ result = .ok ∧ cid = some c := by
  unfold assembleResult at h
  split at h
  · cases h
  rename_i hok
  obtain ⟨hlength, hresult⟩ := closedResult_eq_ok (not_not.mp hok)
  cases cid with
  | none => cases h
  | some c' => exact ⟨hlength, hresult, by rw [Except.ok.inj h]⟩

/-- The end of the loop: an error, or the bytes of all parts. -/
theorem Sound.finishClose {o done : ℕ} {bytes : Bytes} {header closes encodes : Bool}
    {result : UploadResult} (h : Sound cidOf stores j) (hf : j.finishes call = some f)
    (hstage : f.stage = .assembling o (done + 1) bytes header)
    (hdone : result = .ok → done = f.status.partCount) :
    Sound cidOf stores (j.finishClose call f bytes header result closes
        (if encodes then some (cidOf bytes) else none)) ∧
      j.Keeps (j.finishClose call f bytes header result closes
        (if encodes then some (cidOf bytes) else none)) := by
  have howes : ∀ cid, f.stage ≠ .settled .ok cid := by
    rw [hstage]
    nofun
  rw [Job.finishClose]
  split
  · rename_i r hr
    exact h.settle hf howes (assembleResult_error hr)
  · rename_i c hc
    obtain ⟨hlength, hok, hcid⟩ := assembleResult_ok hc
    have hreached := h.traced.reached call f hf
    rw [hstage] at hreached
    obtain ⟨done', hd, -, hconcat, ho, hbytes⟩ := hreached
    obtain rfl : done = done' := by omega
    refine ⟨h.advance j.assembled j.outputs hf howes h.traced.output
      ⟨o, bytes, ho, hbytes, hdone hok ▸ hconcat, hlength, ?_⟩,
      h.keeps_advance j.assembled j.outputs hf⟩
    split at hcid
    · exact (Option.some.inj hcid).symm
    · cases hcid

theorem Sound.finishRead {reading : PartReading} {closes encodes : Bool}
    (h : Sound cidOf stores j) :
    Sound cidOf stores (j.finishRead cidOf call reading closes encodes) ∧
      j.Keeps (j.finishRead cidOf call reading closes encodes) := by
  rw [Job.finishRead]
  split
  swap
  · exact ⟨h, h.guarded.keeps_rfl⟩
  rename_i store u o part bytes header hf
  have hreached := h.traced.reached call _ hf
  obtain ⟨done, rfl, hle, hconcat, ho, hbytes⟩ := hreached
  have howes : ∀ cid, Stage.assembling o (done + 1) bytes header ≠ .settled .ok cid := nofun
  dsimp only
  split
  · rename_i hlt
    exact h.finishClose hf rfl fun _ => Nat.le_antisymm hle (Nat.le_of_lt_succ hlt)
  rename_i hcount
  split
  · exact h.finishClose hf rfl nofun
  · exact h.finishClose hf rfl nofun
  · exact h.finishClose hf rfl nofun
  rename_i body hbody
  split
  · exact h.finishClose hf rfl nofun
  have hlt := h.traced.output o ho
  have hgetD : j.outputs.getD o [] = bytes := by
    rw [List.getD_eq_getElem?_getD, hbytes, Option.getD_some]
  refine ⟨h.advance j.assembled _ hf howes (fun o' ho' => ?_)
    ⟨done + 1, rfl, Nat.le_of_not_lt hcount, hconcat.snoc (h.traced.final _ body hbody), ho, ?_⟩,
    h.keeps_advance j.assembled _ hf⟩
  · rw [List.length_set]
    exact h.traced.output o' ho'
  · rw [hgetD, overwrite_end]
    simp [hlt]

/-- The blob is put: the one of its session, with the bytes of the parts. -/
theorem Sound.publish {store : ℕ} {cid : String} (h : Sound cidOf stores j)
    (hf : j.finishes call = some ⟨store, u, .assembled cid⟩) {content : Bytes}
    (hcontent : j.assembled.map (j.outputs.getD · []) = some content) :
    Sound cidOf stores { j.settle call ⟨store, u, .assembled cid⟩ .ok cid with
      history := .published cid content :: j.history } := by
  obtain ⟨o, bytes, ho, hbytes, hconcat, hlength, hcid⟩ := h.traced.reached call _ hf
  obtain rfl : bytes = content := by
    rw [ho, Option.map_some, List.getD_eq_getElem?_getD, hbytes] at hcontent
    exact Option.some.inj hcontent
  obtain ⟨v, hrow, hstate, hsize, hcount⟩ := h.traced.marked call _ hf
  have hnotOwes : ∀ c, ¬ j.Owes c := by
    rintro c ⟨g, cid', hg, hstage⟩
    obtain rfl := h.traced.only c call (by simp [hg]) (by simp [hf])
    rw [hg, Option.some.injEq] at hf
    rw [hf] at hstage
    cases hstage
  have hne : ∀ w, j.row = some w → w.state ≠ .completed := by
    intro w hw
    rw [hrow, Option.some.injEq] at hw
    rw [← hw, hstate]
    decide
  have hblobs : blobs (.published cid bytes :: j.history) = [(cid, bytes)] := by
    rw [blobs_published, h.traced.unpublished hne hnotOwes]
  have hpublished : Published cidOf (.published cid bytes :: j.history) u cid :=
    ⟨bytes, hblobs, hconcat, hlength, hcid⟩
  have halone := h.traced.alone hf
  refine ⟨⟨fun c g hg => ?_, h.guarded.active, h.guarded.unique, h.guarded.finishing⟩,
    ⟨h.traced.final, nofun, fun c c' hc hc' => update_only halone hc hc',
      fun c g hg => ?_, fun c g hg => ?_, fun _ howes => ?_, fun w hw hw' => absurd hw' (hne w hw)⟩⟩
  · rw [(eq_of_update halone hg).2]
    exact h.guarded.held call ⟨store, u, .assembled cid⟩ hf
  · rw [(eq_of_update halone hg).2]
    exact ⟨v, hrow, hstate, hsize, hcount⟩
  · rw [(eq_of_update halone hg).2]
    exact hpublished
  · exact absurd ⟨_, cid, Function.update_self .., rfl⟩ (howes call)

theorem Sound.finishPut {p : Putting} (h : Sound cidOf stores j) (hp : p ≠ .stranded) :
    Sound cidOf stores (j.finishPut call p) ∧ j.Keeps (j.finishPut call p) := by
  rw [Job.finishPut]
  split
  swap
  · exact ⟨h, h.guarded.keeps_rfl⟩
  rename_i store u cid hf
  have howes : ∀ c, Stage.assembled cid ≠ .settled .ok c := nofun
  dsimp only
  split
  · exact h.settle hf howes (by decide)
  rename_i content hcontent
  split
  · exact h.settle hf howes (by decide)
  cases p with
  | refused => exact h.settle hf howes (by decide)
  | stranded => exact absurd rfl hp
  | put =>
    obtain ⟨v, hrow, hstate, -⟩ := h.traced.marked call _ hf
    exact ⟨h.publish hf hcontent, h.guarded.keeps_of_finishing hrow hstate (fun _ hw => hw)
      (fun _ => .inl rfl) fun _ => rfl⟩

/-! ## Settling -/

/-- A finish call that owes nothing is over, whatever it leaves of the mark. -/
theorem Sound.dismiss (h : Sound cidOf stores j) (hf : j.finishes call = some f)
    (howes : ¬ j.Owes call) :
    Sound cidOf stores { j with finishes := Function.update j.finishes call none } ∧
      ∀ c, Function.update j.finishes call none c = none := by
  have hnone : ∀ c, Function.update j.finishes call none c = none := by
    intro c
    by_cases hc : c = call
    · rw [hc, Function.update_self]
    · rw [Function.update_of_ne hc]
      by_contra hne
      exact hc (h.traced.alone hf c hne)
  refine ⟨⟨⟨fun c g hg => ?_, h.guarded.active, h.guarded.unique, h.guarded.finishing⟩,
    ⟨h.traced.final, h.traced.output, fun c c' hc => absurd (hnone c) hc, fun c g hg => ?_,
      fun c g hg => ?_, fun hne _ => h.traced.unpublished hne ?_, h.traced.completed⟩⟩, hnone⟩
  · exact absurd ((hnone c).symm.trans hg) (by simp)
  · exact absurd ((hnone c).symm.trans hg) (by simp)
  · exact absurd ((hnone c).symm.trans hg) (by simp)
  · rintro c ⟨g, cid, hg, hstage⟩
    obtain rfl := h.traced.alone hf c (by simp [hg])
    exact howes ⟨g, cid, hg, hstage⟩

/-- A finish call gives its session another row that is neither marked nor completed. -/
theorem Sound.unmark {p : Upload → Bool} {g : Upload → Upload} (h : Sound cidOf stores j)
    (hf : j.finishes call = some f) (howes : ¬ j.Owes call)
    (hfinishing : ∀ u, (g u).state ≠ .finishing) (hcompleted : ∀ u, (g u).state ≠ .completed) :
    Sound cidOf stores
        ({ j with finishes := Function.update j.finishes call none }.updateRow p g) ∧
      j.Keeps ({ j with finishes := Function.update j.finishes call none }.updateRow p g) := by
  obtain ⟨u, hrow, hstate, -⟩ := h.traced.marked call f hf
  obtain ⟨hsound, hnone⟩ := h.dismiss hf howes
  exact ⟨hsound.updateRow hnone hrow (by rw [hstate]; decide) (hfinishing u) (hcompleted u),
    h.guarded.keeps_of_finishing hrow hstate (fun _ hw => hw) (fun _ => .inl rfl) fun _ => rfl⟩

theorem Sound.keeps_dismiss (h : Sound cidOf stores j) (hf : j.finishes call = some f) :
    j.Keeps { j with finishes := Function.update j.finishes call none } := by
  obtain ⟨u, hrow, hstate, -⟩ := h.traced.marked call f hf
  exact h.guarded.keeps_of_finishing hrow hstate (fun _ hw => hw) (fun _ => .inl rfl) fun _ => rfl

/-- The completion of a session by the call that published its blob. -/
theorem Sound.complete {store : ℕ} {cid : String} {g : Upload → Upload} {r : Removal}
    (h : Sound cidOf stores j) (hf : j.finishes call = some ⟨store, u, .settled .ok cid⟩)
    (hg : ∀ v, (g v).state = .completed ∧ (g v).cid = some cid ∧ (g v).sizeBytes = v.sizeBytes ∧
      (g v).partCount = v.partCount) :
    Sound cidOf stores
        (({ j with finishes := Function.update j.finishes call none }.updateRow
          (fun _ => true) g).removeAll r) ∧
      j.Keeps (({ j with finishes := Function.update j.finishes call none }.updateRow
        (fun _ => true) g).removeAll r) := by
  obtain ⟨v, hrow, hstate, hsize, hcount⟩ := h.traced.marked call _ hf
  obtain ⟨bytes, hblobs, hconcat, hlength, hcid⟩ := h.traced.reached call _ hf
  obtain ⟨hcompleted, hgcid, hgsize, hgcount⟩ := hg v
  have hnone : ∀ c, Function.update j.finishes call none c = none := by
    intro c
    by_cases hc : c = call
    · rw [hc, Function.update_self]
    · rw [Function.update_of_ne hc]
      by_contra hne
      exact hc (h.traced.alone hf c hne)
  have hrow' : ({ j with finishes := Function.update j.finishes call none }.updateRow
      (fun _ => true) g).row = some (g v) := by
    simp [Job.updateRow, hrow]
  refine ⟨?_, h.guarded.keeps_of_finishing hrow hstate
    (fun w hw => Option.map_eq_none_iff.mpr hw) (fun n => ?_) fun _ => rfl⟩
  · have hguarded : Guarded stores ({ j with
        finishes := Function.update j.finishes call none }.updateRow (fun _ => true) g) := by
      refine ⟨fun c f hc => ?_, h.guarded.active, h.guarded.unique, fun w hw hw' => ?_⟩
      · exact absurd ((hnone c).symm.trans hc) (by simp)
      · rw [hrow', Option.some.injEq] at hw
        rw [← hw, hcompleted] at hw'
        cases hw'
    have htraced : Traced cidOf ({ j with
        finishes := Function.update j.finishes call none }.updateRow (fun _ => true) g) := by
      refine ⟨h.traced.final, h.traced.output, fun c c' hc => absurd (hnone c) hc,
        fun c f hc => ?_, fun c f hc => ?_, fun hne _ => ?_, fun w hw _ => ⟨cid, ?_⟩⟩
      · exact absurd ((hnone c).symm.trans hc) (by simp)
      · exact absurd ((hnone c).symm.trans hc) (by simp)
      · exact absurd hcompleted (hne (g v) hrow')
      · rw [hrow', Option.some.injEq] at hw
        subst hw
        exact ⟨hgcid, bytes, hblobs, by rw [hgcount, hcount]; exact hconcat,
          by rw [hgsize, hsize]; exact hlength, hcid⟩
    exact ⟨hguarded.removeAll r, htraced.removeAll r hnone⟩
  · simp only [Job.removeAll]
    split
    · exact .inr rfl
    · exact .inl rfl

theorem Sound.finishSettle {e : Settling} (h : Sound cidOf stores j)
    (hrecorded : j.Owes call → e.updates = true) :
    Sound cidOf stores (j.finishSettle call e) ∧ j.Keeps (j.finishSettle call e) := by
  rw [Job.finishSettle]
  split
  swap
  · exact ⟨h, h.guarded.keeps_rfl⟩
  rename_i store u result cid hf
  dsimp only
  by_cases hok : result = .ok
  · subst hok
    rw [hrecorded ⟨_, cid, hf, rfl⟩]
    exact h.complete hf fun v => ⟨rfl, rfl, rfl, rfl⟩
  have howes : ¬ j.Owes call := by
    rintro ⟨g, cid', hg, hstage⟩
    rw [hf, Option.some.injEq] at hg
    rw [← hg, Stage.settled.injEq] at hstage
    exact hok hstage.1
  split
  · exact ⟨(h.dismiss hf howes).1, h.keeps_dismiss hf⟩
  split
  · exact absurd rfl hok
  · exact h.unmark hf howes nofun nofun
  · exact h.unmark hf howes nofun nofun

theorem Sound.finishThrow {resets : Bool} (h : Sound cidOf stores j) (howes : ¬ j.Owes call) :
    Sound cidOf stores (j.finishThrow call resets) ∧ j.Keeps (j.finishThrow call resets) := by
  rw [Job.finishThrow]
  split
  · exact ⟨h, h.guarded.keeps_rfl⟩
  rename_i f hf
  dsimp only
  split
  · exact h.unmark hf howes nofun nofun
  · exact ⟨(h.dismiss hf howes).1, h.keeps_dismiss hf⟩

/-! ## The other calls -/

/-- `metalbear_video_upload_abort` does nothing, or takes an open session for good. -/
theorem Sound.abort {store : ℕ} {e : Aborting} (h : Sound cidOf stores j) :
    Sound cidOf stores (j.abort store e).1 ∧ j.Keeps (j.abort store e).1 := by
  rw [Job.abort]
  cases hload : j.loadStatus e.loads with
  | none => exact ⟨h, h.guarded.keeps_rfl⟩
  | some u =>
    dsimp only
    split
    · exact ⟨h, h.guarded.keeps_rfl⟩
    split
    swap
    · exact ⟨h, h.guarded.keeps_rfl⟩
    rename_i hcreated
    split
    · exact ⟨h, h.guarded.keeps_rfl⟩
    have hrow := loadStatus_eq_some hload
    have hnone := h.traced.no_finish hrow (by rw [hcreated]; decide)
    have hupdate := h.updateRow (p := (·.state = .created)) (f := ({ · with state := .aborted }))
      hnone hrow (by rw [hcreated]; decide) nofun nofun
    have hguarded := hupdate.guarded.removeAll e.removal
    have htraced := hupdate.traced.removeAll e.removal hnone
    exact ⟨⟨⟨hguarded.held, hguarded.active, hguarded.unique, hguarded.finishing⟩,
      ⟨htraced.final, htraced.output, htraced.only, htraced.marked, htraced.reached,
        htraced.unpublished, htraced.completed⟩⟩, keeps_of_created hrow hcreated⟩

/-- A call about a session, served by the only store object that is open. -/
theorem Sound.serve {c : Call} (h : Sound cidOf stores j)
    (hopen : ∀ store, c.store = some store → stores store = true)
    (hsingle : ∀ i k, stores i = true → stores k = true → i = k) (hrecorded : c.Recorded j) :
    Sound cidOf stores (j.serve cidOf c) ∧ j.Keeps (j.serve cidOf c) := by
  cases c with
  | partBegin store w n contentLength e =>
    rw [Job.serve]
    split
    · exact ⟨h, h.guarded.keeps_rfl⟩
    · exact h.partBegin (hopen store rfl)
  | partWrite w data taken => exact h.partWrite
  | partFinish w e => exact h.partFinish hrecorded
  | partFree w erases => exact h.partFree
  | finish store call e =>
    rw [Job.serve]
    split
    · exact ⟨h, h.guarded.keeps_rfl⟩
    · exact h.finishMark (hopen store rfl) fun i hi => hsingle i store hi (hopen store rfl)
  | finishOpen call opens => exact h.finishOpen
  | finishRead call reading closes encodes => exact h.finishRead
  | finishPut call p => exact h.finishPut hrecorded
  | finishSettle call e => exact h.finishSettle hrecorded
  | finishThrow call resets => exact h.finishThrow hrecorded
  | abort store e => exact h.abort

end Job

end MetalBear.Video
