import MetalBear.Video.Finishing

/-!
# What a completed upload delivers

Every run of the upload store whose database is not reopened under a store object in use, and in
which the file system and the rows go together, keeps the states that a session never leaves and
the parts of a session that is being finished, and completes a session with one blob: the bodies
last finished, in the order of the parts.
-/

namespace MetalBear.Video

open Job Machine

/-- What happens to the upload store of an account. -/
inductive Event where
  | call (id : String) (expiry : String → Expiry) (c : Call)
  | start (store sizeBytes : ℕ) (mimeType : String) (name : Option ℕ) (e : Uploads.Starting)
  | getStatus (store : ℕ) (expiry : String → Expiry)
  | storeOpen (store : ℕ) (expiry : String → Expiry)
  | storeFree (store : ℕ)
  | restart

namespace Uploads

/-- One critical section. A call that is given a store object first lets sessions expire. -/
def step (cidOf : Bytes → String) (s : Uploads) : Event → Uploads
  | .call id expiry c =>
    match c.store with
    | none => s.set id ((s.jobs id).serve cidOf c)
    | some store =>
      if s.stores store then
        (s.expire expiry).set id (((s.expire expiry).jobs id).serve cidOf c)
      else s
  | .start store sizeBytes mimeType name e =>
    if s.stores store then (s.start sizeBytes mimeType name e).1 else s
  | .getStatus store expiry => if s.stores store then s.expire expiry else s
  | .storeOpen store expiry => s.storeOpen store expiry
  | .storeFree store => s.storeFree store
  | .restart => s.restart

/-- No writer and no finish call holds the store object. -/
def Idle (s : Uploads) (store : ℕ) : Prop :=
  ∀ id, (∀ w x, (s.jobs id).writers w = some x → x.store ≠ store) ∧
    ∀ call f, (s.jobs id).finishes call = some f → f.store ≠ store

/-- No store object is opened beside another, none is freed while it is held, and what a call has
done to the files it records. -/
def Undisturbed (s : Uploads) : Event → Prop
  | .call id _ c => c.Recorded (s.jobs id)
  | .storeOpen _ _ => ∀ store, s.stores store = false
  | .storeFree store => s.Idle store
  | .restart => ∀ id call, ¬ (s.jobs id).Owes call
  | _ => True

/-- At most one store object is open, and every session is sound. -/
structure Sound (cidOf : Bytes → String) (s : Uploads) : Prop where
  single : ∀ i k, s.stores i = true → s.stores k = true → i = k
  jobs : ∀ id, (s.jobs id).Sound cidOf s.stores

/-- Every session keeps what it must. -/
def Keeps (s s' : Uploads) : Prop := ∀ id, (s.jobs id).Keeps (s'.jobs id)

variable {cidOf : Bytes → String} {s : Uploads}

theorem sound_unknown (stores : ℕ → Bool) : Job.Sound cidOf stores .unknown where
  guarded := ⟨fun _ f h => (Option.some_ne_none f h.symm).elim,
    fun _ x h => (Option.some_ne_none x h.symm).elim,
    fun _ _ x _ h => (Option.some_ne_none x h.symm).elim,
    fun u h => (Option.some_ne_none u h.symm).elim⟩
  traced := ⟨fun _ body h => (Option.some_ne_none body h.symm).elim,
    fun o h => (Option.some_ne_none o h.symm).elim, fun _ _ h => absurd rfl h,
    fun _ f h => (Option.some_ne_none f h.symm).elim,
    fun _ f h => (Option.some_ne_none f h.symm).elim, fun _ _ => rfl,
    fun u h => (Option.some_ne_none u h.symm).elim⟩

theorem sound_initial : initial.Sound cidOf := ⟨nofun, fun _ => sound_unknown _⟩

theorem Sound.keeps_rfl (h : s.Sound cidOf) : s.Keeps s := fun id => (h.jobs id).guarded.keeps_rfl

theorem Sound.expire (e : String → Expiry) (h : s.Sound cidOf) : (s.expire e).Sound cidOf :=
  ⟨h.single, fun id => (h.jobs id).expire (e id)⟩

theorem Sound.keeps_expire (e : String → Expiry) (h : s.Sound cidOf) : s.Keeps (s.expire e) :=
  fun id => (h.keeps_rfl id).then_expire (e id)

/-- One session changes, the others stay. -/
theorem Sound.set {id : String} {j : Job} (h : s.Sound cidOf) (hj : j.Sound cidOf s.stores) :
    (s.set id j).Sound cidOf := by
  refine ⟨h.single, fun id' => ?_⟩
  by_cases hid : id' = id
  · subst hid
    simpa only [Uploads.set, Function.update_self] using hj
  · simpa only [Uploads.set, Function.update_of_ne hid] using h.jobs id'

theorem Sound.keeps_set {id : String} {j : Job} (h : s.Sound cidOf) (hj : (s.jobs id).Keeps j) :
    s.Keeps (s.set id j) := by
  intro id'
  by_cases hid : id' = id
  · subst hid
    simpa only [Uploads.set, Function.update_self] using hj
  · simpa only [Uploads.set, Function.update_of_ne hid] using h.keeps_rfl id'

/-- What a call leaves after the expiry it leaves of the state before. -/
theorem Keeps.of_expire {e : String → Expiry} {s' : Uploads} (h : (s.expire e).Keeps s') :
    s.Keeps s' := fun id => .of_expire (h id)

/-- A new session, where there was none. -/
theorem Sound.insert {id : String} {u : Upload} (h : s.Sound cidOf)
    (hrow : (s.jobs id).row = none) (hcreated : u.state = .created) (directory : Bool) :
    Job.Sound cidOf s.stores { s.jobs id with row := some u, directory := directory } ∧
      (s.jobs id).Keeps { s.jobs id with row := some u, directory := directory } := by
  have hnone : ∀ call, (s.jobs id).finishes call = none := by
    intro call
    by_contra hne
    obtain ⟨f, hf⟩ := Option.ne_none_iff_exists'.mp hne
    obtain ⟨v, hv, -⟩ := (h.jobs id).traced.marked call f hf
    rw [hrow] at hv
    cases hv
  have hu : ∀ v, some u = some v → v.state = .created := by
    rintro v hv
    rwa [← Option.some.inj hv]
  have htraced := (h.jobs id).traced
  have hguarded := (h.jobs id).guarded
  refine ⟨⟨⟨hguarded.held, hguarded.active, hguarded.unique, fun v hv hstate => ?_⟩,
    ⟨htraced.final, htraced.output, htraced.only, fun call f hf => ?_, fun call f hf => ?_,
      fun _ _ => ?_, fun v hv hstate => ?_⟩⟩, ⟨fun v hv => ?_, fun v hv => ?_⟩⟩
  · rw [hu v hv] at hstate
    cases hstate
  · exact absurd ((hnone call).symm.trans hf) (by simp)
  · exact absurd ((hnone call).symm.trans hf) (by simp)
  · refine htraced.unpublished (fun v hv => ?_) (not_owes hnone)
    rw [hrow] at hv
    cases hv
  · rw [hu v hv] at hstate
    cases hstate
  · rw [hrow] at hv
    cases hv
  · rw [hrow] at hv
    cases hv

theorem Sound.insertSession {id : String} {u : Upload} {e : Starting} (h : s.Sound cidOf)
    (hcreated : u.state = .created) :
    (s.insertSession id u e).1.Sound cidOf ∧ s.Keeps (s.insertSession id u e).1 := by
  rw [Uploads.insertSession]
  split
  · exact ⟨h, h.keeps_rfl⟩
  rename_i hrow
  have hrow : (s.jobs id).row = none := by
    simp only [Bool.or_eq_true, not_or, Option.isSome_iff_ne_none, not_not] at hrow
    exact hrow.2
  split
  · obtain ⟨hsound, hkeeps⟩ := h.insert hrow hcreated true
    exact ⟨⟨h.single, (h.set hsound).jobs⟩, h.keeps_set hkeeps⟩
  split
  · exact ⟨h, h.keeps_rfl⟩
  · obtain ⟨hsound, hkeeps⟩ := h.insert hrow hcreated (s.jobs id).directory
    exact ⟨⟨h.single, (h.set hsound).jobs⟩, h.keeps_set hkeeps⟩

theorem Sound.start {sizeBytes : ℕ} {mimeType : String} {name : Option ℕ} {e : Starting}
    (h : s.Sound cidOf) :
    (s.start sizeBytes mimeType name e).1.Sound cidOf ∧
      s.Keeps (s.start sizeBytes mimeType name e).1 := by
  rw [Uploads.start]
  split
  · exact ⟨h, h.keeps_rfl⟩
  split
  · exact ⟨h, h.keeps_rfl⟩
  split
  · exact ⟨h, h.keeps_rfl⟩
  split
  · exact ⟨h, h.keeps_rfl⟩
  dsimp only
  split
  · exact ⟨h.expire _, h.keeps_expire _⟩
  split
  · exact ⟨h.expire _, h.keeps_expire _⟩
  split
  · exact ⟨h.expire _, h.keeps_expire _⟩
  · have hcreated : (startRow sizeBytes e.now mimeType).state = .created := rfl
    exact ⟨((h.expire e.expiry).insertSession hcreated).1,
      ((h.expire e.expiry).insertSession hcreated).2.of_expire⟩

/-! ## Store objects -/

/-- A session that nobody writes and nobody finishes is guarded whichever store objects are open. -/
theorem guarded_of_idle {stores : ℕ → Bool} {j : Job} (hwriters : ∀ w, j.writers w = none)
    (hfinishes : ∀ call, j.finishes call = none) : Guarded stores j where
  held call f hf := absurd ((hfinishes call).symm.trans hf) (by simp)
  active w x hx := absurd ((hwriters w).symm.trans hx) (by simp)
  unique w w' x x' hx := absurd ((hwriters w).symm.trans hx) (by simp)
  finishing _ _ _ := hwriters

/-- The reset of the sessions left finishing, where nobody writes or finishes. -/
theorem sound_reset {stores : ℕ → Bool} {j : Job} (h : Job.Sound cidOf stores j)
    (hwriters : ∀ w, j.writers w = none) (hfinishes : ∀ call, j.finishes call = none) :
    Job.Sound cidOf stores j.reset ∧ j.Keeps j.reset := by
  by_cases hmarked : ∃ u, j.row = some u ∧ u.state = .finishing
  · obtain ⟨u, hrow, hstate⟩ := hmarked
    exact ⟨h.updateRow hfinishes hrow (by rw [hstate]; decide) nofun nofun,
      h.guarded.keeps_of_finishing hrow hstate (fun w _ => hwriters w) (fun _ => .inl rfl)
        fun _ => rfl⟩
  · rw [Job.reset, updateRow_eq_self fun u hu =>
      decide_eq_false fun hstate => hmarked ⟨u, hu, hstate⟩]
    exact ⟨h, h.guarded.keeps_rfl⟩

theorem Sound.storeOpen {store : ℕ} {e : String → Expiry} (h : s.Sound cidOf)
    (hclosed : ∀ i, s.stores i = false) :
    (s.storeOpen store e).Sound cidOf ∧ s.Keeps (s.storeOpen store e) := by
  have hwriters : ∀ id w, (s.jobs id).writers w = none := by
    intro id w
    by_contra hne
    obtain ⟨x, hx⟩ := Option.ne_none_iff_exists'.mp hne
    have := ((h.jobs id).guarded.active w x hx).1
    rw [hclosed] at this
    cases this
  have hfinishes : ∀ id call, (s.jobs id).finishes call = none := by
    intro id call
    by_contra hne
    obtain ⟨f, hf⟩ := Option.ne_none_iff_exists'.mp hne
    have := (h.jobs id).guarded.held call f hf
    rw [hclosed] at this
    cases this
  have hreset := fun id => sound_reset (h.jobs id) (hwriters id) (hfinishes id)
  have hopened : Uploads.Sound cidOf { s with
      jobs := fun id => (s.jobs id).reset
      stores := Function.update s.stores store true } := by
    refine ⟨fun i k hi hk => ?_, fun id => ⟨guarded_of_idle (hwriters id) (hfinishes id),
      (hreset id).1.traced⟩⟩
    have hstore : ∀ i, Function.update s.stores store true i = true → i = store := by
      intro i hi
      by_contra hne
      rw [Function.update_of_ne hne, hclosed] at hi
      cases hi
    rw [hstore i hi, hstore k hk]
  rw [Uploads.storeOpen, if_neg (by rw [hclosed]; decide)]
  exact ⟨hopened.expire e, fun id => (hreset id).2.then_expire (e id)⟩

theorem Sound.storeFree {store : ℕ} (h : s.Sound cidOf) (hidle : s.Idle store) :
    (s.storeFree store).Sound cidOf ∧ s.Keeps (s.storeFree store) := by
  have hopen : ∀ i, Function.update s.stores store false i = true → s.stores i = true := by
    intro i hi
    by_cases hne : i = store
    · rw [hne, Function.update_self] at hi
      cases hi
    · rwa [Function.update_of_ne hne] at hi
  have hstay : ∀ i, i ≠ store → s.stores i = true →
      Function.update s.stores store false i = true := by
    intro i hne hi
    rwa [Function.update_of_ne hne]
  refine ⟨⟨fun i k hi hk => h.single i k (hopen i hi) (hopen k hk), fun id => ?_⟩, fun id => ?_⟩
  · have hguarded := (h.jobs id).guarded
    refine ⟨⟨fun call f hf => hstay _ ((hidle id).2 call f hf) (hguarded.held call f hf),
      fun w x hx => ?_, hguarded.unique, hguarded.finishing⟩, (h.jobs id).traced.of_writers _ _⟩
    have hne := (hidle id).1 w x hx
    obtain ⟨hi, hmem⟩ := hguarded.active w x hx
    refine ⟨hstay _ hne hi, ?_⟩
    simpa only [Uploads.storeFree, Function.update_of_ne hne] using hmem
  · exact ⟨fun u hu _ => ⟨u, hu, rfl⟩, fun u hu hstate =>
      ⟨(h.jobs id).guarded.finishing u hu hstate, (h.jobs id).guarded.finishing u hu hstate,
        fun _ => .inl rfl, fun _ => rfl⟩⟩

theorem Sound.restart (h : s.Sound cidOf) (howes : ∀ id call, ¬ (s.jobs id).Owes call) :
    s.restart.Sound cidOf ∧ s.Keeps s.restart := by
  refine ⟨⟨nofun, fun id => ⟨guarded_of_idle (fun _ => rfl) fun _ => rfl, ?_⟩⟩, fun id => ?_⟩
  · have htraced := (h.jobs id).traced
    exact ⟨htraced.final, htraced.output, fun _ _ hc => absurd rfl hc,
      fun _ f h => (Option.some_ne_none f h.symm).elim,
      fun _ f h => (Option.some_ne_none f h.symm).elim,
      fun hne _ => htraced.unpublished hne (howes id), htraced.completed⟩
  · exact ⟨fun u hu _ => ⟨u, hu, rfl⟩, fun u hu hstate =>
      ⟨(h.jobs id).guarded.finishing u hu hstate, fun _ => rfl, fun _ => .inl rfl, fun _ => rfl⟩⟩

/-! ## Runs -/

theorem Sound.step {ev : Event} (h : s.Sound cidOf) (hev : s.Undisturbed ev) :
    (s.step cidOf ev).Sound cidOf ∧ s.Keeps (s.step cidOf ev) := by
  cases ev with
  | call id expiry c =>
    rw [Uploads.step]
    split
    · rename_i hstore
      have hopen : ∀ store, c.store = some store → s.stores store = true := by
        intro store hsome
        rw [hstore] at hsome
        cases hsome
      obtain ⟨hsound, hkeeps⟩ := (h.jobs id).serve hopen h.single hev
      exact ⟨h.set hsound, h.keeps_set hkeeps⟩
    · rename_i store hstore
      split
      · rename_i hisOpen
        have hopen : ∀ i, c.store = some i → s.stores i = true := by
          intro i hsome
          rw [hstore, Option.some.injEq] at hsome
          rwa [← hsome]
        have hrecorded : c.Recorded ((s.expire expiry).jobs id) := by
          cases c <;> trivial
        obtain ⟨hsound, hkeeps⟩ := ((h.expire expiry).jobs id).serve hopen h.single hrecorded
        exact ⟨(h.expire expiry).set hsound, ((h.expire expiry).keeps_set hkeeps).of_expire⟩
      · exact ⟨h, h.keeps_rfl⟩
  | start store sizeBytes mimeType name e =>
    rw [Uploads.step]
    split
    · exact h.start
    · exact ⟨h, h.keeps_rfl⟩
  | getStatus store expiry =>
    rw [Uploads.step]
    split
    · exact ⟨h.expire _, h.keeps_expire _⟩
    · exact ⟨h, h.keeps_rfl⟩
  | storeOpen store expiry => exact h.storeOpen hev
  | storeFree store => exact h.storeFree hev
  | restart => exact h.restart hev

/-- A completed session has published one blob, the parts last finished in their order and of the
declared size; and what lies under the name of a part was finished, last of all. -/
structure Delivers (s : Uploads) : Prop where
  completed : ∀ id u, (s.jobs id).row = some u → u.state = .completed → ∃ cid bytes,
    u.cid = some cid ∧ blobs (s.jobs id).history = [(cid, bytes)] ∧
    Concatenates (s.jobs id).history u.partCount bytes ∧ bytes.length = u.sizeBytes
  final : ∀ id n body, (s.jobs id).finals n = some body →
    lastBody (s.jobs id).history n = some body

theorem Sound.delivers (h : s.Sound cidOf) : s.Delivers where
  completed id u hrow hstate := by
    obtain ⟨cid, hcid, bytes, hblobs, hconcat, hlength, -⟩ :=
      (h.jobs id).traced.completed u hrow hstate
    exact ⟨cid, bytes, hcid, hblobs, hconcat, hlength⟩
  final id := (h.jobs id).traced.final

/-- Throughout such a run every step keeps the states that a session never leaves and the parts of
a session that is being finished, and every state delivers. -/
theorem uploads_keep_and_deliver (cidOf : Bytes → String) (run : List Event)
    (h : Steps (step cidOf) Undisturbed initial run) :
    Steps (step cidOf) (fun s ev => s.Keeps (s.step cidOf ev)) initial run ∧
      States (step cidOf) Delivers initial run := by
  have hstep : ∀ s ev, s.Sound cidOf → Undisturbed s ev → (s.step cidOf ev).Sound cidOf :=
    fun _ _ hs hev => (hs.step hev).1
  exact ⟨Steps.imp sound_initial (fun _ _ hs hev => (hs.step hev).2) hstep h,
    (states_of_steps sound_initial hstep h).imp fun _ hs => hs.delivers⟩

/-! ## A store opened beside another -/

/-- Nothing has expired, and what is removed is removed whole. -/
def unexpired : String → Expiry := fun _ => ⟨none, none, ⟨fun _ => true, fun _ => true, true, true⟩⟩

/-- The smallest file that passes for an MP4. -/
def tinyVideo : Bytes := [0, 0, 0, 12, 102, 116, 121, 112, 105, 115, 111, 109]

/-- A session of one part, uploaded and put into the blob store. -/
def putVideo : List Event :=
  let call := Event.call "up-0" unexpired
  [.storeOpen 0 unexpired,
    .start 0 12 "video/mp4" none ⟨unexpired, some 1000, 1000, some "up-0", true, true, true⟩,
    call (.partBegin 0 0 1 12 ⟨true, true, true, true, true⟩),
    call (.partWrite 0 tinyVideo 12),
    call (.partFinish 0 ⟨true, true, true, true⟩),
    call (.partFree 0 true),
    call (.finish 0 0 ⟨true, true, true⟩),
    call (.finishOpen 0 true),
    call (.finishRead 0 .whole true true),
    call (.finishRead 0 .whole true true),
    call (.finishPut 0 .put)]

/-- The completion of that session. -/
def settleVideo : Event :=
  .call "up-0" unexpired (.finishSettle 0 ⟨1001, true, (unexpired "up-0").removal⟩)

/-- A session of two parts. They are written in turns, another writer of the first is turned away,
and the second is finished once more before the first is. -/
def twoParts : List Event :=
  let call := Event.call "up-0" unexpired
  let begins : Beginning := ⟨true, true, true, true, true⟩
  let finishes : PartFinishing := ⟨true, true, true, true⟩
  [.storeOpen 0 unexpired,
    .start 0 5000012 "video/mp4" none ⟨unexpired, some 1000, 1000, some "up-0", true, true, true⟩,
    call (.partBegin 0 0 1 5000000 begins),
    call (.partBegin 0 1 2 12 begins),
    call (.partWrite 0 tinyVideo 12),
    call (.partWrite 1 (List.replicate 12 0) 12),
    call (.partBegin 0 2 1 5000000 begins),
    call (.partFinish 1 finishes),
    call (.partFree 1 true),
    .getStatus 0 unexpired,
    call (.partBegin 0 3 2 12 begins),
    call (.partWrite 0 (List.replicate 4999988 0) 4999988),
    call (.partWrite 3 (List.replicate 12 1) 12),
    call (.partFinish 3 finishes),
    call (.partFinish 0 finishes),
    call (.partFree 0 true),
    call (.partFree 3 true),
    call (.finish 0 0 ⟨true, true, true⟩),
    call (.finishOpen 0 true),
    call (.finishRead 0 .whole true true),
    .getStatus 0 unexpired,
    call (.finishRead 0 .whole true true),
    call (.finishRead 0 .whole true true),
    call (.finishPut 0 .put),
    call (.finishSettle 0 ⟨1001, true, (unexpired "up-0").removal⟩)]

theorem two_parts_kept_and_delivered :
    Steps (step fun _ => "bafkvideo")
        (fun s ev => s.Keeps (s.step (fun _ => "bafkvideo") ev)) initial twoParts ∧
      States (step fun _ => "bafkvideo") Delivers initial twoParts := by
  refine uploads_keep_and_deliver _ _ ?_
  refine ⟨fun _ => rfl, trivial, trivial, trivial, trivial, trivial, trivial, fun _ => rfl, trivial,
    trivial, trivial, trivial, trivial, fun _ => rfl, fun _ => rfl, trivial,
    trivial, trivial, trivial, trivial, trivial, trivial, trivial, nofun, fun _ => rfl, trivial⟩

/-- A second store object is opened before the call settles, and the session is aborted. -/
def abortMeanwhile : List Event :=
  [.storeOpen 1 unexpired,
    .call "up-0" unexpired (.abort 0 ⟨true, true, (unexpired "up-0").removal, true⟩)]

theorem aborted_meanwhile :
    ((exec (step fun _ => "bafkvideo") initial (putVideo ++ abortMeanwhile)).jobs "up-0").row.map
      Upload.state = some .aborted := by
  decide +kernel

theorem completed_in_the_end :
    (((exec (step fun _ => "bafkvideo") initial (putVideo ++ abortMeanwhile)).step
      (fun _ => "bafkvideo") settleVideo).jobs "up-0").row.map Upload.state = some .completed := by
  decide +kernel

/-- The session is finished through the first store object, aborted after a second was opened, and
completed in the end. -/
theorem aborted_then_completed : ¬ ∀ run,
    Steps (step fun _ => "bafkvideo")
      (fun s ev => s.Keeps (s.step (fun _ => "bafkvideo") ev)) initial run := by
  intro h
  have hrun := (steps_append.mp (h (putVideo ++ abortMeanwhile ++ [settleVideo]))).2
  obtain ⟨hkeeps, -⟩ := steps_cons.mp hrun
  obtain ⟨u, hrow, hstate⟩ := Option.map_eq_some_iff.mp aborted_meanwhile
  obtain ⟨v, hv, hvstate⟩ := (hkeeps "up-0").terminal u hrow (by rw [hstate]; trivial)
  have hafter := completed_in_the_end
  rw [hv, Option.map_some, hvstate, hstate] at hafter
  cases hafter

end Uploads

end MetalBear.Video
