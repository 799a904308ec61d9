import MetalBear.OAuth.Passkeys

/-!
# Orderly passkey ceremonies

When the passkey ceremonies keep what a reader expects of them. The lookup, the consumption of the
challenge and the counter are store calls of their own, and other requests come between them; so a
challenge is spent once, a passkey that is gone signs nobody in, and the counters go up, in the runs
in which the last call of a sign-in finds the passkey as it was looked up, and the counter still
below the one that it stores.
-/

namespace MetalBear.OAuth.Passkeys

open KeyTable Machine Spending

/-! ## What is to hold -/

/-- The request of a ceremony that is accepted, and the challenge that its client data name. -/
def PasskeyEvent.accepts (lib : CeremonyLibrary) : PasskeyEvent → Option (Nat × Text)
  | registered i r _ _ => (lib.challengeOf webauthnCreate r.clientData).map fun c => (i, c)
  | signedIn i a _ _ => (lib.challengeOf webauthnGet a.clientData).map fun c => (i, c)
  | _ => none

/-- How many ceremonies a challenge led to. -/
def accepted (lib : CeremonyLibrary) (events : List PasskeyEvent) (challenge : Text) : Nat :=
  (events.filterMap fun e => e.accepts lib).countP fun a => a.2 = challenge

/-- A counter that is accepted after one that is not zero is greater. -/
def CountersRise (events : List PasskeyEvent) : Prop :=
  ∀ before j b found' n' later, events = before ++ .signedIn j b found' n' :: later →
    ∀ i a found n, .signedIn i a found n ∈ before → a.credentialId = b.credentialId → n ≠ 0 →
      n < n'

/-- The ceremonies so far. -/
structure Sound (lib : CeremonyLibrary) (p : Host × List PasskeyEvent) : Prop where
  /-- A challenge led to no more ceremonies than it was issued for, -/
  once : ∀ c, accepted lib p.2 c ≤ challengeLedger.given p.2 c
  /-- each of them rests on what has to come before it, -/
  founded : Founded lib p.2
  /-- and a challenge was consumed for the subject that it was issued to. -/
  subject : ∀ i c ceremony subject now d, .consumed i c ceremony subject now d ∈ p.2 →
    ∃ t, .issued c ceremony subject t ∈ p.2 ∧ now < t + challengeLifetimeSeconds
  rise : CountersRise p.2

/-- A step signs in with a passkey that is there, and lowers no counter. -/
structure StepSound (lib : CeremonyLibrary) (p : Host × List PasskeyEvent) (action : Action) :
    Prop where
  live : ∀ i a found n, .signedIn i a found n ∈ (step lib p.1 action).2 →
    ∃ row, p.1.store.passkey a.credentialId = some row ∧ cut row.subject = found.subject ∧
      row.publicKey = found.publicKey
  stored : ∀ id row row', p.1.store.passkey id = some row →
    (step lib p.1 action).1.store.passkey id = some row' → row.signCount ≤ row'.signCount

/-- The identifier of a passkey that is registered. -/
def PasskeyEvent.newId : PasskeyEvent → Option (List UInt8)
  | registered _ _ credentialId _ => some credentialId
  | _ => none

/-- The challenge that the client data name can be consumed. -/
def Consumable (lib : CeremonyLibrary) (s : PasskeyStore) (type : Text) (clientData : List UInt8)
    (ceremony : Ceremony) (o : CallOutcome) : Prop :=
  ∃ challenge row, lib.challengeOf type clientData = some challenge ∧ o.selected = true ∧
    s.challenge challenge = some row ∧ row.ceremony = ceremony ∧ o.now < row.expiresAt

/-- What the next store call of a request has to keep to. -/
def Progress.Orderly (lib : CeremonyLibrary) (s : PasskeyStore) (events : List PasskeyEvent)
    (o : CallOutcome) : Progress → Prop
  | registering r =>
    Consumable lib s webauthnCreate r.clientData .registration o → o.deleted = true
  | attested _ credential => ∀ e ∈ events, e.newId ≠ some credential.credentialId
  | lookedUp a _ => Consumable lib s webauthnGet a.clientData .authentication o → o.deleted = true
  | verified a found signCount => o.written = true ∧
    ∃ row, s.passkey a.credentialId = some row ∧ cut row.subject = found.subject ∧
      row.publicKey = found.publicKey ∧ counterOk signCount row.signCount
  | ended _ => True

/-- What the steps have to keep to. -/
def Orderly (lib : CeremonyLibrary) (p : Host × List PasskeyEvent) : Action → Prop
  | .create _ subject _ => subject.length ≤ 255
  | .proceed i o => ∀ q, p.1.request i = some q → q.Orderly lib p.1.store p.2 o
  | _ => True

/-! ## What orderly steps keep -/

variable {lib : CeremonyLibrary} {p p' : Host × List PasskeyEvent} {h : Host}
  {events more : List PasskeyEvent} {s s' : PasskeyStore} {i : Nat} {o : CallOutcome}

/-- The state of orderly ceremonies: every request is accepted at most once, every challenge that
was consumed is gone, and the counters are at most the stored one. -/
structure Kept (lib : CeremonyLibrary) (p : Host × List PasskeyEvent) : Prop where
  rooted : Rooted lib p.1 p.2
  once : ((p.2.filterMap fun e => e.accepts lib).map Prod.fst).Nodup
  pending : ∀ i, (∀ r, p.1.request i ≠ some (.ended r)) →
    i ∉ (p.2.filterMap fun e => e.accepts lib).map Prod.fst
  deleted : ∀ i c ceremony subject now d, .consumed i c ceremony subject now d ∈ p.2 → d = true
  fits : ∀ c ceremony subject t, .issued c ceremony subject t ∈ p.2 → cut subject = subject
  below : ∀ i a found n, .signedIn i a found n ∈ p.2 → ∀ row,
    p.1.store.passkey a.credentialId = some row → n ≤ row.signCount
  rise : CountersRise p.2

theorem kept_new (lib : CeremonyLibrary) : Kept lib (.new, []) where
  rooted := rooted_new lib
  once := List.nodup_nil
  pending _ _ h := by cases h
  deleted _ _ _ _ _ _ h := by cases h
  fits _ _ _ _ h := by cases h
  below _ _ _ _ h := by cases h
  rise before _ _ _ _ _ h := by cases before <;> cases h

/-- The counters rise with an event whose own counter, if it has one, is greater. -/
theorem CountersRise.concat {e : PasskeyEvent} (hrise : CountersRise events)
    (he : ∀ j b found' n', e = .signedIn j b found' n' → ∀ i a found n,
      .signedIn i a found n ∈ events → a.credentialId = b.credentialId → n ≠ 0 → n < n') :
    CountersRise (events ++ [e]) := by
  intro before j b found' n' later heq
  obtain ⟨rfl, hlast⟩ | ⟨later, hevents⟩ := concat_eq_split heq
  · exact he j b found' n' hlast.symm
  · exact hrise before j b found' n' later hevents

/-- The counters of the store stay, where there is a row before and after. -/
def Steady (s s' : PasskeyStore) : Prop :=
  ∀ id row', s'.passkey id = some row' → ∃ row, s.passkey id = some row ∧
    row.signCount = row'.signCount

theorem Steady.refl (s : PasskeyStore) : Steady s s := fun _ row h => ⟨row, h, rfl⟩

theorem steady_of_passkey_eq (heq : s'.passkey = s.passkey) : Steady s s' :=
  fun _ row h => ⟨row, heq ▸ h, rfl⟩

theorem Steady.stored (hsteady : Steady s s') {id : List UInt8} {row row' : PasskeyRow}
    (hrow : s.passkey id = some row) (hrow' : s'.passkey id = some row') :
    row.signCount ≤ row'.signCount := by
  obtain ⟨row₀, hrow₀, heq⟩ := hsteady id row' hrow'
  rw [hrow] at hrow₀
  obtain rfl := Option.some.inj hrow₀
  exact heq.le

/-- A step that accepts nothing and leaves the counters. -/
theorem Kept.quiet (hk : Kept lib p) (hrooted : Rooted lib p'.1 (p.2 ++ more))
    (hsteady : Steady p.1.store p'.1.store) (hevents : p'.2 = p.2 ++ more)
    (hmore : more = [] ∨ ∃ e, more = [e] ∧ e.accepts lib = none ∧
      (∀ i a found n, e ≠ .signedIn i a found n) ∧
      (∀ i c ceremony subject now d, e = .consumed i c ceremony subject now d → d = true) ∧
      ∀ c ceremony subject t, e = .issued c ceremony subject t → cut subject = subject)
    (hrequest : ∀ i, (∀ r, p'.1.request i ≠ some (.ended r)) →
      ∀ r, p.1.request i ≠ some (.ended r)) : Kept lib p' := by
  obtain ⟨h', events'⟩ := p'
  dsimp only at hevents hrooted hsteady hrequest
  subst hevents
  obtain rfl | ⟨e, rfl, haccepts, hsigned, hdeleted, hfits⟩ := hmore
  · rw [List.append_nil] at hrooted ⊢
    refine ⟨hrooted, hk.once, fun i hi => hk.pending i (hrequest i hi), hk.deleted, hk.fits,
      fun i a found n hmem row' hrow' => ?_, hk.rise⟩
    obtain ⟨row, hrow, heq⟩ := hsteady _ row' hrow'
    exact heq ▸ hk.below i a found n hmem row hrow
  · have hids : (p.2 ++ [e]).filterMap (fun e => e.accepts lib) =
        p.2.filterMap fun e => e.accepts lib := by
      rw [List.filterMap_append, List.filterMap_cons_none haccepts, List.filterMap_nil,
        List.append_nil]
    refine ⟨hrooted, ?_, fun i hi => ?_, fun i c ceremony subject now d hmem => ?_,
      fun c ceremony subject t hmem => ?_, fun i a found n hmem row' hrow' => ?_,
      hk.rise.concat fun j b found' n' he => absurd he (hsigned j b found' n')⟩
    · dsimp only
      rw [hids]
      exact hk.once
    · dsimp only
      rw [hids]
      exact hk.pending i (hrequest i hi)
    · cases List.mem_append.mp hmem with
      | inl hold => exact hk.deleted i c ceremony subject now d hold
      | inr hlast => exact hdeleted i c ceremony subject now d (List.mem_singleton.mp hlast).symm
    · cases List.mem_append.mp hmem with
      | inl hold => exact hk.fits c ceremony subject t hold
      | inr hlast => exact hfits c ceremony subject t (List.mem_singleton.mp hlast).symm
    · obtain ⟨row, hrow, heq⟩ := hsteady _ row' hrow'
      cases List.mem_append.mp hmem with
      | inl hold => exact heq ▸ hk.below i a found n hold row hrow
      | inr hlast => exact absurd (List.mem_singleton.mp hlast).symm (hsigned i a found n)

/-- A request that has not ended is accepted. -/
theorem Kept.accept (hk : Kept lib p) {e : PasskeyEvent} {c : Text} {r : Option Refusal}
    {store : PasskeyStore} {q : Progress} (hq : p.1.request i = some q)
    (hopen : ∀ r, q ≠ .ended r) (haccepts : e.accepts lib = some (i, c))
    (hrooted : Rooted lib (({ p.1 with store := store } : Host).begin i (.ended r)) (p.2 ++ [e]))
    (hissued : ∀ c ceremony subject t, e ≠ .issued c ceremony subject t)
    (hconsumed : ∀ i c ceremony subject now d, e ≠ .consumed i c ceremony subject now d)
    (hbelow : ∀ i a found n, .signedIn i a found n ∈ p.2 ++ [e] → ∀ row,
      store.passkey a.credentialId = some row → n ≤ row.signCount)
    (hrise : CountersRise (p.2 ++ [e])) :
    Kept lib (({ p.1 with store := store } : Host).begin i (.ended r), p.2 ++ [e]) := by
  have hfresh : i ∉ (p.2.filterMap fun e => e.accepts lib).map Prod.fst := by
    refine hk.pending i fun r hr => ?_
    rw [hq] at hr
    exact hopen r (Option.some.inj hr)
  have hids : ((p.2 ++ [e]).filterMap fun e => e.accepts lib).map Prod.fst =
      (p.2.filterMap fun e => e.accepts lib).map Prod.fst ++ [i] := by
    rw [List.filterMap_append, List.filterMap_cons_some haccepts, List.map_append]
    rfl
  refine ⟨hrooted, ?_, fun j hj => ?_, fun j c ceremony subject now d hmem => ?_,
    fun c ceremony subject t hmem => ?_, hbelow, hrise⟩
  · dsimp only
    rw [hids, List.nodup_append_comm]
    exact List.nodup_cons.mpr ⟨hfresh, hk.once⟩
  · have hne : j ≠ i := by
      rintro rfl
      exact hj r (Function.update_self j _ _)
    dsimp only
    rw [hids, List.mem_append, List.mem_singleton]
    refine not_or.mpr ⟨hk.pending j fun r' hr' => hj r' ?_, hne⟩
    exact (Function.update_of_ne hne _ _).trans hr'
  · cases List.mem_append.mp hmem with
    | inl hold => exact hk.deleted j c ceremony subject now d hold
    | inr hlast =>
      exact absurd (List.mem_singleton.mp hlast).symm (hconsumed j c ceremony subject now d)
  · cases List.mem_append.mp hmem with
    | inl hold => exact hk.fits c ceremony subject t hold
    | inr hlast => exact absurd (List.mem_singleton.mp hlast).symm (hissued c ceremony subject t)

theorem challengeCreate_passkey (s : PasskeyStore) (ceremony : Ceremony) (subject : Text)
    (o : CreateOutcome) : (challengeCreate s ceremony subject o).1.passkey = s.passkey := by
  have hprune : ∀ pruned : Bool, (if pruned then prune s o.now else s).passkey = s.passkey := by
    intro pruned
    cases pruned <;> rfl
  rw [challengeCreate]
  split
  · rfl
  · split
    · rfl
    · dsimp only
      split
      · split
        · exact hprune _
        · exact hprune _
      · exact hprune _

theorem steady_remove (s : PasskeyStore) (subject : Text) (credentialId : List UInt8)
    (o : CallOutcome) : Steady s (passkeyRemove s subject credentialId o) := by
  intro id row' hrow'
  rw [passkeyRemove] at hrow'
  split at hrow'
  · dsimp only at hrow'
    exact ⟨row', (deleteWhere_eq_some.mp hrow').1, rfl⟩
  · exact ⟨row', hrow', rfl⟩

/-- The consumption leaves the passkeys, and an orderly one writes down that its row is gone. -/
theorem consumeFor_orderly (i : Nat) {ceremony : Ceremony} {type clientData : Text} (subject : Text)
    (horderly : Consumable lib s type clientData ceremony o → o.deleted = true) :
    (consumeFor lib s i ceremony type clientData subject o).1.passkey = s.passkey ∧
    ((consumeFor lib s i ceremony type clientData subject o).2.2 = [] ∨
      ∃ c found, (consumeFor lib s i ceremony type clientData subject o).2.2 =
        [.consumed i c ceremony found o.now true]) := by
  obtain heq | ⟨challenge, s', found, hchallenge, hconsumes, heq⟩ :=
    consumeFor_cases lib s i ceremony type clientData subject o
  · rw [heq]
    exact ⟨rfl, .inl rfl⟩
  · obtain ⟨row, hrow, hceremony, hlive, -⟩ := hconsumes.row
    have hdeleted := horderly
      ⟨challenge, row, hchallenge, hconsumes.selected, hrow, hceremony, hlive⟩
    rw [heq, hdeleted]
    exact ⟨hconsumes.passkey, .inr ⟨challenge, found, rfl⟩⟩

/-- Where a request that had not ended goes on, those that have not ended had not before. -/
theorem request_of_update {q' : Progress} (hopen : ∀ r, h.request i ≠ some (.ended r))
    {request : Nat → Option Progress} (hrequest : request = Function.update h.request i (some q')) :
    ∀ j, (∀ r, request j ≠ some (.ended r)) → ∀ r, h.request j ≠ some (.ended r) := by
  intro j hj r hr
  by_cases hji : j = i
  · subst hji
    exact hopen r hr
  · refine hj r ?_
    rw [hrequest, Function.update_of_ne hji]
    exact hr

theorem request_of_begin {q q' : Progress} (hq : h.request i = some q) (hopen : ∀ r, q ≠ .ended r)
    {request : Nat → Option Progress} (hrequest : request = Function.update h.request i (some q')) :
    ∀ j, (∀ r, request j ≠ some (.ended r)) → ∀ r, h.request j ≠ some (.ended r) :=
  request_of_update (fun r hr => hopen r (Option.some.inj (hq.symm.trans hr))) hrequest

theorem request_of_new {q' : Progress} (hnone : ¬ (h.request i).isSome = true)
    {request : Nat → Option Progress} (hrequest : request = Function.update h.request i (some q')) :
    ∀ j, (∀ r, request j ≠ some (.ended r)) → ∀ r, h.request j ≠ some (.ended r) :=
  request_of_update (fun _ hr => hnone (Option.isSome_iff_exists.mpr ⟨_, hr⟩)) hrequest

/-- An orderly consumption, after which the request goes on or has ended. -/
theorem Kept.consume (hk : Kept lib (h, events)) {q q' : Progress} (hq : h.request i = some q)
    (hopen : ∀ r, q ≠ .ended r) {c : PasskeyStore × Bool × List PasskeyEvent}
    {ceremony : Ceremony} (hpasskey : c.1.passkey = h.store.passkey)
    (hevents : c.2.2 = [] ∨ ∃ challenge found,
      c.2.2 = [.consumed i challenge ceremony found o.now true])
    (hrooted : Rooted lib (({ h with store := c.1 } : Host).begin i q') (events ++ c.2.2)) :
    Kept lib (({ h with store := c.1 } : Host).begin i q', events ++ c.2.2) := by
  refine hk.quiet hrooted (steady_of_passkey_eq hpasskey) rfl ?_ (request_of_begin hq hopen rfl)
  obtain hnil | ⟨challenge, found, hone⟩ := hevents
  · exact .inl hnil
  · refine .inr ⟨_, hone, rfl, fun _ _ _ _ h => (by cases h), ?_, fun _ _ _ _ h => (by cases h)⟩
    intro _ _ _ _ _ _ h
    cases h
    rfl

/-- The passkey of a sign-in was registered before. -/
theorem Rooted.registered_of_signedIn {a : Assertion} {found : PasskeyRow} {n : Nat}
    (hr : Rooted lib h events) (hmem : .signedIn i a found n ∈ events) :
    ∃ j r key, .registered j r a.credentialId key ∈ events := by
  obtain ⟨before, later, heq⟩ := List.append_of_mem hmem
  obtain ⟨⟨j, r, hregistered, -⟩, -, -⟩ := hr.backed before _ later heq
  exact ⟨j, r, found.publicKey, heq ▸ List.mem_append_left _ hregistered⟩

theorem Kept.register (hk : Kept lib (h, events)) {r : Registration}
    {credential : AttestedCredential} (hq : h.request i = some (.attested r credential))
    (hnew : ∀ e ∈ events, e.newId ≠ some credential.credentialId) :
    Kept lib (({ h with store := (proceed lib h.store i o (.attested r credential)).1 } :
        Host).begin i (proceed lib h.store i o (.attested r credential)).2.1,
      events ++ (proceed lib h.store i o (.attested r credential)).2.2) := by
  have hrooted := hk.rooted.proceed hq o
  rw [proceed] at hrooted ⊢
  obtain ⟨e, heq⟩ | ⟨-, -, heq⟩ :=
    passkeyAdd_cases h.store r.subject credential.credentialId credential.publicKey o
  · rw [heq] at hrooted ⊢
    exact hk.quiet hrooted (Steady.refl _) rfl (.inl rfl)
      (request_of_begin hq (fun _ h => by cases h) rfl)
  · rw [heq] at hrooted ⊢
    obtain ⟨-, ⟨c, -, -, hchallenge, -⟩, -⟩ := hk.rooted.request i _ hq
    refine hk.accept hq (fun _ h => by cases h) (c := c) ?_ hrooted (fun _ _ _ _ h => by cases h)
      (fun _ _ _ _ _ _ h => by cases h) (fun j a found n hmem row hrow => ?_)
      (hk.rise.concat fun _ _ _ _ h => by cases h)
    · rw [PasskeyEvent.accepts, hchallenge]
      rfl
    · cases List.mem_append.mp hmem with
      | inl hold =>
        obtain ⟨j', r', key, hregistered⟩ := hk.rooted.registered_of_signedIn hold
        obtain ⟨hid, -⟩ | ⟨-, hrow⟩ := update_eq_some.mp hrow
        · exact absurd (congrArg some hid) (hnew _ hregistered)
        · exact hk.below j a found n hold row hrow
      | inr hlast => cases List.mem_singleton.mp hlast

theorem touch_eq_some {credentialId id : List UInt8} {n : Nat} {row' : PasskeyRow}
    (hwritten : o.written = true)
    (hrow' : (passkeyTouch s credentialId n o).passkey id = some row') :
    ∃ row, s.passkey id = some row ∧
      row'.signCount = if id = credentialId then n else row.signCount := by
  rw [passkeyTouch, if_pos hwritten] at hrow'
  dsimp only at hrow'
  obtain ⟨row, hrow, heq⟩ := updateWhere_eq_some.mp hrow'
  refine ⟨row, hrow, ?_⟩
  rw [← heq]
  by_cases hid : id = credentialId
  · rw [if_pos hid, if_pos (decide_eq_true hid)]
  · rw [if_neg hid, if_neg (by simpa using hid)]

theorem Kept.signIn (hk : Kept lib (h, events)) {a : Assertion} {found row : PasskeyRow} {n : Nat}
    (hq : h.request i = some (.verified a found n)) (hwritten : o.written = true)
    (hrow : h.store.passkey a.credentialId = some row) (hcounter : counterOk n row.signCount) :
    Kept lib (({ h with store := passkeyTouch h.store a.credentialId n o } : Host).begin i
      (.ended none), events ++ [.signedIn i a found n]) := by
  have hrooted := hk.rooted.proceed hq o
  rw [proceed] at hrooted
  obtain ⟨-, ⟨c, -, -, hchallenge, -⟩, -⟩ := hk.rooted.request i _ hq
  -- what was accepted before for the passkey is at most its counter
  have hbefore : ∀ j b found' n', .signedIn j b found' n' ∈ events →
      b.credentialId = a.credentialId → n' ≤ row.signCount := fun j b found' n' hmem hid =>
    hk.below j b found' n' hmem row (hid ▸ hrow)
  refine hk.accept hq (fun _ h => by cases h) (c := c) ?_ hrooted (fun _ _ _ _ h => by cases h)
    (fun _ _ _ _ _ _ h => by cases h) (fun j b found' n' hmem row' hrow' => ?_)
    (hk.rise.concat fun j b found' n' he i' a' found'' n'' hmem hid hne => ?_)
  · rw [PasskeyEvent.accepts, hchallenge]
    rfl
  · obtain ⟨old, hold, hcount⟩ := touch_eq_some hwritten hrow'
    rw [hcount]
    cases List.mem_append.mp hmem with
    | inl hmem =>
      by_cases hid : b.credentialId = a.credentialId
      · rw [if_pos hid]
        have hle := hbefore j b found' n' hmem hid
        obtain ⟨hzero, hstored⟩ | hgreater := hcounter
        · omega
        · omega
      · rw [if_neg hid]
        exact hk.below j b found' n' hmem old hold
    | inr hlast =>
      cases List.mem_singleton.mp hlast
      rw [if_pos rfl]
  · cases he
    have hle := hbefore i' a' found'' n'' hmem hid
    obtain ⟨hzero, hstored⟩ | hgreater := hcounter
    · omega
    · omega

/-- The first step of a request: it is known already, or it begins and is at most allowed. -/
def Opens (h : Host) (i : Nat) (next : Host × List PasskeyEvent) : Prop :=
  next = (h, []) ∨ ¬ (h.request i).isSome = true ∧ ∃ q more, next = (h.begin i q, more) ∧
    (more = [] ∨ ∃ subject, more = [.allowed i subject])

theorem opens_register (lib : CeremonyLibrary) (h : Host) (i : Nat) (r : Registration)
    (authorized : Bool) : Opens h i (step lib h (.register i r authorized)) := by
  rw [step]
  split
  · exact .inl rfl
  · next hnone =>
    refine .inr ⟨hnone, ?_⟩
    split
    · exact ⟨_, _, rfl, .inl rfl⟩
    · split
      · exact ⟨_, _, rfl, .inr ⟨_, rfl⟩⟩
      · exact ⟨_, _, rfl, .inl rfl⟩

theorem opens_authenticate (lib : CeremonyLibrary) (h : Host) (i : Nat) (a : Assertion)
    (selected : Bool) : Opens h i (step lib h (.authenticate i a selected)) := by
  rw [step]
  split
  · exact .inl rfl
  · next hnone =>
    refine .inr ⟨hnone, ?_⟩
    split
    · exact ⟨_, _, rfl, .inl rfl⟩
    · exact ⟨_, _, rfl, .inl rfl⟩

theorem Kept.opens (hk : Kept lib (h, events)) {action : Action}
    (hopens : Opens h i (step lib h action)) : Kept lib (logged (step lib) (h, events) action) := by
  have hrooted := hk.rooted.step action
  rw [logged]
  obtain heq | ⟨hnone, q, more, heq, hmore⟩ := hopens
  · rw [heq] at hrooted ⊢
    exact hk.quiet hrooted (Steady.refl _) rfl (.inl rfl) fun _ hi => hi
  · rw [heq] at hrooted ⊢
    refine hk.quiet hrooted (Steady.refl _) rfl ?_ (request_of_new hnone rfl)
    obtain hnil | ⟨subject, hone⟩ := hmore
    · exact .inl hnil
    · exact .inr ⟨_, hone, rfl, fun _ _ _ _ h => (by cases h),
        fun _ _ _ _ _ _ h => (by cases h), fun _ _ _ _ h => (by cases h)⟩

/-- The step lemma. -/
theorem Kept.step (hk : Kept lib p) {action : Action} (horderly : Orderly lib p action) :
    Kept lib (logged (Passkeys.step lib) p action) := by
  obtain ⟨h, events⟩ := p
  have hrooted := hk.rooted.step action
  cases action with
  | create ceremony subject o =>
    have hpasskey := challengeCreate_passkey h.store ceremony subject o
    refine hk.quiet hrooted (steady_of_passkey_eq hpasskey) rfl ?_ fun _ hi => hi
    rw [Passkeys.step]
    dsimp only
    split
    · exact .inl rfl
    · refine .inr ⟨_, rfl, rfl, fun _ _ _ _ h => (by cases h), fun _ _ _ _ _ _ h => (by cases h),
        fun _ _ _ _ h => ?_⟩
      cases h
      exact List.take_of_length_le horderly
  | prune now =>
    exact hk.quiet hrooted (Steady.refl _) rfl (.inl rfl) fun _ hi => hi
  | remove subject credentialId o =>
    exact hk.quiet hrooted (steady_remove h.store subject credentialId o) rfl (.inl rfl)
      fun _ hi => hi
  | register i r authorized => exact hk.opens (opens_register lib h i r authorized)
  | authenticate i a selected => exact hk.opens (opens_authenticate lib h i a selected)
  | proceed i o =>
    rw [logged]
    rw [Passkeys.step]
    dsimp only
    cases hq : h.request i with
    | none =>
      dsimp only
      rw [List.append_nil]
      exact hk
    | some q =>
      have hstep := horderly q hq
      have hnext := hk.rooted.proceed hq o
      cases q with
      | registering r =>
        obtain ⟨hpasskey, hevents⟩ := consumeFor_orderly i r.subject hstep
        exact hk.consume hq (fun _ h => by cases h) hpasskey hevents hnext
      | attested r credential => exact hk.register hq hstep
      | lookedUp a found =>
        obtain ⟨hpasskey, hevents⟩ := consumeFor_orderly i found.subject hstep
        exact hk.consume hq (fun _ h => by cases h) hpasskey hevents hnext
      | verified a found n =>
        obtain ⟨hwritten, row, hrow, -, -, hcounter⟩ := hstep
        exact hk.signIn hq hwritten hrow hcounter
      | ended refusal =>
        refine hk.quiet hnext (Steady.refl _) rfl (.inl rfl) fun j hj r hr => hj r ?_
        by_cases hji : j = i
        · subst hji
          rw [hq] at hr
          exact (Function.update_self j _ _).trans hr
        · exact (Function.update_of_ne hji _ _).trans hr

/-! ## What holds of orderly runs -/

/-- The request that an event consumed a challenge for. -/
def PasskeyEvent.consumer : PasskeyEvent → Option Nat
  | consumed i _ _ _ _ _ => some i
  | _ => none

/-- Every ceremony that a challenge led to has consumed it. -/
theorem Kept.accepted_le (hk : Kept lib (h, events)) (c : Text) :
    accepted lib events c ≤ challengeLedger.spent events c := by
  have hnodup : (((events.filterMap fun e => e.accepts lib).filter fun a => a.2 = c).map
      Prod.fst).Nodup := hk.once.sublist (List.filter_sublist.map _)
  have hsub : ((events.filterMap fun e => e.accepts lib).filter fun a => a.2 = c).map Prod.fst ⊆
      (events.filter fun e => challengeLedger.spends e = some c).filterMap
        PasskeyEvent.consumer := by
    intro i hi
    obtain ⟨⟨j, c'⟩, hmem, rfl⟩ := List.mem_map.mp hi
    obtain ⟨hgiven, hc⟩ := List.mem_filter.mp hmem
    obtain rfl : c' = c := of_decide_eq_true hc
    obtain ⟨e, he, haccepts⟩ := List.mem_filterMap.mp hgiven
    obtain ⟨before, later, heq⟩ := List.append_of_mem he
    have hbacked := hk.rooted.backed before e later heq
    have hconsumed : ∃ ceremony subject now d, .consumed j c' ceremony subject now d ∈ events := by
      cases e with
      | registered i r credentialId key =>
        obtain ⟨-, ⟨challenge, now, d, hchallenge, hbefore⟩, -⟩ := hbacked
        rw [PasskeyEvent.accepts, hchallenge] at haccepts
        cases haccepts
        exact ⟨_, _, now, d, heq ▸ List.mem_append_left _ hbefore⟩
      | signedIn i a found n =>
        obtain ⟨-, ⟨challenge, now, d, hchallenge, hbefore⟩, -⟩ := hbacked
        rw [PasskeyEvent.accepts, hchallenge] at haccepts
        cases haccepts
        exact ⟨_, _, now, d, heq ▸ List.mem_append_left _ hbefore⟩
      | issued challenge ceremony subject now => cases haccepts
      | allowed i subject => cases haccepts
      | consumed i challenge ceremony subject now d => cases haccepts
    obtain ⟨ceremony, subject, now, d, hmem⟩ := hconsumed
    obtain rfl := hk.deleted j c' ceremony subject now d hmem
    exact List.mem_filterMap.mpr ⟨_, List.mem_filter.mpr ⟨hmem, decide_eq_true rfl⟩, rfl⟩
  have hle := (hnodup.subperm hsub).length_le
  rw [List.length_map, ← List.countP_eq_length_filter] at hle
  refine hle.trans ((List.length_filterMap_le _ _).trans ?_)
  rw [Ledger.spent, List.countP_eq_length_filter]

theorem Kept.sound (hk : Kept lib p)
    (haccounts : Accounts challengeLedger Host.new.holds p.2 p.1.holds) : Sound lib p where
  once c := by
    have hledger := haccounts c
    rw [show Host.new.holds c = false from rfl, Bool.toNat_false, Nat.add_zero] at hledger
    exact (hk.accepted_le c).trans ((Nat.le_add_right _ _).trans hledger)
  founded := hk.rooted.backed
  subject i c ceremony subject now d hmem := by
    obtain ⟨before, later, heq⟩ := List.append_of_mem hmem
    obtain ⟨full, t, hissued, hsubject, hlive⟩ := hk.rooted.backed before _ later heq
    have hissued : .issued c ceremony full t ∈ p.2 := heq ▸ List.mem_append_left _ hissued
    rw [hk.fits c ceremony full t hissued] at hsubject
    exact ⟨t, hsubject ▸ hissued, hlive⟩
  rise := hk.rise

theorem stepSound_of_steady {action : Action}
    (hsigned : ∀ i a found n, .signedIn i a found n ∉ (step lib h action).2)
    (hsteady : Steady h.store (step lib h action).1.store) : StepSound lib (h, events) action :=
  ⟨fun i a found n hmem => absurd hmem (hsigned i a found n), fun _ _ _ => hsteady.stored⟩

/-- The store call of a request, in an orderly step. -/
theorem Orderly.proceed_stepSound (horderly : Orderly lib (h, events) (.proceed i o)) {q : Progress}
    (hq : h.request i = some q) : StepSound lib (h, events) (.proceed i o) := by
  have hstep := horderly q hq
  have hnext : step lib h (.proceed i o) =
      (({ h with store := (proceed lib h.store i o q).1 } : Host).begin i
        (proceed lib h.store i o q).2.1, (proceed lib h.store i o q).2.2) := by
    rw [step, hq]
    rfl
  have hconsumed : ∀ c : PasskeyStore × Bool × List PasskeyEvent, ∀ ceremony : Ceremony,
      (c.2.2 = [] ∨ ∃ challenge found,
        c.2.2 = [.consumed i challenge ceremony found o.now true]) →
      ∀ j a found n, .signedIn j a found n ∉ c.2.2 := by
    intro c ceremony hevents j a found n hmem
    obtain hnil | ⟨challenge, found', hone⟩ := hevents
    · rw [hnil] at hmem
      cases hmem
    · rw [hone] at hmem
      cases List.mem_singleton.mp hmem
  cases q with
  | registering r =>
    obtain ⟨hpasskey, hevents⟩ := consumeFor_orderly i r.subject hstep
    refine stepSound_of_steady ?_ ?_
    · rw [hnext]
      exact hconsumed _ _ hevents
    · rw [hnext]
      exact steady_of_passkey_eq hpasskey
  | lookedUp a found =>
    obtain ⟨hpasskey, hevents⟩ := consumeFor_orderly i found.subject hstep
    refine stepSound_of_steady ?_ ?_
    · rw [hnext]
      exact hconsumed _ _ hevents
    · rw [hnext]
      exact steady_of_passkey_eq hpasskey
  | attested r credential =>
    obtain ⟨e, heq⟩ | ⟨-, hnone, heq⟩ :=
      passkeyAdd_cases h.store r.subject credential.credentialId credential.publicKey o
    · refine stepSound_of_steady ?_ ?_
      · rw [hnext, proceed, heq]
        exact fun _ _ _ _ hmem => by cases hmem
      · rw [hnext, proceed, heq]
        exact Steady.refl _
    · constructor
      · intro j a found n hmem
        rw [hnext, proceed, heq] at hmem
        cases List.mem_singleton.mp hmem
      · intro id row row' hrow hrow'
        rw [hnext, proceed, heq] at hrow'
        obtain ⟨rfl, -⟩ | ⟨-, hold⟩ := update_eq_some.mp hrow'
        · rw [hnone] at hrow
          cases hrow
        · exact (Steady.refl h.store).stored hrow hold
  | verified a found n =>
    obtain ⟨hwritten, row, hrow, hsubject, hkey, hcounter⟩ := hstep
    constructor
    · intro j a' found' n' hmem
      rw [hnext, proceed] at hmem
      cases List.mem_singleton.mp hmem
      exact ⟨row, hrow, hsubject, hkey⟩
    · intro id row₀ row' hrow₀ hrow'
      rw [hnext, proceed] at hrow'
      obtain ⟨old, hold, hcount⟩ := touch_eq_some hwritten hrow'
      obtain rfl : row₀ = old := Option.some.inj (hrow₀.symm.trans hold)
      rw [hcount]
      by_cases hid : id = a.credentialId
      · rw [if_pos hid]
        obtain rfl : row = row₀ := Option.some.inj (hrow.symm.trans (hid ▸ hrow₀))
        obtain ⟨-, hstored⟩ | hgreater := hcounter
        · exact hstored.le.trans (Nat.zero_le n)
        · exact Nat.le_of_lt hgreater
      · rw [if_neg hid]
  | ended refusal =>
    refine stepSound_of_steady ?_ ?_
    · rw [hnext]
      exact fun _ _ _ _ hmem => by cases hmem
    · rw [hnext]
      exact Steady.refl _

theorem Opens.stepSound {action : Action} (hopens : Opens h i (step lib h action)) :
    StepSound lib (h, events) action := by
  obtain heq | ⟨-, q, more, heq, hmore⟩ := hopens
  · refine stepSound_of_steady ?_ ?_
    · rw [heq]
      exact fun _ _ _ _ hmem => by cases hmem
    · rw [heq]
      exact Steady.refl _
  · refine stepSound_of_steady (fun j a found n hmem => ?_) ?_
    · rw [heq] at hmem
      obtain rfl | ⟨subject, rfl⟩ := hmore
      · cases hmem
      · cases List.mem_singleton.mp hmem
    · rw [heq]
      exact Steady.refl _

theorem Orderly.stepSound {action : Action} (horderly : Orderly lib p action) :
    StepSound lib p action := by
  obtain ⟨h, events⟩ := p
  cases action with
  | create ceremony subject o =>
    have hpasskey := challengeCreate_passkey h.store ceremony subject o
    refine stepSound_of_steady (fun i a found n hmem => ?_) (steady_of_passkey_eq hpasskey)
    rw [step] at hmem
    dsimp only at hmem
    split at hmem
    · cases hmem
    · cases List.mem_singleton.mp hmem
  | prune now => exact stepSound_of_steady (fun _ _ _ _ hmem => by cases hmem) (Steady.refl _)
  | remove subject credentialId o =>
    exact stepSound_of_steady (fun _ _ _ _ hmem => by cases hmem)
      (steady_remove h.store subject credentialId o)
  | register i r authorized => exact (opens_register lib h i r authorized).stepSound
  | authenticate i a selected => exact (opens_authenticate lib h i a selected).stepSound
  | proceed i o =>
    cases hq : h.request i with
    | none =>
      have hnext : step lib h (.proceed i o) = (h, []) := by rw [step, hq]
      refine stepSound_of_steady ?_ ?_
      · rw [hnext]
        exact fun _ _ _ _ hmem => by cases hmem
      · rw [hnext]
        exact Steady.refl _
    | some q => exact horderly.proceed_stepSound hq

/-- In every run whose steps are orderly, the ceremonies are sound in every state, and every step
keeps the counters and signs in with a passkey that is there. -/
theorem orderly_ceremonies_sound (lib : CeremonyLibrary) (run : List Action)
    (horderly : Steps (logged (step lib)) (Orderly lib) (.new, []) run) :
    States (logged (step lib)) (Sound lib) (.new, []) run ∧
      Steps (logged (step lib)) (StepSound lib) (.new, []) run := by
  have hkept : States (logged (step lib)) (fun p => Kept lib p ∧
      Accounts challengeLedger Host.new.holds p.2 p.1.holds) (.new, []) run :=
    states_of_steps ⟨kept_new lib, accounts_nil fun _ => id⟩
      (fun p action hp ho => ⟨hp.1.step ho, hp.2.append (step_accounts lib p.1 action)⟩) horderly
  exact ⟨hkept.imp fun p hp => hp.1.sound hp.2,
    Steps.imp (J := fun _ => True) trivial (fun _ _ _ ho => ho.stepSound) (fun _ _ _ _ => trivial)
      horderly⟩

/-! ## A passkey that is removed in between -/

/-- A text as its bytes. -/
def text (s : String) : Text := s.toUTF8.toList

/-- The SHA-256 of `a`, the name of the server. -/
def exampleRpIdHash : List UInt8 :=
  [202, 151, 129, 18, 202, 27, 189, 202, 250, 194, 49, 179, 154, 35, 220, 77, 167, 134, 239, 248,
   20, 124, 78, 114, 185, 128, 119, 133, 175, 238, 72, 187]

/-- The client data of the registration, -/
def createClientData : List UInt8 :=
  text "\x7b\"type\":\"webauthn.create\",\"challenge\":\"c1\",\"origin\":\"https://a\"\x7d"

/-- and of the authentication, -/
def getClientData : List UInt8 :=
  text "\x7b\"type\":\"webauthn.get\",\"challenge\":\"c2\",\"origin\":\"https://a\"\x7d"

/-- with its SHA-256. -/
def getClientDataHash : List UInt8 :=
  [95, 150, 168, 151, 226, 9, 85, 17, 26, 31, 223, 20, 143, 112, 11, 242, 126, 72, 129, 240, 122,
   139, 46, 36, 88, 104, 41, 64, 87, 230, 82, 154]

/-- The key of the passkey. -/
def exampleKey : P256Key where
  x :=
    [159, 173, 132, 174, 174, 8, 187, 239, 127, 1, 0, 20, 216, 44, 239, 106, 9, 222, 43, 12, 248,
     113, 181, 206, 12, 79, 29, 19, 165, 154, 89, 52]
  y :=
    [7, 203, 69, 118, 159, 16, 112, 226, 194, 71, 15, 229, 177, 191, 230, 49, 51, 192, 176, 205,
     198, 78, 164, 191, 55, 145, 168, 236, 42, 7, 253, 79]

/-- The credential `*`, with the key in the map that COSE has for it. -/
def exampleAttestation : List UInt8 :=
  [0xa1, 0x68] ++ authDataName ++ [0x58, 0x85] ++ exampleRpIdHash ++ [0x41, 0, 0, 0, 0] ++
    List.replicate 16 0 ++ [0, 1, 42, 0xa5, 0x01, 0x02, 0x03, 0x26, 0x20, 0x01, 0x21, 0x58, 0x20] ++
    exampleKey.x ++ [0x22, 0x58, 0x20] ++ exampleKey.y

/-- The registration, -/
def exampleRegistration : Registration :=
  ⟨text "did:web:a", createClientData, exampleAttestation⟩

/-- and the authentication, with the counter one and the signature of the key. -/
def exampleAssertion : Assertion where
  credentialId := [42]
  clientData := getClientData
  authenticatorData := exampleRpIdHash ++ [1, 0, 0, 0, 1]
  signature :=
    [48, 69, 2, 32, 52, 143, 50, 20, 172, 84, 68, 39, 221, 117, 163, 191, 66, 53, 95, 246, 94, 3,
     171, 126, 241, 135, 176, 91, 27, 100, 109, 150, 140, 162, 178, 153, 2, 33, 0, 146, 203, 233,
     13, 4, 40, 179, 216, 161, 138, 153, 38, 188, 172, 132, 211, 163, 74, 237, 224, 28, 209, 132,
     23, 210, 155, 251, 209, 212, 238, 230, 71]

/-- What the libraries make of these. -/
def exampleLibrary : CeremonyLibrary where
  publicUrl := some (text "https://a")
  clientData data :=
    if data = createClientData then
      some ⟨some webauthnCreate, some (text "https://a"), some (text "c1"), false⟩
    else if data = getClientData then
      some ⟨some webauthnGet, some (text "https://a"), some (text "c2"), false⟩
    else none
  rpId := some (text "a")
  sha256 data := if data = text "a" then some exampleRpIdHash else some getClientDataHash
  verifies key data signature := decide (key = exampleKey ∧
    data = exampleAssertion.authenticatorData ++ getClientDataHash ∧
      signature = exampleAssertion.signature)

/-- Every statement is carried out. -/
def carriedOut : CallOutcome := ⟨1, true, true, true, true⟩

/-- The passkey is registered, and the request to sign in comes up to the counter. -/
def signInRun : List Action :=
  [.create .registration (text "did:web:a") ⟨0, .ok (text "c1"), 0, true, true⟩,
    .register 0 exampleRegistration true, .proceed 0 carriedOut, .proceed 0 carriedOut,
    .create .authentication (text "did:web:a") ⟨0, .ok (text "c2"), 0, true, true⟩,
    .authenticate 1 exampleAssertion true, .proceed 1 carriedOut]

/-- The passkey is removed before the counter is stored. -/
def removedRun : List Action :=
  signInRun ++ [.remove (text "did:web:a") [42] carriedOut, .proceed 1 carriedOut]

theorem orderly_proceed {q : Progress} (hq : p.1.request i = some q)
    (hstep : q.Orderly lib p.1.store p.2 o) : Orderly lib p (.proceed i o) := by
  intro q' hq'
  obtain rfl := Option.some.inj (hq.symm.trans hq')
  exact hstep

/-- A sign-in that nobody comes between. -/
theorem signInRun_sound :
    States (logged (step exampleLibrary)) (Sound exampleLibrary) (.new, [])
        (signInRun ++ [.proceed 1 carriedOut]) ∧
      Steps (logged (step exampleLibrary)) (StepSound exampleLibrary) (.new, [])
        (signInRun ++ [.proceed 1 carriedOut]) := by
  refine orderly_ceremonies_sound exampleLibrary (signInRun ++ [Action.proceed 1 carriedOut])
    ⟨?_, trivial, ?_, ?_, ?_, trivial, ?_, ?_, trivial⟩
  · exact (by decide +kernel : (text "did:web:a").length ≤ 255)
  · exact orderly_proceed (q := .registering exampleRegistration) (by decide +kernel) fun _ => rfl
  · refine orderly_proceed (q := .attested exampleRegistration
      ⟨exampleRpIdHash, 0x41, 0, [42], exampleKey⟩) (by decide +kernel) ?_
    change ∀ e ∈ _, PasskeyEvent.newId e ≠ some [42]
    decide +kernel
  · exact (by decide +kernel : (text "did:web:a").length ≤ 255)
  · exact orderly_proceed (q := .lookedUp exampleAssertion ⟨text "did:web:a", exampleKey, 0⟩)
      (by decide +kernel) fun _ => rfl
  · exact orderly_proceed (q := .verified exampleAssertion ⟨text "did:web:a", exampleKey, 0⟩ 1)
      (by decide +kernel) ⟨rfl, ⟨text "did:web:a", exampleKey, 0⟩, by decide +kernel,
        by decide +kernel, rfl, by decide⟩

/-- The last call signs in with a passkey that is no longer there. -/
theorem removed_passkey_signs_in :
    ¬ Steps (logged (step exampleLibrary)) (StepSound exampleLibrary) (.new, []) removedRun := by
  intro h
  have hlast := ((steps_append).mp h).2.2.1
  have hsigned : (step exampleLibrary (logged (step exampleLibrary)
      (exec (logged (step exampleLibrary)) (.new, []) signInRun)
      (.remove (text "did:web:a") [42] carriedOut)).1 (.proceed 1 carriedOut)).2 =
        [.signedIn 1 exampleAssertion ⟨text "did:web:a", exampleKey, 0⟩ 1] := by decide +kernel
  have hgone : (logged (step exampleLibrary)
      (exec (logged (step exampleLibrary)) (.new, []) signInRun)
      (.remove (text "did:web:a") [42] carriedOut)).1.store.passkey [42] = none := by
    decide +kernel
  obtain ⟨row, hrow, -⟩ := hlast.live 1 exampleAssertion ⟨text "did:web:a", exampleKey, 0⟩ 1
    (hsigned ▸ List.mem_cons_self)
  exact absurd (hgone.symm.trans hrow) (Option.some_ne_none row).symm

end MetalBear.OAuth.Passkeys
